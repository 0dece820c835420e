import Cinst.Lib.Interleave
import Cinst.Native.Container

/-!
A process in tag mode: the threads run the functions of the native library that issue and look up
tags, one operation at a time: a call of JVMTI, an access to a shared variable, a reading of the clock
or the adding of a record each.

The environments of JVMTI are made as `init_jvmti` makes them, by the first call on each thread. Two
threads may both find `jvmti_env[0]` unset, and then the second one replaces the environments of the
first, with all their tags. A thread may also find an environment that another thread has stored and
not yet given the capability `can_tag_objects`; `GetTag` and `SetTag` only return an error then.
-/

namespace Cinst.Record

/-- `ConstructRecord<0>`: the object at `addr` was constructed. -/
structure ConstructRecord where
  line : UInt16
  classNameId : UInt16
  objTypeid : Int32
  addr : Addr
  time : Time
  deriving DecidableEq, Repr

end Cinst.Record

namespace Cinst.Native

open Cinst.Lib Cinst.Record

/-! ### The process -/

/-- A record of the functions that issue or look up tags. -/
inductive TagRecord where
  | new (r : NewRecord)
  | construct (r : ConstructRecord)
  | putField (r : PutFieldRecord)
  | aaStore (r : AAStoreRecord)
  | use (r : UseRecord)
  | container (e : Entry)
  | lineInfo (r : ContainerLineInfoRecord)
  deriving DecidableEq

/-- The time of a record. -/
def TagRecord.time : TagRecord → Time
  | .new r => r.time
  | .construct r => r.time
  | .putField r => r.time
  | .aaStore r => r.time
  | .use r => r.time
  | .container e => e.br.time
  | .lineInfo r => r.time

/-- The thread that adds a record, the record, and the objects that the call has looked up, or tagged,
with their tags. -/
structure Added (Tid Obj : Type*) where
  tid : Tid
  record : TagRecord
  found : List (Option Obj × Int64)
  deriving DecidableEq

/-- The clock, the tag maps of the environments of JVMTI by their numbers (`0` for no tag), which of
them have the capability `can_tag_objects` and how many there are, the shared variables, and the
variables of the threads. The records are kept in the order in which they are added; those of one
thread and one type are the contents of its recorder. It is kept which thread asked for which tag. -/
structure TagProcess (Tid Obj : Type*) where
  clock : Time
  tagMaps : ℕ → Obj → Int64
  canTagObjects : ℕ → Bool
  created : ℕ
  jvmtiEnv : ℕ → Option ℕ
  globalTag : Int64
  newCalled : Bool
  localJvmtiEnv : Tid → Option ℕ
  enable : Tid → Bool
  isSampledContainer : Tid → Bool
  added : List (Added Tid Obj)
  issued : List (Tid × Option Obj)

/-- A program of a thread. -/
abbrev TagProg (Tid Obj : Type*) := Prog (TagProcess Tid Obj)

namespace TagProcess

/-- A process before the first call. -/
def init {Tid Obj : Type*} : TagProcess Tid Obj where
  clock := 0
  tagMaps := fun _ _ => 0
  canTagObjects := fun _ => false
  created := 0
  jvmtiEnv := fun _ => none
  globalTag := 10
  newCalled := false
  localJvmtiEnv := fun _ => none
  enable := fun _ => true
  isSampledContainer := fun _ => true
  added := []
  issued := []

section Calls

variable {Tid Obj : Type*} [DecidableEq Tid] [DecidableEq Obj]

/-! ### Operations -/

/-- `nanotime()`. -/
def nanotime : TagProg Tid Obj Time := .get TagProcess.clock

/-- `GetEnv`: a new environment. -/
def getEnv : TagProg Tid Obj ℕ :=
  .act fun s => some (s.created, { s with created := s.created + 1 })

/-- `AddCapabilities` of `can_tag_objects`, through a variable that must not be null. -/
def addCapabilities (env : TagProcess Tid Obj → Option ℕ) : TagProg Tid Obj Unit :=
  .act fun s => (env s).map fun e =>
    ((), { s with canTagObjects := Function.update s.canTagObjects e true })

/-- `GetTag` in an environment, through a variable that must not be null. -/
def tagMapGet (env : TagProcess Tid Obj → Option ℕ) (obj : Option Obj) (tag : Int64) :
    TagProg Tid Obj Int64 :=
  .act fun s => (env s).map fun e =>
    (if s.canTagObjects e then jvmtiGetTag (s.tagMaps e) obj tag else tag, s)

/-- `SetTag` in an environment, through a variable that must not be null. -/
def tagMapSet (env : TagProcess Tid Obj → Option ℕ) (obj : Option Obj) (tag : Int64) :
    TagProg Tid Obj Unit :=
  .act fun s => (env s).map fun e =>
    ((), { s with tagMaps := if s.canTagObjects e
      then Function.update s.tagMaps e (jvmtiSetTag (s.tagMaps e) obj tag) else s.tagMaps })

/-- `global_tag++`, for an object. -/
def nextTag (t : Tid) (obj : Option Obj) : TagProg Tid Obj Int64 :=
  .act fun s => some (s.globalTag,
    { s with globalTag := s.globalTag + 1, issued := s.issued ++ [(t, obj)] })

/-- A record is added to its recorder. -/
def add (t : Tid) (record : TagRecord) (found : List (Option Obj × Int64)) : TagProg Tid Obj Unit :=
  .modify fun s => { s with added := s.added ++ [⟨t, record, found⟩] }

/-- A variable of a thread is set. -/
def setEnable (t : Tid) (b : Bool) : TagProg Tid Obj Unit :=
  .modify fun s => { s with enable := Function.update s.enable t b }

def setIsSampledContainer (t : Tid) (b : Bool) : TagProg Tid Obj Unit :=
  .modify fun s => { s with isSampledContainer := Function.update s.isSampledContainer t b }

/-! ### Environments and tags -/

/-- `JVMTI_BUCKET_SIZE`. -/
def jvmtiBucketSize : ℕ := 1024

/-- The loop of `init_jvmti` over the elements of `jvmti_env`. -/
def initEnvs : List ℕ → TagProg Tid Obj Unit
  | [] => pure ()
  | i :: is => do
    let env ← getEnv
    .modify fun s => { s with jvmtiEnv := Function.update s.jvmtiEnv i (some env) }
    -- another thread may have replaced the environment here
    addCapabilities fun s => s.jvmtiEnv i
    initEnvs is

/-- The environments that are shared. -/
def initShared : TagProg Tid Obj Unit := do
  let env ← .get fun s => s.jvmtiEnv 0
  if env = none then initEnvs (List.range (jvmtiBucketSize + 1)) else pure ()

/-- `local_jvmti_env`. -/
def localEnvOf (t : Tid) (s : TagProcess Tid Obj) : Option ℕ := s.localJvmtiEnv t

/-- The environment of the thread. -/
def initLocal (t : Tid) : TagProg Tid Obj Unit := do
  let env ← .get (localEnvOf t)
  if env = none then do
    let env ← getEnv
    .modify fun s => { s with localJvmtiEnv := Function.update s.localJvmtiEnv t (some env) }
    addCapabilities (localEnvOf t)
  else pure ()

/-- `init_jvmti`. -/
def initJvmti (t : Tid) : TagProg Tid Obj Unit := do
  initShared
  initLocal t

/-- `jvmti_env[0]`. -/
def globalEnv (s : TagProcess Tid Obj) : Option ℕ := s.jvmtiEnv 0

/-- `get_tag`, where `local_tag` has the given value before. -/
def getTag (t : Tid) (localTag : Int64) (obj : Option Obj) : TagProg Tid Obj Int64 := do
  let local₁ ← tagMapGet (localEnvOf t) obj localTag
  if local₁ ≠ 0 then pure local₁
  else do
    let local₂ ← tagMapGet globalEnv obj local₁
    if local₂ ≠ 0 then do
      tagMapSet (localEnvOf t) obj local₂
      pure local₂
    else do
      tagMapSet (localEnvOf t) obj (-1)
      pure (-1)

/-- Several calls of `get_tag`, the first of them the `n`-th of the function. -/
def getTags (t : Tid) (localTag : ℕ → Int64) : ℕ → List (Option Obj) → TagProg Tid Obj (List Int64)
  | _, [] => pure []
  | n, obj :: objs => do
    let tag ← getTag t (localTag n) obj
    let tags ← getTags t localTag (n + 1) objs
    pure (tag :: tags)

/-- `set_tag`. -/
def setTag (t : Tid) (obj : Option Obj) (tag : Int64) : TagProg Tid Obj Unit := do
  tagMapSet (localEnvOf t) obj tag
  tagMapSet globalEnv obj tag

/-! ### The functions -/

/-- `addTagNewRecord`; `skip` is the outcome of the comparison with `rand()`. -/
def addTagNewRecord (t : Tid) (skip : Bool) (obj : Option Obj) (objTypeid line classNameId : Int32)
    (objSize : Int64) : TagProg Tid Obj Unit :=
  if skip then pure ()
  else do
    let time ← nanotime
    let tag ← nextTag t obj
    add t (.new (tagNewRecord tag objTypeid line classNameId objSize time)) [(obj, tag)]
    initJvmti t
    setTag t obj tag
    .modify fun s => { s with newCalled := true }

/-- `addTagConstructRecord`. -/
def addTagConstructRecord (t : Tid) (localTag : ℕ → Int64) (obj : Option Obj)
    (objTypeid line classNameId : Int32) : TagProg Tid Obj Unit := do
  initJvmti t
  let tag ← getTag t (localTag 0) obj
  if !isSampledObject tag then pure ()
  else do
    let time ← nanotime
    add t (.construct ⟨line.toUInt32.toUInt16, classNameId.toUInt32.toUInt16, objTypeid,
      addrOfTag tag, time⟩) [(obj, tag)]

/-- The tag of a holder for a record; a new one has `NOT_SAMPLED_MASK` in the tag maps only. -/
def holderTag (t : Tid) (localTag : Int64) (holder : Option Obj) : TagProg Tid Obj Int64 := do
  let tag ← getTag t localTag holder
  if tag = 0 then do
    let tag ← nextTag t holder
    setTag t holder (tag ||| notSampledMask)
    pure tag
  else pure tag

/-- `addTagPutFieldRecord`. -/
def addTagPutFieldRecord (t : Tid) (localTag : ℕ → Int64) (holder ref : Option Obj)
    (line classNameId fieldId : Int32) : TagProg Tid Obj Unit := do
  let time ← nanotime
  initJvmti t
  let refTag ← getTag t (localTag 0) ref
  if !isSampledObject refTag then pure ()
  else do
    let tag ← holderTag t (localTag 1) holder
    add t (.putField ⟨line.toUInt32.toUInt16, classNameId.toUInt32.toUInt16, fieldId,
      addrOfTag tag, addrOfTag refTag, time⟩) [(ref, refTag), (holder, tag)]

/-- `addTagAASTORERecord`. -/
def addTagAASTORERecord (t : Tid) (localTag : ℕ → Int64) (holder : Option Obj) (index : Int32)
    (ref : Option Obj) (line classNameId : Int32) : TagProg Tid Obj Unit := do
  initJvmti t
  let refTag ← getTag t (localTag 0) ref
  if !isSampledObject refTag then pure ()
  else do
    let time ← nanotime
    let tag ← holderTag t (localTag 1) holder
    add t (.aaStore ⟨line.toUInt32.toUInt16, classNameId.toUInt32.toUInt16, index,
      addrOfTag tag, addrOfTag refTag, time⟩) [(ref, refTag), (holder, tag)]

/-- What `addTagUseRecord` does when `new_called` is set and `jvmti_valid` holds. -/
def addUse (t : Tid) (localTag : ℕ → Int64) (type : Int32) (obj : Option Obj)
    (line classNameId : Int32) : TagProg Tid Obj Unit := do
  initJvmti t
  let tag ← getTag t (localTag 0) obj
  if !isSampledObject tag then pure ()
  else do
    let time ← nanotime
    add t (.use ⟨type.toUInt32.toUInt16, line.toUInt32.toUInt16, classNameId.toUInt32.toUInt16,
      addrOfTag tag, time⟩) [(obj, tag)]

/-- `addTagUseRecord`. -/
def addTagUseRecord (t : Tid) (localTag : ℕ → Int64) (type : Int32) (obj : Option Obj)
    (line classNameId : Int32) : TagProg Tid Obj Unit := do
  let newCalled ← .get TagProcess.newCalled
  if !newCalled then pure ()
  else do
    let env ← .get globalEnv
    if env = none then pure () else addUse t localTag type obj line classNameId

/-- The entry points `addContainerRecordList*` and `addContainerRecordMap*`. -/
def addContainerRecord (t : Tid) (localTag : ℕ → Int64) (op : ContainerOp Obj) :
    TagProg Tid Obj Unit := do
  let enable ← .get fun s => s.enable t
  if !enable then pure ()
  else do
    initJvmti t
    let holderTag ← getTag t (localTag 0) op.holder
    if !isSampledObject holderTag then setIsSampledContainer t false
    else do
      setIsSampledContainer t true
      let tags ← getTags t localTag 1 op.objs
      let time ← nanotime
      add t (.container (op.entry holderTag tags time)) ((op.holder, holderTag) :: op.objs.zip tags)

/-- `addContainerLineInfoRecord`. -/
def addLineInfo (t : Tid) (line classNameId : Int32) : TagProg Tid Obj Unit := do
  let enable ← .get fun s => s.enable t
  let sampled ← .get fun s => s.isSampledContainer t
  if !enable || !sampled then pure ()
  else do
    let time ← nanotime
    add t (.lineInfo (lineRecord line classNameId time)) []

end Calls

end TagProcess

/-- A call of a function of the library. -/
inductive TagCall (Obj : Type*) where
  | new (skip : Bool) (obj : Option Obj) (objTypeid line classNameId : Int32) (objSize : Int64)
  | construct (obj : Option Obj) (objTypeid line classNameId : Int32)
  | putField (holder ref : Option Obj) (line classNameId fieldId : Int32)
  | aaStore (holder : Option Obj) (index : Int32) (ref : Option Obj) (line classNameId : Int32)
  | use (type : Int32) (obj : Option Obj) (line classNameId : Int32)
  | container (call : ContainerCall Obj)
  | lineInfo (line classNameId : Int32)
  | enableRecord
  | disableRecord

section Process

variable {Tid Obj : Type*} [DecidableEq Tid] [DecidableEq Obj]

open TagProcess

/-- What a thread does in a call, where `localTag` are the values that `local_tag` has before the
calls of `get_tag`. -/
def TagCall.body (t : Tid) (c : TagCall Obj × (ℕ → Int64)) : TagProg Tid Obj Unit :=
  match c.1 with
  | .new skip obj objTypeid line classNameId objSize =>
    addTagNewRecord t skip obj objTypeid line classNameId objSize
  | .construct obj objTypeid line classNameId =>
    addTagConstructRecord t c.2 obj objTypeid line classNameId
  | .putField holder ref line classNameId fieldId =>
    addTagPutFieldRecord t c.2 holder ref line classNameId fieldId
  | .aaStore holder index ref line classNameId =>
    addTagAASTORERecord t c.2 holder index ref line classNameId
  | .use type obj line classNameId => addTagUseRecord t c.2 type obj line classNameId
  | .container call => addContainerRecord t c.2 call.op
  | .lineInfo line classNameId => addLineInfo t line classNameId
  | .enableRecord => setEnable t true
  | .disableRecord => setEnable t false

/-- The clock goes on. -/
def tick (s : TagProcess Tid Obj) (clock : Time) : Option (TagProcess Tid Obj) :=
  if s.clock ≤ clock then some { s with clock := clock } else none

/-- The threads of a process in tag mode. -/
abbrev TagThreads (Tid Obj : Type*) := Threads Tid (TagProcess Tid Obj)

/-- The steps of a process in tag mode. -/
abbrev TagThreads.step (s : TagThreads Tid Obj) :
    ThreadAct Tid (TagCall Obj × (ℕ → Int64)) Time → Option (TagThreads Tid Obj) :=
  Threads.step TagCall.body tick s

end Process

end Cinst.Native
