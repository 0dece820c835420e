import Cinst.Native.Tags
import Cinst.Record.Container

/-!
The recording of container operations on one thread: the entry points `addContainerRecordList*` and
`addContainerRecordMap*`, which remember in `is_sampled_container` whether the container of the last
operation is sampled, `addContainerLineInfoRecord`, which an instrumented call makes after the
operation, and the flag `enable`.

The functions of the first group differ in the objects that they look up and in the members of the
record that they fill in; `ContainerOp` is what they have in common.
-/

namespace Cinst.Native

open Cinst.Lib Cinst.Record

/-! ### The thread -/

/-- The variables of a thread, with its tag map and the global one (`0` for no tag). A recorder is
given by the records that were added to it. -/
structure Thread (Obj : Type*) where
  enable : Bool
  isSampledContainer : Bool
  localEnv : Obj → Int64
  jvmtiEnv : Obj → Int64
  listAndSetRecord : List (Raw Kind.listAndSet.size)
  mapRecord : List (Raw Kind.map.size)
  containerLineInfoRecorder : List (Raw Kind.containerLineInfo.size)

/-- What a call reads besides the variables: the clock, and memory that is not initialised, which
is `local_tag` of the `n`-th call of `get_tag` and the record on the stack. -/
structure Ambient where
  nanotime : Time
  localTag : ℕ → Int64
  stack : Bytes

section Thread

variable {Obj : Type*} [DecidableEq Obj]

/-- `GetTag`: on a null reference it fails and leaves `*tag` as it is. -/
def jvmtiGetTag (env : Obj → Int64) (obj : Option Obj) (tag : Int64) : Int64 := obj.elim tag env

/-- `SetTag`: on a null reference it fails. -/
def jvmtiSetTag (env : Obj → Int64) (obj : Option Obj) (tag : Int64) : Obj → Int64 :=
  obj.elim env fun o => Function.update env o tag

namespace Thread

/-- A thread at its start. -/
def init (localEnv jvmtiEnv : Obj → Int64) : Thread Obj where
  enable := true
  isSampledContainer := true
  localEnv := localEnv
  jvmtiEnv := jvmtiEnv
  listAndSetRecord := []
  mapRecord := []
  containerLineInfoRecorder := []

/-- `get_tag`, where `local_tag` has the given value before. -/
def getTag (localTag : Int64) (obj : Option Obj) (s : Thread Obj) : Int64 × Thread Obj :=
  let local₁ := jvmtiGetTag s.localEnv obj localTag
  if local₁ ≠ 0 then (local₁, s)
  else
    let local₂ := jvmtiGetTag s.jvmtiEnv obj local₁
    if local₂ ≠ 0 then (local₂, { s with localEnv := jvmtiSetTag s.localEnv obj local₂ })
    else (-1, { s with localEnv := jvmtiSetTag s.localEnv obj (-1) })

/-- Several calls of `get_tag`, the first of them the `n`-th of the function. -/
def getTags (amb : Ambient) : ℕ → List (Option Obj) → Thread Obj → List Int64 × Thread Obj
  | _, [], s => ([], s)
  | n, obj :: objs, s =>
    let tag := s.getTag (amb.localTag n) obj
    let rest := getTags amb (n + 1) objs tag.2
    (tag.1 :: rest.1, rest.2)

/-- `listAndSetRecord.add(r)` or `mapRecord.add(r)`. -/
def add (amb : Ambient) (s : Thread Obj) : Entry → Thread Obj
  | .listAndSet r =>
    { s with listAndSetRecord := s.listAndSetRecord ++ [r.toRaw (Raw.ofBytes _ amb.stack)] }
  | .map r => { s with mapRecord := s.mapRecord ++ [r.toRaw (Raw.ofBytes _ amb.stack)] }

end Thread

/-! ### Container operations -/

/-- A call of an entry point: the container, the other objects that are looked up, and the record
for the tags that are found and the time. -/
structure ContainerOp (Obj : Type*) where
  holder : Option Obj
  objs : List (Option Obj)
  entry : Int64 → List Int64 → Time → Entry

/-- The tag of the `n`-th object in a member of type `addr_t`. -/
def tagAt (n : ℕ) (tags : List Int64) : Addr := addrOfTag (tags.getD n 0)

/-- The member `br`. -/
def containerBr (holderTag : Int64) (ref : Addr) (size cid copid : Int32) (time : Time) :
    ContainerRecord :=
  ⟨addrOfTag holderTag, ref, cid.toUInt32.toUInt16, copid.toUInt32.toUInt16, time, size.toUInt32⟩

/-- An entry point that adds a `ListAndSetRecord`. -/
def listAndSetOp (holder : Option Obj) (objs : List (Option Obj)) (ref : List Int64 → Addr)
    (idxOrSucc : UInt32) (size cid copid : Int32) : ContainerOp Obj where
  holder := holder
  objs := objs
  entry holderTag tags time :=
    .listAndSet ⟨containerBr holderTag (ref tags) size cid copid time, idxOrSucc⟩

/-- An entry point that adds a `MapRecord`. -/
def mapOp (holder : Option Obj) (objs : List (Option Obj)) (ref value key : List Int64 → Addr)
    (size cid copid : Int32) : ContainerOp Obj where
  holder := holder
  objs := objs
  entry holderTag tags time :=
    .map ⟨containerBr holderTag (ref tags) size cid copid time, value tags, key tags⟩

def addContainerRecordList15 (retobj holder : Option Obj) (idxOrSucc size cid copid : Int32) :
    ContainerOp Obj :=
  listAndSetOp holder [retobj] (tagAt 0) idxOrSucc.toUInt32 size cid copid

def addContainerRecordList6 (holder : Option Obj) (idx : Int32) (ref : Option Obj)
    (size cid copid : Int32) : ContainerOp Obj :=
  listAndSetOp holder [ref] (tagAt 0) idx.toUInt32 size cid copid

def addContainerRecordList4 (holder : Option Obj) (size cid copid : Int32) : ContainerOp Obj :=
  listAndSetOp holder [] (fun _ => 0) 0 size cid copid

def addContainerRecordListI5 (idx : Int32) (holder ref : Option Obj) (size cid copid : Int32) :
    ContainerOp Obj :=
  listAndSetOp holder [ref] (tagAt 0) idx.toUInt32 size cid copid

def addContainerRecordList14 (retobj holder : Option Obj) (size cid copid : Int32) :
    ContainerOp Obj :=
  listAndSetOp holder [retobj] (tagAt 0) 0 size cid copid

def addContainerRecordList5 (retobj : UInt8) (holder ref : Option Obj) (size cid copid : Int32) :
    ContainerOp Obj :=
  listAndSetOp holder [ref] (tagAt 0) (if retobj = 1 then 1 else 0) size cid copid

def addContainerRecordMap15 (retobj holder key : Option Obj) (size cid copid : Int32) :
    ContainerOp Obj :=
  mapOp holder [retobj, key] (tagAt 0) (tagAt 0) (tagAt 1) size cid copid

def addContainerRecordMap4 (holder : Option Obj) (size cid copid : Int32) : ContainerOp Obj :=
  mapOp holder [] (fun _ => 0) (fun _ => 0) (fun _ => 0) size cid copid

def addContainerRecordMap5 (holder map : Option Obj) (size cid copid : Int32) : ContainerOp Obj :=
  mapOp holder [map] (tagAt 0) (fun _ => 0) (fun _ => 0) size cid copid

def addContainerRecordMap16 (retobj holder key value : Option Obj) (size cid copid : Int32) :
    ContainerOp Obj :=
  mapOp holder [retobj, key, value] (tagAt 0) (tagAt 2) (tagAt 1) size cid copid

/-- A call of one of the ten entry points. -/
inductive ContainerCall (Obj : Type*) where
  | list15 (retobj holder : Option Obj) (idxOrSucc size cid copid : Int32)
  | list6 (holder : Option Obj) (idx : Int32) (ref : Option Obj) (size cid copid : Int32)
  | list4 (holder : Option Obj) (size cid copid : Int32)
  | listI5 (idx : Int32) (holder ref : Option Obj) (size cid copid : Int32)
  | list14 (retobj holder : Option Obj) (size cid copid : Int32)
  | list5 (retobj : UInt8) (holder ref : Option Obj) (size cid copid : Int32)
  | map15 (retobj holder key : Option Obj) (size cid copid : Int32)
  | map4 (holder : Option Obj) (size cid copid : Int32)
  | map5 (holder map : Option Obj) (size cid copid : Int32)
  | map16 (retobj holder key value : Option Obj) (size cid copid : Int32)

/-- What the entry point that is called does. -/
def ContainerCall.op : ContainerCall Obj → ContainerOp Obj
  | .list15 retobj holder idxOrSucc size cid copid =>
    addContainerRecordList15 retobj holder idxOrSucc size cid copid
  | .list6 holder idx ref size cid copid => addContainerRecordList6 holder idx ref size cid copid
  | .list4 holder size cid copid => addContainerRecordList4 holder size cid copid
  | .listI5 idx holder ref size cid copid => addContainerRecordListI5 idx holder ref size cid copid
  | .list14 retobj holder size cid copid => addContainerRecordList14 retobj holder size cid copid
  | .list5 retobj holder ref size cid copid =>
    addContainerRecordList5 retobj holder ref size cid copid
  | .map15 retobj holder key size cid copid =>
    addContainerRecordMap15 retobj holder key size cid copid
  | .map4 holder size cid copid => addContainerRecordMap4 holder size cid copid
  | .map5 holder map size cid copid => addContainerRecordMap5 holder map size cid copid
  | .map16 retobj holder key value size cid copid =>
    addContainerRecordMap16 retobj holder key value size cid copid

/-- The body of the entry points. -/
def ContainerOp.run (op : ContainerOp Obj) (amb : Ambient) (s : Thread Obj) : Thread Obj :=
  if !s.enable then s
  else
    let holder := s.getTag (amb.localTag 0) op.holder
    if !isSampledObject holder.1 then { holder.2 with isSampledContainer := false }
    else
      let tags := Thread.getTags amb 1 op.objs { holder.2 with isSampledContainer := true }
      tags.2.add amb (op.entry holder.1 tags.1 amb.nanotime)

/-- The record of `addContainerLineInfoRecord`: the members have 16 bits. -/
def lineRecord (line classNameId : Int32) (time : Time) : ContainerLineInfoRecord :=
  ⟨line.toUInt32.toUInt16, classNameId.toUInt32.toUInt16, time⟩

/-- `addContainerLineInfoRecord`. -/
def addContainerLineInfoRecord (line classNameId : Int32) (amb : Ambient) (s : Thread Obj) :
    Thread Obj :=
  if !s.enable || !s.isSampledContainer then s
  else
    { s with
      containerLineInfoRecorder := s.containerLineInfoRecorder ++
        [(lineRecord line classNameId amb.nanotime).toRaw (Raw.ofBytes _ amb.stack)] }

/-! ### Sequences of calls -/

/-- A call on the thread, or a change of the tags by other calls and other threads. -/
inductive ThreadCall (Obj : Type*) where
  | container (call : ContainerCall Obj) (amb : Ambient)
  | lineInfo (line classNameId : Int32) (amb : Ambient)
  | enableRecord
  | disableRecord
  | retag (localEnv jvmtiEnv : Obj → Int64)

namespace Thread

/-- A call. -/
def step (s : Thread Obj) : ThreadCall Obj → Thread Obj
  | .container call amb => call.op.run amb s
  | .lineInfo line classNameId amb => addContainerLineInfoRecord line classNameId amb s
  | .enableRecord => { s with enable := true }
  | .disableRecord => { s with enable := false }
  | .retag localEnv jvmtiEnv => { s with localEnv := localEnv, jvmtiEnv := jvmtiEnv }

/-- A sequence of calls. -/
def run (s : Thread Obj) (calls : List (ThreadCall Obj)) : Thread Obj := calls.foldl step s

end Thread

/-- The time that a call may read. -/
def ThreadCall.nanotime? : ThreadCall Obj → Option Time
  | .container _ amb | .lineInfo _ _ amb => some amb.nanotime
  | .enableRecord | .disableRecord | .retag .. => none

/-- Every line call has a container call between it and the previous line call, and the flag
`enable` has the value that it had at the last of these. The arguments are the flag, and its value at
the last container call since the last line call. -/
def Disciplined : Bool → Option Bool → List (ThreadCall Obj) → Prop
  | _, _, [] => True
  | enable, _, .container .. :: calls => Disciplined enable (some enable) calls
  | enable, last, .lineInfo .. :: calls => last = some enable ∧ Disciplined enable none calls
  | _, last, .enableRecord :: calls => Disciplined true last calls
  | _, last, .disableRecord :: calls => Disciplined false last calls
  | enable, last, .retag .. :: calls => Disciplined enable last calls

/-- The record that a container call makes: the call is made while recording is enabled, on a
container whose tag is sampled. -/
def ContainerOp.record (op : ContainerOp Obj) (amb : Ambient) (s : Thread Obj) : Option Entry :=
  let holder := s.getTag (amb.localTag 0) op.holder
  let tags := Thread.getTags amb 1 op.objs { holder.2 with isSampledContainer := true }
  if s.enable ∧ isSampledObject holder.1 then some (op.entry holder.1 tags.1 amb.nanotime) else none

/-- What the calls are for: every line call whose last container call `last` makes a record belongs
to this record. -/
def attributed (s : Thread Obj) (last : Option Entry) :
    List (ThreadCall Obj) → List (Entry × ContainerLineInfoRecord)
  | [] => []
  | .container call amb :: calls =>
    attributed (s.step (.container call amb)) (call.op.record amb s) calls
  | .lineInfo line classNameId amb :: calls =>
    (last.toList.map fun c => (c, lineRecord line classNameId amb.nanotime)) ++
      attributed (s.step (.lineInfo line classNameId amb)) last calls
  | .enableRecord :: calls => attributed (s.step .enableRecord) last calls
  | .disableRecord :: calls => attributed (s.step .disableRecord) last calls
  | .retag localEnv jvmtiEnv :: calls => attributed (s.step (.retag localEnv jvmtiEnv)) last calls

/-! ### What a call does -/

section Step

variable (s : Thread Obj) (amb : Ambient)

lemma getTag_snd (localTag : Int64) (obj : Option Obj) :
    ∃ localEnv, (s.getTag localTag obj).2 = { s with localEnv := localEnv } := by
  unfold Thread.getTag
  dsimp only
  split
  · exact ⟨s.localEnv, rfl⟩
  · split
    · exact ⟨_, rfl⟩
    · exact ⟨_, rfl⟩

lemma getTags_snd (n : ℕ) (objs : List (Option Obj)) :
    ∃ localEnv, (Thread.getTags amb n objs s).2 = { s with localEnv := localEnv } := by
  induction objs generalizing n s with
  | nil => exact ⟨s.localEnv, rfl⟩
  | cons obj objs ih =>
    obtain ⟨env₁, h₁⟩ := getTag_snd s (amb.localTag n) obj
    obtain ⟨env₂, h₂⟩ := ih (s.getTag (amb.localTag n) obj).2 (n + 1)
    refine ⟨env₂, ?_⟩
    rw [Thread.getTags]
    dsimp only
    rw [h₂, h₁]

/-- **A container call** adds its record, or says that there is none for the next line call. While
recording is disabled it does nothing. -/
theorem run_container (op : ContainerOp Obj) :
    ∃ localEnv, op.run amb s =
      match op.record amb s with
      | some c => ({ s with localEnv := localEnv, isSampledContainer := true }).add amb c
      | none => { s with
          localEnv := localEnv
          isSampledContainer := if s.enable then false else s.isSampledContainer } := by
  obtain ⟨env₁, h₁⟩ := getTag_snd s (amb.localTag 0) op.holder
  obtain ⟨env₂, h₂⟩ := getTags_snd
    { (s.getTag (amb.localTag 0) op.holder).2 with isSampledContainer := true } amb 1 op.objs
  unfold ContainerOp.run ContainerOp.record
  cases he : s.enable with
  | false =>
    refine ⟨s.localEnv, ?_⟩
    simp only [Bool.not_false, if_true, Bool.false_eq_true, false_and, if_false]
    rw [← he]
  | true =>
    cases hs : isSampledObject (s.getTag (amb.localTag 0) op.holder).1 with
    | false => exact ⟨env₁, by simp [hs, h₁, he]⟩
    | true =>
      refine ⟨env₂, ?_⟩
      simp only [hs, Bool.not_true, Bool.false_eq_true, if_false, and_self, if_true]
      rw [h₂, h₁]
      dsimp only
      rw [he]

end Step

lemma run_prefix {α : Type*} {f : Thread Obj → List α} (h : ∀ t c, f t <+: f (t.step c))
    (t : Thread Obj) (calls : List (ThreadCall Obj)) : f t <+: f (t.run calls) := by
  induction calls generalizing t with
  | nil => exact List.prefix_rfl
  | cons c calls ih => exact (h t c).trans (ih (t.step c))

/-! ### The tags that are found -/

/-- The tag that `get_tag` finds for an object. -/
def tagOf (t : Thread Obj) (o : Obj) : Int64 :=
  if t.localEnv o ≠ 0 then t.localEnv o else if t.jvmtiEnv o ≠ 0 then t.jvmtiEnv o else -1

/-- What the `n`-th call of `get_tag` in an entry point answers: for a null reference the value that
`local_tag` has before, or `-1` when it is `0`. -/
def tagFound (t : Thread Obj) (amb : Ambient) (n : ℕ) (obj : Option Obj) : Int64 :=
  obj.elim (if amb.localTag n ≠ 0 then amb.localTag n else -1) (tagOf t)

omit [DecidableEq Obj] in
lemma tagFound_congr {t t' : Thread Obj} (h : tagOf t = tagOf t') : tagFound t = tagFound t' := by
  unfold tagFound
  rw [h]

lemma getTag_fst (t : Thread Obj) (amb : Ambient) (n : ℕ) (obj : Option Obj) :
    (t.getTag (amb.localTag n) obj).1 = tagFound t amb n obj := by
  unfold Thread.getTag tagFound
  cases obj with
  | none => by_cases hv : amb.localTag n = 0 <;> simp [jvmtiGetTag, hv]
  | some o =>
    by_cases hl : t.localEnv o = 0
    · by_cases hg : t.jvmtiEnv o = 0 <;> simp [jvmtiGetTag, tagOf, hl, hg]
    · simp [jvmtiGetTag, tagOf, hl]

/-- The cache of the thread does not change what is found. -/
lemma tagOf_getTag (t : Thread Obj) (localTag : Int64) (obj : Option Obj) :
    tagOf (t.getTag localTag obj).2 = tagOf t := by
  cases obj with
  | none =>
    unfold Thread.getTag
    dsimp only
    split
    · rfl
    · split <;> rfl
  | some o =>
    funext o'
    simp only [Thread.getTag, jvmtiGetTag, jvmtiSetTag, Option.elim_some]
    by_cases hl : t.localEnv o = 0
    · by_cases ho : o' = o
      · subst ho
        by_cases hg : t.jvmtiEnv o' = 0 <;> simp [tagOf, hl, hg]
      · by_cases hg : t.jvmtiEnv o = 0 <;> simp [tagOf, hl, hg, ho]
    · simp [hl]

lemma getTags_fst (t : Thread Obj) (amb : Ambient) (n : ℕ) (objs : List (Option Obj)) :
    (Thread.getTags amb n objs t).1 = objs.mapIdx fun i obj => tagFound t amb (n + i) obj := by
  induction objs generalizing t n with
  | nil => rfl
  | cons obj objs ih =>
    rw [Thread.getTags, List.mapIdx_cons]
    dsimp only
    rw [getTag_fst, ih, tagFound_congr (tagOf_getTag t _ obj)]
    simp only [Nat.add_zero, Nat.add_assoc, Nat.add_comm 1]

lemma record_eq {t : Thread Obj} {op : ContainerOp Obj} {amb : Ambient} {e : Entry}
    (h : op.record amb t = some e) :
    e = op.entry (tagFound t amb 0 op.holder)
      (op.objs.mapIdx fun i obj => tagFound t amb (1 + i) obj) amb.nanotime := by
  unfold ContainerOp.record at h
  dsimp only at h
  split at h
  · cases h
    have htag : tagOf { (t.getTag (amb.localTag 0) op.holder).2 with isSampledContainer := true } =
        tagOf t := tagOf_getTag t _ op.holder
    rw [getTag_fst, getTags_fst, tagFound_congr htag]
  · cases h

lemma record_sampled {t : Thread Obj} (call : ContainerCall Obj) (amb : Ambient) {h : Obj}
    (henable : t.enable = true) (hholder : call.op.holder = some h)
    (hsampled : isSampledObject (tagOf t h)) : ∃ e, call.op.record amb t = some e := by
  have htag : (t.getTag (amb.localTag 0) call.op.holder).1 = tagOf t h := by
    rw [getTag_fst, hholder]
    rfl
  unfold ContainerOp.record
  dsimp only
  rw [htag, if_pos ⟨henable, hsampled⟩]
  exact ⟨_, rfl⟩

end Thread

end Cinst.Native
