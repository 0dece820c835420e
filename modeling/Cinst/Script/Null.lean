import Cinst.Addr.Zero
import Cinst.Script.Attribution
import Cinst.Trace.Translate

/-!
The elements of a container, from the call that records them to the columns of the table
`CONTAINERS`. The address map has the id `0` for the address `0`, and `null_query.py` counts the rows
with this id as null elements. But `get_tag` has no tag for a null reference: it answers with the
value that its variable happens to have.
-/

namespace Cinst.Script

open Cinst.Lib Cinst.Record Cinst.Native Cinst.Trace
open Cinst.Addr (ObjId ZeroKept query_eq_zero_iff)

/-! ### The records after `addr2id` -/

/-- The record type of a structure. -/
def Struct.kind : Struct → Kind
  | .listAndSet => .listAndSet
  | .map => .map

/-- The records of a container file as the script reads them, after `addr2id`. -/
def readBack (d : Directory) (tid pid : ℤ) (s : Struct) : List Entry :=
  (ContainerBuffer.mk (((Trace.main d).read (dataName s.kind tid pid)).getD []) s 0).rest

/-- A container record with its addresses replaced. -/
def translateEntry (q : Addr → Time → ObjId) (e : Entry) : Entry :=
  let br : ContainerRecord := { e.br with
    holderAddr := q e.br.holderAddr e.br.time
    refAddr := q e.br.refAddr e.br.time }
  match e with
  | .listAndSet r => .listAndSet { r with br := br }
  | .map r => .map
    { br := br
      valueAddr := q r.valueAddr r.br.time
      keyAddr := q r.keyAddr r.br.time }

section Translate

variable {q : Addr → Time → ObjId}

lemma words_translate {p : Pass} (hp : p ∈ passes) (r : Raw p.kind.size) :
    (∀ f ∈ p.funcs, UInt32.ofNat (getWord (p.kind.offset f) 4 (translate p.kind q p.funcs r)) =
      q (UInt32.ofNat (getWord (p.kind.offset f) 4 r)) (p.kind.value r)) ∧
    ∀ off n, (∀ f ∈ p.funcs, Apart off n (p.kind.offset f) 4) →
      getWord off n (translate p.kind q p.funcs r) = getWord off n r :=
  ⟨fun _ hf => getAddr_translate (passes_separate p hp) hf r,
    fun off n h => getWord_translate (passes_separate p hp) off n h r⟩

/-- The pass over the list and set records. -/
def listAndSetPass : Pass := processAllDataFile .listAndSet [.inBr .holderAddr, .inBr .refAddr]

/-- The pass over the map records. -/
def mapPass : Pass :=
  processAllDataFile .map [.top .keyAddr, .top .valueAddr, .inBr .holderAddr, .inBr .refAddr]

lemma readListAndSet_translate (r : Raw Kind.listAndSet.size) :
    Entry.listAndSet (readListAndSet (translate .listAndSet q listAndSetPass.funcs r)) =
      translateEntry q (.listAndSet (readListAndSet r)) := by
  obtain ⟨haddr, hword⟩ := words_translate (q := q) (p := listAndSetPass) (by decide) r
  simp only [readListAndSet, listAndSetOfRaw, attrBr, attr16, attr32, attr64, attrOffset_listAndSet,
    translateEntry, Entry.br, Entry.listAndSet.injEq, ListAndSetRecord.mk.injEq,
    ContainerRecord.mk.injEq]
  refine ⟨⟨?_, ?_, ?_, ?_, ?_, ?_⟩, ?_⟩
  · exact haddr (.inBr .holderAddr) (by decide)
  · exact haddr (.inBr .refAddr) (by decide)
  · exact congrArg UInt16.ofNat (hword _ 2 (by decide))
  · exact congrArg UInt16.ofNat (hword _ 2 (by decide))
  · exact congrArg UInt64.ofNat (hword _ 8 (by decide))
  · exact congrArg UInt32.ofNat (hword _ 4 (by decide))
  · exact congrArg UInt32.ofNat (hword _ 4 (by decide))

lemma readMap_translate (r : Raw Kind.map.size) :
    Entry.map (readMap (translate .map q mapPass.funcs r)) =
      translateEntry q (.map (readMap r)) := by
  obtain ⟨haddr, hword⟩ := words_translate (q := q) (p := mapPass) (by decide) r
  simp only [readMap, mapOfRaw, attrBr, attr16, attr32, attr64, attrOffset_map,
    translateEntry, Entry.br, Entry.map.injEq, MapRecord.mk.injEq, ContainerRecord.mk.injEq]
  refine ⟨⟨?_, ?_, ?_, ?_, ?_, ?_⟩, ?_, ?_⟩
  · exact haddr (.inBr .holderAddr) (by decide)
  · exact haddr (.inBr .refAddr) (by decide)
  · exact congrArg UInt16.ofNat (hword _ 2 (by decide))
  · exact congrArg UInt16.ofNat (hword _ 2 (by decide))
  · exact congrArg UInt64.ofNat (hword _ 8 (by decide))
  · exact congrArg UInt32.ofNat (hword _ 4 (by decide))
  · exact haddr (.top .valueAddr) (by decide)
  · exact haddr (.top .keyAddr) (by decide)

end Translate

section Files

variable {Obj : Type*} [DecidableEq Obj]

/-- The bytes of a container file of a thread. -/
def containerFile (t : Thread Obj) : Struct → Bytes
  | .listAndSet => joinRecords t.listAndSetRecord
  | .map => joinRecords t.mapRecord

/-- The records of a container file of a thread, as the script reads them. -/
def fileEntries (t : Thread Obj) : Struct → List Entry
  | .listAndSet => t.listAndSetRecord.map fun r => .listAndSet (readListAndSet r)
  | .map => t.mapRecord.map fun r => .map (readMap r)

omit [DecidableEq Obj] in
/-- **The script reads the records of the thread, with their addresses replaced.** -/
theorem readBack_eq {d : Directory} {tid pid : ℤ} {t : Thread Obj} {s : Struct}
    (h : d.read (dataName s.kind tid pid) = some (containerFile t s)) :
    readBack d tid pid s = (fileEntries t s).map (translateEntry (buildAddrMap d).1.query) := by
  have hname := startsWith_dataName s.kind tid pid
  rw [readBack, read_main_of_startsWith hname h, ContainerBuffer.rest, List.drop_zero,
    Option.getD_some]
  cases s with
  | listAndSet =>
    have hrecords : Lib.records Kind.listAndSet.size (rewriteFile (buildAddrMap d).1
        (dataName .listAndSet tid pid) (joinRecords t.listAndSetRecord)) =
          t.listAndSetRecord.map (translate .listAndSet (buildAddrMap d).1.query listAndSetPass.funcs) :=
      records_rewriteFile (buildAddrMap d).1 (p := listAndSetPass) (by decide) hname t.listAndSetRecord
    show (Lib.records Kind.listAndSet.size _).map (fun r => Entry.listAndSet (readListAndSet r)) = _
    rw [Struct.kind, containerFile, hrecords, fileEntries, List.map_map, List.map_map]
    exact List.map_congr_left fun r _ => readListAndSet_translate r
  | map =>
    have hrecords : Lib.records Kind.map.size (rewriteFile (buildAddrMap d).1
        (dataName .map tid pid) (joinRecords t.mapRecord)) =
          t.mapRecord.map (translate .map (buildAddrMap d).1.query mapPass.funcs) :=
      records_rewriteFile (buildAddrMap d).1 (p := mapPass) (by decide) hname t.mapRecord
    show (Lib.records Kind.map.size _).map (fun r => Entry.map (readMap r)) = _
    rw [Struct.kind, containerFile, hrecords, fileEntries, List.map_map, List.map_map]
    exact List.map_congr_left fun r _ => readMap_translate r

omit [DecidableEq Obj] in
lemma fileEntries_add (t : Thread Obj) (amb : Ambient) (e : Entry) (s : Struct) :
    fileEntries (t.add amb e) s = fileEntries t s ++ if e.struct = s then [e] else [] := by
  cases e <;> cases s <;>
    simp [fileEntries, Thread.add, Entry.struct, readListAndSet_toRaw, readMap_toRaw]

lemma fileEntries_container {t : Thread Obj} {call : ContainerCall Obj} {amb : Ambient} {e : Entry}
    (h : call.op.record amb t = some e) :
    fileEntries (t.step (.container call amb)) e.struct = fileEntries t e.struct ++ [e] := by
  obtain ⟨env, hrun⟩ := run_container t amb call.op
  rw [Thread.step, hrun, h]
  dsimp only
  rw [fileEntries_add, if_pos rfl]
  cases e <;> rfl

lemma fileEntries_step (t : Thread Obj) (c : ThreadCall Obj) (s : Struct) :
    fileEntries t s <+: fileEntries (t.step c) s := by
  cases c with
  | container call amb =>
    obtain ⟨env, hrun⟩ := run_container t amb call.op
    rw [Thread.step, hrun]
    cases call.op.record amb t with
    | none => cases s <;> exact List.prefix_rfl
    | some e =>
      dsimp only
      rw [fileEntries_add]
      cases s <;> exact List.prefix_append ..
  | lineInfo line classNameId amb =>
    rw [Thread.step, addContainerLineInfoRecord]
    split <;> cases s <;> exact List.prefix_rfl
  | enableRecord => cases s <;> exact List.prefix_rfl
  | disableRecord => cases s <;> exact List.prefix_rfl
  | retag localEnv jvmtiEnv => cases s <;> exact List.prefix_rfl

lemma fileEntries_run (t : Thread Obj) (calls : List (ThreadCall Obj)) (s : Struct) :
    fileEntries t s <+: fileEntries (t.run calls) s :=
  run_prefix (fun t c => fileEntries_step t c s) t calls

/-- The record of a call, after more calls and after `addr2id`. -/
theorem readBack_call {d : Directory} {tid pid : ℤ} {t : Thread Obj} {call : ContainerCall Obj}
    {amb : Ambient} {e : Entry} (hrec : call.op.record amb t = some e)
    {later : List (ThreadCall Obj)}
    (h : d.read (dataName e.struct.kind tid pid) =
      some (containerFile ((t.step (.container call amb)).run later) e.struct)) :
    (readBack d tid pid e.struct)[(fileEntries t e.struct).length]? =
      some (translateEntry (buildAddrMap d).1.query e) := by
  obtain ⟨l, hl⟩ := fileEntries_run (t.step (.container call amb)) later e.struct
  rw [readBack_eq h, List.getElem?_map, ← hl, fileEntries_container hrec, List.append_assoc,
    List.getElem?_append_right le_rfl]
  simp

/-! ### Null elements -/

/-- An element in a call: the column that it goes to, the call of `get_tag` that looks it up, and the
object. -/
structure Element (Obj : Type*) where
  column : Column
  nth : ℕ
  obj : Option Obj

/-- The elements that `addContainerRecordList5`, `List6`, `ListI5` and `Map16` record. -/
def elements : ContainerCall Obj → List (Element Obj)
  | .list5 _ _ ref _ _ _ | .list6 _ _ ref _ _ _ | .listI5 _ _ ref _ _ _ => [⟨.refId, 1, ref⟩]
  | .map16 _ _ key value _ _ _ => [⟨.v2, 2, key⟩, ⟨.v1, 3, value⟩]
  | _ => []

/-- The structure of the record of a call. -/
def callStruct : ContainerCall Obj → Struct
  | .list15 .. | .list6 .. | .list4 .. | .listI5 .. | .list14 .. | .list5 .. => .listAndSet
  | .map15 .. | .map4 .. | .map5 .. | .map16 .. => .map

lemma record_struct {t : Thread Obj} {call : ContainerCall Obj} {amb : Ambient} {e : Entry}
    (h : call.op.record amb t = some e) : e.struct = callStruct call := by
  rw [record_eq h]
  cases call <;> rfl

lemma columnField_element {t : Thread Obj} {call : ContainerCall Obj} {amb : Ambient} {e : Entry}
    (h : call.op.record amb t = some e) {u : Element Obj} (hu : u ∈ elements call)
    (q : Addr → Time → ObjId) (r2 : ContainerLineInfoRecord) :
    columnField (translateEntry q e) r2 u.column =
      ((q (addrOfTag (tagFound t amb u.nth u.obj)) amb.nanotime).toNat : ℤ) := by
  rw [record_eq h]
  cases call with
  | list5 | list6 | listI5 =>
    rw [List.mem_singleton.mp hu]
    rfl
  | map16 retobj holder key value size cid copid =>
    rcases List.mem_cons.mp hu with rfl | hu
    · rfl
    · rw [List.mem_singleton.mp hu]
      rfl
  | list15 | list4 | list14 | map15 | map4 | map5 => cases hu

/-- After `addr2id`, the row of a call has the id `0` in the column of an element if and only if the
element was null. -/
def NullIsZero (d : Directory) (tid pid : ℤ) (t : Thread Obj) (call : ContainerCall Obj) : Prop :=
  ∃ e, (readBack d tid pid (callStruct call))[(fileEntries t (callStruct call)).length]? = some e ∧
    ∀ u ∈ elements call, ∀ r2, cell (row e r2) u.column = some 0 ↔ u.obj = none

/-- The address `0` is the null reference's alone: no relocation of the trace takes its object from
there, and the ids of the allocations do not come round to `0`. -/
structure NullReserved (d : Directory) : Prop where
  count : (newRecords d).length < 2 ^ 32 - 1
  gcs : ∀ g ∈ gcRecords d, g.orgAddr ≠ 0

/-- A null element is looked up while `local_tag` has a value that is not `0`, but is `0` when cut to
32 bits, and no record has put an object at the address `0` by then. Any other element has a tag that
is not `0` when cut to 32 bits, or a record has put an object there. -/
def CutsToNull (d : Directory) (t : Thread Obj) (amb : Ambient) (u : Element Obj) : Prop :=
  match u.obj with
  | none => (amb.localTag u.nth ≠ 0 ∧ addrOfTag (amb.localTag u.nth) = 0) ∧
    ZeroKept (newRecords d) (gcRecords d) amb.nanotime
  | some o => addrOfTag (tagOf t o) = 0 → ¬ ZeroKept (newRecords d) (gcRecords d) amb.nanotime

omit [DecidableEq Obj] in
lemma addrOfTag_tagFound (d : Directory) (t : Thread Obj) (amb : Ambient) (u : Element Obj) :
    (addrOfTag (tagFound t amb u.nth u.obj) = 0 ∧
      ZeroKept (newRecords d) (gcRecords d) amb.nanotime ↔ u.obj = none) ↔ CutsToNull d t amb u := by
  have hunknown : addrOfTag (-1) ≠ 0 := by decide
  unfold CutsToNull tagFound
  cases u.obj with
  | none =>
    by_cases hv : amb.localTag u.nth = 0
    · simp [hv, hunknown]
    · simp [hv]
  | some o => simp

lemma nullIsZero_iff_forall {d : Directory} (hd : NullReserved d) {tid pid : ℤ} {t : Thread Obj}
    {call : ContainerCall Obj} {amb : Ambient} {e : Entry} (hrec : call.op.record amb t = some e)
    (later : List (ThreadCall Obj))
    (hfile : d.read (dataName (callStruct call).kind tid pid) =
      some (containerFile ((t.step (.container call amb)).run later) (callStruct call))) :
    NullIsZero d tid pid t call ↔ ∀ u ∈ elements call, CutsToNull d t amb u := by
  have hcast : ∀ i : ObjId, (i.toNat : ℤ) = 0 ↔ i = 0 := by
    intro i
    rw [Int.natCast_eq_zero, ← UInt32.toNat_inj]
    rfl
  rw [← record_struct hrec] at hfile
  have hback := readBack_call hrec hfile
  have hcolumn : ∀ u ∈ elements call, ∀ r2, (cell (row
      (translateEntry (buildAddrMap d).1.query e) r2) u.column = some 0 ↔ u.obj = none) ↔
      CutsToNull d t amb u := by
    intro u hu r2
    rw [cell_row, columnField_element hrec hu, ← addrOfTag_tagFound, Option.some.injEq,
      hcast, query_buildAddrMap, query_eq_zero_iff hd.count hd.gcs]
  unfold NullIsZero
  rw [← record_struct hrec, hback]
  constructor
  · rintro ⟨e', he', h⟩ u hu
    cases he'
    exact (hcolumn u hu ⟨0, 0, 0⟩).mp (h u hu ⟨0, 0, 0⟩)
  · intro h
    exact ⟨_, rfl, fun u hu r2 => (hcolumn u hu r2).mpr (h u hu)⟩

/-- **A null element is recorded as id `0`, and only a null is**, when the address `0` is left to the
null reference and the tag that `get_tag` finds for the element is `0` when cut to 32 bits exactly for
a null: for a null element this is up to the value of a variable that is not initialised. As long as
no relocation takes its object from the address `0`, there is no other case. -/
theorem nullIsZero_iff (d : Directory) (tid pid : ℤ) (t : Thread Obj)
    (call : ContainerCall Obj) (amb : Ambient) (h : Obj) (henable : t.enable = true)
    (hholder : call.op.holder = some h) (hsampled : isSampledObject (tagOf t h))
    (later : List (ThreadCall Obj))
    (hfile : d.read (dataName (callStruct call).kind tid pid) =
      some (containerFile ((t.step (.container call amb)).run later) (callStruct call))) :
    (NullReserved d ∧ (∀ u ∈ elements call, CutsToNull d t amb u) → NullIsZero d tid pid t call) ∧
    (NullReserved d → NullIsZero d tid pid t call → ∀ u ∈ elements call, CutsToNull d t amb u) := by
  obtain ⟨e, hrec⟩ := record_sampled call amb henable hholder hsampled
  constructor
  · rintro ⟨hd, hcuts⟩
    exact (nullIsZero_iff_forall hd hrec later hfile).mpr hcuts
  · exact fun hd => (nullIsZero_iff_forall hd hrec later hfile).mp

end Files

/-! ### Two calls -/

/-- A thread that has tagged a container `true` and an element `false`. -/
def taggedThread : Thread Bool := Thread.init (fun o => if o then 10 else 11) (fun _ => 0)

/-- A call at time `5`, with `v` in the variables that are not initialised. -/
def ambientOf (v : Int64) : Ambient := ⟨5, fun _ => v, []⟩

/-- `addContainerRecordList5`. -/
def addCall (ref : Option Bool) : ContainerCall Bool := .list5 1 (some true) ref 1 3 4

/-- The file of the call alone. -/
def addTrace (v : Int64) (ref : Option Bool) : Directory where
  files := [("List-Set-7-1",
    containerFile (taggedThread.step (.container (addCall ref) (ambientOf v))) .listAndSet)]
  nodup := List.nodup_singleton _

lemma records_addTrace (v : Int64) (ref : Option Bool) :
    newRecords (addTrace v ref) = [] ∧ gcRecords (addTrace v ref) = [] := by
  have hfiles : ∀ sub, startsWith "List-Set-7-1" sub = false →
      filesStartWith (addTrace v ref) sub = [] := by
    intro sub hsub
    simp [filesStartWith, Directory.names, addTrace, hsub]
  constructor
  · rw [newRecords, hfiles "NEW" (by decide)]
    rfl
  · rw [gcRecords, hfiles "gc" (by decide)]
    rfl

lemma nullReserved_addTrace (v : Int64) (ref : Option Bool) : NullReserved (addTrace v ref) := by
  obtain ⟨hnews, hgcs⟩ := records_addTrace v ref
  constructor
  · rw [hnews]
    decide
  · rw [hgcs]
    simp

/-- A null element that happens to be looked up with `2 ^ 32` in the variable. -/
theorem nullIsZero_iff_element :
    NullIsZero (addTrace 4294967296 none) 7 1 taggedThread (addCall none) ∧
      ∀ u ∈ elements (addCall none),
        CutsToNull (addTrace 4294967296 none) taggedThread (ambientOf 4294967296) u := by
  have hiff := nullIsZero_iff (addTrace 4294967296 none) 7 1 taggedThread (addCall none)
    (ambientOf 4294967296) true rfl rfl (by decide) [] rfl
  have hd := nullReserved_addTrace 4294967296 none
  have hnull : NullIsZero (addTrace 4294967296 none) 7 1 taggedThread (addCall none) := by
    refine hiff.1 ⟨hd, fun u hu => ?_⟩
    rw [List.mem_singleton.mp hu]
    obtain ⟨hnews, hgcs⟩ := records_addTrace 4294967296 none
    refine ⟨by decide, ?_⟩
    rw [hnews, hgcs]
    decide
  exact ⟨hnull, hiff.2 hd hnull⟩

/-- A null element is recorded as unknown. -/
theorem not_nullIsZero_null :
    ¬ NullIsZero (addTrace 0 none) 7 1 taggedThread (addCall none) := by
  obtain ⟨e, hrec⟩ := record_sampled (t := taggedThread) (addCall none) (ambientOf 0) (h := true)
    rfl rfl (by decide)
  rw [nullIsZero_iff_forall (nullReserved_addTrace 0 none) hrec [] rfl]
  intro h
  exact absurd rfl (h _ (List.mem_singleton_self _)).1.1

end Cinst.Script
