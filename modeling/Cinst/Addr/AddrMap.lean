import Cinst.Lib.OrdMap
import Cinst.Lib.Word
import Cinst.Record.Types

/-!
The address map of `addr2id.cpp`: which object lives at an address at a time, and how the map is
built from the NEW files and the gc files of a trace.

An address holds one event (`unique_addr_info`) until a second one is stored, and an ordered map
from times to ids from then on. The two representations are looked up differently: a single event
answers for every time.
-/

namespace Cinst.Addr

open Cinst.Lib Cinst.Record

/-- `obj_id_t`. -/
abbrev ObjId := UInt32

/-- What a query answers for an address without an object: `-1` as an `obj_id_t`. -/
def notFound : ObjId := 0xFFFFFFFF

/-- `GC_MASK`: set in the ids of objects that are known from a relocation only. -/
def gcMask : ObjId := 0x80000000

/-- `unique_addr_info`. -/
structure UniqueAddrInfo where
  id : ObjId
  time : Time
  deriving DecidableEq

/-- The `variant` an address is mapped to. -/
inductive Entry where
  | unique (info : UniqueAddrInfo)
  | timeMap (m : OrdMap Time ObjId)

/-- The time map of an entry; a single event becomes a map with one key. -/
def Entry.toTimeMap : Entry → OrdMap Time ObjId
  | .unique info => OrdMap.empty.emplace info.time info.id
  | .timeMap m => m

/-- The class `addr_map`. -/
structure AddrMap where
  entries : Addr → Option Entry
  curId : ObjId

/-- A line of `addr-id.dat`: the arguments of the `fprintf` of `insert_new_records`. -/
structure AddrIdLine where
  id : ObjId
  classNameId : UInt16
  line : UInt16
  objSize : UInt32
  objTypeid : Int32
  deriving DecidableEq, Repr

/-- The text that `"%d %d %d %d %d\n"` prints: `%d` reads its 32 bits as a signed number. -/
def AddrIdLine.render (l : AddrIdLine) : String :=
  toString l.id.toInt32.toInt ++ " " ++ toString l.classNameId.toNat ++ " " ++
    toString l.line.toNat ++ " " ++ toString l.objSize.toInt32.toInt ++ " " ++
    toString l.objTypeid.toInt ++ "\n"

namespace AddrMap

/-! ### Lookup and insertion -/

/-- `addr_map::query`. -/
def query (am : AddrMap) (addr : Addr) (time : Time) : ObjId :=
  match am.entries addr with
  | none => notFound
  | some (.unique info) => info.id
  | some (.timeMap m) =>
    match m.prev (m.upperBound time) with
    | none => notFound
    | some id => id

/-- `addr_map::insert_with_id`. -/
def insertWithId (am : AddrMap) (addr : Addr) (time : Time) (id : ObjId) : AddrMap :=
  match am.entries addr with
  | none => { am with entries := Function.update am.entries addr (some (.unique ⟨id, time⟩)) }
  | some e =>
    { am with
      entries := Function.update am.entries addr
        (some (.timeMap (e.toTimeMap.emplace time id))) }

/-- The constructor: address `0` holds the id `0` from time `0` on. -/
def init : AddrMap := insertWithId ⟨fun _ => none, 1⟩ 0 0 0

/-- `addr_map::insert(addr, time)`: a new id for the object allocated at `addr`. -/
def insert (am : AddrMap) (addr : Addr) (time : Time) : AddrMap × ObjId :=
  let am' := insertWithId { am with curId := am.curId + 1 } addr time am.curId
  (am', am'.curId - 1)

/-- `addr_map::insert_gc`: a new masked id for an object that was never seen before. -/
def insertGc (am : AddrMap) (addr : Addr) (time : Time) : AddrMap :=
  insertWithId { am with curId := am.curId + 1 } addr time (am.curId ||| gcMask)

/-- `addr_map::insert(old_addr, new_addr, time)`: the object at `oldAddr` moves to `newAddr`. -/
def insertMove (am : AddrMap) (oldAddr newAddr : Addr) (time : Time) : AddrMap :=
  let id := am.query oldAddr time
  if id = notFound then am.insertGc newAddr time else am.insertWithId newAddr time id

/-! ### Building the map from the files of a trace

A file is given by the whole records in it: `fread` returns the number of complete records. -/

/-- `addr_map::insert_new_records`, with the lines it prints. -/
def insertNewRecords (am : AddrMap) : List NewRecord → AddrMap × List AddrIdLine
  | [] => (am, [])
  | r :: rs =>
    let ins := am.insert r.addr r.time
    let rest := ins.1.insertNewRecords rs
    (rest.1, ⟨ins.2, r.classNameId, r.line, r.objSize, r.objTypeid⟩ :: rest.2)

/-- `buffer_len` of `process_new_file` and `process_gc_file`. -/
def bufferLen : ℕ := 1 <<< 10

/-- `process_new_file`: the records are read and inserted `buffer_len` at a time. -/
def processNewFile (am : AddrMap) (file : List NewRecord) : AddrMap × List AddrIdLine :=
  if _h : file = [] then (am, [])
  else
    let block := am.insertNewRecords (file.take bufferLen)
    let rest := block.1.processNewFile (file.drop bufferLen)
    (rest.1, block.2 ++ rest.2)
  termination_by file.length
  decreasing_by
    have := List.length_pos_iff.mpr _h
    simp only [List.length_drop, bufferLen]
    omega

/-- The body of the inner loop of `process_gc_file`. -/
def insertGcRecord (am : AddrMap) (r : GCRecord) : AddrMap :=
  am.insertMove r.orgAddr r.newAddr r.time

/-- `process_gc_file`. -/
def processGcFile (am : AddrMap) (file : List GCRecord) : AddrMap :=
  if _h : file = [] then am
  else ((file.take bufferLen).foldl insertGcRecord am).processGcFile (file.drop bufferLen)
  termination_by file.length
  decreasing_by
    have := List.length_pos_iff.mpr _h
    simp only [List.length_drop, bufferLen]
    omega

/-- The loop of `build_addr_map` over the NEW files. -/
def processNewFiles (am : AddrMap) : List (List NewRecord) → AddrMap × List AddrIdLine
  | [] => (am, [])
  | f :: fs =>
    let file := am.processNewFile f
    let rest := file.1.processNewFiles fs
    (rest.1, file.2 ++ rest.2)

/-- `build_addr_map`: all NEW files, then all gc files, each in the order of the directory
listing. -/
def buildAddrMap (newFiles : List (List NewRecord)) (gcFiles : List (List GCRecord)) :
    AddrMap × List AddrIdLine :=
  let new := init.processNewFiles newFiles
  (gcFiles.foldl processGcFile new.1, new.2)

/-! ### Reading in blocks does not matter -/

lemma insertNewRecords_append (am : AddrMap) (rs rs' : List NewRecord) :
    am.insertNewRecords (rs ++ rs') =
      (((am.insertNewRecords rs).1.insertNewRecords rs').1,
        (am.insertNewRecords rs).2 ++ ((am.insertNewRecords rs).1.insertNewRecords rs').2) := by
  induction rs generalizing am with
  | nil => rfl
  | cons r rs ih => simp only [List.cons_append, insertNewRecords, ih]

theorem processNewFile_eq (am : AddrMap) (file : List NewRecord) :
    am.processNewFile file = am.insertNewRecords file := by
  fun_induction processNewFile am file with
  | case1 am => rfl
  | case2 am file _ block rest ih =>
    conv_rhs => rw [← List.take_append_drop bufferLen file]
    rw [insertNewRecords_append, ← ih]

theorem processGcFile_eq (am : AddrMap) (file : List GCRecord) :
    am.processGcFile file = file.foldl insertGcRecord am := by
  fun_induction processGcFile am file with
  | case1 am => rfl
  | case2 am file _ ih => rw [ih, ← List.foldl_append, List.take_append_drop]

lemma processNewFiles_eq (am : AddrMap) (files : List (List NewRecord)) :
    am.processNewFiles files = am.insertNewRecords files.flatten := by
  induction files generalizing am with
  | nil => rfl
  | cons f fs ih =>
    rw [processNewFiles, processNewFile_eq, List.flatten_cons, insertNewRecords_append, ih]

/-- **The map depends on the records in the order they are read, not on the files.** -/
theorem buildAddrMap_eq (newFiles : List (List NewRecord)) (gcFiles : List (List GCRecord)) :
    buildAddrMap newFiles gcFiles =
      (gcFiles.flatten.foldl insertGcRecord (init.insertNewRecords newFiles.flatten).1,
        (init.insertNewRecords newFiles.flatten).2) := by
  have hgc : ∀ am : AddrMap, gcFiles.foldl processGcFile am =
      gcFiles.flatten.foldl insertGcRecord am := by
    intro am
    rw [List.foldl_flatten]
    congr 1
    funext am f
    exact processGcFile_eq am f
  rw [buildAddrMap, processNewFiles_eq, hgc]

end AddrMap

/-! ### The calls that store events -/

/-- A call of `addr_map` that stores an event. -/
inductive Insert where
  | insert (addr : Addr) (time : Time)
  | insertGc (addr : Addr) (time : Time)
  | insertMove (oldAddr newAddr : Addr) (time : Time)
  deriving DecidableEq, Repr

namespace Insert

/-- The address at which the event is stored. -/
def addr : Insert → Addr
  | .insert a _ => a
  | .insertGc a _ => a
  | .insertMove _ a _ => a

/-- The time of the event. -/
def time : Insert → Time
  | .insert _ t => t
  | .insertGc _ t => t
  | .insertMove _ _ t => t

/-- The call on the map. -/
def apply (am : AddrMap) : Insert → AddrMap
  | .insert a t => (am.insert a t).1
  | .insertGc a t => am.insertGc a t
  | .insertMove old new t => am.insertMove old new t

end Insert

end Cinst.Addr
