import Cinst.Record.Recorder
import Cinst.Script.Join

/-!
The structures of `build_container_db.py` against those of `recorder.hpp`: the script decodes from
the bytes of a file the records that the native library assigned in memory, whatever the padding
holds, and puts their fields into the columns of the table `CONTAINERS`.
-/

namespace Cinst.Script

open Cinst.Lib Cinst.Record

/-! ### One record -/

section Decode

variable {size : ℕ} {as : List Assignment} {off : ℕ}

lemma ofNat16_assign (h : FitsIn size (places as)) {v : UInt16} (ha : ⟨off, 2, v.toNat⟩ ∈ as)
    (mem : Raw size) : UInt16.ofNat (getWord off 2 (assign mem as)) = v := by
  rw [getWord_assign h ha v.toNat_lt mem, UInt16.ofNat_toNat]

lemma ofNat32_assign (h : FitsIn size (places as)) {v : UInt32} (ha : ⟨off, 4, v.toNat⟩ ∈ as)
    (mem : Raw size) : UInt32.ofNat (getWord off 4 (assign mem as)) = v := by
  rw [getWord_assign h ha v.toNat_lt mem, UInt32.ofNat_toNat]

lemma ofNat64_assign (h : FitsIn size (places as)) {v : UInt64} (ha : ⟨off, 8, v.toNat⟩ ∈ as)
    (mem : Raw size) : UInt64.ofNat (getWord off 8 (assign mem as)) = v := by
  rw [getWord_assign h ha v.toNat_lt mem, UInt64.ofNat_toNat]

lemma br_assign (h : FitsIn size (places as)) {k : Kind} {br : ContainerRecord}
    (hbr : br.assignments k ⊆ as) (mem : Raw size) :
    (⟨UInt32.ofNat (getWord (k.offset (.inBr .holderAddr)) 4 (assign mem as)),
      UInt32.ofNat (getWord (k.offset (.inBr .refAddr)) 4 (assign mem as)),
      UInt16.ofNat (getWord (k.offset (.inBr .cid)) 2 (assign mem as)),
      UInt16.ofNat (getWord (k.offset (.inBr .copid)) 2 (assign mem as)),
      UInt64.ofNat (getWord (k.offset (.inBr .time)) 8 (assign mem as)),
      UInt32.ofNat (getWord (k.offset (.inBr .size)) 4 (assign mem as))⟩ : ContainerRecord) = br := by
  rw [ofNat32_assign h (v := br.holderAddr) (hbr (by simp [ContainerRecord.assignments])) mem,
    ofNat32_assign h (v := br.refAddr) (hbr (by simp [ContainerRecord.assignments])) mem,
    ofNat16_assign h (v := br.cid) (hbr (by simp [ContainerRecord.assignments])) mem,
    ofNat16_assign h (v := br.copid) (hbr (by simp [ContainerRecord.assignments])) mem,
    ofNat64_assign h (v := br.time) (hbr (by simp [ContainerRecord.assignments])) mem,
    ofNat32_assign h (v := br.size) (hbr (by simp [ContainerRecord.assignments])) mem]

end Decode

/-- The structures of the script have the members of the library's. -/
lemma attrOffset_listAndSet : attrOffset listAndSetFields = Kind.listAndSet.offset := by
  funext p
  cases p <;> rfl

lemma attrOffset_map : attrOffset mapFields = Kind.map.offset := by
  funext p
  cases p <;> rfl

lemma attrOffset_lineInfo : attrOffset lineInfoFields = Kind.containerLineInfo.offset := by
  funext p
  cases p <;> rfl

/-- A `ListAndSetRecord<0>` as the script reads it. -/
def readListAndSet (r : Raw Kind.listAndSet.size) : ListAndSetRecord := listAndSetOfRaw r

/-- A `MapRecord<0>` as the script reads it. -/
def readMap (r : Raw Kind.map.size) : MapRecord := mapOfRaw r

/-- A `ContainerLineInfoRecord` as the script reads it. -/
def readLineInfo (r : Raw Kind.containerLineInfo.size) : ContainerLineInfoRecord := lineInfoOfRaw r

lemma readListAndSet_toRaw (mem : Raw Kind.listAndSet.size) (r : ListAndSetRecord) :
    readListAndSet (r.toRaw mem) = r := by
  have hbr : attrBr listAndSetFields (r.toRaw mem) = r.br :=
    br_assign r.fits (k := .listAndSet) (List.subset_append_left ..) mem
  have hidx : attr32 listAndSetFields (.top .idxOrSucc) (r.toRaw mem) = r.idxOrSucc :=
    ofNat32_assign r.fits (by simp [attrOffset_listAndSet, ListAndSetRecord.assignments]) mem
  show (⟨attrBr listAndSetFields (r.toRaw mem),
    attr32 listAndSetFields (.top .idxOrSucc) (r.toRaw mem)⟩ : ListAndSetRecord) = r
  rw [hbr, hidx]

lemma readMap_toRaw (mem : Raw Kind.map.size) (r : MapRecord) : readMap (r.toRaw mem) = r := by
  have hbr : attrBr mapFields (r.toRaw mem) = r.br :=
    br_assign r.fits (k := .map) (List.subset_append_left ..) mem
  have hvalue : attr32 mapFields (.top .valueAddr) (r.toRaw mem) = r.valueAddr :=
    ofNat32_assign r.fits (by simp [attrOffset_map, MapRecord.assignments]) mem
  have hkey : attr32 mapFields (.top .keyAddr) (r.toRaw mem) = r.keyAddr :=
    ofNat32_assign r.fits (by simp [attrOffset_map, MapRecord.assignments]) mem
  show (⟨attrBr mapFields (r.toRaw mem), attr32 mapFields (.top .valueAddr) (r.toRaw mem),
    attr32 mapFields (.top .keyAddr) (r.toRaw mem)⟩ : MapRecord) = r
  rw [hbr, hvalue, hkey]

lemma readLineInfo_toRaw (mem : Raw Kind.containerLineInfo.size) (r : ContainerLineInfoRecord) :
    readLineInfo (r.toRaw mem) = r := by
  have hline : attr16 lineInfoFields (.top .line) (r.toRaw mem) = r.line :=
    ofNat16_assign r.fits
      (by simp [attrOffset_lineInfo, ContainerLineInfoRecord.assignments]) mem
  have hclass : attr16 lineInfoFields (.top .classNameId) (r.toRaw mem) = r.classNameId :=
    ofNat16_assign r.fits
      (by simp [attrOffset_lineInfo, ContainerLineInfoRecord.assignments]) mem
  have htime : attr64 lineInfoFields (.top .time) (r.toRaw mem) = r.time :=
    ofNat64_assign r.fits
      (by simp [attrOffset_lineInfo, ContainerLineInfoRecord.assignments]) mem
  show (⟨attr16 lineInfoFields (.top .line) (r.toRaw mem),
    attr16 lineInfoFields (.top .classNameId) (r.toRaw mem),
    attr64 lineInfoFields (.top .time) (r.toRaw mem)⟩ : ContainerLineInfoRecord) = r
  rw [hline, hclass, htime]

/-! ### Files of records -/

lemma cur_next_iterate (b : ContainerBuffer) (n : ℕ) :
    (ContainerBuffer.next^[n] b).cur = b.rest[n]? := by
  induction n generalizing b with
  | zero => rw [Function.iterate_zero, id, b.cur_eq, List.head?_eq_getElem?]
  | succ n ih => rw [Function.iterate_succ, Function.comp, ih, b.rest_next, List.getElem?_tail]

/-- The bytes that a recorder leaves. -/
def writtenBytes {size : ℕ} (limit : ℕ+) (name : String) (rs : List (Raw size)) : Bytes :=
  ((Recorder.session limit name Directory.empty rs).read name).getD []

lemma writtenBytes_eq {size : ℕ} (limit : ℕ+) (name : String) (rs : List (Raw size)) :
    writtenBytes limit name rs = joinRecords rs := by
  rw [writtenBytes, Recorder.read_session]
  split
  · rename_i h
    rw [h]
    rfl
  · rfl

lemma decode_written {size : ℕ} {ρ : Type*} (hsize : 0 < size) (limit : ℕ+) (name : String)
    {toRaw : Raw size → ρ → Raw size} {ofRaw : Raw size → ρ} (h : ∀ mem r, ofRaw (toRaw mem r) = r)
    (rs : List (Raw size × ρ)) :
    (Lib.records size (writtenBytes limit name (rs.map fun r => toRaw r.1 r.2))).map ofRaw =
      rs.map Prod.snd := by
  rw [writtenBytes_eq, records_joinRecords hsize, List.map_map]
  exact List.map_congr_left fun r _ => h r.1 r.2

/-! ### The table -/

/-- The columns of the table `CONTAINERS`. -/
inductive Column where
  | holderId | refId | cid | copid | time | size | v1 | v2 | line | classNameId
  deriving DecidableEq, Repr

/-- The columns of the `INSERT` statement. -/
def insertColumns : List Column :=
  [.holderId, .refId, .cid, .copid, .time, .size, .v1, .v2, .line, .classNameId]

/-- A column of a row that is handed to `executemany`. The row is stored when all its values fit, so a
`TIME` only below `2 ^ 63`. -/
def cell (values : List ℤ) (c : Column) : Option ℤ := (insertColumns.zip values).lookup c

/-- The field that belongs into a column, for an operation and its place in the program. -/
def columnField (e : Entry) (r2 : ContainerLineInfoRecord) : Column → ℤ
  | .holderId => e.br.holderAddr.toNat
  | .refId => e.br.refAddr.toNat
  | .cid => e.br.cid.toNat
  | .copid => e.br.copid.toNat
  | .time => e.br.time.toNat
  | .size => e.br.size.toNat
  | .v1 =>
    match e with
    | .listAndSet r => r.idxOrSucc.toNat
    | .map r => r.valueAddr.toNat
  | .v2 =>
    match e with
    | .listAndSet _ => -1
    | .map r => r.keyAddr.toNat
  | .line => r2.line.toNat
  | .classNameId => r2.classNameId.toNat

lemma cell_row (e : Entry) (r2 : ContainerLineInfoRecord) (c : Column) :
    cell (row e r2) c = some (columnField e r2 c) := by
  cases e <;> cases c <;> rfl

/-- **The script decodes exactly what the native library writes.** Files of list and set records, of
map records and of line records are cut into the records that were added, in their order and field
by field, whatever the padding held and whatever the size of the buffer of the recorder; the loop
over a file of container records returns them one after the other; and every field is inserted into
the column of its name. -/
theorem script_decodes (limit : ℕ+) (name : String) :
    (∀ rs : List (Raw Kind.listAndSet.size × ListAndSetRecord),
      (Lib.records (sizeof listAndSetFields)
        (writtenBytes limit name (rs.map fun r => r.2.toRaw r.1))).map listAndSetOfRaw =
          rs.map Prod.snd ∧
      ∀ n, (ContainerBuffer.next^[n]
        ⟨writtenBytes limit name (rs.map fun r => r.2.toRaw r.1), .listAndSet, 0⟩).cur =
          ((rs.map Prod.snd)[n]?).map Entry.listAndSet) ∧
    (∀ rs : List (Raw Kind.map.size × MapRecord),
      (Lib.records (sizeof mapFields)
        (writtenBytes limit name (rs.map fun r => r.2.toRaw r.1))).map mapOfRaw =
          rs.map Prod.snd ∧
      ∀ n, (ContainerBuffer.next^[n]
        ⟨writtenBytes limit name (rs.map fun r => r.2.toRaw r.1), .map, 0⟩).cur =
          ((rs.map Prod.snd)[n]?).map Entry.map) ∧
    (∀ rs : List (Raw Kind.containerLineInfo.size × ContainerLineInfoRecord),
      (Lib.records (sizeof lineInfoFields)
        (writtenBytes limit name (rs.map fun r => r.2.toRaw r.1))).map lineInfoOfRaw =
          rs.map Prod.snd) ∧
    ∀ e r2 c, cell (e.data4sql ++ lineData4sql r2) c = some (columnField e r2 c) := by
  refine ⟨fun rs => ?_, fun rs => ?_, fun rs => ?_, cell_row⟩
  · have h := decode_written (Kind.size_pos .listAndSet) limit name readListAndSet_toRaw rs
    refine ⟨h, fun n => ?_⟩
    rw [cur_next_iterate, ← List.getElem?_map, ← h, List.map_map]
    rfl
  · have h := decode_written (Kind.size_pos .map) limit name readMap_toRaw rs
    refine ⟨h, fun n => ?_⟩
    rw [cur_next_iterate, ← List.getElem?_map, ← h, List.map_map]
    rfl
  · exact decode_written (Kind.size_pos .containerLineInfo) limit name readLineInfo_toRaw rs

end Cinst.Script
