import Cinst.Record.Container

/-!
The part of `build_container_db.py` that reads the container records and the line records of one
thread and joins them to the rows of the table `CONTAINERS`.

The two files of container records are read through a selector that returns the record with the
least time. `records` goes through the line records, with one container record read ahead.
-/

namespace Cinst.Script

open Cinst.Lib Cinst.Record

/-! ### The structures of `ctypes` -/

/-- `c_uint16`. -/
def cUint16 (f : FieldName) : Member FieldName := .word f 2

/-- `c_uint32`. -/
def cUint32 (f : FieldName) : Member FieldName := .word f 4

/-- `c_uint64`. -/
def cUint64 (f : FieldName) : Member FieldName := .word f 8

/-- `container_record_fields`. -/
def containerRecordFields : List (Member FieldName) :=
  [cUint32 .holderAddr, cUint32 .refAddr, cUint16 .cid, cUint16 .copid, cUint64 .time,
    cUint32 .size]

/-- The field `br` of type `ContainerRecord`. -/
def brField : Member FieldName := ⟨.br, sizeof containerRecordFields, alignof containerRecordFields⟩

/-- `line_info_fields`. -/
def lineInfoFields : List (Member FieldName) :=
  [cUint16 .line, cUint16 .classNameId, cUint64 .time]

/-- `list_and_set_fields`. -/
def listAndSetFields : List (Member FieldName) := [brField, cUint32 .idxOrSucc]

/-- `map_fields`. -/
def mapFields : List (Member FieldName) := [brField, cUint32 .valueAddr, cUint32 .keyAddr]

/-- The offset of an attribute of a structure with the given `_fields_`. -/
def attrOffset (fields : List (Member FieldName)) : Path → ℕ
  | .top f => (offsetof? fields f).getD 0
  | .inBr f => (offsetof? fields .br).getD 0 + (offsetof? containerRecordFields f).getD 0

section Decode

variable (fields : List (Member FieldName))

/-- An attribute of type `c_uint16`. -/
def attr16 (p : Path) (r : Raw (sizeof fields)) : UInt16 :=
  UInt16.ofNat (getWord (attrOffset fields p) 2 r)

/-- An attribute of type `c_uint32`. -/
def attr32 (p : Path) (r : Raw (sizeof fields)) : UInt32 :=
  UInt32.ofNat (getWord (attrOffset fields p) 4 r)

/-- An attribute of type `c_uint64`. -/
def attr64 (p : Path) (r : Raw (sizeof fields)) : UInt64 :=
  UInt64.ofNat (getWord (attrOffset fields p) 8 r)

/-- The attribute `br`. -/
def attrBr (r : Raw (sizeof fields)) : ContainerRecord where
  holderAddr := attr32 fields (.inBr .holderAddr) r
  refAddr := attr32 fields (.inBr .refAddr) r
  cid := attr16 fields (.inBr .cid) r
  copid := attr16 fields (.inBr .copid) r
  time := attr64 fields (.inBr .time) r
  size := attr32 fields (.inBr .size) r

end Decode

/-- A `ListAndSetRecord` of the script. -/
def listAndSetOfRaw (r : Raw (sizeof listAndSetFields)) : ListAndSetRecord where
  br := attrBr listAndSetFields r
  idxOrSucc := attr32 listAndSetFields (.top .idxOrSucc) r

/-- A `MapRecord` of the script. -/
def mapOfRaw (r : Raw (sizeof mapFields)) : MapRecord where
  br := attrBr mapFields r
  valueAddr := attr32 mapFields (.top .valueAddr) r
  keyAddr := attr32 mapFields (.top .keyAddr) r

/-- A `ContainerLineInfoRecord` of the script. -/
def lineInfoOfRaw (r : Raw (sizeof lineInfoFields)) : ContainerLineInfoRecord where
  line := attr16 lineInfoFields (.top .line) r
  classNameId := attr16 lineInfoFields (.top .classNameId) r
  time := attr64 lineInfoFields (.top .time) r

/-! ### Container records -/

/-- The two structures that a selector reads. -/
inductive Struct where
  | listAndSet
  | map
  deriving DecidableEq, Repr

/-- `sizeof(struct)`. -/
def Struct.size : Struct → ℕ
  | .listAndSet => sizeof listAndSetFields
  | .map => sizeof mapFields

end Cinst.Script

namespace Cinst.Record.Entry

open Cinst.Script

/-- The structure of a record. -/
def struct : Entry → Struct
  | .listAndSet _ => .listAndSet
  | .map _ => .map

/-- `data4sql`. -/
def data4sql (e : Entry) : List ℤ :=
  let br : List ℤ := [e.br.holderAddr.toNat, e.br.refAddr.toNat, e.br.cid.toNat, e.br.copid.toNat,
    e.br.time.toNat, e.br.size.toNat]
  match e with
  | .listAndSet r => br ++ [(r.idxOrSucc.toNat : ℤ), -1]
  | .map r => br ++ [(r.valueAddr.toNat : ℤ), (r.keyAddr.toNat : ℤ)]

end Cinst.Record.Entry

namespace Cinst.Script

open Cinst.Lib Cinst.Record

/-- `data4sql` of a line record. -/
def lineData4sql (r : ContainerLineInfoRecord) : List ℤ := [r.line.toNat, r.classNameId.toNat]

/-- A structure in memory as a record. -/
def Struct.decode (s : Struct) : Raw s.size → Entry :=
  match s with
  | .listAndSet => fun r => .listAndSet (listAndSetOfRaw r)
  | .map => fun r => .map (mapOfRaw r)

/-- `struct.from_buffer_copy(buf, offset)`. -/
def Struct.fromBufferCopy (s : Struct) (buf : Bytes) (offset : ℕ) : Entry :=
  s.decode (Raw.ofBytes s.size (buf.drop offset))

/-! ### The selector -/

/-- `ContainerBuffer`. The constructor calls `next` once, so `pos` starts at `0`. -/
structure ContainerBuffer where
  buf : Bytes
  struct : Struct
  pos : ℕ

namespace ContainerBuffer

/-- `cur`: what the last `next` has put into `top`. -/
def cur (b : ContainerBuffer) : Option Entry :=
  if b.pos * b.struct.size + b.struct.size - 1 ≥ b.buf.length then none
  else some (b.struct.fromBufferCopy b.buf (b.pos * b.struct.size))

/-- `next`. -/
def next (b : ContainerBuffer) : ContainerBuffer := { b with pos := b.pos + 1 }

end ContainerBuffer

/-- The buffers of a `ContainerBufferSelector`; absent ones are left out. -/
def selector (listAndSetBuf mapBuf : Option Bytes) : List ContainerBuffer :=
  listAndSetBuf.toList.map (fun buf => ⟨buf, .listAndSet, 0⟩) ++
    mapBuf.toList.map (fun buf => ⟨buf, .map, 0⟩)

/-- The first buffer whose current record has the least time: its place, and the record. -/
def minBuf : List ContainerBuffer → Option (ℕ × Entry)
  | [] => none
  | b :: bufs =>
    match b.cur, minBuf bufs with
    | none, none => none
    | none, some (i, r) => some (i + 1, r)
    | some r, none => some (0, r)
    | some r, some (i, r') => if r'.time < r.time then some (i + 1, r') else some (0, r)

/-- `read`. -/
def read (bufs : List ContainerBuffer) : Option Entry × List ContainerBuffer :=
  match minBuf bufs with
  | none => (none, bufs)
  | some (i, res) => (some res, bufs.modify i ContainerBuffer.next)

/-! ### The join -/

/-- The bytes that are not read yet, at most. -/
def unread (bufs : List ContainerBuffer) : ℕ := (bufs.map fun b => b.buf.length - b.pos).sum

lemma Struct.size_pos : ∀ s : Struct, 0 < s.size
  | .listAndSet => by decide
  | .map => by decide

lemma ContainerBuffer.pos_lt {b : ContainerBuffer} {r : Entry} (h : b.cur = some r) :
    b.pos < b.buf.length := by
  have hsize := b.struct.size_pos
  have hle : b.pos ≤ b.pos * b.struct.size := Nat.le_mul_of_pos_right _ hsize
  unfold cur at h
  split at h
  · cases h
  · omega

lemma minBuf_mem {bufs : List ContainerBuffer} {i : ℕ} {r : Entry} (h : minBuf bufs = some (i, r)) :
    ∃ b, bufs[i]? = some b ∧ b.cur = some r := by
  induction bufs generalizing i r with
  | nil => cases h
  | cons b bufs ih =>
    rw [minBuf] at h
    split at h
    · cases h
    · rename_i j r' _ hmin
      cases h
      exact ih hmin
    · rename_i r' hcur _
      cases h
      exact ⟨b, rfl, hcur⟩
    · rename_i r' j r'' hcur hmin
      split at h
      · cases h
        exact ih hmin
      · cases h
        exact ⟨b, rfl, hcur⟩

lemma unread_modify {bufs : List ContainerBuffer} {i : ℕ} {b : ContainerBuffer}
    (hb : bufs[i]? = some b) (hpos : b.pos < b.buf.length) :
    unread (bufs.modify i ContainerBuffer.next) < unread bufs := by
  induction bufs generalizing i with
  | nil => simp at hb
  | cons c bufs ih =>
    cases i with
    | zero =>
      cases hb
      simp only [unread, List.modify_zero_cons, List.map_cons, List.sum_cons,
        ContainerBuffer.next]
      omega
    | succ i =>
      have := ih hb
      simp only [unread, List.modify_succ_cons, List.map_cons, List.sum_cons] at this ⊢
      omega

lemma unread_read (bufs : List ContainerBuffer) :
    unread (read bufs).2 + (read bufs).1.isSome.toNat ≤ unread bufs := by
  unfold read
  cases hmin : minBuf bufs with
  | none => simp
  | some p =>
    obtain ⟨b, hb, hcur⟩ := minBuf_mem (i := p.1) (r := p.2) hmin
    exact unread_modify hb (ContainerBuffer.pos_lt hcur)

/-- The loop that skips container records: as long as the next one is nearer to the line record and
before it. -/
def lookahead (r1 : Entry) (next : Option Entry) (bufs : List ContainerBuffer)
    (r2 : ContainerLineInfoRecord) : Entry × Option Entry × List ContainerBuffer :=
  match next with
  | none => (r1, none, bufs)
  | some n =>
    if lineTime r2 - r1.time > lineTime r2 - n.time ∧ n.time < lineTime r2 then
      lookahead n (read bufs).1 (read bufs).2 r2
    else (r1, some n, bufs)
  termination_by unread bufs + next.isSome.toNat
  decreasing_by
    have := unread_read bufs
    simp only [Option.isSome_some, Bool.toNat_true]
    omega

/-- The loop over the line records, with `next_r1` and the selector. -/
def joinLoop (next : Option Entry) (bufs : List ContainerBuffer) :
    List ContainerLineInfoRecord → List (List ℤ)
  | [] => []
  | r2 :: lines =>
    match next with
    | none => []
    | some r1 =>
      if r1.time > lineTime r2 then joinLoop next bufs lines
      else
        let ahead := lookahead r1 (read bufs).1 (read bufs).2 r2
        (ahead.1.data4sql ++ lineData4sql r2) :: joinLoop ahead.2.1 ahead.2.2 lines

/-- `records`: the rows of the line file and the container files of a thread. -/
def records (lineInfoBuf : Bytes) (listAndSetBuf mapBuf : Option Bytes) : List (List ℤ) :=
  if listAndSetBuf = none ∧ mapBuf = none then []
  else
    joinLoop (read (selector listAndSetBuf mapBuf)).1 (read (selector listAndSetBuf mapBuf)).2
      ((Lib.records (sizeof lineInfoFields) lineInfoBuf).map lineInfoOfRaw)

end Cinst.Script
