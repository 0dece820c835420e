import Cinst.Lib.Stream
import Cinst.Lib.Word
import Cinst.Record.Types
import Mathlib.Tactic.DeriveFintype

/-!
The record types of `recorder.hpp`, with 32-bit addresses: the prefix of their files, their members
as they lie in memory, and the address fields and the time of a record given by its bytes.
-/

namespace Cinst.Record

open Cinst.Lib

/-! ### The record types -/

/-- The record types, with the template arguments that they are used with. -/
inductive Kind where
  | gc
  | putField
  | construct
  | new
  | aaStore
  | use
  | fieldValue (isPut valLen isFloat : Bool)
  | staticFieldValue (isPut valLen isFloat : Bool)
  | stringFieldValue (isPut : Bool)
  | staticStringFieldValue (isPut : Bool)
  | listAndSet
  | map
  | containerLineInfo
  | free
  | event
  deriving DecidableEq, Fintype, Repr

/-- `concate`. -/
def concate (isPut valLen isFloat isStatic isString : Bool) : String :=
  if isString then
    match (if isStatic then 10 else 0) + (if isPut then 1 else 0) with
    | 11 => "PutStaticString"
    | 10 => "GetStaticString"
    | 1 => "PutStringField"
    | 0 => "GetStringField"
    | _ => "ERROR"
  else
    let id := (if isPut then 100 else 0) + (if valLen then 10 else 0) + (if isFloat then 1 else 0)
    if !isStatic then
      match id with
      | 100 => "FieldValue100"
      | 110 => "FieldValue110"
      | 101 => "FieldValue101"
      | 111 => "FieldValue111"
      | 0 => "FieldValue000"
      | 10 => "FieldValue010"
      | 1 => "FieldValue001"
      | 11 => "FieldValue011"
      | _ => "FieldValue"
    else
      match id with
      | 100 => "StaticFieldValue100"
      | 110 => "StaticFieldValue110"
      | 101 => "StaticFieldValue101"
      | 111 => "StaticFieldValue111"
      | 0 => "StaticFieldValue000"
      | 10 => "StaticFieldValue010"
      | 1 => "StaticFieldValue001"
      | 11 => "StaticFieldValue011"
      | _ => "StaticFieldValue"

/-- The prefix of the files of a record type. -/
def Kind.filePrefix : Kind → String
  | .gc => "gc"
  | .putField => "PutField"
  | .construct => "Construct"
  | .new => "NEW"
  | .aaStore => "AAStore"
  | .use => "Use"
  | .fieldValue isPut valLen isFloat => concate isPut valLen isFloat false false
  | .staticFieldValue isPut valLen isFloat => concate isPut valLen isFloat true false
  | .stringFieldValue isPut => concate isPut false false false true
  | .staticStringFieldValue isPut => concate isPut false false true true
  | .listAndSet => "List-Set"
  | .map => "Map"
  | .containerLineInfo => "ContainerLineInfo"
  | .free => "Free"
  | .event => "Event"

/-! ### Members -/

/-- The names of the members. -/
inductive FieldName where
  | line | classNameId | objTypeid | objSize | addr | time | orgAddr | newAddr | fieldId
  | holderAddr | refAddr | index | type | value | stringId | cid | copid | size | br | idxOrSucc
  | valueAddr | keyAddr | eventId
  deriving DecidableEq, Repr

/-- `uint16_t`. -/
def u16 (f : FieldName) : Member FieldName := .word f 2

/-- `uint32_t`, `int` and `addr_t`. -/
def u32 (f : FieldName) : Member FieldName := .word f 4

/-- `uint64_t`. -/
def u64 (f : FieldName) : Member FieldName := .word f 8

/-- `ContainerRecord<0>`. -/
def containerRecord : List (Member FieldName) :=
  [u32 .holderAddr, u32 .refAddr, u16 .cid, u16 .copid, u64 .time, u32 .size]

/-- The member `br`. -/
def br : Member FieldName := ⟨.br, sizeof containerRecord, alignof containerRecord⟩

/-- `val_t`: 64 or 32 bits. -/
def fieldVal (valLen : Bool) : Member FieldName := if valLen then u64 .value else u32 .value

/-- The members of a record type. -/
def Kind.members : Kind → List (Member FieldName)
  | .gc => [u32 .orgAddr, u32 .newAddr, u64 .time]
  | .putField =>
    [u16 .line, u16 .classNameId, u32 .fieldId, u32 .holderAddr, u32 .refAddr, u64 .time]
  | .construct => [u16 .line, u16 .classNameId, u32 .objTypeid, u32 .addr, u64 .time]
  | .new =>
    [u16 .line, u16 .classNameId, u32 .objTypeid, u32 .objSize, u32 .addr, u64 .time]
  | .aaStore =>
    [u16 .line, u16 .classNameId, u32 .index, u32 .holderAddr, u32 .refAddr, u64 .time]
  | .use => [u16 .type, u16 .line, u16 .classNameId, u32 .addr, u64 .time]
  | .fieldValue _ valLen _ =>
    [u16 .line, u16 .classNameId, u32 .addr, u64 .time, u16 .fieldId, fieldVal valLen]
  | .staticFieldValue _ valLen _ =>
    [u16 .line, u16 .classNameId, u64 .time, u16 .fieldId, fieldVal valLen]
  | .stringFieldValue _ =>
    [u16 .line, u16 .classNameId, u32 .addr, u64 .time, u16 .fieldId, u16 .stringId]
  | .staticStringFieldValue _ =>
    [u16 .line, u16 .classNameId, u64 .time, u16 .fieldId, u16 .stringId]
  | .listAndSet => [br, u32 .idxOrSucc]
  | .map => [br, u32 .valueAddr, u32 .keyAddr]
  | .containerLineInfo => [u16 .line, u16 .classNameId, u64 .time]
  | .free => [u32 .objSize, u32 .addr, u64 .time]
  | .event => [u32 .eventId, u64 .time]

/-- `sizeof(T)`. -/
def Kind.size (k : Kind) : ℕ := sizeof k.members

lemma Kind.size_pos : ∀ k : Kind, 0 < k.size := by decide

/-- How a field of a record is named: `r.f` or `r.br.f`. -/
inductive Path where
  | top (f : FieldName)
  | inBr (f : FieldName)
  deriving DecidableEq, Repr

/-- The offset of a field; a path that does not name a field is not compiled. -/
def Kind.offset (k : Kind) : Path → ℕ
  | .top f => (offsetof? k.members f).getD 0
  | .inBr f => (offsetof? k.members .br).getD 0 + (offsetof? containerRecord f).getD 0

/-- `DetectTime<T>::IsMemberExist`. -/
def Kind.hasTime (k : Kind) : Bool := (offsetof? k.members .time).isSome

/-- The field that `value` reads: `t.time`, or `t.br.time` when there is no such member. -/
def Kind.timePath (k : Kind) : Path := if k.hasTime then .top .time else .inBr .time

/-- The members of type `addr_t`. -/
def FieldName.isAddr : FieldName → Bool
  | .addr | .orgAddr | .newAddr | .holderAddr | .refAddr | .valueAddr | .keyAddr => true
  | _ => false

/-- The address fields of a record type, those of `br` included. -/
def Kind.addrFields (k : Kind) : List Path :=
  ((k.members.map Member.name).filter FieldName.isAddr).map Path.top ++
    if .br ∈ k.members.map Member.name then
      ((containerRecord.map Member.name).filter FieldName.isAddr).map Path.inBr
    else []

/-! ### Fields of a record in memory -/

section Raw

variable {size : ℕ}

/-- The word of `n` bytes at an offset. -/
def getWord (off n : ℕ) (r : Raw size) : ℕ := getLE off n r.bytes

/-- The record with the word at an offset overwritten. -/
def setWord (off n v : ℕ) (r : Raw size) : Raw size :=
  if h : off + n ≤ size then
    ⟨setLE off n v r.bytes, by rw [length_setLE v (by rw [r.length_eq]; exact h), r.length_eq]⟩
  else r

/-- An address field. -/
def getAddr (off : ℕ) (r : Raw size) : Addr := UInt32.ofNat (getWord off 4 r)

/-- A record with an address field overwritten. -/
def setAddr (off : ℕ) (a : Addr) (r : Raw size) : Raw size := setWord off 4 a.toNat r

/-- A time. -/
def getTime (off : ℕ) (r : Raw size) : Time := UInt64.ofNat (getWord off 8 r)

/-- The two fields of the given sizes do not overlap. -/
def Apart (off n off' n' : ℕ) : Prop := off + n ≤ off' ∨ off' + n' ≤ off

instance (off n off' n' : ℕ) : Decidable (Apart off n off' n') :=
  inferInstanceAs (Decidable (_ ∨ _))

lemma setWord_bytes {off n : ℕ} (h : off + n ≤ size) (v : ℕ) (r : Raw size) :
    (setWord off n v r).bytes = setLE off n v r.bytes := by
  rw [setWord, dif_pos h]

lemma getWord_setWord {off n v : ℕ} (h : off + n ≤ size) (hv : v < 256 ^ n) (r : Raw size) :
    getWord off n (setWord off n v r) = v := by
  rw [getWord, setWord_bytes h, getLE_setLE (by rw [r.length_eq]; exact h) hv]

lemma getWord_setWord_of_apart {off n off' n' : ℕ} (v : ℕ) (h : off' + n' ≤ size)
    (hd : Apart off n off' n') (r : Raw size) :
    getWord off n (setWord off' n' v r) = getWord off n r := by
  rw [getWord, setWord_bytes h,
    getLE_setLE_of_disjoint _ (by rw [r.length_eq]; exact h) hd, getWord]

lemma getAddr_setAddr {off : ℕ} (h : off + 4 ≤ size) (a : Addr) (r : Raw size) :
    getAddr off (setAddr off a r) = a := by
  rw [getAddr, setAddr, getWord_setWord h a.toNat_lt, UInt32.ofNat_toNat]

lemma getWord_setAddr {off off' n : ℕ} (h : off + 4 ≤ size) (hd : Apart off' n off 4) (a : Addr)
    (r : Raw size) : getWord off' n (setAddr off a r) = getWord off' n r :=
  getWord_setWord_of_apart _ h hd r

lemma setAddr_getAddr {off : ℕ} (h : off + 4 ≤ size) (r : Raw size) :
    setAddr off (getAddr off r) r = r := by
  ext1
  have hlt := getLE_lt off 4 r.bytes
  rw [setAddr, setWord_bytes h, getAddr, getWord, UInt32.toNat_ofNat_of_lt' (by simpa using hlt),
    setLE_getLE (by rw [r.length_eq]; exact h)]

lemma getElem?_setAddr {off i : ℕ} (h : off + 4 ≤ size) (hi : i < off ∨ off + 4 ≤ i) (a : Addr)
    (r : Raw size) : (setAddr off a r).bytes[i]? = r.bytes[i]? := by
  rw [setAddr, setWord_bytes h, getElem?_setLE _ (by rw [r.length_eq]; exact h) hi]

end Raw

/-- The field of a record. -/
def Kind.getAddr (k : Kind) (p : Path) (r : Raw k.size) : Addr := Record.getAddr (k.offset p) r

/-- The record with the field overwritten. -/
def Kind.setAddr (k : Kind) (p : Path) (a : Addr) (r : Raw k.size) : Raw k.size :=
  Record.setAddr (k.offset p) a r

/-- `value`: the time of a record. -/
def Kind.value (k : Kind) (r : Raw k.size) : Time := getTime (k.offset k.timePath) r

/-- A `GCRecord<0>` in memory. -/
def GCRecord.ofRaw (r : Raw Kind.gc.size) : GCRecord where
  orgAddr := Kind.gc.getAddr (.top .orgAddr) r
  newAddr := Kind.gc.getAddr (.top .newAddr) r
  time := Kind.gc.value r

/-- A `NewRecord<0>` in memory. -/
def NewRecord.ofRaw (r : Raw Kind.new.size) : NewRecord where
  line := UInt16.ofNat (getWord (Kind.new.offset (.top .line)) 2 r)
  classNameId := UInt16.ofNat (getWord (Kind.new.offset (.top .classNameId)) 2 r)
  objTypeid := (UInt32.ofNat (getWord (Kind.new.offset (.top .objTypeid)) 4 r)).toInt32
  objSize := UInt32.ofNat (getWord (Kind.new.offset (.top .objSize)) 4 r)
  addr := Kind.new.getAddr (.top .addr) r
  time := Kind.new.value r

example : (Finset.univ : Finset Kind).image Kind.size = {16, 24, 32, 40} := by decide

end Cinst.Record
