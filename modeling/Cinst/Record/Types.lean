import Mathlib.Tactic

/-!
The records of `recorder.hpp` that the later modules read or write field by field, with 32-bit
addresses (`is_64bit = 0`). How a record lies in memory is said in `Record.Layout`.
-/

namespace Cinst.Record

/-- `addr_t`. -/
abbrev Addr := UInt32

/-- The value of `nanotime()`. -/
abbrev Time := UInt64

/-- `GCRecord<0>`: the object at `orgAddr` was moved to `newAddr`. -/
structure GCRecord where
  orgAddr : Addr
  newAddr : Addr
  time : Time
  deriving DecidableEq, Repr

/-- `PutFieldRecord<0>`: a reference was stored in a field of the object at `holderAddr`. -/
structure PutFieldRecord where
  line : UInt16
  classNameId : UInt16
  fieldId : Int32
  holderAddr : Addr
  refAddr : Addr
  time : Time
  deriving DecidableEq, Repr

/-- `NewRecord<0>`: an object was allocated at `addr`. -/
structure NewRecord where
  line : UInt16
  classNameId : UInt16
  objTypeid : Int32
  objSize : UInt32
  addr : Addr
  time : Time
  deriving DecidableEq, Repr

/-- `AAStoreRecord<0>`: a reference was stored in the array at `holderAddr`. -/
structure AAStoreRecord where
  line : UInt16
  classNameId : UInt16
  index : Int32
  holderAddr : Addr
  refAddr : Addr
  time : Time
  deriving DecidableEq, Repr

/-- `UseRecord<0>`: the object at `addr` was used. -/
structure UseRecord where
  type : UInt16
  line : UInt16
  classNameId : UInt16
  addr : Addr
  time : Time
  deriving DecidableEq, Repr

/-- `ContainerRecord<0>`: an operation on a container. -/
structure ContainerRecord where
  holderAddr : Addr
  refAddr : Addr
  cid : UInt16
  copid : UInt16
  time : Time
  size : UInt32
  deriving DecidableEq, Repr

/-- `ListAndSetRecord<0>`. -/
structure ListAndSetRecord where
  br : ContainerRecord
  idxOrSucc : UInt32
  deriving DecidableEq, Repr

/-- `MapRecord<0>`. -/
structure MapRecord where
  br : ContainerRecord
  valueAddr : Addr
  keyAddr : Addr
  deriving DecidableEq, Repr

/-- `ContainerLineInfoRecord`: the place in the program of a container operation. -/
structure ContainerLineInfoRecord where
  line : UInt16
  classNameId : UInt16
  time : Time
  deriving DecidableEq, Repr

end Cinst.Record
