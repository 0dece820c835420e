import Cinst.Lib.PyText
import Cinst.Trace.Addr2id

/-!
The program `csv2db`: it loads the records of eight types from the files of a process into the table
`TIMELINE`. For each type there is a list of columns, a list of placeholders, and a function that
binds the fields of a record to the placeholders in order.

Every record gets one row, and its columns hold its fields as far as the functions that bind them
are wide enough (`holds_rowOf_iff`).
-/

namespace Cinst.Trace

open Cinst.Lib Cinst.Record

/-! ### Files by the end of their name -/

/-- `std::string::rfind`: the last position at which `sub` occurs. -/
def rfind (s sub : String) : Option ℕ :=
  (List.range (s.toList.length + 1)).reverse.find? fun i => sub.toList.isPrefixOf (s.toList.drop i)

/-- `endsWith` of `fs_util.h`. -/
def endsWith (s sub : String) : Bool :=
  match rfind s sub with
  | none => false
  | some pos => pos == s.toList.length - sub.toList.length

/-- `glob`. -/
def glob (d : Directory) (ext : String) : List String := d.names.filter fun name => endsWith name ext

lemma endsWith_append (s sub : String) : endsWith (s ++ sub) sub := by
  have hlen : (s ++ sub).toList.length = s.toList.length + sub.toList.length := by
    rw [String.toList_append, List.length_append]
  have hfind : rfind (s ++ sub) sub = some s.toList.length := by
    rw [rfind, List.find?_eq_some_iff_getElem]
    refine ⟨?_, sub.toList.length, ?_, ?_, ?_⟩
    · rw [String.toList_append, List.drop_left, List.isPrefixOf_iff_prefix]
    · rw [List.length_reverse, List.length_range, hlen]
      omega
    · rw [List.getElem_reverse, List.getElem_range, List.length_range, hlen]
      omega
    · -- a later occurrence would be longer than what is left
      intro j hj
      rw [List.getElem_reverse, List.getElem_range, List.length_range, hlen, Bool.not_eq_true',
        ← Bool.not_eq_true, List.isPrefixOf_iff_prefix]
      intro hpre
      have hle := hpre.length_le
      rw [List.length_drop, hlen] at hle
      omega
  rw [endsWith, hfind, hlen]
  simp

/-! ### The table `TIMELINE` -/

/-- The columns of `TIMELINE`, except the key. -/
inductive TColumn where
  | time | addr0 | addr1 | id | line | classNameId | type
  deriving DecidableEq, Repr

/-- The names of the columns. -/
def TColumn.name : TColumn → String
  | .time => "TIME"
  | .addr0 => "ADDR0"
  | .addr1 => "ADDR1"
  | .id => "ID"
  | .line => "LINE"
  | .classNameId => "CLASS_NAME_ID"
  | .type => "TYPE"

/-- The declared types of the columns. -/
def TColumn.decl : TColumn → String
  | .time => "BIGIT"
  | .addr0 => "BIGINT"
  | .addr1 => "BININT"
  | .id | .line | .classNameId => "INT"
  | .type => "CHAR"

/-- All columns. -/
def TColumn.all : List TColumn := [.time, .addr0, .addr1, .id, .line, .classNameId, .type]

/-- The column of a name. -/
def columnOf? (name : List Char) : Option TColumn := TColumn.all.find? fun c => c.name.toList = name

/-- A value in a table. -/
inductive SqlValue where
  | null
  | int (i : ℤ)
  | text (s : String)
  deriving DecidableEq, Repr

/-- A declared type has text affinity. -/
def textAffinity (decl : String) : Bool :=
  (find decl "INT").isNone &&
    ((find decl "CHAR").isSome || (find decl "CLOB").isSome || (find decl "TEXT").isSome)

/-- A value as a column stores it: a number becomes a text in a column of text affinity. No other
affinity of the columns changes a number. -/
def TColumn.store (c : TColumn) : SqlValue → SqlValue
  | .int i => if textAffinity c.decl then .text (toString i) else .int i
  | v => v

/-- The table: its rows with their keys, and the last key that `AUTOINCREMENT` gave. -/
structure Timeline where
  seq : ℕ
  rows : List (ℕ × (TColumn → SqlValue))

/-- The table of a fresh database. -/
def Timeline.empty : Timeline := ⟨0, []⟩

/-- A row is inserted. -/
def Timeline.insert (t : Timeline) (row : TColumn → SqlValue) : Timeline :=
  ⟨t.seq + 1, t.rows ++ [(t.seq + 1, row)]⟩

/-! ### The statements -/

/-- `sql_map`. -/
def sqlMap : List (String × String) :=
  [ ("gc", "TIME,ADDR0,ADDR1"),
    ("AAStore", "LINE, CLASS_NAME_ID, TIME, ID, ADDR0, ADDR1"),
    ("PutField", "LINE, CLASS_NAME_ID, ID, TIME, ADDR0, ADDR1"),
    ("NEW", "LINE, CLASS_NAME_ID, TIME, ID, ADDR0, ADDR1"),
    ("Construct", "LINE, CLASS_NAME_ID, TIME, ID, ADDR0"),
    ("Use", "ID, LINE, CLASS_NAME_ID, ADDR0, TIME"),
    ("Free", "TIME, ADDR0, ADDR1"),
    ("Event", "TIME, ID") ]

/-- `value_map`. -/
def valueMap : List (String × String) :=
  [ ("gc", "?,?,?,?"),
    ("AAStore", "?,?,?,?,?,?,?"),
    ("PutField", "?,?,?,?,?,?,?"),
    ("NEW", "?,?,?,?,?,?,?"),
    ("Construct", "?,?,?,?,?,?"),
    ("Use", "?,?,?,?,?,?"),
    ("Free", "?,?,?,?"),
    ("Event", "?,?,?") ]

/-- The entry of a map; a new key has an empty text. -/
def entry (map : List (String × String)) (key : String) : String := (map.lookup key).getD ""

/-- `sqlite3_prepare_v2` on `INSERT INTO TIMELINE(columns) VALUES(values)`: the columns, where there
are as many placeholders. -/
def prepare (columns values : String) : Option (List TColumn) :=
  let names := (split ',' columns.toList).map strip
  let holders := split ',' values.toList
  if holders = List.replicate names.length ['?'] then names.mapM columnOf? else none

/-- The statement of a record type. -/
def statement (k : Kind) : Option (List TColumn) :=
  prepare (entry sqlMap k.filePrefix ++ ",TYPE") (entry valueMap k.filePrefix)

/-! ### Binding the fields -/

/-- The fields of type `int`; the other ones are unsigned. -/
def isInt : Kind → FieldName → Bool
  | .putField, .fieldId | .construct, .objTypeid | .new, .objTypeid | .aaStore, .index
  | .event, .eventId => true
  | _, _ => false

/-- The length of a field in bytes. -/
def fieldLen (k : Kind) (f : FieldName) : ℕ :=
  ((k.members.find? fun m => m.name = f).map Member.size).getD 0

/-- The value of a field, signed or unsigned as its type is. -/
def fieldValue (k : Kind) (f : FieldName) (r : Raw k.size) : ℤ :=
  let word : ℤ := getWord (k.offset (.top f)) (fieldLen k f) r
  if isInt k f then word.bmod (2 ^ (8 * fieldLen k f)) else word

/-- `sqlite3_bind_int` and `sqlite3_bind_int64`. -/
inductive Bind where
  | int
  | int64
  deriving DecidableEq, Repr

/-- How many bits the argument has. -/
def Bind.bits : Bind → ℕ
  | .int => 32
  | .int64 => 64

/-- The argument is converted to a signed number of these bits. -/
def Bind.convert (b : Bind) (v : ℤ) : ℤ := v.bmod (2 ^ b.bits)

/-- What is bound: a field of the record, or a character. -/
inductive Arg where
  | field (f : FieldName)
  | char (c : Char)
  deriving DecidableEq, Repr

/-- `sql_bind`: the calls, in order. -/
def sqlBind : Kind → List (Bind × Arg)
  | .event => [(.int64, .field .time), (.int, .field .eventId), (.int, .char 'e')]
  | .free =>
    [(.int64, .field .time), (.int, .field .addr), (.int, .field .objSize), (.int, .char 'f')]
  | .use =>
    [(.int, .field .type), (.int, .field .line), (.int, .field .classNameId),
      (.int64, .field .addr), (.int64, .field .time), (.int, .char 'u')]
  | .gc =>
    [(.int64, .field .time), (.int64, .field .orgAddr), (.int64, .field .newAddr),
      (.int, .char 'g')]
  | .aaStore =>
    [(.int, .field .line), (.int, .field .classNameId), (.int64, .field .time),
      (.int64, .field .index), (.int64, .field .holderAddr), (.int64, .field .refAddr),
      (.int, .char 'a')]
  | .new =>
    [(.int, .field .line), (.int, .field .classNameId), (.int64, .field .time),
      (.int64, .field .objTypeid), (.int64, .field .addr), (.int64, .field .objSize),
      (.int, .char 'n')]
  | .construct =>
    [(.int, .field .line), (.int, .field .classNameId), (.int64, .field .time),
      (.int64, .field .objTypeid), (.int64, .field .addr), (.int, .char 'c')]
  | .putField =>
    [(.int, .field .line), (.int, .field .classNameId), (.int, .field .fieldId),
      (.int64, .field .time), (.int64, .field .holderAddr), (.int64, .field .refAddr),
      (.int, .char 'p')]
  | _ => []

/-- The value of an argument. -/
def Arg.value (k : Kind) (r : Raw k.size) : Arg → ℤ
  | .field f => fieldValue k f r
  | .char c => c.toNat

/-- The row that a statement inserts for a record; a column without a value is null. -/
def rowOf (k : Kind) (columns : List TColumn) (r : Raw k.size) (c : TColumn) : SqlValue :=
  (((columns.zip (sqlBind k)).lookup c).map fun b =>
    c.store (.int (b.1.convert (b.2.value k r)))).getD .null

/-! ### The program -/

/-- `BUF_SIZE`. -/
def bufSize : ℕ := 16 <<< 30

/-- The loop body of `load_timeline`; a statement that could not be prepared does nothing. -/
def loadRecord (k : Kind) (t : Timeline) (r : Raw k.size) : Timeline :=
  match statement k with
  | none => t
  | some columns => t.insert (rowOf k columns r)

/-- `load_timeline`. -/
def loadTimeline (s : Timeline × Stream) (k : Kind) : Timeline × Stream :=
  s.2.forEach k.size (bufSize / k.size) (loadRecord k) s.1

/-- The types of the `LOAD_TIMELINE` lines. -/
def timelineKinds : List Kind := [.gc, .aaStore, .putField, .new, .construct, .use, .free, .event]

/-- The loop body of `main`: the prefixes are tried one after the other on the same open file. -/
def loadFile (t : Timeline) (name : String) (bs : Bytes) : Timeline :=
  (timelineKinds.foldl
    (fun s k => if startsWith name k.filePrefix then loadTimeline s k else s) (t, ⟨bs, 0⟩)).1

/-- `main` of `csv2db.cpp`, on a fresh database. -/
def csv2db (d : Directory) (pid : String) : Timeline :=
  (glob d pid).foldl (fun t file => loadFile t file ((d.read file).getD [])) .empty

/-! ### What the program is for -/

/-- The record types that have strings. -/
def stringKind (isStatic isPut : Bool) : Kind :=
  if isStatic then .staticStringFieldValue isPut else .stringFieldValue isPut

/-- A file that a `Recorder` leaves: its records, or the table of its strings. -/
inductive TraceFile where
  | data (k : Kind) (tid : ℤ) (rs : List (Raw k.size))
  | strings (isStatic isPut : Bool) (tid : ℤ) (text : Bytes)

/-- The file in the directory of the process. -/
def TraceFile.file (pid : ℤ) : TraceFile → String × Bytes
  | .data k tid rs => (dataName k tid pid, joinRecords rs)
  | .strings isStatic isPut tid text => (stringName (stringKind isStatic isPut) tid pid, text)

/-- A record of one of the eight types. -/
structure TimelineRecord where
  kind : Kind
  raw : Raw kind.size

/-- The records of a file that belong into the table. -/
def TraceFile.timelineRecords : TraceFile → List TimelineRecord
  | .data k _ rs => if k ∈ timelineKinds then rs.map fun r => ⟨k, r⟩ else []
  | .strings .. => []

/-- The field that a column is named for. -/
def columnField : Kind → TColumn → Option FieldName
  | .gc, .time => some .time
  | .gc, .addr0 => some .orgAddr
  | .gc, .addr1 => some .newAddr
  | .aaStore, .time | .putField, .time => some .time
  | .aaStore, .addr0 | .putField, .addr0 => some .holderAddr
  | .aaStore, .addr1 | .putField, .addr1 => some .refAddr
  | .aaStore, .id => some .index
  | .putField, .id => some .fieldId
  | .aaStore, .line | .putField, .line | .new, .line | .construct, .line | .use, .line => some .line
  | .aaStore, .classNameId | .putField, .classNameId | .new, .classNameId
  | .construct, .classNameId | .use, .classNameId => some .classNameId
  | .new, .time | .construct, .time | .use, .time | .free, .time | .event, .time => some .time
  | .new, .addr0 | .construct, .addr0 | .use, .addr0 | .free, .addr0 => some .addr
  | .new, .addr1 | .free, .addr1 => some .objSize
  | .new, .id | .construct, .id => some .objTypeid
  | .use, .id => some .type
  | .event, .id => some .eventId
  | _, _ => none

/-- Every column of the type holds the value of its field. -/
def Holds (r : TimelineRecord) (row : TColumn → SqlValue) : Prop :=
  ∀ c f, columnField r.kind c = some f → row c = .int (fieldValue r.kind f r.raw)

/-- The address in the column `ADDR0`. -/
def TimelineRecord.address (r : TimelineRecord) : Option ℤ :=
  (columnField r.kind .addr0).map fun f => fieldValue r.kind f r.raw

/-- The rows are those of the records, one for each, and addresses are compared by `ADDR0`. -/
structure Faithful (rs : List TimelineRecord) (rows : List (TColumn → SqlValue)) : Prop where
  holds : List.Forall₂ Holds rs rows
  addr0 : ∀ p ∈ rs.zip rows, ∀ q ∈ rs.zip rows, p.1.address.isSome → q.1.address.isSome →
    (p.2 .addr0 = q.2 .addr0 ↔ p.1.address = q.1.address)

/-- The time fits into 63 bits, and the address and the size of a Free record into 31. -/
def InRange (r : TimelineRecord) : Prop :=
  fieldValue r.kind .time r.raw < 2 ^ 63 ∧
    (r.kind = .free →
      fieldValue r.kind .addr r.raw < 2 ^ 31 ∧ fieldValue r.kind .objSize r.raw < 2 ^ 31)

instance (r : TimelineRecord) : Decidable (InRange r) := inferInstanceAs (Decidable (_ ∧ (_ → _)))

/-! ### One record -/

lemma TColumn.mem_all : ∀ c : TColumn, c ∈ TColumn.all := by
  intro c
  cases c <;> decide

/-- The columns that the statement of a type names. -/
def columns : Kind → List TColumn
  | .gc | .free => [.time, .addr0, .addr1, .type]
  | .aaStore | .new => [.line, .classNameId, .time, .id, .addr0, .addr1, .type]
  | .putField => [.line, .classNameId, .id, .time, .addr0, .addr1, .type]
  | .construct => [.line, .classNameId, .time, .id, .addr0, .type]
  | .use => [.id, .line, .classNameId, .addr0, .time, .type]
  | .event => [.time, .id, .type]
  | _ => []

lemma statement_eq : ∀ k ∈ timelineKinds, statement k = some (columns k) := by decide

/-- How the field of a column is bound. -/
def bindOf (k : Kind) (c : TColumn) : Option (Bind × Arg) :=
  ((columns k).zip (sqlBind k)).lookup c

/-- **The three lists agree**: to the column that is named for a field, this field is bound. -/
lemma bindOf_columnField : ∀ k ∈ timelineKinds, ∀ c ∈ TColumn.all, ∀ f ∈ columnField k c,
    textAffinity c.decl = false ∧ ((bindOf k c).map Prod.snd) = some (.field f) := by
  decide

/-- A field of `n` bits is bound without loss. -/
def fits (k : Kind) (f : FieldName) (b : Bind) : Bool :=
  if isInt k f then 8 * fieldLen k f ≤ b.bits else 8 * fieldLen k f < b.bits

lemma fits_or : ∀ k ∈ timelineKinds, ∀ c ∈ TColumn.all, ∀ f ∈ columnField k c, ∀ b ∈ bindOf k c,
    fits k f b.1 = true ∨ c = .time ∨ k = .free := by
  decide

lemma bindOf_time : ∀ k ∈ timelineKinds,
    columnField k .time = some .time ∧ isInt k .time = false ∧ fieldLen k .time = 8 ∧
      bindOf k .time = some (.int64, .field .time) := by
  decide

lemma fieldLen_pos : ∀ k ∈ timelineKinds, ∀ c ∈ TColumn.all, ∀ f ∈ columnField k c,
    0 < fieldLen k f := by
  decide

lemma bindOf_free :
    (columnField .free .addr0 = some .addr ∧ bindOf .free .addr0 = some (.int, .field .addr)) ∧
    columnField .free .addr1 = some .objSize ∧ bindOf .free .addr1 = some (.int, .field .objSize) := by
  decide

lemma bmod_eq_self_iff {n : ℕ} (hn : 0 < n) (v : ℤ) :
    v.bmod (2 ^ n) = v ↔ -2 ^ (n - 1) ≤ v ∧ v < 2 ^ (n - 1) := by
  obtain ⟨m, rfl⟩ := Nat.exists_eq_add_of_lt hn
  rw [Nat.zero_add, Nat.add_sub_cancel]
  have hcast : ((2 ^ (m + 1) : ℕ) : ℤ) = 2 * 2 ^ m := by
    push_cast
    ring
  have hpos : (0 : ℤ) < 2 ^ m := by positivity
  constructor
  · intro h
    rw [← h]
    have hle := Int.le_bmod (x := v) (m := 2 ^ (m + 1)) (by positivity)
    have hlt := Int.bmod_lt (x := v) (m := 2 ^ (m + 1)) (by positivity)
    rw [hcast] at hle hlt
    omega
  · rintro ⟨hle, hlt⟩
    exact Int.bmod_eq_of_le (by rw [hcast]; omega) (by rw [hcast]; omega)

section Record

variable {k : Kind}

lemma fieldValue_range (f : FieldName) (hlen : 0 < fieldLen k f) (r : Raw k.size) :
    if isInt k f then
      -2 ^ (8 * fieldLen k f - 1) ≤ fieldValue k f r ∧ fieldValue k f r < 2 ^ (8 * fieldLen k f - 1)
    else 0 ≤ fieldValue k f r ∧ fieldValue k f r < 2 ^ (8 * fieldLen k f) := by
  have hword : (getWord (k.offset (.top f)) (fieldLen k f) r : ℤ) < 2 ^ (8 * fieldLen k f) := by
    have := getLE_lt (k.offset (.top f)) (fieldLen k f) r.bytes
    rw [show 256 = 2 ^ 8 by norm_num, ← pow_mul] at this
    exact_mod_cast this
  unfold fieldValue
  split_ifs with hint
  · rw [← bmod_eq_self_iff (by omega), Int.bmod_bmod]
  · exact ⟨Int.natCast_nonneg _, hword⟩

lemma convert_eq_self_iff {f : FieldName} (hlen : 0 < fieldLen k f) (hint : isInt k f = false)
    (b : Bind) (r : Raw k.size) :
    b.convert (fieldValue k f r) = fieldValue k f r ↔ fieldValue k f r < 2 ^ (b.bits - 1) := by
  have hrange := fieldValue_range f hlen r
  rw [if_neg (by simp [hint])] at hrange
  have hpos : (0 : ℤ) < 2 ^ (b.bits - 1) := by positivity
  have hbits : 0 < b.bits := by cases b <;> decide
  rw [Bind.convert, bmod_eq_self_iff hbits]
  constructor
  · exact fun h => h.2
  · exact fun h => ⟨by omega, h⟩

lemma convert_of_fits {f : FieldName} (hlen : 0 < fieldLen k f) {b : Bind} (h : fits k f b = true)
    (r : Raw k.size) : b.convert (fieldValue k f r) = fieldValue k f r := by
  have hrange := fieldValue_range f hlen r
  have hbits : 0 < b.bits := by cases b <;> decide
  unfold fits at h
  split_ifs at h hrange with hint
  · have hmono : (2 : ℤ) ^ (8 * fieldLen k f - 1) ≤ 2 ^ (b.bits - 1) := by
      apply pow_le_pow_right₀ (by norm_num)
      have := of_decide_eq_true h
      omega
    rw [Bind.convert, bmod_eq_self_iff hbits]
    omega
  · have hmono : (2 : ℤ) ^ (8 * fieldLen k f) ≤ 2 ^ (b.bits - 1) := by
      apply pow_le_pow_right₀ (by norm_num)
      have := of_decide_eq_true h
      omega
    rw [convert_eq_self_iff hlen (by simpa using hint)]
    exact hrange.2.trans_le hmono

lemma rowOf_column (hk : k ∈ timelineKinds) {c : TColumn} {f : FieldName}
    (hf : columnField k c = some f) (r : Raw k.size) :
    ∃ b, bindOf k c = some (b, .field f) ∧
      rowOf k (columns k) r c = .int (b.convert (fieldValue k f r)) := by
  obtain ⟨haff, hbind⟩ := bindOf_columnField k hk c c.mem_all f hf
  obtain ⟨⟨b, a⟩, hb, rfl : a = _⟩ := Option.map_eq_some_iff.mp hbind
  refine ⟨b, hb, ?_⟩
  rw [rowOf, show ((columns k).zip (sqlBind k)).lookup c = _ from hb]
  simp [TColumn.store, haff, Arg.value]

/-- **A row holds the fields of its record if and only if they are in range.** -/
theorem holds_rowOf_iff (hk : k ∈ timelineKinds) (r : Raw k.size) :
    Holds ⟨k, r⟩ (rowOf k (columns k) r) ↔ InRange ⟨k, r⟩ := by
  -- the row holds the field of a column if and only if the field is bound without loss
  have hcell : ∀ c f b, columnField k c = some f → bindOf k c = some (b, .field f) →
      (rowOf k (columns k) r c = .int (fieldValue k f r) ↔
        b.convert (fieldValue k f r) = fieldValue k f r) := by
    intro c f b hf hb
    obtain ⟨b', hb', hrow⟩ := rowOf_column hk hf r
    obtain rfl : b = b' := by simpa using hb.symm.trans hb'
    rw [hrow, SqlValue.int.injEq]
  obtain ⟨htime, hint, hlen, hbtime⟩ := bindOf_time k hk
  have hiffTime := (hcell _ _ _ htime hbtime).trans
    (convert_eq_self_iff (by omega) hint .int64 r)
  constructor
  · intro h
    refine ⟨hiffTime.mp (h _ _ htime), ?_⟩
    rintro rfl
    obtain ⟨⟨h0, hb0⟩, h1, hb1⟩ := bindOf_free
    exact ⟨((hcell _ _ _ h0 hb0).trans (convert_eq_self_iff (by decide) rfl .int r)).mp (h _ _ h0),
      ((hcell _ _ _ h1 hb1).trans (convert_eq_self_iff (by decide) rfl .int r)).mp (h _ _ h1)⟩
  · rintro ⟨hlt, hfree⟩ c f hf
    obtain ⟨b, hb, hrow⟩ := rowOf_column hk hf r
    have hlenf : 0 < fieldLen k f := fieldLen_pos k hk c c.mem_all f hf
    rcases fits_or k hk c c.mem_all f hf _ hb with hfit | rfl | rfl
    · exact (hcell _ _ _ hf hb).mpr (convert_of_fits hlenf hfit r)
    · obtain rfl : FieldName.time = f := by simpa using htime.symm.trans hf
      exact hiffTime.mpr hlt
    · obtain ⟨haddr, hsize⟩ := hfree rfl
      obtain ⟨⟨h0, hb0⟩, h1, hb1⟩ := bindOf_free
      cases c with
      | time =>
        obtain rfl : FieldName.time = f := by simpa using htime.symm.trans hf
        exact hiffTime.mpr hlt
      | addr0 =>
        obtain rfl : FieldName.addr = f := by simpa using h0.symm.trans hf
        exact (hcell _ _ _ h0 hb0).mpr ((convert_eq_self_iff (by decide) rfl .int r).mpr haddr)
      | addr1 =>
        obtain rfl : FieldName.objSize = f := by simpa using h1.symm.trans hf
        exact (hcell _ _ _ h1 hb1).mpr ((convert_eq_self_iff (by decide) rfl .int r).mpr hsize)
      | id | line | classNameId | type => cases hf

end Record

/-! ### All files -/

/-- The row of a record. -/
def TimelineRecord.row (r : TimelineRecord) : TColumn → SqlValue := rowOf r.kind (columns r.kind) r.raw

/-- The rows without their keys. -/
def Timeline.values (t : Timeline) : List (TColumn → SqlValue) := t.rows.map Prod.snd

lemma values_insert (t : Timeline) (row : TColumn → SqlValue) :
    (t.insert row).values = t.values ++ [row] := by
  simp [Timeline.values, Timeline.insert]

lemma values_foldl_loadRecord {k : Kind} (hk : k ∈ timelineKinds) (rs : List (Raw k.size))
    (t : Timeline) :
    (rs.foldl (loadRecord k) t).values =
      t.values ++ rs.map fun r => TimelineRecord.row ⟨k, r⟩ := by
  induction rs generalizing t with
  | nil => simp
  | cons r rs ih =>
    have hrecord : loadRecord k t r = t.insert (rowOf k (columns k) r) := by
      rw [loadRecord, statement_eq k hk]
    rw [List.foldl_cons, ih, hrecord, values_insert, List.append_assoc]
    rfl

lemma loadFile_of_startsWith {name : String} {k : Kind} (h : startsWith name k.filePrefix)
    (t : Timeline) (bs : Bytes) :
    loadFile t name bs = if k ∈ timelineKinds then (loadTimeline (t, ⟨bs, 0⟩) k).1 else t := by
  unfold loadFile
  split_ifs with hk
  · rw [foldl_ite_of_unique (by decide) hk h fun k' _ h' => kind_unique h' h]
  · rw [foldl_ite_of_not]
    intro k' hk'
    rw [← Bool.not_eq_true]
    intro h'
    exact hk (kind_unique h' h ▸ hk')

lemma bufSize_div_pos : ∀ k ∈ timelineKinds, 0 < bufSize / k.size := by decide

lemma values_loadFile (f : TraceFile) (pid : ℤ) (t : Timeline) :
    (loadFile t (f.file pid).1 (f.file pid).2).values =
      t.values ++ f.timelineRecords.map TimelineRecord.row := by
  cases f with
  | data k tid rs =>
    rw [TraceFile.file, loadFile_of_startsWith (startsWith_dataName k tid pid),
      TraceFile.timelineRecords]
    split_ifs with hk
    · have hat : Stream.At ⟨joinRecords rs, 0⟩ [] rs := ⟨rfl, rfl⟩
      rw [loadTimeline, Stream.forEach_whole k.size_pos (bufSize_div_pos k hk) hat,
        values_foldl_loadRecord hk, List.map_map]
      rfl
    · simp
  | strings isStatic isPut tid text =>
    have hk : stringKind isStatic isPut ∉ timelineKinds := by
      cases isStatic <;> cases isPut <;> decide
    rw [TraceFile.file, loadFile_of_startsWith (startsWith_stringName _ tid pid), if_neg hk]
    simp [TraceFile.timelineRecords]

lemma endsWith_file (f : TraceFile) (pid : ℤ) : endsWith (f.file pid).1 (toString pid) := by
  cases f with
  | data k tid rs => exact endsWith_append ..
  | strings isStatic isPut tid text => exact endsWith_append ..

/-- **Every record of the eight types has one row, in the order of the files.** -/
theorem values_csv2db {d : Directory} {pid : ℤ} {files : List TraceFile}
    (hd : d.files = files.map (TraceFile.file pid)) :
    (csv2db d (toString pid)).values =
      (files.flatMap TraceFile.timelineRecords).map TimelineRecord.row := by
  have hglob : glob d (toString pid) = d.names := by
    refine List.filter_eq_self.mpr fun name hname => ?_
    rw [Directory.names, hd, List.map_map] at hname
    obtain ⟨f, -, rfl⟩ := List.mem_map.mp hname
    exact endsWith_file f pid
  have hfold : csv2db d (toString pid) = d.files.foldl (fun t p => loadFile t p.1 p.2) .empty := by
    rw [csv2db, hglob, Directory.names, List.foldl_map]
    refine List.foldl_ext _ _ _ fun t p hp => ?_
    rw [Directory.read_eq_some_iff.mpr hp]
    rfl
  have hall : ∀ t : Timeline, ((files.map (TraceFile.file pid)).foldl
      (fun t p => loadFile t p.1 p.2) t).values =
        t.values ++ (files.flatMap TraceFile.timelineRecords).map TimelineRecord.row := by
    clear hd hglob hfold
    induction files with
    | nil => intro t; simp
    | cons f files ih =>
      intro t
      rw [List.map_cons, List.foldl_cons, ih, values_loadFile, List.flatMap_cons, List.map_append,
        List.append_assoc]
  rw [hfold, hd, hall]
  rfl

lemma kind_timelineRecords {f : TraceFile} {r : TimelineRecord} (h : r ∈ f.timelineRecords) :
    r.kind ∈ timelineKinds := by
  cases f with
  | data k tid rs =>
    rw [TraceFile.timelineRecords] at h
    split_ifs at h with hk
    · obtain ⟨raw, -, rfl⟩ := List.mem_map.mp h
      exact hk
    · cases h
  | strings isStatic isPut tid text => cases h

/-- Where all rows hold the fields of their records, addresses are compared by `ADDR0`. -/
lemma addr0_of_holds {rs : List TimelineRecord} (h : ∀ r ∈ rs, Holds r r.row) :
    ∀ p ∈ rs.zip (rs.map TimelineRecord.row), ∀ q ∈ rs.zip (rs.map TimelineRecord.row),
      p.1.address.isSome → q.1.address.isSome →
        (p.2 .addr0 = q.2 .addr0 ↔ p.1.address = q.1.address) := by
  have hcell : ∀ p ∈ rs.zip (rs.map TimelineRecord.row), p.1.address.isSome →
      ∃ a, p.1.address = some a ∧ p.2 .addr0 = .int a := by
    intro p hp hsome
    rw [← List.map_prod_left_eq_zip, List.mem_map] at hp
    obtain ⟨r, hr, rfl⟩ := hp
    obtain ⟨a, ha⟩ := Option.isSome_iff_exists.mp hsome
    obtain ⟨f, hf, rfl⟩ := Option.map_eq_some_iff.mp ha
    exact ⟨_, ha, h r hr .addr0 f hf⟩
  intro p hp q hq hpa hqa
  obtain ⟨a, ha, hra⟩ := hcell p hp hpa
  obtain ⟨b, hb, hrb⟩ := hcell q hq hqa
  rw [ha, hb, hra, hrb, SqlValue.int.injEq, Option.some_inj]

/-- **The timeline is loaded faithfully and in one address space** if and only if all times fit into
63 bits and the addresses and sizes of the Free records into 31. For any files of a process, the table
has one row for each record of the eight types and no other one, and the rows hold the fields of
their records. -/
theorem faithful_iff (pid : ℤ) (files : List TraceFile) (d : Directory)
    (hd : d.files = files.map (TraceFile.file pid)) :
    Faithful (files.flatMap TraceFile.timelineRecords) (csv2db d (toString pid)).values ↔
      ∀ r ∈ files.flatMap TraceFile.timelineRecords, InRange r := by
  have hrow : ∀ r ∈ files.flatMap TraceFile.timelineRecords, (Holds r r.row ↔ InRange r) := by
    intro r hr
    obtain ⟨f, -, hf⟩ := List.mem_flatMap.mp hr
    exact holds_rowOf_iff (kind_timelineRecords hf) r.raw
  rw [values_csv2db hd]
  constructor
  · intro h r hr
    have hall := List.forall₂_map_right_iff.mp h.holds
    exact (hrow r hr).mp (List.forall₂_same.mp hall r hr)
  · intro h
    have hholds : ∀ r ∈ files.flatMap TraceFile.timelineRecords, Holds r r.row :=
      fun r hr => (hrow r hr).mpr (h r hr)
    exact ⟨List.forall₂_map_right_iff.mpr (List.forall₂_same.mpr hholds), addr0_of_holds hholds⟩

/-- A Use record and a Free record of one object, the highest byte of whose address is given, and a
string table. -/
def freeFiles (high : UInt8) : List TraceFile :=
  [ .data .use 1 [Raw.ofBytes _ [0, 0, 6, 0, 0, 0, 0, 0, 8, 0, 0, high, 0, 0, 0, 0, 2]],
    .strings false true 1 [48, 44, 97, 10],
    .data .free 1 [Raw.ofBytes _ [24, 0, 0, 0, 8, 0, 0, high, 3]] ]

/-- The directory of these files. -/
def freeTrace (high : UInt8) : Directory where
  files := (freeFiles high).map (TraceFile.file 2)
  nodup := by
    simp only [freeFiles, List.map_cons, List.map_nil, TraceFile.file]
    decide

theorem faithful_iff_free :
    Faithful ((freeFiles 0).flatMap TraceFile.timelineRecords) (csv2db (freeTrace 0) "2").values :=
  (faithful_iff 2 (freeFiles 0) (freeTrace 0) rfl).mpr (by decide)

/-- An address in the upper half is negative in the row of a Free record, and equal to no address of
another type. -/
theorem not_faithful_free :
    ¬ ∀ (pid : ℤ) (files : List TraceFile) (d : Directory),
      d.files = files.map (TraceFile.file pid) →
      Faithful (files.flatMap TraceFile.timelineRecords) (csv2db d (toString pid)).values := by
  intro h
  have hfree := h 2 (freeFiles 128) (freeTrace 128) rfl
  rw [values_csv2db rfl] at hfree
  have hsame := List.forall₂_same.mp (List.forall₂_map_right_iff.mp hfree.holds)
  have hmem : ⟨.free, Raw.ofBytes _ [24, 0, 0, 0, 8, 0, 0, 128, 3]⟩ ∈
      (freeFiles 128).flatMap TraceFile.timelineRecords := by
    simp [freeFiles, TraceFile.timelineRecords, timelineKinds]
  have hrange := (holds_rowOf_iff (by decide) _).mp (hsame _ hmem)
  revert hrange
  decide

end Cinst.Trace
