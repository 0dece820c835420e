import Mathlib
import Cinst.Lib.Text
import Cinst.Native.Lifetimes
import Cinst.Record.Container

/-!
The recording of string values: a thread numbers the strings it sees in one map, and writes a string
and its number to a table beside the data file of the recorder that sees the string first.
-/

namespace Cinst.Native

open Cinst.Lib Cinst.Record Cinst.Trace

/-! ### The recorders -/

/-- The record types with a string: of a field or of a static field, read or written. -/
structure StringKind where
  isStatic : Bool
  isPut : Bool
  deriving DecidableEq, Fintype, Repr

def StringKind.kind : StringKind → Kind
  | ⟨false, isPut⟩ => .stringFieldValue isPut
  | ⟨true, isPut⟩ => .staticStringFieldValue isPut

/-- A `Recorder` with the stream `fstrout`. The texts that `addString` was given are kept, in their
order. -/
structure StringRecorder (size : ℕ) extends Recorder size where
  strName : String
  fstrout : Bool
  listed : List Bytes

/-- `addString`: `fstrout->open` with `ios::out` empties the file. -/
def StringRecorder.addString {size : ℕ} (r : StringRecorder size) (d : Directory) (str : Bytes) :
    Directory × StringRecorder size :=
  let opened := if r.fstrout then d else d.write r.strName []
  (opened.append r.strName str, { r with fstrout := true, listed := r.listed ++ [str] })

/-! ### The thread -/

/-- The directory, `stringMap` and the recorders of a thread. -/
structure StringThread where
  files : Directory
  stringMap : List (Bytes × Int32)
  recorder : (k : StringKind) → StringRecorder k.kind.size

/-- `std::to_string(string_id)+","+tmp`: a line of a table. -/
def tableLine (i : ℤ) (tmp : Bytes) : Bytes := decimal i ++ 44 :: tmp

/-- `StringFieldValueRecord<0, is_put>`. -/
structure StringFieldValueRecord where
  line : UInt16
  classNameId : UInt16
  addr : Addr
  time : Time
  fieldId : UInt16
  stringId : UInt16

/-- `StaticStringFieldValueRecord<0, is_put>`. -/
structure StaticStringFieldValueRecord where
  line : UInt16
  classNameId : UInt16
  time : Time
  fieldId : UInt16
  stringId : UInt16

def StringFieldValueRecord.assignments (k : Kind) (r : StringFieldValueRecord) : List Assignment :=
  [ ⟨k.offset (.top .time), 8, r.time.toNat⟩,
    ⟨k.offset (.top .addr), 4, r.addr.toNat⟩,
    ⟨k.offset (.top .line), 2, r.line.toNat⟩,
    ⟨k.offset (.top .classNameId), 2, r.classNameId.toNat⟩,
    ⟨k.offset (.top .fieldId), 2, r.fieldId.toNat⟩,
    ⟨k.offset (.top .stringId), 2, r.stringId.toNat⟩ ]

def StaticStringFieldValueRecord.assignments (k : Kind) (r : StaticStringFieldValueRecord) :
    List Assignment :=
  [ ⟨k.offset (.top .time), 8, r.time.toNat⟩,
    ⟨k.offset (.top .line), 2, r.line.toNat⟩,
    ⟨k.offset (.top .classNameId), 2, r.classNameId.toNat⟩,
    ⟨k.offset (.top .fieldId), 2, r.fieldId.toNat⟩,
    ⟨k.offset (.top .stringId), 2, r.stringId.toNat⟩ ]

namespace StringThread

/-- A thread at its start, in a directory that other threads may have written to. -/
def init (tid pid : ℤ) (limit : StringKind → ℕ+) (files : Directory) : StringThread where
  files := files
  stringMap := []
  recorder k :=
    { Recorder.create k.kind.size (limit k) (dataName k.kind tid pid) with
      strName := stringName k.kind tid pid
      fstrout := false
      listed := [] }

/-- The lookup in `stringMap` that both entry points make: the number of the string `tmp`, which is
listed in the table of the recorder when it is new. -/
def intern (s : StringThread) (k : StringKind) (tmp : Bytes) : StringThread × Int32 :=
  let stringId := Int32.ofNat s.stringMap.length
  match s.stringMap.lookup tmp with
  | none =>
    let added := (s.recorder k).addString s.files (tableLine stringId.toInt tmp ++ [10])
    ({ files := added.1
       stringMap := s.stringMap ++ [(tmp, stringId)]
       recorder := Function.update s.recorder k added.2 }, stringId)
  | some id => (s, id)

/-- `add` of a recorder. -/
def add (s : StringThread) (k : StringKind) (r : Raw k.kind.size) : StringThread :=
  let added := (s.recorder k).add s.files r
  { s with
    files := added.1
    recorder := Function.update s.recorder k { s.recorder k with toRecorder := added.2 } }

/-- `addFieldValueRecordJstring`. The string is given by its 16-bit characters, `nanotime()` and the
memory of the record by the last two arguments. -/
def addFieldValueRecordJstring (s : StringThread) (addr : Int64) (value : List UInt16)
    (line classNameId fieldId : Int32) (isPut : Bool) (nanotime : Time) (stack : Bytes) :
    StringThread :=
  let interned := s.intern ⟨false, isPut⟩ (modifiedUtf8 value)
  let r : StringFieldValueRecord :=
    { time := nanotime
      addr := (addr >>> 3).toUInt64.toUInt32
      line := line.toUInt32.toUInt16
      classNameId := classNameId.toUInt32.toUInt16
      fieldId := fieldId.toUInt32.toUInt16
      stringId := interned.2.toUInt32.toUInt16 }
  interned.1.add ⟨false, isPut⟩
    (assign (Raw.ofBytes _ stack) (r.assignments (.stringFieldValue isPut)))

/-- `addStaticFieldValueRecordJstring`. -/
def addStaticFieldValueRecordJstring (s : StringThread) (value : List UInt16)
    (line classNameId fieldId : Int32) (isPut : Bool) (nanotime : Time) (stack : Bytes) :
    StringThread :=
  let interned := s.intern ⟨true, isPut⟩ (modifiedUtf8 value)
  let r : StaticStringFieldValueRecord :=
    { time := nanotime
      line := line.toUInt32.toUInt16
      classNameId := classNameId.toUInt32.toUInt16
      fieldId := fieldId.toUInt32.toUInt16
      stringId := interned.2.toUInt32.toUInt16 }
  interned.1.add ⟨true, isPut⟩
    (assign (Raw.ofBytes _ stack) (r.assignments (.staticStringFieldValue isPut)))

end StringThread

/-- A call of one of the two entry points. -/
inductive StringCall where
  | field (addr : Int64) (value : List UInt16) (line classNameId fieldId : Int32) (isPut : Bool)
    (nanotime : Time) (stack : Bytes)
  | staticField (value : List UInt16) (line classNameId fieldId : Int32) (isPut : Bool)
    (nanotime : Time) (stack : Bytes)

namespace StringCall

/-- The recorder that the record goes to. -/
def kind : StringCall → StringKind
  | field _ _ _ _ _ isPut _ _ => ⟨false, isPut⟩
  | staticField _ _ _ _ isPut _ _ => ⟨true, isPut⟩

/-- The string that was passed. -/
def value : StringCall → List UInt16
  | field _ value _ _ _ _ _ _ => value
  | staticField value _ _ _ _ _ _ => value

end StringCall

namespace StringThread

def step (s : StringThread) : StringCall → StringThread
  | .field addr value line classNameId fieldId isPut nanotime stack =>
    s.addFieldValueRecordJstring addr value line classNameId fieldId isPut nanotime stack
  | .staticField value line classNameId fieldId isPut nanotime stack =>
    s.addStaticFieldValueRecordJstring value line classNameId fieldId isPut nanotime stack

/-- The destructors of the recorders, in the reverse order of their construction. -/
def destroy (s : StringThread) : StringThread :=
  { s with
    files := [⟨true, true⟩, ⟨true, false⟩, ⟨false, true⟩, ⟨false, false⟩].foldl
      (fun d k => (s.recorder k).destroy d) s.files }

/-- A thread that makes the calls and exits. -/
def life (tid pid : ℤ) (limit : StringKind → ℕ+) (files : Directory) (calls : List StringCall) :
    StringThread :=
  (calls.foldl step (init tid pid limit files)).destroy

end StringThread

/-! ### What the calls say -/

/-- The strings of the calls, each at the place where it is passed first. -/
def strings (calls : List StringCall) : List (List UInt16) :=
  (calls.map StringCall.value).eraseDups

/-- The number of other strings that were passed before a string. -/
def rank (calls : List StringCall) (v : List UInt16) : ℕ := (strings calls).idxOf v

/-- The interning index of a string. -/
def index (calls : List StringCall) (v : List UInt16) : Int32 := Int32.ofNat (rank calls v)

/-- The recorder of the first call with a string. -/
def firstKind (calls : List StringCall) (v : List UInt16) : Option StringKind :=
  (calls.find? fun c => c.value = v).map StringCall.kind

/-- The strings that are first passed to a recorder. -/
def firstStrings (calls : List StringCall) (k : StringKind) : List (List UInt16) :=
  (strings calls).filter fun v => firstKind calls v = some k

/-- The record of a call in the memory that it is written from, with the number of its string. -/
def StringCall.toRaw (k : StringKind) (stringId : Int32) : StringCall → Raw k.kind.size
  | field addr _ line classNameId fieldId isPut nanotime stack =>
    assign (Raw.ofBytes _ stack) <| StringFieldValueRecord.assignments (.stringFieldValue isPut)
      { time := nanotime
        addr := (addr >>> 3).toUInt64.toUInt32
        line := line.toUInt32.toUInt16
        classNameId := classNameId.toUInt32.toUInt16
        fieldId := fieldId.toUInt32.toUInt16
        stringId := stringId.toUInt32.toUInt16 }
  | staticField _ line classNameId fieldId isPut nanotime stack =>
    assign (Raw.ofBytes _ stack) <|
      StaticStringFieldValueRecord.assignments (.staticStringFieldValue isPut)
      { time := nanotime
        line := line.toUInt32.toUInt16
        classNameId := classNameId.toUInt32.toUInt16
        fieldId := fieldId.toUInt32.toUInt16
        stringId := stringId.toUInt32.toUInt16 }

/-- `string_id` of a record. -/
def stringId (k : StringKind) (r : Raw k.kind.size) : UInt16 :=
  UInt16.ofNat (getWord (k.kind.offset (.top .stringId)) 2 r)

lemma StringFieldValueRecord.fits (isPut : Bool) (r : StringFieldValueRecord) :
    FitsIn (Kind.stringFieldValue isPut).size (places (r.assignments (.stringFieldValue isPut))) := by
  simp only [places, assignments, List.map_cons, List.map_nil]
  cases isPut <;> decide

lemma StaticStringFieldValueRecord.fits (isPut : Bool) (r : StaticStringFieldValueRecord) :
    FitsIn (Kind.staticStringFieldValue isPut).size
      (places (r.assignments (.staticStringFieldValue isPut))) := by
  simp only [places, assignments, List.map_cons, List.map_nil]
  cases isPut <;> decide

lemma stringId_toRaw (c : StringCall) (id : Int32) :
    stringId c.kind (c.toRaw c.kind id) = id.toUInt32.toUInt16 := by
  have hread : ∀ {size : ℕ} {as : List Assignment} {a : Assignment} (r : Raw size),
      FitsIn size (places as) → a ∈ as → a.val = id.toUInt32.toUInt16.toNat → a.len = 2 →
      UInt16.ofNat (getWord a.off 2 (assign r as)) = id.toUInt32.toUInt16 := by
    intro size as a r hfit ha hval hlen
    rw [← hlen, getWord_assign hfit ha (by rw [hval, hlen]; exact UInt16.toNat_lt _), hval,
      UInt16.ofNat_toNat]
  cases c with
  | field addr v line cn fld isPut t stack =>
    exact hread (a := ⟨_, 2, _⟩) _ (StringFieldValueRecord.fits isPut _)
      (List.mem_of_getElem? (i := 5) rfl) rfl rfl
  | staticField v line cn fld isPut t stack =>
    exact hread (a := ⟨_, 2, _⟩) _ (StaticStringFieldValueRecord.fits isPut _)
      (List.mem_of_getElem? (i := 4) rfl) rfl rfl

lemma StringThread.step_eq (s : StringThread) (c : StringCall) :
    s.step c = (s.intern c.kind (modifiedUtf8 c.value)).1.add c.kind
      (c.toRaw c.kind (s.intern c.kind (modifiedUtf8 c.value)).2) := by
  cases c <;> rfl

section Snoc

variable {calls : List StringCall} {c : StringCall} {v : List UInt16}

lemma mem_strings : v ∈ strings calls ↔ v ∈ calls.map StringCall.value := List.mem_eraseDups

lemma strings_snoc (calls : List StringCall) (c : StringCall) :
    strings (calls ++ [c]) =
      if c.value ∈ strings calls then strings calls else strings calls ++ [c.value] := by
  rw [strings, List.map_append, List.map_singleton, eraseDups_snoc]
  simp only [mem_strings]
  rfl

lemma rank_snoc (hv : v ∈ strings calls) : rank (calls ++ [c]) v = rank calls v := by
  rw [rank, rank, strings, List.map_append]
  exact idxOf_eraseDups_snoc (mem_strings.mp hv)

lemma rank_new (hv : c.value ∉ strings calls) :
    rank (calls ++ [c]) c.value = (strings calls).length := by
  rw [rank, strings, List.map_append]
  exact idxOf_eraseDups_new fun h => hv (mem_strings.mpr h)

lemma firstKind_snoc (hv : v ∈ strings calls) : firstKind (calls ++ [c]) v = firstKind calls v := by
  obtain ⟨c', hc', rfl⟩ := List.mem_map.mp (mem_strings.mp hv)
  have hsome : (calls.find? fun c => c.value = c'.value).isSome := by
    rw [List.find?_isSome]
    exact ⟨c', hc', by simp⟩
  rw [firstKind, firstKind, List.find?_append, Option.or_of_isSome hsome]

lemma firstKind_new (hv : c.value ∉ strings calls) :
    firstKind (calls ++ [c]) c.value = some c.kind := by
  have hnone : (calls.find? fun c' => c'.value = c.value) = none := by
    rw [List.find?_eq_none]
    intro c' hc' e
    rw [decide_eq_true_eq] at e
    exact hv (mem_strings.mpr (e ▸ List.mem_map_of_mem hc'))
  rw [firstKind, List.find?_append, hnone, Option.none_or, List.find?_singleton]
  simp

lemma firstStrings_snoc (k : StringKind) (calls : List StringCall) (c : StringCall) :
    firstStrings (calls ++ [c]) k =
      if c.value ∉ strings calls ∧ c.kind = k then firstStrings calls k ++ [c.value]
      else firstStrings calls k := by
  have hold : (strings calls).filter (fun v => firstKind (calls ++ [c]) v = some k) =
      firstStrings calls k :=
    List.filter_congr fun v hv => by rw [firstKind_snoc hv]
  rw [firstStrings, strings_snoc]
  by_cases hv : c.value ∈ strings calls
  · rw [if_pos hv, if_neg fun h => h.1 hv, hold]
  · rw [if_neg hv, List.filter_append, hold]
    by_cases hk : c.kind = k
    · simp [firstKind_new hv, hv, hk]
    · simp [firstKind_new hv, hk]

end Snoc

/-! ### Names of files -/

lemma StringKind.kind_injective : Function.Injective StringKind.kind := by
  decide

lemma stringName_inj {k k' : Kind} {tid pid : ℤ} (h : stringName k tid pid = stringName k' tid pid) :
    k = k' :=
  kind_unique (startsWith_stringName k tid pid) (h ▸ startsWith_stringName k' tid pid)

/-- A table is not a data file: no number begins with an `s`. -/
lemma stringName_ne_dataName (k k' : Kind) (tid pid : ℤ) :
    stringName k tid pid ≠ dataName k' tid pid := by
  intro h
  have hk : k = k' :=
    kind_unique (startsWith_stringName k tid pid) (h ▸ startsWith_dataName k' tid pid)
  subst hk
  have hlist := congrArg String.toList h
  simp only [stringName, dataName, String.toList_append, List.append_assoc,
    List.append_cancel_left_eq] at hlist
  cases htid : (toString tid).toList with
  | nil =>
    rw [htid] at hlist
    have hc : some 's' = some '-' := congrArg List.head? hlist
    exact absurd hc (by decide)
  | cons c cs =>
    rw [htid] at hlist
    have hc : some 's' = some c := congrArg List.head? hlist
    have hmem : 's' ∈ (toString tid).toList := by
      rw [htid, Option.some.inj hc]
      exact List.mem_cons_self ..
    rcases mem_toList_toString hmem with hs | hs
    · exact absurd hs (by decide)
    · exact absurd hs (by decide)

/-! ### The tables -/

/-- The table of a recorder after the calls, in a directory that was `before`. -/
structure TableOf (tid pid : ℤ) (before : Directory) (calls : List StringCall) (files : Directory)
    (k : StringKind) (r : StringRecorder k.kind.size) : Prop where
  strName : r.strName = stringName k.kind tid pid
  listed : r.listed = (firstStrings calls k).map fun v =>
    tableLine (index calls v).toInt (modifiedUtf8 v) ++ [10]
  fstrout : r.fstrout = true ↔ r.listed ≠ []
  read : files.read (stringName k.kind tid pid) =
    if r.fstrout then some r.listed.flatten else before.read (stringName k.kind tid pid)

/-- `stringMap` and the tables after the calls. -/
structure Tables (tid pid : ℤ) (before : Directory) (calls : List StringCall) (s : StringThread) :
    Prop where
  stringMap : s.stringMap = (strings calls).mapIdx fun i v => (modifiedUtf8 v, Int32.ofNat i)
  table : ∀ k, TableOf tid pid before calls s.files k (s.recorder k)

/-- The data files after the calls. -/
structure Written (tid pid : ℤ) (before : Directory) (calls : List StringCall) (s : StringThread) :
    Prop where
  name : ∀ k, (s.recorder k).name = dataName k.kind tid pid
  added : ∀ k, (s.recorder k).Added s.files (before.read (dataName k.kind tid pid))
    ((calls.filter fun c => c.kind = k).map fun c => c.toRaw k (index calls c.value))

section Invariant

variable {tid pid : ℤ} {before : Directory} {calls : List StringCall} {s : StringThread}

lemma StringRecorder.read_addString_ne {size : ℕ} (r : StringRecorder size) (d : Directory)
    (str : Bytes) {name : String} (h : name ≠ r.strName) :
    (r.addString d str).1.read name = d.read name := by
  rw [addString]
  dsimp only
  rw [Directory.read_append_ne h]
  split
  · rfl
  · exact Directory.read_write_ne h

lemma Tables.lookup (h : Tables tid pid before calls s) (v : List UInt16) :
    s.stringMap.lookup (modifiedUtf8 v) =
      if v ∈ strings calls then some (index calls v) else none := by
  rw [h.stringMap, lookup_mapIdx modifiedUtf8_injective]
  rfl

lemma Tables.length (h : Tables tid pid before calls s) :
    s.stringMap.length = (strings calls).length := by
  rw [h.stringMap, List.length_mapIdx]

lemma index_snoc {v : List UInt16} (c : StringCall) (hv : v ∈ strings calls) :
    index (calls ++ [c]) v = index calls v := by
  rw [index, rank_snoc hv, index]

lemma TableOf.frame {files files' : Directory} {k : StringKind} {r : StringRecorder k.kind.size}
    (h : TableOf tid pid before calls files k r) {c : StringCall}
    (hfirst : firstStrings (calls ++ [c]) k = firstStrings calls k)
    (hread : files'.read (stringName k.kind tid pid) = files.read (stringName k.kind tid pid)) :
    TableOf tid pid before (calls ++ [c]) files' k r := by
  refine ⟨h.strName, ?_, h.fstrout, hread.trans h.read⟩
  rw [h.listed, hfirst]
  refine List.map_congr_left fun v hv => ?_
  rw [index_snoc c (List.mem_of_mem_filter hv)]

lemma TableOf.addString {files : Directory} {c : StringCall} {r : StringRecorder c.kind.kind.size}
    (h : TableOf tid pid before calls files c.kind r) (hv : c.value ∉ strings calls) :
    TableOf tid pid before (calls ++ [c])
      (r.addString files
        (tableLine (index (calls ++ [c]) c.value).toInt (modifiedUtf8 c.value) ++ [10])).1 c.kind
      (r.addString files
        (tableLine (index (calls ++ [c]) c.value).toInt (modifiedUtf8 c.value) ++ [10])).2 := by
  constructor
  · exact h.strName
  · rw [firstStrings_snoc, if_pos ⟨hv, rfl⟩, List.map_append, StringRecorder.addString]
    dsimp only
    rw [h.listed]
    congr 1
    refine List.map_congr_left fun v hv => ?_
    rw [index_snoc c (List.mem_of_mem_filter hv)]
  · simp [StringRecorder.addString]
  · have hread := h.read
    rw [StringRecorder.addString]
    dsimp only
    rw [if_pos rfl, h.strName, Directory.read_append_self, List.flatten_append,
      List.flatten_singleton]
    cases hf : r.fstrout with
    | true => rw [if_pos rfl, hread, hf, if_pos rfl, Option.map_some]
    | false =>
      have hnil : r.listed = [] := by
        by_contra hne
        have := h.fstrout.mpr hne
        rw [hf] at this
        cases this
      rw [if_neg (by simp), Directory.read_write_self, hnil]
      rfl

/-- Looking a string up gives its index, and the tables are those after the call. -/
theorem Tables.intern (h : Tables tid pid before calls s) (c : StringCall) :
    Tables tid pid before (calls ++ [c]) (s.intern c.kind (modifiedUtf8 c.value)).1 ∧
      (s.intern c.kind (modifiedUtf8 c.value)).2 = index (calls ++ [c]) c.value := by
  unfold StringThread.intern
  rw [h.lookup c.value]
  by_cases hv : c.value ∈ strings calls
  · rw [if_pos hv]
    refine ⟨⟨?_, fun k => (h.table k).frame ?_ rfl⟩, (index_snoc c hv).symm⟩
    · rw [h.stringMap, strings_snoc, if_pos hv]
    · rw [firstStrings_snoc, if_neg fun hn => hn.1 hv]
  · have hindex : Int32.ofNat s.stringMap.length = index (calls ++ [c]) c.value := by
      rw [index, rank_new hv, h.length]
    rw [if_neg hv]
    dsimp only
    refine ⟨⟨?_, fun k => ?_⟩, hindex⟩
    · dsimp only
      rw [strings_snoc, if_neg hv, List.mapIdx_append, h.stringMap, List.length_mapIdx]
      simp
    · rw [hindex]
      dsimp only
      by_cases hk : k = c.kind
      · subst hk
        rw [Function.update_self]
        exact (h.table c.kind).addString hv
      · rw [Function.update_of_ne hk]
        refine (h.table k).frame ?_ (StringRecorder.read_addString_ne _ _ _ ?_)
        · rw [firstStrings_snoc, if_neg fun hn => hk hn.2.symm]
        · rw [(h.table c.kind).strName]
          exact fun e => hk (StringKind.kind_injective (stringName_inj e))

lemma Tables.add (h : Tables tid pid before calls s)
    (hname : ∀ k, (s.recorder k).name = dataName k.kind tid pid) (k : StringKind)
    (r : Raw k.kind.size) : Tables tid pid before calls (s.add k r) := by
  refine ⟨h.stringMap, fun k' => ?_⟩
  have hread : (s.add k r).files.read (stringName k'.kind tid pid) =
      s.files.read (stringName k'.kind tid pid) := by
    refine Recorder.read_add _ _ _ ?_
    rw [hname]
    exact stringName_ne_dataName _ _ _ _
  have ht := h.table k'
  unfold StringThread.add at hread ⊢
  by_cases hk : k' = k
  · subst hk
    dsimp only at hread ⊢
    rw [Function.update_self]
    exact ⟨ht.strName, ht.listed, ht.fstrout, hread.trans ht.read⟩
  · dsimp only at hread ⊢
    rw [Function.update_of_ne hk]
    exact ⟨ht.strName, ht.listed, ht.fstrout, hread.trans ht.read⟩

lemma Written.intern (h : Written tid pid before calls s)
    (hstr : ∀ k, (s.recorder k).strName = stringName k.kind tid pid) (k : StringKind)
    (tmp : Bytes) : Written tid pid before calls (s.intern k tmp).1 := by
  unfold StringThread.intern
  split
  · have hsame : ∀ k', (Function.update s.recorder k ((s.recorder k).addString s.files
        (tableLine (Int32.ofNat s.stringMap.length).toInt tmp ++ [10])).2 k').toRecorder =
        (s.recorder k').toRecorder := by
      intro k'
      by_cases hk : k' = k
      · subst hk
        rw [Function.update_self]
        rfl
      · rw [Function.update_of_ne hk]
    refine ⟨fun k' => ?_, fun k' => ?_⟩
    · rw [← h.name k']
      exact congrArg Recorder.name (hsame k')
    · dsimp only
      rw [hsame k']
      refine (h.added k').congr (StringRecorder.read_addString_ne _ _ _ ?_)
      rw [h.name, hstr]
      exact (stringName_ne_dataName _ _ _ _).symm
  · exact h

lemma Written.add (h : Written tid pid before calls s) (c : StringCall) :
    Written tid pid before (calls ++ [c])
      (s.add c.kind (c.toRaw c.kind (index (calls ++ [c]) c.value))) := by
  have hold : ∀ k, (calls.filter fun c => c.kind = k).map
        (fun c' => c'.toRaw k (index (calls ++ [c]) c'.value)) =
      (calls.filter fun c => c.kind = k).map fun c' => c'.toRaw k (index calls c'.value) := by
    intro k
    refine List.map_congr_left fun c' hc' => ?_
    rw [index_snoc c (mem_strings.mpr (List.mem_map_of_mem (List.mem_of_mem_filter hc')))]
  refine ⟨fun k => ?_, fun k => ?_⟩
  · unfold StringThread.add
    by_cases hk : k = c.kind
    · subst hk
      dsimp only
      rw [Function.update_self, Recorder.add_name, h.name]
    · dsimp only
      rw [Function.update_of_ne hk, h.name]
  · rw [List.filter_append, List.map_append, hold]
    unfold StringThread.add
    by_cases hk : k = c.kind
    · subst hk
      dsimp only
      rw [Function.update_self, List.filter_cons_of_pos (by simp), List.filter_nil]
      exact (h.added c.kind).add _
    · rw [List.filter_cons_of_neg (by simpa using Ne.symm hk), List.filter_nil, List.map_nil,
        List.append_nil]
      dsimp only
      rw [Function.update_of_ne hk]
      refine (h.added k).congr (Recorder.read_add _ _ _ ?_)
      rw [h.name, h.name]
      exact fun e => hk (StringKind.kind_injective (dataName_inj e).1)

theorem interned_step (ht : Tables tid pid before calls s) (hw : Written tid pid before calls s)
    (c : StringCall) :
    Tables tid pid before (calls ++ [c]) (s.step c) ∧
      Written tid pid before (calls ++ [c]) (s.step c) := by
  obtain ⟨ht', hid⟩ := ht.intern c
  have hw' := hw.intern (fun k => (ht.table k).strName) c.kind (modifiedUtf8 c.value)
  rw [StringThread.step_eq, hid]
  exact ⟨ht'.add hw'.name _ _, hw'.add c⟩

theorem interned_foldl (limit : StringKind → ℕ+) (before : Directory) (calls : List StringCall) :
    Tables tid pid before calls (calls.foldl .step (.init tid pid limit before)) ∧
      Written tid pid before calls (calls.foldl .step (.init tid pid limit before)) := by
  induction calls using List.reverseRecOn with
  | nil =>
    refine ⟨⟨rfl, fun k => ⟨rfl, rfl, ?_, rfl⟩⟩, ⟨fun k => rfl, fun k => ?_⟩⟩
    · simp [StringThread.init]
    · exact Recorder.added_create ..
  | append_singleton calls c ih =>
    rw [List.foldl_append]
    exact interned_step ih.1 ih.2 c

end Invariant

/-! ### The files of the thread -/

section Life

variable (tid pid : ℤ) (limit : StringKind → ℕ+) (before : Directory) (calls : List StringCall)

/-- The data file of a recorder, after the thread has exited. -/
def dataFile (s : StringThread) (k : StringKind) : List (Raw k.kind.size) :=
  records k.kind.size ((s.files.read (dataName k.kind tid pid)).getD [])

/-- The table of a recorder, after the thread has exited. -/
def tableFile (s : StringThread) (k : StringKind) : Bytes :=
  (s.files.read (stringName k.kind tid pid)).getD []

/-- The records of a data file, each with the call that wrote it. -/
def writtenBy (s : StringThread) (k : StringKind) : List (Raw k.kind.size × StringCall) :=
  (dataFile tid pid s k).zip (calls.filter fun c => c.kind = k)


variable {tid pid calls} in
lemma Tables.destroy {s : StringThread} (h : Tables tid pid before calls s)
    (hname : ∀ k, (s.recorder k).name = dataName k.kind tid pid) :
    Tables tid pid before calls s.destroy := by
  refine ⟨h.stringMap, fun k => ?_⟩
  have ht := h.table k
  refine ⟨ht.strName, ht.listed, ht.fstrout, Eq.trans ?_ ht.read⟩
  refine Recorder.read_foldl_destroy (fun k => (s.recorder k).toRecorder) (fun k' _ => ?_) s.files
  rw [hname]
  exact stringName_ne_dataName _ _ _ _

/-- The tables and `stringMap` of a thread that has exited. -/
theorem tables_life : Tables tid pid before calls (.life tid pid limit before calls) :=
  have h := interned_foldl limit before calls
  h.1.destroy before h.2.name

variable {tid pid before calls} in
lemma Written.read_destroy {s : StringThread} (h : Written tid pid before calls s) (k : StringKind) :
    s.destroy.files.read (dataName k.kind tid pid) =
      if (calls.filter fun c => c.kind = k).map (fun c => c.toRaw k (index calls c.value)) = [] then
        before.read (dataName k.kind tid pid)
      else some (joinRecords
        ((calls.filter fun c => c.kind = k).map fun c => c.toRaw k (index calls c.value))) := by
  have hinj : Function.Injective fun k => (s.recorder k).name := by
    intro k k' e
    simp only [h.name] at e
    exact StringKind.kind_injective (dataName_inj e).1
  have hmem : ∀ k : StringKind,
      k ∈ [⟨true, true⟩, ⟨true, false⟩, ⟨false, true⟩, (⟨false, false⟩ : StringKind)] := by decide
  have hread := (h.added k).foldl_destroy (fun k => (s.recorder k).toRecorder) hinj
    (by decide) (hmem k)
  rw [h.name k] at hread
  exact hread

/-- **Every call has written its record**, with the index of its string cut to 16 bits. -/
theorem writtenBy_life (k : StringKind) :
    writtenBy tid pid calls (.life tid pid limit before calls) k =
      (calls.filter fun c => c.kind = k).map fun c => (c.toRaw k (index calls c.value), c) := by
  rw [writtenBy, dataFile, StringThread.life, (interned_foldl limit before calls).2.read_destroy k]
  split
  · rename_i hnil
    rw [List.map_eq_nil_iff.mp hnil, List.zip_nil_right, List.map_nil]
  · rw [Option.getD_some, records_joinRecords (Kind.size_pos _), List.zip_map_left, List.zip_eq_zipWith,
      List.zipWith_self, List.map_map]
    rfl

end Life

/-! ### Resolving a record from its own table -/

/-- The lines of a table for a number. -/
def linesFor (i : ℤ) (table : Bytes) : List Bytes :=
  (fileLines table).filter fun l => (decimal i ++ [44]).isPrefixOf l

/-- For every record of a data file, the table beside it has one line for the index of its string,
and this line has the string. -/
def Resolvable (tid pid : ℤ) (calls : List StringCall) (s : StringThread) : Prop :=
  ∀ k, ∀ p ∈ writtenBy tid pid calls s k, ∃ i,
    s.stringMap.lookup (modifiedUtf8 p.2.value) = some i ∧
      linesFor i.toInt (tableFile tid pid s k) = [tableLine i.toInt (modifiedUtf8 p.2.value)]

/-- Every string that is passed to a recorder is passed to it first, and no other string that is
passed to it first has the same index; the index is an `int`. -/
def SelfContained (calls : List StringCall) : Prop :=
  ∀ c ∈ calls, firstKind calls c.value = some c.kind ∧
    ∀ c' ∈ calls, firstKind calls c'.value = some c.kind →
      rank calls c'.value % 2 ^ 32 = rank calls c.value % 2 ^ 32 → c'.value = c.value

lemma tableLine_inj {i j : ℤ} {s t : Bytes} (h : tableLine i s = tableLine j t) : i = j ∧ s = t := by
  obtain ⟨hi, hs⟩ := append_cons_inj_of_notMem (notMem_decimal (Or.inl rfl) i)
    (notMem_decimal (Or.inl rfl) j) h
  exact ⟨decimal_injective hi, hs⟩

lemma isPrefixOf_tableLine {i j : ℤ} {s : Bytes} :
    (decimal i ++ [44]).isPrefixOf (tableLine j s) = true ↔ j = i := by
  rw [List.isPrefixOf_iff_prefix]
  constructor
  · rintro ⟨t, ht⟩
    rw [List.append_assoc, List.singleton_append] at ht
    exact (tableLine_inj (s := t) ht).1.symm
  · rintro rfl
    exact ⟨s, by rw [tableLine, List.append_assoc, List.singleton_append]⟩

lemma linesFor_flatten {α : Type*} (f : α → ℤ) (g : α → Bytes) {l : List α}
    (h : ∀ x ∈ l, (10 : UInt8) ∉ g x) (i : ℤ) :
    linesFor i (l.map fun x => tableLine (f x) (g x) ++ [10]).flatten =
      (l.filter fun x => f x = i).map fun x => tableLine (f x) (g x) := by
  have hlines : ∀ b ∈ l.map fun x => tableLine (f x) (g x), (10 : UInt8) ∉ b := by
    intro b hb hmem
    obtain ⟨x, hx, rfl⟩ := List.mem_map.mp hb
    rw [tableLine, List.mem_append, List.mem_cons] at hmem
    rcases hmem with hm | hm | hm
    · exact notMem_decimal (Or.inr rfl) _ hm
    · exact absurd hm (by decide)
    · exact h x hx hm
  have hfile := fileLines_flatten hlines
  rw [List.map_map] at hfile
  have hlast : [([] : Bytes)].filter (fun l => (decimal i ++ [44]).isPrefixOf l) = [] := by
    refine List.filter_eq_nil_iff.mpr fun b hb hp => ?_
    rw [List.mem_singleton.mp hb, List.isPrefixOf_iff_prefix, List.prefix_nil] at hp
    exact List.append_ne_nil_of_right_ne_nil _ (List.cons_ne_nil _ _) hp
  rw [linesFor]
  refine (congrArg _ hfile).trans ?_
  rw [List.filter_append, hlast, List.append_nil, List.filter_map]
  congr 1
  refine List.filter_congr fun x _ => ?_
  rw [Bool.eq_iff_iff, Function.comp_apply, isPrefixOf_tableLine, decide_eq_true_eq]

section Resolve

variable {calls : List StringCall} {v : List UInt16}

lemma mem_strings_of_firstKind {k : StringKind} (h : firstKind calls v = some k) :
    v ∈ strings calls := by
  obtain ⟨c, hc, -⟩ := Option.map_eq_some_iff.mp h
  have hv : c.value = v := by simpa using List.find?_some hc
  rw [mem_strings, ← hv]
  exact List.mem_map_of_mem (List.mem_of_find?_eq_some hc)

lemma value_mem_strings {c : StringCall} (hc : c ∈ calls) : c.value ∈ strings calls :=
  mem_strings.mpr (List.mem_map_of_mem hc)

lemma nodup_strings (calls : List StringCall) : (strings calls).Nodup := nodup_eraseDups _

lemma index_eq_iff {v w : List UInt16} :
    index calls v = index calls w ↔ rank calls v % 2 ^ 32 = rank calls w % 2 ^ 32 := by
  rw [index, index, ← Int32.toBitVec_inj, Int32.toBitVec_ofNat', Int32.toBitVec_ofNat',
    ← BitVec.toNat_inj, BitVec.toNat_ofNat, BitVec.toNat_ofNat]

/-- When the table of the recorder of a call has one line for the index of the string, with the
string. -/
theorem linesFor_life_iff {tid pid : ℤ} {limit : StringKind → ℕ+} {before : Directory}
    {k : StringKind} (hfresh : before.read (stringName k.kind tid pid) = none)
    (hnl : ∀ c ∈ calls, (10 : UInt16) ∉ c.value) (v : List UInt16) :
    linesFor (index calls v).toInt
        (tableFile tid pid (StringThread.life tid pid limit before calls) k) =
        [tableLine (index calls v).toInt (modifiedUtf8 v)] ↔
      ∀ w, (firstKind calls w = some k ∧ rank calls w % 2 ^ 32 = rank calls v % 2 ^ 32) ↔ w = v := by
  have ht := (tables_life tid pid limit before calls).table k
  have hfile : tableFile tid pid (StringThread.life tid pid limit before calls) k =
      ((firstStrings calls k).map fun v =>
        tableLine (index calls v).toInt (modifiedUtf8 v) ++ [10]).flatten := by
    rw [tableFile, ht.read, hfresh, ← ht.listed]
    split
    · rfl
    · rename_i hf
      rw [ht.fstrout, not_not] at hf
      rw [hf]
      rfl
  have hline : ∀ w ∈ firstStrings calls k, (10 : UInt8) ∉ modifiedUtf8 w := by
    intro w hw hmem
    obtain ⟨c, hc, rfl⟩ := List.mem_map.mp (mem_strings.mp (List.mem_of_mem_filter hw))
    exact hnl c hc (newline_mem_modifiedUtf8.mp hmem)
  have hinj : Function.Injective fun w => tableLine (index calls w).toInt (modifiedUtf8 w) :=
    fun w w' e => modifiedUtf8_injective (tableLine_inj e).2
  rw [hfile, linesFor_flatten _ _ hline, ← List.map_singleton (a := v)
    (f := fun w => tableLine (index calls w).toInt (modifiedUtf8 w)),
    (List.map_injective_iff.mpr hinj).eq_iff, firstStrings, List.filter_filter,
    ← List.perm_singleton, List.perm_ext_iff_of_nodup ((nodup_strings calls).filter _)
    (List.nodup_singleton v)]
  refine forall_congr' fun w => ?_
  have hmem : firstKind calls w = some k → w ∈ strings calls := mem_strings_of_firstKind
  simp only [List.mem_filter, List.mem_singleton, Bool.and_eq_true, decide_eq_true_eq, Int32.toInt_inj,
    index_eq_iff]
  tauto

end Resolve

lemma resolvable_iff_forall {tid pid : ℤ} {limit : StringKind → ℕ+} {before : Directory}
    (hfresh : ∀ k : StringKind, before.read (stringName k.kind tid pid) = none)
    {calls : List StringCall} (hnl : ∀ c ∈ calls, (10 : UInt16) ∉ c.value) :
    Resolvable tid pid calls (.life tid pid limit before calls) ↔
      ∀ c ∈ calls, ∀ w, (firstKind calls w = some c.kind ∧
        rank calls w % 2 ^ 32 = rank calls c.value % 2 ^ 32) ↔ w = c.value := by
  have hlookup : ∀ c ∈ calls, (StringThread.life tid pid limit before calls).stringMap.lookup
      (modifiedUtf8 c.value) = some (index calls c.value) := by
    intro c hc
    rw [(tables_life tid pid limit before calls).lookup, if_pos (value_mem_strings hc)]
  unfold Resolvable
  simp only [writtenBy_life, List.forall_mem_map, List.mem_filter, decide_eq_true_eq]
  constructor
  · intro h c hc
    obtain ⟨i, hi, hlines⟩ := h c.kind c ⟨hc, rfl⟩
    rw [hlookup c hc] at hi
    cases hi
    exact (linesFor_life_iff (hfresh _) hnl _).mp hlines
  · rintro h k c ⟨hc, rfl⟩
    exact ⟨index calls c.value, hlookup c hc, (linesFor_life_iff (hfresh _) hnl _).mpr (h c hc)⟩

/-- **A record is resolved from the table of its own recorder**, for strings without newline, if and
only if every string that is passed to a recorder was passed to it first, and the indices of such
strings are distinct as an `int`. -/
theorem resolvable_iff (tid pid : ℤ) (limit : StringKind → ℕ+) (before : Directory)
    (hfresh : ∀ k : StringKind, before.read (stringName k.kind tid pid) = none)
    (calls : List StringCall) (hnl : ∀ c ∈ calls, (10 : UInt16) ∉ c.value) :
    Resolvable tid pid calls (.life tid pid limit before calls) ↔ SelfContained calls := by
  rw [resolvable_iff_forall hfresh hnl]
  refine forall_congr' fun c => forall_congr' fun hc => ⟨fun h => ⟨?_, ?_⟩, fun h w => ⟨?_, ?_⟩⟩
  · exact ((h c.value).mpr rfl).1
  · exact fun c' _ hk hr => (h c'.value).mp ⟨hk, hr⟩
  · rintro ⟨hk, hr⟩
    obtain ⟨c', hc', rfl⟩ := List.mem_map.mp (mem_strings.mp (mem_strings_of_firstKind hk))
    exact h.2 c' hc' hk hr
  · rintro rfl
    exact ⟨h.1, rfl⟩

/-- The string `a`, passed by a `put` of a field and then by a `get`. -/
def putGet : List StringCall :=
  [ .field 0 [97] 0 0 0 true 1 [], .field 0 [97] 0 0 0 false 2 [] ]

lemma newline_notMem_putGet : ∀ c ∈ putGet, (10 : UInt16) ∉ c.value := by
  simp [putGet, StringCall.value]

theorem resolvable_iff_putGet :
    Resolvable 7 1 putGet (.life 7 1 (fun _ => 1) Directory.empty putGet) ↔ SelfContained putGet :=
  resolvable_iff 7 1 _ _ (fun _ => rfl) putGet newline_notMem_putGet

/-- The record of the `get` has no line in its table. -/
theorem not_resolvable_putGet :
    ¬ Resolvable 7 1 putGet (.life 7 1 (fun _ => 1) Directory.empty putGet) := by
  rw [resolvable_iff_forall (fun _ => rfl) newline_notMem_putGet]
  intro h
  have hget := (h (.field 0 [97] 0 0 0 false 2 []) (by simp [putGet]) [97]).mpr rfl
  exact absurd hget.1 (by decide)

/-! ### String ids -/

/-- Two records have the same `string_id` if and only if their calls were given the same string, and
it is the number under which the string is listed in one of the tables. -/
def IdsIdentify (tid pid : ℤ) (calls : List StringCall) (s : StringThread) : Prop :=
  (∀ k k', ∀ p ∈ writtenBy tid pid calls s k, ∀ p' ∈ writtenBy tid pid calls s k',
    stringId k p.1 = stringId k' p'.1 ↔ p.2.value = p'.2.value) ∧
  ∀ k, ∀ p ∈ writtenBy tid pid calls s k, ∃ k',
    tableLine (stringId k p.1).toNat (modifiedUtf8 p.2.value) ++ [10] ∈ (s.recorder k').listed

section Ids

variable {calls : List StringCall} {v w : List UInt16}

lemma rank_lt (hv : v ∈ strings calls) : rank calls v < (strings calls).length :=
  List.idxOf_lt_length_of_mem hv

lemma rank_inj (hv : v ∈ strings calls) : rank calls v = rank calls w ↔ v = w :=
  List.idxOf_inj hv

lemma rank_getElem {i : ℕ} (hi : i < (strings calls).length) :
    rank calls (strings calls)[i] = i :=
  (nodup_strings calls).idxOf_getElem i hi

lemma toNat_stringId (c : StringCall) :
    (stringId c.kind (c.toRaw c.kind (index calls c.value))).toNat = rank calls c.value % 65536 := by
  rw [stringId_toRaw, index, UInt32.toNat_toUInt16, Int32.toUInt32_ofNat', UInt32.toNat_ofNat']
  omega

lemma exists_firstKind (hv : v ∈ strings calls) : ∃ k, firstKind calls v = some k := by
  obtain ⟨c, hc, rfl⟩ := List.mem_map.mp (mem_strings.mp hv)
  have hsome : (calls.find? fun c' => c'.value = c.value).isSome := by
    rw [List.find?_isSome]
    exact ⟨c, hc, by simp⟩
  obtain ⟨c', hc'⟩ := Option.isSome_iff_exists.mp hsome
  exact ⟨c'.kind, by rw [firstKind, hc', Option.map_some]⟩

lemma mem_writtenBy {tid pid : ℤ} {limit : StringKind → ℕ+} {before : Directory} {c : StringCall}
    (hc : c ∈ calls) : (c.toRaw c.kind (index calls c.value), c) ∈
      writtenBy tid pid calls (.life tid pid limit before calls) c.kind := by
  rw [writtenBy_life]
  exact List.mem_map_of_mem (List.mem_filter.mpr ⟨hc, by simp⟩)

/-- With more than 65536 strings the first one and the one after 65536 others have the same id. -/
lemma not_idsIdentify {tid pid : ℤ} {limit : StringKind → ℕ+} {before : Directory}
    (h : 65536 < (strings calls).length) :
    ¬ IdsIdentify tid pid calls (.life tid pid limit before calls) := by
  rintro ⟨hids, -⟩
  have hexists : ∀ i (hi : i < (strings calls).length), ∃ c ∈ calls, c.value = (strings calls)[i] :=
    fun i hi => List.mem_map.mp (mem_strings.mp (List.getElem_mem hi))
  obtain ⟨c, hc, hcv⟩ := hexists 0 (by omega)
  obtain ⟨c', hc', hcv'⟩ := hexists 65536 h
  have hid : stringId c.kind (c.toRaw c.kind (index calls c.value)) =
      stringId c'.kind (c'.toRaw c'.kind (index calls c'.value)) := by
    rw [← UInt16.toNat_inj, toNat_stringId, toNat_stringId, hcv, hcv', rank_getElem, rank_getElem]
  have hval := (hids _ _ _ (mem_writtenBy hc) _ (mem_writtenBy hc')).mp hid
  rw [hcv, hcv', (nodup_strings calls).getElem_inj_iff] at hval
  omega

end Ids

/-- **String ids identify strings**, for any number of calls and any strings, if and only if the
thread is given at most 65536 different strings. -/
theorem idsIdentify_iff (tid pid : ℤ) (limit : StringKind → ℕ+) (before : Directory)
    (calls : List StringCall) :
    IdsIdentify tid pid calls (.life tid pid limit before calls) ↔
      (strings calls).length ≤ 65536 := by
  constructor
  · intro h
    by_contra hlt
    exact not_idsIdentify (not_le.mp hlt) h
  · intro hle
    have hid : ∀ c ∈ calls, (stringId c.kind (c.toRaw c.kind (index calls c.value))).toNat =
        rank calls c.value := by
      intro c hc
      have := rank_lt (value_mem_strings hc)
      rw [toNat_stringId, Nat.mod_eq_of_lt (by omega)]
    unfold IdsIdentify
    simp only [writtenBy_life, List.forall_mem_map, List.mem_filter, decide_eq_true_eq]
    refine ⟨?_, ?_⟩
    · rintro k k' c ⟨hc, rfl⟩ c' ⟨hc', rfl⟩
      rw [← UInt16.toNat_inj, hid c hc, hid c' hc', rank_inj (value_mem_strings hc)]
    · rintro k c ⟨hc, rfl⟩
      have hv := value_mem_strings hc
      have hlt := rank_lt hv
      have hindex : (index calls c.value).toInt = rank calls c.value := by
        rw [index, Int32.toInt_ofNat_of_lt (by omega)]
      obtain ⟨k', hk'⟩ := exists_firstKind hv
      refine ⟨k', ?_⟩
      rw [((tables_life tid pid limit before calls).table k').listed, hid c hc, ← hindex]
      exact List.mem_map_of_mem (f := fun v => tableLine (index calls v).toInt (modifiedUtf8 v) ++ [10])
        (List.mem_filter.mpr ⟨hv, by simpa using hk'⟩)

/-- A string of two characters for each number below `2 ^ 32`. -/
def numberString (i : ℕ) : List UInt16 := [UInt16.ofNat (i % 65536), UInt16.ofNat (i / 65536)]

/-- Puts of 65537 different strings. -/
def manyPuts : List StringCall :=
  (List.range 65537).map fun i => .field 0 (numberString i) 0 0 0 true 0 []

/-- The first string and the last one get the same id. -/
theorem not_idsIdentify_manyPuts :
    ¬ IdsIdentify 7 1 manyPuts (.life 7 1 (fun _ => 1) Directory.empty manyPuts) := by
  refine not_idsIdentify ?_
  have hvalues : manyPuts.map StringCall.value = (List.range 65537).map numberString := by
    rw [manyPuts, List.map_map]
    rfl
  have hnodup : ((List.range 65537).map numberString).Nodup := by
    refine List.Nodup.map_on ?_ List.nodup_range
    intro i hi j hj h
    rw [List.mem_range] at hi hj
    simp only [numberString, List.cons.injEq, ← UInt16.toNat_inj, UInt16.toNat_ofNat'] at h
    omega
  rw [strings, hvalues, eraseDups_of_nodup hnodup]
  simp

end Cinst.Native
