import Cinst.Lib.PyText
import Cinst.Script.Null

/-!
From a call to the class name that a query shows: `csv2db.py` fills the table `CLASSNAME` from the
file of class names, `build_container_db.py` fills `ALLOCATIONS` from the file `addr-id.dat` and
`CONTAINERS` from the container files, and the queries join `CLASSNAME.ID` with `CLASS_NAME_ID + 1`.

The records keep 16 bits of the id and of the line, and a class name is stored as it is only if its
line is one word without white space around it (`attributes_iff`).
-/

namespace Cinst.Script

open Cinst.Lib Cinst.Record Cinst.Native Cinst.Trace
open Cinst.Addr (AddrIdLine lineOf)

/-! ### The table `CLASSNAME` -/

/-- The table `CLASSNAME`: its rows, and the last key that `AUTOINCREMENT` gave. -/
structure ClassnameTable where
  seq : ℕ
  rows : List (ℕ × List Char)

namespace ClassnameTable

/-- The table of a fresh database. -/
def empty : ClassnameTable := ⟨0, []⟩

/-- A row is inserted. -/
def insert (t : ClassnameTable) (name : List Char) : ClassnameTable :=
  ⟨t.seq + 1, t.rows ++ [(t.seq + 1, name)]⟩

/-- `cursor.execute` with the words of a line: the statement has one parameter, and another number
of values raises an exception. -/
def execute (t : ClassnameTable) (values : List (List Char)) : Option ClassnameTable :=
  match values with
  | [name] => some (t.insert name)
  | _ => none

/-- The names that a query joins to a `CLASS_NAME_ID`. -/
def joined (t : ClassnameTable) (classNameId : ℤ) : List (List Char) :=
  (t.rows.filter fun r => (r.1 : ℤ) = classNameId + 1).map Prod.snd

end ClassnameTable

/-- The loop of `csv2db.py` over the lines of the file. -/
def insertLines (t : ClassnameTable) (lines : List (List Char)) : Option ClassnameTable :=
  lines.foldlM (fun t line => t.execute (split ',' (strip line))) t

/-- The rows of `TYPEMAP` or `FIELD`, which have two columns, from their file; a file that is not
there is left out. Another number of values raises an exception. -/
def loadInfo (file : Option Bytes) : Option (List (List (List Char))) :=
  match file with
  | none => some []
  | some bs => (decodeUtf8 bs).bind fun cs => (readlines cs).mapM fun line =>
    if (split ',' (strip line)).length = 2 then some (split ',' (strip line)) else none

/-- The table after `csv2db.py` on the files of class names, of types and of fields: an exception
ends the script before the rows are committed. -/
def loadClassname (bs : Bytes) (typemap field : Option Bytes) : ClassnameTable :=
  ((decodeUtf8 bs).bind fun cs => (insertLines .empty (readlines cs)).bind fun t =>
    (loadInfo typemap).bind fun _ => (loadInfo field).map fun _ => t).getD .empty

/-- The file of class names, one on each line. -/
def classnameFile (names : List String) : Bytes :=
  ((names.map (· ++ "\n")).map fun line => line.toUTF8.toList).flatten

/-- A name fits on a line. -/
def OnOneLine (name : String) : Prop := '\n' ∉ name.toList ∧ '\r' ∉ name.toList

/-- What a line of the file is read as. -/
def stripped (name : String) : List Char := strip name.toList

lemma execute_split (t : ClassnameTable) (name : String) :
    t.execute (split ',' (strip (name.toList ++ ['\n']))) =
      if ',' ∈ name.toList then none else some (t.insert (stripped name)) := by
  rw [strip_newline]
  have hmem : ',' ∈ strip name.toList ↔ ',' ∈ name.toList := mem_strip (by decide)
  split_ifs with h
  · -- there is another number of words than one
    have hne : ¬ ∃ v, split ',' (strip name.toList) = [v] :=
      fun hv => split_eq_singleton_iff.mp hv (hmem.mpr h)
    unfold ClassnameTable.execute
    split
    · rename_i v hv
      exact absurd ⟨v, hv⟩ hne
    · rfl
  · rw [split_eq_self (fun h' => h (hmem.mp h'))]
    rfl

lemma insertLines_eq (names : List String) (t : ClassnameTable) :
    insertLines t (names.map fun name => name.toList ++ ['\n']) =
      if ∀ name ∈ names, ',' ∉ name.toList then
        some ⟨t.seq + names.length,
          t.rows ++ names.mapIdx fun i name => (t.seq + i + 1, stripped name)⟩
      else none := by
  induction names generalizing t with
  | nil => simp [insertLines]
  | cons name names ih =>
    rw [insertLines, List.map_cons, List.foldlM_cons, execute_split]
    by_cases h : ',' ∈ name.toList
    · rw [if_pos h, if_neg fun hall => hall name (List.mem_cons_self ..) h]
      rfl
    · rw [if_neg h]
      refine (ih (t.insert (stripped name))).trans ?_
      have hiff : (∀ n ∈ names, ',' ∉ n.toList) ↔ ∀ n ∈ name :: names, ',' ∉ n.toList := by
        simp [h]
      simp only [hiff]
      congr 2
      rw [List.mapIdx_cons, ClassnameTable.mk.injEq, List.length_cons]
      simp only [ClassnameTable.insert, List.append_assoc, List.singleton_append]
      refine ⟨by omega, ?_⟩
      congr 3
      funext i n
      rw [Prod.mk.injEq]
      exact ⟨by omega, rfl⟩

/-- The script runs to its end: no class name has a comma, and the other two files have two words on
each line. -/
def Loads (names : List String) (typemap field : Option Bytes) : Prop :=
  (∀ name ∈ names, ',' ∉ name.toList) ∧ (loadInfo typemap).isSome ∧ (loadInfo field).isSome

instance (names : List String) (typemap field : Option Bytes) :
    Decidable (Loads names typemap field) :=
  inferInstanceAs (Decidable (_ ∧ _))

/-- **The table after the script.** -/
theorem loadClassname_eq {names : List String} (hnames : ∀ name ∈ names, OnOneLine name)
    (typemap field : Option Bytes) :
    (loadClassname (classnameFile names) typemap field).rows =
      if Loads names typemap field then names.mapIdx fun i name => (i + 1, stripped name)
      else [] := by
  have hlines : ((names.map (· ++ "\n")).map String.toList) =
      (names.map String.toList).map (· ++ ['\n']) := by
    simp [Function.comp_def]
  have hread : readlines ((names.map String.toList).map (· ++ ['\n'])).flatten =
      (names.map String.toList).map (· ++ ['\n']) :=
    readlines_flatten (by simpa [OnOneLine] using hnames)
  have hlist : (names.map String.toList).map (· ++ ['\n']) =
      names.map fun name => name.toList ++ ['\n'] := List.map_map ..
  rw [loadClassname, classnameFile, decodeUtf8_toUTF8, hlines, Option.bind_some, hread, hlist,
    insertLines_eq]
  split_ifs with hcomma hloads hloads
  · obtain ⟨-, htypes, hfields⟩ := hloads
    obtain ⟨types, htypes⟩ := Option.isSome_iff_exists.mp htypes
    obtain ⟨fields, hfields⟩ := Option.isSome_iff_exists.mp hfields
    rw [htypes, hfields]
    simp [ClassnameTable.empty]
  · -- one of the other two files raises
    cases htypes : loadInfo typemap with
    | none => rfl
    | some types =>
      cases hfields : loadInfo field with
      | none => rfl
      | some fields => exact absurd ⟨hcomma, by rw [htypes]; rfl, by rw [hfields]; rfl⟩ hloads
  · exact absurd hloads.1 hcomma
  · rfl

lemma joined_loadClassname {names : List String} (hnames : ∀ name ∈ names, OnOneLine name)
    (typemap field : Option Bytes) (n : ℕ) :
    (loadClassname (classnameFile names) typemap field).joined n =
      if Loads names typemap field then (names[n]?.map stripped).toList else [] := by
  rw [ClassnameTable.joined, loadClassname_eq hnames]
  split_ifs
  · have hrows : (names.mapIdx fun i name => (i + 1, stripped name)) =
        (names.mapIdx fun i name => (i, stripped name)).map fun p => (p.1 + 1, p.2) := by
      rw [List.mapIdx_eq_zipIdx_map, List.mapIdx_eq_zipIdx_map, List.map_map]
      rfl
    rw [hrows, List.filter_map, List.map_map]
    have hkey : ((fun r : ℕ × List Char => decide ((r.1 : ℤ) = (n : ℤ) + 1)) ∘
        fun p : ℕ × List Char => (p.1 + 1, p.2)) = fun p => decide (p.1 = n) := by
      funext p
      simp only [Function.comp_apply, decide_eq_decide]
      omega
    rw [hkey, filter_mapIdx_fst]
    cases names[n]? <;> rfl
  · rfl

/-! ### The table `ALLOCATIONS` -/

/-- The columns of the table `ALLOCATIONS`. -/
inductive AllocColumn where
  | id | classNameId | line | initSize | typeid
  deriving DecidableEq, Repr

/-- The columns of the `INSERT` statement. -/
def allocColumns : List AllocColumn := [.id, .classNameId, .line, .initSize, .typeid]

/-- A column of the row that is inserted. -/
def allocCell (values : List ℤ) (c : AllocColumn) : Option ℤ := (allocColumns.zip values).lookup c

/-- The rows of `ALLOCATIONS` from the file `addr-id.dat`: a word that is no number, or a line with
another number of words than five, raises an exception. -/
def loadAllocations (bs : Bytes) : Option (List (List ℤ)) := do
  let data ← (decodeUtf8 bs).map readlines
  let dataNums ← data.mapM fun y => (split ' ' y).mapM pyInt
  if ∀ row ∈ dataNums, row.length = allocColumns.length then some dataNums else none

/-- The numbers of a line of `addr-id.dat`. -/
def lineNums (l : AddrIdLine) : List ℤ :=
  [l.id.toInt32.toInt, l.classNameId.toNat, l.line.toNat, l.objSize.toInt32.toInt,
    l.objTypeid.toInt]

/-- A line of `addr-id.dat` without its newline. -/
def lineText (l : AddrIdLine) : List Char :=
  digits l.id.toInt32.toInt ++ ' ' :: (digits l.classNameId.toNat ++ ' ' :: (digits l.line.toNat ++
    ' ' :: (digits l.objSize.toInt32.toInt ++ ' ' :: digits l.objTypeid.toInt)))

lemma render_toList (l : AddrIdLine) : l.render.toList = lineText l ++ ['\n'] := by
  have hint : ∀ i : ℤ, (toString i).toList = digits i := fun _ => rfl
  have hnat : ∀ n : ℕ, (toString n).toList = digits n := fun _ => rfl
  have hspace : " ".toList = [' '] := by decide
  have hnewline : "\n".toList = ['\n'] := by decide
  simp only [AddrIdLine.render, lineText, hint, hnat, hspace, hnewline, String.toList_append,
    List.append_assoc, List.cons_append, List.nil_append]

lemma notMem_lineText {c : Char} (hc : c = '\n' ∨ c = '\r') (l : AddrIdLine) : c ∉ lineText l := by
  have hspace : isSpace c = true := by
    rcases hc with rfl | rfl
    · decide
    · decide
  have hne : c ≠ ' ' := by
    rcases hc with rfl | rfl
    · decide
    · decide
  intro hmem
  simp only [lineText, List.mem_append, List.mem_cons, hne, false_or] at hmem
  rcases hmem with h | h | h | h | h <;> exact notMem_digits hspace _ h

lemma mapM_split_render (l : AddrIdLine) :
    (split ' ' l.render.toList).mapM pyInt = some (lineNums l) := by
  have hsep : ∀ i, ' ' ∉ digits i := notMem_digits (by decide)
  have hlast : ' ' ∉ digits l.objTypeid.toInt ++ ['\n'] := by
    rw [List.mem_append]
    exact fun h => h.elim (hsep _) (by decide)
  rw [render_toList, lineText]
  simp only [List.append_assoc, List.cons_append]
  rw [split_append (hsep _), split_append (hsep _), split_append (hsep _), split_append (hsep _),
    split_eq_self hlast]
  simp [List.mapM_cons, pyInt_digits, pyInt_newline, lineNums]

/-- **The table of the allocations is read back.** -/
theorem loadAllocations_renderLines (ls : List AddrIdLine) :
    loadAllocations (renderLines ls) = some (ls.map lineNums) := by
  have hlines : (ls.map AddrIdLine.render).map String.toList = (ls.map lineText).map (· ++ ['\n']) := by
    rw [List.map_map, List.map_map]
    exact List.map_congr_left fun l _ => render_toList l
  have htext : decodeUtf8 (renderLines ls) = some ((ls.map lineText).map (· ++ ['\n'])).flatten := by
    rw [← hlines, ← decodeUtf8_toUTF8, renderLines, List.map_map]
    rfl
  have hread : readlines ((ls.map lineText).map (· ++ ['\n'])).flatten =
      ls.map fun l => l.render.toList := by
    rw [readlines_flatten, ← hlines, List.map_map]
    · rfl
    · simp only [List.forall_mem_map]
      exact fun l _ => ⟨notMem_lineText (Or.inl rfl) l, notMem_lineText (Or.inr rfl) l⟩
  have hnums : (ls.map fun l => l.render.toList).mapM (fun y => (split ' ' y).mapM pyInt) =
      some (ls.map lineNums) := by
    clear hread htext hlines
    induction ls with
    | nil => rfl
    | cons l ls ih => rw [List.map_cons, List.mapM_cons, ih, mapM_split_render]; rfl
  have hlen : ∀ row ∈ ls.map lineNums, row.length = allocColumns.length := by
    simp [lineNums, allocColumns]
  unfold loadAllocations
  rw [htext, Option.map_some, hread]
  simp only [Option.bind_eq_bind, Option.bind_some, hnums, if_pos hlen]

/-! ### From a NEW record to its row -/

lemma ofRaw_toRaw (mem : Raw Kind.new.size) (r : NewRecord) : NewRecord.ofRaw (r.toRaw mem) = r := by
  have hline : UInt16.ofNat (getWord (Kind.new.offset (.top .line)) 2 (r.toRaw mem)) = r.line :=
    ofNat16_assign r.fits (by simp [NewRecord.assignments]) mem
  have hclass : UInt16.ofNat (getWord (Kind.new.offset (.top .classNameId)) 2 (r.toRaw mem)) =
      r.classNameId := ofNat16_assign r.fits (by simp [NewRecord.assignments]) mem
  have htypeid : UInt32.ofNat (getWord (Kind.new.offset (.top .objTypeid)) 4 (r.toRaw mem)) =
      r.objTypeid.toUInt32 := ofNat32_assign r.fits (by simp [NewRecord.assignments]) mem
  have hsize : UInt32.ofNat (getWord (Kind.new.offset (.top .objSize)) 4 (r.toRaw mem)) =
      r.objSize := ofNat32_assign r.fits (by simp [NewRecord.assignments]) mem
  have haddr : Kind.new.getAddr (.top .addr) (r.toRaw mem) = r.addr :=
    ofNat32_assign r.fits (by simp [NewRecord.assignments]) mem
  have htime : Kind.new.value (r.toRaw mem) = r.time :=
    ofNat64_assign r.fits (by simp [NewRecord.assignments, Kind.timePath, Kind.hasTime]; decide) mem
  rw [NewRecord.ofRaw, hline, hclass, htypeid, hsize, haddr, htime, Int32.toInt32_toUInt32]

/-- How many NEW records are read before the `m`-th one of a file. -/
def newIndex (d : Directory) (file : String) (m : ℕ) : ℕ :=
  (((filesStartWith d "NEW").takeWhile (· ≠ file)).map (newFile d)).flatten.length + m

lemma newRecords_newIndex {d : Directory} {file : String} (h : file ∈ filesStartWith d "NEW")
    {m : ℕ} {r : NewRecord} (hr : (newFile d file)[m]? = some r) :
    (newRecords d)[newIndex d file m]? = some r := by
  obtain ⟨as, bs, hfiles, hnot⟩ := List.eq_append_cons_of_mem h
  have hm : m < (newFile d file).length := (List.getElem?_eq_some_iff.mp hr).1
  have hbefore : (as ++ file :: bs).takeWhile (· ≠ file) = as := by
    rw [List.takeWhile_append_of_pos fun f hf => by simpa using fun e : f = file => hnot (e ▸ hf)]
    simp
  rw [newRecords, newIndex, hfiles, hbefore, List.map_append, List.flatten_append,
    List.getElem?_append_right (Nat.le_add_right ..), Nat.add_sub_cancel_left, List.map_cons,
    List.flatten_cons, List.getElem?_append_left hm, hr]

/-- The row of `ALLOCATIONS` that belongs to the `m`-th record of a NEW file. -/
def allocationRow (d : Directory) (file : String) (m : ℕ) : Option (List ℤ) :=
  (((Trace.main d).read "addr-id.dat").bind loadAllocations).bind fun rows =>
    rows[newIndex d file m]?

theorem allocationRow_eq {d : Directory} {file : String} (hfile : startsWith file "NEW")
    {pre post : List (Raw Kind.new.size)} {mem : Raw Kind.new.size} {r : NewRecord}
    (hread : d.read file = some (joinRecords (pre ++ r.toRaw mem :: post))) :
    ∃ id, allocationRow d file pre.length = some (lineNums (lineOf id r)) := by
  have hmem : file ∈ filesStartWith d "NEW" :=
    List.mem_filter.mpr ⟨List.mem_map_of_mem (Directory.read_eq_some_iff.mp hread), hfile⟩
  have hrec : (newFile d file)[pre.length]? = some r := by
    rw [newFile, hread, Option.getD_some, records_joinRecords (Kind.size_pos .new),
      List.getElem?_map, List.getElem?_append_right le_rfl, Nat.sub_self]
    simp [ofRaw_toRaw]
  have hrow := newRecords_newIndex hmem hrec
  refine ⟨1 + UInt32.ofNat (newIndex d file pre.length), ?_⟩
  rw [allocationRow, read_main_addrId, Option.bind_some, loadAllocations_renderLines,
    Option.bind_some, buildAddrMap_lines, List.getElem?_map, List.getElem?_mapIdx, hrow]
  rfl

/-! ### From a line record to its row -/

/-- The rows that the loop of `records` yields for the `i`-th line record of a thread. -/
def lineRows (d : Directory) (tid pid : ℤ) (i : ℕ) : List (List ℤ) :=
  let lineBuf := (d.read (dataName .containerLineInfo tid pid)).getD []
  let rowsOf (n : ℕ) := records (lineBuf.take (n * sizeof lineInfoFields))
    (d.read (dataName .listAndSet tid pid)) (d.read (dataName .map tid pid))
  (rowsOf (i + 1)).drop (rowsOf i).length

lemma joinLoop_concat (next : Option Entry) (bufs : List ContainerBuffer)
    (lines : List ContainerLineInfoRecord) (r2 : ContainerLineInfoRecord) :
    ∃ rows, joinLoop next bufs (lines ++ [r2]) = joinLoop next bufs lines ++ rows ∧
      ∀ r ∈ rows, ∃ e, r = row e r2 := by
  induction lines generalizing next bufs with
  | nil =>
    refine ⟨joinLoop next bufs [r2], rfl, fun r hr => ?_⟩
    cases next with
    | none => simp [joinLoop] at hr
    | some r1 =>
      rw [joinLoop] at hr
      split at hr
      · simp [joinLoop] at hr
      · dsimp only at hr
        rw [joinLoop.eq_def, List.mem_singleton] at hr
        exact ⟨_, hr⟩
  | cons l lines ih =>
    cases next with
    | none => exact ⟨[], by simp [joinLoop], by simp⟩
    | some r1 =>
      rw [List.cons_append, joinLoop, joinLoop]
      dsimp only
      split
      · exact ih ..
      · obtain ⟨rows, hrows, hall⟩ := ih (lookahead r1 (read bufs).1 (read bufs).2 l).2.1
          (lookahead r1 (read bufs).1 (read bufs).2 l).2.2
        exact ⟨rows, by rw [hrows, List.cons_append], hall⟩

lemma lineInfo_joinRecords (rs : List (Raw Kind.containerLineInfo.size)) :
    (Lib.records (sizeof lineInfoFields) (joinRecords rs)).map lineInfoOfRaw =
      rs.map readLineInfo :=
  congrArg (List.map readLineInfo) (records_joinRecords (Kind.size_pos .containerLineInfo) rs)

theorem mem_lineRows {d : Directory} {tid pid : ℤ} {pre post : List (Raw Kind.containerLineInfo.size)}
    {mem : Raw Kind.containerLineInfo.size} {r2 : ContainerLineInfoRecord}
    (hread : d.read (dataName .containerLineInfo tid pid) =
      some (joinRecords (pre ++ r2.toRaw mem :: post)))
    {values : List ℤ} (h : values ∈ lineRows d tid pid pre.length) : ∃ e, values = row e r2 := by
  have htake : ∀ n, ((joinRecords (pre ++ r2.toRaw mem :: post)).take
      (n * sizeof lineInfoFields)) = joinRecords ((pre ++ r2.toRaw mem :: post).take n) :=
    take_joinRecords _
  have hpre : (pre ++ r2.toRaw mem :: post).take pre.length = pre := List.take_left
  have hsucc : (pre ++ r2.toRaw mem :: post).take (pre.length + 1) = pre ++ [r2.toRaw mem] := by
    rw [List.take_append, List.take_of_length_le (Nat.le_succ _), Nat.add_sub_cancel_left]
    rfl
  unfold lineRows at h
  dsimp only at h
  rw [hread, Option.getD_some, htake, htake, hpre, hsucc] at h
  unfold records at h
  split at h
  · simp at h
  · have hlines := lineInfo_joinRecords (pre ++ [r2.toRaw mem])
    rw [List.map_append, List.map_singleton, readLineInfo_toRaw, ← lineInfo_joinRecords pre] at hlines
    obtain ⟨rows, hrows, hall⟩ := joinLoop_concat
      (Script.read (selector (d.read (dataName .listAndSet tid pid))
        (d.read (dataName .map tid pid)))).1
      (Script.read (selector (d.read (dataName .listAndSet tid pid))
        (d.read (dataName .map tid pid)))).2
      ((Lib.records (sizeof lineInfoFields) (joinRecords pre)).map lineInfoOfRaw) r2
    rw [hlines, hrows, List.drop_left] at h
    exact hall values h

/-! ### What the queries show -/

/-- A query shows the name and the line for a row with the given cells. -/
def Attributes (t : ClassnameTable) (classNameId line : Option ℤ) (name : String) (l : ℤ) : Prop :=
  classNameId.map t.joined = some [name.toList] ∧ line = some l

/-- The tables are loaded, the name at the place of the id's lower 16 bits is, without the white space
around it, the name itself, and the line fits into 16 bits. -/
def Attributable (names : List String) (typemap field : Option Bytes) (classNameId : Int32)
    (name : String) (line : Int32) : Prop :=
  Loads names typemap field ∧
    names[classNameId.toInt.toNat % 65536]?.map stripped = some name.toList ∧
    0 ≤ line.toInt ∧ line.toInt < 65536

/-- The members of a record, as the columns of its row. -/
theorem attributes_iff {names : List String} (hnames : ∀ n ∈ names, OnOneLine n)
    (typemap field : Option Bytes) {classNameId : Int32} (hid : 0 ≤ classNameId.toInt)
    (name : String) (line : Int32) :
    Attributes (loadClassname (classnameFile names) typemap field)
        (some (classNameId.toUInt32.toUInt16.toNat : ℤ)) (some (line.toUInt32.toUInt16.toNat : ℤ))
        name line.toInt ↔
      Attributable names typemap field classNameId name line := by
  have hcut : classNameId.toUInt32.toUInt16.toNat = classNameId.toInt.toNat % 65536 := by
    have := toNat_toUInt16 classNameId
    omega
  have hline : (line.toUInt32.toUInt16.toNat : ℤ) = line.toInt ↔
      0 ≤ line.toInt ∧ line.toInt < 65536 := by
    rw [toNat_toUInt16]
    omega
  rw [Attributes, Attributable, Option.map_some, Option.some_inj, Option.some_inj, hline,
    joined_loadClassname hnames, hcut]
  split_ifs with hloads
  · rw [and_iff_right hloads]
    cases names[classNameId.toInt.toNat % 65536]? <;> simp
  · simp [hloads]

section Rows

variable {Obj : Type*} [DecidableEq Obj]

lemma lineInfo_step (t : Thread Obj) (c : ThreadCall Obj) :
    t.containerLineInfoRecorder <+: (t.step c).containerLineInfoRecorder := by
  cases c with
  | container call amb =>
    obtain ⟨env, hrun⟩ := run_container t amb call.op
    rw [Thread.step, hrun]
    cases call.op.record amb t with
    | none => exact List.prefix_rfl
    | some e => cases e <;> exact List.prefix_rfl
  | lineInfo line classNameId amb =>
    rw [Thread.step, addContainerLineInfoRecord]
    split
    · exact List.prefix_rfl
    · exact List.prefix_append ..
  | enableRecord => exact List.prefix_rfl
  | disableRecord => exact List.prefix_rfl
  | retag localEnv jvmtiEnv => exact List.prefix_rfl

lemma lineInfo_call {t : Thread Obj} (hon : t.enable ∧ t.isSampledContainer)
    (line classNameId : Int32) (amb : Ambient) (later : List (ThreadCall Obj)) :
    ∃ post, ((t.step (.lineInfo line classNameId amb)).run later).containerLineInfoRecorder =
      t.containerLineInfoRecorder ++
        (lineRecord line classNameId amb.nanotime).toRaw (Raw.ofBytes _ amb.stack) :: post := by
  obtain ⟨post, hpost⟩ := run_prefix lineInfo_step (t.step (.lineInfo line classNameId amb)) later
  refine ⟨post, ?_⟩
  rw [← hpost, Thread.step, addContainerLineInfoRecord, if_neg (by simp [hon])]
  simp

/-- **Class attribution through the whole pipeline.** For class names on lines of their own, an id
below their number and a line: the row of `CONTAINERS` that results from a recorded call of
`addContainerLineInfoRecord`, in any run of the thread and after `addr2id`, shows the class of the
id and the line if and only if these are attributable, and so does the row of `ALLOCATIONS` of a
call of `addTagNewRecord`. -/
theorem attributed_iff (names : List String) (hnames : ∀ n ∈ names, OnOneLine n)
    (typemap field : Option Bytes) (classNameId line : Int32) (hid : 0 ≤ classNameId.toInt)
    (hlt : classNameId.toInt.toNat < names.length) :
    (∀ (d : Directory) (tid pid : ℤ) (t : Thread Obj) (amb : Ambient)
        (later : List (ThreadCall Obj)), t.enable ∧ t.isSampledContainer →
      d.read (dataName .containerLineInfo tid pid) = some (joinRecords
        ((t.step (.lineInfo line classNameId amb)).run later).containerLineInfoRecorder) →
      ∀ values ∈ lineRows (Trace.main d) tid pid t.containerLineInfoRecorder.length,
        (Attributes (loadClassname (classnameFile names) typemap field)
          (cell values .classNameId) (cell values .line) names[classNameId.toInt.toNat] line.toInt ↔
            Attributable names typemap field classNameId names[classNameId.toInt.toNat] line)) ∧
    ∀ (d : Directory) (file : String) (pre post : List (Raw Kind.new.size))
        (mem : Raw Kind.new.size) (tag : Int64) (objTypeid : Int32) (objSize : Int64) (time : Time),
      startsWith file "NEW" →
      d.read file = some (joinRecords
        (pre ++ (tagNewRecord tag objTypeid line classNameId objSize time).toRaw mem :: post)) →
      ∃ values, allocationRow d file pre.length = some values ∧
        (Attributes (loadClassname (classnameFile names) typemap field)
          (allocCell values .classNameId) (allocCell values .line) names[classNameId.toInt.toNat]
          line.toInt ↔
            Attributable names typemap field classNameId names[classNameId.toInt.toNat] line) := by
  constructor
  · intro d tid pid t amb later hon hread values hvalues
    obtain ⟨post, hpost⟩ := lineInfo_call hon line classNameId amb later
    have hname := startsWith_dataName .containerLineInfo tid pid
    have hmain := read_main_of_startsWith hname hread
    rw [rewriteFile_of_not_translated rfl hname, hpost] at hmain
    obtain ⟨e, rfl⟩ := mem_lineRows hmain hvalues
    rw [cell_row, cell_row]
    exact attributes_iff hnames typemap field hid _ line
  · intro d file pre post mem tag objTypeid objSize time hfile hread
    obtain ⟨id, hrow⟩ := allocationRow_eq hfile hread
    exact ⟨_, hrow, attributes_iff hnames typemap field hid _ line⟩

end Rows

/-- A thread that has just recorded an operation on the list `1`. -/
def listThread : Thread ℕ :=
  (Thread.init sampleTags sampleTags).step (.container (.list4 (some 1) 5 1 2) ⟨10, fun _ => 0, []⟩)

/-- The trace of this thread after a line call and of the allocation of the list. -/
def listTrace : Directory where
  files :=
    [ ("NEW-1-2", joinRecords [(tagNewRecord 10 3 12 0 24 1).toRaw (Raw.ofBytes _ [])]),
      ("List-Set-1-2", joinRecords listThread.listAndSetRecord),
      ("ContainerLineInfo-1-2", joinRecords
        (listThread.step (.lineInfo 12 0 ⟨20, fun _ => 0, []⟩)).containerLineInfoRecorder) ]
  nodup := by decide

theorem attributed_iff_list :
    (∃ values ∈ lineRows (Trace.main listTrace) 1 2 0,
      Attributes (loadClassname (classnameFile ["Main"]) none none) (cell values .classNameId)
        (cell values .line) "Main" 12) ∧
    ∃ values, allocationRow listTrace "NEW-1-2" 0 = some values ∧
      Attributes (loadClassname (classnameFile ["Main"]) none none) (allocCell values .classNameId)
        (allocCell values .line) "Main" 12 := by
  have hok : Attributable ["Main"] none none 0 "Main" 12 :=
    ⟨by decide, by decide, by decide, by decide⟩
  have h := @attributed_iff ℕ _ ["Main"] (by simp [OnOneLine]) none none 0 12 (by decide) (by decide)
  constructor
  · have hrow : lineRows (Trace.main listTrace) 1 2 0 = [[1, 0, 1, 2, 10, 5, 0, -1, 12, 0]] := by
      decide +kernel
    refine ⟨[1, 0, 1, 2, 10, 5, 0, -1, 12, 0], by rw [hrow]; simp, ?_⟩
    exact (h.1 listTrace 1 2 listThread ⟨20, fun _ => 0, []⟩ [] (by decide) rfl _
      (by rw [show listThread.containerLineInfoRecorder.length = 0 from rfl, hrow]; simp)).mpr hok
  · obtain ⟨values, hrow, hiff⟩ := h.2 listTrace "NEW-1-2" [] [] (Raw.ofBytes _ []) 10 3 24 1
      (by decide) rfl
    exact ⟨values, hrow, hiff.mpr hok⟩

/-- As many names as do not fit into 16 bits. -/
def manyNames : List String := (List.range 65537).map fun n => "C" ++ toString n

/-- The trace of one allocation in the class with the id `65536`. -/
def lateClassTrace : Directory where
  files := [("NEW-1-2", joinRecords [(tagNewRecord 10 3 12 65536 24 1).toRaw (Raw.ofBytes _ [])])]
  nodup := by decide

lemma onOneLine_manyNames : ∀ n ∈ manyNames, OnOneLine n := by
  intro name hname
  obtain ⟨n, -, rfl⟩ := List.mem_map.mp hname
  have hnot : ∀ c, isSpace c = true → c ∉ ("C" ++ toString n).toList := by
    intro c hc hmem
    rw [String.toList_append, List.mem_append] at hmem
    rcases hmem with h | h
    · rw [show "C".toList = ['C'] by decide, List.mem_singleton] at h
      rw [h] at hc
      revert hc
      decide
    · exact notMem_digits hc n h
  exact ⟨hnot _ (by decide), hnot _ (by decide)⟩

/-- The class with the id `65536` is shown as the class with the id `0`. -/
theorem not_attributed_lateClass :
    ¬ ∀ (names : List String), (∀ n ∈ names, OnOneLine n) → ∀ classNameId line : Int32,
      0 ≤ classNameId.toInt → ∀ hlt : classNameId.toInt.toNat < names.length,
      ∀ (d : Directory) (file : String) (pre post : List (Raw Kind.new.size))
        (mem : Raw Kind.new.size) (tag : Int64) (objTypeid : Int32) (objSize : Int64) (time : Time),
      startsWith file "NEW" →
      d.read file = some (joinRecords
        (pre ++ (tagNewRecord tag objTypeid line classNameId objSize time).toRaw mem :: post)) →
      ∃ values, allocationRow d file pre.length = some values ∧
        Attributes (loadClassname (classnameFile names) none none) (allocCell values .classNameId)
          (allocCell values .line) names[classNameId.toInt.toNat] line.toInt := by
  intro h
  have hid : (65536 : Int32).toInt = 65536 := by decide
  have hlt : (65536 : Int32).toInt.toNat < manyNames.length := by
    rw [hid, manyNames, List.length_map, List.length_range]
    decide
  have hread : lateClassTrace.read "NEW-1-2" = some (joinRecords
      ([] ++ (tagNewRecord 10 3 12 65536 24 1).toRaw (Raw.ofBytes _ []) :: [])) := rfl
  obtain ⟨values, hrow, hattr⟩ := h manyNames onOneLine_manyNames 65536 12 (by decide) hlt
    lateClassTrace "NEW-1-2" [] [] (Raw.ofBytes _ []) 10 3 24 1 (by decide) hread
  obtain ⟨id, hrow'⟩ := allocationRow_eq (by decide : startsWith "NEW-1-2" "NEW") hread
  have hvalues := Option.some.inj (hrow.symm.trans hrow')
  rw [hvalues] at hattr
  have hname : manyNames[(65536 : Int32).toInt.toNat] = "C65536" := by
    simp only [hid, manyNames, List.getElem_map, List.getElem_range]
    decide
  have hfirst : manyNames[(65536 : Int32).toInt.toNat % 65536]? = some "C0" := by
    rw [show (65536 : Int32).toInt.toNat % 65536 = 0 by decide, manyNames, List.getElem?_map,
      List.getElem?_range (by decide)]
    decide
  have hok : Attributable manyNames none none 65536 manyNames[(65536 : Int32).toInt.toNat] 12 :=
    (attributes_iff onOneLine_manyNames none none (by decide) _ 12).mp hattr
  have hsame := hok.2.1
  rw [hfirst, hname] at hsame
  revert hsame
  decide

end Cinst.Script
