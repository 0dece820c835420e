import Cinst.Lib.Sql
import Cinst.Native.Lifetimes
import Cinst.Script.Classnames
import Cinst.Script.Null

/-!
The script `build_container_db.py` as a whole: it finds the line files of the process by a pattern,
takes the tid out of each name, joins the records of that thread, and reads the allocations and the
names of the operations.

The directory may list the files in any order, so the table `CONTAINERS` holds the rows of the threads
one thread after the other in some order (`loadContainers_main`).
-/

namespace Cinst.Script

open Cinst.Lib Cinst.Record Cinst.Native Cinst.Trace
open Cinst.Addr (AddrMap ObjId)
open Cinst.Lib.Sql (FitsInteger)

/-! ### The script -/

/-- A name that the pattern `first*last` of `glob` matches. -/
def globMatches (first last name : String) : Bool :=
  first.toList.length + last.toList.length ≤ name.toList.length &&
    (first.toList.isPrefixOf name.toList && last.toList.isSuffixOf name.toList)

/-- `line_files`. -/
def lineFiles (d : Directory) (pid : String) : List String :=
  d.names.filter (globMatches "ContainerLineInfo-" ("-" ++ pid))

/-- `line_filename.split('-')[1]`. -/
def tidOf (lineFilename : String) : String :=
  String.ofList (((split '-' lineFilename.toList)[1]?).getD [])

/-- The rows of one turn of the loop over the line files. -/
def threadRows (d : Directory) (pid lineFilename : String) : List (List ℤ) :=
  let tid := tidOf lineFilename
  records ((d.read lineFilename).getD []) (d.read ("List-Set-" ++ tid ++ "-" ++ pid))
    (d.read ("Map-" ++ tid ++ "-" ++ pid))

/-- The rows that are inserted into `CONTAINERS`. -/
def loadContainers (d : Directory) (pid : String) : List (List ℤ) :=
  (lineFiles d pid).flatMap (threadRows d pid)

/-- `(int(x[0]), x[1])` for a line of a file of operations. -/
def opRow (line : List Char) : Option (ℤ × List Char) :=
  match split ',' (strip line) with
  | cop :: name :: _ => (pyInt cop).map fun n => (n, name)
  | _ => none

/-- The rows of a file of operations. -/
def opRows (file : Option Bytes) : Option (List (ℤ × List Char)) :=
  (file.bind decodeUtf8).bind fun cs => (readlines cs).mapM opRow

/-- The rows that are inserted into `CONTAINER_OP`. -/
def loadOps (d : Directory) : Option (List (ℤ × List Char)) :=
  (((d.names.filter (globMatches "containerOp-" "")).map d.read).mapM opRows).map List.flatten

/-- The tables of the data base. -/
structure ContainerDb where
  containers : List (List ℤ)
  allocations : List (List ℤ)
  containerOp : List (ℤ × List Char)

/-- The script on the data base of earlier runs. Where it raises an exception, nothing is committed. -/
def buildContainerDb (d : Directory) (pid : String) (db : ContainerDb) : Option ContainerDb := do
  let _ ← pyInt pid.toList
  let containers := loadContainers d pid
  let dataNums ← (d.read "addr-id.dat").bind loadAllocations
  let ops ← loadOps d
  if (∀ row ∈ containers ++ dataNums, ∀ v ∈ row, FitsInteger v) ∧ ∀ op ∈ ops, FitsInteger op.1 then
    some ⟨db.containers ++ containers, db.allocations ++ dataNums, db.containerOp ++ ops⟩
  else none

/-- The tables of further rows. -/
def ContainerDb.append (db db' : ContainerDb) : ContainerDb :=
  ⟨db.containers ++ db'.containers, db.allocations ++ db'.allocations,
    db.containerOp ++ db'.containerOp⟩

/-- The data base of a number of runs, from no tables on. -/
def buildTimes (d : Directory) (pid : String) : ℕ → Option ContainerDb
  | 0 => some ⟨[], [], []⟩
  | n + 1 => (buildTimes d pid n).bind (buildContainerDb d pid)

lemma buildContainerDb_append {d : Directory} {pid : String} {db : ContainerDb}
    (h : buildTimes d pid 1 = some db) (db₀ : ContainerDb) :
    buildContainerDb d pid db₀ = some (db₀.append db) := by
  simp only [buildTimes, Option.bind_some, buildContainerDb, Option.bind_eq_bind,
    Option.bind_eq_some_iff] at h ⊢
  obtain ⟨n, hpid, dataNums, hdata, ops, hops, h⟩ := h
  refine ⟨n, hpid, dataNums, hdata, ops, hops, ?_⟩
  split_ifs at h ⊢ with hfits
  obtain rfl := Option.some.inj h
  rfl

/-- **Every run appends the same rows.** -/
theorem buildTimes_eq {d : Directory} {pid : String} {db : ContainerDb}
    (h : buildTimes d pid 1 = some db) (n : ℕ) : buildTimes d pid n = some
      ⟨(List.replicate n db.containers).flatten, (List.replicate n db.allocations).flatten,
        (List.replicate n db.containerOp).flatten⟩ := by
  induction n with
  | zero => rfl
  | succ n ih =>
    rw [buildTimes, ih, Option.bind_some, buildContainerDb_append h]
    simp [ContainerDb.append, List.replicate_succ']

/-! ### The names -/

lemma globMatches_iff {first last name : String} : globMatches first last name ↔
    ∃ cs, name.toList = first.toList ++ (cs ++ last.toList) := by
  rw [globMatches, Bool.and_eq_true, Bool.and_eq_true, decide_eq_true_eq,
    List.isPrefixOf_iff_prefix, List.isSuffixOf_iff_suffix]
  constructor
  · rintro ⟨hlen, ⟨rest, hrest⟩, hlast⟩
    rw [← hrest, List.length_append] at hlen
    rw [← hrest] at hlast ⊢
    obtain ⟨cs, rfl⟩ := List.suffix_of_suffix_length_le hlast (List.suffix_append ..) (by omega)
    exact ⟨cs, rfl⟩
  · rintro ⟨cs, hname⟩
    rw [hname]
    refine ⟨?_, List.prefix_append .., (List.suffix_append cs _).trans (List.suffix_append ..)⟩
    simp only [List.length_append]
    omega

lemma notMem_toString (n : ℕ) : '-' ∉ (toString n).toList := by
  intro h
  rw [Nat.toString_eq_ofList_toDigits, String.toList_ofList] at h
  have hdigit := Nat.isDigit_of_mem_toDigits (by norm_num) (by norm_num) h
  revert hdigit
  decide

lemma toList_dataName (tid : ℕ) (pid : ℤ) : (dataName .containerLineInfo tid pid).toList =
    "ContainerLineInfo".toList ++ '-' :: ((toString tid).toList ++ ("-" ++ toString pid).toList) := by
  have hname : dataName .containerLineInfo tid pid =
      "ContainerLineInfo" ++ "-" ++ toString tid ++ "-" ++ toString pid := rfl
  have hdash : "-".toList = ['-'] := by decide
  rw [hname]
  simp only [String.toList_append, hdash, List.append_assoc, List.cons_append, List.nil_append]

lemma tidOf_dataName (tid : ℕ) (pid : ℤ) :
    tidOf (dataName .containerLineInfo tid pid) = toString tid := by
  have hdash : ("-" ++ toString pid).toList = '-' :: (toString pid).toList := by
    rw [String.toList_append, show "-".toList = ['-'] by decide, List.singleton_append]
  rw [tidOf, toList_dataName, hdash, split_append (by decide), split_append (notMem_toString tid),
    List.getElem?_cons_succ, List.getElem?_cons_zero, Option.getD_some, String.ofList_toList]

lemma listAndSetName (tid : ℕ) (pid : ℤ) :
    "List-Set-" ++ toString tid ++ "-" ++ toString pid = dataName .listAndSet tid pid := rfl

lemma mapName (tid : ℕ) (pid : ℤ) :
    "Map-" ++ toString tid ++ "-" ++ toString pid = dataName .map tid pid := rfl

/-- `addr2id` leaves the names alone that a pattern finds, unless it finds `addr-id.dat`. -/
lemma names_main_filter {d : Directory} {p : String → Bool} (h : p "addr-id.dat" = false) :
    (main d).names.filter p = d.names.filter p := by
  rw [main_eq, Directory.names_mapFiles, Directory.names_write_filter h]

lemma lineFiles_main (d : Directory) (pid : String) : lineFiles (main d) pid = lineFiles d pid := by
  refine names_main_filter ?_
  rw [globMatches, show "ContainerLineInfo-".toList.isPrefixOf "addr-id.dat".toList = false by decide,
    Bool.false_and, Bool.and_false]

/-! ### The records of a thread after `addr2id` -/

section Translated

variable {q : Addr → Time → ObjId} {es : List (Entry ⊕ ContainerLineInfoRecord)}
  {ps : List (Entry × ContainerLineInfoRecord)}

/-- The records of a thread with their addresses replaced. -/
def translateAll (q : Addr → Time → ObjId) (es : List (Entry ⊕ ContainerLineInfoRecord)) :
    List (Entry ⊕ ContainerLineInfoRecord) :=
  es.map (Sum.map (translateEntry q) id)

lemma time_translateEntry (e : Entry) : (translateEntry q e).time = e.time := by
  cases e <;> rfl

lemma struct_translateEntry (e : Entry) : (translateEntry q e).struct = e.struct := by
  cases e <;> rfl

lemma stamp_translateAll : (translateAll q es).map stamp = es.map stamp := by
  rw [translateAll, List.map_map]
  refine List.map_congr_left fun r _ => ?_
  cases r with
  | inl e => exact time_translateEntry e
  | inr r2 => rfl

lemma lines_translateAll : lines (translateAll q es) = lines es := by
  rw [lines, translateAll, List.filterMap_map, lines]
  congr 1
  funext r
  cases r <;> rfl

lemma containers_translateAll :
    containers (translateAll q es) = (containers es).map (translateEntry q) := by
  rw [containers, translateAll, List.filterMap_map, containers, List.map_filterMap]
  congr 1
  funext r
  cases r <;> rfl

lemma filter_translateEntry (s : Struct) (cs : List Entry) :
    ((cs.map (translateEntry q)).filter fun c => c.struct = s) =
      (cs.filter fun c => c.struct = s).map (translateEntry q) := by
  rw [List.filter_map]
  congr 2
  funext c
  rw [Function.comp_apply, struct_translateEntry]

lemma Paired.translate (h : Paired es ps) :
    Paired (translateAll q es) (ps.map fun p => (translateEntry q p.1, p.2)) := by
  induction h with
  | nil => exact .nil
  | container c _ ih => exact .container (translateEntry q c) ih
  | pair c r2 _ ih => exact .pair (translateEntry q c) r2 ih

lemma Paired.lines_eq (h : Paired es ps) : lines es = ps.map Prod.snd := by
  induction h with
  | nil => rfl
  | container c _ ih => exact ih
  | pair c r2 _ ih => exact congrArg (r2 :: ·) ih

end Translated

/-! ### The files of the threads -/

/-- What a thread has recorded: its container and line records in the order of their times, with every
line record directly behind its operation. -/
structure ThreadTrace where
  tid : ℕ
  records : List (Entry ⊕ ContainerLineInfoRecord)
  pairs : List (Entry × ContainerLineInfoRecord)
  paired : Paired records pairs
  increasing : (records.map stamp).Pairwise (· < ·)

/-- The container records of a structure in their file. -/
def EntriesIn (buf : Option Bytes) (s : Struct) (cs : List Entry) : Prop :=
  ∃ rs : List (Raw s.size), rs.map s.decode = cs.filter (fun c => c.struct = s) ∧ FileOf rs buf

/-- The three files of a thread. -/
structure ThreadTrace.In (t : ThreadTrace) (pid : ℤ) (d : Directory) : Prop where
  entries : ∀ s : Struct, EntriesIn (d.read (dataName s.kind t.tid pid)) s (containers t.records)
  lines : ∃ rs : List (Raw Kind.containerLineInfo.size), rs.map readLineInfo = lines t.records ∧
    FileOf rs (d.read (dataName .containerLineInfo t.tid pid))

/-- The directory holds the files of the threads, and no other line files of the process. -/
structure HoldsThreads {ι : Type*} (trace : ι → ThreadTrace) (ts : List ι) (pid : ℤ)
    (d : Directory) : Prop where
  distinct : (ts.map fun t => (trace t).tid).Nodup
  files : ∀ t ∈ ts, (trace t).In pid d
  only : ∀ name ∈ lineFiles d (toString pid),
    ∃ t ∈ ts, dataName .containerLineInfo (trace t).tid pid = name

/-- The rows of a thread after `addr2id`. -/
def ThreadTrace.rows (d : Directory) (t : ThreadTrace) : List (List ℤ) :=
  t.pairs.map fun p => row (translateEntry (buildAddrMap d).1.query p.1) p.2

section Files

variable {d : Directory} {pid : ℤ} {t : ThreadTrace}

lemma map_decode_rewriteFile (am : AddrMap) {name : String} {s : Struct}
    (hname : startsWith name s.kind.filePrefix) (rs : List (Raw s.size)) :
    (Lib.records s.size (rewriteFile am name (joinRecords rs))).map s.decode =
      (rs.map s.decode).map (translateEntry am.query) := by
  have hlist : startsWith name Kind.listAndSet.filePrefix →
      ∀ rs : List (Raw Kind.listAndSet.size),
      (Lib.records Kind.listAndSet.size (rewriteFile am name (joinRecords rs))).map
          (fun r => Entry.listAndSet (readListAndSet r)) =
        (rs.map fun r => Entry.listAndSet (readListAndSet r)).map (translateEntry am.query) := by
    intro hname rs
    have hrecords : Lib.records Kind.listAndSet.size (rewriteFile am name (joinRecords rs)) =
        rs.map (translate .listAndSet am.query listAndSetPass.funcs) :=
      records_rewriteFile am (p := listAndSetPass) (by decide) hname rs
    rw [hrecords, List.map_map, List.map_map]
    exact List.map_congr_left fun r _ => readListAndSet_translate r
  have hmap : startsWith name Kind.map.filePrefix → ∀ rs : List (Raw Kind.map.size),
      (Lib.records Kind.map.size (rewriteFile am name (joinRecords rs))).map
          (fun r => Entry.map (readMap r)) =
        (rs.map fun r => Entry.map (readMap r)).map (translateEntry am.query) := by
    intro hname rs
    have hrecords : Lib.records Kind.map.size (rewriteFile am name (joinRecords rs)) =
        rs.map (translate .map am.query mapPass.funcs) :=
      records_rewriteFile am (p := mapPass) (by decide) hname rs
    rw [hrecords, List.map_map, List.map_map]
    exact List.map_congr_left fun r _ => readMap_translate r
  cases s with
  | listAndSet => exact hlist hname rs
  | map => exact hmap hname rs

lemma EntriesIn.reads {tid : ℤ} {s : Struct} {cs : List Entry}
    (h : EntriesIn (d.read (dataName s.kind tid pid)) s cs) :
    Reads s ((main d).read (dataName s.kind tid pid))
      ((cs.map (translateEntry (buildAddrMap d).1.query)).filter fun c => c.struct = s) := by
  have hname := startsWith_dataName s.kind tid pid
  obtain ⟨rs, hrs, hfile⟩ := h
  rw [filter_translateEntry, ← hrs]
  rcases hfile with hfile | ⟨hnone, rfl⟩
  · exact Or.inl ⟨_, read_main_of_startsWith hname hfile, map_decode_rewriteFile _ hname rs⟩
  · refine Or.inr ⟨?_, rfl⟩
    rw [read_main_of_ne (ne_addrId hname), hnone, Option.map_none]

lemma ThreadTrace.In.lineInfo (h : t.In pid d) :
    (Lib.records (sizeof lineInfoFields)
      (((main d).read (dataName .containerLineInfo t.tid pid)).getD [])).map lineInfoOfRaw =
        Script.lines t.records := by
  have hname := startsWith_dataName .containerLineInfo t.tid pid
  obtain ⟨rs, hrs, hfile⟩ := h.lines
  rw [← hrs]
  have hread : ((main d).read (dataName .containerLineInfo t.tid pid)).getD [] = joinRecords rs := by
    rcases hfile with hfile | ⟨hnone, rfl⟩
    · rw [read_main_of_startsWith hname hfile, rewriteFile_of_not_translated rfl hname,
        Option.getD_some]
    · rw [read_main_of_ne (ne_addrId hname), hnone, Option.map_none, Option.getD_none, joinRecords_nil]
  rw [hread]
  exact congrArg (List.map readLineInfo) (records_joinRecords (Kind.size_pos .containerLineInfo) rs)

/-- **The rows of one thread.** -/
theorem threadRows_main (h : t.In pid d) :
    threadRows (main d) (toString pid) (dataName .containerLineInfo t.tid pid) = t.rows d := by
  have hlist := (h.entries .listAndSet).reads
  have hmap := (h.entries .map).reads
  rw [← containers_translateAll] at hlist hmap
  have hrows := records_paired (t.paired.translate (q := (buildAddrMap d).1.query))
    (by rw [stamp_translateAll]; exact t.increasing) (h.lineInfo.trans lines_translateAll.symm)
    hlist hmap
  unfold threadRows
  dsimp only
  rw [tidOf_dataName, listAndSetName, mapName]
  refine hrows.trans ?_
  rw [List.map_map]
  rfl

lemma ThreadTrace.In.rows_eq_nil (h : t.In pid d)
    (hno : dataName .containerLineInfo t.tid pid ∉ lineFiles d (toString pid)) : t.rows d = [] := by
  have hmatch : globMatches "ContainerLineInfo-" ("-" ++ toString pid)
      (dataName .containerLineInfo t.tid pid) := by
    have hfirst : "ContainerLineInfo-".toList = "ContainerLineInfo".toList ++ ['-'] := by decide
    refine globMatches_iff.mpr ⟨(toString t.tid).toList, ?_⟩
    rw [toList_dataName, hfirst, List.append_cons]
  have hread : d.read (dataName .containerLineInfo t.tid pid) = none := by
    by_contra hsome
    obtain ⟨bs, hbs⟩ := Option.ne_none_iff_exists'.mp hsome
    have hmem : dataName .containerLineInfo t.tid pid ∈ d.names :=
      List.mem_map_of_mem (Directory.read_eq_some_iff.mp hbs)
    exact hno (List.mem_filter.mpr ⟨hmem, hmatch⟩)
  obtain ⟨rs, hrs, hfile⟩ := h.lines
  rw [hread] at hfile
  obtain ⟨-, rfl⟩ := hfile.resolve_left (by simp)
  have hpairs := t.paired.lines_eq
  rw [← hrs, List.map_nil, eq_comm, List.map_eq_nil_iff] at hpairs
  rw [ThreadTrace.rows, hpairs, List.map_nil]

section All

variable {ι : Type*} {trace : ι → ThreadTrace} {ts : List ι}

/-- **The rows of all threads**, one thread after the other. -/
theorem loadContainers_main (h : HoldsThreads trace ts pid d) :
    ∃ order : List ι, order.Perm ts ∧
      loadContainers (main d) (toString pid) = order.flatMap fun t => (trace t).rows d := by
  have hkeys : (ts.map fun t => dataName .containerLineInfo (trace t).tid pid).Nodup := by
    have hinj : Function.Injective fun tid : ℕ => dataName .containerLineInfo (tid : ℤ) pid :=
      fun tid tid' e => Int.ofNat_inj.mp (dataName_inj e).2
    have hnodup := h.distinct.map hinj
    rwa [List.map_map] at hnodup
  rw [loadContainers, lineFiles_main]
  refine exists_perm_flatMap (d.nodup.filter _) hkeys h.only (fun t ht _ => ?_) fun t ht hno => ?_
  · exact threadRows_main (h.files t ht)
  · exact (h.files t ht).rows_eq_nil hno

/-! ### The data base -/

lemma loadOps_main (d : Directory) : loadOps (main d) = loadOps d := by
  have haddrId : globMatches "containerOp-" "" "addr-id.dat" = false := by decide
  have hfirst : ∀ p ∈ passes, ∃ c cs, p.kind.filePrefix.toList = c :: cs ∧ c ≠ 'c' := by
    intro p hp
    have hcases : ∀ p ∈ passes, p.kind.filePrefix.toList.head?.any (· ≠ 'c') := by decide
    have hany := hcases p hp
    cases hcs : p.kind.filePrefix.toList with
    | nil => simp [hcs] at hany
    | cons c cs => exact ⟨c, cs, rfl, by simpa [hcs] using hany⟩
  unfold loadOps
  rw [names_main_filter haddrId]
  have hread : ∀ name ∈ d.names.filter (globMatches "containerOp-" ""),
      (main d).read name = d.read name := by
    intro name hname
    obtain ⟨cs, hcs⟩ := globMatches_iff.mp (List.mem_filter.mp hname).2
    have hhead : name.toList.head? = some 'c' := by
      rw [hcs]
      rfl
    have hne : name ≠ "addr-id.dat" := by
      rintro rfl
      exact absurd hhead (by decide)
    have hsame : ∀ bs, rewriteFile (buildAddrMap d).1 name bs = bs := by
      refine fun bs => rewriteFile_of_not fun p hp hstarts => ?_
      obtain ⟨c, cs', hprefix, hc⟩ := hfirst p hp
      obtain ⟨rest, hrest⟩ := startsWith_iff.mp hstarts
      rw [← hrest, hprefix] at hhead
      exact hc (Option.some.inj hhead)
    rw [read_main_of_ne hne, funext hsame, Option.map_id']
  rw [List.map_congr_left hread]

lemma fitsInteger_natCast {n : ℕ} (h : n < 2 ^ 63) : FitsInteger n := by
  unfold FitsInteger
  omega

lemma fitsInteger_row {e : Entry} (h : e.br.time.toNat < 2 ^ 63) (r2 : ContainerLineInfoRecord) :
    ∀ v ∈ row e r2, FitsInteger v := by
  have h32 : ∀ n : UInt32, FitsInteger n.toNat := fun n =>
    fitsInteger_natCast (n.toNat_lt.trans (by norm_num))
  have h16 : ∀ n : UInt16, FitsInteger n.toNat := fun n =>
    fitsInteger_natCast (n.toNat_lt.trans (by norm_num))
  have hminus : FitsInteger (-1) := by decide
  have htime : FitsInteger e.br.time.toNat := fitsInteger_natCast h
  cases e with
  | listAndSet r => simp [row, Entry.data4sql, lineData4sql, h32, h16, hminus, htime]
  | map r => simp [row, Entry.data4sql, lineData4sql, h32, h16, htime]

lemma fitsInteger_lineNums (l : Addr.AddrIdLine) : ∀ v ∈ lineNums l, FitsInteger v := by
  have h32 : ∀ n : Int32, FitsInteger n.toInt := fun n => by
    have hle := n.le_toInt
    have hlt := n.toInt_lt
    unfold FitsInteger
    omega
  have h16 : ∀ n : UInt16, FitsInteger n.toNat := fun n =>
    fitsInteger_natCast (n.toNat_lt.trans (by norm_num))
  simp [lineNums, h32, h16]

/-- **The whole data base.** After `addr2id` the script adds to the tables, in one transaction, the rows
of all threads, one row for every NEW record, and the operations. -/
theorem buildContainerDb_main (h : HoldsThreads trace ts pid d)
    (htimes : ∀ t ∈ ts, ∀ p ∈ (trace t).pairs, p.1.br.time.toNat < 2 ^ 63)
    {ops : List (ℤ × List Char)} (hops : loadOps d = some ops)
    (hfits : ∀ op ∈ ops, FitsInteger op.1) (db : ContainerDb) :
    ∃ order : List ι, order.Perm ts ∧
      buildContainerDb (main d) (toString pid) db = some
        { containers := db.containers ++ order.flatMap fun t => (trace t).rows d
          allocations := db.allocations ++ (buildAddrMap d).2.map lineNums
          containerOp := db.containerOp ++ ops } := by
  obtain ⟨order, hperm, hrows⟩ := loadContainers_main h
  refine ⟨order, hperm, ?_⟩
  have hpid : pyInt (toString pid).toList = some pid := pyInt_digits pid
  have hvalues : ∀ r ∈ (order.flatMap fun t => (trace t).rows d) ++ (buildAddrMap d).2.map lineNums,
      ∀ v ∈ r, FitsInteger v := by
    intro r hr
    rcases List.mem_append.mp hr with hr | hr
    · obtain ⟨t, ht, hr⟩ := List.mem_flatMap.mp hr
      obtain ⟨p, hp, rfl⟩ := List.mem_map.mp hr
      refine fitsInteger_row ?_ p.2
      have htime := htimes t (hperm.subset ht) p hp
      cases hp1 : p.1 <;> rw [hp1] at htime <;> exact htime
    · obtain ⟨l, -, rfl⟩ := List.mem_map.mp hr
      exact fitsInteger_lineNums l
  unfold buildContainerDb
  rw [hpid, hrows, read_main_addrId, Option.bind_some, loadAllocations_renderLines, loadOps_main, hops]
  exact if_pos ⟨hvalues, hfits⟩

end All

end Files

end Cinst.Script
