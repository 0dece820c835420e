import Cinst.Native.Lifetimes
import Cinst.Native.TagAttribution
import Cinst.Script.Loader

/-!
The files of a process in tag mode. Every record that a thread adds goes to the recorder of its type,
and the destructors of the recorders leave the records of each thread in its files
(`saved_of_run`), as far as no two threads with one tid write the same file.
-/

namespace Cinst.Native

open Cinst.Lib Cinst.Record Cinst.Trace
open Cinst.Script (Struct FileOf EntriesIn globMatches lineFiles readLineInfo readListAndSet readMap
  ofRaw_toRaw readListAndSet_toRaw readMap_toRaw readLineInfo_toRaw)

/-! ### What the recorders are given -/

/-- The record of a type that an action adds under a tid. -/
def LifeAct.record? (tid : ℤ) (k : Kind) : LifeAct → Option (Raw k.size)
  | .add t k' r => if h : k' = k then if t = tid then some (h ▸ r) else none else none
  | .start _ | .exit _ => none

lemma record?_self (tid : ℤ) {k : Kind} (r : Raw k.size) :
    LifeAct.record? tid k (.add tid k r) = some r := by
  rw [LifeAct.record?, dif_pos rfl, if_pos rfl]

lemma record?_of_not {t tid : ℤ} {k k' : Kind} (h : ¬ (t = tid ∧ k' = k)) (r : Raw k'.size) :
    LifeAct.record? tid k (.add t k' r) = none := by
  rw [LifeAct.record?]
  split_ifs with hk ht
  · exact absurd ⟨ht, hk⟩ h
  · rfl
  · rfl

/-- A record is added. -/
def LifeAct.isAdd : LifeAct → Bool
  | .add .. => true
  | .start _ | .exit _ => false

/-- The tid under which a thread starts. -/
def LifeAct.started? : LifeAct → Option ℤ
  | .start t => some t
  | .add .. | .exit _ => none

lemma length_sessions (tid : ℤ) (k : Kind) (acts : List LifeAct) :
    (sessions tid k acts).length = (acts.filterMap LifeAct.started?).count tid := by
  have hadd : ∀ (r : Raw k.size) ss, (sessionAdd r ss).length = ss.length := by
    rintro r (_ | ⟨s, ss⟩) <;> rfl
  induction acts using List.reverseRecOn with
  | nil => rfl
  | append_singleton acts a ih =>
    rw [sessions_snoc, List.filterMap_append, List.count_append, ← ih]
    cases a with
    | start t =>
      by_cases ht : t = tid <;> simp [sessionStep, LifeAct.started?, ht]
    | exit t => simp [sessionStep, List.filterMap_cons, LifeAct.started?]
    | add t k' r =>
      by_cases htk : t = tid ∧ k' = k
      · obtain ⟨rfl, rfl⟩ := htk
        simp [sessionStep, List.filterMap_cons, LifeAct.started?, hadd]
      · simp [sessionStep, List.filterMap_cons, LifeAct.started?, htk]

/-- No tid is used twice. -/
theorem oneWriter_of_nodup {acts : List LifeAct} (h : (acts.filterMap LifeAct.started?).Nodup) :
    OneWriter acts := by
  intro tid k
  calc ((sessions tid k acts).filter (· ≠ [])).length ≤ (sessions tid k acts).length :=
        List.length_filter_le ..
    _ = (acts.filterMap LifeAct.started?).count tid := length_sessions tid k acts
    _ ≤ 1 := List.nodup_iff_count_le_one.mp h tid

section Recorders

variable {pid : ℤ} {limit : Kind → ℕ+} {acts : List LifeAct} {p : Lives}

/-- Everything that was added under a tid, action by action. -/
theorem addedRecords_eq (h : run (Lives.step pid limit) Lives.init acts = some p) (tid : ℤ)
    (k : Kind) : addedRecords tid k acts = acts.filterMap (LifeAct.record? tid k) := by
  refine run_invariant
    (fun acts _ => addedRecords tid k acts = acts.filterMap (LifeAct.record? tid k)) rfl ?_ h
  intro as s a s' hrun ih hstep
  rw [List.filterMap_append, ← ih, addedRecords, sessions_snoc, addedRecords]
  cases a with
  | start t =>
    by_cases ht : t = tid <;> simp [sessionStep, ht, LifeAct.record?]
  | exit t => simp [sessionStep, LifeAct.record?]
  | add t k' r =>
    by_cases htk : t = tid ∧ k' = k
    · obtain ⟨rfl, rfl⟩ := htk
      obtain ⟨rs, hlive, -⟩ := Option.map_eq_some_iff.mp hstep
      -- a thread that adds a record has been started
      obtain ⟨-, x, xs, hsessions, -⟩ := (fileState_run hrun t k').of_some hlive
      simp [sessionStep, hsessions, sessionAdd, LifeAct.record?]
    · have hnone := record?_of_not htk r
      simp [sessionStep, htk, hnone]

lemma fileOf_kept {size : ℕ} (hsize : 0 < size) {ss : List (List (Raw size))}
    (h : (ss.filter (· ≠ [])).length ≤ 1) : FileOf ss.reverse.flatten (kept ss) := by
  have hbytes := (kept_eq_iff hsize ss).mpr h
  cases hkept : kept ss with
  | some bs =>
    rw [hkept, Option.getD_some] at hbytes
    exact Or.inl (congrArg some hbytes)
  | none =>
    refine Or.inr ⟨rfl, ?_⟩
    have hnil := List.find?_eq_none.mp (Option.map_eq_none_iff.mp hkept)
    rw [List.flatten_eq_nil_iff]
    intro l hl
    simpa using hnil l (List.mem_reverse.mp hl)

/-- The file of a tid and a record type, after all threads have exited. -/
theorem fileOf_exited (h : run (Lives.step pid limit) Lives.init acts = some p)
    (hexit : ∀ tid, p.live tid = none) (hone : OneWriter acts) (tid : ℤ) (k : Kind) :
    FileOf (acts.filterMap (LifeAct.record? tid k)) (p.files.read (dataName k tid pid)) := by
  rw [← addedRecords_eq h, read_of_exited h (hexit tid) k]
  exact fileOf_kept (Kind.size_pos k) (hone tid k)

lemma exists_record_of_read (h : run (Lives.step pid limit) Lives.init acts = some p)
    (hexit : ∀ tid, p.live tid = none) {tid : ℤ} {k : Kind}
    (hread : p.files.read (dataName k tid pid) ≠ none) : ∃ r, .add tid k r ∈ acts := by
  rw [read_of_exited h (hexit tid) k] at hread
  obtain ⟨bs, hbs⟩ := Option.ne_none_iff_exists'.mp hread
  obtain ⟨l, hl, -⟩ := Option.map_eq_some_iff.mp hbs
  have hne : l ≠ [] := by simpa using List.find?_some hl
  obtain ⟨x, hx⟩ := List.exists_mem_of_ne_nil l hne
  have hmem : x ∈ addedRecords tid k acts :=
    List.mem_flatten.mpr ⟨l, List.mem_reverse.mpr (List.mem_of_find?_eq_some hl), hx⟩
  rw [addedRecords_eq h] at hmem
  obtain ⟨a, ha, hrec⟩ := List.mem_filterMap.mp hmem
  cases a with
  | start t | exit t => cases hrec
  | add t k' r =>
    by_cases htk : t = tid ∧ k' = k
    · obtain ⟨rfl, rfl⟩ := htk
      exact ⟨r, ha⟩
    · rw [record?_of_not htk] at hrec
      cases hrec

end Recorders

/-! ### The records of the process -/

/-- The bytes of a record in memory, where `mem` is what was there before the fields were set. What
the records of the other types look like does not matter here. -/
inductive TagRecord.Written : TagRecord → (k : Kind) → Raw k.size → Prop
  | new (r : NewRecord) (mem : Raw Kind.new.size) : TagRecord.Written (.new r) .new (r.toRaw mem)
  | listAndSet (r : ListAndSetRecord) (mem : Raw Kind.listAndSet.size) :
      TagRecord.Written (.container (.listAndSet r)) .listAndSet (r.toRaw mem)
  | map (r : MapRecord) (mem : Raw Kind.map.size) :
      TagRecord.Written (.container (.map r)) .map (r.toRaw mem)
  | lineInfo (r : ContainerLineInfoRecord) (mem : Raw Kind.containerLineInfo.size) :
      TagRecord.Written (.lineInfo r) .containerLineInfo (r.toRaw mem)
  | construct (r : ConstructRecord) (raw : Raw Kind.construct.size) :
      TagRecord.Written (.construct r) .construct raw
  | putField (r : PutFieldRecord) (raw : Raw Kind.putField.size) :
      TagRecord.Written (.putField r) .putField raw
  | aaStore (r : AAStoreRecord) (raw : Raw Kind.aaStore.size) :
      TagRecord.Written (.aaStore r) .aaStore raw
  | use (r : UseRecord) (raw : Raw Kind.use.size) : TagRecord.Written (.use r) .use raw

section Process

variable {Tid Obj : Type*}

/-- The action that adds a record, when `tid` is the number of a thread. -/
def Writes (tid : Tid → ℕ) (a : Added Tid Obj) : LifeAct → Prop
  | .add t k raw => t = tid a.tid ∧ a.record.Written k raw
  | .start _ | .exit _ => False

/-- The NEW record. -/
def TagRecord.newRecord? : TagRecord → Option NewRecord
  | .new r => some r
  | _ => none

/-- The container record of a structure. -/
def TagRecord.entry? (s : Struct) : TagRecord → Option Entry
  | .container e => if e.struct = s then some e else none
  | _ => none

/-- The line record. -/
def TagRecord.lineRecord? : TagRecord → Option ContainerLineInfoRecord
  | .lineInfo r => some r
  | _ => none

variable {tid : Tid → ℕ} {added : List (Added Tid Obj)} {acts : List LifeAct}

/-- The records of one type under the tid of a thread are the records of the thread of this type. -/
theorem map_record?_eq [DecidableEq Tid] (hinj : Function.Injective tid)
    (h : List.Forall₂ (Writes tid) added (acts.filter LifeAct.isAdd)) (t : Tid) {k : Kind}
    {β : Type*} {decode : Raw k.size → β} {f : TagRecord → Option β}
    (hsame : ∀ (r : TagRecord) raw, r.Written k raw → f r = some (decode raw))
    (hother : ∀ (r : TagRecord) k' raw, r.Written k' raw → k' ≠ k → f r = none) :
    (acts.filterMap (LifeAct.record? (tid t) k)).map decode =
      (added.filter fun a => a.tid = t).filterMap fun a => f a.record := by
  have hadds : acts.filterMap (LifeAct.record? (tid t) k) =
      (acts.filter LifeAct.isAdd).filterMap (LifeAct.record? (tid t) k) := by
    rw [List.filterMap_filter]
    congr 1
    funext a
    cases a <;> rfl
  rw [hadds]
  generalize acts.filter LifeAct.isAdd = adds at h
  induction h with
  | nil => rfl
  | @cons a act added adds hwrites _ ih =>
    cases act with
    | start | exit => cases hwrites
    | add t' k' raw =>
      obtain ⟨rfl, hwritten⟩ := hwrites
      by_cases ht : a.tid = t
      · subst ht
        rw [List.filter_cons_of_pos (by simp)]
        by_cases hk : k' = k
        · subst hk
          have hf : f a.record = some (decode raw) := hsame _ _ hwritten
          rw [List.filterMap_cons_some (f := fun a : Added Tid Obj => f a.record) hf,
            List.filterMap_cons_some (record?_self _ raw), List.map_cons, ih]
        · have hnone : LifeAct.record? (tid a.tid) k (.add (tid a.tid) k' raw) = none :=
            record?_of_not (fun e => hk e.2) raw
          have hf : f a.record = none := hother _ _ _ hwritten hk
          rw [List.filterMap_cons_none (f := fun a : Added Tid Obj => f a.record) hf,
            List.filterMap_cons_none hnone, ih]
      · have htid : ¬ ((tid a.tid : ℤ) = tid t ∧ k' = k) := fun e =>
          ht (hinj (Int.ofNat_inj.mp e.1))
        have hnone := record?_of_not htid raw
        rw [List.filter_cons_of_neg (by simpa using ht), List.filterMap_cons_none hnone, ih]

end Process

/-! ### The directory -/

section Saved

variable {Tid Obj : Type*} [DecidableEq Tid]

/-- The NEW records of a thread. -/
def newsOf (t : Tid) (s : TagProcess Tid Obj) : List NewRecord :=
  (s.added.filter fun a => a.tid = t).filterMap fun a => a.record.newRecord?

/-- A directory with the NEW, container and line files of a process in tag mode, and no other files
that look like them. -/
structure Saved (tid : Tid → ℕ) (pid : ℤ) (s : TagProcess Tid Obj) (d : Directory) : Prop where
  news : ∀ t, ∃ rs : List (Raw Kind.new.size), rs.map NewRecord.ofRaw = newsOf t s ∧
    FileOf rs (d.read (dataName .new (tid t) pid))
  entries : ∀ t (st : Struct), EntriesIn (d.read (dataName st.kind (tid t) pid)) st
    (Script.containers (viewOf t s).records)
  lines : ∀ t, ∃ rs : List (Raw Kind.containerLineInfo.size),
    rs.map readLineInfo = Script.lines (viewOf t s).records ∧
      FileOf rs (d.read (dataName .containerLineInfo (tid t) pid))
  newNames : ∀ name ∈ filesStartWith d "NEW", ∃ a ∈ s.added, dataName .new (tid a.tid) pid = name
  lineNames : ∀ name ∈ lineFiles d (toString pid),
    ∃ a ∈ s.added, dataName .containerLineInfo (tid a.tid) pid = name
  gcNames : filesStartWith d "gc" = []

/-- The directory `d` has the data files of the process as they are in `files`, and perhaps other
files, but no others that `addr2id` and the script take for files of NEW records, relocations or
lines. -/
structure HoldsFiles (pid : ℤ) (files d : Directory) : Prop where
  read : ∀ k tid, d.read (dataName k tid pid) = files.read (dataName k tid pid)
  names : ∀ name ∈ d.names, startsWith name "NEW" ∨ startsWith name "gc" ∨
    globMatches "ContainerLineInfo-" ("-" ++ toString pid) name → ∃ k tid, name = dataName k tid pid

variable {tid : Tid → ℕ} {pid : ℤ} {limit : Kind → ℕ+} {acts : List LifeAct} {p : Lives}
  {s : TagProcess Tid Obj} {d : Directory}

omit [DecidableEq Tid] in
lemma HoldsFiles.exists_added (h : HoldsFiles pid p.files d)
    (hrun : run (Lives.step pid limit) Lives.init acts = some p) (hexit : ∀ tid, p.live tid = none)
    (hwrites : List.Forall₂ (Writes tid) s.added (acts.filter LifeAct.isAdd)) {k : Kind} {t : ℤ}
    (hmem : dataName k t pid ∈ d.names) :
    ∃ a ∈ s.added, t = tid a.tid ∧ ∃ raw, a.record.Written k raw := by
  obtain ⟨f, hf, hname⟩ := List.mem_map.mp hmem
  have hread : p.files.read (dataName k t pid) ≠ none := by
    rw [← h.read, ← hname, Directory.read_eq_some_iff.mpr hf]
    simp
  obtain ⟨raw, hadd⟩ := exists_record_of_read hrun hexit hread
  have hmem' : LifeAct.add t k raw ∈ acts.filter LifeAct.isAdd := List.mem_filter.mpr ⟨hadd, rfl⟩
  obtain ⟨i, hi⟩ := List.mem_iff_getElem?.mp hmem'
  obtain ⟨a, ha, hw⟩ := forall₂_getElem? (List.Forall₂.flip (R := flip (Writes tid)) hwrites) hi
  exact ⟨a, List.mem_of_getElem? ha, hw.1, raw, hw.2⟩

omit [DecidableEq Tid] in
lemma kind_of_startsWith {k k' : Kind} {t : ℤ} (h : startsWith (dataName k t pid) k'.filePrefix) :
    k = k' :=
  kind_unique (startsWith_dataName k t pid) h

lemma containers_viewOf (t : Tid) (s : TagProcess Tid Obj) (st : Struct) :
    (Script.containers (viewOf t s).records).filter (fun c => c.struct = st) =
      (s.added.filter fun a => a.tid = t).filterMap fun a => a.record.entry? st := by
  unfold viewOf Script.containers
  rw [List.filterMap_filterMap, List.filter_filterMap]
  congr 1
  funext a
  cases a.record <;> simp [TagRecord.logged?, TagRecord.entry?, Option.filter]

lemma lines_viewOf (t : Tid) (s : TagProcess Tid Obj) : Script.lines (viewOf t s).records =
    (s.added.filter fun a => a.tid = t).filterMap fun a => a.record.lineRecord? := by
  unfold viewOf Script.lines
  rw [List.filterMap_filterMap]
  congr 1
  funext a
  cases a.record <;> rfl

/-- **The recorders save the records of the process**, each thread its own. -/
theorem saved_of_run (hinj : Function.Injective tid)
    (hrun : run (Lives.step pid limit) Lives.init acts = some p) (hexit : ∀ tid, p.live tid = none)
    (hone : OneWriter acts) (hwrites : List.Forall₂ (Writes tid) s.added (acts.filter LifeAct.isAdd))
    (hd : HoldsFiles pid p.files d) : Saved tid pid s d where
  news t := by
    refine ⟨acts.filterMap (LifeAct.record? (tid t) .new), ?_, ?_⟩
    · refine map_record?_eq hinj hwrites t (f := TagRecord.newRecord?) (fun _ _ h => ?_) ?_
      · cases h with
        | new r mem => exact congrArg some (ofRaw_toRaw mem r).symm
      · rintro _ _ _ ⟨⟩ hk <;> first | rfl | exact absurd rfl hk
    · rw [hd.read]
      exact fileOf_exited hrun hexit hone ..
  entries t st := by
    have hfile : FileOf (acts.filterMap (LifeAct.record? (tid t) st.kind))
        (d.read (dataName st.kind (tid t) pid)) := by
      rw [hd.read]
      exact fileOf_exited hrun hexit hone ..
    unfold EntriesIn
    rw [containers_viewOf]
    cases st with
    | listAndSet =>
      have hlist : (acts.filterMap (LifeAct.record? (tid t) .listAndSet)).map
          (fun r => Entry.listAndSet (readListAndSet r)) = _ :=
        map_record?_eq hinj hwrites t (f := TagRecord.entry? .listAndSet) (fun _ _ h => by
          cases h with
          | listAndSet r mem =>
            exact congrArg (fun r => some (Entry.listAndSet r)) (readListAndSet_toRaw mem r).symm)
          (by rintro _ _ _ ⟨⟩ hk <;> first | rfl | exact absurd rfl hk)
      exact ⟨_, hlist, hfile⟩
    | map =>
      have hmap : (acts.filterMap (LifeAct.record? (tid t) .map)).map
          (fun r => Entry.map (readMap r)) = _ :=
        map_record?_eq hinj hwrites t (f := TagRecord.entry? .map) (fun _ _ h => by
          cases h with
          | map r mem => exact congrArg (fun r => some (Entry.map r)) (readMap_toRaw mem r).symm)
          (by rintro _ _ _ ⟨⟩ hk <;> first | rfl | exact absurd rfl hk)
      exact ⟨_, hmap, hfile⟩
  lines t := by
    refine ⟨acts.filterMap (LifeAct.record? (tid t) .containerLineInfo), ?_, ?_⟩
    · rw [lines_viewOf]
      refine map_record?_eq hinj hwrites t (f := TagRecord.lineRecord?) (fun _ _ h => ?_) ?_
      · cases h with
        | lineInfo r mem => exact congrArg some (readLineInfo_toRaw mem r).symm
      · rintro _ _ _ ⟨⟩ hk <;> first | rfl | exact absurd rfl hk
    · rw [hd.read]
      exact fileOf_exited hrun hexit hone ..
  newNames name hname := by
    obtain ⟨hmem, hstarts⟩ := List.mem_filter.mp hname
    obtain ⟨k, t, rfl⟩ := hd.names name hmem (Or.inl hstarts)
    obtain rfl : k = .new := kind_of_startsWith hstarts
    obtain ⟨a, ha, rfl, -⟩ := hd.exists_added hrun hexit hwrites hmem
    exact ⟨a, ha, rfl⟩
  lineNames name hname := by
    obtain ⟨hmem, hglob⟩ := List.mem_filter.mp hname
    obtain ⟨k, t, rfl⟩ := hd.names name hmem (Or.inr (Or.inr hglob))
    obtain ⟨cs, hcs⟩ := Script.globMatches_iff.mp hglob
    have hprefix : Kind.containerLineInfo.filePrefix.toList <+: "ContainerLineInfo-".toList := by decide
    have hstarts : startsWith (dataName k t pid) Kind.containerLineInfo.filePrefix := by
      rw [startsWith_iff, hcs]
      exact hprefix.trans (List.prefix_append ..)
    obtain rfl : k = .containerLineInfo := kind_of_startsWith hstarts
    obtain ⟨a, ha, rfl, -⟩ := hd.exists_added hrun hexit hwrites hmem
    exact ⟨a, ha, rfl⟩
  gcNames := by
    refine List.filter_eq_nil_iff.mpr fun name hmem hstarts => ?_
    obtain ⟨k, t, rfl⟩ := hd.names name hmem (Or.inr (Or.inl hstarts))
    obtain rfl : k = .gc := kind_of_startsWith hstarts
    obtain ⟨a, -, -, raw, hwritten⟩ := hd.exists_added hrun hexit hwrites hmem
    generalize a.record = record at hwritten
    cases hwritten

end Saved

end Cinst.Native
