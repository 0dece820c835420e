import Cinst.Script.Join

/-!
What the join of `build_container_db.py` does with records of any two time lines.

Two line records that follow each other bound a window of container records. The join gives a row
for a line record exactly when the window before it holds a container record, and then with the
latest one (`joinList_windows`).
-/

namespace Cinst.Script

open Cinst.Lib Cinst.Record

/-- The container records between the previous line record, or the beginning, and `r2`. -/
def window (cs : List Entry) (prev : Option ContainerLineInfoRecord)
    (r2 : ContainerLineInfoRecord) : List Entry :=
  cs.filter fun c => (∀ p ∈ prev, lineTime p < c.time) ∧ c.time < lineTime r2

/-- The latest record of a window. -/
def latest (cs : List Entry) (prev : Option ContainerLineInfoRecord)
    (r2 : ContainerLineInfoRecord) : Option Entry :=
  (window cs prev r2).find? fun c => ∀ c' ∈ window cs prev r2, c'.time ≤ c.time

/-- Every line record whose window is not empty, with the latest record of the window. The first
one of `lines` comes after `prev`. -/
def windowPairs (cs : List Entry) (prev : Option ContainerLineInfoRecord)
    (lines : List ContainerLineInfoRecord) : List (Entry × ContainerLineInfoRecord) :=
  (lines.zip (prev :: lines.map some)).filterMap fun p => (latest cs p.2 p.1).map fun c => (c, p.1)

section Windows

variable {cs us : List Entry} {prev : Option ContainerLineInfoRecord}
  {r2 : ContainerLineInfoRecord} {lines : List ContainerLineInfoRecord}

lemma mem_window {c : Entry} : c ∈ window cs prev r2 ↔
    c ∈ cs ∧ (∀ p ∈ prev, lineTime p < c.time) ∧ c.time < lineTime r2 := by
  simp [window, List.mem_filter]

lemma mem_window_of_latest {c : Entry} (h : latest cs prev r2 = some c) : c ∈ window cs prev r2 :=
  List.mem_of_find?_eq_some h

lemma latest_eq_none (h : ∀ c ∈ cs, lineTime r2 < c.time) : latest cs prev r2 = none := by
  have hnil : window cs prev r2 = [] := by
    refine List.eq_nil_iff_forall_not_mem.mpr fun c hc => ?_
    obtain ⟨hmem, -, hlt⟩ := mem_window.mp hc
    have := h c hmem
    omega
  rw [latest, hnil]
  rfl

lemma latest_eq_some {c : Entry} (hc : c ∈ window cs prev r2)
    (h : ∀ c' ∈ window cs prev r2, c' ≠ c → c'.time < c.time) : latest cs prev r2 = some c := by
  cases hfind : latest cs prev r2 with
  | none =>
    have hnot := List.find?_eq_none.mp hfind c hc
    refine absurd (decide_eq_true fun c' hc' => ?_) hnot
    by_cases he : c' = c
    · rw [he]
    · exact (h c' hc' he).le
  | some d =>
    by_cases he : d = c
    · rw [he]
    · have hmax := List.find?_some hfind
      rw [decide_eq_true_eq] at hmax
      have hle := hmax c hc
      have hlt := h d (mem_window_of_latest hfind) he
      omega

lemma windowPairs_nil : windowPairs cs prev [] = [] := rfl

lemma windowPairs_cons :
    windowPairs cs prev (r2 :: lines) =
      ((latest cs prev r2).map fun c => (c, r2)).toList ++ windowPairs cs (some r2) lines := by
  rw [windowPairs, List.map_cons, List.zip_cons_cons, List.filterMap_cons]
  cases latest cs prev r2 <;> rfl

lemma window_append {p : ContainerLineInfoRecord} (h : ∀ u ∈ us, u.time ≤ lineTime p) :
    window (us ++ cs) (some p) r2 = window cs (some p) r2 := by
  have hnil : window us (some p) r2 = [] := by
    refine List.eq_nil_iff_forall_not_mem.mpr fun u hu => ?_
    obtain ⟨hmem, hlt, -⟩ := mem_window.mp hu
    have := h u hmem
    have := hlt p rfl
    omega
  rw [window, List.filter_append]
  rw [window] at hnil
  rw [hnil]
  rfl

lemma windowPairs_append {p : ContainerLineInfoRecord} (h : ∀ u ∈ us, u.time ≤ lineTime p)
    (hl : (p :: lines).Pairwise fun l l' => lineTime l < lineTime l') :
    windowPairs (us ++ cs) (some p) lines = windowPairs cs (some p) lines := by
  induction lines generalizing p with
  | nil => rfl
  | cons r2 lines ih =>
    obtain ⟨hp, hl⟩ := List.pairwise_cons.mp hl
    have hlt := hp r2 (by simp)
    rw [windowPairs_cons, windowPairs_cons, latest, latest, window_append h,
      ih (fun u hu => (h u hu).trans hlt.le) hl]

/-! ### The order of the pairs -/

lemma time_lt_of_mem {p : Entry × ContainerLineInfoRecord} (h : p ∈ windowPairs cs prev lines) :
    p.1.time < lineTime p.2 := by
  induction lines generalizing prev with
  | nil => cases h
  | cons r2 lines ih =>
    rw [windowPairs_cons, List.mem_append, Option.mem_toList, Option.map_eq_some_iff] at h
    rcases h with ⟨c, hc, rfl⟩ | h
    · exact (mem_window.mp (mem_window_of_latest hc)).2.2
    · exact ih h

lemma lt_time_of_mem {l : ContainerLineInfoRecord} {p : Entry × ContainerLineInfoRecord}
    (hl : (l :: lines).Pairwise fun l l' => lineTime l < lineTime l')
    (h : p ∈ windowPairs cs (some l) lines) : lineTime l < p.1.time := by
  induction lines generalizing l with
  | nil => cases h
  | cons r2 lines ih =>
    obtain ⟨hlt, hl⟩ := List.pairwise_cons.mp hl
    rw [windowPairs_cons, List.mem_append, Option.mem_toList, Option.map_eq_some_iff] at h
    rcases h with ⟨c, hc, rfl⟩ | h
    · exact (mem_window.mp (mem_window_of_latest hc)).2.1 l rfl
    · exact (hlt r2 (by simp)).trans (ih hl h)

/-- **The pairs do not overlap**: the next container record comes after the line record. -/
theorem windowPairs_ordered (hl : lines.Pairwise fun l l' => lineTime l < lineTime l') :
    (windowPairs cs prev lines).Pairwise fun p p' => lineTime p.2 < p'.1.time := by
  induction lines generalizing prev with
  | nil => exact List.Pairwise.nil
  | cons r2 lines ih =>
    have hrest : (windowPairs cs (some r2) lines).Pairwise fun p p' => lineTime p.2 < p'.1.time :=
      ih (List.pairwise_cons.mp hl).2
    rw [windowPairs_cons]
    cases latest cs prev r2 with
    | none => exact hrest
    | some c => exact List.pairwise_cons.mpr ⟨fun p hp => lt_time_of_mem hl hp, hrest⟩

/-! ### The join -/

lemma advance_spec {c : Entry} (hs : (c :: cs).Pairwise fun c c' => c.time < c'.time)
    (hc : c.time < lineTime r2) (hne : ∀ x ∈ cs, x.time ≠ lineTime r2) :
    ∃ us, c :: cs = us ++ (advance r2 c cs).1 :: (advance r2 c cs).2 ∧
      (advance r2 c cs).1.time < lineTime r2 ∧
      ∀ x ∈ (advance r2 c cs).2, lineTime r2 < x.time := by
  induction cs generalizing c with
  | nil => exact ⟨[], rfl, hc, by simp [advance]⟩
  | cons n cs ih =>
    obtain ⟨hlt, hs⟩ := List.pairwise_cons.mp hs
    have hcn := hlt n (by simp)
    have hn := hne n (by simp)
    rw [advance]
    split
    · rename_i hcond
      obtain ⟨us, hus, hlast, hrest⟩ := ih hs hcond.2 fun x hx => hne x (by simp [hx])
      exact ⟨c :: us, by rw [hus, List.cons_append], hlast, hrest⟩
    · rename_i hcond
      have hlater : lineTime r2 < n.time := by omega
      refine ⟨[], rfl, hc, fun x hx => ?_⟩
      rcases List.mem_cons.mp hx with rfl | hx
      · exact hlater
      · exact hlater.trans ((List.pairwise_cons.mp hs).1 x hx)

/-- The record before which the inner loop has passed is the latest of the window, and the ones
passed over stand in no later window. -/
lemma latest_append {us rest : List Entry} {last : Entry}
    (hs : (us ++ last :: rest).Pairwise fun c c' => c.time < c'.time)
    (hprev : ∀ p ∈ prev, lineTime p < last.time) (hlast : last.time < lineTime r2)
    (hrest : ∀ x ∈ rest, lineTime r2 < x.time) :
    latest (us ++ last :: rest) prev r2 = some last ∧
      ∀ u ∈ us ++ [last], u.time ≤ lineTime r2 := by
  have hbefore : ∀ u ∈ us, u.time < last.time :=
    fun u hu => (List.pairwise_append.mp hs).2.2 u hu last List.mem_cons_self
  constructor
  · refine latest_eq_some (mem_window.mpr ⟨by simp, hprev, hlast⟩) fun c hc hne => ?_
    obtain ⟨hmem, -, hlt⟩ := mem_window.mp hc
    rw [List.mem_append, List.mem_cons] at hmem
    rcases hmem with hmem | hmem | hmem
    · exact hbefore c hmem
    · exact absurd hmem hne
    · exact absurd hlt (hrest c hmem).le.not_gt
  · intro u hu
    rcases List.mem_append.mp hu with hu | hu
    · exact ((hbefore u hu).trans hlast).le
    · rw [List.mem_singleton.mp hu]
      exact hlast.le

/-- **The join takes the latest record of every window.** The induction is on the line records; the
container records that are left all come after the previous line record. -/
theorem joinList_windows (hs : cs.Pairwise fun c c' => c.time < c'.time)
    (hl : lines.Pairwise fun l l' => lineTime l < lineTime l')
    (hne : ∀ c ∈ cs, ∀ l ∈ lines, c.time ≠ lineTime l)
    (hprev : ∀ p ∈ prev, ∀ c ∈ cs, lineTime p < c.time) :
    joinList cs lines = (windowPairs cs prev lines).map fun p => row p.1 p.2 := by
  induction lines generalizing cs prev with
  | nil => rw [joinList_nil_right, windowPairs_nil, List.map_nil]
  | cons r2 lines ih =>
    have hlines := (List.pairwise_cons.mp hl).2
    rw [windowPairs_cons]
    cases cs with
    | nil =>
      have hnone : joinList [] lines =
          (windowPairs [] (some r2) lines).map fun p => row p.1 p.2 :=
        ih (by simp) hlines (by simp) (by simp)
      have hleft : joinList [] lines = [] := by cases lines <;> rfl
      rw [latest_eq_none (by simp), Option.map_none, Option.toList_none, List.nil_append, ← hnone,
        hleft, joinList]
    | cons c cs =>
      have hcr : c.time ≠ lineTime r2 := hne c (by simp) r2 (by simp)
      rw [joinList]
      split
      · -- the window of this line record is empty
        rename_i hgt
        have hlater : ∀ x ∈ c :: cs, lineTime r2 < x.time := by
          intro x hx
          rcases List.mem_cons.mp hx with rfl | hx
          · exact hgt
          · exact (show lineTime r2 < c.time from hgt).trans ((List.pairwise_cons.mp hs).1 x hx)
        rw [latest_eq_none hlater, Option.map_none, Option.toList_none, List.nil_append]
        refine ih hs hlines (fun x hx l hx' => hne x hx l (by simp [hx'])) fun p hp => ?_
        cases hp
        exact hlater
      · rename_i hle
        have hlt : c.time < lineTime r2 := by omega
        obtain ⟨us, hus, hlast, hrest⟩ :=
          advance_spec hs hlt fun x hx => hne x (by simp [hx]) r2 (by simp)
        generalize (advance r2 c cs).1 = last at hus hlast ⊢
        generalize (advance r2 c cs).2 = rest at hus hrest ⊢
        obtain ⟨hlatest, hdone⟩ := latest_append (hus ▸ hs)
          (fun p hp => hprev p hp last (by simp [hus])) hlast hrest
        rw [← hus] at hlatest
        have hsplit : c :: cs = (us ++ [last]) ++ rest := by
          rw [hus, List.append_assoc, List.singleton_append]
        rw [hlatest, Option.map_some, Option.toList_some, List.singleton_append, List.map_cons,
          hsplit, windowPairs_append hdone hl]
        rw [hsplit] at hs hne
        refine congrArg _ (ih (List.pairwise_append.mp hs).2.1 hlines ?_ ?_)
        · exact fun x hx l hl' => hne x (by simp [hx]) l (by simp [hl'])
        · intro p hp
          cases hp
          exact hrest

end Windows

/-! ### The rows of a thread -/

/-- **The rows are the pairs of a line record and the latest record of its window**, in the order of
both times, so that no record stands in two rows. -/
theorem records_windows {cs : List Entry} {lines : List ContainerLineInfoRecord}
    (hs : cs.Pairwise fun c c' => c.time < c'.time)
    (hl : lines.Pairwise fun l l' => lineTime l < lineTime l')
    (hne : ∀ c ∈ cs, ∀ l ∈ lines, c.time ≠ lineTime l)
    {lineInfoBuf : Bytes} {listAndSetBuf mapBuf : Option Bytes}
    (hline : (Lib.records (sizeof lineInfoFields) lineInfoBuf).map lineInfoOfRaw = lines)
    (hlist : Reads .listAndSet listAndSetBuf (cs.filter fun c => c.struct = .listAndSet))
    (hmap : Reads .map mapBuf (cs.filter fun c => c.struct = .map)) :
    records lineInfoBuf listAndSetBuf mapBuf =
        (windowPairs cs none lines).map (fun p => row p.1 p.2) ∧
      (∀ p ∈ windowPairs cs none lines, p.1.time < lineTime p.2) ∧
      (windowPairs cs none lines).Pairwise (fun p p' => lineTime p.2 < p'.1.time) := by
  have hsel := selects_selector hs hlist hmap
  refine ⟨?_, fun p hp => time_lt_of_mem hp, windowPairs_ordered hl⟩
  rw [← joinList_windows hs hl hne (by simp), records]
  split
  · -- without container files there is no container record
    rename_i hnone
    have hcs : cs = [] := by
      refine List.eq_nil_iff_forall_not_mem.mpr fun c hc => ?_
      have hcov := hsel.covered c hc
      simp [selector, hnone] at hcov
    rw [hcs]
    cases lines <;> rfl
  · obtain ⟨hhead, htail⟩ := hsel.read
    rw [hhead, joinLoop_eq htail, hline]

/-- Operations at the times `20`, `30`, `60` and `80`, and lines at `10`, `40`, `50` and `70`. -/
def sampleEntries : List Entry :=
  let br (time : Time) : ContainerRecord := ⟨7, 8, 1, 2, time, 3⟩
  [.listAndSet ⟨br 20, 4⟩, .map ⟨br 30, 5, 6⟩, .listAndSet ⟨br 60, 9⟩, .map ⟨br 80, 5, 6⟩]

/-- The lines. -/
def sampleLines : List ContainerLineInfoRecord := [⟨1, 0, 10⟩, ⟨2, 0, 40⟩, ⟨3, 0, 50⟩, ⟨4, 0, 70⟩]

/-- The files of these records. -/
def sampleFile {α : Type} {size : ℕ} (toRaw : Raw size → α → Raw size) (rs : List α) : Bytes :=
  joinRecords (rs.map (toRaw (Raw.ofBytes size [])))

theorem records_windows_sample :
    records (sampleFile ContainerLineInfoRecord.toRaw sampleLines)
        (some (sampleFile ListAndSetRecord.toRaw [⟨⟨7, 8, 1, 2, 20, 3⟩, 4⟩, ⟨⟨7, 8, 1, 2, 60, 3⟩, 9⟩]))
        (some (sampleFile MapRecord.toRaw
          [⟨⟨7, 8, 1, 2, 30, 3⟩, 5, 6⟩, ⟨⟨7, 8, 1, 2, 80, 3⟩, 5, 6⟩])) =
      [[7, 8, 1, 2, 30, 3, 5, 6, 2, 0], [7, 8, 1, 2, 60, 3, 9, -1, 4, 0]] :=
  (@records_windows sampleEntries sampleLines (by decide) (by decide) (by decide) _ _ _ (by decide)
    (Or.inl ⟨_, rfl, by decide⟩) (Or.inl ⟨_, rfl, by decide⟩)).1.trans (by decide)

end Cinst.Script
