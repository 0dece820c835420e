import Mathlib
import Cinst.Lib.Run
import Cinst.Record.Recorder
import Cinst.Trace.Addr2id

/-!
The recorders over the life of a process: every thread has a `Recorder` for each record type, and a
thread that exits destroys them. The system may give its tid to a new thread.

The name of a file is made of the record type, the tid and the pid only. So the recorders of two
threads with one tid write the same file, and the later one empties it: what is kept of a tid is
what the last thread that recorded anything has added (`read_of_exited`).
-/

namespace Cinst.Native

open Cinst.Lib Cinst.Record Cinst.Trace

/-! ### The process -/

/-- The record types, all of which have a recorder per thread: those of `native.cpp` in the order
they are declared, and those of the `memmove` hook. -/
def recorderKinds : List Kind :=
  [ .putField, .new, .construct, .aaStore, .use, .free, .listAndSet, .map, .containerLineInfo,
    .fieldValue false false true, .fieldValue false true true, .fieldValue true false true,
    .fieldValue true true true, .fieldValue false false false, .fieldValue false true false,
    .fieldValue true false false, .fieldValue true true false,
    .stringFieldValue false, .stringFieldValue true,
    .staticFieldValue false false true, .staticFieldValue false true true,
    .staticFieldValue true false true, .staticFieldValue true true true,
    .staticFieldValue false false false, .staticFieldValue false true false,
    .staticFieldValue true false false, .staticFieldValue true true false,
    .staticStringFieldValue false, .staticStringFieldValue true, .event, .gc ]

lemma mem_recorderKinds : ∀ k, k ∈ recorderKinds := by decide

lemma recorderKinds_nodup : recorderKinds.Nodup := by decide

/-- The recorders of a thread. -/
abbrev Recorders := (k : Kind) → Recorder k.size

/-- What happens in a process: a thread starts under a tid, adds a record, or exits. -/
inductive LifeAct where
  | start (tid : ℤ)
  | add (tid : ℤ) (k : Kind) (r : Raw k.size)
  | exit (tid : ℤ)

/-- The files in the directory of the process, and the threads by their tid. -/
structure Lives where
  files : Directory
  live : ℤ → Option Recorders

/-- The destructors of the recorders of a thread, in the reverse order of their construction. -/
def Recorders.destroy (rs : Recorders) (d : Directory) : Directory :=
  recorderKinds.reverse.foldl (fun d k => (rs k).destroy d) d

section Lives

variable (pid : ℤ) (limit : Kind → ℕ+)

/-- The recorders of a new thread. -/
def Recorders.create (tid : ℤ) : Recorders :=
  fun k => Recorder.create k.size (limit k) (dataName k tid pid)

namespace Lives

/-- The process at its start. -/
def init : Lives := ⟨Directory.empty, fun _ => none⟩

/-- One step. A tid is given to a new thread when no live thread carries it. -/
def step (p : Lives) : LifeAct → Option Lives
  | .start tid =>
    match p.live tid with
    | none => some ⟨p.files, Function.update p.live tid (some (Recorders.create pid limit tid))⟩
    | some _ => none
  | .add tid k r =>
    (p.live tid).map fun rs =>
      let added := (rs k).add p.files r
      ⟨added.1, Function.update p.live tid (some (Function.update rs k added.2))⟩
  | .exit tid =>
    (p.live tid).map fun rs => ⟨rs.destroy p.files, Function.update p.live tid none⟩

end Lives

end Lives

/-! ### What is added -/

/-- A further record of a thread. -/
def sessionAdd {α : Type*} (x : α) : List (List α) → List (List α)
  | [] => []
  | s :: ss => (s ++ [x]) :: ss

/-- The effect of a step on the records of one type that were added under one tid, thread by
thread. -/
def sessionStep (tid : ℤ) (k : Kind) (ss : List (List (Raw k.size))) :
    LifeAct → List (List (Raw k.size))
  | .start t => if t = tid then [] :: ss else ss
  | .add t k' r => if h : t = tid ∧ k' = k then sessionAdd (h.2 ▸ r) ss else ss
  | .exit _ => ss

/-- The records of type `k` that the threads with the given tid added, the last thread first. -/
def sessions (tid : ℤ) (k : Kind) (acts : List LifeAct) : List (List (Raw k.size)) :=
  acts.foldl (sessionStep tid k) []

/-- Everything that was added under a tid, in the order it was added. -/
def addedRecords (tid : ℤ) (k : Kind) (acts : List LifeAct) : List (Raw k.size) :=
  (sessions tid k acts).reverse.flatten

/-- The files hold every record that was ever added. -/
def Complete (pid : ℤ) (acts : List LifeAct) (files : Directory) : Prop :=
  ∀ tid k, (files.read (dataName k tid pid)).getD [] = joinRecords (addedRecords tid k acts)

/-- Of the threads that carried one tid, at most one adds records of the same type. -/
def OneWriter (acts : List LifeAct) : Prop :=
  ∀ tid k, ((sessions tid k acts).filter (· ≠ [])).length ≤ 1

/-! ### Names of files -/

lemma dataName_inj {k k' : Kind} {tid tid' pid : ℤ}
    (h : dataName k tid pid = dataName k' tid' pid) : k = k' ∧ tid = tid' := by
  have hk : k = k' :=
    kind_unique (startsWith_dataName k tid pid) (h ▸ startsWith_dataName k' tid' pid)
  subst hk
  refine ⟨rfl, Int.repr_injective ?_⟩
  have hlist := congrArg String.toList h
  simp only [dataName, String.toList_append, List.append_assoc, List.append_cancel_left_eq] at hlist
  rw [← List.append_assoc, ← List.append_assoc, List.append_cancel_right_eq,
    List.append_cancel_right_eq] at hlist
  exact String.toList_injective hlist

/-! ### What is kept -/

/-- What the threads of a tid leave in their file: the records of the last one that added any. -/
def kept {size : ℕ} (ss : List (List (Raw size))) : Option Bytes :=
  (ss.find? (· ≠ [])).map joinRecords

section Kept

variable {size : ℕ}

lemma kept_cons (s : List (Raw size)) (ss : List (List (Raw size))) :
    kept (s :: ss) = if s = [] then kept ss else some (joinRecords s) := by
  unfold kept
  by_cases h : s = []
  · rw [if_pos h, List.find?_cons_of_neg (by simpa using h)]
  · rw [if_neg h, List.find?_cons_of_pos (by simpa using h), Option.map_some]

lemma kept_eq_iff (hsize : 0 < size) (ss : List (List (Raw size))) :
    (kept ss).getD [] = joinRecords ss.reverse.flatten ↔ (ss.filter (· ≠ [])).length ≤ 1 := by
  induction ss with
  | nil => simp [kept]
  | cons s ss ih =>
    rw [kept_cons, List.reverse_cons, List.flatten_append, List.flatten_singleton]
    by_cases hs : s = []
    · rw [if_pos hs, hs, List.append_nil, List.filter_cons_of_neg (by simp)]
      exact ih
    · have hlen : joinRecords s = joinRecords (ss.reverse.flatten ++ s) ↔ ss.reverse.flatten = [] := by
        constructor
        · intro h
          have hl := congrArg List.length h
          rw [length_joinRecords, length_joinRecords, List.length_append, Nat.add_mul] at hl
          have hzero : ss.reverse.flatten.length * size = 0 := by omega
          exact List.length_eq_zero_iff.mp ((Nat.mul_eq_zero.mp hzero).resolve_right hsize.ne')
        · intro h
          rw [h, List.nil_append]
      rw [if_neg hs, Option.getD_some, hlen, List.filter_cons_of_pos (by simpa using hs),
        List.length_cons, Nat.succ_le_succ_iff, Nat.le_zero, List.length_eq_zero_iff,
        List.flatten_eq_nil_iff, List.filter_eq_nil_iff]
      simp

end Kept

/-! ### The invariant -/

/-- What a tid and a record type have in the process after `acts`. -/
def FileState (pid : ℤ) (acts : List LifeAct) (p : Lives) (tid : ℤ) (k : Kind) : Prop :=
  match p.live tid with
  | none => p.files.read (dataName k tid pid) = kept (sessions tid k acts)
  | some rs => (rs k).name = dataName k tid pid ∧
    ∃ s ss, sessions tid k acts = s :: ss ∧ (rs k).Added p.files (kept ss) s

section Invariant

variable {pid : ℤ} {limit : Kind → ℕ+} {acts : List LifeAct} {p : Lives}

lemma sessions_snoc (tid : ℤ) (k : Kind) (acts : List LifeAct) (a : LifeAct) :
    sessions tid k (acts ++ [a]) = sessionStep tid k (sessions tid k acts) a :=
  List.foldl_concat ..

lemma FileState.of_read {tid : ℤ} {k : Kind} (h : FileState pid acts p tid k) {p' : Lives}
    {acts' : List LifeAct} (hlive : (p'.live tid).map (· k) = (p.live tid).map (· k))
    (hread : p'.files.read (dataName k tid pid) = p.files.read (dataName k tid pid))
    (hss : sessions tid k acts' = sessions tid k acts) : FileState pid acts' p' tid k := by
  unfold FileState at h ⊢
  rw [hread, hss]
  cases hl : p.live tid with
  | none =>
    rw [hl, Option.map_none, Option.map_eq_none_iff] at hlive
    rw [hl] at h
    rw [hlive]
    exact h
  | some rs =>
    rw [hl, Option.map_some, Option.map_eq_some_iff] at hlive
    obtain ⟨rs', hl', hk⟩ := hlive
    rw [hl] at h
    rw [hl']
    obtain ⟨hname, s, ss, hs, w, hw⟩ := h
    dsimp only
    rw [hk]
    refine ⟨hname, s, ss, hs, w, ?_⟩
    rw [hname] at hw ⊢
    rw [hread]
    exact hw

lemma read_destroy_recorders {rs : Recorders} {tid : ℤ}
    (hname : ∀ k, (rs k).name = dataName k tid pid) {d : Directory} {k : Kind}
    {before : Option Bytes} {s : List (Raw k.size)} (h : (rs k).Added d before s) :
    (rs.destroy d).read (dataName k tid pid) = if s = [] then before else some (joinRecords s) := by
  have hinj : Function.Injective fun k => (rs k).name := by
    intro k k' e
    simp only [hname] at e
    exact (dataName_inj e).1
  rw [← hname k]
  exact h.foldl_destroy rs hinj (List.nodup_reverse.mpr recorderKinds_nodup)
    (List.mem_reverse.mpr (mem_recorderKinds k))

lemma read_destroy_recorders_of_ne {rs : Recorders} {tid tid' : ℤ}
    (hname : ∀ k, (rs k).name = dataName k tid pid) (h : tid' ≠ tid) (d : Directory) (k : Kind) :
    (rs.destroy d).read (dataName k tid' pid) = d.read (dataName k tid' pid) := by
  refine Recorder.read_foldl_destroy rs (fun k' _ e => h ?_) d
  rw [hname] at e
  exact (dataName_inj e).2

/-! ### Steps and runs -/

lemma FileState.of_some {tid : ℤ} {k : Kind} (h : FileState pid acts p tid k) {rs : Recorders}
    (hlive : p.live tid = some rs) : (rs k).name = dataName k tid pid ∧
      ∃ s ss, sessions tid k acts = s :: ss ∧ (rs k).Added p.files (kept ss) s := by
  rw [FileState, hlive] at h
  exact h

lemma FileState.of_none {tid : ℤ} {k : Kind} (h : FileState pid acts p tid k)
    (hlive : p.live tid = none) :
    p.files.read (dataName k tid pid) = kept (sessions tid k acts) := by
  rw [FileState, hlive] at h
  exact h

lemma fileState_some {tid : ℤ} {k : Kind} {rs : Recorders} (hlive : p.live tid = some rs)
    (hname : (rs k).name = dataName k tid pid) {s : List (Raw k.size)} {ss : List (List (Raw k.size))}
    (hss : sessions tid k acts = s :: ss) (hadded : (rs k).Added p.files (kept ss) s) :
    FileState pid acts p tid k := by
  rw [FileState, hlive]
  exact ⟨hname, s, ss, hss, hadded⟩

lemma fileState_none {tid : ℤ} {k : Kind} (hlive : p.live tid = none)
    (h : p.files.read (dataName k tid pid) = kept (sessions tid k acts)) :
    FileState pid acts p tid k := by
  rw [FileState, hlive]
  exact h

section Step

variable {p' : Lives} {t : ℤ}

lemma fileState_start (h : ∀ tid k, FileState pid acts p tid k)
    (hstep : p.step pid limit (.start t) = some p') (tid : ℤ) (k : Kind) :
    FileState pid (acts ++ [.start t]) p' tid k := by
  simp only [Lives.step] at hstep
  split at hstep
  · rename_i hlive
    cases hstep
    have hss : sessions tid k (acts ++ [.start t]) =
        if t = tid then [] :: sessions tid k acts else sessions tid k acts := sessions_snoc ..
    by_cases ht : t = tid
    · subst ht
      rw [if_pos rfl] at hss
      refine fileState_some (Function.update_self ..) rfl hss ?_
      rw [← (h t k).of_none hlive]
      exact Recorder.added_create ..
    · rw [if_neg ht] at hss
      exact (h tid k).of_read (congrArg _ (Function.update_of_ne (Ne.symm ht) ..)) rfl hss
  · cases hstep

lemma fileState_add (h : ∀ tid k, FileState pid acts p tid k) {k' : Kind} {r : Raw k'.size}
    (hstep : p.step pid limit (.add t k' r) = some p') (tid : ℤ) (k : Kind) :
    FileState pid (acts ++ [.add t k' r]) p' tid k := by
  obtain ⟨rs, hlive, rfl⟩ := Option.map_eq_some_iff.mp hstep
  have hss : sessions tid k (acts ++ [.add t k' r]) =
      if h : t = tid ∧ k' = k then sessionAdd (h.2 ▸ r) (sessions tid k acts)
      else sessions tid k acts := sessions_snoc ..
  by_cases htk : t = tid ∧ k' = k
  · obtain ⟨rfl, rfl⟩ := htk
    obtain ⟨hn, s, ss, hs, hadded⟩ := (h t k').of_some hlive
    rw [dif_pos ⟨rfl, rfl⟩, hs] at hss
    refine fileState_some (s := s ++ [r]) (Function.update_self ..) ?_ hss ?_
    · rw [Function.update_self, Recorder.add_name, hn]
    · rw [Function.update_self]
      exact hadded.add r
  · rw [dif_neg htk] at hss
    refine (h tid k).of_read ?_ ?_ hss
    · -- the recorder of the type is the same, that of another type may have changed
      by_cases ht : t = tid
      · subst ht
        have hk : k ≠ k' := fun e => htk ⟨rfl, e.symm⟩
        dsimp only
        rw [Function.update_self, hlive, Option.map_some, Option.map_some, Function.update_of_ne hk]
      · exact congrArg _ (Function.update_of_ne (Ne.symm ht) ..)
    · refine Recorder.read_add _ _ _ fun e => htk ?_
      rw [((h t k').of_some hlive).1] at e
      exact ⟨(dataName_inj e).2.symm, (dataName_inj e).1.symm⟩

lemma fileState_exit (h : ∀ tid k, FileState pid acts p tid k)
    (hstep : p.step pid limit (.exit t) = some p') (tid : ℤ) (k : Kind) :
    FileState pid (acts ++ [.exit t]) p' tid k := by
  obtain ⟨rs, hlive, rfl⟩ := Option.map_eq_some_iff.mp hstep
  have hname : ∀ k, (rs k).name = dataName k t pid := fun k => ((h t k).of_some hlive).1
  have hss : sessions tid k (acts ++ [.exit t]) = sessions tid k acts := sessions_snoc ..
  by_cases ht : tid = t
  · subst ht
    obtain ⟨-, s, ss, hs, hadded⟩ := (h tid k).of_some hlive
    refine fileState_none (Function.update_self ..) ?_
    rw [hss, hs, kept_cons]
    exact read_destroy_recorders hname hadded
  · refine (h tid k).of_read ?_ ?_ hss
    · exact congrArg _ (Function.update_of_ne ht ..)
    · exact read_destroy_recorders_of_ne hname ht p.files k

end Step

theorem fileState_step (h : ∀ tid k, FileState pid acts p tid k) {a : LifeAct} {p' : Lives}
    (hstep : p.step pid limit a = some p') : ∀ tid k, FileState pid (acts ++ [a]) p' tid k := by
  cases a with
  | start t => exact fileState_start h hstep
  | add t k r => exact fileState_add h hstep
  | exit t => exact fileState_exit h hstep

theorem fileState_run (h : run (Lives.step pid limit) Lives.init acts = some p) :
    ∀ tid k, FileState pid acts p tid k := by
  refine run_invariant (fun acts p => ∀ tid k, FileState pid acts p tid k) ?_ ?_ h
  · exact fun tid k => rfl
  · exact fun as s a s' _ ih hstep => fileState_step ih hstep

lemma read_of_exited (h : run (Lives.step pid limit) Lives.init acts = some p) {tid : ℤ}
    (htid : p.live tid = none) (k : Kind) :
    p.files.read (dataName k tid pid) = kept (sessions tid k acts) := by
  exact (fileState_run h tid k).of_none htid

lemma live_of_not_started (h : run (Lives.step pid limit) Lives.init acts = some p) {tid : ℤ}
    (htid : .start tid ∉ acts) : p.live tid = none := by
  refine run_invariant (fun acts p => .start tid ∉ acts → p.live tid = none) (fun _ => rfl) ?_ h htid
  intro as s a s' _ ih hstep hnot
  have hlive := ih fun hmem => hnot (List.mem_append_left _ hmem)
  cases a with
  | start t =>
    have ht : tid ≠ t := by
      rintro rfl
      exact hnot (List.mem_append_right _ (List.mem_singleton_self _))
    simp only [Lives.step] at hstep
    split at hstep
    · cases hstep
      exact (Function.update_of_ne ht ..).trans hlive
    · cases hstep
  | add t k r =>
    obtain ⟨rs, hrs, rfl⟩ := Option.map_eq_some_iff.mp hstep
    have ht : tid ≠ t := by
      rintro rfl
      rw [hlive] at hrs
      cases hrs
    exact (Function.update_of_ne ht ..).trans hlive
  | exit t =>
    obtain ⟨rs, hrs, rfl⟩ := Option.map_eq_some_iff.mp hstep
    have ht : tid ≠ t := by
      rintro rfl
      rw [hlive] at hrs
      cases hrs
    exact (Function.update_of_ne ht ..).trans hlive

end Invariant

/-- **No record is lost** over the life of a process, after all threads have exited, if and only if
of the threads that carried one tid at most one added records of the same type. -/
theorem complete_iff (pid : ℤ) (limit : Kind → ℕ+) (acts : List LifeAct) (p : Lives)
    (hrun : run (Lives.step pid limit) Lives.init acts = some p)
    (hexit : ∀ tid, p.live tid = none) : Complete pid acts p.files ↔ OneWriter acts := by
  refine forall_congr' fun tid => forall_congr' fun k => ?_
  rw [read_of_exited hrun (hexit tid) k, addedRecords]
  exact kept_eq_iff (Kind.size_pos k) _

/-- Two threads one after the other under the tid `7`: the first one adds uses, the second one a
record of type `k`. -/
def twoLives (k : Kind) : List LifeAct :=
  [ .start 7, .add 7 .use (Raw.ofBytes _ [1]), .add 7 .use (Raw.ofBytes _ [2]), .exit 7,
    .start 7, .add 7 k (Raw.ofBytes _ [3]), .exit 7 ]

/-- The process after the two threads. -/
def afterLives (k : Kind) : Lives :=
  (run (Lives.step 1 fun _ => 1) Lives.init (twoLives k)).getD Lives.init

lemma run_twoLives (k : Kind) :
    run (Lives.step 1 fun _ => 1) Lives.init (twoLives k) = some (afterLives k) := rfl

lemma exited_twoLives (k : Kind) (tid : ℤ) : (afterLives k).live tid = none := by
  by_cases h : tid = 7
  · subst h
    rfl
  · exact live_of_not_started (run_twoLives k) (by simp [twoLives, h])

/-- The second thread adds allocations. -/
theorem complete_iff_new :
    Complete 1 (twoLives .new) (afterLives .new).files ↔ OneWriter (twoLives .new) :=
  complete_iff 1 _ _ _ (run_twoLives .new) (exited_twoLives .new)

/-- The second thread adds a use: those of the first one are lost. -/
theorem not_complete_use : ¬ Complete 1 (twoLives .use) (afterLives .use).files := by
  intro h
  have hfile := h 7 .use
  rw [read_of_exited (run_twoLives .use) (exited_twoLives .use 7)] at hfile
  revert hfile
  decide

end Cinst.Native
