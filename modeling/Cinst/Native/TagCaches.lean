import Cinst.Native.Tags

/-!
When a tag is seen by all threads.

A thread that looks for the tag of an object remembers the answer in its own tag map, also the
answer that there is none, and `set_tag` writes the maps of its own thread and of all threads
together only. So after `set_tag` another thread sees the tag exactly when its map holds no other
answer by then (`Coherent`), nor is about to.
-/

namespace Cinst.Native

open Cinst.Lib

section TagCaches

variable {Tid Obj : Type*} [DecidableEq Tid] [DecidableEq Obj]

/-! ### The property and the condition -/

namespace Tags

/-- The step is one of the two `SetTag` of `set_tag` on `o`. -/
def setsTag (s : Tags Tid Obj) (o : Obj) : TagAct Tid Obj → Bool
  | .advance t =>
    match s.pc t with
    | .recorded o' _ => o' = o
    | .cached o' _ => o' = o
    | _ => false
  | _ => false

/-- The steps while no further `set_tag` on `o` is made. -/
def stepWithout (o : Obj) (s : Tags Tid Obj) (a : TagAct Tid Obj) : Option (Tags Tid Obj) :=
  if s.setsTag o a then none else s.step a

end Tags

/-- From the state `s` on, as long as no further `set_tag` on `o` is made, every `get_tag(o)` that
starts yields `tag`: one that ends has this result, and every thread that is between two calls can
make one, in at most three steps. -/
structure SeenByAll (s : Tags Tid Obj) (o : Obj) (tag : Int64) : Prop where
  only : ∀ bs s', run (Tags.stepWithout o) s bs = some s' →
    ∀ y ∈ s'.yields, y.obj = o → s.now ≤ y.start → y.tag = tag
  ends : ∀ bs s', run (Tags.stepWithout o) s bs = some s' → ∀ u, s'.pc u = .idle →
    ∃ cs s'', cs.length ≤ 3 ∧ run (Tags.stepWithout o) s' cs = some s'' ∧
      ⟨o, tag, s'.now⟩ ∈ s''.yields

/-- A thread with the tag map `tags` holds no other answer than `tag` for `o` and is not about to
remember one. Nothing is asked of a thread that is about to make `set_tag` on `o` itself. -/
def PcAgrees (o : Obj) (tag : Int64) (tags : Obj → Int64) : Pc Obj → Prop
  | .tagged o' _ => o' = o ∨ tags o = 0 ∨ tags o = tag
  | .recorded o' _ => o' = o ∨ tags o = 0 ∨ tags o = tag
  | .cached o' _ => o' = o ∨ tags o = 0 ∨ tags o = tag
  | .looked o' found _ =>
    if o' = o then Tags.answer found = tag else tags o = 0 ∨ tags o = tag
  | _ => tags o = 0 ∨ tags o = tag

/-- The thread `t` is about to finish `set_tag(o, tag)`, and all other threads agree. -/
def Coherent (s : Tags Tid Obj) (t : Tid) (o : Obj) (tag : Int64) : Prop :=
  tag ≠ 0 ∧ ∀ u ≠ t, PcAgrees o tag (s.localEnv u) (s.pc u)

/-! ### Inside a call -/

/-- What a thread inside a call knows about its own tag map. -/
def PcKnows (tags : Obj → Int64) (now : ℕ) : Pc Obj → Prop
  | .cached o tag => tags o = tag
  | .missed o start => tags o = 0 ∧ start < now
  | .looked _ _ start => start < now
  | _ => True

/-- Every thread knows its tag map, and calls start before they end. -/
structure InCall (s : Tags Tid Obj) : Prop where
  pc : ∀ t, PcKnows (s.localEnv t) s.now (s.pc t)
  yields : ∀ y ∈ s.yields, y.start < s.now

omit [DecidableEq Obj] in
lemma PcKnows.succ {tags : Obj → Int64} {now : ℕ} {p : Pc Obj} (h : PcKnows tags now p) :
    PcKnows tags (now + 1) p := by
  cases p with
  | cached o tag => exact h
  | missed o start => exact ⟨h.1, Nat.lt_succ_of_lt h.2⟩
  | looked o tag start => exact Nat.lt_succ_of_lt h
  | _ => trivial

omit [DecidableEq Obj] in
lemma InCall.update {s : Tags Tid Obj} (h : InCall s) {t : Tid} {p : Pc Obj}
    {localEnv : Tid → Obj → Int64} (hother : ∀ u ≠ t, localEnv u = s.localEnv u)
    (hp : PcKnows (localEnv t) (s.now + 1) p) :
    ∀ u, PcKnows (localEnv u) (s.now + 1) (Function.update s.pc t p u) := by
  refine (Function.forall_update_iff s.pc fun u q => PcKnows (localEnv u) (s.now + 1) q).mpr
    ⟨hp, fun u hu => ?_⟩
  rw [hother u hu]
  exact (h.pc u).succ

lemma setLocal_of_ne (s : Tags Tid Obj) {t u : Tid} (hu : u ≠ t) (o : Obj) (tag : Int64) :
    s.setLocal t o tag u = s.localEnv u := by
  funext o'
  rw [setLocal_eq, if_neg fun hc => hu hc.1]

theorem InCall.step {s s' : Tags Tid Obj} {a : TagAct Tid Obj} (h : InCall s)
    (hs : s.step a = some s') : InCall s' := by
  have hlt : ∀ y ∈ s.yields, y.start < s.now + 1 := fun y hy => Nat.lt_succ_of_lt (h.yields y hy)
  cases tagStep_iff.mp hs with
  | issue t o hpc | record t o tag hpc | publish t o tag hpc =>
    exact ⟨h.update (fun _ _ => rfl) trivial, hlt⟩
  | hit t o hpc hl =>
    refine ⟨fun u => (h.pc u).succ, fun y hy => ?_⟩
    rcases List.mem_cons.mp hy with rfl | hy
    · exact Nat.lt_succ_self _
    · exact hlt y hy
  | miss t o hpc hl => exact ⟨h.update (fun _ _ => rfl) ⟨hl, Nat.lt_succ_self _⟩, hlt⟩
  | cache t o tag hpc =>
    refine ⟨h.update (fun u hu => setLocal_of_ne s hu o tag) ?_, hlt⟩
    show s.setLocal t o tag t o = tag
    rw [setLocal_eq, if_pos ⟨rfl, rfl⟩]
  | look t o start hpc =>
    have hm := h.pc t
    rw [hpc] at hm
    exact ⟨h.update (fun _ _ => rfl) (Nat.lt_succ_of_lt hm.2), hlt⟩
  | fill t o tag start hpc =>
    have hm := h.pc t
    rw [hpc] at hm
    refine ⟨h.update (fun u hu => setLocal_of_ne s hu o _) trivial, fun y hy => ?_⟩
    rcases List.mem_cons.mp hy with rfl | hy
    · exact Nat.lt_succ_of_lt hm
    · exact hlt y hy

lemma inCall_run {as : List (TagAct Tid Obj)} {s : Tags Tid Obj}
    (h : run Tags.step Tags.init as = some s) : InCall s := by
  refine run_invariant (fun _ s => InCall s) ⟨fun t => ?_, fun y hy => ?_⟩
    (fun _ _ _ _ _ ih hs => ih.step hs) h
  · exact (trivial : PcKnows _ _ Pc.idle)
  · cases hy

/-! ### While the threads agree -/

/-- The global tag map holds `tag` for `o`, all threads agree, and so do the results of the calls
that started at `n` or later. -/
structure Agrees (o : Obj) (tag : Int64) (n : ℕ) (s : Tags Tid Obj) : Prop where
  jvmtiEnv : s.jvmtiEnv o = tag
  pc : ∀ u, PcAgrees o tag (s.localEnv u) (s.pc u)
  yields : ∀ y ∈ s.yields, y.obj = o → n ≤ y.start → y.tag = tag

lemma stepWithout_eq {o : Obj} {s s' : Tags Tid Obj} {a : TagAct Tid Obj} :
    s.stepWithout o a = some s' ↔ s.setsTag o a = false ∧ s.step a = some s' := by
  unfold Tags.stepWithout
  cases s.setsTag o a <;> simp

lemma answer_ne_zero (tag : Int64) : Tags.answer tag ≠ 0 := by
  rcases answer_cases tag with h | ⟨h, hne⟩
  · rw [h]
    decide
  · rwa [h]

lemma answer_of_ne_zero {tag : Int64} (h : tag ≠ 0) : Tags.answer tag = tag := if_pos h

lemma Agrees.update {o : Obj} {tag : Int64} {n : ℕ} {s : Tags Tid Obj} (h : Agrees o tag n s)
    {t : Tid} {p : Pc Obj} {localEnv : Tid → Obj → Int64}
    (hother : ∀ u ≠ t, localEnv u = s.localEnv u) (hp : PcAgrees o tag (localEnv t) p) :
    ∀ u, PcAgrees o tag (localEnv u) (Function.update s.pc t p u) := by
  refine (Function.forall_update_iff s.pc fun u q => PcAgrees o tag (localEnv u) q).mpr
    ⟨hp, fun u hu => ?_⟩
  rw [hother u hu]
  exact h.pc u

omit [DecidableEq Tid] in
lemma Agrees.pc_of_eq {o : Obj} {tag : Int64} {n : ℕ} {s : Tags Tid Obj} (h : Agrees o tag n s)
    {t : Tid} {p : Pc Obj} (hpc : s.pc t = p) : PcAgrees o tag (s.localEnv t) p :=
  hpc ▸ h.pc t

/-- **The threads go on to agree** while no `set_tag` on `o` is made. -/
theorem Agrees.step {o : Obj} {tag : Int64} {n : ℕ} {s s' : Tags Tid Obj} {a : TagAct Tid Obj}
    (h : Agrees o tag n s) (htag : tag ≠ 0) (hs : s.stepWithout o a = some s') :
    Agrees o tag n s' := by
  obtain ⟨hset, hs⟩ := stepWithout_eq.mp hs
  cases tagStep_iff.mp hs with
  | issue t o' hpc =>
    have hp := h.pc_of_eq hpc
    exact ⟨h.jvmtiEnv, h.update (fun _ _ => rfl) (Or.inr hp), h.yields⟩
  | hit t o' hpc hl =>
    have hp := h.pc_of_eq hpc
    refine ⟨h.jvmtiEnv, h.pc, fun y hy ho hn => ?_⟩
    rcases List.mem_cons.mp hy with rfl | hy
    · dsimp only at ho
      subst ho
      exact hp.resolve_left hl
    · exact h.yields y hy ho hn
  | miss t o' hpc hl =>
    have hp := h.pc_of_eq hpc
    exact ⟨h.jvmtiEnv, h.update (fun _ _ => rfl) hp, h.yields⟩
  | record t o' tag' hpc =>
    have hp := h.pc_of_eq hpc
    exact ⟨h.jvmtiEnv, h.update (fun _ _ => rfl) hp, h.yields⟩
  | cache t o' tag' hpc =>
    have hp := h.pc_of_eq hpc
    have hne : o' ≠ o := by simpa [Tags.setsTag, hpc] using hset
    refine ⟨h.jvmtiEnv, h.update (fun u hu => setLocal_of_ne s hu o' tag') (Or.inr ?_), h.yields⟩
    dsimp only
    rw [setLocal_eq, if_neg fun hc => hne hc.2.symm]
    exact hp.resolve_left hne
  | publish t o' tag' hpc =>
    have hp := h.pc_of_eq hpc
    have hne : o' ≠ o := by simpa [Tags.setsTag, hpc] using hset
    refine ⟨?_, h.update (fun _ _ => rfl) (hp.resolve_left hne), h.yields⟩
    dsimp only
    rw [Function.update_of_ne (Ne.symm hne), h.jvmtiEnv]
  | look t o' start hpc =>
    have hp := h.pc_of_eq hpc
    refine ⟨h.jvmtiEnv, h.update (fun _ _ => rfl) ?_, h.yields⟩
    simp only [PcAgrees]
    split_ifs with ho
    · rw [ho, h.jvmtiEnv, answer_of_ne_zero htag]
    · exact hp
  | fill t o' found start hpc =>
    have hp := h.pc_of_eq hpc
    simp only [PcAgrees] at hp
    refine ⟨h.jvmtiEnv, h.update (fun u hu => setLocal_of_ne s hu o' _) ?_, fun y hy ho hn => ?_⟩
    · show s.setLocal t o' _ t o = 0 ∨ s.setLocal t o' _ t o = tag
      by_cases ho : o' = o
      · rw [if_pos ho] at hp
        rw [setLocal_eq, if_pos ⟨rfl, ho.symm⟩]
        exact Or.inr hp
      · rw [if_neg ho] at hp
        rwa [setLocal_eq, if_neg fun hc => ho hc.2.symm]
    · rcases List.mem_cons.mp hy with rfl | hy
      · dsimp only at ho
        rwa [if_pos ho] at hp
      · exact h.yields y hy ho hn

lemma agrees_run {o : Obj} {tag : Int64} {n : ℕ} {s s' : Tags Tid Obj} (htag : tag ≠ 0)
    (h : Agrees o tag n s) {bs : List (TagAct Tid Obj)}
    (hrun : run (Tags.stepWithout o) s bs = some s') : Agrees o tag n s' :=
  run_invariant (fun _ s => Agrees o tag n s) h (fun _ _ _ _ _ ih hs => ih.step htag hs) hrun

/-! ### A call of `get_tag` -/

lemma stepWithout_of {o : Obj} {s s' : Tags Tid Obj} {a : TagAct Tid Obj} (h : TagStep s a s')
    (hset : s.setsTag o a = false) : s.stepWithout o a = some s' :=
  stepWithout_eq.mpr ⟨hset, tagStep_iff.mpr h⟩

lemma run_lookup {o : Obj} {s : Tags Tid Obj} {u : Tid} (hpc : s.pc u = .idle) :
    ∃ cs s', cs.length ≤ 3 ∧ run (Tags.stepWithout o) s cs = some s' ∧
      ⟨o, if s.localEnv u o ≠ 0 then s.localEnv u o else Tags.answer (s.jvmtiEnv o), s.now⟩ ∈
        s'.yields := by
  by_cases hl : s.localEnv u o = 0
  · obtain ⟨s₁, h₁, hpc₁, he₁⟩ : ∃ s₁, s.stepWithout o (.getTag u o) = some s₁ ∧
        s₁.pc u = .missed o s.now ∧ s₁.jvmtiEnv = s.jvmtiEnv :=
      ⟨_, stepWithout_of (.miss u o hpc hl) rfl, by simp, rfl⟩
    obtain ⟨s₂, h₂, hpc₂⟩ : ∃ s₂, s₁.stepWithout o (.advance u) = some s₂ ∧
        s₂.pc u = .looked o (s₁.jvmtiEnv o) s.now :=
      ⟨_, stepWithout_of (.look u o s.now hpc₁) (by simp [Tags.setsTag, hpc₁]), by simp⟩
    obtain ⟨s₃, h₃, hy⟩ : ∃ s₃, s₂.stepWithout o (.advance u) = some s₃ ∧
        ⟨o, Tags.answer (s₁.jvmtiEnv o), s.now⟩ ∈ s₃.yields :=
      ⟨_, stepWithout_of (.fill u o _ s.now hpc₂) (by simp [Tags.setsTag, hpc₂]), by simp⟩
    refine ⟨[.getTag u o, .advance u, .advance u], s₃, le_refl _, ?_, ?_⟩
    · rw [run_cons, h₁, Option.bind_some, run_cons, h₂, Option.bind_some, run_cons, h₃]
      rfl
    · rwa [if_neg (not_not.mpr hl), ← he₁]
  · have h₁ := stepWithout_of (o := o) (.hit u o hpc hl) rfl
    exact ⟨[.getTag u o], _, by simp, by rw [run_cons, h₁]; rfl, by simp [hl]⟩

/-- The steps of its call that a thread has still to take. -/
def Pc.remaining : Pc Obj → ℕ
  | .idle => 0
  | .tagged _ _ => 3
  | .recorded _ _ => 2
  | .cached _ _ => 1
  | .missed _ _ => 2
  | .looked _ _ _ => 1

lemma advance_of_not_agrees {o : Obj} {tag : Int64} {s : Tags Tid Obj} (hin : InCall s) {u : Tid}
    (hu : ¬ PcAgrees o tag (s.localEnv u) (s.pc u)) (hbusy : s.pc u ≠ .idle) :
    ∃ s', s.stepWithout o (.advance u) = some s' ∧ s'.now = s.now + 1 ∧
      (s'.pc u).remaining < (s.pc u).remaining ∧
      ¬ PcAgrees o tag (s'.localEnv u) (s'.pc u) := by
  have hk := hin.pc u
  cases hpc : s.pc u with
  | idle => exact absurd hpc hbusy
  | tagged o' tag' =>
    rw [hpc] at hu
    refine ⟨_, stepWithout_of (.record u o' tag' hpc) (by simp [Tags.setsTag, hpc]), rfl, ?_, ?_⟩
    · simp [Pc.remaining]
    · simpa [PcAgrees] using hu
  | recorded o' tag' =>
    rw [hpc] at hu
    simp only [PcAgrees, not_or] at hu
    refine ⟨_, stepWithout_of (.cache u o' tag' hpc) (by simp [Tags.setsTag, hpc, hu.1]), rfl, ?_, ?_⟩
    · simp [Pc.remaining]
    · simp [PcAgrees, setLocal_eq, hu, Ne.symm hu.1]
  | cached o' tag' =>
    rw [hpc] at hu
    simp only [PcAgrees, not_or] at hu
    refine ⟨_, stepWithout_of (.publish u o' tag' hpc) (by simp [Tags.setsTag, hpc, hu.1]), rfl, ?_, ?_⟩
    · simp [Pc.remaining]
    · simp [PcAgrees, hu]
  | missed o' start =>
    rw [hpc] at hu hk
    simp only [PcAgrees, not_or] at hu
    have hne : o' ≠ o := fun e => hu.1 (e ▸ hk.1)
    refine ⟨_, stepWithout_of (.look u o' start hpc) (by simp [Tags.setsTag, hpc]), rfl, ?_, ?_⟩
    · simp [Pc.remaining]
    · simp [PcAgrees, hne, hu]
  | looked o' found start =>
    rw [hpc] at hu
    refine ⟨_, stepWithout_of (.fill u o' found start hpc) (by simp [Tags.setsTag, hpc]), rfl, ?_, ?_⟩
    · simp [Pc.remaining]
    · by_cases ho : o' = o
      · simp only [PcAgrees, if_pos ho] at hu
        simp [PcAgrees, setLocal_eq, ho, hu, answer_ne_zero]
      · simp only [PcAgrees, if_neg ho, not_or] at hu
        simp [PcAgrees, setLocal_eq, Ne.symm ho, hu]

lemma run_finish {o : Obj} {tag : Int64} {s : Tags Tid Obj} (hin : InCall s) {u : Tid}
    (hu : ¬ PcAgrees o tag (s.localEnv u) (s.pc u)) :
    ∃ cs s', run (Tags.stepWithout o) s cs = some s' ∧ s.now ≤ s'.now ∧ s'.pc u = .idle ∧
      s'.localEnv u o ≠ 0 ∧ s'.localEnv u o ≠ tag := by
  induction hr : (s.pc u).remaining using Nat.strong_induction_on generalizing s with
  | _ k ih =>
    by_cases hpc : s.pc u = .idle
    · rw [hpc] at hu
      simp only [PcAgrees, not_or] at hu
      exact ⟨[], s, rfl, le_refl _, hpc, hu.1, hu.2⟩
    · obtain ⟨s₁, hs₁, hnow, hlt, hu₁⟩ := advance_of_not_agrees hin hu hpc
      have hin₁ := hin.step (stepWithout_eq.mp hs₁).2
      obtain ⟨cs, s', hrun, hle, hrest⟩ := ih _ (hr ▸ hlt) hin₁ hu₁ rfl
      refine ⟨.advance u :: cs, s', ?_, by omega, hrest⟩
      rw [run_cons, hs₁]
      exact hrun

/-- **A tag is seen by all threads exactly when they agree** as `set_tag` finishes. -/
theorem seenByAll_iff (as : List (TagAct Tid Obj)) (s s' : Tags Tid Obj) (t : Tid) (o : Obj)
    (tag : Int64) (h : run Tags.step Tags.init as = some s) (hpc : s.pc t = .cached o tag)
    (hs : s.step (.advance t) = some s') : SeenByAll s' o tag ↔ Coherent s t o tag := by
  have hin := inCall_run h
  have hin' := hin.step hs
  have hlocal : s.localEnv t o = tag := by
    have := hin.pc t
    rwa [hpc] at this
  obtain ⟨hpc', hloc', henv', hnow', hy'⟩ : s'.pc = Function.update s.pc t .idle ∧
      s'.localEnv = s.localEnv ∧ s'.jvmtiEnv o = tag ∧ s'.now = s.now + 1 ∧
      s'.yields = s.yields := by
    cases hs.symm.trans (tagStep_iff.mpr (.publish t o tag hpc))
    exact ⟨rfl, rfl, Function.update_self .., rfl, rfl⟩
  have hother : ∀ u ≠ t, s'.pc u = s.pc u := fun u hu => by rw [hpc', Function.update_of_ne hu]
  constructor
  · rintro ⟨honly, -⟩
    have hyield : ∀ bs s₁, run (Tags.stepWithout o) s' bs = some s₁ → s'.now ≤ s₁.now →
        ∀ u, s₁.pc u = .idle →
          (if s₁.localEnv u o ≠ 0 then s₁.localEnv u o else Tags.answer (s₁.jvmtiEnv o)) = tag := by
      intro bs s₁ hrun hle u hu
      obtain ⟨cs, s₂, -, hrun₂, hy⟩ := run_lookup (o := o) hu
      exact honly _ s₂ (run_trans hrun hrun₂) _ hy rfl hle
    refine ⟨fun h0 => ?_, fun u hu => ?_⟩
    · -- a tag `0` is no tag: the thread itself does not see it
      have := hyield [] s' rfl (le_refl _) t (by rw [hpc', Function.update_self])
      rw [hloc', hlocal, h0, if_neg (not_not.mpr rfl)] at this
      exact answer_ne_zero _ this
    · by_contra hu'
      rw [← hother u hu, ← hloc'] at hu'
      obtain ⟨cs, s₁, hrun, hle, hpc₁, hne, htag⟩ := run_finish hin' hu'
      have := hyield cs s₁ hrun hle u hpc₁
      rw [if_pos hne] at this
      exact htag this
  · rintro ⟨htag, hagree⟩
    have hag : Agrees o tag s'.now s' := by
      refine ⟨henv', fun u => ?_, fun y hy _ hle => ?_⟩
      · by_cases hu : u = t
        · rw [hu, hpc', hloc', Function.update_self]
          exact Or.inr hlocal
        · rw [hother u hu, hloc']
          exact hagree u hu
      · have := hin.yields y (hy' ▸ hy)
        omega
    refine ⟨fun bs s₁ hrun => (agrees_run htag hag hrun).yields, fun bs s₁ hrun u hu => ?_⟩
    have hag₁ := agrees_run htag hag hrun
    obtain ⟨cs, s₂, hlen, hrun₂, hy⟩ := run_lookup (o := o) hu
    refine ⟨cs, s₂, hlen, hrun₂, ?_⟩
    have hp := hag₁.pc u
    rw [hu] at hp
    rw [hag₁.jvmtiEnv, answer_of_ne_zero htag] at hy
    split_ifs at hy with hl
    · rwa [hp.resolve_left hl] at hy
    · exact hy

end TagCaches

/-- One thread tags an object that no other thread has looked up, while another one looks for the
tag of another object. -/
theorem seenByAll_single : ∃ (as : List (TagAct ℕ ℕ)) (s s' : Tags ℕ ℕ),
    run Tags.step Tags.init as = some s ∧ s.step (.advance 0) = some s' ∧ SeenByAll s' 5 10 := by
  let as : List (TagAct ℕ ℕ) := [.addTagNewRecord 0 5, .advance 0, .getTag 1 6, .advance 0]
  let s := (run Tags.step Tags.init as).get (by decide)
  let s' := (s.step (.advance 0)).get (by decide)
  refine ⟨as, s, s', by simp [s], by simp [s'],
    (seenByAll_iff as s s' 0 5 10 (by simp [s]) rfl (by simp [s'])).mpr ⟨by decide, ?_⟩⟩
  intro u hu
  by_cases h1 : u = 1
  · subst h1
    exact Or.inl rfl
  · have hpc : s.pc u = .idle := by
      simp [s, as, run_cons, Tags.step, Tags.init, hu, h1]
    have hloc : s.localEnv u 5 = 0 := by
      simp [s, as, run_cons, Tags.step, Tags.init, setLocal_eq, hu]
    rw [hpc]
    exact Or.inl hloc

/-- Thread `1` looks for the tag of an object before thread `0` sets it, and does not see it
afterwards. -/
theorem not_seenByAll_lookup : ∃ (as : List (TagAct ℕ ℕ)) (s s' : Tags ℕ ℕ),
    run Tags.step Tags.init as = some s ∧ s.pc 0 = .cached 5 10 ∧
      s.step (.advance 0) = some s' ∧ ¬ SeenByAll s' 5 10 := by
  let as : List (TagAct ℕ ℕ) :=
    [.addTagNewRecord 0 5, .advance 0, .getTag 1 5, .advance 1, .advance 1, .advance 0]
  let s := (run Tags.step Tags.init as).get (by decide)
  let s' := (s.step (.advance 0)).get (by decide)
  refine ⟨as, s, s', by simp [s], rfl, by simp [s'], fun h => ?_⟩
  have := h.only [.getTag 1 5] ((run (Tags.stepWithout 5) s' [.getTag 1 5]).get (by decide))
    (by simp) ⟨5, -1, 7⟩ (List.mem_cons_self ..) rfl (by decide)
  exact absurd this (by decide)

end Cinst.Native
