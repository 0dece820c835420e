import Mathlib.Data.List.Induction
import Mathlib.Tactic

/-!
Runs of a system given by a partial step function: the state after a list of actions, and the
induction rule for what holds after every run.
-/

namespace Cinst.Lib

variable {σ α : Type*} (step : σ → α → Option σ)

/-- The state after a list of actions, when every one of them is enabled. -/
def run : σ → List α → Option σ
  | s, [] => some s
  | s, a :: as => (step s a).bind fun s' => run s' as

@[simp] lemma run_nil (s : σ) : run step s [] = some s := rfl

lemma run_cons (s : σ) (a : α) (as : List α) :
    run step s (a :: as) = (step s a).bind fun s' => run step s' as := rfl

lemma run_append (s : σ) (as bs : List α) :
    run step s (as ++ bs) = (run step s as).bind fun s' => run step s' bs := by
  induction as generalizing s with
  | nil => rfl
  | cons a as ih =>
    rw [List.cons_append, run_cons, run_cons, Option.bind_assoc]
    congr 1
    funext s'
    exact ih s'

variable {step}

lemma exists_of_run_append {s s'' : σ} {as bs : List α} (h : run step s (as ++ bs) = some s'') :
    ∃ s', run step s as = some s' ∧ run step s' bs = some s'' := by
  rw [run_append] at h
  exact Option.bind_eq_some_iff.mp h

lemma exists_of_run_snoc {s s'' : σ} {as : List α} {a : α}
    (h : run step s (as ++ [a]) = some s'') :
    ∃ s', run step s as = some s' ∧ step s' a = some s'' := by
  obtain ⟨s', h', h''⟩ := exists_of_run_append h
  refine ⟨s', h', ?_⟩
  simpa [run_cons] using h''

lemma run_trans {s s' s'' : σ} {as bs : List α} (h : run step s as = some s')
    (h' : run step s' bs = some s'') : run step s (as ++ bs) = some s'' := by
  rw [run_append, h]
  exact h'

/-- **Invariant rule.** What holds before the first action, and of a history with one more action
when it holds before that action, holds of every run. -/
theorem run_invariant {s₀ : σ} (I : List α → σ → Prop) (h₀ : I [] s₀)
    (hstep : ∀ as s a s', run step s₀ as = some s → I as s → step s a = some s' →
      I (as ++ [a]) s')
    {as : List α} {s : σ} (h : run step s₀ as = some s) : I as s := by
  induction as using List.reverseRecOn generalizing s with
  | nil =>
    cases h
    exact h₀
  | append_singleton as a ih =>
    obtain ⟨s', h', h''⟩ := exists_of_run_snoc h
    exact hstep as s' a s h' (ih h') h''

variable (step) in
/-- Every action of a list meets a condition on the state before it. -/
def Along (P : σ → α → Prop) : σ → List α → Prop
  | _, [] => True
  | s, a :: as => P s a ∧ ∀ s', step s a = some s' → Along P s' as

instance decidableAlong (P : σ → α → Prop) [∀ s a, Decidable (P s a)] :
    ∀ s as, Decidable (Along step P s as)
  | _, [] => instDecidableTrue
  | s, a :: as =>
    match h : step s a with
    | none => decidable_of_iff (P s a) ⟨fun hP => ⟨hP, fun s' hs => by rw [h] at hs; cases hs⟩,
        And.left⟩
    | some s₁ =>
      have := decidableAlong P s₁ as
      decidable_of_iff (P s a ∧ Along step P s₁ as)
        ⟨fun hP => ⟨hP.1, fun s' hs => by rw [h] at hs; cases hs; exact hP.2⟩,
          fun hP => ⟨hP.1, hP.2 s₁ h⟩⟩

/-- **Invariant rule for runs under a condition.** -/
theorem run_invariant_along {P : σ → α → Prop} (I : σ → Prop)
    (hstep : ∀ s a s', I s → P s a → step s a = some s' → I s') {s s' : σ} {as : List α}
    (h₀ : I s) (hP : Along step P s as) (h : run step s as = some s') : I s' := by
  induction as generalizing s with
  | nil =>
    cases h
    exact h₀
  | cons a as ih =>
    obtain ⟨s₁, hs, hrest⟩ := Option.bind_eq_some_iff.mp h
    exact ih (hstep s a s₁ h₀ hP.1 hs) (hP.2 s₁ hs) hrest

/-- **Simulation rule.** Every action is an action of the system `step'` on the abstract state, or
leaves that state alone; a run is then a run of `step'`. -/
theorem run_simulation {τ β : Type*} {step' : τ → β → Option τ} (abs : σ → τ) (f : α → Option β)
    (hquiet : ∀ s a s', step s a = some s' → f a = none → abs s' = abs s)
    (hact : ∀ s a s' b, step s a = some s' → f a = some b → step' (abs s) b = some (abs s'))
    {s s' : σ} {as : List α} (h : run step s as = some s') :
    run step' (abs s) (as.filterMap f) = some (abs s') := by
  induction as generalizing s with
  | nil =>
    cases h
    rfl
  | cons a as ih =>
    obtain ⟨s₁, hs, hrest⟩ := Option.bind_eq_some_iff.mp h
    cases hf : f a with
    | none =>
      rw [List.filterMap_cons_none hf, ← hquiet s a s₁ hs hf]
      exact ih hrest
    | some b =>
      rw [List.filterMap_cons_some hf, run_cons, hact s a s₁ b hs hf]
      exact ih hrest

end Cinst.Lib
