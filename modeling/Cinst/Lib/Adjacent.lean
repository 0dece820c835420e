import Mathlib.Data.List.Chain
import Mathlib.Data.List.Forall2
import Mathlib.Data.List.ReduceOption

/-!
Neighbours in a list: a loop that remembers the item before, two lists that agree item by item, and
what remains of the neighbours when a list is thinned out.
-/

namespace Cinst.Lib

variable {α β δ : Type*}

/-- A loop that remembers the item before goes over the neighbours. -/
lemma foldl_zip_tail {step : Option α × δ → α → Option α × δ} {f : δ → α × α → δ}
    (hnone : ∀ d a, step (none, d) a = (some a, d))
    (hsome : ∀ last d a, step (some last, d) a = (some a, f d (last, a))) (d : δ) (l : List α) :
    (l.foldl step (none, d)).2 = (l.zip l.tail).foldl f d := by
  have hrun : ∀ (l : List α) last d,
      (l.foldl step (some last, d)).2 = ((last :: l).zip l).foldl f d := by
    intro l
    induction l with
    | nil => exact fun _ _ => rfl
    | cons a l ih =>
      intro last d
      rw [List.foldl_cons, hsome, ih, List.zip_cons_cons, List.foldl_cons]
  cases l with
  | nil => rfl
  | cons a l => rw [List.foldl_cons, hnone, hrun, List.tail_cons]

lemma forall₂_zip {R : α → β → Prop} {l l' : List α} {m m' : List β} (h : List.Forall₂ R l m)
    (h' : List.Forall₂ R l' m') :
    List.Forall₂ (fun x y => R x.1 y.1 ∧ R x.2 y.2) (l.zip l') (m.zip m') := by
  induction h generalizing l' m' with
  | nil => exact .nil
  | cons hab _ ih =>
    cases h' with
    | nil => exact .nil
    | cons hab' h' => exact .cons ⟨hab, hab'⟩ (ih h')

lemma forall₂_zip_tail {R : α → β → Prop} {l : List α} {m : List β} (h : List.Forall₂ R l m) :
    List.Forall₂ (fun x y => R x.1 y.1 ∧ R x.2 y.2) (l.zip l.tail) (m.zip m.tail) := by
  cases h with
  | nil => exact .nil
  | cons hab h => exact forall₂_zip (.cons hab h) h

lemma isChain_of_forall₂ {R : α → β → Prop} {S : α → α → Prop} {T : β → β → Prop} {l : List α}
    {m : List β} (h : List.Forall₂ R l m)
    (hST : ∀ a a' b b', R a b → R a' b' → S a a' → T b b') (hl : l.IsChain S) : m.IsChain T := by
  induction h with
  | nil => exact List.isChain_nil
  | cons hab hrest ih =>
    cases hrest with
    | nil => exact List.isChain_singleton _
    | cons hab' hrest =>
      obtain ⟨hS, hl⟩ := List.isChain_cons_cons.mp hl
      exact List.isChain_cons_cons.mpr ⟨hST _ _ _ _ hab hab' hS, ih hl⟩

/-! ### A list without all but the last of several unmarked items in a row -/

section Kept

variable (mark : α → Bool)

/-- Of several unmarked items in a row the last one is kept. -/
def kept : List α → List α
  | [] => []
  | [a] => [a]
  | a :: b :: l => if mark a || mark b then a :: kept (b :: l) else kept (b :: l)

variable {mark}

lemma kept_cons_marked {a b : α} (h : mark a || mark b) (l : List α) :
    kept mark (a :: b :: l) = a :: kept mark (b :: l) := by
  rw [kept, if_pos h]

lemma kept_cons_unmarked {a b : α} (h : ¬ (mark a || mark b)) (l : List α) :
    kept mark (a :: b :: l) = kept mark (b :: l) := by
  rw [kept, if_neg h]

lemma exists_kept_eq_cons (a : α) (l : List α) :
    ∃ b m, kept mark (a :: l) = b :: m ∧ mark b = mark a ∧ (mark a → b = a) := by
  induction l generalizing a with
  | nil => exact ⟨a, [], rfl, rfl, fun _ => rfl⟩
  | cons c l ih =>
    by_cases h : (mark a || mark c)
    · exact ⟨a, kept mark (c :: l), kept_cons_marked h l, rfl, fun _ => rfl⟩
    · obtain ⟨b, m, hm, hb, -⟩ := ih c
      have hac : mark a = false ∧ mark c = false := by simpa using h
      refine ⟨b, m, (kept_cons_unmarked h l).trans hm, ?_, fun ha => ?_⟩
      · rw [hb, hac.1, hac.2]
      · rw [hac.1] at ha
        cases ha

/-- **The neighbours that are both marked stay neighbours**, and there are no new ones. -/
theorem filter_zip_kept {P : α × α → Bool} (hP : ∀ a b, P (a, b) → mark a ∧ mark b) (l : List α) :
    ((kept mark l).zip (kept mark l).tail).filter P = (l.zip l.tail).filter P := by
  have hneg : ∀ {a b}, mark b = false → P (a, b) = false := fun hb => by
    by_contra h
    have := (hP _ _ (by simpa using h)).2
    rw [hb] at this
    cases this
  induction l with
  | nil => rfl
  | cons a l ih =>
    cases l with
    | nil => rfl
    | cons b l =>
      rw [List.tail_cons, List.zip_cons_cons, List.filter_cons]
      by_cases h : (mark a || mark b)
      · obtain ⟨c, m, hm, hc, hcb⟩ : ∃ c m, kept mark (b :: l) = c :: m ∧ _ :=
          exists_kept_eq_cons b l
        rw [hm, List.tail_cons, List.tail_cons] at ih
        rw [kept_cons_marked h, hm, List.tail_cons, List.zip_cons_cons, List.filter_cons, ih]
        -- an unmarked `b` may be gone, but then the next item is not marked either
        by_cases hb : mark b
        · rw [hcb hb]
        · rw [Bool.not_eq_true] at hb
          rw [hneg hb, hneg (hc.trans hb), if_neg Bool.false_ne_true, if_neg Bool.false_ne_true]
      · have hb : mark b = false := by
          rw [Bool.or_eq_true, not_or, Bool.not_eq_true, Bool.not_eq_true] at h
          exact h.2
        rw [kept_cons_unmarked h, ih, hneg hb, if_neg Bool.false_ne_true, List.tail_cons]

/-- A marked item cuts the list. -/
lemma kept_append {x : α} (hx : mark x) (p t : List α) :
    kept mark (p ++ x :: t) = kept mark p ++ x :: kept mark t := by
  have hcons : kept mark (x :: t) = x :: kept mark t := by
    cases t with
    | nil => rfl
    | cons b t => exact kept_cons_marked (by rw [hx, Bool.true_or]) t
  induction p with
  | nil => exact hcons
  | cons a p ih =>
    cases p with
    | nil => exact (kept_cons_marked (by rw [hx, Bool.or_true]) t).trans (congrArg _ hcons)
    | cons b p =>
      by_cases h : (mark a || mark b)
      · rw [kept_cons_marked h, List.cons_append, List.cons_append, kept_cons_marked h,
          ← List.cons_append, ih, List.cons_append]
      · rw [kept_cons_unmarked h, List.cons_append, List.cons_append, kept_cons_unmarked h,
          ← List.cons_append, ih]

lemma exists_of_kept_eq_append {x : α} (hx : mark x) {l p' t' : List α}
    (h : kept mark l = p' ++ x :: t') :
    ∃ p t, l = p ++ x :: t ∧ kept mark p = p' ∧ kept mark t = t' := by
  induction l generalizing p' with
  | nil => exact absurd h.symm (List.append_ne_nil_of_right_ne_nil _ (List.cons_ne_nil _ _))
  | cons a l ih =>
    cases l with
    | nil =>
      obtain ⟨rfl, hcons⟩ | ⟨_, -, hnil⟩ := List.append_eq_cons_iff.mp h.symm
      · cases hcons
        exact ⟨[], [], rfl, rfl, rfl⟩
      · exact absurd hnil.symm (List.append_ne_nil_of_right_ne_nil _ (List.cons_ne_nil _ _))
    | cons b l =>
      by_cases hab : (mark a || mark b)
      · rw [kept_cons_marked hab] at h
        obtain ⟨rfl, hcons⟩ | ⟨p₀, rfl, hrest⟩ := List.append_eq_cons_iff.mp h.symm
        · cases hcons
          exact ⟨[], b :: l, rfl, rfl, rfl⟩
        · obtain ⟨p, t, hl, hp, ht⟩ := ih hrest
          refine ⟨a :: p, t, by rw [hl, List.cons_append], ?_, ht⟩
          cases p with
          | nil => rw [← hp]; rfl
          | cons c p =>
            cases hl
            rw [kept_cons_marked hab, hp]
      · rw [kept_cons_unmarked hab] at h
        obtain ⟨p, t, hl, hp, ht⟩ := ih h
        refine ⟨a :: p, t, by rw [hl, List.cons_append], ?_, ht⟩
        cases p with
        | nil =>
          cases hl
          rw [Bool.or_eq_true, not_or] at hab
          exact absurd hx hab.2
        | cons c p =>
          cases hl
          rw [kept_cons_unmarked hab, hp]

lemma filter_kept (l : List α) : (kept mark l).filter mark = l.filter mark := by
  induction l with
  | nil => rfl
  | cons a l ih =>
    cases l with
    | nil => rfl
    | cons b l =>
      by_cases h : (mark a || mark b)
      · rw [kept_cons_marked h, List.filter_cons, ih, ← List.filter_cons]
      · have ha : ¬ mark a = true := fun ha => h (by rw [ha, Bool.true_or])
        rw [kept_cons_unmarked h, ih, List.filter_cons_of_neg ha]

lemma exists_unmarked_kept {l : List α} :
    (∃ a ∈ kept mark l, mark a = false) ↔ ∃ a ∈ l, mark a = false := by
  induction l with
  | nil => exact Iff.rfl
  | cons a l ih =>
    cases l with
    | nil => exact Iff.rfl
    | cons b l =>
      by_cases h : (mark a || mark b)
      · simp only [kept_cons_marked h, List.exists_mem_cons_iff (a := a), ih]
      · have hb : mark b = false := by
          rw [Bool.or_eq_true, not_or, Bool.not_eq_true, Bool.not_eq_true] at h
          exact h.2
        rw [kept_cons_unmarked h, ih]
        exact ⟨fun ⟨c, hc, hm⟩ => ⟨c, List.mem_cons_of_mem a hc, hm⟩,
          fun _ => ⟨b, List.mem_cons_self, hb⟩⟩

lemma kept_map {γ : Type*} (f : α → γ) (m : γ → Bool) (hf : ∀ a, m (f a) = mark a) (l : List α) :
    kept m (l.map f) = (kept mark l).map f := by
  induction l with
  | nil => rfl
  | cons a l ih =>
    cases l with
    | nil => rfl
    | cons b l =>
      rw [List.map_cons] at ih
      by_cases h : (mark a || mark b)
      · rw [kept_cons_marked h, List.map_cons, List.map_cons, List.map_cons,
          kept_cons_marked (by rwa [hf, hf]), ih]
      · rw [kept_cons_unmarked h, List.map_cons, List.map_cons,
          kept_cons_unmarked (by rwa [hf, hf]), ih]

lemma isChain_kept (l : List α) : (kept mark l).IsChain fun a b => mark a ∨ mark b := by
  induction l with
  | nil => exact List.isChain_nil
  | cons a l ih =>
    cases l with
    | nil => exact List.isChain_singleton a
    | cons b l =>
      by_cases h : (mark a || mark b)
      · obtain ⟨c, m, hm, hc, -⟩ : ∃ c m, kept mark (b :: l) = c :: m ∧ _ := exists_kept_eq_cons b l
        rw [kept_cons_marked h, hm]
        rw [hm] at ih
        refine List.isChain_cons_cons.mpr ⟨?_, ih⟩
        rw [hc]
        exact (Bool.or_eq_true _ _).mp h
      · rw [kept_cons_unmarked h]
        exact ih

/-- Neighbours are related that are neighbours in the list or not both marked. -/
lemma isChain_kept_of {S : α → α → Prop} (hS : ∀ a b, ¬ (mark a ∧ mark b) → S a b) {l : List α}
    (hl : l.IsChain S) : (kept mark l).IsChain S := by
  induction l with
  | nil => exact List.isChain_nil
  | cons a l ih =>
    cases l with
    | nil => exact List.isChain_singleton a
    | cons b l =>
      obtain ⟨hab, hl⟩ := List.isChain_cons_cons.mp hl
      by_cases h : (mark a || mark b)
      · obtain ⟨c, m, hm, hc, hcb⟩ : ∃ c m, kept mark (b :: l) = c :: m ∧ _ :=
          exists_kept_eq_cons b l
        have hrest := ih hl
        rw [hm] at hrest
        rw [kept_cons_marked h, hm]
        refine List.isChain_cons_cons.mpr ⟨?_, hrest⟩
        by_cases hb : mark b
        · rwa [hcb hb]
        · exact hS a c fun hac => hb (hc ▸ hac.2)
      · rw [kept_cons_unmarked h]
        exact ih hl

/-! Lists of lists, each of marked items or one that is not marked. -/

lemma kept_append_marked {g : List α} (hg : ∀ a ∈ g, mark a) (t : List α) :
    kept mark (g ++ t) = g ++ kept mark t := by
  induction g with
  | nil => rfl
  | cons a g ih =>
    have hcut := kept_append (hg a List.mem_cons_self) [] (g ++ t)
    rw [List.nil_append] at hcut
    rw [List.cons_append, hcut, ih fun b hb => hg b (List.mem_cons_of_mem a hb)]
    rfl

lemma flatten_kept {gs : List (List α)}
    (h : ∀ g ∈ gs, g ≠ [] ∧ ((∀ a ∈ g, mark a) ∨ ∃ a, g = [a])) :
    (kept (fun g => g.head?.any mark) gs).flatten = kept mark gs.flatten := by
  induction gs with
  | nil => rfl
  | cons g gs ih =>
    obtain ⟨hne, hg⟩ := h g List.mem_cons_self
    have hgs := ih fun g' hg' => h g' (List.mem_cons_of_mem g hg')
    cases gs with
    | nil =>
      rw [List.flatten_cons, List.flatten_nil, List.append_nil]
      rcases hg with hall | ⟨a, rfl⟩
      · have hkept := kept_append_marked hall []
        rw [List.append_nil] at hkept
        rw [hkept]
        simp [kept]
      · rfl
    | cons g' gs =>
      obtain ⟨hne', -⟩ := h g' (List.mem_cons_of_mem g List.mem_cons_self)
      obtain ⟨a, t, rfl⟩ := List.exists_cons_of_ne_nil hne
      obtain ⟨c, u, rfl⟩ := List.exists_cons_of_ne_nil hne'
      by_cases hac : (mark a || mark c)
      · rw [kept_cons_marked (by simpa using hac), List.flatten_cons, hgs, List.flatten_cons]
        rcases hg with hall | ⟨b, hb⟩
        · exact (kept_append_marked hall _).symm
        · cases hb
          exact (kept_cons_marked hac _).symm
      · rw [kept_cons_unmarked (by simpa using hac), hgs, List.flatten_cons]
        rw [Bool.or_eq_true, not_or] at hac
        rcases hg with hall | ⟨b, hb⟩
        · exact absurd (hall a List.mem_cons_self) hac.1
        · cases hb
          exact (kept_cons_unmarked (by simpa using hac) _).symm

end Kept

/-! ### Marked items with something unmarked between them -/

section Separated

/-- Between the values number `i` and `j` of a list there is a `none`. -/
def Separated (l : List (Option α)) (i j : ℕ) : Prop :=
  ∃ p x m y q, l = p ++ some x :: (m ++ some y :: q) ∧ p.reduceOption.length = i ∧
    i + m.reduceOption.length + 1 = j ∧ none ∈ m

lemma reduceOption_kept (l : List (Option α)) :
    (kept Option.isSome l).reduceOption = l.reduceOption := by
  have hfilter : ∀ l : List (Option α), l.reduceOption = (l.filter Option.isSome).reduceOption := by
    intro l
    induction l with
    | nil => rfl
    | cons a l ih => cases a <;> simp [ih]
  rw [hfilter, filter_kept, ← hfilter]

lemma none_mem_kept {l : List (Option α)} : none ∈ kept Option.isSome l ↔ none ∈ l := by
  have hiff : ∀ l : List (Option α), none ∈ l ↔ ∃ a ∈ l, a.isSome = false := by
    intro l
    simp [Option.isSome_eq_false_iff]
  rw [hiff, hiff, exists_unmarked_kept]

/-- **What is separated stays separated** when of several `none` in a row only the last is kept. -/
theorem separated_kept {l : List (Option α)} {i j : ℕ} :
    Separated (kept Option.isSome l) i j ↔ Separated l i j := by
  constructor
  · rintro ⟨p', x, m', y, q', hl, hi, hj, hnone⟩
    obtain ⟨p, t, rfl, rfl, ht⟩ := exists_of_kept_eq_append rfl hl
    obtain ⟨m, q, rfl, rfl, -⟩ := exists_of_kept_eq_append rfl ht
    rw [reduceOption_kept] at hi hj
    exact ⟨p, x, m, y, q, rfl, hi, hj, none_mem_kept.mp hnone⟩
  · rintro ⟨p, x, m, y, q, rfl, hi, hj, hnone⟩
    refine ⟨kept Option.isSome p, x, kept Option.isSome m, y, kept Option.isSome q, ?_, ?_, ?_,
      none_mem_kept.mpr hnone⟩
    · rw [kept_append rfl, kept_append rfl]
    · rw [reduceOption_kept, hi]
    · rw [reduceOption_kept, hj]

end Separated

end Cinst.Lib
