import Mathlib.Data.Fintype.Perm
import Mathlib.Tactic

/-!
Facts about lists that the models share: renaming the elements of a list by a permutation of the
type, and association lists with distinct keys.
-/

namespace Cinst.Lib

/-- Two lists of distinct elements, of the same length, differ by a permutation of the type that
moves nothing else. -/
theorem exists_perm_map_eq {α : Type*} [DecidableEq α] {l l' : List α} (hn : l.Nodup)
    (hn' : l'.Nodup) (hlen : l.length = l'.length) :
    ∃ π : Equiv.Perm α, l.map π = l' ∧ ∀ x, x ∉ l → x ∉ l' → π x = x := by
  induction l generalizing l' with
  | nil =>
    rw [List.length_eq_zero_iff.mp hlen.symm]
    exact ⟨1, rfl, fun _ _ _ => rfl⟩
  | cons x l ih =>
    match l', hn', hlen with
    | y :: l', hn', hlen =>
      obtain ⟨hx, hl⟩ := List.nodup_cons.mp hn
      obtain ⟨hy, hl'⟩ := List.nodup_cons.mp hn'
      obtain ⟨π, hπ, hfix⟩ := ih hl hl' (by simpa using hlen)
      -- the permutation of the tails, and then a swap that sends the head where it belongs
      refine ⟨π.trans (Equiv.swap (π x) y), ?_, fun z hz hz' => ?_⟩
      · rw [List.map_cons, Equiv.trans_apply, Equiv.swap_apply_left, ← hπ]
        congr 1
        refine List.map_congr_left fun z hz => ?_
        have hzx : π z ≠ π x := fun e => hx (π.injective e ▸ hz)
        have hzy : π z ≠ y := fun e => hy (hπ ▸ e ▸ List.mem_map_of_mem hz)
        rw [Equiv.trans_apply, Equiv.swap_apply_of_ne_of_ne hzx hzy]
      · rw [List.mem_cons, not_or] at hz hz'
        have hzz := hfix z hz.2 hz'.2
        have hzx : z ≠ π x := fun e => hz.1 (π.injective (hzz.trans e))
        rw [Equiv.trans_apply, hzz, Equiv.swap_apply_of_ne_of_ne hzx hz'.1]

lemma lookup_eq_some_iff_mem {κ ν : Type*} [DecidableEq κ] {l : List (κ × ν)}
    (h : l.Pairwise fun p q => p.1 ≠ q.1) {k : κ} {v : ν} :
    l.lookup k = some v ↔ (k, v) ∈ l := by
  induction l with
  | nil => simp
  | cons p l ih =>
    obtain ⟨hp, hl⟩ := List.pairwise_cons.mp h
    obtain ⟨j, w⟩ := p
    rw [List.lookup_cons, List.mem_cons, Prod.mk.injEq]
    by_cases hk : k = j
    · subst hk
      have : (k, v) ∉ l := fun hm => hp (k, v) hm rfl
      simp [this, eq_comm]
    · rw [show (k == j) = false by simpa using hk]
      simpa [hk] using ih hl

/-- Two ways to point at an element of a list: they point at the same place, or the second points
into the first's left or right part. -/
lemma split_cases {α : Type*} {p q p' q' : List α} {x x' : α}
    (h : p ++ x :: q = p' ++ x' :: q') :
    (p = p' ∧ x = x' ∧ q = q') ∨ (∃ l, p = p' ++ x' :: l ∧ q' = l ++ x :: q) ∨
      ∃ l, p' = p ++ x :: l ∧ q = l ++ x' :: q' := by
  rcases List.append_eq_append_iff.mp h with ⟨l, hp', hl⟩ | ⟨l, hp, hl⟩
  · rcases List.cons_eq_append_iff.mp hl with ⟨rfl, hx⟩ | ⟨l', rfl, hq⟩
    · cases hx
      exact Or.inl ⟨by simpa using hp'.symm, rfl, rfl⟩
    · exact Or.inr (Or.inr ⟨l', hp', hq⟩)
  · rcases List.cons_eq_append_iff.mp hl with ⟨rfl, hx⟩ | ⟨l', rfl, hq⟩
    · cases hx
      exact Or.inl ⟨by simpa using hp, rfl, rfl⟩
    · exact Or.inr (Or.inl ⟨l', hp, hq⟩)

/-- Splitting a list by a key, one part for each key, only permutes it. -/
lemma flatten_map_filter_perm {α κ : Type*} [DecidableEq κ] (f : α → κ) {ks : List κ}
    (hn : ks.Nodup) {l : List α} (hl : ∀ x ∈ l, f x ∈ ks) :
    (ks.map fun k => l.filter fun x => f x = k).flatten.Perm l := by
  induction ks generalizing l with
  | nil =>
    have : l = [] := List.eq_nil_iff_forall_not_mem.mpr fun x hx => absurd (hl x hx) (by simp)
    simp [this]
  | cons k ks ih =>
    obtain ⟨hk, hks⟩ := List.nodup_cons.mp hn
    have hrest : (ks.map fun k' => l.filter fun x => f x = k') =
        ks.map fun k' => (l.filter fun x => ¬ f x = k).filter fun x => f x = k' := by
      refine List.map_congr_left fun k' hk' => ?_
      rw [List.filter_filter]
      refine List.filter_congr fun x _ => ?_
      by_cases hx : f x = k'
      · have hne : k' ≠ k := fun e => hk (e ▸ hk')
        simp [hx, hne]
      · simp [hx]
    rw [List.map_cons, List.flatten_cons, hrest]
    refine (List.Perm.append_left _ (ih hks fun x hx => ?_)).trans ?_
    · rw [List.mem_filter] at hx
      exact (List.mem_cons.mp (hl x hx.1)).resolve_left (by simpa using hx.2)
    · simpa using List.filter_append_perm (fun x => decide (f x = k)) l

lemma mem_or_eq_of_idxOf_le {α : Type*} [DecidableEq α] {l l' : List α} {i j : α}
    (hn : (l ++ j :: l').Nodup) (h : (l ++ j :: l').idxOf i ≤ (l ++ j :: l').idxOf j) :
    i ∈ l ∨ i = j := by
  have hj : j ∉ l := fun hm => (List.nodup_append.mp hn).2.2 _ hm _ (by simp) rfl
  rw [List.idxOf_append_of_notMem hj, List.idxOf_cons_self] at h
  by_cases hi : i ∈ l
  · exact Or.inl hi
  · rw [List.idxOf_append_of_notMem hi] at h
    right
    by_contra hne
    rw [List.idxOf_cons_ne _ (Ne.symm hne)] at h
    omega

lemma flatten_split {α : Type*} {ls : List (List α)} {p q : List α} {x : α}
    (h : ls.flatten = p ++ x :: q) :
    ∃ as b c ds, ls = as ++ (b ++ x :: c) :: ds ∧ p = as.flatten ++ b := by
  induction ls generalizing p with
  | nil => simp at h
  | cons l ls ih =>
    rw [List.flatten_cons] at h
    rcases List.append_eq_append_iff.mp h with ⟨p', hp, hrest⟩ | ⟨c, hl, hrest⟩
    · obtain ⟨as, b, c, ds, rfl, rfl⟩ := ih hrest
      exact ⟨l :: as, b, c, ds, rfl, by rw [hp]; simp⟩
    · cases c with
      | nil =>
        obtain ⟨as, b, c, ds, rfl, hb⟩ := ih (p := []) hrest.symm
        exact ⟨l :: as, b, c, ds, rfl, by simp only [List.append_nil] at hl; simp [hl, ← hb]⟩
      | cons y c =>
        cases hrest
        exact ⟨[], p, c, ls, by rw [hl]; rfl, rfl⟩

/-! ### Distinct elements in the order they first occur -/

section EraseDups

variable {α : Type*} [BEq α] [LawfulBEq α]

lemma eraseDups_snoc (l : List α) (x : α) :
    (l ++ [x]).eraseDups = if x ∈ l then l.eraseDups else l.eraseDups ++ [x] := by
  rw [List.eraseDups_append, List.removeAll]
  by_cases h : x ∈ l <;> simp [h, List.eraseDups_cons]

lemma nodup_eraseDups (l : List α) : l.eraseDups.Nodup := by
  induction l using List.reverseRecOn with
  | nil => exact List.nodup_nil
  | append_singleton l x ih =>
    rw [eraseDups_snoc]
    split
    · exact ih
    · rename_i hx
      rw [List.nodup_append]
      refine ⟨ih, List.nodup_singleton x, ?_⟩
      intro a ha b hb e
      rw [List.mem_singleton.mp hb] at e
      exact hx (List.mem_eraseDups.mp (e ▸ ha))

lemma eraseDups_of_nodup {l : List α} (h : l.Nodup) : l.eraseDups = l := by
  induction l using List.reverseRecOn with
  | nil => rfl
  | append_singleton l x ih =>
    obtain ⟨hl, -, hx⟩ := List.nodup_append.mp h
    rw [eraseDups_snoc, if_neg fun hm => hx x hm x (List.mem_singleton_self x) rfl, ih hl]

lemma idxOf_eraseDups_snoc {l : List α} {x y : α} (hy : y ∈ l) :
    (l ++ [x]).eraseDups.idxOf y = l.eraseDups.idxOf y := by
  rw [eraseDups_snoc]
  split
  · rfl
  · exact List.idxOf_append_of_mem (List.mem_eraseDups.mpr hy)

lemma idxOf_eraseDups_new {l : List α} {x : α} (hx : x ∉ l) :
    (l ++ [x]).eraseDups.idxOf x = l.eraseDups.length := by
  rw [eraseDups_snoc, if_neg hx,
    List.idxOf_append_of_notMem (fun h => hx (List.mem_eraseDups.mp h)), List.idxOf_cons_self,
    Nat.add_zero]

end EraseDups

lemma lookup_mapIdx {α κ ν : Type*} [BEq α] [LawfulBEq α] [BEq κ] [LawfulBEq κ] {f : α → κ}
    (hf : Function.Injective f) (g : ℕ → ν) (l : List α) (x : α) :
    (l.mapIdx fun i y => (f y, g i)).lookup (f x) =
      if x ∈ l then some (g (l.idxOf x)) else none := by
  induction l generalizing g with
  | nil => rfl
  | cons y l ih =>
    rw [List.mapIdx_cons, List.lookup_cons]
    by_cases hxy : x = y
    · subst hxy
      simp
    · have hne : (f x == f y) = false := beq_eq_false_iff_ne.mpr fun e => hxy (hf e)
      rw [hne, ih fun i => g (i + 1), List.idxOf_cons_ne _ (Ne.symm hxy)]
      simp [hxy]

lemma filter_mapIdx_fst {α β : Type*} (f : α → β) (l : List α) (n : ℕ) :
    (l.mapIdx fun i x => (i, f x)).filter (fun p => p.1 = n) =
      (l[n]?.map fun x => (n, f x)).toList := by
  induction l using List.reverseRecOn with
  | nil => rfl
  | append_singleton l x ih =>
    rw [List.mapIdx_concat, List.filter_append, ih]
    rcases lt_trichotomy n l.length with h | rfl | h
    · simp [List.getElem?_append_left h, h.ne']
    · simp
    · rw [List.getElem?_eq_none h.le, List.getElem?_eq_none (by simpa using h)]
      simp [h.ne]

/-! ### Folds with a condition -/

section FoldIte

variable {α σ : Type*} {p : α → Bool} {f : σ → α → σ} {l : List α}

lemma foldl_ite_of_not (h : ∀ x ∈ l, p x = false) (s : σ) :
    l.foldl (fun s x => if p x then f s x else s) s = s := by
  induction l with
  | nil => rfl
  | cons x l ih =>
    rw [List.foldl_cons, h x (List.mem_cons_self ..)]
    exact ih fun y hy => h y (List.mem_cons_of_mem _ hy)

lemma foldl_ite_of_unique {x : α} (hn : l.Nodup) (hx : x ∈ l) (hp : p x = true)
    (hu : ∀ y ∈ l, p y = true → y = x) (s : σ) :
    l.foldl (fun s x => if p x then f s x else s) s = f s x := by
  induction l generalizing s with
  | nil => cases hx
  | cons y l ih =>
    obtain ⟨hy, hn⟩ := List.nodup_cons.mp hn
    rw [List.foldl_cons]
    rcases List.mem_cons.mp hx with rfl | hx
    · rw [if_pos hp]
      refine foldl_ite_of_not (fun z hz => ?_) _
      cases hpz : p z with
      | false => rfl
      | true => exact absurd (hu z (List.mem_cons_of_mem _ hz) hpz ▸ hz) hy
    · have hne : ¬ p y = true := fun hpy => hy (hu y (List.mem_cons_self ..) hpy ▸ hx)
      rw [if_neg hne]
      exact ih hn hx (fun z hz => hu z (List.mem_cons_of_mem _ hz)) s

end FoldIte

lemma forall₂_getElem? {α β : Type*} {R : α → β → Prop} {l : List α} {l' : List β}
    (h : List.Forall₂ R l l') {i : ℕ} {x : α} (hx : l[i]? = some x) :
    ∃ y, l'[i]? = some y ∧ R x y := by
  induction h generalizing i with
  | nil => cases hx
  | cons hxy _ ih =>
    cases i with
    | zero =>
      cases hx
      exact ⟨_, rfl, hxy⟩
    | succ i => exact ih hx

lemma exists_pairs {α β : Type*} {R : α → β → Prop} {l : List α} (h : ∀ x ∈ l, ∃ y, R x y) :
    ∃ ps : List (α × β), l = ps.map Prod.fst ∧ ∀ p ∈ ps, R p.1 p.2 := by
  induction l with
  | nil => exact ⟨[], rfl, by simp⟩
  | cons x l ih =>
    obtain ⟨y, hy⟩ := h x List.mem_cons_self
    obtain ⟨ps, rfl, hps⟩ := ih fun z hz => h z (List.mem_cons_of_mem x hz)
    exact ⟨(x, y) :: ps, rfl, List.forall_mem_cons.mpr ⟨hy, hps⟩⟩

/-- What is collected name by name is collected thing by thing, when the names are those of some of
the things and nothing is collected for the others. -/
theorem exists_perm_flatMap {α τ β : Type*} {f : τ → α} {g : α → List β} {g' : τ → List β}
    {names : List α} {ts : List τ} (hn : names.Nodup) (hts : (ts.map f).Nodup)
    (hmem : ∀ n ∈ names, ∃ t ∈ ts, f t = n) (hg : ∀ t ∈ ts, f t ∈ names → g (f t) = g' t)
    (hother : ∀ t ∈ ts, f t ∉ names → g' t = []) :
    ∃ order : List τ, order.Perm ts ∧ names.flatMap g = order.flatMap g' := by
  induction names generalizing ts with
  | nil =>
    refine ⟨ts, .refl _, ?_⟩
    rw [List.flatMap_nil, eq_comm, List.flatMap_eq_nil_iff]
    exact fun t ht => hother t ht List.not_mem_nil
  | cons n names ih =>
    obtain ⟨t, ht, rfl⟩ := hmem n List.mem_cons_self
    obtain ⟨hnew, hrest⟩ := List.nodup_cons.mp hn
    obtain ⟨l, r, rfl⟩ := List.append_of_mem ht
    rw [List.map_append, List.map_cons, List.nodup_middle] at hts
    obtain ⟨hfresh, hts⟩ := List.nodup_cons.mp hts
    rw [← List.map_append] at hts hfresh
    have hne : ∀ {t' : τ}, t' ∈ l ++ r → f t' ≠ f t := fun ht' e => hfresh (e ▸ List.mem_map_of_mem ht')
    have hsub : ∀ {t' : τ}, t' ∈ l ++ r → t' ∈ l ++ t :: r := fun ht' =>
      List.perm_middle.symm.subset (List.mem_cons_of_mem t ht')
    have hnames : ∀ n ∈ names, ∃ t' ∈ l ++ r, f t' = n := by
      intro n hin
      obtain ⟨t', ht', rfl⟩ := hmem n (List.mem_cons_of_mem _ hin)
      refine ⟨t', ?_, rfl⟩
      rcases List.mem_cons.mp (List.perm_middle.subset ht') with rfl | ht'
      · exact absurd hin hnew
      · exact ht'
    obtain ⟨order, hperm, hflat⟩ := ih hrest hts hnames
      (fun t' ht' hin => hg t' (hsub ht') (List.mem_cons_of_mem _ hin))
      fun t' ht' hnot => hother t' (hsub ht') fun hin => (List.mem_cons.mp hin).elim (hne ht') hnot
    refine ⟨t :: order, (hperm.cons t).trans List.perm_middle.symm, ?_⟩
    rw [List.flatMap_cons, List.flatMap_cons, hflat, hg t ht List.mem_cons_self]

end Cinst.Lib
