import Mathlib.Algebra.Order.BigOperators.Group.Multiset
import Mathlib.Data.Finset.Card
import Mathlib.Data.List.ReduceOption
import Mathlib.Tactic

/-!
Queries of SQL over lists of rows, as SQLite evaluates them: comparisons with `NULL`, joins, groups
and aggregates. Sums are exact: `SumFits` says when `SUM` gives them. The order of the groups is not
that of a query.
-/

namespace Cinst.Lib.Sql

/-! ### Conditions -/

/-- The value of a column; `none` is `NULL`. -/
abbrev Cell (ν : Type*) := Option ν

/-- The truth value of a condition; `none` is unknown. -/
abbrev Cond := Option Bool

section Cond

variable {ν : Type*}

/-- `=`. -/
def cellEq [DecidableEq ν] (a b : Cell ν) : Cond := Option.map₂ (fun x y => decide (x = y)) a b

/-- `<`. -/
def cellLt [LinearOrder ν] (a b : Cell ν) : Cond := Option.map₂ (fun x y => decide (x < y)) a b

/-- `NOT`. -/
def condNot (c : Cond) : Cond := c.map Bool.not

/-- `OR`. -/
def condOr : Cond → Cond → Cond
  | some true, _ => some true
  | _, some true => some true
  | some false, some false => some false
  | _, _ => none

/-- `IN`, for the values of a list or of a subquery. -/
def cellIn [DecidableEq ν] (a : Cell ν) (l : List (Cell ν)) : Cond :=
  if l = [] then some false
  else if a = none then none
  else if a ∈ l then some true
  else if none ∈ l then none
  else some false

/-- The letters that `LIKE` takes for one another: it ignores the case of ASCII letters. -/
def sameLetter (c d : Char) : Bool := c.toLower == d.toLower

/-- A text has the form of a pattern of `LIKE`. -/
def matchesPattern : List Char → List Char → Bool
  | [], s => s.isEmpty
  | c :: p, s =>
    if c = '%' then s.tails.any fun t => matchesPattern p t
    else
      match s with
      | [] => false
      | d :: s => (c = '_' || sameLetter c d) && matchesPattern p s

/-- `LIKE`. -/
def cellLike (a : Cell (List Char)) (pattern : List Char) : Cond := a.map (matchesPattern pattern)

@[simp] lemma cellEq_eq_true_iff [DecidableEq ν] {a b : Cell ν} :
    cellEq a b = some true ↔ ∃ x, a = some x ∧ b = some x := by
  cases a with
  | none => simp [cellEq]
  | some x =>
    cases b with
    | none => simp [cellEq]
    | some y => simp [cellEq, eq_comm]

@[simp] lemma cellLt_eq_true_iff [LinearOrder ν] {a b : Cell ν} :
    cellLt a b = some true ↔ ∃ x y, a = some x ∧ b = some y ∧ x < y := by
  cases a with
  | none => simp [cellLt]
  | some x =>
    cases b with
    | none => simp [cellLt]
    | some y => simp [cellLt]

@[simp] lemma condOr_eq_true_iff {c d : Cond} :
    condOr c d = some true ↔ c = some true ∨ d = some true := by
  rcases c with _ | _ | _ <;> rcases d with _ | _ | _ <;> simp [condOr]

@[simp] lemma cellLike_eq_true_iff {a : Cell (List Char)} {pattern : List Char} :
    cellLike a pattern = some true ↔ ∃ s, a = some s ∧ matchesPattern pattern s = true := by
  cases a <;> simp [cellLike]

lemma cellIn_eq_true_iff [DecidableEq ν] {a : Cell ν} {l : List (Cell ν)} :
    cellIn a l = some true ↔ ∃ x, a = some x ∧ some x ∈ l := by
  cases a with
  | none => simp [cellIn]
  | some x =>
    by_cases hl : l = []
    · simp [cellIn, hl]
    · by_cases hx : some x ∈ l
      · simp [cellIn, hl, hx]
      · by_cases hn : none ∈ l <;> simp [cellIn, hl, hx, hn]

lemma condNot_cellIn_eq_true_iff [DecidableEq ν] {x : ν} {l : List ν} :
    condNot (cellIn (some x) (l.map some)) = some true ↔ x ∉ l := by
  by_cases hl : l = []
  · simp [cellIn, condNot, hl]
  · by_cases hx : x ∈ l <;> simp [cellIn, condNot, hl, hx]

/-- **A pattern that ends in `%`** asks for a prefix, in lower or upper case. -/
theorem matchesPattern_prefix {w : List Char} (hw : '%' ∉ w ∧ '_' ∉ w) (s : List Char) :
    matchesPattern (w ++ ['%']) s ↔ w.map Char.toLower <+: s.map Char.toLower := by
  induction w generalizing s with
  | nil => simp [matchesPattern]
  | cons c w ih =>
    simp only [List.mem_cons, not_or] at hw
    cases s with
    | nil => simp [matchesPattern, Ne.symm hw.1.1]
    | cons d s =>
      have ih' := ih ⟨hw.1.2, hw.2.2⟩ s
      simp [matchesPattern, sameLetter, Ne.symm hw.1.1, Ne.symm hw.2.1, ih', List.cons_prefix_cons]

end Cond

/-! ### Rows -/

section Rows

variable {α β κ ν : Type*}

/-- `WHERE`, and the condition of a join: the rows for which it is true. -/
def select (cond : α → Cond) (l : List α) : List α := l.filter fun a => cond a = some true

/-- `INNER JOIN`. -/
def innerJoin (on : α → β → Cond) (l : List α) (r : List β) : List (α × β) :=
  l.flatMap fun a => (select (on a) r).map fun b => (a, b)

/-- The rows that are joined to a row, or `NULL` in all columns when there is none. -/
def orNull (l : List β) : List (Option β) := if l.isEmpty then [none] else l.map some

/-- `LEFT JOIN`. -/
def leftJoin (on : α → β → Cond) (l : List α) (r : List β) : List (α × Option β) :=
  l.flatMap fun a => (orNull (select (on a) r)).map fun o => (a, o)

/-- `GROUP BY`: the groups with their keys. -/
def groupBy [DecidableEq κ] (key : α → κ) (l : List α) : List (κ × List α) :=
  (l.map key).dedup.map fun k => (k, l.filter fun a => key a = k)

/-- The rows of a query with `GROUP BY`, unless one of its groups has sums that do not fit. -/
def groupRows [DecidableEq κ] {γ : Type*} (key : α → κ) (fits : List α → Prop) [DecidablePred fits]
    (row : List α → γ) (l : List α) : Option (List (κ × γ)) :=
  if ∀ g ∈ groupBy key l, fits g.2 then some ((groupBy key l).map fun g => (g.1, row g.2)) else none

/-- `MAX`. -/
def max [LinearOrder ν] (l : List (Cell ν)) : Cell ν := l.reduceOption.max?

/-- `SUM`. -/
def sum [AddMonoid ν] (l : List (Cell ν)) : Cell ν :=
  if l.reduceOption = [] then none else some l.reduceOption.sum

/-- A number that SQLite has as an integer. -/
def FitsInteger (v : ℤ) : Prop := -2 ^ 63 ≤ v ∧ v < 2 ^ 63

instance (v : ℤ) : Decidable (FitsInteger v) := inferInstanceAs (Decidable (_ ∧ _))

/-- `SUM` does not fail with an overflow, in whatever order it adds the values: the sums of the positive
and of the negative ones are the largest and the smallest it can come to. -/
def SumFits (l : List (Cell ℤ)) : Prop :=
  (l.reduceOption.map (· ⊔ 0)).sum < 2 ^ 63 ∧ -2 ^ 63 ≤ (l.reduceOption.map (· ⊓ 0)).sum

instance (l : List (Cell ℤ)) : Decidable (SumFits l) := inferInstanceAs (Decidable (_ ∧ _))

/-- `-`. -/
def cellSub [Sub ν] (a b : Cell ν) : Cell ν := Option.map₂ (· - ·) a b

/-- `COUNT(DISTINCT ..)`. -/
def countDistinct [DecidableEq ν] (l : List (Cell ν)) : ℕ := l.reduceOption.dedup.length

/-- A column of a group that is not aggregated: its value in one of the rows. -/
def bare (column : α → Cell ν) (group : List α) : Cell ν := group.head?.bind column

@[simp] lemma mem_select {cond : α → Cond} {l : List α} {a : α} :
    a ∈ select cond l ↔ a ∈ l ∧ cond a = some true := by
  simp [select]

@[simp] lemma mem_innerJoin {on : α → β → Cond} {l : List α} {r : List β} {p : α × β} :
    p ∈ innerJoin on l r ↔ p.1 ∈ l ∧ p.2 ∈ r ∧ on p.1 p.2 = some true := by
  obtain ⟨a, b⟩ := p
  simp only [innerJoin, List.mem_flatMap, List.mem_map, mem_select, Prod.mk.injEq]
  constructor
  · rintro ⟨_, ha, _, hb, rfl, rfl⟩
    exact ⟨ha, hb⟩
  · rintro ⟨ha, hb⟩
    exact ⟨a, ha, b, hb, rfl, rfl⟩

@[simp] lemma mem_orNull {l : List β} {o : Option β} :
    o ∈ orNull l ↔ (∃ b ∈ l, o = some b) ∨ l = [] ∧ o = none := by
  cases l <;> simp [orNull, eq_comm]

lemma mem_leftJoin {on : α → β → Cond} {l : List α} {r : List β} {p : α × Option β} :
    p ∈ leftJoin on l r ↔ p.1 ∈ l ∧
      ((∃ b ∈ r, on p.1 b = some true ∧ p.2 = some b) ∨
        (∀ b ∈ r, on p.1 b ≠ some true) ∧ p.2 = none) := by
  obtain ⟨a, o⟩ := p
  have hnone : select (on a) r = [] ↔ ∀ b ∈ r, on a b ≠ some true := by
    simp [select, List.filter_eq_nil_iff]
  have hsome : (∃ b ∈ select (on a) r, o = some b) ↔ ∃ b ∈ r, on a b = some true ∧ o = some b := by
    simp [and_assoc]
  simp only [leftJoin, List.mem_flatMap, List.mem_map, mem_orNull, Prod.mk.injEq]
  rw [← hnone, ← hsome]
  constructor
  · rintro ⟨_, ha, _, ho, rfl, rfl⟩
    exact ⟨ha, ho⟩
  · rintro ⟨ha, ho⟩
    exact ⟨a, ha, o, ho, rfl, rfl⟩

lemma leftJoin_eq_map {on : α → β → Cond} {l : List α} {r : List β} {f : α → Option β}
    (h : ∀ a, select (on a) r = (f a).toList) : leftJoin on l r = l.map fun a => (a, f a) := by
  have hrow : ∀ a, orNull (select (on a) r) = [f a] := by
    intro a
    rw [h]
    cases f a <;> simp [orNull]
  simp [leftJoin, hrow, ← List.map_eq_flatMap]

lemma innerJoin_eq_filterMap {on : α → β → Cond} {l : List α} {r : List β} {f : α → Option β}
    (h : ∀ a, select (on a) r = (f a).toList) :
    innerJoin on l r = l.filterMap fun a => (f a).map fun b => (a, b) := by
  rw [innerJoin, List.filterMap_eq_flatMap_toList]
  congr 1
  funext a
  rw [h]
  cases f a <;> rfl

lemma select_eq_toList {cond : α → Cond} {l : List α}
    (h : l.Pairwise fun a b => cond a = some true → cond b ≠ some true) :
    select cond l = (l.find? fun a => cond a = some true).toList := by
  induction l with
  | nil => rfl
  | cons a l ih =>
    obtain ⟨ha, hl⟩ := List.pairwise_cons.mp h
    by_cases hc : cond a = some true
    · have hnone : l.filter (fun b => cond b = some true) = [] := by
        simpa [List.filter_eq_nil_iff] using fun b hb => ha b hb hc
      simp [select, hc, hnone]
    · have ih' := ih hl
      simp only [select] at ih'
      simp [select, hc, ih']

/-! ### Conditions and sums over a join -/

lemma filter_innerJoin_left (on : α → β → Cond) (l : List α) (r : List β) (p : α → Bool) :
    (innerJoin on l r).filter (fun x => p x.1) = innerJoin on (l.filter p) r := by
  have hrow : ∀ a, ((select (on a) r).map fun b => (a, b)).filter (fun x => p x.1) =
      if p a then (select (on a) r).map fun b => (a, b) else [] := by
    intro a
    split_ifs with ha
    · refine List.filter_eq_self.mpr fun x hx => ?_
      obtain ⟨b, -, rfl⟩ := List.mem_map.mp hx
      exact ha
    · refine List.filter_eq_nil_iff.mpr fun x hx => ?_
      obtain ⟨b, -, rfl⟩ := List.mem_map.mp hx
      exact ha
  induction l with
  | nil => rfl
  | cons a l ih =>
    rw [innerJoin, List.flatMap_cons, List.filter_append, hrow, ← innerJoin, ih, List.filter_cons]
    split_ifs with ha
    · rfl
    · rfl

lemma select_innerJoin_right (on : α → β → Cond) (l : List α) (r : List β) (c : β → Cond) :
    select (fun x => c x.2) (innerJoin on l r) = innerJoin on l (select c r) := by
  simp only [innerJoin, select, List.filter_flatMap, List.filter_map, List.filter_filter]
  congr 1
  funext a
  congr 1
  refine List.filter_congr fun b _ => ?_
  rw [Bool.and_comm]
  rfl

/-- **A left join under a condition on the right table** that is not true of `NULL` is an inner
join. -/
theorem select_leftJoin (on : α → β → Cond) (l : List α) (r : List β) (c : β → Cond) :
    select (fun x => x.2.bind c) (leftJoin on l r) =
      (innerJoin on l (select c r)).map fun x => (x.1, some x.2) := by
  have hrow : ∀ a : α, ((orNull (select (on a) r)).map fun o => (a, o)).filter
      (fun x => x.2.bind c = some true) =
        ((select (on a) (select c r)).map fun b => (a, b)).map fun x => (x.1, some x.2) := by
    intro a
    have hswap : select (on a) (select c r) = (select (on a) r).filter fun b => c b = some true := by
      simp only [select, List.filter_filter]
      exact List.filter_congr fun b _ => Bool.and_comm ..
    rw [hswap]
    cases hr : select (on a) r with
    | nil => simp [orNull]
    | cons b bs =>
      rw [orNull, List.isEmpty_cons, if_neg (by simp), List.map_map, List.filter_map, List.map_map]
      rfl
  rw [select, leftJoin, List.filter_flatMap, innerJoin, List.map_flatMap]
  congr 1
  funext a
  exact hrow a

/-- **A sum over a join**: what is said of a row of the right table counts once for every row of the
left table that it is joined to. -/
theorem sum_innerJoin_snd (on : α → β → Cond) (l : List α) (r : List β) (f : β → ℤ) :
    ((innerJoin on l r).map fun x => f x.2).sum =
      (r.map fun b => (l.countP fun a => on a b = some true) * f b).sum := by
  induction l with
  | nil => simp [innerJoin]
  | cons a l ih =>
    have hone : ((select (on a) r).map f).sum =
        (r.map fun b => if on a b = some true then f b else 0).sum := by
      clear ih
      induction r with
      | nil => rfl
      | cons b r ihr =>
        rw [List.map_cons, List.sum_cons, ← ihr, select, select, List.filter_cons]
        by_cases hb : on a b = some true
        · simp [hb]
        · simp [hb]
    rw [innerJoin, List.flatMap_cons, List.map_append, List.sum_append, ← innerJoin, ih, List.map_map]
    have hfst : (select (on a) r).map ((fun x : α × β => f x.2) ∘ fun b => (a, b)) =
        (select (on a) r).map f := rfl
    rw [hfst, hone, ← List.sum_map_add]
    congr 1
    refine List.map_congr_left fun b _ => ?_
    rw [List.countP_cons]
    by_cases hb : on a b = some true
    · simp only [hb, if_true, decide_true]
      push_cast
      ring
    · simp [hb]

lemma innerJoin_map_left {γ : Type*} (on : α → β → Cond) (g : γ → α) (l : List γ) (r : List β) :
    innerJoin on (l.map g) r = (innerJoin (fun c b => on (g c) b) l r).map fun x => (g x.1, x.2) := by
  rw [innerJoin, innerJoin, List.flatMap_map, List.map_flatMap]
  congr 1
  funext c
  rw [List.map_map]
  rfl

lemma innerJoin_eq_map {on : α → β → Cond} {l : List α} {r : List β} {b : β}
    (h : ∀ a ∈ l, select (on a) r = [b]) : innerJoin on l r = l.map fun a => (a, b) := by
  induction l with
  | nil => rfl
  | cons a l ih =>
    rw [innerJoin, List.flatMap_cons, h a List.mem_cons_self, ← innerJoin,
      ih fun a' ha' => h a' (List.mem_cons_of_mem a ha')]
    rfl

/-! ### Groups -/

lemma mem_groupBy [DecidableEq κ] {key : α → κ} {l : List α} {g : κ × List α} :
    g ∈ groupBy key l ↔ g.1 ∈ l.map key ∧ g.2 = l.filter fun a => key a = g.1 := by
  obtain ⟨k, rows⟩ := g
  rw [groupBy, List.mem_map]
  constructor
  · rintro ⟨_, hk, heq⟩
    cases heq
    exact ⟨List.mem_dedup.mp hk, rfl⟩
  · rintro ⟨hk, hrows⟩
    exact ⟨k, List.mem_dedup.mpr hk, Prod.ext rfl hrows.symm⟩

lemma mem_groupBy_of_filter_ne_nil [DecidableEq κ] {key : α → κ} {l : List α} {k : κ}
    (h : l.filter (fun a => key a = k) ≠ []) : (k, l.filter fun a => key a = k) ∈ groupBy key l := by
  obtain ⟨a, ha⟩ := List.exists_mem_of_ne_nil _ h
  obtain ⟨ha, hkey⟩ := List.mem_filter.mp ha
  exact mem_groupBy.mpr ⟨List.mem_map.mpr ⟨a, ha, of_decide_eq_true hkey⟩, rfl⟩

lemma ne_nil_of_mem_groupBy [DecidableEq κ] {key : α → κ} {l : List α} {g : κ × List α}
    (h : g ∈ groupBy key l) : g.2 ≠ [] := by
  obtain ⟨hk, hg⟩ := mem_groupBy.mp h
  obtain ⟨a, ha, hk⟩ := List.mem_map.mp hk
  rw [hg]
  exact List.ne_nil_of_mem (List.mem_filter.mpr ⟨ha, by simpa using hk⟩)

lemma filter_groupBy [DecidableEq κ] (key : α → κ) (l : List α) (k : κ) :
    (groupBy key l).filter (fun g => g.1 = k) =
      if k ∈ l.map key then [(k, l.filter fun a => key a = k)] else [] := by
  have hkeys : (l.map key).dedup.filter (fun k' => k' = k) =
      if k ∈ l.map key then [k] else [] := by
    rw [List.filter_eq, List.count_dedup]
    split <;> rfl
  rw [groupBy, List.filter_map]
  simp only [Function.comp_def]
  rw [hkeys]
  split <;> rfl

lemma map_fst_groups [DecidableEq κ] {γ : Type*} (key : α → κ) (l : List α) (f : List α → γ) :
    ((groupBy key l).map fun g => (g.1, f g.2)).map Prod.fst = (l.map key).dedup := by
  simp [groupBy, Function.comp_def]

lemma mem_groups [DecidableEq κ] {γ : Type*} {key : α → κ} {l : List α} {f : List α → γ}
    {p : κ × γ} : p ∈ (groupBy key l).map (fun g => (g.1, f g.2)) ↔
      (l.filter fun a => key a = p.1) ≠ [] ∧ p.2 = f (l.filter fun a => key a = p.1) := by
  rw [List.mem_map]
  constructor
  · rintro ⟨g, hg, rfl⟩
    have hrows := (mem_groupBy.mp hg).2
    exact ⟨hrows ▸ ne_nil_of_mem_groupBy hg, congrArg f hrows⟩
  · rintro ⟨hne, hp⟩
    exact ⟨(p.1, l.filter fun a => key a = p.1), mem_groupBy_of_filter_ne_nil hne,
      Prod.ext rfl hp.symm⟩

lemma lookup_groupBy [BEq κ] [LawfulBEq κ] [DecidableEq κ] {γ : Type*} (key : α → κ)
    (l : List α) (f : List α → γ) (k : κ) : ((groupBy key l).map fun g => (g.1, f g.2)).lookup k =
      if k ∈ l.map key then some (f (l.filter fun a => key a = k)) else none := by
  rw [groupBy, List.map_map]
  split_ifs with hk
  · exact List.lookup_graph (fun k => f (l.filter fun a => key a = k)) (List.mem_dedup.mpr hk)
  · rw [List.lookup_eq_none_iff]
    intro p hp
    obtain ⟨k', hk', rfl⟩ := List.mem_map.mp hp
    have hne : k ≠ k' := fun h => hk (h ▸ List.mem_dedup.mp hk')
    simpa using hne

lemma max_eq_some_iff [LinearOrder ν] {l : List (Cell ν)} {m : ν} :
    max l = some m ↔ some m ∈ l ∧ ∀ n, some n ∈ l → n ≤ m := by
  simp [max, List.max?_eq_some_iff, List.reduceOption_mem_iff]

lemma max_congr [LinearOrder ν] {l l' : List (Cell ν)} (h : ∀ x, x ∈ l ↔ x ∈ l') :
    max l = max l' := by
  ext m
  simp only [max_eq_some_iff, h]

lemma sum_map_some [AddMonoid ν] {l : List ν} (h : l ≠ []) : sum (l.map some) = some l.sum := by
  have hl : (l.map some).reduceOption = l := by simp [List.reduceOption, List.filterMap_map]
  rw [sum, hl, if_neg h]

/-- `CASE WHEN p THEN f ELSE 0 END` in a sum. -/
lemma sum_map_case {p : α → Prop} [DecidablePred p] (f : α → ℤ) (l : List α) :
    (l.map fun a => if p a then f a else 0).sum = ((l.filter fun a => p a).map f).sum := by
  induction l with
  | nil => rfl
  | cons a l ih =>
    rw [List.map_cons, List.sum_cons, ih, List.filter_cons]
    by_cases ha : p a
    · simp [ha]
    · simp [ha]

/-- `HAVING SUM(CASE WHEN p THEN 1 ELSE 0 END) = 0`, for a group that is not empty. -/
lemma sum_case_eq_zero_iff {p : α → Prop} [DecidablePred p] {l : List α} (h : l ≠ []) :
    cellEq (sum (l.map fun a => some (if p a then 1 else 0 : ℤ))) (some 0) = some true ↔
      ∀ a ∈ l, ¬ p a := by
  -- the sum counts the rows
  have hcount : ∀ l : List α, (l.map fun a => (if p a then 1 else 0 : ℤ)).sum =
      l.countP fun a => p a := by
    intro l
    induction l with
    | nil => rfl
    | cons a l ih =>
      rw [List.map_cons, List.sum_cons, ih, List.countP_cons]
      by_cases ha : p a
      · simp [ha, Int.add_comm]
      · simp [ha]
  have hsum := sum_map_some (l := l.map fun a => (if p a then 1 else 0 : ℤ)) (by simpa using h)
  rw [List.map_map, hcount] at hsum
  have hzero : (some ((l.countP fun a => p a : ℕ) : ℤ) = some 0) ↔ ∀ a ∈ l, ¬ p a := by
    simp [List.countP_eq_zero]
  rw [← hzero, ← hsum]
  simp [Function.comp_def]

lemma sum_le_of_sublist {s l : List ℤ} (h : s.Sublist l) :
    s.sum ≤ (l.map (· ⊔ 0)).sum ∧ (l.map (· ⊓ 0)).sum ≤ s.sum := by
  induction h with
  | slnil => exact ⟨le_rfl, le_rfl⟩
  | cons x _ ih =>
    simp only [List.map_cons, List.sum_cons]
    have hmax : 0 ≤ x ⊔ 0 := le_sup_right
    have hmin : x ⊓ 0 ≤ 0 := inf_le_right
    exact ⟨by linarith [ih.1], by linarith [ih.2]⟩
  | cons_cons x _ ih =>
    simp only [List.map_cons, List.sum_cons]
    have hmax : x ≤ x ⊔ 0 := le_sup_left
    have hmin : x ⊓ 0 ≤ x := inf_le_left
    exact ⟨by linarith [ih.1], by linarith [ih.2]⟩

/-- **Every sum on the way fits**, and no more is asked. -/
theorem sumFits_iff {l : List (Cell ℤ)} :
    SumFits l ↔ ∀ s : List ℤ, s.Sublist l.reduceOption → FitsInteger s.sum := by
  constructor
  · rintro ⟨hlt, hle⟩ s hs
    obtain ⟨hmax, hmin⟩ := sum_le_of_sublist hs
    exact ⟨hle.trans hmin, hmax.trans_lt hlt⟩
  · intro hall
    have hpos := sum_map_case (p := fun x : ℤ => 0 < x) id l.reduceOption
    have hneg := sum_map_case (p := fun x : ℤ => x < 0) id l.reduceOption
    have hmax : ∀ x : ℤ, x ⊔ 0 = if 0 < x then x else 0 := fun x => by
      split_ifs with hx
      · exact sup_eq_left.mpr hx.le
      · exact sup_eq_right.mpr (not_lt.mp hx)
    have hmin : ∀ x : ℤ, x ⊓ 0 = if x < 0 then x else 0 := fun x => by
      split_ifs with hx
      · exact inf_eq_left.mpr hx.le
      · exact inf_eq_right.mpr (not_lt.mp hx)
    simp only [List.map_id, id_eq] at hpos hneg
    refine ⟨?_, ?_⟩
    · rw [List.map_congr_left fun x _ => hmax x, hpos]
      exact (hall _ List.filter_sublist).2
    · rw [List.map_congr_left fun x _ => hmin x, hneg]
      exact (hall _ List.filter_sublist).1

lemma eq_of_mem_sum [AddMonoid ν] {l : List (Cell ν)} {x : ν} (h : x ∈ sum l) :
    x = l.reduceOption.sum := by
  unfold sum at h
  split_ifs at h
  · exact absurd h (Option.not_mem_none x)
  · exact (Option.some.inj h).symm

lemma fitsInteger_of_abs_lt {v : ℤ} (h : |v| < 2 ^ 63) : FitsInteger v :=
  ⟨(abs_lt.mp h).1.le, (abs_lt.mp h).2⟩

lemma sum_abs_le {l : List α} {column : α → Cell ℤ} {bound : α → ℤ}
    (hbound : ∀ a ∈ l, 0 ≤ bound a ∧ ∀ x ∈ column a, |x| ≤ bound a) :
    ((l.map column).reduceOption.map fun x => |x|).sum ≤ (l.map bound).sum := by
  induction l with
  | nil => rfl
  | cons a l ih =>
    have ih := ih fun a' ha' => hbound a' (List.mem_cons_of_mem a ha')
    obtain ⟨hpos, ha⟩ := hbound a List.mem_cons_self
    cases hc : column a with
    | none =>
      rw [List.map_cons, hc, List.reduceOption_cons_of_none, List.map_cons, List.sum_cons]
      linarith
    | some x =>
      have hx := ha x hc
      rw [List.map_cons, hc, List.reduceOption_cons_of_some, List.map_cons, List.sum_cons,
        List.map_cons, List.sum_cons]
      linarith

lemma abs_sum_le {l : List α} {column : α → Cell ℤ} {bound : α → ℤ}
    (hbound : ∀ a ∈ l, 0 ≤ bound a ∧ ∀ x ∈ column a, |x| ≤ bound a) {s : List ℤ}
    (hs : s.Sublist (l.map column).reduceOption) : |s.sum| ≤ (l.map bound).sum :=
  calc |s.sum| ≤ (s.map fun x => |x|).sum := by
        simpa using Multiset.abs_sum_le_sum_abs (s := (s : Multiset ℤ))
    _ ≤ ((l.map column).reduceOption.map fun x => |x|).sum :=
        (hs.map _).sum_le_sum fun y hy => by
          obtain ⟨x, -, rfl⟩ := List.mem_map.mp hy
          exact abs_nonneg x
    _ ≤ (l.map bound).sum := sum_abs_le hbound

/-- **A sum fits** when the bounds of the values have a sum that fits. -/
theorem sumFits_map_of_le {l : List α} {column : α → Cell ℤ} {bound : α → ℤ}
    (hbound : ∀ a ∈ l, 0 ≤ bound a ∧ ∀ x ∈ column a, |x| ≤ bound a)
    (hsum : (l.map bound).sum < 2 ^ 63) : SumFits (l.map column) :=
  sumFits_iff.mpr fun _ hs => fitsInteger_of_abs_lt ((abs_sum_le hbound hs).trans_lt hsum)

lemma countDistinct_eq [DecidableEq ν] (l : List (Cell ν)) :
    countDistinct l = l.reduceOption.toFinset.card := rfl

lemma bare_eq {column : α → Cell ν} {group : List α} {x : Cell ν} (hne : group ≠ [])
    (h : ∀ a ∈ group, column a = x) : bare column group = x := by
  cases group with
  | nil => exact absurd rfl hne
  | cons a l => exact h a (List.mem_cons_self ..)

end Rows

end Cinst.Lib.Sql
