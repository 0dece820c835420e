import Cinst.Lib.Dict
import Mathlib.Data.List.Sort
import Mathlib.Data.List.Induction
import Mathlib.Tactic

/-!
Ordered maps as sorted association lists, with the two operations of a C++ `std::map` that keep
the first value of a key: `emplace`, and the step back from `upper_bound`.

A map built by emplacing a log of pairs one after the other is determined by the log: the value of
a key is the first one logged for it (`get?_ofLog`), and the step back from `upper_bound` reads the
greatest logged key that is not above the bound (`floor?_eq_some_iff`).
-/

namespace Cinst.Lib

/-- An ordered map: pairs with strictly increasing keys. -/
structure OrdMap (κ ν : Type*) [LinearOrder κ] where
  toList : List (κ × ν)
  sorted : toList.Pairwise fun p q => p.1 < q.1

namespace OrdMap

variable {κ ν : Type*} [LinearOrder κ]

@[ext]
theorem ext {m m' : OrdMap κ ν} (h : m.toList = m'.toList) : m = m' := by
  cases m; cases m'; cases h; rfl

/-! ### The operations -/

/-- Insert a pair into a sorted list of pairs, unless its key is there already. -/
def emplaceList (k : κ) (v : ν) : List (κ × ν) → List (κ × ν)
  | [] => [(k, v)]
  | p :: l =>
    if k < p.1 then (k, v) :: p :: l
    else if p.1 < k then p :: emplaceList k v l
    else p :: l

lemma mem_emplaceList {k : κ} {v : ν} {l : List (κ × ν)} {q : κ × ν}
    (h : q ∈ emplaceList k v l) : q = (k, v) ∨ q ∈ l := by
  induction l with
  | nil => simpa [emplaceList] using h
  | cons p l ih =>
    unfold emplaceList at h
    split at h
    · simpa using h
    · split at h
      · rcases List.mem_cons.mp h with rfl | h
        · exact Or.inr (List.mem_cons_self ..)
        · exact (ih h).imp_right (List.mem_cons_of_mem _)
      · exact Or.inr h

lemma sorted_emplaceList (k : κ) (v : ν) {l : List (κ × ν)}
    (h : l.Pairwise fun p q => p.1 < q.1) :
    (emplaceList k v l).Pairwise fun p q => p.1 < q.1 := by
  induction l with
  | nil => simp [emplaceList]
  | cons p l ih =>
    obtain ⟨hp, hl⟩ := List.pairwise_cons.mp h
    unfold emplaceList
    split
    · rename_i hk
      refine List.pairwise_cons.mpr ⟨fun q hq => ?_, h⟩
      rcases List.mem_cons.mp hq with rfl | hq
      · exact hk
      · exact hk.trans (hp q hq)
    · split
      · rename_i hk
        refine List.pairwise_cons.mpr ⟨fun q hq => ?_, ih hl⟩
        rcases mem_emplaceList hq with rfl | hq
        · exact hk
        · exact hp q hq
      · exact h

/-- The map without a key. -/
def empty : OrdMap κ ν := ⟨[], List.Pairwise.nil⟩

/-- `std::map::emplace`: a key that is present keeps its value. -/
def emplace (m : OrdMap κ ν) (k : κ) (v : ν) : OrdMap κ ν :=
  ⟨emplaceList k v m.toList, sorted_emplaceList k v m.sorted⟩

/-- `std::map::upper_bound`: the position of the first key above `t`. -/
def upperBound (m : OrdMap κ ν) (t : κ) : ℕ := (m.toList.takeWhile fun p => p.1 ≤ t).length

/-- The value one position before the iterator `i`; there is none before `begin()`. -/
def prev (m : OrdMap κ ν) (i : ℕ) : Option ν := (m.toList.take i).getLast?.map Prod.snd

/-- The map of a log: its pairs emplaced one after the other. -/
def ofLog (l : List (κ × ν)) : OrdMap κ ν := l.foldl (fun m p => m.emplace p.1 p.2) empty

lemma ofLog_append (l : List (κ × ν)) (p : κ × ν) :
    ofLog (l ++ [p]) = (ofLog l).emplace p.1 p.2 := by
  simp [ofLog]

/-! ### Lookup by key -/

/-- The value of a key. -/
def get? (m : OrdMap κ ν) (k : κ) : Option ν := m.toList.lookup k

lemma mem_of_lookup {k : κ} {v : ν} {l : List (κ × ν)} (h : l.lookup k = some v) :
    (k, v) ∈ l := by
  obtain ⟨l₁, l₂, rfl, -⟩ := List.lookup_eq_some_iff.mp h
  simp

lemma lookup_eq_none_of_lt {k : κ} {l : List (κ × ν)} (h : ∀ p ∈ l, k < p.1) :
    l.lookup k = none := by
  rw [List.lookup_eq_none_iff]
  intro p hp
  simpa using (h p hp).ne

lemma lookup_emplaceList (k j : κ) (v : ν) {l : List (κ × ν)}
    (h : l.Pairwise fun p q => p.1 < q.1) :
    (emplaceList k v l).lookup j = (l.lookup j).or (if j = k then some v else none) := by
  induction l with
  | nil => simp [emplaceList, lookup_cons_ite]
  | cons p l ih =>
    obtain ⟨hp, hl⟩ := List.pairwise_cons.mp h
    unfold emplaceList
    split
    · rename_i hk
      by_cases hj : j = k
      · subst hj
        have : (p :: l).lookup j = none := lookup_eq_none_of_lt fun q hq => by
          rcases List.mem_cons.mp hq with rfl | hq
          · exact hk
          · exact hk.trans (hp q hq)
        rw [this, lookup_cons_ite]
        simp
      · rw [lookup_cons_ite, if_neg hj, if_neg hj, Option.or_none]
    · split
      · rw [lookup_cons_ite, lookup_cons_ite, ih hl]
        split <;> simp
      · rename_i hk hk'
        have hkp : k = p.1 := le_antisymm (not_lt.mp hk') (not_lt.mp hk)
        rw [lookup_cons_ite, hkp]
        split <;> simp

lemma get?_emplace (m : OrdMap κ ν) (k j : κ) (v : ν) :
    (m.emplace k v).get? j = (m.get? j).or (if j = k then some v else none) :=
  lookup_emplaceList k j v m.sorted

/-- **The value of a key is the first one logged for it.** -/
theorem get?_ofLog (l : List (κ × ν)) (k : κ) : (ofLog l).get? k = l.lookup k := by
  induction l using List.reverseRecOn with
  | nil => rfl
  | append_singleton l p ih =>
    rw [ofLog_append, get?_emplace, ih, List.lookup_append]
    rw [lookup_cons_ite, List.lookup_nil]

lemma get?_eq_some_iff {m : OrdMap κ ν} {k : κ} {v : ν} :
    m.get? k = some v ↔ (k, v) ∈ m.toList := by
  obtain ⟨l, hl⟩ := m
  show l.lookup k = some v ↔ (k, v) ∈ l
  induction l with
  | nil => simp
  | cons p l ih =>
    obtain ⟨hp, hlt⟩ := List.pairwise_cons.mp hl
    obtain ⟨j, w⟩ := p
    rw [lookup_cons_ite, List.mem_cons, Prod.mk.injEq]
    by_cases hk : k = j
    · subst hk
      have : (k, v) ∉ l := fun h => lt_irrefl k (hp (k, v) h)
      simp [this, eq_comm]
    · simpa [hk] using ih hlt

/-! ### The step back from `upper_bound` -/

/-- The value of the greatest key that is not above `t`. -/
def floor? (m : OrdMap κ ν) (t : κ) : Option ν := m.prev (m.upperBound t)

lemma take_upperBound (m : OrdMap κ ν) (t : κ) :
    m.toList.take (m.upperBound t) = m.toList.filter fun p => p.1 ≤ t := by
  obtain ⟨l, hl⟩ := m
  show l.take (l.takeWhile fun p => p.1 ≤ t).length = _
  induction l with
  | nil => rfl
  | cons p l ih =>
    obtain ⟨hp, hl⟩ := List.pairwise_cons.mp hl
    by_cases h : p.1 ≤ t
    · simpa [h] using ih hl
    · have : (l.filter fun q => q.1 ≤ t) = [] := by
        rw [List.filter_eq_nil_iff]
        intro q hq
        simpa using (not_le.mp h).trans (hp q hq)
      simp [h, this]

lemma floor?_eq_none_iff {m : OrdMap κ ν} {t : κ} :
    m.floor? t = none ↔ ∀ k ≤ t, m.get? k = none := by
  unfold floor? prev
  rw [take_upperBound, Option.map_eq_none_iff, List.getLast?_eq_none_iff, List.filter_eq_nil_iff]
  constructor
  · intro h k hk
    rw [Option.eq_none_iff_forall_not_mem]
    intro v hv
    exact h _ (get?_eq_some_iff.mp hv) (by simpa using hk)
  · rintro h ⟨k, v⟩ hp hk
    have := h k (by simpa using hk)
    rw [get?_eq_some_iff.mpr hp] at this
    cases this

lemma prev_upperBound_eq_none_iff {m : OrdMap κ ν} {t : κ} :
    m.prev (m.upperBound t) = none ↔ ∀ p ∈ m.toList, t < p.1 := by
  rw [prev, take_upperBound, Option.map_eq_none_iff, List.getLast?_eq_none_iff,
    List.filter_eq_nil_iff]
  simp only [decide_eq_true_eq, not_le]

/-- **The step back from `upper_bound` reads the greatest key that is not above the bound.** -/
theorem floor?_eq_some_iff {m : OrdMap κ ν} {t : κ} {v : ν} :
    m.floor? t = some v ↔
      ∃ k ≤ t, m.get? k = some v ∧ ∀ j ≤ t, m.get? j ≠ none → j ≤ k := by
  unfold floor? prev
  rw [take_upperBound, Option.map_eq_some_iff]
  have hs : (m.toList.filter fun p => p.1 ≤ t).Pairwise fun p q => p.1 < q.1 := m.sorted.filter _
  constructor
  · rintro ⟨⟨k, v⟩, hlast, rfl⟩
    obtain ⟨l, hl⟩ := List.getLast?_eq_some_iff.mp hlast
    have hmem : (k, v) ∈ m.toList.filter fun p => p.1 ≤ t := by simp [hl]
    obtain ⟨hm, hk⟩ := List.mem_filter.mp hmem
    refine ⟨k, by simpa using hk, get?_eq_some_iff.mpr hm, fun j hj hne => ?_⟩
    obtain ⟨w, hw⟩ := Option.ne_none_iff_exists'.mp hne
    have hjm : (j, w) ∈ m.toList.filter fun p => p.1 ≤ t :=
      List.mem_filter.mpr ⟨get?_eq_some_iff.mp hw, by simpa using hj⟩
    rw [hl] at hjm hs
    rcases List.mem_append.mp hjm with hjl | hjl
    · exact ((List.pairwise_append.mp hs).2.2 _ hjl (k, v) (by simp)).le
    · simp only [List.mem_singleton, Prod.mk.injEq] at hjl
      exact hjl.1.le
  · rintro ⟨k, hk, hv, hmax⟩
    have hmem : (k, v) ∈ m.toList.filter fun p => p.1 ≤ t :=
      List.mem_filter.mpr ⟨get?_eq_some_iff.mp hv, by simpa using hk⟩
    obtain ⟨p, hlast⟩ := Option.ne_none_iff_exists'.mp
      (mt List.getLast?_eq_none_iff.mp (List.ne_nil_of_mem hmem))
    obtain ⟨l, hl⟩ := List.getLast?_eq_some_iff.mp hlast
    refine ⟨p, by rw [hl]; simp, ?_⟩
    rw [hl] at hmem hs
    rcases List.mem_append.mp hmem with h | h
    · have hlt : k < p.1 := (List.pairwise_append.mp hs).2.2 _ h _ (by simp)
      have hp : p ∈ m.toList.filter fun p => p.1 ≤ t := by simp [hl]
      obtain ⟨hpm, hpt⟩ := List.mem_filter.mp hp
      have := hmax p.1 (by simpa using hpt) (by rw [get?_eq_some_iff.mpr hpm]; simp)
      exact absurd hlt (not_lt.mpr this)
    · simp only [List.mem_singleton] at h
      rw [← h]

/-- The step back from `upper_bound` depends on the values of the keys only. -/
theorem floor?_map {ν' : Type*} (f : ν → ν') {m : OrdMap κ ν} {m' : OrdMap κ ν'}
    (h : ∀ k, m'.get? k = (m.get? k).map f) (t : κ) : m'.floor? t = (m.floor? t).map f := by
  cases hm : m.floor? t with
  | none =>
    rw [floor?_eq_none_iff] at hm
    exact floor?_eq_none_iff.mpr fun k hk => by rw [h, hm k hk]; rfl
  | some v =>
    obtain ⟨k, hk, hv, hmax⟩ := floor?_eq_some_iff.mp hm
    refine floor?_eq_some_iff.mpr ⟨k, hk, by rw [h, hv]; rfl, fun j hj hne => hmax j hj ?_⟩
    intro hnone
    exact hne (by rw [h, hnone]; rfl)

end OrdMap

end Cinst.Lib
