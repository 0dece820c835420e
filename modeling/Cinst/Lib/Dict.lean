import Mathlib.Tactic

/-!
A `dict` of Python as an association list in the order of insertion, and what is in it after a loop
that does `setdefault` for the key of every item and then changes the value of this key.
-/

namespace Cinst.Lib

lemma lookup_cons_ite {κ ν : Type*} [DecidableEq κ] [BEq κ] [LawfulBEq κ] (k : κ) (p : κ × ν)
    (l : List (κ × ν)) : (p :: l).lookup k = if k = p.1 then some p.2 else l.lookup k := by
  rw [List.lookup_cons]
  by_cases h : k = p.1
  · rw [if_pos h, beq_iff_eq.mpr h]
  · rw [if_neg h, beq_eq_false_iff_ne.mpr h]

namespace Dict

variable {α κ ν : Type*} [DecidableEq κ]

/-- `d.setdefault(k, default)`, and the value of `k` is changed by `f`. -/
def update (k : κ) (default : ν) (f : ν → ν) : List (κ × ν) → List (κ × ν)
  | [] => [(k, f default)]
  | p :: d => if p.1 = k then (p.1, f p.2) :: d else p :: update k default f d

section Update

variable {k : κ} {default : ν} {f : ν → ν}

lemma lookup_update [BEq κ] [LawfulBEq κ] (j : κ) (d : List (κ × ν)) :
    (update k default f d).lookup j =
      if j = k then some (f ((d.lookup k).getD default)) else d.lookup j := by
  induction d with
  | nil => rw [update, lookup_cons_ite]; rfl
  | cons p d ih =>
    rw [update]
    by_cases hp : p.1 = k
    · rw [if_pos hp, lookup_cons_ite, lookup_cons_ite, lookup_cons_ite, if_pos hp.symm, ← hp]
      split <;> rfl
    · rw [if_neg hp, lookup_cons_ite, lookup_cons_ite, lookup_cons_ite, ih, if_neg (Ne.symm hp)]
      by_cases hj : j = p.1
      · rw [if_pos hj, if_neg (fun e => hp (hj.symm.trans e)), if_pos hj]
      · rw [if_neg hj, if_neg hj]

lemma keys_update (d : List (κ × ν)) : (update k default f d).map Prod.fst =
    if k ∈ d.map Prod.fst then d.map Prod.fst else d.map Prod.fst ++ [k] := by
  induction d with
  | nil => simp [update]
  | cons p d ih =>
    rw [update]
    by_cases hp : p.1 = k
    · simp [hp]
    · have hk : k ∈ (p :: d).map Prod.fst ↔ k ∈ d.map Prod.fst := by
        simp [Ne.symm hp]
      rw [if_neg hp, List.map_cons, ih]
      by_cases hmem : k ∈ d.map Prod.fst
      · rw [if_pos hmem, if_pos (hk.mpr hmem), List.map_cons]
      · rw [if_neg hmem, if_neg fun h => hmem (hk.mp h), List.map_cons, List.cons_append]

lemma nodup_keys_update {d : List (κ × ν)} (h : (d.map Prod.fst).Nodup) :
    ((update k default f d).map Prod.fst).Nodup := by
  rw [keys_update]
  split
  · exact h
  · rename_i hk
    exact List.nodup_append.mpr ⟨h, List.nodup_singleton _, fun a ha b hb => by
      rw [List.mem_singleton.mp hb]
      exact fun e => hk (e ▸ ha)⟩

lemma lookup_of_mem {d : List (κ × ν)} (h : (d.map Prod.fst).Nodup) {x : κ × ν} (hx : x ∈ d) :
    d.lookup x.1 = some x.2 := by
  induction d with
  | nil => cases hx
  | cons p d ih =>
    rw [List.map_cons, List.nodup_cons] at h
    rw [lookup_cons_ite]
    rcases List.mem_cons.mp hx with rfl | hx
    · rw [if_pos rfl]
    · have hne : x.1 ≠ p.1 := fun e => h.1 (e ▸ List.mem_map_of_mem hx)
      rw [if_neg hne, ih h.2 hx]

end Update

/-! ### The loop over the items -/

section Loop

variable (key : α → κ) (default : κ → ν) (f : α → ν → ν)

/-- The loop over a list of items. -/
def collect (d : List (κ × ν)) (l : List α) : List (κ × ν) :=
  l.foldl (fun d x => update (key x) (default (key x)) (f x) d) d

lemma nodup_keys_collect {d : List (κ × ν)} (h : (d.map Prod.fst).Nodup) (l : List α) :
    ((collect key default f d l).map Prod.fst).Nodup := by
  induction l generalizing d with
  | nil => exact h
  | cons x l ih => exact ih (nodup_keys_update h)

/-- **A key holds what its own items make of the value**; a key without items is as before. -/
theorem lookup_collect [BEq κ] [LawfulBEq κ] (d : List (κ × ν)) (l : List α) (k : κ) :
    (collect key default f d l).lookup k =
      if l.filter (fun x => key x = k) = [] then d.lookup k
      else some ((l.filter fun x => key x = k).foldl (fun v x => f x v)
        ((d.lookup k).getD (default k))) := by
  induction l generalizing d with
  | nil => rfl
  | cons x l ih =>
    rw [collect, List.foldl_cons, ← collect, ih, lookup_update, List.filter_cons]
    by_cases hx : key x = k
    · subst hx
      by_cases hnil : l.filter (fun y => key y = key x) = []
      · simp [hnil]
      · simp [hnil]
    · have hkx : ¬ k = key x := fun e => hx e.symm
      simp [hx, hkx]

/-- The items of a key, in their order: `setdefault(key, [])` and `append`. -/
def groups (l : List α) : List (κ × List α) :=
  collect key (fun _ => []) (fun x xs => xs ++ [x]) [] l

lemma foldl_snoc (xs l : List α) : l.foldl (fun v x => v ++ [x]) xs = xs ++ l := by
  induction l generalizing xs with
  | nil => rw [List.foldl_nil, List.append_nil]
  | cons x l ih => rw [List.foldl_cons, ih, List.append_assoc, List.singleton_append]

lemma nodup_keys_groups (l : List α) : ((groups key l).map Prod.fst).Nodup :=
  nodup_keys_collect key _ _ (d := []) List.nodup_nil l

lemma lookup_groups (l : List α) (k : κ) : (groups key l).lookup k =
    if l.filter (fun x => key x = k) = [] then none else some (l.filter fun x => key x = k) := by
  rw [groups, lookup_collect, foldl_snoc]
  rfl

lemma keys_groups (l : List α) (k : κ) : k ∈ (groups key l).map Prod.fst ↔ k ∈ l.map key := by
  have hlookup := lookup_groups key l k
  constructor
  · intro hk
    obtain ⟨x, hx, rfl⟩ := List.mem_map.mp hk
    rw [lookup_of_mem (nodup_keys_groups key l) hx] at hlookup
    by_contra hno
    have hnil : l.filter (fun y => key y = x.1) = [] :=
      List.filter_eq_nil_iff.mpr fun y hy e => hno (of_decide_eq_true e ▸ List.mem_map_of_mem hy)
    rw [if_pos hnil] at hlookup
    cases hlookup
  · intro hk
    obtain ⟨y, hy, rfl⟩ := List.mem_map.mp hk
    have hne : l.filter (fun z => key z = key y) ≠ [] :=
      List.ne_nil_of_mem (List.mem_filter.mpr ⟨hy, decide_eq_true rfl⟩)
    rw [if_neg hne] at hlookup
    obtain ⟨l₁, l₂, hsplit, -⟩ := List.lookup_eq_some_iff.mp hlookup
    rw [hsplit, List.map_append, List.map_cons]
    exact List.mem_append_right _ List.mem_cons_self

lemma snd_of_mem_groups {l : List α} {x : κ × List α} (hx : x ∈ groups key l) :
    x.2 = l.filter fun y => key y = x.1 := by
  have hlookup := lookup_groups key l x.1
  rw [lookup_of_mem (nodup_keys_groups key l) hx] at hlookup
  split at hlookup
  · cases hlookup
  · exact Option.some.inj hlookup

/-- A sum over the groups is a sum over the keys of the items. -/
theorem sum_groups (l : List α) (T : κ → ℕ) :
    ((groups key l).map fun x => T x.1).sum = ∑ k ∈ (l.map key).toFinset, T k := by
  have hkeys : ((groups key l).map Prod.fst).toFinset = (l.map key).toFinset :=
    Finset.ext fun k => by
      rw [List.mem_toFinset, List.mem_toFinset]
      exact keys_groups key l k
  rw [← hkeys, List.sum_toFinset T (nodup_keys_groups key l), List.map_map]
  rfl

end Loop

end Dict

end Cinst.Lib
