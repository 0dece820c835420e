import Cinst.Script.Traverse

/-!
The loops that `RT_query.py` makes of the rows of a holder are those rows again, as far as they are
reads.

An operation that stands for `count` rows of `get` has the index of the last one. Written out again,
the operations of `out[hid]` give the same reads, separated by modifications at the same places, and
no two of them could have been one (`mergeGroup_lossless`).
-/

namespace Cinst.Script.Traverse

open Cinst.Lib

/-! ### Reads -/

/-- A row of `get`: the index and the place in the program. -/
structure Read where
  index : ℤ
  classname : String
  line : ℕ
  deriving DecidableEq

/-- The read of a row. -/
def OpRow.read (r : OpRow) : Read := ⟨r.v1, r.classname, r.line⟩

/-- `count` reads at the place of an operation, with the indices `v1 - count + 1` to `v1`. -/
def ContainerOp.expand (self : ContainerOp) : List Read :=
  (List.range self.count).map fun i : ℕ =>
    ⟨self.v1 - self.count + 1 + i, self.classname, self.line⟩

section Marks

variable (getOp : ℤ)

/-- The reads of a sequence of rows, and a `none` for every modification. -/
def rowMarks (rows : List OpRow) : List (Option Read) :=
  rows.map fun r => if isGet getOp r then some r.read else none

/-- The reads of a sequence of operations, and a `none` for every one that is not `const`. -/
def opMarks (ops : List ContainerOp) : List (Option Read) :=
  ops.flatMap fun op => if op.isConst getOp then op.expand.map some else [none]

/-- Two loops of which the second one goes on with the indices of the first one, at its place. -/
def Mergeable (a b : ContainerOp) : Prop :=
  a.isConst getOp ∧ b.isConst getOp ∧ (a.v1 : ℤ) + 1 = b.v1 - b.count + 1 ∧
    a.classname = b.classname ∧ a.line = b.line

end Marks

/-! ### A run is written out from its last row -/

section Run

variable {getOp : ℤ} {g : List OpRow}

lemma follows_iff {a b : OpRow} : follows getOp a b ↔ isGet getOp a ∧ isGet getOp b ∧
    a.v1 + 1 = b.v1 ∧ a.classname = b.classname ∧ a.line = b.line := by
  simp only [follows, Bool.and_eq_true, beq_iff_eq, and_assoc]

lemma v1_getElem (h : g.IsChain fun a b => follows getOp a b) (i : ℕ) (hi : i < g.length) :
    g[i].v1 = g[0].v1 + i := by
  induction i with
  | zero => rfl
  | succ i ih =>
    have hnext := (follows_iff.mp (h.getElem i hi)).2.2.1
    rw [← hnext, ih (Nat.lt_of_succ_lt hi)]
    omega

lemma run_cases (hne : g ≠ []) (h : g.IsChain fun a b => follows getOp a b) :
    (∀ r ∈ g, isGet getOp r) ∨ ∃ r, g = [r] := by
  induction g with
  | nil => exact absurd rfl hne
  | cons x g ih =>
    cases g with
    | nil => exact Or.inr ⟨x, rfl⟩
    | cons y g =>
      obtain ⟨hxy, hg⟩ := List.isChain_cons_cons.mp h
      obtain ⟨hx, hy, -⟩ := follows_iff.mp hxy
      refine Or.inl fun r hr => ?_
      rcases List.mem_cons.mp hr with rfl | hr
      · exact hx
      · rcases ih (List.cons_ne_nil y g) hg with hall | ⟨z, hz⟩
        · exact hall r hr
        · cases hz
          cases List.mem_singleton.mp hr
          exact hy

variable {op : ContainerOp}

lemma Rep.v1_head (h : Rep getOp g op) (hpos : 0 < g.length) :
    (g[0].v1 : ℤ) = op.v1 - op.count + 1 := by
  have hlast : g[g.length - 1].v1 = op.v1 := by
    refine h.v1_last _ ?_
    rw [List.getLast?_eq_getElem?, List.getElem?_eq_getElem (by omega)]
    rfl
  have hsum := v1_getElem h.isChain (g.length - 1) (by omega)
  rw [h.count_eq, ← hlast, hsum]
  omega

lemma Rep.expand_eq (h : Rep getOp g op) : op.expand = g.map OpRow.read := by
  refine List.ext_getElem ?_ fun i hi hi' => ?_
  · rw [ContainerOp.expand, List.length_map, List.length_range, List.length_map, h.count_eq]
  · rw [List.length_map] at hi'
    have hplace := h.place g[i] (List.getElem_mem hi')
    have hfirst := h.v1_head (Nat.zero_lt_of_lt hi')
    simp only [ContainerOp.expand, List.getElem_map, List.getElem_range, OpRow.read, Read.mk.injEq]
    refine ⟨?_, hplace.1.symm, hplace.2.symm⟩
    rw [← hfirst, v1_getElem h.isChain i hi', Nat.cast_add]

lemma Rep.marks_eq (h : Rep getOp g op) :
    (if op.isConst getOp then op.expand.map some else [none]) = rowMarks getOp g := by
  by_cases hconst : op.isConst getOp
  · rw [if_pos hconst, h.expand_eq, rowMarks, List.map_map]
    refine List.map_congr_left fun r hr => ?_
    rw [h.isGet_eq r hr, if_pos hconst]
    rfl
  · rw [if_neg hconst]
    rcases run_cases h.ne_nil h.isChain with hall | ⟨r, rfl⟩
    · obtain ⟨r, hr⟩ := List.exists_mem_of_ne_nil g h.ne_nil
      exact absurd ((h.isGet_eq r hr).symm.trans (hall r hr)) hconst
    · rw [rowMarks, List.map_singleton, h.isGet_eq r List.mem_cons_self, if_neg hconst]

lemma opMarks_eq {gs : List (List OpRow)} {ops : List ContainerOp}
    (h : List.Forall₂ (Rep getOp) gs ops) : opMarks getOp ops = rowMarks getOp gs.flatten := by
  induction h with
  | nil => rfl
  | cons hrep _ ih =>
    rw [opMarks, List.flatMap_cons, hrep.marks_eq, ← opMarks, ih, List.flatten_cons, rowMarks,
      rowMarks, rowMarks, List.map_append]

end Run

/-! ### The operations of a holder -/

section Lossless

variable {getOp : ℤ}

/-- Of the rows, all but some modifications are left. -/
lemma rowMarks_kept (group : List OpRow) :
    rowMarks getOp (kept (getRun getOp) (group.splitBy (follows getOp))).flatten =
      kept Option.isSome (rowMarks getOp group) := by
  have hruns : ∀ g ∈ group.splitBy (follows getOp),
      g ≠ [] ∧ ((∀ r ∈ g, isGet getOp r) ∨ ∃ r, g = [r]) := by
    intro g hg
    have hne := List.ne_nil_of_mem_splitBy hg
    exact ⟨hne, run_cases hne (List.isChain_of_mem_splitBy hg)⟩
  have hflatten := flatten_kept hruns
  rw [List.flatten_splitBy] at hflatten
  have hmark : ∀ r, (if isGet getOp r then some r.read else none).isSome = isGet getOp r := by
    intro r
    split
    · rename_i hr
      exact hr.symm
    · rename_i hr
      exact (Bool.not_eq_true _ ▸ hr : isGet getOp r = false).symm
  rw [rowMarks, rowMarks, kept_map _ _ hmark, ← hflatten]
  rfl

lemma reduceOption_rowMarks (rows : List OpRow) :
    (rowMarks getOp rows).reduceOption = (rows.filter (isGet getOp)).map OpRow.read := by
  induction rows with
  | nil => rfl
  | cons r rows ih =>
    rw [rowMarks, List.map_cons, ← rowMarks]
    by_cases hr : isGet getOp r
    · rw [if_pos hr, List.reduceOption_cons_of_some, ih, List.filter_cons_of_pos hr, List.map_cons]
    · rw [if_neg hr, List.reduceOption_cons_of_none, ih, List.filter_cons_of_neg hr]

lemma reduceOption_opMarks (ops : List ContainerOp) :
    (opMarks getOp ops).reduceOption =
      (ops.filter (ContainerOp.isConst getOp)).flatMap ContainerOp.expand := by
  have hsome : ∀ l : List Read, (l.map some).reduceOption = l := fun l => by
    rw [List.reduceOption, List.filterMap_map]
    exact List.filterMap_some
  induction ops with
  | nil => rfl
  | cons op ops ih =>
    rw [opMarks, List.flatMap_cons, ← opMarks, List.reduceOption_append, ih]
    by_cases hconst : op.isConst getOp
    · rw [if_pos hconst, hsome, List.filter_cons_of_pos hconst, List.flatMap_cons]
    · rw [if_neg hconst, List.filter_cons_of_neg hconst]
      rfl

/-- Two operations that could be one stand for runs that are one. -/
lemma Rep.follows_of_mergeable {g g' : List OpRow} {a b : ContainerOp} (h : Rep getOp g a)
    (h' : Rep getOp g' b) (hab : Mergeable getOp a b) :
    follows getOp (g.getLast h.ne_nil) (g'.head h'.ne_nil) := by
  obtain ⟨ha, hb, hindex, hclass, hline⟩ := hab
  have hmem := List.getLast_mem h.ne_nil
  have hmem' := List.head_mem h'.ne_nil
  have hpos : 0 < g'.length := List.length_pos_iff.mpr h'.ne_nil
  have hfirst := h'.v1_head hpos
  have hlast := h.v1_last _ (List.getLast_mem_getLast? h.ne_nil)
  have hplace := h.place _ hmem
  have hplace' := h'.place _ hmem'
  refine follows_iff.mpr ⟨(h.isGet_eq _ hmem).trans ha, (h'.isGet_eq _ hmem').trans hb, ?_, ?_, ?_⟩
  · rw [List.head_eq_getElem, hlast]
    omega
  · rw [hplace.1, hplace'.1, hclass]
  · rw [hplace.2, hplace'.2, hline]

end Lossless

/-- **The loops of a holder are its reads.** Written out they are the rows of `get` in their order,
an operation that is not `const` lies between two reads exactly when a modification does, and no two
neighbours are both modifications or could be one loop. -/
theorem mergeGroup_lossless (cop : Option ℕ) (group : List OpRow) :
    ∃ ops, mergeGroup (getCop cop) group = some ops ∧
      (ops.filter (ContainerOp.isConst (getCop cop))).flatMap ContainerOp.expand =
        (group.filter (isGet (getCop cop))).map OpRow.read ∧
      (∀ i j, Separated (opMarks (getCop cop) ops) i j ↔
        Separated (rowMarks (getCop cop) group) i j) ∧
      (ops.IsChain fun a b => a.isConst (getCop cop) ∨ b.isConst (getCop cop)) ∧
      ops.IsChain fun a b => ¬ Mergeable (getCop cop) a b := by
  obtain ⟨ops, hmerge, hops⟩ := mergeGroup_runs (getCop cop) group
  have hmarks := (opMarks_eq hops).trans (rowMarks_kept group)
  refine ⟨ops, hmerge, ?_, fun i j => ?_, ?_, ?_⟩
  · rw [← reduceOption_opMarks, hmarks, reduceOption_kept, reduceOption_rowMarks]
  · rw [hmarks, separated_kept]
  · refine isChain_of_forall₂ hops (fun g g' a b ha hb => ?_) (isChain_kept _)
    rw [ha.getRun_eq, hb.getRun_eq]
    exact id
  · -- neighbours that are loops are neighbours among the runs, and those are maximal
    have hmax : (kept (getRun (getCop cop)) (group.splitBy (follows (getCop cop)))).IsChain
        fun g g' => ∀ hg hg', getRun (getCop cop) g → getRun (getCop cop) g' →
          follows (getCop cop) (g.getLast hg) (g'.head hg') = false := by
      refine isChain_kept_of (fun g g' hno hg hg' hr hr' => absurd ⟨hr, hr'⟩ hno)
        ((List.isChain_getLast_head_splitBy (follows (getCop cop)) group).imp ?_)
      rintro g g' ⟨hg, hg', hfalse⟩ _ _ _ _
      exact hfalse
    refine isChain_of_forall₂ hops (fun g g' a b ha hb hno hab => ?_) hmax
    have hfalse := hno ha.ne_nil hb.ne_nil (ha.getRun_eq.trans hab.1) (hb.getRun_eq.trans hab.2.1)
    rw [ha.follows_of_mergeable hb hab] at hfalse
    cases hfalse

end Cinst.Script.Traverse
