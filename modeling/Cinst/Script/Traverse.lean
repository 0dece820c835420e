import Cinst.Lib.Adjacent
import Cinst.Lib.Dict
import Mathlib.Data.List.SplitBy

/-!
The script `RT_query.py`, from the fetched rows to the table of redundant traversals.

The rows of a holder are cut into modifications and maximal runs of `get` (`runs`). The first loop of
the script merges a run into one operation and keeps of several modifications in a row the last one
only (`Rep`, `kept`), and the second loop counts the neighbours that are both long runs. What is
counted is counted in the runs themselves (`rtQuery_counts`).
-/

namespace Cinst.Script.Traverse

open Cinst.Lib

/-! ### The script -/

/-- A row of the query. -/
structure OpRow where
  hid : ℕ
  cid : ℕ
  copid : ℕ
  size : ℕ
  v1 : ℕ
  v2 : ℤ
  classname : String
  line : ℕ
  deriving DecidableEq

/-- `get_cop`, for the number that the table has for the name. -/
def getCop (cop : Option ℕ) : ℤ := cop.elim (-2) Nat.cast

/-- `LOOP_GET_OP`. -/
def loopGetOp : ℤ := -2

/-- `ContainerOp`. -/
structure ContainerOp where
  hid : ℕ
  cid : ℕ
  copid : ℤ
  size : ℕ
  v1 : ℕ
  v2 : ℤ
  classname : String
  line : ℕ
  count : ℕ
  deriving DecidableEq

namespace ContainerOp

/-- `ContainerOp(*l)`. -/
def ofRow (l : OpRow) : ContainerOp :=
  ⟨l.hid, l.cid, l.copid, l.size, l.v1, l.v2, l.classname, l.line, 1⟩

/-- `is_op`. -/
def isOp (self : ContainerOp) (opId : ℤ) : Bool := self.copid == opId

/-- `pos`. -/
def pos (self : ContainerOp) : String := self.classname ++ ":" ++ toString self.line

variable (getOp : ℤ)

/-- `is_const`. -/
def isConst (self : ContainerOp) : Bool := self.isOp loopGetOp || self.isOp getOp

/-- `is_prev_get`, without a result when the assertion fails. -/
def isPrevGet (self op : ContainerOp) : Option Bool :=
  if self.isOp loopGetOp || self.isOp getOp then
    some (self.v1 + 1 == op.v1 && op.isOp getOp && self.classname == op.classname &&
      self.line == op.line)
  else none

/-- `create_loop_op`. -/
def createLoopOp (op : ContainerOp) : Option ContainerOp :=
  if op.copid = getOp ∨ op.copid = loopGetOp then some { op with copid := loopGetOp } else none

lemma createLoopOp_copid {op res : ContainerOp} (h : createLoopOp getOp op = some res) :
    res.copid = loopGetOp := by
  unfold createLoopOp at h
  split at h
  · cases h
    rfl
  · cases h

/-- `add_op_for_loop`. An operation that is not a loop yet is made one first. -/
def addOpForLoop (self op : ContainerOp) : Option ContainerOp :=
  if (self.copid = loopGetOp ∨ self.copid = getOp) ∧ op.copid = getOp ∧
      op.classname = self.classname ∧ op.line = self.line ∧ self.v1 + 1 = op.v1 then
    if _hself : self.copid = loopGetOp then
      some { self with count := self.count + op.count, v1 := self.v1 + 1 }
    else
      match _hres : createLoopOp getOp self with
      | none => none
      | some res => addOpForLoop res op
  else none
  termination_by if self.copid = loopGetOp then 0 else 1
  decreasing_by
    rw [if_pos (createLoopOp_copid getOp _hres), if_neg _hself]
    exact Nat.one_pos

end ContainerOp

/-- The body of the loop over the rows of a holder, on `last` and `out[hid]`. -/
def mergeStep (getOp : ℤ) (s : Option ContainerOp × List ContainerOp) (l : OpRow) :
    Option (Option ContainerOp × List ContainerOp) :=
  let op := ContainerOp.ofRow l
  match s.1 with
  | none => some (some op, s.2)
  | some last =>
    if last.isConst getOp && op.copid == getOp then
      (last.isPrevGet getOp op).bind fun prev =>
        if prev then (last.addOpForLoop getOp op).map fun last => (some last, s.2)
        else some (some op, s.2 ++ [last])
    else if !last.isConst getOp && op.copid == getOp then some (some op, s.2 ++ [last])
    else if last.isConst getOp && op.copid != getOp then some (some op, s.2 ++ [last])
    else some (some op, s.2)

/-- The loop over the rows of a holder, and the last operation. -/
def mergeGroup (getOp : ℤ) (group : List OpRow) : Option (List ContainerOp) :=
  (group.foldlM (mergeStep getOp) (none, [])).map fun s => s.2 ++ s.1.toList

/-- `TraverseInfo`. -/
structure TraverseInfo where
  prevCount : ℕ
  nextCount : ℕ
  loopCount : ℕ
  pos : String × String

/-- Two neighbours that are counted. -/
def counted (getOp : ℤ) (p : ContainerOp × ContainerOp) : Bool :=
  p.1.isConst getOp && p.2.isConst getOp && p.1.count > 5 && p.2.count > 5

/-- What is added to the entry of two neighbours. -/
def addPair (p : ContainerOp × ContainerOp) (info : TraverseInfo) : TraverseInfo :=
  { info with
    prevCount := info.prevCount + p.1.count
    nextCount := info.nextCount + p.2.count
    loopCount := info.loopCount + 1 }

/-- The body of the loop over the operations of a holder, on `last` and `res`. -/
def pairStep (getOp : ℤ) (s : Option ContainerOp × List ((String × String) × TraverseInfo))
    (op : ContainerOp) : Option ContainerOp × List ((String × String) × TraverseInfo) :=
  match s.1 with
  | none => (some op, s.2)
  | some last =>
    if counted getOp (last, op) then
      let key := (last.pos, op.pos)
      (some op, Dict.update key ⟨0, 0, 0, key⟩ (addPair (last, op)) s.2)
    else (some op, s.2)

/-- The script up to the table `res`, for the number of `get` and the fetched rows. -/
def rtQuery (getOp : ℤ) (rows : List OpRow) : Option (List ((String × String) × TraverseInfo)) :=
  ((Dict.groups OpRow.hid rows).mapM fun g => mergeGroup getOp g.2).map fun out =>
    out.foldl (fun res group => (group.foldl (pairStep getOp) (none, res)).2) []

/-! ### What is to be counted -/

/-- The place in the program of a row. -/
def OpRow.pos (r : OpRow) : String := r.classname ++ ":" ++ toString r.line

section Spec

variable (getOp : ℤ)

/-- A row of `get`. -/
def isGet (r : OpRow) : Bool := (r.copid : ℤ) == getOp

/-- A `get` goes on with the next index at the same place. -/
def follows (a b : OpRow) : Bool :=
  isGet getOp a && isGet getOp b && a.v1 + 1 == b.v1 && a.classname == b.classname &&
    a.line == b.line

/-- The rows of a holder, cut into maximal runs; a modification is a run by itself. -/
def runs (rows : List OpRow) (hid : ℕ) : List (List OpRow) :=
  (rows.filter fun r => r.hid = hid).splitBy (follows getOp)

/-- Two long runs of `get`, at `p` and at `q`. -/
def Redundant (p q : String) (ab : List OpRow × List OpRow) : Prop :=
  (∀ r ∈ ab.1, isGet getOp r ∧ r.pos = p) ∧ (∀ r ∈ ab.2, isGet getOp r ∧ r.pos = q) ∧
    5 < ab.1.length ∧ 5 < ab.2.length

instance (p q : String) : DecidablePred (Redundant getOp p q) :=
  fun _ => inferInstanceAs (Decidable (_ ∧ _))

/-- The traversals of a holder at `q` that repeat one at `p`: runs that follow each other directly,
with no modification between them. -/
def traversals (rows : List OpRow) (p q : String) (hid : ℕ) : List (List OpRow × List OpRow) :=
  ((runs getOp rows hid).zip (runs getOp rows hid).tail).filter fun ab => Redundant getOp p q ab

end Spec

/-! ### An operation stands for a run -/

section Rep

variable {getOp : ℤ}

lemma isConst_ofRow (r : OpRow) : (ContainerOp.ofRow r).isConst getOp = isGet getOp r := by
  have hloop : (ContainerOp.ofRow r).isOp loopGetOp = false := by
    refine beq_eq_false_iff_ne.mpr fun h => ?_
    have hneg : (r.copid : ℤ) = -2 := h
    omega
  rw [ContainerOp.isConst, hloop, Bool.false_or]
  rfl

/-- The row goes on with the run of the operation. -/
def continues (getOp : ℤ) (last : ContainerOp) (r : OpRow) : Bool :=
  last.isConst getOp && isGet getOp r && last.v1 + 1 == r.v1 && last.classname == r.classname &&
    last.line == r.line

/-- The operation after one more `get`. -/
def ContainerOp.longer (last : ContainerOp) : ContainerOp :=
  { last with copid := loopGetOp, count := last.count + 1, v1 := last.v1 + 1 }

variable (getOp) in
/-- An operation stands for a run: it has its place and its length, and the index of its last row. -/
structure Rep (g : List OpRow) (op : ContainerOp) : Prop where
  ne_nil : g ≠ []
  isChain : g.IsChain fun a b => follows getOp a b
  v1_last : ∀ r ∈ g.getLast?, r.v1 = op.v1
  count_eq : op.count = g.length
  isGet_eq : ∀ r ∈ g, isGet getOp r = op.isConst getOp
  place : ∀ r ∈ g, r.classname = op.classname ∧ r.line = op.line

lemma Rep.ofRow (r : OpRow) : Rep getOp [r] (ContainerOp.ofRow r) where
  ne_nil := List.cons_ne_nil r []
  isChain := List.isChain_singleton r
  v1_last := by
    intro x hx
    cases hx
    rfl
  count_eq := rfl
  isGet_eq := by
    intro x hx
    rw [List.mem_singleton.mp hx, isConst_ofRow]
  place := by
    intro x hx
    rw [List.mem_singleton.mp hx]
    exact ⟨rfl, rfl⟩

variable {g : List OpRow} {last : ContainerOp}

lemma Rep.follows_eq (h : Rep getOp g last) (r : OpRow) {x : OpRow} (hx : x ∈ g.getLast?) :
    follows getOp x r = continues getOp last r := by
  have hmem := List.mem_of_mem_getLast? hx
  rw [follows, continues, h.isGet_eq x hmem, h.v1_last x hx, (h.place x hmem).1, (h.place x hmem).2]

lemma continues_iff {r : OpRow} : continues getOp last r ↔ last.isConst getOp ∧ isGet getOp r ∧
    last.v1 + 1 = r.v1 ∧ last.classname = r.classname ∧ last.line = r.line := by
  simp only [continues, Bool.and_eq_true, beq_iff_eq, and_assoc]

lemma Rep.longer (h : Rep getOp g last) {r : OpRow} (hr : continues getOp last r) :
    Rep getOp (g ++ [r]) last.longer := by
  obtain ⟨hconst, hget, hv1, hclass, hline⟩ := continues_iff.mp hr
  have hlong : last.longer.isConst getOp = true := rfl
  constructor
  case ne_nil => exact List.append_ne_nil_of_right_ne_nil g (List.cons_ne_nil r [])
  case isChain =>
    refine h.isChain.append (List.isChain_singleton r) fun x hx y hy => ?_
    cases hy
    exact (h.follows_eq r hx).trans hr
  case v1_last =>
    intro x hx
    rw [List.getLast?_concat] at hx
    cases hx
    exact hv1.symm
  case count_eq => rw [List.length_append, ← h.count_eq]; rfl
  case isGet_eq =>
    intro x hx
    rcases List.mem_append.mp hx with hx | hx
    · rw [h.isGet_eq x hx, hconst, hlong]
    · rw [List.mem_singleton.mp hx, hget, hlong]
  case place =>
    intro x hx
    rcases List.mem_append.mp hx with hx | hx
    · exact h.place x hx
    · rw [List.mem_singleton.mp hx]
      exact ⟨hclass.symm, hline.symm⟩

end Rep

/-! ### The first loop -/

section Merge

variable {getOp : ℤ} {last : ContainerOp} {r : OpRow}

lemma isConst_iff : last.isConst getOp ↔ last.copid = loopGetOp ∨ last.copid = getOp := by
  simp only [ContainerOp.isConst, ContainerOp.isOp, Bool.or_eq_true, beq_iff_eq]

lemma asserts_of_continues (h : continues getOp last r) :
    (last.copid = loopGetOp ∨ last.copid = getOp) ∧ (ContainerOp.ofRow r).copid = getOp ∧
      (ContainerOp.ofRow r).classname = last.classname ∧ (ContainerOp.ofRow r).line = last.line ∧
      last.v1 + 1 = (ContainerOp.ofRow r).v1 := by
  obtain ⟨hconst, hget, hv1, hclass, hline⟩ := continues_iff.mp h
  exact ⟨isConst_iff.mp hconst, beq_iff_eq.mp hget, hclass.symm, hline.symm, hv1⟩

lemma addOpForLoop_loop (h : continues getOp last r) (hloop : last.copid = loopGetOp) :
    last.addOpForLoop getOp (ContainerOp.ofRow r) = some last.longer := by
  rw [ContainerOp.addOpForLoop, if_pos (asserts_of_continues h), dif_pos hloop, ContainerOp.longer,
    ← hloop]
  rfl

lemma addOpForLoop_continues (h : continues getOp last r) :
    last.addOpForLoop getOp (ContainerOp.ofRow r) = some last.longer := by
  by_cases hloop : last.copid = loopGetOp
  · exact addOpForLoop_loop h hloop
  · obtain ⟨hconst, hrest⟩ := continues_iff.mp h
    have hcreate : ContainerOp.createLoopOp getOp last = some { last with copid := loopGetOp } :=
      if_pos (isConst_iff.mp hconst).symm
    have hcont : continues getOp { last with copid := loopGetOp } r := continues_iff.mpr ⟨rfl, hrest⟩
    rw [ContainerOp.addOpForLoop, if_pos (asserts_of_continues h), dif_neg hloop]
    split
    · rename_i hnone
      rw [hcreate] at hnone
      cases hnone
    · rename_i res hres
      rw [hcreate] at hres
      cases hres
      exact addOpForLoop_loop hcont rfl

lemma isPrevGet_ofRow (hconst : last.isConst getOp) (hget : isGet getOp r) :
    last.isPrevGet getOp (ContainerOp.ofRow r) = some (continues getOp last r) := by
  rw [ContainerOp.isPrevGet, ← ContainerOp.isConst, if_pos hconst, continues, hconst, hget,
    Bool.true_and, Bool.true_and]
  have hop : (ContainerOp.ofRow r).isOp getOp = true := hget
  rw [hop, Bool.and_true]
  rfl

lemma mergeStep_continues (h : continues getOp last r) (out : List ContainerOp) :
    mergeStep getOp (some last, out) r = some (some last.longer, out) := by
  obtain ⟨hconst, hget, -⟩ := continues_iff.mp h
  have hcopid : ((ContainerOp.ofRow r).copid == getOp) = true := hget
  simp only [mergeStep, hconst, hcopid, Bool.and_self, if_true, isPrevGet_ofRow hconst hget, h,
    Option.bind_some, addOpForLoop_continues h, Option.map_some]

lemma mergeStep_ends (h : ¬ continues getOp last r) (out : List ContainerOp) :
    mergeStep getOp (some last, out) r = some (some (ContainerOp.ofRow r),
      if last.isConst getOp || isGet getOp r then out ++ [last] else out) := by
  have hcopid : ((ContainerOp.ofRow r).copid == getOp) = isGet getOp r := rfl
  cases hconst : last.isConst getOp <;> cases hget : isGet getOp r
  case true.true =>
    rw [Bool.not_eq_true] at h
    simp [mergeStep, hconst, hcopid, hget, isPrevGet_ofRow hconst hget, h]
  all_goals simp [mergeStep, hconst, hcopid, hget, bne]

/-- The mark of a run of `get`. -/
def getRun (getOp : ℤ) (g : List OpRow) : Bool := g.head?.any (isGet getOp)

lemma Rep.getRun_eq {g : List OpRow} (h : Rep getOp g last) :
    getRun getOp g = last.isConst getOp := by
  cases g with
  | nil => exact absurd rfl h.ne_nil
  | cons x g => exact h.isGet_eq x List.mem_cons_self

lemma exists_splitBy_eq_cons (getOp : ℤ) (r : OpRow) (rest : List OpRow) : ∃ g gs,
    (r :: rest).splitBy (follows getOp) = g :: gs ∧ getRun getOp g = isGet getOp r := by
  have hne : r :: rest ≠ [] := List.cons_ne_nil r rest
  obtain ⟨g, gs, hgs⟩ := List.exists_cons_of_ne_nil (List.splitBy_ne_nil.mpr hne :
    (r :: rest).splitBy (follows getOp) ≠ [])
  have hhead := List.head_head_splitBy (follows getOp) hne
  simp only [hgs, List.head_cons] at hhead
  have hg : g ≠ [] := List.ne_nil_of_mem_splitBy (hgs ▸ List.mem_cons_self)
  refine ⟨g, gs, hgs, ?_⟩
  rw [getRun, List.head?_eq_some_head hg, hhead]
  rfl

/-- The rest of the loop, from an operation that stands for the rows of the run so far. -/
lemma foldlM_mergeStep (rest : List OpRow) {g : List OpRow} (h : Rep getOp g last)
    (out : List ContainerOp) :
    ∃ last' ops, rest.foldlM (mergeStep getOp) (some last, out) = some (some last', out ++ ops) ∧
      List.Forall₂ (Rep getOp) (kept (getRun getOp) ((g ++ rest).splitBy (follows getOp)))
        (ops ++ [last']) := by
  induction rest generalizing g last out with
  | nil =>
    refine ⟨last, [], by rw [List.append_nil]; rfl, ?_⟩
    rw [List.append_nil, List.splitBy_of_isChain h.ne_nil h.isChain]
    exact .cons h .nil
  | cons r rest ih =>
    rw [List.foldlM_cons]
    by_cases hr : continues getOp last r
    · obtain ⟨last', ops, hrun, hops⟩ := ih (h.longer hr) out
      refine ⟨last', ops, ?_, ?_⟩
      · rw [mergeStep_continues hr]
        exact hrun
      · rwa [List.append_assoc, List.singleton_append] at hops
    · obtain ⟨g', gs, hgs, hhead⟩ := exists_splitBy_eq_cons getOp r rest
      have hcut : (g ++ r :: rest).splitBy (follows getOp) = g :: g' :: gs := by
        rw [List.splitBy_append_cons rest fun x hx => by
          rw [h.follows_eq r hx, Bool.not_eq_true _ |>.mp hr], hgs,
          List.splitBy_of_isChain h.ne_nil h.isChain, List.singleton_append]
      rw [mergeStep_ends hr, hcut]
      obtain ⟨last', ops, hrun, hops⟩ := ih (Rep.ofRow r)
        (if last.isConst getOp || isGet getOp r then out ++ [last] else out)
      rw [List.singleton_append, hgs] at hops
      by_cases hkeep : (last.isConst getOp || isGet getOp r) = true
      · rw [if_pos hkeep] at hrun ⊢
        refine ⟨last', last :: ops, ?_, ?_⟩
        · rw [List.append_assoc, List.singleton_append] at hrun
          exact hrun
        · rw [kept_cons_marked (by rwa [h.getRun_eq, hhead])]
          exact .cons h hops
      · rw [if_neg hkeep] at hrun ⊢
        refine ⟨last', ops, hrun, ?_⟩
        rwa [kept_cons_unmarked (by rwa [h.getRun_eq, hhead])]

/-- The operations of a holder are those of its runs that are kept, and no assertion fails. -/
theorem mergeGroup_runs (getOp : ℤ) (group : List OpRow) : ∃ ops,
    mergeGroup getOp group = some ops ∧
      List.Forall₂ (Rep getOp) (kept (getRun getOp) (group.splitBy (follows getOp))) ops := by
  cases group with
  | nil => exact ⟨[], rfl, .nil⟩
  | cons r rest =>
    have hrep : Rep getOp [r] (ContainerOp.ofRow r) := Rep.ofRow r
    obtain ⟨last, ops, hrun, hops⟩ := foldlM_mergeStep rest hrep []
    refine ⟨ops ++ [last], ?_, hops⟩
    have hfirst : mergeStep getOp (none, []) r = some (some (ContainerOp.ofRow r), []) := rfl
    rw [mergeGroup, List.foldlM_cons, hfirst]
    exact congrArg (Option.map _) hrun

end Merge

/-! ### The second loop -/

section Pairs

variable {getOp : ℤ}

/-- The places of two neighbours, the key of their entry. -/
def posPair (p : ContainerOp × ContainerOp) : String × String := (p.1.pos, p.2.pos)

/-- The neighbours of a holder that are counted. -/
def countedPairs (getOp : ℤ) (ops : List ContainerOp) : List (ContainerOp × ContainerOp) :=
  (ops.zip ops.tail).filter (counted getOp)

lemma foldl_pairStep (res : List ((String × String) × TraverseInfo)) (ops : List ContainerOp) :
    (ops.foldl (pairStep getOp) (none, res)).2 =
      Dict.collect posPair (fun k => ⟨0, 0, 0, k⟩) addPair res (countedPairs getOp ops) := by
  rw [Dict.collect, countedPairs, List.foldl_filter]
  refine foldl_zip_tail (fun _ _ => rfl) (fun last d op => ?_) res ops
  by_cases hcount : counted getOp (last, op)
  · simp only [pairStep, hcount, if_true]
    rfl
  · simp only [pairStep, hcount]
    rfl

lemma Rep.pos_iff {g : List OpRow} {op : ContainerOp} (h : Rep getOp g op) (p : String) :
    (∀ r ∈ g, isGet getOp r ∧ r.pos = p) ↔ op.isConst getOp ∧ op.pos = p := by
  have hpos : ∀ r ∈ g, r.pos = op.pos := fun r hr => by
    rw [OpRow.pos, ContainerOp.pos, (h.place r hr).1, (h.place r hr).2]
  constructor
  · intro hall
    obtain ⟨r, hr⟩ := List.exists_mem_of_ne_nil g h.ne_nil
    rw [← h.isGet_eq r hr, ← hpos r hr]
    exact hall r hr
  · rintro ⟨hconst, rfl⟩ r hr
    exact ⟨(h.isGet_eq r hr).trans hconst, hpos r hr⟩

/-- Two long runs at `p` and `q` are two operations that are counted for `(p, q)`. -/
lemma redundant_iff {gs : List OpRow × List OpRow} {ops : ContainerOp × ContainerOp}
    (h₁ : Rep getOp gs.1 ops.1) (h₂ : Rep getOp gs.2 ops.2) (p q : String) :
    Redundant getOp p q gs ↔ counted getOp ops ∧ posPair ops = (p, q) := by
  rw [Redundant, h₁.pos_iff, h₂.pos_iff, ← h₁.count_eq, ← h₂.count_eq, counted, posPair, Prod.mk.injEq]
  simp only [Bool.and_eq_true, decide_eq_true_eq, gt_iff_lt]
  tauto

lemma getRun_of_redundant {a b : List OpRow} {p q : String} (h : Redundant getOp p q (a, b)) :
    getRun getOp a ∧ getRun getOp b := by
  have hget : ∀ {g : List OpRow} {p : String}, (∀ r ∈ g, isGet getOp r ∧ r.pos = p) →
      5 < g.length → getRun getOp g := by
    intro g p hall hlen
    cases g with
    | nil => cases hlen
    | cons r g => exact (hall r List.mem_cons_self).1
  exact ⟨hget h.1 h.2.2.1, hget h.2.1 h.2.2.2⟩

/-- **The pairs counted for `(p, q)` are the redundant traversals of the runs**, one by one. -/
theorem forall₂_countedPairs {group : List OpRow} {ops : List ContainerOp}
    (h : List.Forall₂ (Rep getOp) (kept (getRun getOp) (group.splitBy (follows getOp))) ops)
    (p q : String) :
    List.Forall₂ (fun gs ops => Rep getOp gs.1 ops.1 ∧ Rep getOp gs.2 ops.2)
      (((group.splitBy (follows getOp)).zip (group.splitBy (follows getOp)).tail).filter
        fun gs => Redundant getOp p q gs)
      ((countedPairs getOp ops).filter fun x => posPair x = (p, q)) := by
  have hmark : ∀ a b, decide (Redundant getOp p q (a, b)) → getRun getOp a ∧ getRun getOp b :=
    fun a b hab => getRun_of_redundant (of_decide_eq_true hab)
  rw [← filter_zip_kept hmark, countedPairs, List.filter_filter]
  refine List.rel_filter (fun gs ops hrep => ?_) (forall₂_zip_tail h)
  change decide (Redundant getOp p q gs) = true ↔
    (decide (posPair ops = (p, q)) && counted getOp ops) = true
  rw [decide_eq_true_eq, redundant_iff hrep.1 hrep.2, Bool.and_eq_true, decide_eq_true_eq, and_comm]

lemma foldl_addPair (l : List (ContainerOp × ContainerOp)) (info : TraverseInfo) :
    l.foldl (fun info x => addPair x info) info =
      ⟨info.prevCount + (l.map (·.1.count)).sum, info.nextCount + (l.map (·.2.count)).sum,
        info.loopCount + l.length, info.pos⟩ := by
  induction l generalizing info with
  | nil => rfl
  | cons x l ih =>
    rw [List.foldl_cons, ih]
    simp only [addPair, List.map_cons, List.sum_cons, List.length_cons, TraverseInfo.mk.injEq,
      and_true]
    omega

end Pairs

/-! ### The table -/

section Table

variable {getOp : ℤ} {rows : List OpRow} {merged : List OpRow → List ContainerOp}

/-- The neighbours of all holders that are counted. -/
def allPairs (getOp : ℤ) (merged : List OpRow → List ContainerOp) (rows : List OpRow) :
    List (ContainerOp × ContainerOp) :=
  (Dict.groups OpRow.hid rows).flatMap fun g => countedPairs getOp (merged g.2)

lemma rtQuery_eq (hmerge : ∀ group, mergeGroup getOp group = some (merged group)) :
    rtQuery getOp rows = some (Dict.collect posPair (fun k => ⟨0, 0, 0, k⟩) addPair []
      (allPairs getOp merged rows)) := by
  have hmapM : ((Dict.groups OpRow.hid rows).mapM fun g => mergeGroup getOp g.2) =
      some ((Dict.groups OpRow.hid rows).map fun g => merged g.2) := by
    simp only [hmerge]
    exact List.mapM_pure
  rw [rtQuery, hmapM, Option.map_some, allPairs, Dict.collect, List.foldl_flatMap, List.foldl_map]
  simp only [foldl_pairStep, Dict.collect]

/-- The sums over the pairs counted for two places. -/
def totals (k : String × String) (own : List (ContainerOp × ContainerOp)) : TraverseInfo :=
  ⟨(own.map (·.1.count)).sum, (own.map (·.2.count)).sum, own.length, k⟩

lemma lookup_collect_addPair (l : List (ContainerOp × ContainerOp)) (k : String × String) :
    (Dict.collect posPair (fun k => ⟨0, 0, 0, k⟩) addPair [] l).lookup k =
      if l.filter (fun x => posPair x = k) = [] then none
      else some (totals k (l.filter fun x => posPair x = k)) := by
  rw [Dict.lookup_collect, foldl_addPair]
  simp only [List.lookup_nil, Option.getD_none, Nat.zero_add, totals]

lemma traversals_eq_nil {p q : String} {hid : ℕ} (h : hid ∉ rows.map OpRow.hid) :
    traversals getOp rows p q hid = [] := by
  have hnil : rows.filter (fun r => r.hid = hid) = [] :=
    List.filter_eq_nil_iff.mpr fun r hr e => h (of_decide_eq_true e ▸ List.mem_map_of_mem hr)
  rw [traversals, runs, hnil]
  rfl

variable (hrep : ∀ group, List.Forall₂ (Rep getOp)
  (kept (getRun getOp) (group.splitBy (follows getOp))) (merged group))
include hrep

/-- What is summed over the pairs counted for `(p, q)` is summed over the traversals of every
holder. -/
lemma sum_allPairs (rows : List OpRow) (p q : String) {w : ContainerOp × ContainerOp → ℕ}
    {v : List OpRow × List OpRow → ℕ}
    (hv : ∀ gs ops, Rep getOp gs.1 ops.1 ∧ Rep getOp gs.2 ops.2 → v gs = w ops) :
    (((allPairs getOp merged rows).filter fun x => posPair x = (p, q)).map w).sum =
      ∑ hid ∈ (rows.map OpRow.hid).toFinset, ((traversals getOp rows p q hid).map v).sum := by
  rw [← Dict.sum_groups, allPairs, List.filter_flatMap, List.map_flatMap, List.flatMap_def,
    List.sum_flatten, List.map_map]
  congr 1
  refine List.map_congr_left fun g hg => ?_
  have hpairs := forall₂_countedPairs (hrep g.2) p q
  rw [Dict.snd_of_mem_groups OpRow.hid hg] at hpairs
  have hmap : (traversals getOp rows p q g.1).map v =
      ((countedPairs getOp (merged g.2)).filter fun x => posPair x = (p, q)).map w := by
    rw [← List.forall₂_eq_eq_eq, List.forall₂_map_left_iff, List.forall₂_map_right_iff,
      Dict.snd_of_mem_groups OpRow.hid hg]
    exact hpairs.imp hv
  rw [hmap]
  rfl

lemma length_allPairs (p q : String) :
    ((allPairs getOp merged rows).filter fun x => posPair x = (p, q)).length =
      ∑ hid ∈ (rows.map OpRow.hid).toFinset, (traversals getOp rows p q hid).length := by
  have hone := sum_allPairs hrep rows p q (w := fun _ => 1) (v := fun _ => 1)
    fun _ _ _ => rfl
  simpa only [List.map_const', List.sum_replicate, smul_eq_mul, mul_one] using hone

lemma allPairs_ne_nil_iff (p q : String) :
    ((allPairs getOp merged rows).filter fun x => posPair x = (p, q)) ≠ [] ↔
      ∃ hid, traversals getOp rows p q hid ≠ [] := by
  rw [← List.length_pos_iff, length_allPairs hrep, Finset.sum_pos_iff]
  constructor
  · rintro ⟨hid, -, hpos⟩
    exact ⟨hid, List.length_pos_iff.mp hpos⟩
  · rintro ⟨hid, hne⟩
    refine ⟨hid, List.mem_toFinset.mpr ?_, List.length_pos_iff.mpr hne⟩
    by_contra hmem
    exact hne (traversals_eq_nil hmem)

end Table

/-- **The table counts exactly the redundant traversals**, and no assertion of the script fails. -/
theorem rtQuery_counts (cop : Option ℕ) (rows : List OpRow) :
    ∃ res, rtQuery (getCop cop) rows = some res ∧ ∀ p q,
      ((∃ info, res.lookup (p, q) = some info) ↔
        ∃ hid, traversals (getCop cop) rows p q hid ≠ []) ∧
      ∀ info, res.lookup (p, q) = some info →
        info.loopCount = ∑ hid ∈ (rows.map OpRow.hid).toFinset,
          (traversals (getCop cop) rows p q hid).length ∧
        info.prevCount = ∑ hid ∈ (rows.map OpRow.hid).toFinset,
          ((traversals (getCop cop) rows p q hid).map (·.1.length)).sum ∧
        info.nextCount = ∑ hid ∈ (rows.map OpRow.hid).toFinset,
          ((traversals (getCop cop) rows p q hid).map (·.2.length)).sum := by
  choose merged hmerge hrep using mergeGroup_runs (getCop cop)
  refine ⟨_, rtQuery_eq hmerge, fun p q => ?_⟩
  rw [lookup_collect_addPair]
  constructor
  · rw [← allPairs_ne_nil_iff hrep p q]
    split
    · rename_i hnil
      exact ⟨fun ⟨_, h⟩ => absurd h.symm (Option.some_ne_none _), fun h => absurd hnil h⟩
    · rename_i hne
      exact ⟨fun _ => hne, fun _ => ⟨_, rfl⟩⟩
  · intro info hinfo
    split at hinfo
    · cases hinfo
    · cases hinfo
      refine ⟨length_allPairs hrep p q, ?_, ?_⟩
      · exact sum_allPairs hrep rows p q fun _ _ h => h.1.count_eq.symm
      · exact sum_allPairs hrep rows p q fun _ _ h => h.2.count_eq.symm

end Cinst.Script.Traverse
