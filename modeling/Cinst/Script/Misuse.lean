import Cinst.Script.Operations

/-!
The queries for lists that are used where another container would be cheaper: `misuse_query.py` sums
what insertions and removals move, `misuse2_query.py` and `index_query.py` what searches compare.

A search in a list goes through it from one end. The queries take its cost from the size of the list
and the answer, which counts one comparison too few for an `indexOf` that finds its element
(`scanned_indexOf`), and none for a `lastIndexOf` (`scanned_lastIndexOf`).
-/

namespace Cinst.Script

open Cinst.Lib.Sql

/-! ### Searches -/

section Search

variable {β : Type*} (p : β → Bool)

/-- The number of elements that a search compares. -/
def compared : List β → ℕ
  | [] => 0
  | x :: l => if p x then 1 else compared l + 1

/-- `indexOf`. -/
def indexOf (l : List β) : Option ℕ := l.findIdx? p

/-- `lastIndexOf`. -/
def lastIndexOf (l : List β) : Option ℕ := (l.reverse.findIdx? p).map fun i => l.length - 1 - i

variable {p}

lemma compared_eq (l : List β) : compared p l = (indexOf p l).elim l.length (· + 1) := by
  induction l with
  | nil => rfl
  | cons x l ih =>
    rw [compared, ih, indexOf, indexOf, List.findIdx?_cons]
    cases p x with
    | true => rfl
    | false =>
      rw [if_neg (by decide), if_neg (by decide)]
      cases l.findIdx? p <;> rfl

lemma indexOf_lt {l : List β} {i : ℕ} (h : indexOf p l = some i) : i < l.length :=
  (List.findIdx?_eq_some_iff_getElem.mp h).1

/-- The answer of a search in the column `V1`: `-1` is stored as an unsigned number. -/
def answer (i : Option ℕ) : ℤ := i.elim 4294967295 Nat.cast

/-- `CASE WHEN V1 == 4294967295 THEN SIZE ELSE V1 END`, and the same with `SIZE - V1`. -/
def scanned (fromEnd : Bool) (size v1 : Cell ℤ) : Cell ℤ :=
  if cellEq v1 (some 4294967295) = some true then size
  else if fromEnd then cellSub size v1 else v1

lemma scanned_answer_none (fromEnd : Bool) (size : Cell ℤ) :
    scanned fromEnd size (some (answer none)) = size := rfl

lemma scanned_answer_some (fromEnd : Bool) (n : ℤ) {i : ℕ} (hi : i < 2 ^ 32 - 1) :
    scanned fromEnd (some n) (some (answer (some i))) = some (if fromEnd then n - i else i) := by
  have hne : ¬ (answer (some i) = 4294967295) := by
    show ¬ ((i : ℤ) = 4294967295)
    omega
  rw [scanned, if_neg (by simpa using Ne.symm hne)]
  cases fromEnd <;> rfl

/-- **What the queries take for the cost of an `indexOf`**: one comparison less when the element is
found. -/
theorem scanned_indexOf {l : List β} (hl : l.length < 2 ^ 32) :
    scanned false (some l.length) (some (answer (indexOf p l))) =
      some ((compared p l : ℤ) - if (indexOf p l).isSome then 1 else 0) := by
  rw [compared_eq]
  cases hfind : indexOf p l with
  | none => simp [scanned_answer_none]
  | some i =>
    have hi := indexOf_lt hfind
    rw [scanned_answer_some false _ (by omega)]
    simp

/-- **What the queries take for the cost of a `lastIndexOf`**: its comparisons. -/
theorem scanned_lastIndexOf {l : List β} (hl : l.length < 2 ^ 32) :
    scanned true (some l.length) (some (answer (lastIndexOf p l))) =
      some ((compared p l.reverse : ℕ) : ℤ) := by
  rw [compared_eq, List.length_reverse, lastIndexOf, indexOf]
  cases hfind : l.reverse.findIdx? p with
  | none => rfl
  | some i =>
    have hi := indexOf_lt hfind
    rw [List.length_reverse] at hi
    rw [Option.map_some, scanned_answer_some true _ (by omega), Option.elim_some]
    simp only [if_true, Option.some_inj]
    omega

lemma eq_of_countP_le_one {l : List β} (h : l.countP p ≤ 1) {i j : ℕ} (hi : i < l.length)
    (hj : j < l.length) (hpi : p l[i] = true) (hpj : p l[j] = true) : i = j := by
  -- the list is cut before the second of them
  have hlt : ∀ {i j : ℕ} (hi : i < l.length) (hj : j < l.length), p l[i] = true → p l[j] = true →
      ¬ i < j := by
    intro i j hi hj hpi hpj hij
    have htake : 0 < (l.take j).countP p := by
      refine List.countP_pos_iff.mpr ⟨l[i], ?_, hpi⟩
      exact List.mem_take_iff_getElem.mpr ⟨i, by omega, rfl⟩
    have hdrop : 0 < (l.drop j).countP p := by
      refine List.countP_pos_iff.mpr ⟨l[j], ?_, hpj⟩
      rw [List.drop_eq_getElem_cons hj]
      exact List.mem_cons_self
    have hsplit : l.countP p = (l.take j).countP p + (l.drop j).countP p := by
      rw [← List.countP_append, List.take_append_drop]
    omega
  have hij := hlt hi hj hpi hpj
  have hji := hlt hj hi hpj hpi
  omega

lemma lastIndexOf_eq_indexOf {l : List β} (h : l.countP p ≤ 1) : lastIndexOf p l = indexOf p l := by
  rw [lastIndexOf, indexOf]
  cases hlast : l.reverse.findIdx? p with
  | none =>
    have hnone : l.findIdx? p = none := by
      simpa [List.findIdx?_eq_none_iff] using hlast
    rw [hnone]
    rfl
  | some j =>
    obtain ⟨hj, hpj, -⟩ := List.findIdx?_eq_some_iff_getElem.mp hlast
    rw [List.length_reverse] at hj
    rw [List.getElem_reverse] at hpj
    cases hfirst : l.findIdx? p with
    | none =>
      have hlt : l.length - 1 - j < l.length := by omega
      have hno := List.findIdx?_eq_none_iff.mp hfirst _ (List.getElem_mem hlt)
      exact absurd hpj (by rw [hno]; decide)
    | some i =>
      obtain ⟨hi, hpi, -⟩ := List.findIdx?_eq_some_iff_getElem.mp hfirst
      rw [Option.map_some, eq_of_countP_le_one h hi (by omega) hpi hpj]

end Search

/-! ### `misuse_query.py` and `misuse2_query.py` -/

/-- A row of the joined tables. -/
abbrev MisuseJoin := ((TypedAllocationRow × TypeRow) × OperationRow) × ClassnameRow

/-- A row of the result of `misuse_query.py`. -/
structure MoveRow where
  overhead : Cell ℤ
  classname : Cell (List Char)
  line : Cell ℤ
  deriving DecidableEq

/-- A row of the result of `misuse2_query.py`, without the column `AVG_OVERHEAD`, a floating-point
number. -/
structure SearchRow where
  overhead : Cell ℤ
  getCount : Cell ℤ
  indexofCount : Cell ℤ
  lastindexofCount : Cell ℤ
  classname : Cell (List Char)
  line : Cell ℤ
  deriving DecidableEq

/-- `TYPE = "java/util/ArrayList"`. -/
def isArrayList (m : TypeRow) : Cond := cellEq m.type (some "java/util/ArrayList".toList)

/-- `TYPE = "java/util/ArrayList" OR TYPE = "java/util/LinkedList"`. -/
def isList (m : TypeRow) : Cond :=
  condOr (isArrayList m) (cellEq m.type (some "java/util/LinkedList".toList))

/-- `CASE WHEN c1.copid == cop THEN 1 ELSE 0 END`. -/
def isCop (cop : ℤ) (o : OperationRow) : Cell ℤ :=
  some (if cellEq o.copid (some cop) = some true then 1 else 0)

/-- The cost of a search. -/
def searchCost (indexofOp lastindexofOp : ℤ) (o : OperationRow) : Cell ℤ :=
  if cellEq o.copid (some indexofOp) = some true then scanned false o.size o.v1
  else if cellEq o.copid (some lastindexofOp) = some true then scanned true o.size o.v1
  else some 0

/-- A bound for what the queries compute from the columns of an operation. -/
def OperationRow.weight (o : OperationRow) : ℤ := |o.size.getD 0| + 2 * |o.v1.getD 0| + 1

lemma abs_le_getD {c : Cell ℤ} {x : ℤ} (h : x ∈ c) : |x| ≤ |c.getD 0| := by
  rw [Option.mem_def.mp h, Option.getD_some]

lemma OperationRow.abs_add_le_weight (o : OperationRow) :
    |o.size.getD 0| + |o.v1.getD 0| ≤ o.weight := by
  have hv1 := abs_nonneg (o.v1.getD 0)
  unfold OperationRow.weight
  omega

lemma OperationRow.one_le_weight (o : OperationRow) : 1 ≤ o.weight := by
  have hsize := abs_nonneg (o.size.getD 0)
  have hv1 := abs_nonneg (o.v1.getD 0)
  unfold OperationRow.weight
  omega

lemma sumFits_column {α : Type*} (op : α → OperationRow) {group : List α}
    (h : (group.map fun row => (op row).weight).sum < 2 ^ 63) {column : OperationRow → Cell ℤ}
    (hle : ∀ o, ∀ x ∈ column o, |x| ≤ o.weight) : SumFits (group.map fun row => column (op row)) :=
  sumFits_map_of_le (fun row _ => ⟨zero_le_one.trans (op row).one_le_weight, hle (op row)⟩) h

lemma abs_le_of_mem_scanned {fromEnd : Bool} {size v1 : Cell ℤ} {x : ℤ}
    (h : x ∈ scanned fromEnd size v1) : |x| ≤ |size.getD 0| + |v1.getD 0| := by
  have hsize := abs_nonneg (size.getD 0)
  have hv1 := abs_nonneg (v1.getD 0)
  unfold scanned at h
  split_ifs at h
  · linarith [abs_le_getD h]
  · obtain ⟨a, b, rfl, rfl, rfl⟩ := Option.map₂_eq_some_iff.mp h
    exact abs_sub a b
  · linarith [abs_le_getD h]

lemma abs_le_of_mem_searchCost {indexofOp lastindexofOp : ℤ} (o : OperationRow) :
    ∀ x ∈ searchCost indexofOp lastindexofOp o, |x| ≤ o.weight := by
  intro x hx
  unfold searchCost at hx
  split_ifs at hx
  · exact (abs_le_of_mem_scanned hx).trans o.abs_add_le_weight
  · exact (abs_le_of_mem_scanned hx).trans o.abs_add_le_weight
  · obtain rfl := Option.some.inj hx
    exact abs_zero.trans_le (zero_le_one.trans o.one_le_weight)

lemma abs_le_of_mem_isCop {cop : ℤ} (o : OperationRow) : ∀ x ∈ isCop cop o, |x| ≤ o.weight := by
  intro x hx
  obtain rfl := Option.some.inj hx
  refine le_trans ?_ o.one_le_weight
  split_ifs <;> simp

/-- The columns of a group in `misuse_query.py`. -/
def moveRow (group : List MisuseJoin) : MoveRow where
  overhead := cellSub (sum (group.map fun row => row.1.2.size)) (sum (group.map fun row => row.1.2.v1))
  classname := bare (fun row => row.2.classname) group
  line := bare (fun row => row.1.1.1.line) group

/-- The sums in `misuse_query.py` do not overflow. -/
def MoveFits (group : List MisuseJoin) : Prop :=
  SumFits (group.map fun row => row.1.2.size) ∧ SumFits (group.map fun row => row.1.2.v1) ∧
    ∀ v ∈ (moveRow group).overhead, FitsInteger v

instance : DecidablePred MoveFits := fun _ => inferInstanceAs (Decidable (_ ∧ _ ∧ _))

/-- The columns of a group in `misuse2_query.py`. -/
def searchRow (indexofOp lastindexofOp getOp : ℤ) (group : List MisuseJoin) : SearchRow where
  overhead := sum (group.map fun row => searchCost indexofOp lastindexofOp row.1.2)
  getCount := sum (group.map fun row => isCop getOp row.1.2)
  indexofCount := sum (group.map fun row => isCop indexofOp row.1.2)
  lastindexofCount := sum (group.map fun row => isCop lastindexofOp row.1.2)
  classname := bare (fun row => row.2.classname) group
  line := bare (fun row => row.1.1.1.line) group

/-- The sums in `misuse2_query.py` do not overflow. -/
def SearchFits (indexofOp lastindexofOp getOp : ℤ) (group : List MisuseJoin) : Prop :=
  SumFits (group.map fun row => searchCost indexofOp lastindexofOp row.1.2) ∧
    ∀ cop ∈ [getOp, indexofOp, lastindexofOp], SumFits (group.map fun row => isCop cop row.1.2)

instance (indexofOp lastindexofOp getOp : ℤ) :
    DecidablePred (SearchFits indexofOp lastindexofOp getOp) :=
  fun _ => inferInstanceAs (Decidable (_ ∧ _))

namespace OperationTables

variable (t : OperationTables)

/-- `cops` of `misuse_query.py`. -/
def moveCops : List (Cell ℤ) :=
  (select (fun r => condOr (cellEq r.copName (some "add(ILjava/lang/Object;)V".toList))
    (cellEq r.copName (some "remove(I)Ljava/lang/Object;".toList))) t.containerOp).map
      ContainerOpRow.cop

/-- `get_cop`: the number in the first row with the name. -/
def getCop (copName : String) : Cell ℤ :=
  ((select (fun r => cellEq r.copName (some copName.toList)) t.containerOp).head?).elim (some (-2))
    ContainerOpRow.cop

/-- `FROM` and `WHERE` of both queries. -/
def misuseRows (ofType : TypeRow → Cond) (cops : List ℤ) : List MisuseJoin :=
  select (fun row => cellIn row.1.2.copid (cops.map some))
    (innerJoin (fun p c => ofClass p.1.1.site c)
      (innerJoin (fun p o => cellEq p.1.id o.holderId)
        (innerJoin (fun a m => cellEq m.id a.typeid) t.allocations (select ofType t.typemap))
        t.containers)
      t.classname)

/-- `misuse_query.py` before the order and the limit: a row for each site. A `None` in `cops` would be
written into the query as the name of a column that does not exist. -/
def misuse : Option (List (Site × MoveRow)) :=
  if t.moveCops.all Option.isSome then
    groupRows (fun row : MisuseJoin => row.1.1.1.site) MoveFits moveRow
      (t.misuseRows isArrayList t.moveCops.reduceOption)
  else none

/-- `misuse2_query.py` before the order and the limit. -/
def misuse2 : Option (List (Site × SearchRow)) := do
  let indexofOp ← t.getCop "indexOf(Ljava/lang/Object;)I"
  let lastindexofOp ← t.getCop "lastIndexOf(Ljava/lang/Object;)I"
  let getOp ← t.getCop "get(I)Ljava/lang/Object;"
  groupRows (fun row : MisuseJoin => row.1.1.1.site) (SearchFits indexofOp lastindexofOp getOp)
    (searchRow indexofOp lastindexofOp getOp) (t.misuseRows isList [indexofOp, lastindexofOp, getOp])

/-! What is counted. -/

/-- The operations with one of the numbers. -/
def opsIn (cops : List ℤ) : List OperationRow :=
  t.containers.filter fun o => ∃ n ∈ cops, o.copid = some n

/-- How often an operation counts at a site: for every row of `ALLOCATIONS` there for its container,
once for every row of `TYPEMAP` that says that it has the type. -/
def typedAt (ofType : TypeRow → Cond) (site : Site) (o : OperationRow) : ℕ :=
  ((t.allocations.filter fun a => a.site = site ∧ cellEq a.id o.holderId = some true).map fun a =>
    t.typemap.countP fun m => ofType m = some true ∧ cellEq m.id a.typeid = some true).sum

/-- The sites with a class and with an operation that counts. -/
def MisuseListed (ofType : TypeRow → Cond) (cops : List ℤ) (site : Site) : Prop :=
  t.toTables.classOf site ≠ none ∧ ∃ o ∈ t.opsIn cops, t.typedAt ofType site o ≠ 0

/-- The sum of a number over the operations of a site. -/
def sumAt (ofType : TypeRow → Cond) (cops : List ℤ) (site : Site) (f : OperationRow → ℤ) : ℤ :=
  ((t.opsIn cops).map fun o => t.typedAt ofType site o * f o).sum

/-- The operations of a site are small enough for the sums. -/
def FitsAt (ofType : TypeRow → Cond) (cops : List ℤ) : Prop :=
  ∀ a ∈ t.allocations, t.sumAt ofType cops a.site OperationRow.weight < 2 ^ 63

instance (ofType : TypeRow → Cond) (cops : List ℤ) : Decidable (t.FitsAt ofType cops) :=
  inferInstanceAs (Decidable (∀ a ∈ t.allocations, _))

variable {t} {ofType : TypeRow → Cond} {cops : List ℤ} {site : Site}

variable (t ofType) in
/-- The allocations of the types. -/
def typedAllocations : List (TypedAllocationRow × TypeRow) :=
  innerJoin (fun a m => cellEq m.id a.typeid) t.allocations (select ofType t.typemap)

/-- The allocation of a row. -/
def allocationOf (x : TypedAllocationRow × TypeRow) : AllocationRow := x.1.toAllocationRow

lemma select_opsIn : select (fun o : OperationRow => cellIn o.copid (cops.map some)) t.containers =
    t.opsIn cops := by
  refine List.filter_congr fun o _ => decide_eq_decide.mpr ?_
  rw [cellIn_eq_true_iff]
  constructor
  · rintro ⟨n, hn, hmem⟩
    exact ⟨n, by simpa using hmem, hn⟩
  · rintro ⟨n, hmem, hn⟩
    exact ⟨n, hn, List.mem_map_of_mem hmem⟩

variable (t ofType cops) in
lemma misuseRows_eq : t.misuseRows ofType cops =
    withOps (t.typedAllocations ofType) allocationOf (t.opsIn cops) t.classname := by
  have hpush := filter_innerJoin_left
    (fun (p : (TypedAllocationRow × TypeRow) × OperationRow) c => ofClass p.1.1.site c)
    (innerJoin (fun p o => cellEq p.1.id o.holderId) (innerJoin (fun a m => cellEq m.id a.typeid)
      t.allocations (select ofType t.typemap)) t.containers) t.classname
    fun p => cellIn p.2.copid (cops.map some) = some true
  have hops := select_innerJoin_right
    (fun (p : TypedAllocationRow × TypeRow) (o : OperationRow) => cellEq p.1.id o.holderId)
    (innerJoin (fun a m => cellEq m.id a.typeid) t.allocations (select ofType t.typemap)) t.containers
    fun o => cellIn o.copid (cops.map some)
  rw [misuseRows, select, hpush, ← select, hops, select_opsIn]
  rfl

lemma timesAt_typed (site : Site) (o : OperationRow) :
    timesAt (t.typedAllocations ofType) allocationOf site o = t.typedAt ofType site o := by
  unfold timesAt typedAt typedAllocations
  rw [List.countP_eq_length_filter, List.filter_filter]
  have hpush := filter_innerJoin_left (fun (a : TypedAllocationRow) m => cellEq m.id a.typeid)
    t.allocations (select ofType t.typemap)
    fun a => cellEq a.id o.holderId = some true && a.site = site
  refine (congrArg List.length hpush).trans ?_
  have hcount : ∀ a : TypedAllocationRow, ((select (fun m => cellEq m.id a.typeid)
      (select ofType t.typemap)).map fun m => (a, m)).length =
        t.typemap.countP fun m => ofType m = some true ∧ cellEq m.id a.typeid = some true := by
    intro a
    rw [List.length_map, select, select, List.filter_filter, ← List.countP_eq_length_filter]
    refine List.countP_congr fun m _ => ?_
    simp [and_comm]
  rw [innerJoin, List.length_flatMap, funext hcount]
  congr 2
  refine List.filter_congr fun a _ => ?_
  rw [Bool.and_comm, Bool.decide_and]

lemma mem_misuse {γ : Type*} (hkeys : (t.classname.map ClassnameRow.id).Nodup)
    (f : List MisuseJoin → γ) (p : Site × γ) :
    p ∈ (groupBy (fun row : MisuseJoin => row.1.1.1.site) (t.misuseRows ofType cops)).map
      (fun g => (g.1, f g.2)) ↔ t.MisuseListed ofType cops p.1 ∧
        p.2 = f ((t.misuseRows ofType cops).filter fun row => row.1.1.1.site = p.1) := by
  rw [misuseRows_eq]
  refine (mem_opQuery (t.typedAllocations ofType) allocationOf (t.opsIn cops) (t := t.toTables) hkeys
    f p).trans ?_
  simp only [timesAt_typed]
  rfl

lemma mem_allocations_of_mem_misuseRows {row : MisuseJoin} (h : row ∈ t.misuseRows ofType cops) :
    row.1.1.1 ∈ t.allocations := by
  rw [misuseRows_eq, withOps, mem_innerJoin, mem_innerJoin] at h
  exact (mem_innerJoin.mp h.1.1).1

lemma misuseRows_ne_nil (hkeys : (t.classname.map ClassnameRow.id).Nodup)
    (hlisted : t.MisuseListed ofType cops site) :
    (withOps (t.typedAllocations ofType) allocationOf (t.opsIn cops) t.toTables.classname).filter
      (fun row => (allocationOf row.1.1).site = site) ≠ [] := by
  refine (withOps_of_site_ne_nil _ _ _ hkeys).mpr ⟨hlisted.1, ?_⟩
  simpa only [timesAt_typed] using hlisted.2

lemma sum_weight (hkeys : (t.classname.map ClassnameRow.id).Nodup)
    (hlisted : t.MisuseListed ofType cops site) :
    (((t.misuseRows ofType cops).filter fun row => row.1.1.1.site = site).map
      fun row => row.1.2.weight).sum = t.sumAt ofType cops site OperationRow.weight := by
  obtain ⟨c, hc⟩ := Option.ne_none_iff_exists'.mp hlisted.1
  have hsum := sum_withOps_of_site (t.typedAllocations ofType) allocationOf (t.opsIn cops) hkeys hc
    OperationRow.weight
  simp only [timesAt_typed] at hsum
  rw [misuseRows_eq]
  exact hsum

/-- **The sums of all groups fit.** -/
lemma groupRows_misuse {γ : Type*} (hkeys : (t.classname.map ClassnameRow.id).Nodup)
    (hfits : t.FitsAt ofType cops) {fits : List MisuseJoin → Prop} [DecidablePred fits]
    (h : ∀ group : List MisuseJoin, (group.map fun row => row.1.2.weight).sum < 2 ^ 63 → fits group)
    (f : List MisuseJoin → γ) :
    groupRows (fun row : MisuseJoin => row.1.1.1.site) fits f (t.misuseRows ofType cops) =
      some ((groupBy (fun row : MisuseJoin => row.1.1.1.site) (t.misuseRows ofType cops)).map
        fun g => (g.1, f g.2)) := by
  refine if_pos fun (g : Site × List MisuseJoin) hg => h g.2 ?_
  obtain ⟨hkey, hrows⟩ := mem_groupBy.mp hg
  obtain ⟨row, hrow, hsite⟩ := List.mem_map.mp hkey
  have hmem : (g.1, ()) ∈ (groupBy (fun row : MisuseJoin => row.1.1.1.site)
      (t.misuseRows ofType cops)).map (fun g => (g.1, ())) := List.mem_map_of_mem hg
  have hlisted := ((mem_misuse hkeys (fun _ => ()) _).mp hmem).1
  rw [hrows, sum_weight hkeys hlisted, ← hsite]
  exact hfits _ (mem_allocations_of_mem_misuseRows hrow)

/-- The columns of a site. -/
theorem sum_misuse (hkeys : (t.classname.map ClassnameRow.id).Nodup)
    (hlisted : t.MisuseListed ofType cops site) {column : OperationRow → Cell ℤ} {f : OperationRow → ℤ}
    (hf : ∀ o ∈ t.opsIn cops, column o = some (f o)) :
    sum (((t.misuseRows ofType cops).filter fun row => row.1.1.1.site = site).map
      fun row => column row.1.2) = some (t.sumAt ofType cops site f) := by
  have hsum := sum_column_of_site _ _ _ hkeys (misuseRows_ne_nil hkeys hlisted) hf
  simp only [timesAt_typed] at hsum
  rw [misuseRows_eq]
  exact hsum

lemma bare_misuse (hkeys : (t.classname.map ClassnameRow.id).Nodup)
    (hlisted : t.MisuseListed ofType cops site) :
    bare (fun row => row.2.classname)
        ((t.misuseRows ofType cops).filter fun row => row.1.1.1.site = site) =
          (t.toTables.classOf site).bind ClassnameRow.classname ∧
      bare (fun row => row.1.1.1.line)
        ((t.misuseRows ofType cops).filter fun row => row.1.1.1.site = site) = site.2 := by
  rw [misuseRows_eq]
  exact bare_of_site _ _ _ hkeys (misuseRows_ne_nil hkeys hlisted)

lemma sumAt_sub (f g : OperationRow → ℤ) : t.sumAt ofType cops site f - t.sumAt ofType cops site g =
    t.sumAt ofType cops site fun o => f o - g o := by
  unfold sumAt
  induction t.opsIn cops with
  | nil => rfl
  | cons o l ih =>
    simp only [List.map_cons, List.sum_cons, ← ih]
    ring

lemma mem_map_fst_misuse {γ : Type*} (hkeys : (t.classname.map ClassnameRow.id).Nodup)
    (f : List MisuseJoin → γ) : site ∈ ((groupBy (fun row : MisuseJoin => row.1.1.1.site)
      (t.misuseRows ofType cops)).map fun g => (g.1, f g.2)).map Prod.fst ↔
        t.MisuseListed ofType cops site := by
  rw [List.mem_map]
  constructor
  · rintro ⟨p, hp, rfl⟩
    exact ((mem_misuse hkeys f p).mp hp).1
  · intro hlisted
    let columns := f ((t.misuseRows ofType cops).filter fun row => row.1.1.1.site = site)
    exact ⟨(site, columns), (mem_misuse hkeys f _).mpr ⟨hlisted, rfl⟩, rfl⟩

/-! What insertions and removals move. -/

variable (t) in
/-- The number of an insertion at a place, or of a removal from one. -/
def Moves (copid : Cell ℤ) : Prop :=
  ∃ r ∈ t.containerOp, r.cop = copid ∧ (r.copName = some "add(ILjava/lang/Object;)V".toList ∨
    r.copName = some "remove(I)Ljava/lang/Object;".toList)

instance (copid : Cell ℤ) : Decidable (t.Moves copid) := by
  unfold Moves
  infer_instance

variable (t) in
/-- The insertions and removals. -/
def moves : List OperationRow := t.containers.filter fun o => t.Moves o.copid

lemma mem_moveCops {c : Cell ℤ} : c ∈ t.moveCops ↔ t.Moves c := by
  have heq : ∀ (a : Cell (List Char)) (x : List Char), cellEq a (some x) = some true ↔ a = some x := by
    intro a x
    simp
  simp only [moveCops, Moves, List.mem_map, mem_select, condOr_eq_true_iff, heq]
  constructor
  · rintro ⟨r, ⟨hr, hname⟩, hcop⟩
    exact ⟨r, hr, hcop, hname⟩
  · rintro ⟨r, hr, hcop, hname⟩
    exact ⟨r, ⟨hr, hname⟩, hcop⟩

lemma opsIn_moveCops (hcops : none ∉ t.moveCops) : t.opsIn t.moveCops.reduceOption = t.moves := by
  refine List.filter_congr fun o _ => decide_eq_decide.mpr ?_
  simp only [List.reduceOption_mem_iff, ← mem_moveCops]
  constructor
  · rintro ⟨n, hn, hcop⟩
    rwa [hcop]
  · intro hmem
    obtain ⟨n, hn⟩ := Option.ne_none_iff_exists'.mp fun e : o.copid = none => hcops (e ▸ hmem)
    exact ⟨n, hn ▸ hmem, hn⟩

/-- The row of an insertion at the place `i` of the list `l`, or of a removal from it. -/
structure RecordsMove {β : Type} (l : List β) (i : ℕ) (o : OperationRow) : Prop where
  place : i ≤ l.length
  size : o.size = some (l.length : ℤ)
  v1 : o.v1 = some (i : ℤ)

variable (t) in
/-- What `misuse_query.py` reports, when the operations are insertions and removals in lists: the
elements from the place on. -/
structure MoveOverheads (rows : List (Site × MoveRow)) : Prop where
  nodup : (rows.map Prod.fst).Nodup
  sites : ∀ site, site ∈ rows.map Prod.fst ↔
    t.toTables.classOf site ≠ none ∧ ∃ o ∈ t.moves, t.typedAt isArrayList site o ≠ 0
  overhead : ∀ {β : Type} (list : OperationRow → List β) (place : OperationRow → ℕ),
    (∀ o ∈ t.moves, RecordsMove (list o) (place o) o) → ∀ p ∈ rows, p.2.overhead =
      some (t.moves.map fun o =>
        (t.typedAt isArrayList p.1 o * ((list o).drop (place o)).length : ℤ)).sum
  named : ∀ p ∈ rows, p.2.classname = (t.toTables.classOf p.1).bind ClassnameRow.classname ∧
    p.2.line = p.1.2

lemma moveFits {group : List MisuseJoin}
    (h : (group.map fun row => row.1.2.weight).sum < 2 ^ 63) : MoveFits group := by
  have hsize := @abs_sum_le _ group (fun row => row.1.2.size) (fun row => |row.1.2.size.getD 0|)
    fun row _ => ⟨abs_nonneg _, fun _ => abs_le_getD⟩
  have hv1 := @abs_sum_le _ group (fun row => row.1.2.v1) (fun row => |row.1.2.v1.getD 0|)
    fun row _ => ⟨abs_nonneg _, fun _ => abs_le_getD⟩
  have hboth : (group.map fun row => |row.1.2.size.getD 0|).sum +
      (group.map fun row => |row.1.2.v1.getD 0|).sum ≤ (group.map fun row => row.1.2.weight).sum := by
    rw [← List.sum_map_add]
    exact List.sum_le_sum fun row _ => (row.1.2).abs_add_le_weight
  have hcolumn : ∀ column : OperationRow → Cell ℤ, (∀ o, ∀ x ∈ column o, |x| ≤ o.weight) →
      SumFits (group.map fun row => column row.1.2) := fun _ hle =>
    sumFits_column (fun row : MisuseJoin => row.1.2) h hle
  refine ⟨hcolumn (fun o => o.size) fun o x hx => ?_, hcolumn (fun o => o.v1) fun o x hx => ?_,
    fun v hv => ?_⟩
  · linarith [o.abs_add_le_weight, abs_le_getD hx, abs_nonneg (o.v1.getD 0)]
  · linarith [o.abs_add_le_weight, abs_le_getD hx, abs_nonneg (o.size.getD 0)]
  · obtain ⟨a, b, ha, hb, rfl⟩ := Option.map₂_eq_some_iff.mp hv
    have ha := eq_of_mem_sum ha ▸ hsize (List.Sublist.refl _)
    have hb := eq_of_mem_sum hb ▸ hv1 (List.Sublist.refl _)
    exact fitsInteger_of_abs_lt ((abs_sub a b).trans_lt (by linarith))

variable (t) in
/-- **What `misuse_query.py` sums up.** -/
theorem misuse_overheads (hkeys : (t.classname.map ClassnameRow.id).Nodup) (hcops : none ∉ t.moveCops)
    (hfits : t.FitsAt isArrayList t.moveCops.reduceOption) :
    ∃ rows, t.misuse = some rows ∧ t.MoveOverheads rows := by
  have hrows := groupRows_misuse hkeys hfits (fun _ => moveFits) moveRow
  refine ⟨_, (if_pos (all_isSome hcops)).trans hrows, ?_, fun site => ?_, fun list place h p hp => ?_,
    fun p hp => ?_⟩
  · rw [map_fst_groups]
    exact List.nodup_dedup _
  · rw [mem_map_fst_misuse hkeys moveRow, MisuseListed, opsIn_moveCops hcops]
  · obtain ⟨hlisted, hp⟩ := (mem_misuse hkeys moveRow p).mp hp
    rw [← opsIn_moveCops hcops] at h ⊢
    have hsize := sum_misuse hkeys hlisted fun o ho => (h o ho).size
    have hv1 := sum_misuse hkeys hlisted fun o ho => (h o ho).v1
    rw [hp, moveRow, hsize, hv1]
    refine (congrArg some (sumAt_sub _ _)).trans (congrArg (fun l : List ℤ => some l.sum) ?_)
    refine List.map_congr_left fun o ho => ?_
    rw [List.length_drop, Nat.cast_sub (h o ho).place]
  · obtain ⟨hlisted, hp⟩ := (mem_misuse hkeys moveRow p).mp hp
    rw [hp]
    exact bare_misuse hkeys hlisted

/-! What searches compare. -/

section Searches

variable {β : Type} {indexofOp lastindexofOp getOp : ℤ}

/-- The row of a search for the elements that satisfy `p` in the list `l`. -/
structure RecordsSearch (indexofOp lastindexofOp : ℤ) (l : List β) (p : β → Bool) (o : OperationRow) :
    Prop where
  length : l.length < 2 ^ 32
  size : o.size = some (l.length : ℤ)
  first : o.copid = some indexofOp → o.v1 = some (answer (indexOf p l))
  last : o.copid = some lastindexofOp → o.v1 = some (answer (lastIndexOf p l))

/-- The comparisons of a search. -/
def comparisons (indexofOp lastindexofOp : ℤ) (l : List β) (p : β → Bool) (o : OperationRow) : ℤ :=
  if o.copid = some indexofOp then compared p l
  else if o.copid = some lastindexofOp then compared p l.reverse
  else 0

/-- An `indexOf` that finds its element. -/
def foundFirst (indexofOp : ℤ) (l : List β) (p : β → Bool) (o : OperationRow) : ℤ :=
  if o.copid = some indexofOp ∧ (indexOf p l).isSome then 1 else 0

lemma cellEq_copid {o : OperationRow} (n : ℤ) :
    cellEq o.copid (some n) = some true ↔ o.copid = some n := by
  simp

lemma searchCost_eq {l : List β} {p : β → Bool} {o : OperationRow}
    (h : RecordsSearch indexofOp lastindexofOp l p o) : searchCost indexofOp lastindexofOp o =
      some (comparisons indexofOp lastindexofOp l p o - foundFirst indexofOp l p o) := by
  simp only [searchCost, cellEq_copid, comparisons, foundFirst]
  by_cases hfirst : o.copid = some indexofOp
  · rw [if_pos hfirst, if_pos hfirst, h.size, h.first hfirst, scanned_indexOf h.length]
    simp [hfirst]
  · have hfound : ¬ (o.copid = some indexofOp ∧ (indexOf p l).isSome) := fun e => hfirst e.1
    simp only [if_neg hfirst, if_neg hfound, sub_zero]
    by_cases hlast : o.copid = some lastindexofOp
    · rw [if_pos hlast, if_pos hlast, h.size, h.last hlast, scanned_lastIndexOf h.length]
    · rw [if_neg hlast, if_neg hlast]

/-- An operation with one of the numbers. -/
def countsAs (cop : ℤ) (o : OperationRow) : ℤ := if o.copid = some cop then 1 else 0

lemma isCop_eq (cop : ℤ) (o : OperationRow) : isCop cop o = some (countsAs cop o) := by
  simp only [isCop, cellEq_copid, countsAs]

variable (t) in
/-- What `misuse2_query.py` reports, when the operations are searches in lists: the comparisons, without
one for each `indexOf` that finds its element. -/
structure SearchOverheads (indexofOp lastindexofOp getOp : ℤ) (rows : List (Site × SearchRow)) :
    Prop where
  nodup : (rows.map Prod.fst).Nodup
  sites : ∀ site, site ∈ rows.map Prod.fst ↔
    t.MisuseListed isList [indexofOp, lastindexofOp, getOp] site
  overhead : ∀ {β : Type} (list : OperationRow → List β) (looked : OperationRow → β → Bool),
    (∀ o ∈ t.opsIn [indexofOp, lastindexofOp, getOp],
      RecordsSearch indexofOp lastindexofOp (list o) (looked o) o) → ∀ p ∈ rows,
        p.2.overhead = some (t.sumAt isList [indexofOp, lastindexofOp, getOp] p.1
            (fun o => comparisons indexofOp lastindexofOp (list o) (looked o) o) -
          t.sumAt isList [indexofOp, lastindexofOp, getOp] p.1
            fun o => foundFirst indexofOp (list o) (looked o) o)
  counts : ∀ p ∈ rows,
    p.2.getCount = some (t.sumAt isList [indexofOp, lastindexofOp, getOp] p.1 (countsAs getOp)) ∧
    p.2.indexofCount =
      some (t.sumAt isList [indexofOp, lastindexofOp, getOp] p.1 (countsAs indexofOp)) ∧
    p.2.lastindexofCount =
      some (t.sumAt isList [indexofOp, lastindexofOp, getOp] p.1 (countsAs lastindexofOp))
  named : ∀ p ∈ rows, p.2.classname = (t.toTables.classOf p.1).bind ClassnameRow.classname ∧
    p.2.line = p.1.2

lemma searchFits {group : List MisuseJoin}
    (h : (group.map fun row => row.1.2.weight).sum < 2 ^ 63) :
    SearchFits indexofOp lastindexofOp getOp group :=
  ⟨sumFits_column (fun row : MisuseJoin => row.1.2) h abs_le_of_mem_searchCost, fun _ _ =>
    sumFits_column (fun row : MisuseJoin => row.1.2) h abs_le_of_mem_isCop⟩

variable (t) in
/-- **What `misuse2_query.py` sums up.** -/
theorem misuse2_overheads (hkeys : (t.classname.map ClassnameRow.id).Nodup)
    (hindexof : t.getCop "indexOf(Ljava/lang/Object;)I" = some indexofOp)
    (hlastindexof : t.getCop "lastIndexOf(Ljava/lang/Object;)I" = some lastindexofOp)
    (hget : t.getCop "get(I)Ljava/lang/Object;" = some getOp)
    (hfits : t.FitsAt isList [indexofOp, lastindexofOp, getOp]) :
    ∃ rows, t.misuse2 = some rows ∧ t.SearchOverheads indexofOp lastindexofOp getOp rows := by
  let columns := searchRow indexofOp lastindexofOp getOp
  refine ⟨(groupBy (fun row : MisuseJoin => row.1.1.1.site)
    (t.misuseRows isList [indexofOp, lastindexofOp, getOp])).map fun g => (g.1, columns g.2), ?_, ?_,
    fun site => mem_map_fst_misuse hkeys columns, fun list looked hrecords p hp => ?_, fun p hp => ?_,
    fun p hp => ?_⟩
  · rw [misuse2, hindexof, hlastindexof, hget]
    exact groupRows_misuse hkeys hfits (fun _ => searchFits) columns
  · rw [map_fst_groups]
    exact List.nodup_dedup _
  · obtain ⟨hlisted, hp⟩ := (mem_misuse hkeys columns p).mp hp
    rw [hp, sumAt_sub]
    exact sum_misuse hkeys hlisted fun o ho => searchCost_eq (hrecords o ho)
  · obtain ⟨hlisted, hp⟩ := (mem_misuse hkeys columns p).mp hp
    rw [hp]
    exact ⟨sum_misuse hkeys hlisted fun o _ => isCop_eq getOp o,
      sum_misuse hkeys hlisted fun o _ => isCop_eq indexofOp o,
      sum_misuse hkeys hlisted fun o _ => isCop_eq lastindexofOp o⟩
  · obtain ⟨hlisted, hp⟩ := (mem_misuse hkeys columns p).mp hp
    rw [hp]
    exact bare_misuse hkeys hlisted

end Searches

end OperationTables

open OperationTables

/-- Two lists of one site: an element is inserted at the front of the first one and searched for in
both. -/
def searchedLists : OperationTables where
  allocations := [⟨⟨some 1, some 3, some 7, some 16⟩, some 5⟩, ⟨⟨some 2, some 3, some 7, some 16⟩, some 5⟩]
  containers := [⟨⟨some 1, some 0, some 4⟩, some 8, some 0, some 3, some 30⟩,
    ⟨⟨some 1, some 1, some 5⟩, some 8, some 2, some 3, some 31⟩,
    ⟨⟨some 2, some 2, some 5⟩, some 8, some 4294967295, some 3, some 31⟩]
  classname := [⟨4, some ['M']⟩]
  containerOp := [⟨some 0, some "add(ILjava/lang/Object;)V".toList⟩,
    ⟨some 1, some "indexOf(Ljava/lang/Object;)I".toList⟩,
    ⟨some 2, some "lastIndexOf(Ljava/lang/Object;)I".toList⟩]
  typemap := [⟨some 5, some "java/util/ArrayList".toList⟩]

/-- What they hold at an operation. The element is `8`. -/
def searchedList (o : OperationRow) : List ℕ :=
  if o.copid = some 0 then [8, 0, 1, 2]
  else if o.holderId = some 1 then [7, 6, 8, 0, 1]
  else [1, 2, 3, 4, 5]

/-- The insertion at the front is before four elements. -/
theorem misuse_overheads_two : ∃ rows, searchedLists.misuse = some rows ∧
    searchedLists.MoveOverheads rows ∧
    rows.map (fun p => (p.1, p.2.overhead)) = [((some 3, some 7), some 4)] ∧
    ∀ p ∈ rows, p.2.overhead = some (searchedLists.moves.map fun o =>
      (searchedLists.typedAt isArrayList p.1 o * ((searchedList o).drop 0).length : ℤ)).sum := by
  obtain ⟨rows, hrows, hover⟩ := searchedLists.misuse_overheads (by decide) (by decide +kernel)
    (by decide +kernel)
  have hvalues : searchedLists.misuse.map (fun rows => rows.map fun p => (p.1, p.2.overhead)) =
      some [((some 3, some 7), some 4)] := by decide +kernel
  rw [hrows] at hvalues
  have hmoves : searchedLists.moves = searchedLists.containers.take 1 := by decide +kernel
  refine ⟨rows, hrows, hover, Option.some.inj hvalues, hover.overhead searchedList (fun _ => 0) ?_⟩
  rw [hmoves]
  intro o ho
  obtain rfl := List.mem_singleton.mp ho
  exact ⟨by decide, by decide, by decide⟩

lemma recordsSearch_searchedList {cops : List ℤ} (hcops : searchedLists.opsIn cops =
    searchedLists.containers.drop 1) : ∀ o ∈ searchedLists.opsIn cops,
      RecordsSearch 1 2 (searchedList o) (· == 8) o ∧ (searchedList o).countP (· == 8) ≤ 1 := by
  rw [hcops]
  intro o ho
  rcases List.mem_cons.mp ho with rfl | ho
  · exact ⟨⟨by decide, by decide, by decide, by decide⟩, by decide⟩
  · obtain rfl := List.mem_singleton.mp ho
    exact ⟨⟨by decide, by decide, by decide, by decide⟩, by decide⟩

lemma getCop_searchedLists : searchedLists.getCop "indexOf(Ljava/lang/Object;)I" = some 1 ∧
    searchedLists.getCop "lastIndexOf(Ljava/lang/Object;)I" = some 2 := by
  decide +kernel

/-- The two searches compare three and five elements. -/
theorem misuse2_overheads_two : ∃ rows, searchedLists.misuse2 = some rows ∧
    searchedLists.SearchOverheads 1 2 (-2) rows ∧
    rows.map (fun p => (p.1, p.2.overhead)) = [((some 3, some 7), some 7)] ∧
    ∀ p ∈ rows, p.2.overhead = some (searchedLists.sumAt isList [1, 2, -2] p.1
        (fun o => comparisons 1 2 (searchedList o) (· == 8) o) -
      searchedLists.sumAt isList [1, 2, -2] p.1
        fun o => foundFirst 1 (searchedList o) (· == 8) o) := by
  have hget : searchedLists.getCop "get(I)Ljava/lang/Object;" = some (-2) := by decide +kernel
  obtain ⟨rows, hrows, hover⟩ := searchedLists.misuse2_overheads (by decide) getCop_searchedLists.1
    getCop_searchedLists.2 hget (by decide +kernel)
  have hvalues : searchedLists.misuse2.map (fun rows => rows.map fun p => (p.1, p.2.overhead)) =
      some [((some 3, some 7), some 7)] := by decide +kernel
  rw [hrows] at hvalues
  refine ⟨rows, hrows, hover, Option.some.inj hvalues,
    hover.overhead searchedList (fun _ => (· == 8)) fun o ho => ?_⟩
  exact (recordsSearch_searchedList (by decide +kernel) o ho).1

/-! ### `index_query.py` -/

/-- The class and the line of the caller of an operation. -/
def OperationRow.site (o : OperationRow) : Site := (o.classNameId, o.line)

/-- A row of the result of `index_query.py`. -/
structure IndexRow where
  isIndexof : Cell ℤ
  overhead : Cell ℤ
  overheadSave : Cell ℤ
  classname : Cell (List Char)
  line : Cell ℤ
  deriving DecidableEq

/-- `CASE WHEN COPID = indexof_op THEN .. ELSE .. END` with the two ways to take the cost of a
search. -/
def ownCost (indexofOp : ℤ) (o : OperationRow) : Cell ℤ :=
  if cellEq o.copid (some indexofOp) = some true then scanned false o.size o.v1
  else scanned true o.size o.v1

/-- The same, less the cost of the search from the other end. -/
def savedCost (indexofOp : ℤ) (o : OperationRow) : Cell ℤ :=
  if cellEq o.copid (some indexofOp) = some true then
    cellSub (scanned false o.size o.v1) (scanned true o.size o.v1)
  else cellSub (scanned true o.size o.v1) (scanned false o.size o.v1)

/-- The selected columns of a group. -/
def indexRow (indexofOp : ℤ) (group : List (OperationRow × ClassnameRow)) : IndexRow where
  isIndexof := bare (fun row => isCop indexofOp row.1) group
  overhead := sum (group.map fun row => ownCost indexofOp row.1)
  overheadSave := sum (group.map fun row => savedCost indexofOp row.1)
  classname := bare (fun row => row.2.classname) group
  line := bare (fun row => row.1.line) group

/-- The sums in `index_query.py` do not overflow. -/
def IndexFits (indexofOp : ℤ) (group : List (OperationRow × ClassnameRow)) : Prop :=
  SumFits (group.map fun row => ownCost indexofOp row.1) ∧
    SumFits (group.map fun row => savedCost indexofOp row.1)

instance (indexofOp : ℤ) : DecidablePred (IndexFits indexofOp) :=
  fun _ => inferInstanceAs (Decidable (_ ∧ _))

lemma abs_le_of_mem_ownCost {indexofOp : ℤ} (o : OperationRow) :
    ∀ x ∈ ownCost indexofOp o, |x| ≤ o.weight := by
  intro x hx
  unfold ownCost at hx
  split_ifs at hx
  · exact (abs_le_of_mem_scanned hx).trans o.abs_add_le_weight
  · exact (abs_le_of_mem_scanned hx).trans o.abs_add_le_weight

/-- The two costs differ by `0` or by `SIZE` and twice `V1`. -/
lemma abs_le_of_mem_savedCost {indexofOp : ℤ} (o : OperationRow) :
    ∀ x ∈ savedCost indexofOp o, |x| ≤ o.weight := by
  intro x hx
  have hcosts : ∀ a b, a ∈ scanned false o.size o.v1 → b ∈ scanned true o.size o.v1 →
      |a - b| ≤ o.weight := by
    intro a b ha hb
    simp only [scanned, Bool.false_eq_true, if_false, if_true] at ha hb
    split_ifs at ha hb
    · obtain rfl := Option.some.inj ((Option.mem_def.mp ha).symm.trans hb)
      rw [sub_self]
      exact abs_zero.trans_le (zero_le_one.trans o.one_le_weight)
    · obtain ⟨m, n, hm, hn, rfl⟩ := Option.map₂_eq_some_iff.mp hb
      obtain rfl := Option.some.inj ((Option.mem_def.mp ha).symm.trans hn)
      have hsize := abs_le_getD hm
      have hv1 := abs_le_getD hn
      have hdiff : |a - (m - a)| ≤ 2 * |a| + |m| := by
        rw [show a - (m - a) = 2 * a - m by ring]
        refine (abs_sub _ _).trans_eq ?_
        rw [abs_mul]
        rfl
      unfold OperationRow.weight
      linarith
  unfold savedCost at hx
  split_ifs at hx
  · obtain ⟨a, b, ha, hb, rfl⟩ := Option.map₂_eq_some_iff.mp hx
    exact hcosts a b ha hb
  · obtain ⟨a, b, ha, hb, rfl⟩ := Option.map₂_eq_some_iff.mp hx
    rw [abs_sub_comm]
    exact hcosts b a hb ha

lemma indexFits {indexofOp : ℤ} {group : List (OperationRow × ClassnameRow)}
    (h : (group.map fun row => row.1.weight).sum < 2 ^ 63) : IndexFits indexofOp group :=
  ⟨sumFits_column (fun row : OperationRow × ClassnameRow => row.1) h abs_le_of_mem_ownCost,
    sumFits_column (fun row : OperationRow × ClassnameRow => row.1) h abs_le_of_mem_savedCost⟩

namespace OperationTables

variable (t : OperationTables)

/-- `FROM` and `WHERE`. -/
def indexRows (cops : List ℤ) : List (OperationRow × ClassnameRow) :=
  select (fun row => cellIn row.1.copid (cops.map some))
    (innerJoin (fun o c => ofClass o.site c) t.containers t.classname)

/-- `index_query.py` before the order and the limit: a row for each class and line that searches. -/
def index : Option (List (Site × IndexRow)) := do
  let indexofOp ← t.getCop "indexOf(Ljava/lang/Object;)I"
  let lastindexofOp ← t.getCop "lastIndexOf(Ljava/lang/Object;)I"
  groupRows (fun row : OperationRow × ClassnameRow => row.1.site) (IndexFits indexofOp)
    (indexRow indexofOp) (t.indexRows [indexofOp, lastindexofOp])

/-- The searches of a class and a line. -/
def searchesAt (cops : List ℤ) (site : Site) : List OperationRow :=
  (t.opsIn cops).filter fun o => o.site = site

variable {t} {cops : List ℤ} {site : Site}

lemma indexRows_eq : t.indexRows cops =
    innerJoin (fun o c => ofClass o.site c) (t.opsIn cops) t.classname := by
  have hpush := filter_innerJoin_left (fun (o : OperationRow) c => ofClass o.site c) t.containers
    t.classname fun o => cellIn o.copid (cops.map some) = some true
  rw [indexRows, select, hpush, ← select, select_opsIn]

variable (cops site) in
lemma indexRows_of_site (hkeys : (t.classname.map ClassnameRow.id).Nodup) :
    (t.indexRows cops).filter (fun row => row.1.site = site) =
      (t.toTables.classOf site).elim [] fun c => (t.searchesAt cops site).map fun o => (o, c) := by
  have hpush := filter_innerJoin_left (fun (o : OperationRow) c => ofClass o.site c) (t.opsIn cops)
    t.classname fun o => o.site = site
  have hselect : ∀ o ∈ (t.opsIn cops).filter (fun o => o.site = site),
      select (ofClass o.site) t.classname = (t.toTables.classOf site).toList := by
    intro o ho
    rw [of_decide_eq_true (List.mem_filter.mp ho).2]
    exact t.toTables.select_ofClass hkeys site
  rw [indexRows_eq, hpush]
  cases hc : t.toTables.classOf site with
  | none =>
    rw [hc] at hselect
    refine List.flatMap_eq_nil_iff.mpr fun o ho => ?_
    rw [hselect o ho]
    rfl
  | some c =>
    rw [hc] at hselect
    exact innerJoin_eq_map hselect

lemma exists_group (hkeys : (t.classname.map ClassnameRow.id).Nodup)
    (hne : (t.indexRows cops).filter (fun row => row.1.site = site) ≠ []) :
    ∃ c, t.toTables.classOf site = some c ∧ t.searchesAt cops site ≠ [] ∧
      (t.indexRows cops).filter (fun row => row.1.site = site) =
        (t.searchesAt cops site).map fun o => (o, c) := by
  rw [indexRows_of_site cops site hkeys] at hne ⊢
  cases hc : t.toTables.classOf site with
  | none => exact absurd (by rw [hc]; rfl) hne
  | some c =>
    rw [hc, Option.elim_some] at hne
    exact ⟨c, rfl, fun e => hne (by rw [e]; rfl), rfl⟩

lemma mem_index {γ : Type*} (hkeys : (t.classname.map ClassnameRow.id).Nodup)
    (f : List (OperationRow × ClassnameRow) → γ) (p : Site × γ) :
    p ∈ (groupBy (fun row : OperationRow × ClassnameRow => row.1.site) (t.indexRows cops)).map
      (fun g => (g.1, f g.2)) ↔ ∃ c, t.toTables.classOf p.1 = some c ∧ t.searchesAt cops p.1 ≠ [] ∧
        p.2 = f ((t.searchesAt cops p.1).map fun o => (o, c)) := by
  rw [mem_groups]
  constructor
  · rintro ⟨hne, hp⟩
    obtain ⟨c, hc, hsearches, hgroup⟩ := exists_group hkeys hne
    exact ⟨c, hc, hsearches, by rw [hp, hgroup]⟩
  · rintro ⟨c, hc, hsearches, hp⟩
    have hgroup := indexRows_of_site cops p.1 hkeys
    rw [hc, Option.elim_some] at hgroup
    rw [hgroup]
    exact ⟨by simpa using hsearches, hp⟩

lemma sum_group {c : ClassnameRow} (hne : t.searchesAt cops site ≠ [])
    {column : OperationRow → Cell ℤ} {f : OperationRow → ℤ} (hf : ∀ o ∈ t.opsIn cops, column o = some (f o)) :
    sum (((t.searchesAt cops site).map fun o => (o, c)).map fun row => column row.1) =
      some ((t.searchesAt cops site).map f).sum := by
  rw [← sum_map_some (by simpa using hne), List.map_map, List.map_map]
  congr 1
  exact List.map_congr_left fun o ho => hf o (List.mem_filter.mp ho).1

section Directions

variable {β : Type} {indexofOp lastindexofOp : ℤ}

/-- A `lastIndexOf` that finds its element. -/
def foundLast (indexofOp : ℤ) (l : List β) (p : β → Bool) (o : OperationRow) : ℤ :=
  if o.copid ≠ some indexofOp ∧ (indexOf p l).isSome then 1 else 0

/-- What the exchange of the two searches is said to save. -/
def saved (indexofOp lastindexofOp : ℤ) (l : List β) (p : β → Bool) (o : OperationRow) : ℤ :=
  comparisons indexofOp lastindexofOp l p o - comparisons indexofOp lastindexofOp l.reverse p o -
    foundFirst indexofOp l p o + foundLast indexofOp l p o

lemma ownCost_eq {l : List β} {p : β → Bool} {o : OperationRow}
    (ho : o ∈ t.opsIn [indexofOp, lastindexofOp])
    (h : RecordsSearch indexofOp lastindexofOp l p o) : ownCost indexofOp o =
      some (comparisons indexofOp lastindexofOp l p o - foundFirst indexofOp l p o) := by
  rw [← searchCost_eq h]
  simp only [ownCost, searchCost, cellEq_copid]
  by_cases hfirst : o.copid = some indexofOp
  · rw [if_pos hfirst, if_pos hfirst]
  · have hlast : o.copid = some lastindexofOp := by
      simpa [opsIn, hfirst] using (List.mem_filter.mp ho).2
    rw [if_neg hfirst, if_neg hfirst, if_pos hlast]

/-- In a list with one such element at most, the search from the other end has the same answer. -/
lemma savedCost_eq {l : List β} {p : β → Bool} {o : OperationRow}
    (ho : o ∈ t.opsIn [indexofOp, lastindexofOp])
    (h : RecordsSearch indexofOp lastindexofOp l p o) (honce : l.countP p ≤ 1) :
    savedCost indexofOp o = some (saved indexofOp lastindexofOp l p o) := by
  have hfwd := scanned_indexOf (p := p) h.length
  have hbwd := scanned_lastIndexOf (p := p) h.length
  rw [lastIndexOf_eq_indexOf honce] at hbwd
  simp only [savedCost, cellEq_copid, saved, comparisons, foundFirst, foundLast, List.reverse_reverse]
  by_cases hfirst : o.copid = some indexofOp
  · have hv1 := h.first hfirst
    simp only [h.size, hv1, hfwd, hbwd, hfirst, true_and, ne_eq, not_true, false_and, if_true,
      if_false]
    simp only [cellSub, Option.map₂_some_some, Option.some_inj]
    ring
  · have hlast : o.copid = some lastindexofOp := by
      simpa [opsIn, hfirst] using (List.mem_filter.mp ho).2
    have hv1 := h.last hlast
    rw [lastIndexOf_eq_indexOf honce] at hv1
    simp only [if_pos hlast, h.size, hv1, hfwd, hbwd, hfirst, false_and, ne_eq,
      not_false_eq_true, true_and, if_false]
    simp only [cellSub, Option.map₂_some_some, Option.some_inj]
    ring

variable (t) in
/-- What `index_query.py` reports for each class and line that searches. -/
structure IndexOverheads (indexofOp lastindexofOp : ℤ) (rows : List (Site × IndexRow)) : Prop where
  nodup : (rows.map Prod.fst).Nodup
  sites : ∀ site, site ∈ rows.map Prod.fst ↔
    t.toTables.classOf site ≠ none ∧ t.searchesAt [indexofOp, lastindexofOp] site ≠ []
  isIndexof : ∀ p ∈ rows, ∃ o ∈ t.searchesAt [indexofOp, lastindexofOp] p.1,
    p.2.isIndexof = some (countsAs indexofOp o)
  overhead : ∀ {β : Type} (list : OperationRow → List β) (looked : OperationRow → β → Bool),
    (∀ o ∈ t.opsIn [indexofOp, lastindexofOp],
      RecordsSearch indexofOp lastindexofOp (list o) (looked o) o) → ∀ p ∈ rows,
        p.2.overhead = some ((t.searchesAt [indexofOp, lastindexofOp] p.1).map fun o =>
          comparisons indexofOp lastindexofOp (list o) (looked o) o -
            foundFirst indexofOp (list o) (looked o) o).sum
  overheadSave : ∀ {β : Type} (list : OperationRow → List β) (looked : OperationRow → β → Bool),
    (∀ o ∈ t.opsIn [indexofOp, lastindexofOp],
      RecordsSearch indexofOp lastindexofOp (list o) (looked o) o ∧ (list o).countP (looked o) ≤ 1) →
        ∀ p ∈ rows, p.2.overheadSave = some ((t.searchesAt [indexofOp, lastindexofOp] p.1).map
          fun o => saved indexofOp lastindexofOp (list o) (looked o) o).sum
  named : ∀ p ∈ rows, p.2.classname = (t.toTables.classOf p.1).bind ClassnameRow.classname ∧
    p.2.line = p.1.2

variable (t) in
/-- **What `index_query.py` sums up.** -/
theorem index_overheads (hkeys : (t.classname.map ClassnameRow.id).Nodup)
    (hindexof : t.getCop "indexOf(Ljava/lang/Object;)I" = some indexofOp)
    (hlastindexof : t.getCop "lastIndexOf(Ljava/lang/Object;)I" = some lastindexofOp)
    (hfits : ∀ o ∈ t.containers,
      ((t.searchesAt [indexofOp, lastindexofOp] o.site).map OperationRow.weight).sum < 2 ^ 63) :
    ∃ rows, t.index = some rows ∧ t.IndexOverheads indexofOp lastindexofOp rows := by
  let columns := indexRow indexofOp
  let cops := [indexofOp, lastindexofOp]
  let rows := (groupBy (fun row : OperationRow × ClassnameRow => row.1.site) (t.indexRows cops)).map
    fun g => (g.1, columns g.2)
  have hrow : ∀ p ∈ rows, ∃ c, t.toTables.classOf p.1 = some c ∧ t.searchesAt cops p.1 ≠ [] ∧
      p.2 = columns ((t.searchesAt cops p.1).map fun o => (o, c)) := fun p =>
    (mem_index hkeys columns p).mp
  refine ⟨rows, ?_, ?_, fun site => ?_, fun p hp => ?_, fun list looked h p hp => ?_,
    fun list looked h p hp => ?_, fun p hp => ?_⟩
  · rw [index, hindexof, hlastindexof]
    refine if_pos fun (g : Site × List (OperationRow × ClassnameRow)) hg => indexFits ?_
    have hne := ne_nil_of_mem_groupBy hg
    rw [(mem_groupBy.mp hg).2] at hne ⊢
    obtain ⟨c, -, hsearches, hgroup⟩ := exists_group hkeys hne
    obtain ⟨o, ho⟩ := List.exists_mem_of_ne_nil _ hsearches
    obtain ⟨ho, hsite⟩ := List.mem_filter.mp ho
    rw [hgroup, List.map_map, ← of_decide_eq_true hsite]
    exact hfits o (List.mem_filter.mp ho).1
  · rw [map_fst_groups]
    exact List.nodup_dedup _
  · rw [List.mem_map]
    constructor
    · rintro ⟨p, hp, rfl⟩
      obtain ⟨c, hc, hsearches, -⟩ := hrow p hp
      exact ⟨by rw [hc]; simp, hsearches⟩
    · rintro ⟨hclass, hsearches⟩
      obtain ⟨c, hc⟩ := Option.ne_none_iff_exists'.mp hclass
      exact ⟨(site, columns ((t.searchesAt cops site).map fun o => (o, c))),
        (mem_index hkeys columns _).mpr ⟨c, hc, hsearches, rfl⟩, rfl⟩
  · obtain ⟨c, -, hsearches, hp⟩ := hrow p hp
    obtain ⟨o, l, hl⟩ := List.exists_cons_of_ne_nil hsearches
    refine ⟨o, by rw [hl]; exact List.mem_cons_self, ?_⟩
    rw [hp, hl]
    exact isCop_eq indexofOp o
  · obtain ⟨c, -, hsearches, hp⟩ := hrow p hp
    rw [hp]
    exact sum_group hsearches fun o ho => ownCost_eq ho (h o ho)
  · obtain ⟨c, -, hsearches, hp⟩ := hrow p hp
    rw [hp]
    exact sum_group hsearches fun o ho => savedCost_eq ho (h o ho).1 (h o ho).2
  · obtain ⟨c, hc, hsearches, hp⟩ := hrow p hp
    obtain ⟨o, l, hl⟩ := List.exists_cons_of_ne_nil hsearches
    have ho : o ∈ t.searchesAt cops p.1 := by rw [hl]; exact List.mem_cons_self
    rw [hp, hc, hl]
    refine ⟨rfl, ?_⟩
    rw [← of_decide_eq_true (List.mem_filter.mp ho).2]
    rfl

end Directions

end OperationTables

/-- From the other end, the first search would compare three elements as well. -/
theorem index_overheads_two : ∃ rows, searchedLists.index = some rows ∧
    searchedLists.IndexOverheads 1 2 rows ∧
    rows.map (fun p => (p.1, p.2.overhead, p.2.overheadSave)) =
      [((some 3, some 31), some 7, some (-1))] ∧
    (∀ p ∈ rows, p.2.overhead = some ((searchedLists.searchesAt [1, 2] p.1).map fun o =>
      comparisons 1 2 (searchedList o) (· == 8) o - foundFirst 1 (searchedList o) (· == 8) o).sum) ∧
    ∀ p ∈ rows, p.2.overheadSave = some ((searchedLists.searchesAt [1, 2] p.1).map fun o =>
      saved 1 2 (searchedList o) (· == 8) o).sum := by
  obtain ⟨rows, hrows, hover⟩ := searchedLists.index_overheads (by decide) getCop_searchedLists.1
    getCop_searchedLists.2 (by decide +kernel)
  have hvalues : searchedLists.index.map
      (fun rows => rows.map fun p => (p.1, p.2.overhead, p.2.overheadSave)) =
        some [((some 3, some 31), some 7, some (-1))] := by decide +kernel
  rw [hrows] at hvalues
  have hlists := @recordsSearch_searchedList [1, 2] (by decide +kernel)
  exact ⟨rows, hrows, hover, Option.some.inj hvalues,
    hover.overhead searchedList (fun _ => (· == 8)) fun o ho => (hlists o ho).1,
    hover.overheadSave searchedList (fun _ => (· == 8)) hlists⟩

end Cinst.Script
