import Cinst.Lib.Sql

/-!
The tables as the queries on allocation sites read them, and what these queries have in common: the
subquery for the largest size of each container, and the join with the table of class names.
-/

namespace Cinst.Script

open Cinst.Lib.Sql

/-! ### The tables -/

/-- `ALLOCATIONS`: the columns that the queries read. -/
structure AllocationRow where
  id : Cell ℤ
  classNameId : Cell ℤ
  line : Cell ℤ
  initSize : Cell ℤ
  deriving DecidableEq

/-- `CONTAINERS`: the columns that the queries read. -/
structure ContainerRow where
  holderId : Cell ℤ
  copid : Cell ℤ
  size : Cell ℤ
  deriving DecidableEq

/-- `CLASSNAME`. The key is never `NULL`. -/
structure ClassnameRow where
  id : ℤ
  classname : Cell (List Char)
  deriving DecidableEq

/-- `CONTAINER_OP`. -/
structure ContainerOpRow where
  cop : Cell ℤ
  copName : Cell (List Char)
  deriving DecidableEq

/-- The tables. -/
structure Tables where
  allocations : List AllocationRow
  containers : List ContainerRow
  classname : List ClassnameRow
  containerOp : List ContainerOpRow

/-- An allocation site: `CLASS_NAME_ID` and `LINE`. -/
abbrev Site := Cell ℤ × Cell ℤ

/-- `GROUP BY ALLOCATIONS.CLASS_NAME_ID, ALLOCATIONS.LINE`. -/
def AllocationRow.site (a : AllocationRow) : Site := (a.classNameId, a.line)

/-- `ON ALLOCATIONS.CLASS_NAME_ID+1 = CLASSNAME.ID`, for an allocation at a site. -/
def ofClass (site : Site) (c : ClassnameRow) : Cond := cellEq (site.1.map (· + 1)) (some c.id)

/-- A row of the subquery `SELECT HOLDER_ID, MAX(SIZE) AS MSIZE`. -/
structure SizeRow where
  holderId : Cell ℤ
  msize : Cell ℤ
  deriving DecidableEq

namespace Tables

variable (t : Tables)

/-- The subquery, `FROM CONTAINERS GROUP BY HOLDER_ID`. -/
def maxSizes : List SizeRow :=
  (groupBy ContainerRow.holderId t.containers).map fun g => ⟨g.1, max (g.2.map ContainerRow.size)⟩

/-! ### What the queries are about -/

/-- The recorded operations of a container. -/
def operations (id : Cell ℤ) : List ContainerRow :=
  select (fun o => cellEq id o.holderId) t.containers

/-- The largest size recorded for a container. -/
def largest (id : Cell ℤ) : Cell ℤ := max ((t.operations id).map ContainerRow.size)

/-- The class of a site. -/
def classOf (site : Site) : Option ClassnameRow :=
  t.classname.find? fun c => ofClass site c = some true

lemma operations_some (i : ℤ) :
    t.operations (some i) = t.containers.filter fun o => o.holderId = some i := by
  simp [operations, select]

lemma operations_none : t.operations none = [] := by
  simp [operations, select, cellEq]

/-- The subquery has one row for a container with recorded operations, with its largest size. -/
lemma select_maxSizes (id : Cell ℤ) :
    select (fun m => cellEq id m.holderId) t.maxSizes =
      if t.operations id = [] then [] else [⟨id, t.largest id⟩] := by
  cases id with
  | none => simp [operations_none, select, cellEq]
  | some i =>
    have hkey : some i ∈ t.containers.map ContainerRow.holderId ↔ t.operations (some i) ≠ [] := by
      simp [operations_some, List.filter_eq_nil_iff]
    have hgroup := filter_groupBy ContainerRow.holderId t.containers (some i)
    rw [← operations_some] at hgroup
    have hselect : select (fun m => cellEq (some i) m.holderId) t.maxSizes =
        ((groupBy ContainerRow.holderId t.containers).filter fun g => g.1 = some i).map
          fun g => ⟨g.1, max (g.2.map ContainerRow.size)⟩ := by
      simp [select, maxSizes, List.filter_map, Function.comp_def]
    rw [hselect, hgroup]
    by_cases hops : t.operations (some i) = []
    · rw [if_neg (mt hkey.mp (not_not.mpr hops)), if_pos hops]
      rfl
    · rw [if_pos (hkey.mpr hops), if_neg hops]
      rfl

lemma select_ofClass (h : (t.classname.map ClassnameRow.id).Nodup) (site : Site) :
    select (ofClass site) t.classname = (t.classOf site).toList := by
  refine select_eq_toList ((List.pairwise_map.mp h).imp fun hne hc hc' => hne ?_)
  simp only [ofClass, cellEq_eq_true_iff] at hc hc'
  obtain ⟨x, hx, hc⟩ := hc
  obtain ⟨y, hy, hc'⟩ := hc'
  rw [hx] at hy
  exact (Option.some.inj hc).trans ((Option.some.inj hy).trans (Option.some.inj hc').symm)

end Tables

end Cinst.Script
