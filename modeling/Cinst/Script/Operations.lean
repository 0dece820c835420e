import Cinst.Script.Loader
import Cinst.Script.Ngc

/-!
Queries that count and sum over the operations of the containers of a site, and `null_query.py` as the
first of them.

They join `ALLOCATIONS` with another table, with `CONTAINERS` and with `CLASSNAME`, so an operation
counts as often as the joined allocations have its container (`sum_withOps_of_site`): once when the
containers have one row each, and more often when the tables were loaded several times
(`null_counts`).
-/

namespace Cinst.Script

open Cinst.Lib.Sql

/-! ### The tables -/

/-- `ALLOCATIONS`, with the column `TYPEID`. -/
structure TypedAllocationRow extends AllocationRow where
  typeid : Cell ℤ
  deriving DecidableEq

/-- `CONTAINERS`, with the columns that these queries read besides. -/
structure OperationRow extends ContainerRow where
  refId : Cell ℤ
  v1 : Cell ℤ
  classNameId : Cell ℤ
  line : Cell ℤ
  deriving DecidableEq

/-- `TYPEMAP`. -/
structure TypeRow where
  id : Cell ℤ
  type : Cell (List Char)
  deriving DecidableEq

/-- The tables. -/
structure OperationTables where
  allocations : List TypedAllocationRow
  containers : List OperationRow
  classname : List ClassnameRow
  containerOp : List ContainerOpRow
  typemap : List TypeRow

/-- The values of a row of `CONTAINERS`, in the order of its columns. -/
def operationRow (row : List ℤ) : OperationRow where
  holderId := row[0]?
  refId := row[1]?
  copid := row[3]?
  size := row[5]?
  v1 := row[6]?
  line := row[8]?
  classNameId := row[9]?

/-- The values of a row of `ALLOCATIONS`, in the order of its columns. -/
def typedAllocationRow (row : List ℤ) : TypedAllocationRow where
  id := row[0]?
  classNameId := row[1]?
  line := row[2]?
  initSize := row[3]?
  typeid := row[4]?

/-- The tables that `build_container_db.py` has loaded, with the two of other scripts. -/
def ContainerDb.tables (db : ContainerDb) (classname : List ClassnameRow) (typemap : List TypeRow) :
    OperationTables where
  allocations := db.allocations.map typedAllocationRow
  containers := db.containers.map operationRow
  classname := classname
  containerOp := db.containerOp.map fun op => ⟨some op.1, some op.2⟩
  typemap := typemap

/-- The columns that the other queries read. -/
def OperationTables.toTables (t : OperationTables) : Tables where
  allocations := t.allocations.map TypedAllocationRow.toAllocationRow
  containers := t.containers.map OperationRow.toContainerRow
  classname := t.classname
  containerOp := t.containerOp

/-! ### Operations joined with allocations -/

section Join

variable {α : Type*}

/-- Rows with an allocation, joined with the operations of its container and with its class. -/
def withOps (left : List α) (alloc : α → AllocationRow) (ops : List OperationRow)
    (classname : List ClassnameRow) : List ((α × OperationRow) × ClassnameRow) :=
  innerJoin (fun p c => ofClass (alloc p.1).site c)
    (innerJoin (fun x o => cellEq (alloc x).id o.holderId) left ops) classname

/-- How often an operation is joined with an allocation at a site. -/
def timesAt (left : List α) (alloc : α → AllocationRow) (site : Site) (o : OperationRow) : ℕ :=
  (left.filter fun x => (alloc x).site = site).countP fun x => cellEq (alloc x).id o.holderId = some true

variable {left : List α} {alloc : α → AllocationRow} {ops : List OperationRow} {t : Tables}
  {site : Site}

lemma withOps_of_site (hkeys : (t.classname.map ClassnameRow.id).Nodup) {c : ClassnameRow}
    (hc : t.classOf site = some c) :
    (withOps left alloc ops t.classname).filter (fun row => (alloc row.1.1).site = site) =
      (innerJoin (fun x o => cellEq (alloc x).id o.holderId)
        (left.filter fun x => (alloc x).site = site) ops).map fun p => (p, c) := by
  have hpush := filter_innerJoin_left (fun x o => cellEq (alloc x).id o.holderId) left ops
    fun x => (alloc x).site = site
  have hclass := filter_innerJoin_left (fun (p : α × OperationRow) c => ofClass (alloc p.1).site c)
    (innerJoin (fun x o => cellEq (alloc x).id o.holderId) left ops) t.classname
    fun p => (alloc p.1).site = site
  rw [withOps, hclass, hpush]
  refine innerJoin_eq_map fun p hp => ?_
  have hsite : (alloc p.1).site = site := by
    rw [mem_innerJoin, List.mem_filter] at hp
    exact of_decide_eq_true hp.1.2
  rw [hsite, t.select_ofClass hkeys, hc]
  rfl

lemma classOf_of_mem_withOps (hkeys : (t.classname.map ClassnameRow.id).Nodup)
    {row : (α × OperationRow) × ClassnameRow} (h : row ∈ withOps left alloc ops t.classname) :
    t.classOf (alloc row.1.1).site = some row.2 := by
  rw [withOps, mem_innerJoin] at h
  have hmem : row.2 ∈ select (ofClass (alloc row.1.1).site) t.classname :=
    mem_select.mpr ⟨h.2.1, h.2.2⟩
  rwa [t.select_ofClass hkeys, Option.mem_toList] at hmem

variable (left alloc ops) in
/-- **A sum over the operations of a site.** -/
theorem sum_withOps_of_site (hkeys : (t.classname.map ClassnameRow.id).Nodup) {c : ClassnameRow}
    (hc : t.classOf site = some c) (f : OperationRow → ℤ) :
    (((withOps left alloc ops t.classname).filter fun row => (alloc row.1.1).site = site).map
      fun row => f row.1.2).sum = (ops.map fun o => timesAt left alloc site o * f o).sum := by
  rw [withOps_of_site hkeys hc, List.map_map]
  exact sum_innerJoin_snd _ _ _ f

lemma mem_withOps_of_site (hkeys : (t.classname.map ClassnameRow.id).Nodup) {c : ClassnameRow}
    (hc : t.classOf site = some c) {o : OperationRow} :
    (∃ row ∈ (withOps left alloc ops t.classname).filter fun row => (alloc row.1.1).site = site,
      row.1.2 = o) ↔ o ∈ ops ∧ timesAt left alloc site o ≠ 0 := by
  rw [withOps_of_site hkeys hc, timesAt, ← Nat.pos_iff_ne_zero, List.countP_pos_iff]
  constructor
  · rintro ⟨row, hrow, rfl⟩
    obtain ⟨p, hp, rfl⟩ := List.mem_map.mp hrow
    rw [mem_innerJoin] at hp
    exact ⟨hp.2.1, p.1, hp.1, decide_eq_true hp.2.2⟩
  · rintro ⟨ho, x, hx, hon⟩
    refine ⟨((x, o), c), List.mem_map.mpr ⟨(x, o), ?_, rfl⟩, rfl⟩
    exact mem_innerJoin.mpr ⟨hx, ho, of_decide_eq_true hon⟩

variable (left alloc ops) in
/-- The sites with rows. -/
theorem withOps_of_site_ne_nil (hkeys : (t.classname.map ClassnameRow.id).Nodup) :
    (withOps left alloc ops t.classname).filter (fun row => (alloc row.1.1).site = site) ≠ [] ↔
      t.classOf site ≠ none ∧ ∃ o ∈ ops, timesAt left alloc site o ≠ 0 := by
  constructor
  · intro hne
    obtain ⟨row, hrow⟩ := List.exists_mem_of_ne_nil _ hne
    obtain ⟨hmem, hsite⟩ := List.mem_filter.mp hrow
    have hc := classOf_of_mem_withOps hkeys hmem
    rw [of_decide_eq_true hsite] at hc
    have ho := (mem_withOps_of_site hkeys hc).mp ⟨row, hrow, rfl⟩
    exact ⟨by rw [hc]; simp, row.1.2, ho⟩
  · rintro ⟨hclass, o, ho⟩
    obtain ⟨c, hc⟩ := Option.ne_none_iff_exists'.mp hclass
    obtain ⟨row, hrow, -⟩ := (mem_withOps_of_site hkeys hc).mpr ho
    exact List.ne_nil_of_mem hrow

variable (left alloc ops) in
lemma bare_of_site (hkeys : (t.classname.map ClassnameRow.id).Nodup)
    (hne : (withOps left alloc ops t.classname).filter (fun row => (alloc row.1.1).site = site) ≠ []) :
    bare (fun row => row.2.classname)
        ((withOps left alloc ops t.classname).filter fun row => (alloc row.1.1).site = site) =
          (t.classOf site).bind ClassnameRow.classname ∧
      bare (fun row => (alloc row.1.1).line)
        ((withOps left alloc ops t.classname).filter fun row => (alloc row.1.1).site = site) = site.2 := by
  refine ⟨bare_eq hne fun row hrow => ?_, bare_eq hne fun row hrow => ?_⟩
  · obtain ⟨hmem, hsite⟩ := List.mem_filter.mp hrow
    have hc := classOf_of_mem_withOps hkeys hmem
    rw [of_decide_eq_true hsite] at hc
    rw [hc]
    rfl
  · rw [← of_decide_eq_true (List.mem_filter.mp hrow).2]
    rfl

variable (left alloc ops) in
/-- **A sum over a column** without `NULL`, for a site with rows. -/
theorem sum_column_of_site (hkeys : (t.classname.map ClassnameRow.id).Nodup)
    (hne : (withOps left alloc ops t.classname).filter (fun row => (alloc row.1.1).site = site) ≠ [])
    {column : OperationRow → Cell ℤ} {f : OperationRow → ℤ} (hf : ∀ o ∈ ops, column o = some (f o)) :
    sum (((withOps left alloc ops t.classname).filter fun row => (alloc row.1.1).site = site).map
      fun row => column row.1.2) = some (ops.map fun o => timesAt left alloc site o * f o).sum := by
  obtain ⟨hclass, -⟩ := (withOps_of_site_ne_nil left alloc ops hkeys).mp hne
  obtain ⟨c, hc⟩ := Option.ne_none_iff_exists'.mp hclass
  rw [← sum_withOps_of_site left alloc ops hkeys hc f, ← sum_map_some (by simpa using hne), List.map_map]
  congr 1
  refine List.map_congr_left fun row hrow => ?_
  have ho := ((mem_withOps_of_site hkeys hc).mp ⟨row, hrow, rfl⟩).1
  exact hf row.1.2 ho

variable (left alloc ops) in
lemma mem_opQuery {γ : Type*} (hkeys : (t.classname.map ClassnameRow.id).Nodup)
    (f : List ((α × OperationRow) × ClassnameRow) → γ) (p : Site × γ) :
    p ∈ (groupBy (fun row => (alloc row.1.1).site) (withOps left alloc ops t.classname)).map
      (fun g => (g.1, f g.2)) ↔
      (t.classOf p.1 ≠ none ∧ ∃ o ∈ ops, timesAt left alloc p.1 o ≠ 0) ∧
        p.2 = f ((withOps left alloc ops t.classname).filter fun row => (alloc row.1.1).site = p.1) := by
  rw [mem_groups, withOps_of_site_ne_nil left alloc ops hkeys]

end Join

lemma all_isSome {cops : List (Cell ℤ)} (h : none ∉ cops) : cops.all Option.isSome = true := by
  refine List.all_eq_true.mpr fun c hc => Option.isSome_iff_ne_none.mpr ?_
  rintro rfl
  exact h hc

/-! ### `null_query.py` -/

/-- A row of the joined tables. -/
abbrev NullJoin := ((TypedAllocationRow × SizeRow) × Option OperationRow) × ClassnameRow

/-- A row of the result, without the column `NULL_RATIO`, a floating-point number. -/
structure NullRow where
  nullCount : Cell ℤ
  allCount : ℕ
  classname : Cell (List Char)
  line : Cell ℤ
  deriving DecidableEq

/-- A row with both counts multiplied. -/
def NullRow.scale (n : ℕ) (r : NullRow) : NullRow :=
  { r with nullCount := r.nullCount.map (n * ·), allCount := n * r.allCount }

/-- The selected columns of a group. -/
def nullRow (group : List NullJoin) : NullRow where
  nullCount := sum (group.map fun row =>
    some (if cellEq (row.1.2.bind OperationRow.refId) (some 0) = some true then 1 else 0 : ℤ))
  allCount := group.length
  classname := bare (fun row => row.2.classname) group
  line := bare (fun row => row.1.1.1.line) group

namespace OperationTables

variable (t : OperationTables)

/-- `cops`. -/
def addCops : List (Cell ℤ) :=
  (select (fun r => cellLike r.copName addPattern) t.containerOp).map ContainerOpRow.cop

/-- `FROM` and `WHERE`. -/
def nullRows (cops : List ℤ) : List NullJoin :=
  select (fun row => cellIn (row.1.2.bind fun o => o.copid) (cops.map some))
    (innerJoin (fun p c => ofClass p.1.1.site c)
      (leftJoin (fun p o => cellEq p.1.id o.holderId)
        (innerJoin (fun a m => cellEq a.id m.holderId) t.allocations t.toTables.filled) t.containers)
      t.classname)

/-- The query before the order and the limit: a row for each site. A `None` in `cops` would be written
into the query as the name of a column that does not exist. -/
def nullQuery : Option (List (Site × NullRow)) :=
  if t.addCops.all Option.isSome then
    some ((groupBy (fun row : NullJoin => row.1.1.1.site) (t.nullRows t.addCops.reduceOption)).map
      fun g => (g.1, nullRow g.2))
  else none

/-! What is counted. -/

/-- The number of an operation that has a name starting with `add`, in lower or upper case. -/
def Adds (copid : Cell ℤ) : Prop :=
  ∃ r ∈ t.containerOp, r.cop = copid ∧ ∃ name ∈ r.copName, "add".toList <+: name.map Char.toLower

instance (copid : Cell ℤ) : Decidable (t.Adds copid) := by
  unfold Adds
  infer_instance

/-- The container was filled: its largest size is positive. -/
def Filled (id : Cell ℤ) : Prop := ∃ n ∈ t.toTables.largest id, 0 < n

instance (id : Cell ℤ) : Decidable (t.Filled id) := by
  unfold Filled
  infer_instance

/-- The rows of `ALLOCATIONS` at a site for the container of an operation, if it was filled. -/
def filledAt (site : Site) (o : OperationRow) : ℕ :=
  (t.allocations.filter fun a => a.site = site).countP fun a =>
    t.Filled a.id ∧ cellEq a.id o.holderId = some true

variable {t}

lemma mem_addCops {c : Cell ℤ} : c ∈ t.addCops ↔ t.Adds c := by
  have hadd : ∀ name, matchesPattern addPattern name ↔
      "add".toList <+: name.map Char.toLower := matchesPattern_prefix (by decide)
  simp only [addCops, Adds, List.mem_map, mem_select, cellLike_eq_true_iff, hadd]
  constructor
  · rintro ⟨r, ⟨hr, name, hname, hlike⟩, hcop⟩
    exact ⟨r, hr, hcop, name, hname, hlike⟩
  · rintro ⟨r, hr, hcop, name, hname, hlike⟩
    exact ⟨r, ⟨hr, name, hname, hlike⟩, hcop⟩

lemma select_filled (id : Cell ℤ) : select (fun m => cellEq id m.holderId) t.toTables.filled =
    if t.Filled id then [⟨id, t.toTables.largest id⟩] else [] := by
  have hswap : select (fun m => cellEq id m.holderId) t.toTables.filled =
      select (fun m : SizeRow => cellLt (some 0) m.msize)
        (select (fun m => cellEq id m.holderId) t.toTables.maxSizes) := by
    simp only [Tables.filled, select, List.filter_filter]
    exact List.filter_congr fun m _ => Bool.and_comm ..
  rw [hswap, t.toTables.select_maxSizes]
  by_cases hf : t.Filled id
  · have hops : t.toTables.operations id ≠ [] := by
      obtain ⟨n, hn, -⟩ := hf
      exact Tables.operations_ne_nil hn
    rw [if_pos hf, if_neg hops]
    simpa [select, Filled] using hf
  · rw [if_neg hf]
    split_ifs
    · rfl
    · simpa [select, Filled] using hf

variable (t) in
/-- The allocations of the filled containers. -/
def filledAllocations : List (TypedAllocationRow × SizeRow) :=
  (t.allocations.filter fun a => t.Filled a.id).map fun a => (a, ⟨a.id, t.toTables.largest a.id⟩)

variable (t) in
lemma filledAllocations_eq :
    innerJoin (fun (a : TypedAllocationRow) m => cellEq a.id m.holderId) t.allocations
      t.toTables.filled = t.filledAllocations := by
  unfold filledAllocations
  induction t.allocations with
  | nil => rfl
  | cons a l ih =>
    rw [innerJoin, List.flatMap_cons, select_filled, ← innerJoin, ih, List.filter_cons]
    split_ifs with hf hd hd
    · rfl
    · exact absurd (decide_eq_true hf) hd
    · exact absurd (of_decide_eq_true hd) hf
    · rfl

/-- The query joins the allocations of the filled containers with the operations in the list. -/
lemma nullRows_eq (cops : List ℤ) : t.nullRows cops =
    (withOps t.filledAllocations (fun x => x.1.toAllocationRow)
      (select (fun o => cellIn o.copid (cops.map some)) t.containers) t.classname).map fun row => ((row.1.1, some row.1.2), row.2) := by
  let on := fun (p : (TypedAllocationRow × SizeRow) × Option OperationRow) c => ofClass p.1.1.site c
  let cond := fun o : OperationRow => cellIn o.copid (cops.map some)
  have hnull : ∀ x : (TypedAllocationRow × SizeRow) × Option OperationRow,
      cellIn (x.2.bind fun o => o.copid) (cops.map some) = some true ↔ x.2.bind cond = some true := by
    rintro ⟨x, _ | o⟩
    · simp [cellIn_eq_true_iff]
    · rfl
  have hpush := filter_innerJoin_left on (leftJoin (fun p (o : OperationRow) => cellEq p.1.id o.holderId)
    (innerJoin (fun a m => cellEq a.id m.holderId) t.allocations t.toTables.filled) t.containers)
    t.classname fun x => cellIn (x.2.bind fun o => o.copid) (cops.map some) = some true
  have hselect := select_leftJoin (fun (p : TypedAllocationRow × SizeRow) (o : OperationRow) =>
    cellEq p.1.id o.holderId) (innerJoin (fun a m => cellEq a.id m.holderId) t.allocations
      t.toTables.filled) t.containers cond
  rw [nullRows, select, hpush, List.filter_congr fun x _ => decide_eq_decide.mpr (hnull x), ← select,
    hselect, innerJoin_map_left, t.filledAllocations_eq]
  rfl

variable (t) in
/-- The operations that add to a container. -/
def adds : List OperationRow := t.containers.filter fun o => t.Adds o.copid

variable (t) in
/-- The row for a site. -/
def nullRowAt (site : Site) : NullRow where
  nullCount := some ((t.adds.filter fun o => o.refId = some 0).map fun o => (t.filledAt site o : ℤ)).sum
  allCount := (t.adds.map (t.filledAt site)).sum
  classname := (t.toTables.classOf site).bind ClassnameRow.classname
  line := site.2

variable (t) in
/-- The sites of the result: the class is in the table, and something was added to a container that was
filled. -/
def NullListed (site : Site) : Prop :=
  t.toTables.classOf site ≠ none ∧ ∃ o ∈ t.adds, t.filledAt site o ≠ 0

lemma select_addCops (hcops : none ∉ t.addCops) :
    select (fun o : OperationRow => cellIn o.copid (t.addCops.reduceOption.map some)) t.containers =
      t.adds := by
  refine List.filter_congr fun o _ => decide_eq_decide.mpr ?_
  rw [cellIn_eq_true_iff, ← mem_addCops]
  constructor
  · rintro ⟨x, hx, hmem⟩
    obtain ⟨y, hy, hxy⟩ := List.mem_map.mp hmem
    rw [hx, ← hxy]
    exact List.reduceOption_mem_iff.mp hy
  · intro hmem
    cases hc : o.copid with
    | none => exact absurd (hc ▸ hmem) hcops
    | some x =>
      rw [hc] at hmem
      exact ⟨x, rfl, List.mem_map_of_mem (List.reduceOption_mem_iff.mpr hmem)⟩

lemma timesAt_filled (site : Site) (o : OperationRow) :
    timesAt t.filledAllocations (fun x => x.1.toAllocationRow) site o = t.filledAt site o := by
  rw [timesAt, filledAllocations, List.filter_map, List.countP_map, filledAt, List.filter_filter, List.countP_filter,
    List.countP_filter]
  refine List.countP_congr fun a _ => ?_
  simp [and_comm, and_assoc]

lemma nullRow_of_site (hkeys : (t.classname.map ClassnameRow.id).Nodup) (hcops : none ∉ t.addCops)
    {site : Site} (hne : (t.nullRows t.addCops.reduceOption).filter
      (fun row => row.1.1.1.site = site) ≠ []) :
    nullRow ((t.nullRows t.addCops.reduceOption).filter fun row => row.1.1.1.site = site) =
      t.nullRowAt site ∧ t.NullListed site := by
  let alloc : TypedAllocationRow × SizeRow → AllocationRow := fun x => x.1.toAllocationRow
  let group := (withOps t.filledAllocations alloc t.adds t.classname).filter
    fun row => (alloc row.1.1).site = site
  have hrows : (t.nullRows t.addCops.reduceOption).filter (fun row => row.1.1.1.site = site) =
      group.map fun row => ((row.1.1, some row.1.2), row.2) := by
    rw [nullRows_eq, select_addCops hcops, List.filter_map]
    rfl
  rw [hrows] at hne ⊢
  have hgroup : group ≠ [] := fun e => hne (by rw [e]; rfl)
  have hlisted := (withOps_of_site_ne_nil _ alloc _ (t := t.toTables) hkeys).mp hgroup
  obtain ⟨c, hc⟩ := Option.ne_none_iff_exists'.mp hlisted.1
  have htimes : ∀ o, timesAt t.filledAllocations alloc site o = t.filledAt site o := timesAt_filled site
  have hsum : ∀ f : OperationRow → ℤ, (group.map fun row => f row.1.2).sum =
      (t.adds.map fun o => (t.filledAt site o : ℤ) * f o).sum := by
    intro f
    simp only [← htimes]
    exact sum_withOps_of_site _ _ _ (t := t.toTables) hkeys hc f
  have hbare := bare_of_site _ alloc _ (t := t.toTables) hkeys hgroup
  refine ⟨?_, hlisted.1, ?_⟩
  · have hnull : sum ((group.map fun row => ((row.1.1, some row.1.2), row.2)).map fun row : NullJoin =>
        some (if cellEq (row.1.2.bind OperationRow.refId) (some 0) = some true then 1 else 0 : ℤ)) =
          (t.nullRowAt site).nullCount := by
      have hcase : ∀ o : OperationRow, (t.filledAt site o : ℤ) *
          (if cellEq o.refId (some 0) = some true then 1 else 0) =
            if o.refId = some 0 then (t.filledAt site o : ℤ) else 0 := by
        intro o
        have hiff : cellEq o.refId (some 0) = some true ↔ o.refId = some 0 := by simp
        simp only [hiff, mul_ite, mul_one, mul_zero]
      have hsome := sum_map_some (l := group.map fun row =>
        (if cellEq row.1.2.refId (some 0) = some true then 1 else 0 : ℤ)) (by simpa using hgroup)
      rw [hsum fun o => if cellEq o.refId (some 0) = some true then 1 else 0] at hsome
      simp only [hcase, sum_map_case] at hsome
      rw [List.map_map] at hsome ⊢
      exact hsome
    have hall : (group.map fun row => ((row.1.1, some row.1.2), row.2)).length =
        (t.nullRowAt site).allCount := by
      have hone := hsum fun _ => 1
      simp only [List.map_const', List.sum_replicate, mul_one] at hone
      rw [List.length_map, nullRowAt]
      have hcast : (((t.adds.map (t.filledAt site)).sum : ℕ) : ℤ) =
          (t.adds.map fun o => (t.filledAt site o : ℤ)).sum := by
        rw [Nat.cast_list_sum, List.map_map]
        rfl
      exact Int.ofNat_inj.mp (by rw [hcast, ← hone]; simp)
    have hclass : bare (fun row : NullJoin => row.2.classname)
        (group.map fun row => ((row.1.1, some row.1.2), row.2)) = (t.nullRowAt site).classname := by
      rw [bare, List.head?_map, Option.bind_map]
      exact hbare.1
    have hline : bare (fun row : NullJoin => row.1.1.1.line)
        (group.map fun row => ((row.1.1, some row.1.2), row.2)) = (t.nullRowAt site).line := by
      rw [bare, List.head?_map, Option.bind_map]
      exact hbare.2
    rw [nullRow, hnull, hall, hclass, hline]
  · obtain ⟨o, ho, htimes'⟩ := hlisted.2
    exact ⟨o, ho, by rwa [← htimes]⟩

/-- **The rows of the result.** -/
theorem nullQuery_eq_some (hkeys : (t.classname.map ClassnameRow.id).Nodup) (hcops : none ∉ t.addCops) :
    ∃ rows, t.nullQuery = some rows ∧ (rows.map Prod.fst).Nodup ∧
      ∀ p, p ∈ rows ↔ t.NullListed p.1 ∧ p.2 = t.nullRowAt p.1 := by
  refine ⟨_, if_pos (all_isSome hcops), ?_, fun p => ?_⟩
  · rw [map_fst_groups]
    exact List.nodup_dedup _
  · rw [mem_groups]
    constructor
    · rintro ⟨hne, hp⟩
      obtain ⟨hrow, hlisted⟩ := nullRow_of_site hkeys hcops hne
      exact ⟨hlisted, hp.trans hrow⟩
    · rintro ⟨hlisted, hp⟩
      have hne : (t.nullRows t.addCops.reduceOption).filter
          (fun row => row.1.1.1.site = p.1) ≠ [] := by
        rw [nullRows_eq, select_addCops hcops, List.filter_map, Ne, List.map_eq_nil_iff]
        refine (withOps_of_site_ne_nil t.filledAllocations (fun x => x.1.toAllocationRow) t.adds
          (t := t.toTables) hkeys).mpr ⟨hlisted.1, ?_⟩
        obtain ⟨o, ho, htimes⟩ := hlisted.2
        exact ⟨o, ho, by rwa [timesAt_filled]⟩
      exact ⟨hne, hp.trans (nullRow_of_site hkeys hcops hne).1.symm⟩

/-! Tables that were loaded several times. -/

variable (t) in
/-- The tables with the rows of `n` runs of `build_container_db.py`. -/
def loaded (n : ℕ) : OperationTables := { t with
  allocations := (List.replicate n t.allocations).flatten
  containers := (List.replicate n t.containers).flatten
  containerOp := (List.replicate n t.containerOp).flatten }

section Loaded

variable {n : ℕ}

/-- What the script loads in `n` runs is what it loads in one, `n` times. -/
theorem tables_buildTimes {d : Lib.Directory} {pid : String} {db : ContainerDb}
    (h : buildTimes d pid 1 = some db) (classname : List ClassnameRow) (typemap : List TypeRow) :
    ∃ db', buildTimes d pid n = some db' ∧
      db'.tables classname typemap = (db.tables classname typemap).loaded n := by
  refine ⟨_, buildTimes_eq h n, ?_⟩
  simp [ContainerDb.tables, loaded, List.map_flatten]

lemma mem_flatten_replicate {α : Type*} (hn : 0 < n) {l : List α} {x : α} :
    x ∈ (List.replicate n l).flatten ↔ x ∈ l := by
  simp [List.mem_flatten, List.mem_replicate, hn.ne']

lemma filled_loaded (hn : 0 < n) (id : Cell ℤ) : (t.loaded n).Filled id ↔ t.Filled id := by
  have hlargest : (t.loaded n).toTables.largest id = t.toTables.largest id := by
    refine max_congr fun x => ?_
    simp [Tables.operations, toTables, loaded, mem_flatten_replicate hn]
  rw [Filled, hlargest]
  rfl

lemma adds_loaded (hn : 0 < n) (copid : Cell ℤ) : (t.loaded n).Adds copid ↔ t.Adds copid := by
  simp [Adds, loaded, mem_flatten_replicate hn]

lemma filledAt_loaded (hn : 0 < n) (site : Site) (o : OperationRow) :
    (t.loaded n).filledAt site o = n * t.filledAt site o := by
  unfold filledAt
  simp only [filled_loaded hn]
  simp [loaded, List.filter_flatten, List.countP_flatten]

lemma adds_of_loaded (hn : 0 < n) : (t.loaded n).adds = (List.replicate n t.adds).flatten := by
  unfold adds
  simp only [adds_loaded hn]
  simp [loaded, List.filter_flatten]

lemma classOf_loaded (site : Site) :
    (t.loaded n).toTables.classOf site = t.toTables.classOf site := rfl

lemma nullListed_loaded (hn : 0 < n) (site : Site) :
    (t.loaded n).NullListed site ↔ t.NullListed site := by
  simp only [NullListed, classOf_loaded, adds_of_loaded hn, mem_flatten_replicate hn,
    filledAt_loaded hn, Ne, Nat.mul_eq_zero, hn.ne', false_or]

/-- Every operation is there `n` times and counts `n` times as often. -/
lemma nullRowAt_loaded (hn : 0 < n) (site : Site) :
    (t.loaded n).nullRowAt site = (t.nullRowAt site).scale (n * n) := by
  have hall : ((t.loaded n).adds.map ((t.loaded n).filledAt site)).sum =
      n * n * (t.adds.map (t.filledAt site)).sum := by
    simp [adds_of_loaded hn, List.sum_map_mul_left, List.map_flatten, List.sum_flatten, mul_assoc,
      funext (filledAt_loaded hn site)]
  have hnull : (((t.loaded n).adds.filter fun o => o.refId = some 0).map
      fun o => ((t.loaded n).filledAt site o : ℤ)).sum = (n * n : ℕ) *
        ((t.adds.filter fun o => o.refId = some 0).map fun o => (t.filledAt site o : ℤ)).sum := by
    simp [adds_of_loaded hn, filledAt_loaded hn, List.sum_map_mul_left, List.map_flatten,
      List.filter_flatten, List.sum_flatten, mul_assoc]
  rw [nullRowAt, hall, hnull]
  rfl

end Loaded

variable (t) in
/-- What the rows of the result count. -/
structure NullCounts (rows : List (Site × NullRow)) : Prop where
  nodup : (rows.map Prod.fst).Nodup
  sites : ∀ site, site ∈ rows.map Prod.fst ↔ t.NullListed site
  counts : ∀ p ∈ rows, p.2 = t.nullRowAt p.1
  null_le : ∀ p ∈ rows, ∃ n : ℕ, p.2.nullCount = some (n : ℤ) ∧ n ≤ p.2.allCount
  once : (t.allocations.map fun a => a.id).Nodup → ∀ site o, t.filledAt site o ≤ 1
  loaded : ∀ n > 0, ∃ rows', (t.loaded n).nullQuery = some rows' ∧
    rows'.Perm (rows.map fun p => (p.1, p.2.scale (n * n)))
  runs : ∀ d pid db, buildTimes d pid 1 = some db → db.tables t.classname t.typemap = t →
    ∀ n > 0, ∃ db' rows', buildTimes d pid n = some db' ∧
      (db'.tables t.classname t.typemap).nullQuery = some rows' ∧
      rows'.Perm (rows.map fun p => (p.1, p.2.scale (n * n)))

lemma null_le_all (site : Site) : ∃ n : ℕ, (t.nullRowAt site).nullCount = some (n : ℤ) ∧
    n ≤ (t.nullRowAt site).allCount := by
  refine ⟨((t.adds.filter fun o => o.refId = some 0).map (t.filledAt site)).sum, ?_, ?_⟩
  · rw [Nat.cast_list_sum, List.map_map]
    rfl
  · exact List.Sublist.sum_le_sum (List.filter_sublist.map _) fun _ _ => Nat.zero_le _

lemma filledAt_le_one (h : (t.allocations.map fun a => a.id).Nodup) (site : Site) (o : OperationRow) :
    t.filledAt site o ≤ 1 := by
  have hcount := List.nodup_iff_count_le_one.mp h o.holderId
  rw [List.count, List.countP_map] at hcount
  refine le_trans ?_ hcount
  refine (List.countP_mono_left fun a _ ha => ?_).trans (List.filter_sublist.countP_le)
  obtain ⟨-, x, hx, hy⟩ : _ ∧ ∃ x, a.id = some x ∧ o.holderId = some x := by simpa using ha
  simp [hx, hy]

variable (t) in
/-- **The query counts operations**: an `add` of a filled container counts once for every row of the
container in `ALLOCATIONS`, so running the script `n` times for one data base multiplies both counts
by `n * n`. -/
theorem null_counts (hkeys : (t.classname.map ClassnameRow.id).Nodup) (hcops : none ∉ t.addCops) :
    ∃ rows, t.nullQuery = some rows ∧ t.NullCounts rows := by
  obtain ⟨rows, hquery, hnodup, hmem⟩ := nullQuery_eq_some hkeys hcops
  have hrow : ∀ p ∈ rows, p.2 = t.nullRowAt p.1 := fun p hp => ((hmem p).mp hp).2
  have hloaded : ∀ n > 0, ∃ rows', (t.loaded n).nullQuery = some rows' ∧
      rows'.Perm (rows.map fun p => (p.1, p.2.scale (n * n))) := by
    intro n hn
    have hcops' : none ∉ (t.loaded n).addCops := by
      rw [mem_addCops, adds_loaded hn, ← mem_addCops]
      exact hcops
    obtain ⟨rows', hquery', hnodup', hmem'⟩ :=
      nullQuery_eq_some (show ((t.loaded n).classname.map ClassnameRow.id).Nodup from hkeys) hcops'
    refine ⟨rows', hquery', (List.perm_ext_iff_of_nodup hnodup'.of_map ?_).mpr fun p => ?_⟩
    · refine List.Nodup.of_map Prod.fst ?_
      rw [List.map_map]
      exact hnodup
    · rw [hmem', nullListed_loaded hn, nullRowAt_loaded hn, List.mem_map]
      constructor
      · rintro ⟨hlisted, hp⟩
        exact ⟨(p.1, t.nullRowAt p.1), (hmem _).mpr ⟨hlisted, rfl⟩, Prod.ext rfl hp.symm⟩
      · rintro ⟨q, hq, rfl⟩
        obtain ⟨hlisted, hq⟩ := (hmem q).mp hq
        exact ⟨hlisted, congrArg (NullRow.scale (n * n)) hq⟩
  refine ⟨rows, hquery, hnodup, fun site => ?_, hrow, fun p hp => ?_, filledAt_le_one, hloaded,
    fun d pid db h hdb n hn => ?_⟩
  · constructor
    · intro hsite
      obtain ⟨p, hp, rfl⟩ := List.mem_map.mp hsite
      exact ((hmem p).mp hp).1
    · exact fun hl => List.mem_map.mpr ⟨(site, t.nullRowAt site), (hmem _).mpr ⟨hl, rfl⟩, rfl⟩
  · rw [hrow p hp]
    exact null_le_all p.1
  · obtain ⟨rows', hquery', hperm⟩ := hloaded n hn
    obtain ⟨db', hrun, htables⟩ := tables_buildTimes (n := n) h t.classname t.typemap
    rw [hdb] at htables
    exact ⟨db', rows', hrun, by rw [htables, hquery'], hperm⟩

end OperationTables

/-- A container with two operations that add, one of them a null reference. -/
theorem null_counts_two : ∃ t : OperationTables, t.containers.length = 3 ∧
    ∃ rows, t.nullQuery = some rows ∧ t.NullCounts rows := by
  let t : OperationTables := {
    allocations := [⟨⟨some 1, some 3, some 7, some 16⟩, some 5⟩, ⟨⟨some 2, some 3, some 7, some 16⟩, some 5⟩]
    containers := [⟨⟨some 1, some 0, some 4⟩, some 0, some 0, some 9, some 30⟩,
      ⟨⟨some 1, some 0, some 5⟩, some 2, some 0, some 9, some 31⟩,
      ⟨⟨some 1, some 1, some 5⟩, some 0, some 0, some 9, some 32⟩]
    classname := [⟨4, some ['M']⟩]
    containerOp := [⟨some 0, some ['a', 'd', 'd']⟩, ⟨some 1, some ['g', 'e', 't']⟩]
    typemap := [] }
  exact ⟨t, rfl, t.null_counts (by decide) (by decide)⟩

end Cinst.Script
