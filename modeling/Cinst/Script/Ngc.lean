import Cinst.Script.Sites

/-!
`NGC_query.py`: for each allocation site the containers that were filled but never read, and all
containers that were filled.

Every allocation is joined with all operations of its container. The counts are of distinct
containers, so neither this nor repeated rows change them (`ngc_counts`).
-/

namespace Cinst.Script

open Cinst.Lib.Sql

/-! ### The query -/

/-- A row of the joined tables. -/
abbrev NgcJoin := ((AllocationRow × SizeRow) × Option ContainerRow) × ClassnameRow

/-- The allocation of a row. -/
def NgcJoin.allocation (row : NgcJoin) : AllocationRow := row.1.1.1

/-- The column `c1.HOLDER_ID`. -/
def NgcJoin.holderId (row : NgcJoin) : Cell ℤ := row.1.2.bind ContainerRow.holderId

/-- A row of the result, without the column `RATIO`, a floating-point number. -/
structure NgcRow where
  countNac : ℕ
  totalContainers : ℕ
  classname : Cell (List Char)
  line : Cell ℤ
  deriving DecidableEq

/-- `add%`. -/
def addPattern : List Char := "add".toList ++ ['%']

/-- `remove%`. -/
def removePattern : List Char := "remove".toList ++ ['%']

namespace Tables

variable (t : Tables)

/-- `cops`. -/
def cops : List (Cell ℤ) :=
  (select (fun r => condOr (cellLike r.copName addPattern) (cellLike r.copName removePattern))
    t.containerOp).map ContainerOpRow.cop

/-- The subquery with `HAVING MSIZE > 0`. -/
def filled : List SizeRow := select (fun m => cellLt (some 0) m.msize) t.maxSizes

/-- The subquery for the holders all of whose operations are in the list. -/
def notRead (cops : List ℤ) : List (Cell ℤ) :=
  (select (fun g => cellEq (sum (g.2.map fun o =>
      some (if condNot (cellIn o.copid (cops.map some)) = some true then 1 else 0 : ℤ))) (some 0))
    (groupBy ContainerRow.holderId t.containers)).map Prod.fst

/-- `FROM`. -/
def ngcRows : List NgcJoin :=
  innerJoin (fun p c => ofClass p.1.1.site c)
    (leftJoin (fun p o => cellEq p.1.id o.holderId)
      (innerJoin (fun a m => cellEq a.id m.holderId) t.allocations t.filled) t.containers)
    t.classname

/-- The selected columns of a group. -/
def ngcRow (cops : List ℤ) (group : List NgcJoin) : NgcRow where
  countNac := countDistinct (group.map fun row =>
    if cellIn row.holderId (t.notRead cops) = some true then row.holderId else none)
  totalContainers := countDistinct (group.map NgcJoin.holderId)
  classname := bare (fun row => row.2.classname) group
  line := bare (fun row => row.allocation.line) group

/-- The query before the order and the limit: a row for each site. A `None` in `cops` would be written
into the query as the name of a column that does not exist. -/
def ngc : Option (List (Site × NgcRow)) :=
  if none ∈ t.cops then none
  else some (((groupBy (fun row : NgcJoin => row.allocation.site) t.ngcRows).map fun g =>
    (g.1, t.ngcRow t.cops.reduceOption g.2)).filter fun p => p.2.totalContainers ≠ 0)

/-! ### What is counted -/

/-- The containers that were allocated at a site and whose largest size is positive. -/
def containersAt (site : Site) : Finset ℤ :=
  ((t.allocations.filter fun a => a.site = site).map AllocationRow.id).reduceOption.toFinset.filter
    fun i => ∃ n ∈ t.largest (some i), 0 < n

/-- The number of an operation that has a name starting with `add` or `remove`, in lower or upper
case. -/
def AddsOrRemoves (copid : Cell ℤ) : Prop :=
  ∃ r ∈ t.containerOp, r.cop = copid ∧ ∃ name ∈ r.copName,
    "add".toList <+: name.map Char.toLower ∨ "remove".toList <+: name.map Char.toLower

instance (copid : Cell ℤ) : Decidable (t.AddsOrRemoves copid) := by
  unfold AddsOrRemoves
  infer_instance

/-- The containers that were only added to and removed from. -/
def neverRead (site : Site) : Finset ℤ :=
  (t.containersAt site).filter fun i => ∀ o ∈ t.operations (some i), t.AddsOrRemoves o.copid

/-- The row for a site. -/
def siteRow (site : Site) : NgcRow where
  countNac := (t.neverRead site).card
  totalContainers := (t.containersAt site).card
  classname := (t.classOf site).bind ClassnameRow.classname
  line := site.2

/-- The columns that the query reads have no `NULL`. -/
structure NullFree : Prop where
  allocations : ∀ a ∈ t.allocations, a.id ≠ none ∧ a.classNameId ≠ none ∧ a.line ≠ none
  containers : ∀ o ∈ t.containers, o.holderId ≠ none ∧ o.copid ≠ none ∧ o.size ≠ none
  containerOp : ∀ r ∈ t.containerOp, r.cop ≠ none ∧ r.copName ≠ none

/-! ### The containers of a site -/

variable {t}

lemma operations_ne_nil {id : Cell ℤ} {n : ℤ} (h : t.largest id = some n) :
    t.operations id ≠ [] := by
  intro hnil
  rw [largest, hnil] at h
  cases h

lemma mem_filled {m : SizeRow} {i : ℤ} (hm : m.holderId = some i) :
    m ∈ t.filled ↔ m = ⟨some i, t.largest (some i)⟩ ∧ ∃ n ∈ t.largest (some i), 0 < n := by
  have hmem : m ∈ t.maxSizes ↔
      m ∈ select (fun m => cellEq (some i) m.holderId) t.maxSizes := by
    simp [hm]
  rw [filled, mem_select, hmem, t.select_maxSizes, cellLt_eq_true_iff]
  constructor
  · rintro ⟨hrow, x, n, hx, hn, hlt⟩
    cases hx
    split_ifs at hrow with hops
    · exact absurd hrow (List.not_mem_nil)
    · obtain rfl := List.mem_singleton.mp hrow
      exact ⟨rfl, n, hn, hlt⟩
  · rintro ⟨rfl, n, hn, hlt⟩
    rw [if_neg (operations_ne_nil hn)]
    exact ⟨List.mem_singleton_self _, 0, n, rfl, hn, hlt⟩

lemma mem_containersAt {site : Site} {i : ℤ} : i ∈ t.containersAt site ↔
    (∃ a ∈ t.allocations, a.site = site ∧ a.id = some i) ∧ ∃ n ∈ t.largest (some i), 0 < n := by
  simp [containersAt, List.reduceOption_mem_iff, and_assoc]

lemma classOf_ne_none {site : Site} {c : ClassnameRow} (hc : c ∈ t.classname)
    (hon : ofClass site c = some true) : t.classOf site ≠ none := by
  intro h
  exact List.find?_eq_none.mp h c hc (by simpa using hon)

/-- **The containers of a site** are the holders in its rows. -/
theorem mem_holders {site : Site} {i : ℤ} :
    some i ∈ (t.ngcRows.filter fun row => row.allocation.site = site).map NgcJoin.holderId ↔
      i ∈ t.containersAt site ∧ t.classOf site ≠ none := by
  rw [List.mem_map, mem_containersAt]
  constructor
  · rintro ⟨⟨⟨⟨a, m⟩, o⟩, c⟩, hrow, hholder⟩
    simp only [ngcRows, List.mem_filter, mem_innerJoin, mem_leftJoin, decide_eq_true_eq] at hrow
    obtain ⟨⟨⟨⟨ha, hm, ham⟩, ho⟩, hc, hon⟩, hsite⟩ := hrow
    rcases ho with ⟨b, hb, hab, rfl⟩ | ⟨-, rfl⟩
    · have hb' : b.holderId = some i := hholder
      obtain ⟨x, hx, hbx⟩ := cellEq_eq_true_iff.mp hab
      obtain rfl : x = i := Option.some.inj (hbx.symm.trans hb')
      have hmx : m.holderId = some x := by
        obtain ⟨y, hy, hmy⟩ := cellEq_eq_true_iff.mp ham
        rw [hmy, ← hy, hx]
      exact ⟨⟨⟨a, ha, hsite, hx⟩, ((mem_filled hmx).mp hm).2⟩, classOf_ne_none hc (hsite ▸ hon)⟩
    · cases hholder
  · rintro ⟨⟨⟨a, ha, hsite, hid⟩, n, hn, hlt⟩, hclass⟩
    obtain ⟨o, ho⟩ := List.exists_mem_of_ne_nil _ (operations_ne_nil hn)
    obtain ⟨ho, hon⟩ := mem_select.mp ho
    obtain ⟨c, hc⟩ := Option.ne_none_iff_exists'.mp hclass
    have hm : (⟨some i, t.largest (some i)⟩ : SizeRow) ∈ t.filled :=
      (mem_filled rfl).mpr ⟨rfl, n, hn, hlt⟩
    have hholder : o.holderId = some i := by simpa using hon
    refine ⟨(((a, ⟨some i, t.largest (some i)⟩), some o), c), ?_, hholder⟩
    simp only [ngcRows, List.mem_filter, mem_innerJoin, mem_leftJoin, decide_eq_true_eq]
    refine ⟨⟨⟨⟨ha, hm, by simp [hid]⟩, Or.inl ⟨o, ho, by rwa [hid], rfl⟩⟩,
      List.mem_of_find?_eq_some hc, ?_⟩, hsite⟩
    have := List.find?_some hc
    rw [← hsite] at this
    simpa using this

lemma mem_cops {c : Cell ℤ} : c ∈ t.cops ↔ t.AddsOrRemoves c := by
  have hadd : ∀ name, matchesPattern addPattern name ↔
      "add".toList <+: name.map Char.toLower := matchesPattern_prefix (by decide)
  have hremove : ∀ name, matchesPattern removePattern name ↔
      "remove".toList <+: name.map Char.toLower := matchesPattern_prefix (by decide)
  simp only [cops, AddsOrRemoves, List.mem_map, mem_select, condOr_eq_true_iff,
    cellLike_eq_true_iff, hadd, hremove, ← exists_or, ← and_or_left]
  constructor
  · rintro ⟨r, ⟨hr, name, hname, hlike⟩, hcop⟩
    exact ⟨r, hr, hcop, name, hname, hlike⟩
  · rintro ⟨r, hr, hcop, name, hname, hlike⟩
    exact ⟨r, ⟨hr, name, hname, hlike⟩, hcop⟩

/-- **The holders that are not read**: all of their operations are in the list. -/
theorem mem_notRead (hnull : t.NullFree) {i : ℤ} :
    some i ∈ t.notRead t.cops.reduceOption ↔ t.operations (some i) ≠ [] ∧
      ∀ o ∈ t.operations (some i), t.AddsOrRemoves o.copid := by
  have hin : ∀ o ∈ t.operations (some i),
      ¬ condNot (cellIn o.copid (t.cops.reduceOption.map some)) = some true ↔
        t.AddsOrRemoves o.copid := by
    intro o ho
    obtain ⟨c, hc⟩ := Option.ne_none_iff_exists'.mp
      (hnull.containers o (mem_select.mp ho).1).2.1
    rw [hc, condNot_cellIn_eq_true_iff, not_not, List.reduceOption_mem_iff, mem_cops]
  constructor
  · intro h
    obtain ⟨g, hg, hi⟩ := List.mem_map.mp h
    obtain ⟨hg, hsum⟩ := mem_select.mp hg
    have hne := ne_nil_of_mem_groupBy hg
    have hops : g.2 = t.operations (some i) := by
      rw [(mem_groupBy.mp hg).2, hi, operations_some]
    rw [sum_case_eq_zero_iff hne, hops] at hsum
    exact ⟨hops ▸ hne, fun o ho => (hin o ho).mp (hsum o ho)⟩
  · rintro ⟨hne, hall⟩
    have hgroup : (some i, t.operations (some i)) ∈ groupBy ContainerRow.holderId t.containers := by
      rw [operations_some] at hne ⊢
      exact mem_groupBy_of_filter_ne_nil hne
    refine List.mem_map.mpr ⟨(some i, t.operations (some i)), mem_select.mpr ⟨hgroup, ?_⟩, rfl⟩
    rw [sum_case_eq_zero_iff hne]
    exact fun o ho => (hin o ho).mpr (hall o ho)

/-! ### The columns -/

variable (t) in
/-- The rows of a site. -/
def groupOf (site : Site) : List NgcJoin :=
  t.ngcRows.filter fun row => row.allocation.site = site

lemma totalContainers_eq {site : Site} (hclass : t.classOf site ≠ none) (ns : List ℤ) :
    (t.ngcRow ns (t.groupOf site)).totalContainers = (t.containersAt site).card := by
  show countDistinct _ = _
  rw [countDistinct_eq]
  congr 1
  ext i
  rw [List.mem_toFinset, List.reduceOption_mem_iff]
  exact mem_holders.trans (and_iff_left hclass)

lemma countNac_eq {site : Site} (hnull : t.NullFree) (hclass : t.classOf site ≠ none) :
    (t.ngcRow t.cops.reduceOption (t.groupOf site)).countNac = (t.neverRead site).card := by
  show countDistinct _ = _
  rw [countDistinct_eq]
  congr 1
  ext i
  rw [List.mem_toFinset, List.reduceOption_mem_iff, neverRead, Finset.mem_filter, List.mem_map]
  constructor
  · rintro ⟨row, hrow, h⟩
    split_ifs at h with hin
    obtain ⟨x, hx, hmem⟩ := cellIn_eq_true_iff.mp hin
    obtain rfl : x = i := Option.some.inj (hx.symm.trans h)
    exact ⟨(mem_holders.mp (List.mem_map.mpr ⟨row, hrow, h⟩)).1, ((mem_notRead hnull).mp hmem).2⟩
  · rintro ⟨hi, hall⟩
    obtain ⟨row, hrow, hholder⟩ := List.mem_map.mp (mem_holders.mpr ⟨hi, hclass⟩)
    obtain ⟨n, hn, -⟩ := (mem_containersAt.mp hi).2
    have hmem := (mem_notRead hnull).mpr ⟨operations_ne_nil hn, hall⟩
    refine ⟨row, hrow, ?_⟩
    rw [if_pos (cellIn_eq_true_iff.mpr ⟨i, hholder, hmem⟩), hholder]

lemma classOf_row (hkeys : (t.classname.map ClassnameRow.id).Nodup) {site : Site} {row : NgcJoin}
    (hrow : row ∈ t.groupOf site) :
    t.classOf site = some row.2 ∧ row.allocation.site = site := by
  simp only [groupOf, ngcRows, List.mem_filter, mem_innerJoin, decide_eq_true_eq] at hrow
  obtain ⟨⟨-, hc, hon⟩, hsite⟩ := hrow
  have hmem : row.2 ∈ select (ofClass site) t.classname := mem_select.mpr ⟨hc, hsite ▸ hon⟩
  rw [t.select_ofClass hkeys, Option.mem_toList] at hmem
  exact ⟨hmem, hsite⟩

/-- **The row of a group** is that of its site. -/
theorem ngcRow_eq (hnull : t.NullFree) (hkeys : (t.classname.map ClassnameRow.id).Nodup)
    {site : Site} (hne : t.groupOf site ≠ []) :
    t.ngcRow t.cops.reduceOption (t.groupOf site) = t.siteRow site ∧ t.classOf site ≠ none := by
  obtain ⟨row, hrow⟩ := List.exists_mem_of_ne_nil _ hne
  have hclass : t.classOf site ≠ none := by simp [(classOf_row hkeys hrow).1]
  have hname : bare (fun row : NgcJoin => row.2.classname) (t.groupOf site) =
      (t.classOf site).bind ClassnameRow.classname := by
    refine bare_eq hne fun row hrow => ?_
    rw [(classOf_row hkeys hrow).1]
    rfl
  have hline : bare (fun row : NgcJoin => row.allocation.line) (t.groupOf site) = site.2 := by
    refine bare_eq hne fun row hrow => ?_
    rw [← (classOf_row hkeys hrow).2]
    rfl
  refine ⟨?_, hclass⟩
  rw [siteRow, ← countNac_eq hnull hclass, ← totalContainers_eq hclass t.cops.reduceOption,
    ← hname, ← hline]
  rfl

/-! ### The result -/

variable (t) in
/-- The sites of the result: the class is in the table, and a container was filled. -/
def Listed (site : Site) : Prop := t.classOf site ≠ none ∧ (t.containersAt site).Nonempty

/-- **The rows of the result**: those of the sites that are listed, each once. -/
theorem ngc_eq_some (hnull : t.NullFree) (hkeys : (t.classname.map ClassnameRow.id).Nodup) :
    ∃ rows, t.ngc = some rows ∧ (rows.map Prod.fst).Nodup ∧
      ∀ p, p ∈ rows ↔ t.Listed p.1 ∧ p.2 = t.siteRow p.1 := by
  have hcops : none ∉ t.cops := by
    intro h
    obtain ⟨r, hr, hcop⟩ := List.mem_map.mp h
    exact (hnull.containerOp r (mem_select.mp hr).1).1 hcop
  refine ⟨_, if_neg hcops, (List.filter_sublist.map Prod.fst).nodup ?_, fun ⟨site, row⟩ => ?_⟩
  · rw [map_fst_groups]
    exact List.nodup_dedup _
  · rw [List.mem_filter, mem_groups]
    show (t.groupOf site ≠ [] ∧ row = t.ngcRow t.cops.reduceOption (t.groupOf site)) ∧ _ ↔
      t.Listed site ∧ row = t.siteRow site
    constructor
    · rintro ⟨⟨hne, rfl⟩, htotal⟩
      obtain ⟨heq, hclass⟩ := ngcRow_eq hnull hkeys hne
      refine ⟨⟨hclass, ?_⟩, heq⟩
      rw [heq] at htotal
      simpa [siteRow, Finset.nonempty_iff_ne_empty] using htotal
    · rintro ⟨⟨hclass, i, hi⟩, rfl⟩
      obtain ⟨row, hrow, -⟩ := List.mem_map.mp (mem_holders.mpr ⟨hi, hclass⟩)
      have hne : t.groupOf site ≠ [] := List.ne_nil_of_mem hrow
      refine ⟨⟨hne, (ngcRow_eq hnull hkeys hne).1.symm⟩, ?_⟩
      simpa [siteRow] using Finset.ne_empty_of_mem hi

/-! ### Repeated rows -/

variable (t) in
/-- The tables with the same rows in `ALLOCATIONS` and `CONTAINERS`, each any number of times. -/
structure SameRows (t' : Tables) : Prop where
  allocations : ∀ a, a ∈ t'.allocations ↔ a ∈ t.allocations
  containers : ∀ o, o ∈ t'.containers ↔ o ∈ t.containers
  classname : t'.classname = t.classname
  containerOp : t'.containerOp = t.containerOp

namespace SameRows

variable {t' : Tables}

lemma nullFree (h : t.SameRows t') (hnull : t.NullFree) : t'.NullFree where
  allocations a ha := hnull.allocations a ((h.allocations a).mp ha)
  containers o ho := hnull.containers o ((h.containers o).mp ho)
  containerOp r hr := hnull.containerOp r (h.containerOp ▸ hr)

lemma mem_operations (h : t.SameRows t') {id : Cell ℤ} {o : ContainerRow} :
    o ∈ t'.operations id ↔ o ∈ t.operations id := by
  rw [operations, mem_select, h.containers, operations, mem_select]

lemma largest_eq (h : t.SameRows t') (id : Cell ℤ) : t'.largest id = t.largest id :=
  max_congr fun x => by simp [h.mem_operations]

lemma containersAt_eq (h : t.SameRows t') (site : Site) :
    t'.containersAt site = t.containersAt site := by
  ext i
  simp only [mem_containersAt, h.allocations, h.largest_eq]

lemma neverRead_eq (h : t.SameRows t') (site : Site) : t'.neverRead site = t.neverRead site := by
  have hadds : ∀ c, t'.AddsOrRemoves c ↔ t.AddsOrRemoves c := by
    intro c
    rw [AddsOrRemoves, AddsOrRemoves, h.containerOp]
  ext i
  simp only [neverRead, Finset.mem_filter, h.containersAt_eq, h.mem_operations, hadds]

lemma siteRow_eq (h : t.SameRows t') (site : Site) : t'.siteRow site = t.siteRow site := by
  simp only [siteRow, h.neverRead_eq, h.containersAt_eq, classOf, h.classname]

lemma listed_iff (h : t.SameRows t') (site : Site) : t'.Listed site ↔ t.Listed site := by
  simp only [Listed, h.containersAt_eq, classOf, h.classname]

end SameRows

variable (t) in
/-- What the rows of the result count. -/
structure NgcCounts (rows : List (Site × NgcRow)) : Prop where
  nodup : (rows.map Prod.fst).Nodup
  sites : ∀ site, site ∈ rows.map Prod.fst ↔ t.Listed site
  total : ∀ p ∈ rows, p.2.totalContainers = (t.containersAt p.1).card
  nac : ∀ p ∈ rows, p.2.countNac = (t.neverRead p.1).card
  named : ∀ p ∈ rows, p.2.classname = (t.classOf p.1).bind ClassnameRow.classname ∧
    p.2.line = p.1.2
  nac_le : ∀ p ∈ rows, p.2.countNac ≤ p.2.totalContainers
  repeated : ∀ t', t.SameRows t' → ∃ rows', t'.ngc = some rows' ∧ rows'.Perm rows

variable (t) in
/-- **The query counts containers**, however often the joins repeat them. -/
theorem ngc_counts (hnull : t.NullFree) (hkeys : (t.classname.map ClassnameRow.id).Nodup) :
    ∃ rows, t.ngc = some rows ∧ t.NgcCounts rows := by
  obtain ⟨rows, hngc, hnodup, hmem⟩ := ngc_eq_some hnull hkeys
  have hrow : ∀ p ∈ rows, p.2 = t.siteRow p.1 := fun p hp => ((hmem p).mp hp).2
  refine ⟨rows, hngc, hnodup, fun site => ?_, fun p hp => ?_, fun p hp => ?_, fun p hp => ?_,
    fun p hp => ?_, fun t' h => ?_⟩
  · constructor
    · intro hsite
      obtain ⟨p, hp, rfl⟩ := List.mem_map.mp hsite
      exact ((hmem p).mp hp).1
    · exact fun hlisted => List.mem_map.mpr ⟨(site, t.siteRow site), (hmem _).mpr ⟨hlisted, rfl⟩, rfl⟩
  · rw [hrow p hp]
    rfl
  · rw [hrow p hp]
    rfl
  · rw [hrow p hp]
    exact ⟨rfl, rfl⟩
  · rw [hrow p hp]
    exact Finset.card_le_card (Finset.filter_subset _ (t.containersAt p.1))
  · obtain ⟨rows', hngc', hnodup', hmem'⟩ := ngc_eq_some (h.nullFree hnull) (h.classname ▸ hkeys)
    refine ⟨rows', hngc', (List.perm_ext_iff_of_nodup hnodup'.of_map hnodup.of_map).mpr fun p => ?_⟩
    rw [hmem, hmem', h.listed_iff, h.siteRow_eq]

end Tables

/-- A site where one container was only added to and one was read, with repeated rows. -/
theorem ngc_counts_repeated : ∃ t : Tables, t.allocations.length = 3 ∧ t.containers.length = 4 ∧
    ∃ rows, t.ngc = some rows ∧ t.NgcCounts rows := by
  let t : Tables := {
    allocations := [⟨some 1, some 3, some 7, some 16⟩, ⟨some 2, some 3, some 7, some 16⟩,
      ⟨some 1, some 3, some 7, some 16⟩]
    containers := [⟨some 1, some 0, some 5⟩, ⟨some 2, some 0, some 16⟩, ⟨some 2, some 1, some 8⟩,
      ⟨some 1, some 0, some 5⟩]
    classname := [⟨4, some ['M']⟩]
    containerOp := [⟨some 0, some ['a', 'd', 'd']⟩, ⟨some 1, some ['g', 'e', 't']⟩] }
  exact ⟨t, rfl, rfl, t.ngc_counts ⟨by decide, by decide, by decide⟩ (by decide)⟩

end Cinst.Script
