import Cinst.Script.Sites

/-!
`pre_waste_query.py`: for each allocation site the space that its containers were allocated with and
never filled.

A container without a recorded operation wastes all of its space. The left join keeps its row, with
`NULL` for the largest size, but `MSIZE < INIT_SIZE` is not true of `NULL` and drops the row again. So
the query reports what is wasted at a site exactly when no such container has a positive size and no
sum overflows (`reportedWaste_iff`); none does in tables that the scripts have loaded
(`sumsFit_of_loaded`).
-/

namespace Cinst.Script

open Cinst.Lib.Sql

/-! ### The query -/

/-- A row of the joined tables. -/
abbrev WasteJoin := (AllocationRow × Option SizeRow) × ClassnameRow

/-- The column `MSIZE`. -/
def WasteJoin.msize (row : WasteJoin) : Cell ℤ := row.1.2.bind SizeRow.msize

/-- The column `INIT_SIZE`. -/
def WasteJoin.initSize (row : WasteJoin) : Cell ℤ := row.1.1.initSize

/-- A row of the result, without the column `RATIO`, a floating-point number. -/
structure WasteRow where
  wastedSpace : Cell ℤ
  smallCount : ℕ
  classname : Cell (List Char)
  line : Cell ℤ
  deriving DecidableEq

namespace Tables

variable (t : Tables)

/-- `FROM` and `WHERE`. -/
def wasteRows : List WasteJoin :=
  select (fun row => cellLt row.msize row.initSize)
    (innerJoin (fun p c => ofClass p.1.site c)
      (leftJoin (fun a m => cellEq a.id m.holderId) t.allocations t.maxSizes) t.classname)

/-- The selected columns of a group. -/
def wasteRow (group : List WasteJoin) : WasteRow where
  wastedSpace := cellSub (sum (group.map WasteJoin.initSize)) (sum (group.map WasteJoin.msize))
  smallCount := group.length
  classname := bare (fun row => row.2.classname) group
  line := bare (fun row => row.1.1.line) group

/-- The sums of a group do not overflow, and neither does their difference, which would be a
floating-point number. -/
def WasteFits (group : List WasteJoin) : Prop :=
  SumFits (group.map WasteJoin.initSize) ∧ SumFits (group.map WasteJoin.msize) ∧
    ∀ v ∈ (wasteRow group).wastedSpace, FitsInteger v

instance (group : List WasteJoin) : Decidable (WasteFits group) :=
  inferInstanceAs (Decidable (_ ∧ _ ∧ _))

/-- The query before the order and the limit: a row for each site. -/
def preWaste : Option (List (Site × WasteRow)) :=
  groupRows (fun row : WasteJoin => row.1.1.site) WasteFits wasteRow t.wasteRows

/-- The `WASTED_SPACE` that is reported for a site, `0` when the site is absent. -/
def reportedWaste (site : Site) : Option (Cell ℤ) :=
  t.preWaste.map fun rows => (rows.lookup site).elim (some 0) WasteRow.wastedSpace

/-! ### What is wasted -/

/-- The largest size of a container; `0` without a recorded operation. -/
def sizeOrZero (id : Cell ℤ) : Cell ℤ := if t.operations id = [] then some 0 else t.largest id

/-- What a container wastes: its size less the largest size recorded, when that is positive. -/
def wasteOf (a : AllocationRow) : ℕ :=
  (cellSub a.initSize (t.sizeOrZero a.id)).elim 0 Int.toNat

/-- What the containers that were allocated at a site waste; the ids in `ALLOCATIONS` are unique, so
each row is a container. -/
def totalWaste (site : Site) : ℕ :=
  ((t.allocations.filter fun a => a.site = site).map t.wasteOf).sum

/-! ### The rows of a site -/

/-- The row that an allocation is joined to. -/
def sizeRow? (id : Cell ℤ) : Option SizeRow :=
  if t.operations id = [] then none else some ⟨id, t.largest id⟩

/-- The query keeps an allocation. -/
def Counted (a : AllocationRow) : Prop :=
  cellLt ((t.sizeRow? a.id).bind SizeRow.msize) a.initSize = some true

instance (a : AllocationRow) : Decidable (t.Counted a) := by
  unfold Counted
  infer_instance

lemma counted_iff {a : AllocationRow} : t.Counted a ↔ t.operations a.id ≠ [] ∧
    ∃ m n, t.largest a.id = some m ∧ a.initSize = some n ∧ m < n := by
  unfold Counted sizeRow?
  split_ifs with hops
  · simp [hops]
  · simp [hops]

/-- The containers of a site that are counted. -/
def countedAt (site : Site) : List AllocationRow :=
  (t.allocations.filter fun a => a.site = site).filter fun a => t.Counted a

/-- No sum of the query overflows: at each site the sizes of the containers that are counted, the largest
sizes that were recorded for them, and what they waste. -/
def SumsFit : Prop :=
  ∀ a ∈ t.allocations, t.classOf a.site ≠ none →
    SumFits ((t.countedAt a.site).map AllocationRow.initSize) ∧
      SumFits ((t.countedAt a.site).map fun b => t.largest b.id) ∧
      ((t.countedAt a.site).map t.wasteOf).sum < 2 ^ 63

instance : Decidable t.SumsFit := inferInstanceAs (Decidable (∀ a ∈ t.allocations, _))

/-- **The rows of a site**: its allocations that are counted, each once. -/
theorem wasteRows_of_site (h : (t.classname.map ClassnameRow.id).Nodup) {site : Site}
    {c : ClassnameRow} (hc : t.classOf site = some c) :
    t.wasteRows.filter (fun row => row.1.1.site = site) =
      (t.countedAt site).map fun a => ((a, t.sizeRow? a.id), c) := by
  have hleft : leftJoin (fun (a : AllocationRow) m => cellEq a.id m.holderId) t.allocations
      t.maxSizes = t.allocations.map fun a => (a, t.sizeRow? a.id) := by
    refine leftJoin_eq_map fun a => ?_
    rw [t.select_maxSizes, sizeRow?]
    split <;> rfl
  have hinner := innerJoin_eq_filterMap (l := t.allocations.map fun a => (a, t.sizeRow? a.id))
    fun p : AllocationRow × Option SizeRow => t.select_ofClass h p.1.site
  rw [countedAt, wasteRows, hleft, hinner, select, List.filterMap_map, List.filter_filterMap,
    List.filter_filterMap, ← List.filterMap_eq_map, List.filterMap_filter, List.filterMap_filter]
  refine List.filterMap_congr fun a _ => ?_
  by_cases hsite : a.site = site
  · have hwhere : cellLt (WasteJoin.msize ((a, t.sizeRow? a.id), c))
        (WasteJoin.initSize ((a, t.sizeRow? a.id), c)) = some true ↔ t.Counted a := Iff.rfl
    by_cases hcount : t.Counted a <;>
      simp only [Function.comp_apply, hc, Option.map_some, Option.filter_some, hwhere, hcount,
        hsite, decide_true, decide_false, Bool.false_eq_true, if_true, if_false, Option.filter_none]
  · rw [if_neg (by simpa using hsite), Option.filter_eq_none_iff]
    intro row hrow
    obtain ⟨b, -, rfl⟩ := Option.map_eq_some_iff.mp (Option.filter_eq_some_iff.mp hrow).1
    simpa using hsite

/-! ### Sums -/

lemma sub_sums {group : List WasteJoin} (hne : group ≠ []) (f g : WasteJoin → ℤ)
    (h : ∀ row ∈ group, row.initSize = some (f row) ∧ row.msize = some (g row)) :
    cellSub (sum (group.map WasteJoin.initSize)) (sum (group.map WasteJoin.msize)) =
      some ((group.map fun row => f row - g row).sum) := by
  have hinit : group.map WasteJoin.initSize = (group.map f).map some := by
    rw [List.map_map]
    exact List.map_congr_left fun row hrow => (h row hrow).1
  have hmsize : group.map WasteJoin.msize = (group.map g).map some := by
    rw [List.map_map]
    exact List.map_congr_left fun row hrow => (h row hrow).2
  have hsub : ∀ l : List WasteJoin,
      (l.map f).sum - (l.map g).sum = (l.map fun row => f row - g row).sum := by
    intro l
    induction l with
    | nil => rfl
    | cons row l ih =>
      simp only [List.map_cons, List.sum_cons]
      omega
  rw [hinit, hmsize, sum_map_some (by simpa using hne), sum_map_some (by simpa using hne), ← hsub]
  rfl

/-! ### What is reported -/

lemma wasteOf_counted {a : AllocationRow} (h : t.Counted a) (c : ClassnameRow) :
    let row : WasteJoin := ((a, t.sizeRow? a.id), c)
    row.initSize = some (row.initSize.getD 0) ∧ row.msize = some (row.msize.getD 0) ∧
      (t.wasteOf a : ℤ) = row.initSize.getD 0 - row.msize.getD 0 := by
  obtain ⟨hops, m, n, hm, hn, hlt⟩ := t.counted_iff.mp h
  have hmsize : WasteJoin.msize ((a, t.sizeRow? a.id), c) = some m := by
    rw [WasteJoin.msize, sizeRow?, if_neg hops, ← hm]
    rfl
  have hinit : WasteJoin.initSize ((a, t.sizeRow? a.id), c) = some n := hn
  have hwaste : t.wasteOf a = (n - m).toNat := by
    rw [wasteOf, sizeOrZero, if_neg hops, hm, hn]
    rfl
  refine ⟨by rw [hinit]; rfl, by rw [hmsize]; rfl, ?_⟩
  rw [hwaste, hmsize, hinit]
  exact Int.toNat_of_nonneg (by omega)

/-- A container that is not counted wastes nothing, unless it has no recorded operation. -/
lemma wasteOf_uncounted {a : AllocationRow} (h : ¬ t.Counted a) :
    t.wasteOf a = 0 ↔ (t.operations a.id = [] → ∀ n, a.initSize = some n → n ≤ 0) := by
  rw [counted_iff] at h
  unfold wasteOf sizeOrZero
  cases hn : a.initSize with
  | none => simp [cellSub]
  | some n =>
    by_cases hops : t.operations a.id = []
    · simp [hops, cellSub]
    · rw [if_neg hops]
      cases hm : t.largest a.id with
      | none => simp [cellSub, hops]
      | some m =>
        have hle : n ≤ m := not_lt.mp fun hlt => h ⟨hops, m, n, hm, hn, hlt⟩
        simp [cellSub, hops, hle]

lemma wasteRow_of_site {site : Site} (hne : t.countedAt site ≠ []) (c : ClassnameRow) :
    let group : List WasteJoin := (t.countedAt site).map fun a => ((a, t.sizeRow? a.id), c)
    group.map WasteJoin.initSize = (t.countedAt site).map AllocationRow.initSize ∧
      group.map WasteJoin.msize = (t.countedAt site).map (fun a => t.largest a.id) ∧
      (wasteRow group).wastedSpace = some (((t.countedAt site).map t.wasteOf).sum : ℤ) := by
  have hcounted : ∀ a ∈ t.countedAt site, t.Counted a := fun a ha => by
    simpa using (List.mem_filter.mp ha).2
  refine ⟨List.map_map, ?_, ?_⟩
  · rw [List.map_map]
    refine List.map_congr_left fun a ha => ?_
    have hops := (t.counted_iff.mp (hcounted a ha)).1
    show (t.sizeRow? a.id).bind SizeRow.msize = t.largest a.id
    rw [sizeRow?, if_neg hops]
    rfl
  · show cellSub (sum (List.map WasteJoin.initSize _)) (sum (List.map WasteJoin.msize _)) = _
    rw [sub_sums (by simpa using hne) (fun row => row.initSize.getD 0) (fun row => row.msize.getD 0),
      List.map_map, Nat.cast_list_sum, List.map_map]
    · refine congrArg (fun l : List ℤ => some l.sum) (List.map_congr_left fun a ha => ?_)
      exact (t.wasteOf_counted (hcounted a ha) c).2.2.symm
    · intro row hrow
      obtain ⟨a, ha, rfl⟩ := List.mem_map.mp hrow
      obtain ⟨hinit, hmsize, -⟩ := t.wasteOf_counted (hcounted a ha) c
      exact ⟨hinit, hmsize⟩

lemma wasteFits_iff {site : Site} (hne : t.countedAt site ≠ []) (c : ClassnameRow) :
    WasteFits ((t.countedAt site).map fun a => ((a, t.sizeRow? a.id), c)) ↔
      SumFits ((t.countedAt site).map AllocationRow.initSize) ∧
        SumFits ((t.countedAt site).map fun b => t.largest b.id) ∧
        ((t.countedAt site).map t.wasteOf).sum < 2 ^ 63 := by
  obtain ⟨hinit, hmsize, hwaste⟩ := t.wasteRow_of_site hne c
  have hsum : (∀ v ∈ some (((t.countedAt site).map t.wasteOf).sum : ℤ), FitsInteger v) ↔
      ((t.countedAt site).map t.wasteOf).sum < 2 ^ 63 := by
    simp only [Option.mem_some, forall_eq', FitsInteger]
    omega
  rw [WasteFits, hinit, hmsize, hwaste, hsum]

lemma mem_wasteRows (h : (t.classname.map ClassnameRow.id).Nodup) {row : WasteJoin}
    (hrow : row ∈ t.wasteRows) : row.1.1 ∈ t.allocations ∧ t.classOf row.1.1.site = some row.2 := by
  obtain ⟨hjoin, -⟩ := mem_select.mp hrow
  obtain ⟨hleft, hclass, hon⟩ := mem_innerJoin.mp hjoin
  have hmem : row.2 ∈ select (ofClass row.1.1.site) t.classname := mem_select.mpr ⟨hclass, hon⟩
  rw [t.select_ofClass h, Option.mem_toList] at hmem
  exact ⟨(mem_leftJoin.mp hleft).1, hmem⟩

lemma sumsFit_iff (h : (t.classname.map ClassnameRow.id).Nodup) :
    (∀ g ∈ groupBy (fun row : WasteJoin => row.1.1.site) t.wasteRows, WasteFits g.2) ↔ t.SumsFit := by
  constructor
  · intro hall a ha hclass
    obtain ⟨c, hc⟩ := Option.ne_none_iff_exists'.mp hclass
    have hrows := t.wasteRows_of_site h hc
    by_cases hne : t.countedAt a.site = []
    · simp only [hne, List.map_nil]
      decide
    · have hgroup : (a.site, t.wasteRows.filter fun row => row.1.1.site = a.site) ∈
          groupBy (fun row : WasteJoin => row.1.1.site) t.wasteRows :=
        mem_groupBy_of_filter_ne_nil (by rw [hrows]; simpa using hne)
      have hg := hall _ hgroup
      rw [hrows] at hg
      exact (t.wasteFits_iff hne c).mp hg
  · intro hall g hg
    obtain ⟨hkey, hrows⟩ := mem_groupBy.mp hg
    obtain ⟨row, hrow, hsite⟩ := List.mem_map.mp hkey
    obtain ⟨halloc, hc⟩ := t.mem_wasteRows h hrow
    rw [← hsite, t.wasteRows_of_site h hc] at hrows
    have hne : t.countedAt row.1.1.site ≠ [] := fun e =>
      ne_nil_of_mem_groupBy hg (by rw [hrows, e]; rfl)
    rw [hrows]
    exact (t.wasteFits_iff hne row.2).mpr (hall row.1.1 halloc (by rw [hc]; simp))

/-- A container that is counted has both numbers. -/
lemma counted_values (hinit : ∀ a ∈ t.allocations, ∀ n ∈ a.initSize, n < 2 ^ 31)
    (hsize : ∀ o ∈ t.containers, ∀ n ∈ o.size, 0 ≤ n) {site : Site} {a : AllocationRow}
    (ha : a ∈ t.countedAt site) : a.id ≠ none ∧ ∃ m n, t.largest a.id = some m ∧
      a.initSize = some n ∧ 0 ≤ m ∧ m < n ∧ n < 2 ^ 31 := by
  obtain ⟨ha, hcounted⟩ := List.mem_filter.mp ha
  obtain ⟨hops, m, n, hm, hn, hlt⟩ := t.counted_iff.mp (of_decide_eq_true hcounted)
  refine ⟨fun hnone => hops (by rw [hnone, operations_none]), m, n, hm, hn, ?_, hlt,
    hinit a (List.mem_filter.mp ha).1 n hn⟩
  obtain ⟨o, ho, hom⟩ := List.mem_map.mp (max_eq_some_iff.mp hm).1
  exact hsize o (mem_select.mp ho).1 m hom

lemma length_countedAt_le (hids : (t.allocations.map AllocationRow.id).Nodup)
    (hid : ∀ a ∈ t.allocations, ∀ i ∈ a.id, -2 ^ 31 ≤ i ∧ i < 2 ^ 31) {site : Site}
    (hsome : ∀ a ∈ t.countedAt site, a.id ≠ none) : (t.countedAt site).length ≤ 2 ^ 32 := by
  have hnodup : ((t.countedAt site).map AllocationRow.id).Nodup :=
    hids.sublist ((List.filter_sublist.trans List.filter_sublist).map _)
  -- the ids are among as many as there are
  have hsub : ((t.countedAt site).map AllocationRow.id).toFinset ⊆
      (Finset.Ico (-2 ^ 31 : ℤ) (2 ^ 31)).map Function.Embedding.some := by
    intro id hmem
    obtain ⟨a, ha, rfl⟩ := List.mem_map.mp (List.mem_toFinset.mp hmem)
    obtain ⟨i, hi⟩ := Option.ne_none_iff_exists'.mp (hsome a ha)
    have hrange := hid a (List.mem_of_mem_filter (List.mem_of_mem_filter ha)) i hi
    exact Finset.mem_map.mpr ⟨i, Finset.mem_Ico.mpr hrange, hi.symm⟩
  have hcard := Finset.card_le_card hsub
  rw [List.toFinset_card_of_nodup hnodup, Finset.card_map, Int.card_Ico, List.length_map] at hcard
  simpa using hcard

/-- **In tables as the scripts load them no sum overflows**: the ids are distinct and have 32 bits, so
have the sizes, and a size that is recorded has no sign. -/
theorem sumsFit_of_loaded (hids : (t.allocations.map AllocationRow.id).Nodup)
    (hid : ∀ a ∈ t.allocations, ∀ i ∈ a.id, -2 ^ 31 ≤ i ∧ i < 2 ^ 31)
    (hinit : ∀ a ∈ t.allocations, ∀ n ∈ a.initSize, n < 2 ^ 31)
    (hsize : ∀ o ∈ t.containers, ∀ n ∈ o.size, 0 ≤ n) : t.SumsFit := by
  intro a₀ _ _
  have hvalues : ∀ a ∈ t.countedAt a₀.site, a.id ≠ none ∧ ∃ m n, t.largest a.id = some m ∧
      a.initSize = some n ∧ 0 ≤ m ∧ m < n ∧ n < 2 ^ 31 := fun _ => t.counted_values hinit hsize
  have hlength := t.length_countedAt_le hids hid fun a ha => (hvalues a ha).1
  have hbound : ((t.countedAt a₀.site).map fun _ => (2 ^ 31 - 1 : ℤ)).sum < 2 ^ 63 := by
    rw [List.map_const', List.sum_replicate, nsmul_eq_mul]
    have : ((t.countedAt a₀.site).length : ℤ) ≤ 2 ^ 32 := by exact_mod_cast hlength
    linarith
  refine ⟨sumFits_map_of_le (fun a ha => ⟨by norm_num, fun x hx => ?_⟩) hbound,
    sumFits_map_of_le (fun a ha => ⟨by norm_num, fun x hx => ?_⟩) hbound, ?_⟩
  · obtain ⟨-, m, n, -, hn, h0, hlt, hn31⟩ := hvalues a ha
    obtain rfl : n = x := Option.some.inj (hn.symm.trans hx)
    rw [abs_of_pos (by omega)]
    omega
  · obtain ⟨-, m, n, hm, -, h0, hlt, hn31⟩ := hvalues a ha
    obtain rfl : m = x := Option.some.inj (hm.symm.trans hx)
    rw [abs_of_nonneg h0]
    omega
  · have hwaste : ((t.countedAt a₀.site).map t.wasteOf).sum ≤
        ((t.countedAt a₀.site).map fun _ => 2 ^ 31 - 1).sum := by
      refine List.sum_le_sum fun a ha => ?_
      obtain ⟨-, m, n, hm, hn, h0, hlt, hn31⟩ := hvalues a ha
      unfold wasteOf sizeOrZero
      rw [hm, hn]
      split_ifs <;> simp only [cellSub, Option.map₂_some_some, Option.elim_some] <;> omega
    rw [List.map_const', List.sum_replicate, smul_eq_mul] at hwaste
    omega

/-- **The query reports** what the containers waste that are counted. -/
theorem reportedWaste_eq (h : (t.classname.map ClassnameRow.id).Nodup) {site : Site}
    (hsite : t.classOf site ≠ none) :
    t.reportedWaste site =
      if t.SumsFit then some (some (((t.countedAt site).map t.wasteOf).sum : ℤ)) else none := by
  obtain ⟨c, hc⟩ := Option.ne_none_iff_exists'.mp hsite
  have hrows := t.wasteRows_of_site h hc
  have hmem : site ∈ t.wasteRows.map (fun row => row.1.1.site) ↔
      t.wasteRows.filter (fun row => row.1.1.site = site) ≠ [] := by
    simp [List.filter_eq_nil_iff]
  rw [reportedWaste, preWaste, groupRows, if_congr (t.sumsFit_iff h) rfl rfl]
  split_ifs with hfits
  · rw [Option.map_some, lookup_groupBy, if_congr hmem rfl rfl, hrows]
    split_ifs with hne
    · have hne : t.countedAt site ≠ [] := by simpa using hne
      exact congrArg some (t.wasteRow_of_site hne c).2.2
    · rw [not_not, List.map_eq_nil_iff] at hne
      rw [hne]
      rfl
  · rfl

/-- **The query reports what is wasted at a site** if and only if no sum overflows and no container of a
positive size that was allocated there is without a recorded operation. -/
theorem reportedWaste_iff (h : (t.classname.map ClassnameRow.id).Nodup) (site : Site)
    (hsite : t.classOf site ≠ none) :
    t.reportedWaste site = some (some (t.totalWaste site : ℤ)) ↔ t.SumsFit ∧
      ∀ a ∈ t.allocations, a.site = site → t.operations a.id = [] →
        ∀ n, a.initSize = some n → n ≤ 0 := by
  have hsplit := List.sum_map_filter_add_sum_map_filter_not t.Counted t.wasteOf
    (t.allocations.filter fun a => a.site = site)
  -- what is missing is what the containers waste that are not counted
  have hmissing : t.reportedWaste site = some (some (t.totalWaste site : ℤ)) ↔ t.SumsFit ∧
      (((t.allocations.filter fun a => a.site = site).filter fun a => ¬ t.Counted a).map
        t.wasteOf).sum = 0 := by
    rw [t.reportedWaste_eq h hsite, totalWaste]
    by_cases hfits : t.SumsFit
    · rw [if_pos hfits, Option.some.injEq, Option.some.injEq, Nat.cast_inj, countedAt]
      simp only [hfits, true_and]
      omega
    · simp [hfits]
  rw [hmissing, List.sum_eq_zero_iff]
  simp only [List.mem_map, List.mem_filter, decide_eq_true_eq]
  refine and_congr_right fun _ => ?_
  constructor
  · intro hzero a ha hs hops
    have hc : ¬ t.Counted a := fun hc => (t.counted_iff.mp hc).1 hops
    exact (t.wasteOf_uncounted hc).mp (hzero _ ⟨a, ⟨⟨ha, hs⟩, hc⟩, rfl⟩) hops
  · rintro hsizes _ ⟨a, ⟨⟨ha, hs⟩, hc⟩, rfl⟩
    exact (t.wasteOf_uncounted hc).mpr (hsizes a ha hs)

end Tables

/-- A site with a container that was filled half, one that was filled, and one of size `0` without
operations. -/
theorem reportedWaste_filled : ∃ (t : Tables) (site : Site), t.allocations.length = 3 ∧
    t.totalWaste site = 8 ∧ t.reportedWaste site = some (some (t.totalWaste site : ℤ)) := by
  let t : Tables := {
    allocations := [⟨some 1, some 3, some 7, some 16⟩, ⟨some 2, some 3, some 7, some 16⟩,
      ⟨some 4, some 3, some 7, some 0⟩]
    containers := [⟨some 1, some 0, some 5⟩, ⟨some 2, some 0, some 16⟩, ⟨some 1, some 0, some 8⟩]
    classname := [⟨4, some ['M']⟩]
    containerOp := [] }
  exact ⟨t, (some 3, some 7), rfl, by decide,
    (t.reportedWaste_iff (by decide) (some 3, some 7) (by decide)).mpr
      ⟨t.sumsFit_of_loaded (by decide) (by decide) (by decide) (by decide), by decide⟩⟩

/-- A container of size `16` without a recorded operation: the site is absent from the result. -/
theorem reportedWaste_misses : ¬ ∀ t : Tables, (t.allocations.map AllocationRow.id).Nodup →
    (t.classname.map ClassnameRow.id).Nodup → ∀ site, t.classOf site ≠ none →
      t.reportedWaste site = some (some (t.totalWaste site : ℤ)) := by
  intro hall
  have := hall ⟨[⟨some 1, some 3, some 7, some 16⟩], [], [⟨4, some ['M']⟩], []⟩ (by decide)
    (by decide) (some 3, some 7) (by decide)
  exact absurd this (by decide)

end Cinst.Script
