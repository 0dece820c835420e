import Cinst.Addr.GcOrder

/-!
The null reference in the address map. The map starts with the id `0` for the address `0` from time `0`
on, so a query of the address `0` answers `0` unless a record puts an object there (`query_zero`).
When no relocation takes its object from the address `0`, nothing else is answered with `0`
(`query_eq_zero_iff`).
-/

namespace Cinst.Addr

open Cinst.Record

/-- No record puts an object at the address `0` at a time after `0` and not after `t`. -/
def ZeroKept (news : List NewRecord) (gcs : List GCRecord) (t : Time) : Prop :=
  (∀ r ∈ news, r.addr = 0 → r.time ≤ t → r.time = 0) ∧
    ∀ g ∈ gcs, g.newAddr = 0 → g.time ≤ t → g.time = 0

instance (news : List NewRecord) (gcs : List GCRecord) (t : Time) : Decidable (ZeroKept news gcs t) :=
  inferInstanceAs (Decidable (_ ∧ _))

section Zero

variable {news : List NewRecord} {gcs : List GCRecord}

lemma map_fst_eventsAt_build (a : Addr) : (eventsAt (Store.build news gcs).events a).map Prod.fst =
    allocTimes news a ++ moveTimes gcs a := by
  obtain ⟨l, hl, hmoves⟩ := eventsAt_foldl_addMove (allocated news) gcs a
  rw [← map_fst_eventsAt_allocated, ← hmoves, ← List.map_append, ← hl]
  rfl

lemma query_eq_notFound {a : Addr} (ha : a ≠ 0) (hnews : ∀ r ∈ news, r.addr ≠ a)
    (hgcs : ∀ g ∈ gcs, g.newAddr ≠ a) (t : Time) : (Store.build news gcs).query a t = notFound := by
  have hnone : allocTimes news a ++ moveTimes gcs a = [] := by
    simp only [allocTimes, if_neg ha, moveTimes, List.nil_append, List.append_eq_nil_iff,
      List.map_eq_nil_iff, List.filter_eq_nil_iff, decide_eq_true_eq]
    exact ⟨hnews, hgcs⟩
  have htimes : (eventsAt (Store.build news gcs).events a).map Prod.fst = _ :=
    map_fst_eventsAt_build a
  rw [hnone, List.map_eq_nil_iff] at htimes
  rw [Store.query, htimes]
  rfl

lemma zeroKept_iff {t : Time} : ZeroKept news gcs t ↔
    ∀ p ∈ eventsAt (Store.build news gcs).events 0, p.1 ≤ t → p.1 = 0 := by
  have hmem : (∀ p ∈ eventsAt (Store.build news gcs).events 0, p.1 ≤ t → p.1 = 0) ↔
      ∀ s ∈ allocTimes news 0 ++ moveTimes gcs 0, s ≤ t → s = 0 := by
    rw [← map_fst_eventsAt_build, List.forall_mem_map]
  rw [hmem]
  constructor
  · rintro ⟨hnews, hgcs⟩ s hs hst
    simp only [allocTimes, if_true, List.mem_append, List.mem_singleton, moveTimes, List.mem_map,
      List.mem_filter, decide_eq_true_eq] at hs
    rcases hs with (rfl | ⟨r, ⟨hr, ha⟩, rfl⟩) | ⟨g, ⟨hg, ha⟩, rfl⟩
    · rfl
    · exact hnews r hr ha hst
    · exact hgcs g hg ha hst
  · intro h
    constructor
    · intro r hr ha
      refine h r.time (List.mem_append_left _ (List.mem_append_right _ ?_))
      exact List.mem_map_of_mem (List.mem_filter.mpr ⟨hr, decide_eq_true ha⟩)
    · intro g hg ha
      refine h g.time (List.mem_append_right _ ?_)
      exact List.mem_map_of_mem (List.mem_filter.mpr ⟨hg, decide_eq_true ha⟩)

lemma exists_events (news : List NewRecord) (gcs : List GCRecord) :
    ∃ es, (Store.build news gcs).events = ⟨0, 0, 0⟩ :: es := by
  unfold Store.build
  induction gcs using List.reverseRecOn with
  | nil => exact ⟨_, by rw [List.foldl_nil, foldl_addNew_init]⟩
  | append_singleton gcs g ih =>
    obtain ⟨es, hes⟩ := ih
    rw [List.foldl_append]
    exact ⟨_, by rw [List.foldl_cons, List.foldl_nil, Store.addMove_events, hes]; rfl⟩

/-- **The null reference keeps its id** until an object is put at its address. -/
theorem query_zero {t : Time} (h : ZeroKept news gcs t) : (Store.build news gcs).query 0 t = 0 := by
  obtain ⟨es, hes⟩ := exists_events news gcs
  have hfirst : eventsAt (Store.build news gcs).events 0 = (0, 0) :: eventsAt es 0 := by
    rw [hes]
    exact eventsAt_cons_self es ⟨0, 0, 0⟩
  have hzero : ((eventsAt (Store.build news gcs).events 0).lookup 0) = some 0 := by
    rw [hfirst]
    rfl
  exact resolve_eq_lookup hzero UInt64.zero_le fun p hp hpt => (zeroKept_iff.mp h p hp hpt).le

/-- All events but the built-in one have another id, when the ids of the allocations do not come round
and no relocation takes its object from the address `0`. -/
lemma ids_ne_zero (hcount : news.length < 2 ^ 32 - 1) (hgcs : ∀ g ∈ gcs, g.orgAddr ≠ 0) :
    ∃ es, (Store.build news gcs).events = ⟨0, 0, 0⟩ :: es ∧ ∀ e ∈ es, e.id ≠ 0 := by
  unfold Store.build
  induction gcs using List.reverseRecOn with
  | nil =>
    rw [List.foldl_nil, foldl_addNew_init]
    refine ⟨newEvents 1 news, rfl, fun e he h0 => ?_⟩
    obtain ⟨i, r, hr, rfl⟩ := mem_newEvents.mp he
    have hi : i < news.length := (List.getElem?_eq_some_iff.mp hr).1
    have hval : (1 + UInt32.ofNat i).toNat = i + 1 := newId_toNat (by omega)
    rw [show 1 + UInt32.ofNat i = 0 from h0] at hval
    exact absurd hval (Nat.succ_ne_zero i).symm
  | append_singleton gcs g ih =>
    obtain ⟨es, hes, hids⟩ := ih fun g' hg' => hgcs g' (List.mem_append_left _ hg')
    have horg : g.orgAddr ≠ 0 := hgcs g (by simp)
    rw [List.foldl_append, List.foldl_cons, List.foldl_nil, Store.addMove_events, hes]
    refine ⟨_, List.cons_append .., fun e he => ?_⟩
    rcases List.mem_append.mp he with he | he
    · exact hids e he
    rw [List.mem_singleton.mp he, Store.moveId]
    split_ifs with hq
    · intro h0
      have h0 : (gcs.foldl Store.addMove (news.foldl Store.addNew Store.init)).curId ||| gcMask = 0 := h0
      exact or_gcMask_and _ (by rw [h0]; rfl)
    · -- what is found at the old address is one of the other events
      obtain ⟨p, hp, hid⟩ := resolve_mem.resolve_left hq
      rw [hes, eventsAt_cons_ne _ (Ne.symm horg), mem_eventsAt] at hp
      have hne := hids _ hp
      rw [hid] at hne
      exact hne

/-- **Only the null reference has the id `0`.** -/
theorem query_eq_zero_iff (hcount : news.length < 2 ^ 32 - 1) (hgcs : ∀ g ∈ gcs, g.orgAddr ≠ 0)
    (a : Addr) (t : Time) : (Store.build news gcs).query a t = 0 ↔ a = 0 ∧ ZeroKept news gcs t := by
  obtain ⟨es, hes, hids⟩ := ids_ne_zero hcount hgcs
  constructor
  · intro hq
    have hnotFound : notFound ≠ 0 := by decide
    by_cases ha : a = 0
    · subst ha
      refine ⟨rfl, zeroKept_iff.mpr fun p hp hpt => ?_⟩
      by_contra hp0
      -- the latest event is not the built-in one
      obtain ⟨s, i, hl, hst, hmax⟩ := exists_latest hp hpt
      have hi : i = 0 := (resolve_eq_lookup hl hst hmax).symm.trans hq
      have hs : s ≠ 0 := by
        rintro rfl
        exact hp0 (UInt64.le_zero_iff.mp (hmax p hp hpt))
      have hmem := mem_eventsAt.mp (Lib.OrdMap.mem_of_lookup hl)
      rw [hes] at hmem
      rcases List.mem_cons.mp hmem with heq | hmem
      · exact hs (congrArg Event.time heq)
      · exact hids _ hmem hi
    · rcases resolve_mem (l := eventsAt (Store.build news gcs).events a) (t := t) with hnf | hp
      · exact absurd (hnf.symm.trans hq) hnotFound
      · obtain ⟨p, hp, hid⟩ := hp
        rw [hes, eventsAt_cons_ne _ (Ne.symm ha), mem_eventsAt] at hp
        exact absurd (hid.trans hq) (hids _ hp)
  · rintro ⟨rfl, hkept⟩
    exact query_zero hkept

end Zero

end Cinst.Addr
