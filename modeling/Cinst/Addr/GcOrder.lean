import Cinst.Addr.Rename

/-!
The order of the gc files.

Every gc record is resolved against the records read so far, and the files are read one after the
other, so what a record resolves to can depend on which files are listed before its own. The files
are `Independent` when no record looks for its object at an address where the record of another
file decides. Then the order of the files only renames the ids of objects that are known from a
relocation only (`gcOrder_renames`): a record resolves to the same allocation, to the same earlier
record of its own file, or to a new id, whatever is read before its file (`lookup_home`).
-/

namespace Cinst.Addr

open Cinst.Lib Cinst.Record

/-! ### The condition -/

/-- The times of the built-in event and of the allocations at `a`. -/
def allocTimes (news : List NewRecord) (a : Addr) : List Time :=
  (if a = 0 then [0] else []) ++ (news.filter fun r => r.addr = a).map NewRecord.time

/-- The times at which the records of `gcs` move an object to `a`. -/
def moveTimes (gcs : List GCRecord) (a : Addr) : List Time :=
  (gcs.filter fun r => r.newAddr = a).map GCRecord.time

/-- The latest event at the old address of the record `r` of the file `f` is an allocation or an
earlier record of the same file. -/
def Known (news : List NewRecord) (gcFiles : List (List GCRecord)) (f : List GCRecord)
    (r : GCRecord) : Prop :=
  ∃ s ≤ r.time,
    (s ∈ allocTimes news r.orgAddr ∨ s ∈ moveTimes f r.orgAddr ∧ s < r.time) ∧
    (∀ s' ∈ allocTimes news r.orgAddr, s' ≤ r.time → s' ≤ s) ∧
    ∀ s' ∈ moveTimes gcFiles.flatten r.orgAddr, s' < r.time → s' ≤ s

/-- All events at the old address of `r` are later, and no other file decides whether the address
holds a single event, which would answer nevertheless. -/
def Unknown (news : List NewRecord) (gcFiles : List (List GCRecord)) (f : List GCRecord)
    (r : GCRecord) : Prop :=
  (∀ s ∈ allocTimes news r.orgAddr, r.time < s) ∧
  (∀ s ∈ moveTimes gcFiles.flatten r.orgAddr, r.time ≤ s) ∧
  (2 ≤ (allocTimes news r.orgAddr).length ∨
    (∀ g ∈ gcFiles, g ≠ f → moveTimes g r.orgAddr = []) ∨
    allocTimes news r.orgAddr = [] ∧
      ∀ g ∈ gcFiles, g ≠ f → (moveTimes g r.orgAddr).length ≠ 1)

/-- No gc record depends on a record of another file. A record that puts its object where an
allocation is stored for the same time is never read again, so nothing is asked of it. -/
def Independent (news : List NewRecord) (gcFiles : List (List GCRecord)) : Prop :=
  ∀ f ∈ gcFiles, ∀ r ∈ f, r.time ∉ allocTimes news r.newAddr →
    Known news gcFiles f r ∨ Unknown news gcFiles f r

/-- Each file is in the order of its times, and no two records have the same time. -/
structure Stamped (gcFiles : List (List GCRecord)) : Prop where
  increasing : ∀ f ∈ gcFiles, f.Pairwise fun r r' => r.time < r'.time
  distinct : (gcFiles.flatten.map GCRecord.time).Nodup

lemma Stamped.perm {gcFiles gcFiles' : List (List GCRecord)} (h : Stamped gcFiles)
    (hperm : gcFiles'.Perm gcFiles) : Stamped gcFiles' :=
  ⟨fun f hf => h.increasing f (hperm.mem_iff.mp hf),
    (hperm.flatten.map _).nodup_iff.mpr h.distinct⟩

lemma Stamped.eq_of_time {gcFiles : List (List GCRecord)} (h : Stamped gcFiles)
    {r r' : GCRecord} (hr : r ∈ gcFiles.flatten) (hr' : r' ∈ gcFiles.flatten)
    (ht : r.time = r'.time) : r = r' :=
  List.inj_on_of_nodup_map h.distinct hr hr' ht

/-! ### The events of a replay -/

section Replay

variable (s : Store) (gcs : List GCRecord)

/-- The id that the record `r` of `gcs` stores. -/
def idIn (r : GCRecord) : ObjId :=
  ((gcs.takeWhile fun r' => r' ≠ r).foldl Store.addMove s).moveId r

/-- The event that the record `r` of `gcs` stores. -/
def eventIn (r : GCRecord) : Event := ⟨r.newAddr, r.time, idIn s gcs r⟩

variable {s gcs}

lemma takeWhile_ne_split {pre post : List GCRecord} {r : GCRecord} (hn : gcs.Nodup)
    (h : gcs = pre ++ r :: post) : (gcs.takeWhile fun r' => r' ≠ r) = pre := by
  have hr : r ∉ pre := by
    rw [h] at hn
    exact fun hm => (List.nodup_append.mp hn).2.2 r hm r (by simp) rfl
  rw [h, List.takeWhile_append_of_pos, List.takeWhile_cons_of_neg (by simp), List.append_nil]
  intro x hx
  simpa using fun e : x = r => hr (e ▸ hx)

lemma idIn_eq {pre post : List GCRecord} {r : GCRecord} (hn : gcs.Nodup)
    (h : gcs = pre ++ r :: post) : idIn s gcs r = (pre.foldl Store.addMove s).moveId r := by
  rw [idIn, takeWhile_ne_split hn h]

theorem events_foldl_addMove {pre post : List GCRecord} (hn : gcs.Nodup) (h : gcs = pre ++ post) :
    (pre.foldl Store.addMove s).events = s.events ++ pre.map (eventIn s gcs) := by
  induction pre using List.reverseRecOn generalizing post with
  | nil => simp
  | append_singleton pre r ih =>
    have h' : gcs = pre ++ r :: post := by rw [h]; simp
    rw [List.foldl_append, List.foldl_cons, List.foldl_nil, Store.addMove_events, ih h',
      List.map_append, List.map_singleton, eventIn, idIn_eq hn h', List.append_assoc]

lemma eventsAt_map_eventIn (pre : List GCRecord) (a : Addr) :
    eventsAt (pre.map (eventIn s gcs)) a =
      (pre.filter fun r => r.newAddr = a).map fun r => (r.time, idIn s gcs r) := by
  induction pre with
  | nil => rfl
  | cons r pre ih =>
    rw [List.map_cons, eventsAt_cons, ih, List.filter_cons]
    by_cases ha : r.newAddr = a <;> simp [eventIn, ha]

lemma curId_foldl_addMove (s : Store) (gcs : List GCRecord)
    (h : s.curId.toNat + gcs.length < 2 ^ 32) :
    s.curId.toNat ≤ (gcs.foldl Store.addMove s).curId.toNat ∧
      (gcs.foldl Store.addMove s).curId.toNat ≤ s.curId.toNat + gcs.length := by
  induction gcs generalizing s with
  | nil => simp
  | cons r gcs ih =>
    rw [List.length_cons] at h
    have hc : s.curId.toNat ≤ (s.addMove r).curId.toNat ∧
        (s.addMove r).curId.toNat ≤ s.curId.toNat + 1 := by
      rw [Store.addMove_curId]
      split
      · rw [UInt32.toNat_add, UInt32.toNat_one]
        omega
      · omega
    have := ih (s.addMove r) (by omega)
    rw [List.foldl_cons, List.length_cons]
    omega

end Replay

/-! ### The allocations -/

section Allocated

variable (news : List NewRecord)

/-- The store after the allocations. -/
def allocated : Store := news.foldl Store.addNew Store.init

lemma map_fst_eventsAt_newEvents (c : ObjId) (a : Addr) :
    (eventsAt (newEvents c news) a).map Prod.fst =
      (news.filter fun r => r.addr = a).map NewRecord.time := by
  induction news generalizing c with
  | nil => rfl
  | cons r news ih =>
    rw [newEvents_cons, eventsAt_cons, List.map_append, ih, List.filter_cons]
    by_cases ha : r.addr = a <;> simp [ha]

lemma map_fst_eventsAt_allocated (a : Addr) :
    (eventsAt (allocated news).events a).map Prod.fst = allocTimes news a := by
  rw [allocated, foldl_addNew_init]
  simp only [eventsAt_cons, List.map_append, map_fst_eventsAt_newEvents, allocTimes]
  congr 1
  by_cases ha : a = 0
  · simp [ha]
  · simp [ha, Ne.symm ha]

variable {news}

lemma mem_allocTimes {a : Addr} {t : Time} :
    t ∈ allocTimes news a ↔ ∃ i, (t, i) ∈ eventsAt (allocated news).events a := by
  rw [← map_fst_eventsAt_allocated]
  simp

lemma allocated_unmasked (h : news.length < 2 ^ 31 - 1) {a : Addr} {p : Time × ObjId}
    (hp : p ∈ eventsAt (allocated news).events a) : p.2 &&& gcMask = 0 := by
  rw [mem_eventsAt, allocated, foldl_addNew_init] at hp
  rcases List.mem_cons.mp hp with hp | hp
  · simp only [Event.mk.injEq] at hp
    rw [hp.2.2]
    rfl
  · obtain ⟨i, r, hi, hp⟩ := mem_newEvents.mp hp
    simp only [Event.mk.injEq] at hp
    have := (List.getElem?_eq_some_iff.mp hi).1
    rw [hp.2.2]
    exact newId_and_gcMask (by omega)

lemma allocated_curId (news : List NewRecord) (h : news.length < 2 ^ 31 - 1) :
    (allocated news).curId.toNat = news.length + 1 := by
  rw [allocated, foldl_addNew_init]
  exact newId_toNat (by omega)

lemma eventsAt_foldl_addMove (s : Store) (gcs : List GCRecord) (a : Addr) :
    ∃ l, eventsAt (gcs.foldl Store.addMove s).events a = eventsAt s.events a ++ l ∧
      l.map Prod.fst = moveTimes gcs a := by
  induction gcs generalizing s with
  | nil => exact ⟨[], by simp, rfl⟩
  | cons r gcs ih =>
    obtain ⟨l, hl, htimes⟩ := ih (s.addMove r)
    rw [Store.addMove_events, eventsAt_append, List.append_assoc] at hl
    refine ⟨_, hl, ?_⟩
    rw [List.map_append, htimes, eventsAt_cons, moveTimes, moveTimes, List.filter_cons]
    by_cases ha : r.newAddr = a <;> simp [ha]

end Allocated

/-! ### What a record resolves to -/

section Lookup

variable {news : List NewRecord} {gcFiles : List (List GCRecord)} {f : List GCRecord}
  {r : GCRecord} {pre post : List GCRecord}

lemma exists_position (hst : Stamped gcFiles) (hf : f ∈ gcFiles) (hr : r ∈ f)
    (h : gcFiles.flatten = pre ++ r :: post) :
    ∃ as own c ds, gcFiles = as ++ f :: ds ∧ f = own ++ r :: c ∧ pre = as.flatten ++ own := by
  obtain ⟨as, own, c, ds, hsplit, hpre⟩ := flatten_split h
  have hmem : own ++ r :: c ∈ gcFiles := by rw [hsplit]; simp
  have hdis := (List.nodup_flatten.mp (List.Nodup.of_map _ hst.distinct)).2
  have heq : f = own ++ r :: c := by
    by_contra hne
    have : Std.Symm (List.Disjoint (α := GCRecord)) := ⟨fun _ _ h => h.symm⟩
    exact hdis.forall hf hmem hne hr (by simp)
  exact ⟨as, own, c, ds, heq ▸ hsplit, heq, hpre⟩

/-- A record that is read before `r` is a record of the own file that is earlier, or a record of
another file, all of which is read before `r`. -/
lemma mem_before (hst : Stamped gcFiles) (hf : f ∈ gcFiles) (hr : r ∈ f)
    (h : gcFiles.flatten = pre ++ r :: post) {r' : GCRecord} (hr' : r' ∈ pre) :
    r'.time ≠ r.time ∧ (r' ∈ f ∧ r'.time < r.time ∨
      ∃ g ∈ gcFiles, g ≠ f ∧ r' ∈ g ∧ g.Sublist pre) := by
  have hn := List.Nodup.of_map _ hst.distinct
  obtain ⟨as, own, c, ds, hsplit, hfs, rfl⟩ := exists_position hst hf hr h
  have hne : r' ≠ r := by
    rintro rfl
    rw [h] at hn
    exact (List.nodup_append.mp hn).2.2 r' hr' r' (by simp) rfl
  have hin : r' ∈ gcFiles.flatten := by rw [h]; exact List.mem_append_left _ hr'
  have hin' : r ∈ gcFiles.flatten := List.mem_flatten.mpr ⟨f, hf, hr⟩
  refine ⟨fun ht => hne (hst.eq_of_time hin hin' ht), ?_⟩
  rcases List.mem_append.mp hr' with hr' | hr'
  · obtain ⟨g, hg, hrg⟩ := List.mem_flatten.mp hr'
    refine Or.inr ⟨g, by rw [hsplit]; exact List.mem_append_left _ hg, ?_, hrg,
      (List.sublist_flatten_of_mem hg).trans (List.sublist_append_left ..)⟩
    rintro rfl
    have hdis := (List.nodup_flatten.mp hn).2
    rw [hsplit] at hdis
    exact (List.pairwise_append.mp hdis).2.2 g hg g (by simp) hrg hrg
  · have hlt := hst.increasing f hf
    rw [hfs] at hlt
    exact Or.inl ⟨by rw [hfs]; exact List.mem_append_left _ hr',
      (List.pairwise_append.mp hlt).2.2 r' hr' r (by simp)⟩

lemma mem_before_of_lt (hst : Stamped gcFiles) (hf : f ∈ gcFiles) (hr : r ∈ f)
    (h : gcFiles.flatten = pre ++ r :: post) {r' : GCRecord} (hr' : r' ∈ f)
    (hlt : r'.time < r.time) : r' ∈ pre := by
  obtain ⟨as, own, c, ds, -, hfs, rfl⟩ := exists_position hst hf hr h
  have hinc := hst.increasing f hf
  rw [hfs] at hr' hinc
  refine List.mem_append_right _ ((List.mem_append.mp hr').resolve_right fun hc => ?_)
  rcases List.mem_cons.mp hc with rfl | hc
  · exact lt_irrefl _ hlt
  · exact lt_asymm hlt ((List.pairwise_cons.mp (List.pairwise_append.mp hinc).2.1).1 r' hc)

/-- In some order of the files the records read are `gcs`, the ones before `r` being `pre`. -/
def ReadBefore (gcFiles : List (List GCRecord)) (r : GCRecord) (gcs pre : List GCRecord) : Prop :=
  ∃ (gcFiles' : List (List GCRecord)) (post : List GCRecord), gcFiles'.Perm gcFiles ∧
    gcFiles'.flatten = gcs ∧ gcs = pre ++ r :: post

variable {gcs : List GCRecord}

lemma ReadBefore.times (hst : Stamped gcFiles) (hb : ReadBefore gcFiles r gcs pre) :
    (gcs.map GCRecord.time).Nodup := by
  obtain ⟨gcFiles', post, hperm, rfl, -⟩ := hb
  exact (hst.perm hperm).distinct

lemma ReadBefore.eventsAt (hst : Stamped gcFiles) (hb : ReadBefore gcFiles r gcs pre) (s : Store)
    (a : Addr) : eventsAt (pre.foldl Store.addMove s).events a = eventsAt s.events a ++
      (pre.filter fun r => r.newAddr = a).map fun r => (r.time, idIn s gcs r) := by
  have hn := List.Nodup.of_map _ (hb.times hst)
  obtain ⟨gcFiles', post, -, -, h⟩ := hb
  rw [events_foldl_addMove hn h, eventsAt_append, eventsAt_map_eventIn]

lemma ReadBefore.ne_of_mem (hst : Stamped gcFiles) (hf : f ∈ gcFiles) (hr : r ∈ f)
    (hb : ReadBefore gcFiles r gcs pre) {r' : GCRecord} (hr' : r' ∈ pre) :
    r'.time ≠ r.time ∧ r'.time ∈ moveTimes gcFiles.flatten r'.newAddr := by
  obtain ⟨gcFiles', post, hperm, rfl, h⟩ := hb
  refine ⟨(mem_before (hst.perm hperm) (hperm.mem_iff.mpr hf) hr h hr').1, ?_⟩
  have hin : r' ∈ gcFiles.flatten := hperm.flatten.mem_iff.mp (by rw [h]; simp [hr'])
  exact List.mem_map.mpr ⟨r', List.mem_filter.mpr ⟨hin, by simp⟩, rfl⟩

lemma ReadBefore.lookup (hst : Stamped gcFiles) (hb : ReadBefore gcFiles r gcs pre) (s : Store)
    {r' : GCRecord} (hr' : r' ∈ pre) :
    ((pre.filter fun r => r.newAddr = r'.newAddr).map fun r => (r.time, idIn s gcs r)).lookup
      r'.time = some (idIn s gcs r') := by
  have hn := hb.times hst
  obtain ⟨gcFiles', post, -, -, h⟩ := hb
  have hsub : (pre.filter fun r => r.newAddr = r'.newAddr).Sublist gcs :=
    List.filter_sublist.trans (h ▸ List.sublist_append_left ..)
  rw [lookup_eq_some_iff_mem
    (List.pairwise_map.mpr (List.pairwise_map.mp (hn.sublist (hsub.map _))))]
  exact List.mem_map.mpr ⟨r', List.mem_filter.mpr ⟨hr', by simp⟩, rfl⟩

/-- When every other file puts no event or several ones at an address where all is later than `r`,
then so do the records read before `r`. -/
lemma ReadBefore.length_ne_one (hst : Stamped gcFiles) (hf : f ∈ gcFiles) (hr : r ∈ f)
    (hb : ReadBefore gcFiles r gcs pre) {a : Addr}
    (hlater : ∀ t ∈ moveTimes gcFiles.flatten a, r.time ≤ t)
    (hother : ∀ g ∈ gcFiles, g ≠ f → (moveTimes g a).length ≠ 1) :
    (pre.filter fun r => r.newAddr = a).length ≠ 1 := by
  intro hone
  obtain ⟨r', hr'⟩ := List.length_eq_one_iff.mp hone
  obtain ⟨hpre, ha⟩ := List.mem_filter.mp (show r' ∈ pre.filter _ by rw [hr']; simp)
  have ha' : r'.newAddr = a := by simpa using ha
  have hle := hlater r'.time (ha' ▸ (hb.ne_of_mem hst hf hr hpre).2)
  obtain ⟨gcFiles', post, hperm, rfl, h⟩ := hb
  rcases (mem_before (hst.perm hperm) (hperm.mem_iff.mpr hf) hr h hpre).2 with
    ⟨-, hlt⟩ | ⟨g, hg, hne, hrg, hsub⟩
  · exact absurd hle (not_le.mpr hlt)
  · -- the file of `r'` is read as a whole, so `r'` is the only event it puts there
    refine hother g (hperm.mem_iff.mp hg) hne ?_
    have hle := (hsub.filter fun r => decide (r.newAddr = a)).length_le
    have hpos : 0 < (g.filter fun r => r.newAddr = a).length :=
      List.length_pos_of_mem (List.mem_filter.mpr ⟨hrg, ha⟩)
    rw [moveTimes, List.length_map]
    omega

lemma ReadBefore.filter_eq_nil (hst : Stamped gcFiles) (hf : f ∈ gcFiles) (hr : r ∈ f)
    (hb : ReadBefore gcFiles r gcs pre) {a : Addr}
    (hlater : ∀ t ∈ moveTimes gcFiles.flatten a, r.time ≤ t)
    (hother : ∀ g ∈ gcFiles, g ≠ f → moveTimes g a = []) :
    (pre.filter fun r => r.newAddr = a) = [] := by
  refine List.filter_eq_nil_iff.mpr fun r' hr' ha => ?_
  have ha' : r'.newAddr = a := by simpa using ha
  have hle := hlater r'.time (ha' ▸ (hb.ne_of_mem hst hf hr hr').2)
  obtain ⟨gcFiles', post, hperm, rfl, h⟩ := hb
  rcases (mem_before (hst.perm hperm) (hperm.mem_iff.mpr hf) hr h hr').2 with
    ⟨-, hlt⟩ | ⟨g, hg, hne, hrg, -⟩
  · exact absurd hle (not_le.mpr hlt)
  · have hnil := hother g (hperm.mem_iff.mp hg) hne
    have hmem : r'.time ∈ moveTimes g a :=
      List.mem_map.mpr ⟨r', List.mem_filter.mpr ⟨hrg, ha⟩, rfl⟩
    rw [hnil] at hmem
    cases hmem

/-- Nothing that is read before `r` lies between the latest event of `Known` and `r`. -/
lemma ReadBefore.le_latest (hst : Stamped gcFiles) (hf : f ∈ gcFiles) (hr : r ∈ f)
    (hb : ReadBefore gcFiles r gcs pre) {s : Time}
    (halloc : ∀ s' ∈ allocTimes news r.orgAddr, s' ≤ r.time → s' ≤ s)
    (hmove : ∀ s' ∈ moveTimes gcFiles.flatten r.orgAddr, s' < r.time → s' ≤ s) :
    ∀ p ∈ Addr.eventsAt (pre.foldl Store.addMove (allocated news)).events r.orgAddr,
      p.1 ≤ r.time → p.1 ≤ s := by
  intro p hp hpt
  rw [hb.eventsAt hst] at hp
  rcases List.mem_append.mp hp with hp | hp
  · exact halloc p.1 (mem_allocTimes.mpr ⟨p.2, hp⟩) hpt
  · obtain ⟨r', hr', rfl⟩ := List.mem_map.mp hp
    obtain ⟨hr', ha⟩ := List.mem_filter.mp hr'
    obtain ⟨hne, hin⟩ := hb.ne_of_mem hst hf hr hr'
    rw [show r'.newAddr = r.orgAddr by simpa using ha] at hin
    exact hmove _ hin (lt_of_le_of_ne hpt hne)

lemma ReadBefore.query_unknown (hst : Stamped gcFiles) (hf : f ∈ gcFiles) (hr : r ∈ f)
    (hb : ReadBefore gcFiles r gcs pre) (hun : Unknown news gcFiles f r) :
    (pre.foldl Store.addMove (allocated news)).query r.orgAddr r.time =
      resolve (Addr.eventsAt (allocated news).events r.orgAddr) r.time := by
  obtain ⟨halloc, hmove, hsingle⟩ := hun
  rw [Store.query, hb.eventsAt hst]
  have hlaterAlloc : ∀ p ∈ Addr.eventsAt (allocated news).events r.orgAddr, r.time < p.1 :=
    fun p hp => halloc p.1 (mem_allocTimes.mpr ⟨p.2, hp⟩)
  have hlater : ∀ p ∈ (pre.filter fun r' => r'.newAddr = r.orgAddr).map
      fun r' => (r'.time, idIn (allocated news) gcs r'), r.time < p.1 := by
    intro p hp
    obtain ⟨r', hr', rfl⟩ := List.mem_map.mp hp
    obtain ⟨hr', ha⟩ := List.mem_filter.mp hr'
    obtain ⟨hne, hin⟩ := hb.ne_of_mem hst hf hr hr'
    rw [show r'.newAddr = r.orgAddr by simpa using ha] at hin
    exact lt_of_le_of_ne (hmove _ hin) (Ne.symm hne)
  rcases hsingle with htwo | hnone | ⟨hempty, hother⟩
  · have hlen₂ : 2 ≤ (Addr.eventsAt (allocated news).events r.orgAddr).length := by
      rwa [← map_fst_eventsAt_allocated, List.length_map] at htwo
    rw [resolve_eq_notFound (by omega) hlaterAlloc]
    refine resolve_eq_notFound (by rw [List.length_append]; omega) fun p hp => ?_
    exact (List.mem_append.mp hp).elim (hlaterAlloc p) (hlater p)
  · rw [hb.filter_eq_nil hst hf hr hmove hnone, List.map_nil, List.append_nil]
  · have hnil : Addr.eventsAt (allocated news).events r.orgAddr = [] := by
      rwa [← map_fst_eventsAt_allocated, List.map_eq_nil_iff] at hempty
    rw [hnil, List.nil_append, resolve_eq_notFound ?_ hlater]
    · rfl
    · rw [List.length_map]
      exact hb.length_ne_one hst hf hr hmove hother

/-- **What a record resolves to does not depend on the other files**: always the same id or no id,
or always the id of the same earlier record of its own file. -/
theorem lookup_home (hst : Stamped gcFiles) (hlen : news.length < 2 ^ 31 - 1) (hf : f ∈ gcFiles)
    (hr : r ∈ f) (hsettled : Known news gcFiles f r ∨ Unknown news gcFiles f r) :
    (∃ x, (x = notFound ∨ x &&& gcMask = 0) ∧ ∀ gcs pre, ReadBefore gcFiles r gcs pre →
      (pre.foldl Store.addMove (allocated news)).query r.orgAddr r.time = x) ∨
    ∃ r' ∈ f, r'.time < r.time ∧ r'.time ∉ allocTimes news r'.newAddr ∧
      ∀ gcs pre, ReadBefore gcFiles r gcs pre →
        (pre.foldl Store.addMove (allocated news)).query r.orgAddr r.time =
          idIn (allocated news) gcs r' := by
  rcases hsettled with ⟨s, hle, hs, halloc, hmove⟩ | hun
  · by_cases hsa : s ∈ allocTimes news r.orgAddr
    · obtain ⟨i, hi⟩ := mem_allocTimes.mp hsa
      obtain ⟨x, hx⟩ : ∃ x, (eventsAt (allocated news).events r.orgAddr).lookup s = some x := by
        refine Option.ne_none_iff_exists'.mp fun hnone => ?_
        simpa using List.lookup_eq_none_iff.mp hnone _ hi
      refine Or.inl ⟨x, Or.inr (allocated_unmasked hlen (OrdMap.mem_of_lookup hx)), ?_⟩
      intro gcs pre hb
      refine resolve_eq_lookup ?_ hle (hb.le_latest hst hf hr halloc hmove)
      rw [hb.eventsAt hst, List.lookup_append, hx]
      rfl
    · obtain ⟨hsm, hlt⟩ := hs.resolve_left hsa
      obtain ⟨r', hr', rfl⟩ := List.mem_map.mp hsm
      obtain ⟨hrf, ha⟩ := List.mem_filter.mp hr'
      have ha' : r'.newAddr = r.orgAddr := by simpa using ha
      refine Or.inr ⟨r', hrf, hlt, by rw [ha']; exact hsa, ?_⟩
      intro gcs pre hb
      have hpre : r' ∈ pre := by
        obtain ⟨gcFiles', post, hperm, rfl, h⟩ := hb
        exact mem_before_of_lt (hst.perm hperm) (hperm.mem_iff.mpr hf) hr h hrf hlt
      have hbase : (eventsAt (allocated news).events r.orgAddr).lookup r'.time = none := by
        rw [List.lookup_eq_none_iff]
        intro p hp
        simpa using fun e : r'.time = p.1 => hsa (mem_allocTimes.mpr ⟨p.2, e ▸ hp⟩)
      refine resolve_eq_lookup ?_ hle (hb.le_latest hst hf hr halloc hmove)
      rw [hb.eventsAt hst, List.lookup_append, hbase, Option.none_or, ← ha']
      exact hb.lookup hst _ hpre
  · refine Or.inl ⟨resolve (eventsAt (allocated news).events r.orgAddr) r.time, ?_,
      fun gcs pre hb => hb.query_unknown hst hf hr hun⟩
    rcases resolve_mem (l := eventsAt (allocated news).events r.orgAddr) (t := r.time) with
      hx | ⟨p, hp, hx⟩
    · exact Or.inl hx
    · exact Or.inr (hx ▸ allocated_unmasked hlen hp)

end Lookup

/-! ### The ids of two orders -/

section Renaming

variable {news : List NewRecord} {gcFiles : List (List GCRecord)} {gcs : List GCRecord}

/-- The record `r` gets a new id when the records are `gcs`. -/
def Fresh (news : List NewRecord) (gcs : List GCRecord) (r : GCRecord) : Prop :=
  ∃ pre post, gcs = pre ++ r :: post ∧
    (pre.foldl Store.addMove (allocated news)).query r.orgAddr r.time = notFound

lemma Fresh.idIn_eq (hn : gcs.Nodup) {r : GCRecord} {pre post : List GCRecord}
    (h : gcs = pre ++ r :: post)
    (hq : (pre.foldl Store.addMove (allocated news)).query r.orgAddr r.time = notFound) :
    idIn (allocated news) gcs r =
      (pre.foldl Store.addMove (allocated news)).curId ||| gcMask := by
  rw [Addr.idIn_eq hn h, Store.moveId, if_pos hq]

lemma curId_lt (hlen : news.length + gcs.length < 2 ^ 31 - 1) {pre post : List GCRecord}
    (h : gcs = pre ++ post) :
    (pre.foldl Store.addMove (allocated news)).curId.toNat ≤ news.length + 1 + pre.length := by
  have hc := allocated_curId news (by omega)
  have hp : pre.length ≤ gcs.length := by rw [h]; simp
  have := curId_foldl_addMove (allocated news) pre (by omega)
  omega

/-- Different records get different new ids. -/
theorem Fresh.inj (hn : gcs.Nodup) (hlen : news.length + gcs.length < 2 ^ 31 - 1)
    {r r' : GCRecord} (hr : Fresh news gcs r) (hr' : Fresh news gcs r')
    (heq : idIn (allocated news) gcs r = idIn (allocated news) gcs r') : r = r' := by
  -- the counter goes up at a fresh record, so the id of a later one is larger
  have hlt : ∀ (r r' : GCRecord) (pre pre' post post' l : List GCRecord), gcs = pre ++ r :: post →
      gcs = pre' ++ r' :: post' → pre' = pre ++ r :: l →
      (pre.foldl Store.addMove (allocated news)).query r.orgAddr r.time = notFound →
      (pre.foldl Store.addMove (allocated news)).curId.toNat <
        (pre'.foldl Store.addMove (allocated news)).curId.toNat := by
    intro r r' pre pre' post post' l h h' hl hq
    have hb := curId_lt hlen h
    have hlpre : (pre ++ r :: l).length ≤ gcs.length := by rw [h', ← hl]; simp
    simp only [List.length_append, List.length_cons] at hlpre
    have hstep : ((pre.foldl Store.addMove (allocated news)).addMove r).curId.toNat =
        (pre.foldl Store.addMove (allocated news)).curId.toNat + 1 := by
      rw [Store.addMove_curId, if_pos hq, UInt32.toNat_add, UInt32.toNat_one]
      omega
    have := curId_foldl_addMove ((pre.foldl Store.addMove (allocated news)).addMove r) l (by omega)
    rw [hl, List.foldl_append, List.foldl_cons]
    omega
  obtain ⟨pre, post, h, hq⟩ := hr
  obtain ⟨pre', post', h', hq'⟩ := hr'
  have hb := curId_lt hlen h
  have hb' := curId_lt hlen h'
  have hp : pre.length ≤ gcs.length := by rw [h]; simp
  have hp' : pre'.length ≤ gcs.length := by rw [h']; simp
  have hval := congrArg UInt32.toNat heq
  rw [Fresh.idIn_eq hn h hq, Fresh.idIn_eq hn h' hq', or_gcMask_toNat (by omega),
    or_gcMask_toNat (by omega)] at hval
  rcases split_cases (h.symm.trans h') with ⟨-, rfl, -⟩ | ⟨l, hl, -⟩ | ⟨l, hl, -⟩
  · rfl
  · have := hlt r' r pre' pre post' post l h' h hl hq'
    omega
  · have := hlt r r' pre pre' post post' l h h' hl hq
    omega

lemma idIn_ne_notFound (hn : gcs.Nodup) (hlen : news.length + gcs.length < 2 ^ 31 - 1)
    {r : GCRecord} (hr : r ∈ gcs) : idIn (allocated news) gcs r ≠ notFound := by
  obtain ⟨pre, post, h⟩ := List.append_of_mem hr
  rw [idIn_eq hn h, Store.moveId]
  split
  · have hb := curId_lt hlen h
    have hp : pre.length < gcs.length := by rw [h]; simp
    intro heq
    have hval := congrArg UInt32.toNat heq
    rw [or_gcMask_toNat (by omega), show notFound.toNat = 2 ^ 32 - 1 from rfl] at hval
    omega
  · assumption

/-- Two orders of the files: a record stores an id without mask that is the same in both, or in both
the new id of one record. -/
theorem same_root (hst : Stamped gcFiles) (hind : Independent news gcFiles)
    (hlen : news.length + gcFiles.flatten.length < 2 ^ 31 - 1) {fs fs' : List (List GCRecord)}
    (hfs : fs.Perm gcFiles) (hfs' : fs'.Perm gcFiles) (r : GCRecord) (hr : r ∈ gcFiles.flatten)
    (hvis : r.time ∉ allocTimes news r.newAddr) :
    (∃ x, x &&& gcMask = 0 ∧ idIn (allocated news) fs.flatten r = x ∧
      idIn (allocated news) fs'.flatten r = x) ∨
    ∃ r₀ ∈ gcFiles.flatten, Fresh news fs.flatten r₀ ∧ Fresh news fs'.flatten r₀ ∧
      idIn (allocated news) fs.flatten r = idIn (allocated news) fs.flatten r₀ ∧
      idIn (allocated news) fs'.flatten r = idIn (allocated news) fs'.flatten r₀ := by
  induction hk : r.time.toNat using Nat.strong_induction_on generalizing r with
  | _ k ih =>
    have hn := List.Nodup.of_map _ (hst.perm hfs).distinct
    have hn' := List.Nodup.of_map _ (hst.perm hfs').distinct
    obtain ⟨f, hf, hrf⟩ := List.mem_flatten.mp hr
    obtain ⟨pre, post, h⟩ := List.append_of_mem (hfs.flatten.mem_iff.mpr hr)
    obtain ⟨pre', post', h'⟩ := List.append_of_mem (hfs'.flatten.mem_iff.mpr hr)
    have hb : ReadBefore gcFiles r fs.flatten pre := ⟨fs, post, hfs, rfl, h⟩
    have hb' : ReadBefore gcFiles r fs'.flatten pre' := ⟨fs', post', hfs', rfl, h'⟩
    rcases lookup_home hst (by omega) hf hrf (hind f hf r hrf hvis) with
      ⟨x, hx, hq⟩ | ⟨r', hrf', hlt, hvis', hq⟩
    · by_cases hxn : x = notFound
      · exact Or.inr ⟨r, hr, ⟨pre, post, h, by rw [hq _ _ hb, hxn]⟩,
          ⟨pre', post', h', by rw [hq _ _ hb', hxn]⟩, rfl, rfl⟩
      · refine Or.inl ⟨x, hx.resolve_left hxn, ?_, ?_⟩
        · rw [idIn_eq hn h, Store.moveId, hq _ _ hb, if_neg hxn]
        · rw [idIn_eq hn' h', Store.moveId, hq _ _ hb', if_neg hxn]
    · have hr' : r' ∈ gcFiles.flatten := List.mem_flatten.mpr ⟨f, hf, hrf'⟩
      have hid : idIn (allocated news) fs.flatten r = idIn (allocated news) fs.flatten r' := by
        rw [idIn_eq hn h, Store.moveId, hq _ _ hb, if_neg]
        exact idIn_ne_notFound hn (by rwa [hfs.flatten.length_eq]) (hfs.flatten.mem_iff.mpr hr')
      have hid' : idIn (allocated news) fs'.flatten r = idIn (allocated news) fs'.flatten r' := by
        rw [idIn_eq hn' h', Store.moveId, hq _ _ hb', if_neg]
        exact idIn_ne_notFound hn' (by rwa [hfs'.flatten.length_eq])
          (hfs'.flatten.mem_iff.mpr hr')
      rw [hid, hid']
      exact ih r'.time.toNat (hk ▸ UInt64.lt_iff_toNat_lt.mp hlt) r' hr' hvis' rfl

/-- The new ids of two orders differ by a renaming of masked ids. -/
theorem exists_gcRenaming (hst : Stamped gcFiles) (hind : Independent news gcFiles)
    (hlen : news.length + gcFiles.flatten.length < 2 ^ 31 - 1) {fs fs' : List (List GCRecord)}
    (hfs : fs.Perm gcFiles) (hfs' : fs'.Perm gcFiles) :
    ∃ π : Equiv.Perm ObjId, π notFound = notFound ∧ (∀ i, i &&& gcMask = 0 → π i = i) ∧
      ∀ r ∈ gcFiles.flatten, r.time ∉ allocTimes news r.newAddr →
        idIn (allocated news) fs'.flatten r = π (idIn (allocated news) fs.flatten r) := by
  classical
  have hn := List.Nodup.of_map _ (hst.perm hfs).distinct
  have hn' := List.Nodup.of_map _ (hst.perm hfs').distinct
  have hl : news.length + fs.flatten.length < 2 ^ 31 - 1 := by rwa [hfs.flatten.length_eq]
  have hl' : news.length + fs'.flatten.length < 2 ^ 31 - 1 := by rwa [hfs'.flatten.length_eq]
  set roots := gcFiles.flatten.filter fun r => Fresh news fs.flatten r ∧ Fresh news fs'.flatten r
    with hroots
  have hmem : ∀ r, r ∈ roots ↔ r ∈ gcFiles.flatten ∧ Fresh news fs.flatten r ∧
      Fresh news fs'.flatten r := by
    intro r
    rw [hroots, List.mem_filter, decide_eq_true_eq]
  have hnr : roots.Nodup := (List.Nodup.of_map _ hst.distinct).filter _
  have hids : (roots.map (idIn (allocated news) fs.flatten)).Nodup :=
    hnr.map_on fun r hr r' hr' => ((hmem r).mp hr).2.1.inj hn hl ((hmem r').mp hr').2.1
  have hids' : (roots.map (idIn (allocated news) fs'.flatten)).Nodup :=
    hnr.map_on fun r hr r' hr' => ((hmem r).mp hr).2.2.inj hn' hl' ((hmem r').mp hr').2.2
  obtain ⟨π, hmap, hfix⟩ := exists_perm_map_eq hids hids' (by simp)
  have hπ : ∀ r ∈ roots, π (idIn (allocated news) fs.flatten r) =
      idIn (allocated news) fs'.flatten r := by
    rw [List.map_map] at hmap
    exact List.map_inj_left.mp hmap
  -- the new ids are masked and are not the answer for an unknown address
  have hid : ∀ gs : List (List GCRecord), gs.Perm gcFiles →
      ∀ i ∈ roots.map (idIn (allocated news) gs.flatten), i ≠ notFound := by
    intro gs hgs i hi
    obtain ⟨r, hr, rfl⟩ := List.mem_map.mp hi
    exact idIn_ne_notFound (List.Nodup.of_map _ (hst.perm hgs).distinct)
      (by rwa [hgs.flatten.length_eq]) (hgs.flatten.mem_iff.mpr ((hmem r).mp hr).1)
  have hunmasked : ∀ i : ObjId, i &&& gcMask = 0 → π i = i := by
    intro i hi
    refine hfix i (fun hm => ?_) fun hm => ?_
    · obtain ⟨r, hr, rfl⟩ := List.mem_map.mp hm
      obtain ⟨pre, post, h, hq⟩ := ((hmem r).mp hr).2.1
      rw [Fresh.idIn_eq hn h hq] at hi
      exact or_gcMask_and _ hi
    · obtain ⟨r, hr, rfl⟩ := List.mem_map.mp hm
      obtain ⟨pre, post, h, hq⟩ := ((hmem r).mp hr).2.2
      rw [Fresh.idIn_eq hn' h hq] at hi
      exact or_gcMask_and _ hi
  refine ⟨π, hfix _ (fun hm => hid fs hfs _ hm rfl) (fun hm => hid fs' hfs' _ hm rfl), hunmasked,
    fun r hr hvis => ?_⟩
  rcases same_root hst hind hlen hfs hfs' r hr hvis with
    ⟨x, hx, hxr, hxr'⟩ | ⟨r₀, hr₀, hf, hf', he, he'⟩
  · rw [hxr, hxr', hunmasked x hx]
  · rw [he, he', hπ r₀ ((hmem r₀).mpr ⟨hr₀, hf, hf'⟩)]

lemma renamed_foldl_addMove (hst : Stamped gcFiles) (hlen : news.length < 2 ^ 31 - 1)
    {fs fs' : List (List GCRecord)} (hfs : fs.Perm gcFiles) (hfs' : fs'.Perm gcFiles)
    {π : ObjId → ObjId} (hunmasked : ∀ i, i &&& gcMask = 0 → π i = i)
    (hπ : ∀ r ∈ gcFiles.flatten, r.time ∉ allocTimes news r.newAddr →
      idIn (allocated news) fs'.flatten r = π (idIn (allocated news) fs.flatten r)) :
    Renamed π (fs.flatten.foldl Store.addMove (allocated news))
      (fs'.flatten.foldl Store.addMove (allocated news)) := by
  have hev : ∀ gs : List (List GCRecord), gs.Perm gcFiles → ∀ a,
      eventsAt (gs.flatten.foldl Store.addMove (allocated news)).events a =
        eventsAt (allocated news).events a ++ (gs.flatten.filter fun r => r.newAddr = a).map
          fun r => (r.time, idIn (allocated news) gs.flatten r) := by
    intro gs hgs a
    rw [events_foldl_addMove (List.Nodup.of_map _ (hst.perm hgs).distinct)
      (List.append_nil _).symm, eventsAt_append, eventsAt_map_eventIn]
  have hpw : ∀ gs : List (List GCRecord), gs.Perm gcFiles → ∀ a,
      ((gs.flatten.filter fun r => r.newAddr = a).map
        fun r => (r.time, idIn (allocated news) gs.flatten r)).Pairwise fun p q => p.1 ≠ q.1 := by
    intro gs hgs a
    exact List.pairwise_map.mpr (List.pairwise_map.mp
      ((hst.perm hgs).distinct.sublist (List.filter_sublist.map _)))
  constructor
  · intro a
    rw [hev fs hfs, hev fs' hfs']
    simp only [List.length_append, List.length_map]
    rw [((hfs'.trans hfs.symm).flatten.filter _).length_eq]
  · intro a k
    rw [hev fs hfs, hev fs' hfs', List.lookup_append, List.lookup_append, Option.map_or]
    cases hbase : (eventsAt (allocated news).events a).lookup k with
    | some i =>
      rw [Option.some_or, Option.map_some, Option.some_or,
        hunmasked i (allocated_unmasked hlen (OrdMap.mem_of_lookup hbase))]
    | none =>
      rw [Option.none_or, Option.map_none, Option.none_or]
      ext v
      simp only [Option.map_eq_some_iff, lookup_eq_some_iff_mem (hpw fs hfs a),
        lookup_eq_some_iff_mem (hpw fs' hfs' a), List.mem_map, List.mem_filter, Prod.mk.injEq]
      -- the record that puts an event at this address and time is not hidden by an allocation
      have hvis : ∀ r : GCRecord, decide (r.newAddr = a) = true → r.time = k →
          r.time ∉ allocTimes news r.newAddr := by
        intro r ha ht hm
        obtain ⟨i, hi⟩ := mem_allocTimes.mp hm
        rw [show r.newAddr = a by simpa using ha, ht] at hi
        simpa using List.lookup_eq_none_iff.mp hbase _ hi
      constructor
      · rintro ⟨r, ⟨hr, ha⟩, ht, rfl⟩
        have hin := hfs'.flatten.mem_iff.mp hr
        exact ⟨_, ⟨r, ⟨hfs.flatten.mem_iff.mpr hin, ha⟩, ht, rfl⟩,
          (hπ r hin (hvis r ha ht)).symm⟩
      · rintro ⟨_, ⟨r, ⟨hr, ha⟩, ht, rfl⟩, rfl⟩
        have hin := hfs.flatten.mem_iff.mp hr
        exact ⟨r, ⟨hfs'.flatten.mem_iff.mpr hin, ha⟩, ht, hπ r hin (hvis r ha ht)⟩

end Renaming

/-- Two orders of the gc files give maps that answer every query up to a renaming of masked ids. -/
def SameUpToGcIds (newFiles : List (List NewRecord)) (gcFiles gcFiles' : List (List GCRecord)) :
    Prop :=
  ∃ π : Equiv.Perm ObjId, (π notFound = notFound ∧ ∀ i, i &&& gcMask = 0 → π i = i) ∧
    ∀ a t, (AddrMap.buildAddrMap newFiles gcFiles').1.query a t =
      π ((AddrMap.buildAddrMap newFiles gcFiles).1.query a t)

/-- **The order of independent gc files only renames masked ids.** -/
theorem gcOrder_renames (newFiles : List (List NewRecord)) (gcFiles gcFiles' : List (List GCRecord))
    (hperm : gcFiles'.Perm gcFiles) (hst : Stamped gcFiles)
    (hlen : newFiles.flatten.length + gcFiles.flatten.length < 2 ^ 31 - 1)
    (hind : Independent newFiles.flatten gcFiles) : SameUpToGcIds newFiles gcFiles gcFiles' := by
  obtain ⟨π, hnf, hunmasked, hπ⟩ := exists_gcRenaming hst hind hlen (List.Perm.refl _) hperm
  refine ⟨π, ⟨hnf, hunmasked⟩, fun a t => ?_⟩
  rw [query_buildAddrMap, query_buildAddrMap]
  exact (renamed_foldl_addMove hst (by omega) (List.Perm.refl _) hperm hunmasked hπ).query hnf a t

/-- A chain of moves in one file; the other file moves another object and one that is not known. -/
theorem gcOrder_renames_two :
    SameUpToGcIds [[⟨1, 0, 0, 16, 8, 1⟩, ⟨1, 0, 0, 16, 24, 1⟩]]
      [[⟨8, 16, 2⟩, ⟨16, 32, 4⟩], [⟨24, 40, 3⟩, ⟨64, 48, 5⟩]]
      [[⟨24, 40, 3⟩, ⟨64, 48, 5⟩], [⟨8, 16, 2⟩, ⟨16, 32, 4⟩]] := by
  refine gcOrder_renames _ _ _ (by decide) ⟨by decide, by decide⟩ (by decide) ?_
  intro f hf r hr _
  rw [List.mem_pair] at hf
  rcases hf with rfl | rfl <;> rw [List.mem_pair] at hr <;> rcases hr with rfl | rfl
  · exact Or.inl ⟨1, by decide, by decide, by simp [allocTimes], by simp [moveTimes]⟩
  · exact Or.inl ⟨2, by decide, by decide, by simp [allocTimes], by simp [moveTimes]⟩
  · exact Or.inl ⟨1, by decide, by decide, by simp [allocTimes], by simp [moveTimes]⟩
  · exact Or.inr ⟨by simp [allocTimes], by simp [moveTimes], by decide⟩

/-- A chain of moves over two files: read in the other order, the second move does not know its
object. -/
theorem not_sameUpToGcIds_chain :
    Stamped [[⟨8, 16, 2⟩], [⟨16, 24, 3⟩]] ∧
      ¬ SameUpToGcIds [[⟨1, 0, 0, 16, 8, 1⟩]] [[⟨8, 16, 2⟩], [⟨16, 24, 3⟩]]
        [[⟨16, 24, 3⟩], [⟨8, 16, 2⟩]] := by
  refine ⟨⟨by decide, by decide⟩, ?_⟩
  rintro ⟨π, ⟨-, hunmasked⟩, hπ⟩
  have hquery := hπ 24 3
  rw [query_buildAddrMap, query_buildAddrMap] at hquery
  have hfirst : (Store.build [[⟨1, 0, 0, 16, 8, 1⟩]].flatten
      [[⟨8, 16, 2⟩], [⟨16, 24, 3⟩]].flatten).query 24 3 = 1 := by decide
  rw [hfirst, hunmasked 1 (by decide)] at hquery
  exact absurd hquery (by decide)

end Cinst.Addr
