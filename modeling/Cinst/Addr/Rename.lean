import Cinst.Addr.Store
import Cinst.Lib.Lists

/-!
The order of the NEW records only renames ids.

Ids come from one counter, so another order of the allocations hands every object another id. The
stores of the two runs are `Renamed`: every address holds the same number of events at the same
times, with the ids renamed by one permutation. A relocation keeps this (`Renamed.addMove`): it
reads an id in both stores and writes it back, or it makes a masked id from a counter that is the
same in both.
-/

namespace Cinst.Addr

open Cinst.Lib Cinst.Record

/-! ### The ids of allocations -/

/-- The id of the `i`-th NEW record. -/
def newId (i : ℕ) : ObjId := 1 + UInt32.ofNat i

lemma newId_toNat {i : ℕ} (h : i + 1 < 2 ^ 32) : (newId i).toNat = i + 1 := by
  rw [newId, UInt32.toNat_add, UInt32.toNat_ofNat']
  simp
  omega

lemma newId_inj {i j : ℕ} (hi : i + 1 < 2 ^ 32) (hj : j + 1 < 2 ^ 32) (h : newId i = newId j) :
    i = j := by
  have := congrArg UInt32.toNat h
  rw [newId_toNat hi, newId_toNat hj] at this
  omega

lemma and_gcMask_of_lt {c : ObjId} (h : c.toNat < 2 ^ 31) : c &&& gcMask = 0 := by
  apply UInt32.toNat_inj.mp
  apply Nat.eq_of_testBit_eq
  intro k
  rw [UInt32.toNat_and, show gcMask.toNat = 2 ^ 31 from rfl, Nat.testBit_and,
    Nat.testBit_two_pow]
  by_cases hk : 31 = k
  · subst hk
    simp [Nat.testBit_lt_two_pow h]
  · simp [hk]

lemma or_gcMask_and (c : ObjId) : (c ||| gcMask) &&& gcMask ≠ 0 := by
  have h : (c ||| gcMask) &&& gcMask = gcMask := by
    apply UInt32.eq_of_toBitVec_eq
    ext i hi
    simp
    tauto
  rw [h]
  decide

lemma or_gcMask_toNat {c : ObjId} (h : c.toNat < 2 ^ 31) :
    (c ||| gcMask).toNat = c.toNat + 2 ^ 31 := by
  have := Nat.two_pow_add_eq_or_of_lt h 1
  rw [Nat.mul_one] at this
  rw [UInt32.toNat_or, show gcMask.toNat = 2 ^ 31 from rfl, Nat.or_comm]
  omega

lemma newId_and_gcMask {i : ℕ} (h : i + 1 < 2 ^ 31) : newId i &&& gcMask = 0 :=
  and_gcMask_of_lt (by rw [newId_toNat (by omega)]; exact h)

/-! ### Stores that differ by a renaming -/

/-- `s'` is `s` with the ids renamed by `π`, whatever the order of the events. -/
structure Renamed (π : ObjId → ObjId) (s s' : Store) : Prop where
  length : ∀ a, (eventsAt s'.events a).length = (eventsAt s.events a).length
  lookup : ∀ a k, (eventsAt s'.events a).lookup k = ((eventsAt s.events a).lookup k).map π

namespace Renamed

variable {π : ObjId → ObjId} {s s' : Store}

theorem query (h : Renamed π s s') (hπ : π notFound = notFound) (a : Addr) (t : Time) :
    s'.query a t = π (s.query a t) :=
  resolve_map π hπ (h.length a) (h.lookup a)

/-- The same event with the id renamed is stored in both. -/
theorem append (h : Renamed π s s') (a : Addr) (t : Time) (i c c' : ObjId) :
    Renamed π ⟨s.events ++ [⟨a, t, i⟩], c⟩ ⟨s'.events ++ [⟨a, t, π i⟩], c'⟩ := by
  constructor
  · intro b
    simp only [eventsAt_append, eventsAt_cons, eventsAt_nil, List.length_append, h.length b]
    split <;> rfl
  · intro b k
    simp only [eventsAt_append, eventsAt_cons, eventsAt_nil, List.append_nil, List.lookup_append,
      h.lookup b k, Option.map_or]
    congr 1
    split
    · simp only [lookup_cons_ite]
      split <;> rfl
    · rfl

/-- **A relocation keeps the renaming.** -/
theorem addMove (h : Renamed π s s') (hc : s'.curId = s.curId) (hinj : Function.Injective π)
    (hπ : π notFound = notFound) (hgc : ∀ i, i &&& gcMask ≠ 0 → π i = i) (r : GCRecord) :
    Renamed π (s.addMove r) (s'.addMove r) ∧ (s'.addMove r).curId = (s.addMove r).curId := by
  unfold Store.addMove
  rw [h.query hπ, hc]
  by_cases hq : s.query r.orgAddr r.time = notFound
  · have hq' : π (s.query r.orgAddr r.time) = notFound := by rw [hq, hπ]
    rw [if_pos hq, if_pos hq']
    refine ⟨?_, rfl⟩
    have hfix := hgc (s.curId ||| gcMask) (or_gcMask_and _)
    have := h.append r.newAddr r.time (s.curId ||| gcMask) (s.curId + 1) (s.curId + 1)
    rwa [hfix] at this
  · have hq' : π (s.query r.orgAddr r.time) ≠ notFound := fun e => hq (hinj (by rw [e, hπ]))
    rw [if_neg hq, if_neg hq']
    exact ⟨h.append _ _ _ _ _, rfl⟩

/-- Any sequence of relocations keeps the renaming. -/
theorem foldl_addMove (h : Renamed π s s') (hc : s'.curId = s.curId)
    (hinj : Function.Injective π) (hπ : π notFound = notFound)
    (hgc : ∀ i, i &&& gcMask ≠ 0 → π i = i) (gcs : List GCRecord) :
    Renamed π (gcs.foldl Store.addMove s) (gcs.foldl Store.addMove s') := by
  induction gcs generalizing s s' with
  | nil => exact h
  | cons r gcs ih =>
    obtain ⟨h', hc'⟩ := h.addMove hc hinj hπ hgc r
    exact ih h' hc'

end Renamed

/-! ### Allocations in another order -/

/-- No two allocations share both address and time. -/
def DistinctKeys (news : List NewRecord) : Prop :=
  news.Pairwise fun r r' => ¬ (r.addr = r'.addr ∧ r.time = r'.time)

instance (news : List NewRecord) : Decidable (DistinctKeys news) := by
  unfold DistinctKeys; infer_instance

lemma DistinctKeys.nodup {news : List NewRecord} (h : DistinctKeys news) : news.Nodup :=
  List.Pairwise.imp (fun hne e => hne (by rw [e]; exact ⟨rfl, rfl⟩)) h

lemma length_eventsAt_newEvents (c : ObjId) (news : List NewRecord) (a : Addr) :
    (eventsAt (newEvents c news) a).length = news.countP fun r => r.addr = a := by
  induction news generalizing c with
  | nil => rfl
  | cons r news ih =>
    rw [newEvents_cons, eventsAt_cons, List.length_append, ih, List.countP_cons]
    by_cases h : r.addr = a <;> simp [h, Nat.add_comm]

lemma mem_eventsAt_newEvents {c : ObjId} {news : List NewRecord} {a : Addr} {p : Time × ObjId} :
    p ∈ eventsAt (newEvents c news) a ↔
      ∃ i r, news[i]? = some r ∧ r.addr = a ∧ p = (r.time, c + UInt32.ofNat i) := by
  rw [mem_eventsAt, mem_newEvents]
  simp only [Event.mk.injEq]
  constructor
  · rintro ⟨i, r, hr, ha, ht, hi⟩
    exact ⟨i, r, hr, ha.symm, Prod.ext ht hi⟩
  · rintro ⟨i, r, hr, ha, rfl⟩
    exact ⟨i, r, hr, ha.symm, rfl, rfl⟩

lemma distinct_eventsAt_newEvents {news : List NewRecord} (h : DistinctKeys news) (c : ObjId)
    (a : Addr) : (eventsAt (newEvents c news) a).Pairwise fun p q => p.1 ≠ q.1 := by
  induction news generalizing c with
  | nil => exact List.Pairwise.nil
  | cons r news ih =>
    obtain ⟨hr, hnews⟩ := List.pairwise_cons.mp h
    rw [newEvents_cons]
    by_cases ha : r.addr = a
    · subst ha
      rw [eventsAt_cons_self]
      refine List.pairwise_cons.mpr ⟨fun p hp => ?_, ih hnews (c + 1)⟩
      obtain ⟨i, r', hr', ha', rfl⟩ := mem_eventsAt_newEvents.mp hp
      exact fun ht => hr r' (List.mem_of_getElem? hr') ⟨ha'.symm, ht⟩
    · rw [eventsAt_cons_ne _ ha]
      exact ih hnews (c + 1)

/-- A renaming that maps the id of a record to its id in the other order renames the stores after
the allocations. -/
theorem renamed_foldl_addNew {news news' : List NewRecord} (hperm : news'.Perm news)
    (hkeys : DistinctKeys news) {π : ObjId → ObjId} (h0 : π 0 = 0)
    (hπ : ∀ i j r, news[i]? = some r → news'[j]? = some r → π (newId i) = newId j) :
    Renamed π (news.foldl Store.addNew Store.init) (news'.foldl Store.addNew Store.init) := by
  have hkeys' : DistinctKeys news' :=
    (hperm.pairwise_iff fun hne e => hne ⟨e.1.symm, e.2.symm⟩).mpr hkeys
  rw [foldl_addNew_init, foldl_addNew_init]
  constructor
  · intro a
    simp only [eventsAt_cons, List.length_append, length_eventsAt_newEvents]
    rw [hperm.countP_eq]
  · intro a k
    simp only [eventsAt_cons, List.lookup_append, Option.map_or]
    congr 1
    · split
      · simp only [lookup_cons_ite]
        split <;> simp [h0]
      · rfl
    · ext v
      simp only [Option.map_eq_some_iff,
        lookup_eq_some_iff_mem (distinct_eventsAt_newEvents hkeys' 1 a),
        lookup_eq_some_iff_mem (distinct_eventsAt_newEvents hkeys 1 a),
        mem_eventsAt_newEvents, Prod.mk.injEq]
      constructor
      · rintro ⟨j, r, hj, ha, rfl, rfl⟩
        obtain ⟨i, hi⟩ := List.mem_iff_getElem?.mp (hperm.mem_iff.mp (List.mem_of_getElem? hj))
        exact ⟨_, ⟨i, r, hi, ha, rfl, rfl⟩, hπ i j r hi hj⟩
      · rintro ⟨_, ⟨i, r, hi, ha, rfl, rfl⟩, rfl⟩
        obtain ⟨j, hj⟩ := List.mem_iff_getElem?.mp (hperm.mem_iff.mpr (List.mem_of_getElem? hi))
        exact ⟨j, r, hj, ha, rfl, hπ i j r hi hj⟩

/-- The renaming between two orders of the same allocations. -/
theorem exists_renaming {news news' : List NewRecord} (hperm : news'.Perm news)
    (hnodup : news.Nodup) (hlen : news.length < 2 ^ 31 - 1) :
    ∃ π : Equiv.Perm ObjId,
      (∀ i j r, news[i]? = some r → news'[j]? = some r → π (newId i) = newId j) ∧
      π 0 = 0 ∧ ∀ i, i &&& gcMask ≠ 0 → π i = i := by
  have hnodup' : news'.Nodup := hperm.nodup_iff.mpr hnodup
  have hids : ((List.range news.length).map newId).Nodup := by
    refine List.Nodup.map_on (fun i hi j hj h => ?_) List.nodup_range
    rw [List.mem_range] at hi hj
    exact newId_inj (by omega) (by omega) h
  -- the ids of the second run, listed in the order of the first run
  have hself : (news'.map fun r => newId (news'.idxOf r)) = (List.range news.length).map newId := by
    rw [← hperm.length_eq]
    apply List.ext_getElem (by simp)
    intro j h1 h2
    simp only [List.getElem_map, List.getElem_range]
    rw [hnodup'.idxOf_getElem]
  have hsame : ((List.range news.length).map newId).Perm
      (news.map fun r => newId (news'.idxOf r)) := by
    rw [← hself]
    exact hperm.map _
  obtain ⟨π, hmap, hfix'⟩ := exists_perm_map_eq hids (hsame.nodup_iff.mp hids) hsame.length_eq
  have hfix : ∀ x ∉ (List.range news.length).map newId, π x = x :=
    fun x hx => hfix' x hx fun hm => hx (hsame.mem_iff.mpr hm)
  refine ⟨π, ?_, hfix 0 ?_, fun i hi => hfix i ?_⟩
  · intro i j r hi hj
    have hi' : i < news.length := (List.getElem?_eq_some_iff.mp hi).1
    obtain ⟨hj', hr⟩ := List.getElem?_eq_some_iff.mp hj
    have := congrArg (fun l : List ObjId => l[i]?) hmap
    simp only [List.getElem?_map, List.getElem?_range hi', hi, Option.map_some,
      Option.some.injEq] at this
    rw [this, ← hr, hnodup'.idxOf_getElem]
  · intro hmem
    obtain ⟨i, hi, h⟩ := List.mem_map.mp hmem
    rw [List.mem_range] at hi
    have := congrArg UInt32.toNat h
    rw [newId_toNat (by omega)] at this
    simp at this
  · intro hmem
    obtain ⟨j, hj, rfl⟩ := List.mem_map.mp hmem
    rw [List.mem_range] at hj
    exact hi (newId_and_gcMask (by omega))

/-- Two runs of `build_addr_map` differ by a renaming of the ids of allocations: it fixes `0`, the
answer for an unknown address and every masked id, it carries every query of the first run to the
second, and it carries the id printed for a NEW record in the first run to the id printed for it
in the second. -/
def SameUpToNewIds (newFiles newFiles' : List (List NewRecord))
    (gcFiles : List (List GCRecord)) : Prop :=
  ∃ π : Equiv.Perm ObjId,
    (π 0 = 0 ∧ π notFound = notFound ∧ ∀ i, i &&& gcMask ≠ 0 → π i = i) ∧
    (∀ a t, (AddrMap.buildAddrMap newFiles' gcFiles).1.query a t =
      π ((AddrMap.buildAddrMap newFiles gcFiles).1.query a t)) ∧
    ∀ (i j : ℕ) (r : NewRecord), newFiles.flatten[i]? = some r → newFiles'.flatten[j]? = some r →
      ∃ l l' : AddrIdLine, (AddrMap.buildAddrMap newFiles gcFiles).2[i]? = some l ∧
        (AddrMap.buildAddrMap newFiles' gcFiles).2[j]? = some l' ∧ l'.id = π l.id

/-- **The order of the NEW records only renames ids.** -/
theorem newOrder_renames (newFiles newFiles' : List (List NewRecord))
    (gcFiles : List (List GCRecord)) (hperm : newFiles'.flatten.Perm newFiles.flatten)
    (hkeys : DistinctKeys newFiles.flatten)
    (hcount : newFiles.flatten.length + gcFiles.flatten.length < 2 ^ 31 - 1) :
    SameUpToNewIds newFiles newFiles' gcFiles := by
  obtain ⟨π, hids, h0, hgc⟩ := exists_renaming hperm hkeys.nodup (by omega)
  have hnf : π notFound = notFound := hgc notFound (by decide)
  refine ⟨π, ⟨h0, hnf, hgc⟩, fun a t => ?_, fun i j r hi hj => ?_⟩
  · rw [query_buildAddrMap, query_buildAddrMap]
    refine Renamed.query ?_ hnf a t
    refine (renamed_foldl_addNew hperm hkeys h0 hids).foldl_addMove ?_ π.injective hnf hgc _
    rw [foldl_addNew_init, foldl_addNew_init, hperm.length_eq]
  · refine ⟨lineOf (newId i) r, lineOf (newId j) r, ?_, ?_, ?_⟩
    · rw [buildAddrMap_snd, List.getElem?_mapIdx, hi]
      rfl
    · rw [buildAddrMap_snd, List.getElem?_mapIdx, hj]
      rfl
    · exact (hids i j r hi hj).symm

/-- Three allocations in two files, two of them at one address, listed in the other order, with a
relocation after them. -/
theorem newOrder_renames_three :
    SameUpToNewIds [[⟨1, 0, 0, 16, 8, 5⟩, ⟨2, 0, 0, 16, 8, 9⟩], [⟨3, 0, 0, 24, 40, 7⟩]]
      [[⟨3, 0, 0, 24, 40, 7⟩], [⟨1, 0, 0, 16, 8, 5⟩, ⟨2, 0, 0, 16, 8, 9⟩]] [[⟨8, 16, 11⟩]] :=
  newOrder_renames _ _ _ (by decide) (by decide) (by decide)

end Cinst.Addr
