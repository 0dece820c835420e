import Cinst.Addr.Rename

/-!
The two representations of an address: one event (`unique_addr_info`), and an ordered map as soon as
a second event is stored.

A query of the map answers with the latest event at or before the time. A query of a single event
does not look at its time. So the two agree as long as the first event that is stored at an address
is not later than the time that is asked for (`fastPath_iff`).
-/

namespace Cinst.Addr

open Cinst.Lib Cinst.Record

/-! ### The events of the calls -/

namespace Insert

/-- The id of the event. -/
def id (s : Store) : Insert → ObjId
  | .insert _ _ => s.curId
  | .insertGc _ _ => s.curId ||| gcMask
  | .insertMove old new t => s.moveId ⟨old, new, t⟩

/-- The next id after the call. -/
def curId (s : Store) : Insert → ObjId
  | .insert _ _ => s.curId + 1
  | .insertGc _ _ => s.curId + 1
  | .insertMove old new t => (s.addMove ⟨old, new, t⟩).curId

/-- The call on the store: one event is added to the log. -/
def store (s : Store) (c : Insert) : Store := ⟨s.events ++ [⟨c.addr, c.time, c.id s⟩], c.curId s⟩

end Insert

/-- The map after a list of calls. -/
def mapAfter (calls : List Insert) : AddrMap := calls.foldl Insert.apply AddrMap.init

/-- The store after a list of calls. -/
def storeAfter (calls : List Insert) : Store := calls.foldl Insert.store Store.init

/-- The events stored at an address by a list of calls, in the order they were stored. -/
def stored (calls : List Insert) (a : Addr) : List (Time × ObjId) :=
  eventsAt (storeAfter calls).events a

lemma Refines.apply {am : AddrMap} {s : Store} (h : Refines am s) (c : Insert) :
    Refines (c.apply am) (c.store s) := by
  cases c with
  | insert a t =>
    unfold Insert.apply AddrMap.insert
    dsimp only
    rw [h.curId]
    exact (h.withCurId _).insertWithId a t _
  | insertGc a t =>
    unfold Insert.apply AddrMap.insertGc
    rw [h.curId]
    exact (h.withCurId _).insertWithId a t _
  | insertMove old new t =>
    have hstore : (Insert.insertMove old new t).store s = s.addMove ⟨old, new, t⟩ := by
      rw [Insert.store, Store.mk.injEq]
      exact ⟨(Store.addMove_events s ⟨old, new, t⟩).symm, rfl⟩
    rw [hstore]
    exact h.insertGcRecord ⟨old, new, t⟩

theorem refines_mapAfter (calls : List Insert) : Refines (mapAfter calls) (storeAfter calls) := by
  induction calls using List.reverseRecOn with
  | nil => exact refines_init
  | append_singleton calls c ih =>
    rw [mapAfter, storeAfter, List.foldl_concat, List.foldl_concat]
    exact ih.apply c

lemma query_mapAfter (calls : List Insert) (a : Addr) (t : Time) :
    (mapAfter calls).query a t = resolve (stored calls a) t :=
  (refines_mapAfter calls).query a t

lemma stored_snoc (calls : List Insert) (c : Insert) (a : Addr) :
    stored (calls ++ [c]) a =
      stored calls a ++ if c.addr = a then [(c.time, c.id (storeAfter calls))] else [] := by
  rw [stored, storeAfter, List.foldl_concat, Insert.store, eventsAt_append, eventsAt_cons]
  simp [stored, storeAfter]

/-! ### The law of a query -/

/-- The event `p` is in force at time `t`: the first stored one of the events with the greatest
time at or before `t`. -/
structure InForce (l : List (Time × ObjId)) (t : Time) (p : Time × ObjId) : Prop where
  first : l.lookup p.1 = some p.2
  le : p.1 ≤ t
  max : ∀ q ∈ l, q.1 ≤ t → q.1 ≤ p.1

/-- The answer `i` is the id of the event in force, and `-1` exactly when all events are later. -/
structure AnswersLatest (l : List (Time × ObjId)) (t : Time) (i : ObjId) : Prop where
  known : ∀ p, InForce l t p → i = p.2
  unknown : i = notFound ↔ ∀ p ∈ l, t < p.1

section Law

variable {l : List (Time × ObjId)} {t : Time}

lemma InForce.resolve {p : Time × ObjId} (h : InForce l t p) : resolve l t = p.2 :=
  resolve_eq_lookup h.first h.le h.max

lemma exists_inForce_or (l : List (Time × ObjId)) (t : Time) :
    (∃ p, InForce l t p) ∨ ∀ p ∈ l, t < p.1 := by
  by_cases h : ∀ p ∈ l, t < p.1
  · exact Or.inr h
  · simp only [not_forall, not_lt] at h
    obtain ⟨p, hp, hle⟩ := h
    obtain ⟨s, i, hl, hs, hmax⟩ := exists_latest hp hle
    exact Or.inl ⟨(s, i), hl, hs, hmax⟩

/-- When the law of a query holds: a single event is not later than `t`, and no event in force has
the reserved id. -/
theorem answersLatest_resolve_iff : AnswersLatest l t (resolve l t) ↔
    (∀ p, l = [p] → t < p.1 → p.2 = notFound) ∧ ∀ p, InForce l t p → p.2 ≠ notFound := by
  constructor
  · intro h
    refine ⟨?_, fun p hp hid => ?_⟩
    · rintro p rfl hlt
      exact h.unknown.mpr (by simpa using hlt)
    · have hlate := h.unknown.mp (hp.resolve.trans hid)
      exact absurd (hlate p (OrdMap.mem_of_lookup hp.first)) (not_lt.mpr hp.le)
  · rintro ⟨hsingle, hid⟩
    refine ⟨fun p hp => hp.resolve, fun h => ?_, fun hlate => ?_⟩
    · rcases exists_inForce_or l t with ⟨p, hp⟩ | hlate
      · exact absurd (hp.resolve.symm.trans h) (hid p hp)
      · exact hlate
    · by_cases hlen : l.length = 1
      · obtain ⟨p, rfl⟩ := List.length_eq_one_iff.mp hlen
        exact hsingle p rfl (hlate p (by simp))
      · exact resolve_eq_notFound hlen hlate

lemma AnswersLatest.eq_of_later {i i' : ObjId} {p : Time × ObjId} (h : AnswersLatest l t i)
    (h' : AnswersLatest (l ++ [p]) t i') (hp : t < p.1) : i' = i := by
  rcases exists_inForce_or l t with ⟨q, hq⟩ | hlate
  · have hq' : InForce (l ++ [p]) t q := by
      refine ⟨?_, hq.le, fun r hr hle => ?_⟩
      · rw [List.lookup_append, hq.first]
        rfl
      · rcases List.mem_append.mp hr with hr | hr
        · exact hq.max r hr hle
        · rw [List.mem_singleton.mp hr] at hle
          exact absurd hp (not_lt.mpr hle)
    rw [h'.known q hq', h.known q hq]
  · have hlate' : ∀ r ∈ l ++ [p], t < r.1 := by
      intro r hr
      rcases List.mem_append.mp hr with hr | hr
      · exact hlate r hr
      · rw [List.mem_singleton.mp hr]
        exact hp
    rw [h'.unknown.mpr hlate', h.unknown.mpr hlate]

end Law

/-! ### Lists of calls -/

/-- In the course of the calls, a query of `a` at `t` always answers with the latest event, and
storing a later event never changes the answer. -/
structure FastPathAgrees (calls : List Insert) (a : Addr) (t : Time) : Prop where
  latest : ∀ pre post, calls = pre ++ post →
    AnswersLatest (stored pre a) t ((mapAfter pre).query a t)
  stable : ∀ pre c post, calls = pre ++ c :: post → c.addr = a → t < c.time →
    (mapAfter (pre ++ [c])).query a t = (mapAfter pre).query a t

/-- The first event stored at `a` is not later than `t`, and no event in force there has the
reserved id `-1`. -/
structure FirstInTime (calls : List Insert) (a : Addr) (t : Time) : Prop where
  first : ∀ p, (stored calls a).head? = some p → t < p.1 → p.2 = notFound
  known : ∀ pre post, calls = pre ++ post → ∀ p, InForce (stored pre a) t p → p.2 ≠ notFound

lemma exists_single {calls : List Insert} {a : Addr} {p : Time × ObjId}
    (h : (stored calls a).head? = some p) :
    ∃ pre post, calls = pre ++ post ∧ stored pre a = [p] := by
  induction calls using List.reverseRecOn with
  | nil =>
    refine ⟨[], [], rfl, ?_⟩
    by_cases ha : a = 0
    · subst ha
      cases h
      rfl
    · have hnil : stored [] a = [] := eventsAt_cons_ne [] (e := ⟨0, 0, 0⟩) (Ne.symm ha)
      rw [hnil] at h
      cases h
  | append_singleton calls c ih =>
    rw [stored_snoc] at h
    cases hl : stored calls a with
    | nil =>
      refine ⟨calls ++ [c], [], by simp, ?_⟩
      rw [hl] at h
      rw [stored_snoc, hl]
      split at h
      · rename_i hc
        rw [if_pos hc]
        cases h
        rfl
      · cases h
    | cons q l =>
      rw [hl] at h
      obtain ⟨pre, post, rfl, hpre⟩ := ih (by rw [hl]; exact h)
      exact ⟨pre, post ++ [c], by simp, hpre⟩

lemma stored_prefix (pre post : List Insert) (a : Addr) :
    stored pre a <+: stored (pre ++ post) a := by
  induction post using List.reverseRecOn with
  | nil => rw [List.append_nil]
  | append_singleton post c ih =>
    rw [← List.append_assoc, stored_snoc]
    exact ih.trans (List.prefix_append ..)

/-- **The fast path agrees with the time map** in the course of a list of calls if and only if the
first event stored at the address is not later than the time, up to the reserved id. -/
theorem fastPath_iff (calls : List Insert) (a : Addr) (t : Time) :
    FastPathAgrees calls a t ↔ FirstInTime calls a t := by
  constructor
  · intro h
    constructor
    · intro p hp hlt
      obtain ⟨pre, post, hcalls, hpre⟩ := exists_single hp
      have hlaw := h.latest pre post hcalls
      rw [query_mapAfter] at hlaw
      exact (answersLatest_resolve_iff.mp hlaw).1 p hpre hlt
    · intro pre post hcalls
      have hlaw := h.latest pre post hcalls
      rw [query_mapAfter] at hlaw
      exact (answersLatest_resolve_iff.mp hlaw).2
  · intro h
    have hlatest : ∀ pre post, calls = pre ++ post →
        AnswersLatest (stored pre a) t ((mapAfter pre).query a t) := by
      intro pre post hcalls
      rw [query_mapAfter, answersLatest_resolve_iff]
      refine ⟨fun p hp hlt => h.first p ?_ hlt, h.known pre post hcalls⟩
      obtain ⟨rest, hrest⟩ := stored_prefix pre post a
      rw [hcalls, ← hrest, hp]
      rfl
    refine ⟨hlatest, fun pre c post hcalls hc hlt => ?_⟩
    have hafter := hlatest (pre ++ [c]) post (by rw [hcalls]; simp)
    rw [stored_snoc, if_pos hc] at hafter
    exact (hlatest pre (c :: post) hcalls).eq_of_later hafter hlt

/-- One allocation at `8` at time `5`: the address answers for time `3` already, and no longer when
a second event is stored. -/
theorem not_fastPathAgrees_early :
    (mapAfter [.insert 8 5]).query 8 3 = 1 ∧
      (mapAfter [.insert 8 5, .insert 8 7]).query 8 3 = notFound ∧
      ¬ FastPathAgrees [.insert 8 5, .insert 8 7] 8 3 := by
  have h₁ : (mapAfter [.insert 8 5]).query 8 3 = 1 := by decide
  have h₂ : (mapAfter [.insert 8 5, .insert 8 7]).query 8 3 = notFound := by decide
  refine ⟨h₁, h₂, fun h => ?_⟩
  have hsame := h.stable [.insert 8 5] (.insert 8 7) [] rfl rfl (by decide)
  rw [List.singleton_append, h₁, h₂] at hsame
  revert hsame
  decide

/-! ### Few calls -/

lemma id_ne_notFound {calls : List Insert} (h : calls.length < 2 ^ 31 - 1) :
    (storeAfter calls).curId.toNat ≤ calls.length + 1 ∧
      ∀ e ∈ (storeAfter calls).events, e.id ≠ notFound := by
  induction calls using List.reverseRecOn with
  | nil =>
    refine ⟨le_refl 1, fun e he => ?_⟩
    rw [List.mem_singleton.mp he]
    decide
  | append_singleton calls c ih =>
    rw [List.length_append, List.length_singleton] at h ⊢
    obtain ⟨hcur, hids⟩ := ih (by omega)
    have hsucc : ((storeAfter calls).curId + 1).toNat ≤ calls.length + 1 + 1 := by
      rw [UInt32.toNat_add]
      exact (Nat.mod_le _ _).trans (by simpa using hcur)
    have hfresh : (storeAfter calls).curId ≠ notFound := by
      intro e
      rw [e] at hcur
      exact absurd hcur (by rw [show notFound.toNat = 2 ^ 32 - 1 from rfl]; omega)
    have hmasked : (storeAfter calls).curId ||| gcMask ≠ notFound := by
      intro e
      have hval := congrArg UInt32.toNat e
      rw [or_gcMask_toNat (by omega), show notFound.toNat = 2 ^ 32 - 1 from rfl] at hval
      omega
    rw [storeAfter, List.foldl_concat, Insert.store, ← storeAfter]
    constructor
    · cases c with
      | insert a s => exact hsucc
      | insertGc a s => exact hsucc
      | insertMove old new s =>
        simp only [Insert.curId]
        rw [Store.addMove_curId]
        split
        · exact hsucc
        · omega
    · intro e he
      rcases List.mem_append.mp he with he | he
      · exact hids e he
      · rw [List.mem_singleton.mp he]
        cases c with
        | insert a s => exact hfresh
        | insertGc a s => exact hmasked
        | insertMove old new s =>
          simp only [Insert.id, Store.moveId]
          split
          · exact hmasked
          · assumption

/-- For fewer than `2 ^ 31 - 1` calls the time of the first event decides. -/
theorem fastPath_iff_of_few {calls : List Insert} (h : calls.length < 2 ^ 31 - 1) (a : Addr)
    (t : Time) :
    FastPathAgrees calls a t ↔ ∀ p, (stored calls a).head? = some p → p.1 ≤ t := by
  have hne : ∀ pre post, calls = pre ++ post → ∀ p ∈ stored pre a, p.2 ≠ notFound := by
    rintro pre post rfl p hp
    have hfew : pre.length < 2 ^ 31 - 1 := by
      rw [List.length_append] at h
      omega
    exact (id_ne_notFound hfew).2 _ (mem_eventsAt.mp hp)
  rw [fastPath_iff]
  constructor
  · intro hf p hp
    by_contra hlt
    refine hne calls [] (by simp) p (List.mem_of_mem_head? hp) (hf.first p hp (not_le.mp hlt))
  · intro hf
    refine ⟨fun p hp hlt => absurd (hf p hp) (not_le.mpr hlt), fun pre post hcalls p hp => ?_⟩
    exact hne pre post hcalls p (OrdMap.mem_of_lookup hp.first)

end Cinst.Addr
