import Cinst.Addr.AddrMap

/-!
What the address map is for: a store of events "from this time on, this object lives at this
address", asked for the latest event at or before a time.

`Store` is the abstract model: a log of the events in the order they were stored. `resolve` says
what a query answers from the events of one address, and `Refines` connects the two levels: every
operation of `AddrMap` is the operation of `Store` on the log (`refines_buildAddrMap`). A query of
the code reads the log through `Refines.query`.
-/

namespace Cinst.Addr

open Cinst.Lib Cinst.Record

/-- From `time` on, the object `id` lives at `addr`. -/
structure Event where
  addr : Addr
  time : Time
  id : ObjId
  deriving DecidableEq

/-- The events of one address, in the order they were stored. -/
def eventsAt (es : List Event) (a : Addr) : List (Time × ObjId) :=
  es.filterMap fun e => if e.addr = a then some (e.time, e.id) else none

section EventsAt

variable (es es' : List Event) (e : Event) (a : Addr)

@[simp] lemma eventsAt_nil : eventsAt [] a = [] := rfl

@[simp] lemma eventsAt_append : eventsAt (es ++ es') a = eventsAt es a ++ eventsAt es' a :=
  List.filterMap_append ..

lemma eventsAt_cons :
    eventsAt (e :: es) a = (if e.addr = a then [(e.time, e.id)] else []) ++ eventsAt es a := by
  unfold eventsAt
  split <;> simp [*]

lemma eventsAt_cons_self : eventsAt (e :: es) e.addr = (e.time, e.id) :: eventsAt es e.addr := by
  simp [eventsAt_cons]

lemma eventsAt_cons_ne {e : Event} {a : Addr} (h : e.addr ≠ a) :
    eventsAt (e :: es) a = eventsAt es a := by
  simp [eventsAt_cons, h]

end EventsAt

lemma mem_eventsAt {es : List Event} {a : Addr} {p : Time × ObjId} :
    p ∈ eventsAt es a ↔ ⟨a, p.1, p.2⟩ ∈ es := by
  unfold eventsAt
  rw [List.mem_filterMap]
  constructor
  · rintro ⟨e, he, h⟩
    split at h
    · rename_i ha
      subst ha
      cases h
      exact he
    · cases h
  · intro h
    exact ⟨_, h, by simp⟩

/-! ### What a query answers -/

/-- The answer to a query at time `t` from the events of the address. A single event answers for
every time; from two events on the latest one at or before `t` does. -/
def resolve (l : List (Time × ObjId)) (t : Time) : ObjId :=
  match l with
  | [] => notFound
  | [p] => p.2
  | l => ((OrdMap.ofLog l).floor? t).getD notFound

section Resolve

variable {l l' : List (Time × ObjId)} {t : Time}

lemma resolve_of_two_le (h : 2 ≤ l.length) :
    resolve l t = ((OrdMap.ofLog l).floor? t).getD notFound := by
  match l, h with
  | _ :: _ :: _, _ => rfl

/-- The first of the events at the latest time at or before `t` answers. -/
theorem resolve_eq_lookup {t₀ : Time} {i : ObjId} (hl : l.lookup t₀ = some i) (hle : t₀ ≤ t)
    (h : ∀ p ∈ l, p.1 ≤ t → p.1 ≤ t₀) : resolve l t = i := by
  match l, hl, h with
  | [p], hl, _ =>
    rw [lookup_cons_ite] at hl
    split at hl
    · cases hl
      rfl
    · cases hl
  | p :: q :: l, hl, h =>
    have hf : (OrdMap.ofLog (p :: q :: l)).floor? t = some i := by
      refine OrdMap.floor?_eq_some_iff.mpr ⟨t₀, hle, by rw [OrdMap.get?_ofLog, hl], ?_⟩
      intro k hk hsome
      rw [OrdMap.get?_ofLog] at hsome
      obtain ⟨v, hv⟩ := Option.ne_none_iff_exists'.mp hsome
      exact h _ (OrdMap.mem_of_lookup hv) hk
    rw [resolve_of_two_le (by simp), hf]
    rfl

lemma exists_latest {p : Time × ObjId} (hp : p ∈ l) (hle : p.1 ≤ t) :
    ∃ s i, l.lookup s = some i ∧ s ≤ t ∧ ∀ p ∈ l, p.1 ≤ t → p.1 ≤ s := by
  have hsome : ∀ p ∈ l, (OrdMap.ofLog l).get? p.1 ≠ none := by
    intro p hp hnone
    rw [OrdMap.get?_ofLog] at hnone
    simpa using List.lookup_eq_none_iff.mp hnone _ hp
  cases hf : (OrdMap.ofLog l).floor? t with
  | none => exact absurd (OrdMap.floor?_eq_none_iff.mp hf p.1 hle) (hsome p hp)
  | some v =>
    obtain ⟨k, hk, hv, hmax⟩ := OrdMap.floor?_eq_some_iff.mp hf
    rw [OrdMap.get?_ofLog] at hv
    exact ⟨k, v, hv, hk, fun p hp hpt => hmax p.1 hpt (hsome p hp)⟩

/-- **Latest event.** Some event at or before `t` is stored, and every event stored between it and
`t` has the same id: that id is the answer. -/
theorem resolve_eq {t₀ : Time} {i : ObjId} (hmem : (t₀, i) ∈ l) (hle : t₀ ≤ t)
    (h : ∀ p ∈ l, t₀ ≤ p.1 → p.1 ≤ t → p.2 = i) : resolve l t = i := by
  obtain ⟨s, j, hl, hs, hmax⟩ := exists_latest hmem hle
  rw [resolve_eq_lookup hl hs hmax]
  exact h (s, j) (OrdMap.mem_of_lookup hl) (hmax _ hmem hle) hs

/-- No event or several ones, all after `t`: the address is not resolved. -/
theorem resolve_eq_notFound (hlen : l.length ≠ 1) (h : ∀ p ∈ l, t < p.1) :
    resolve l t = notFound := by
  match l, hlen, h with
  | [], _, _ => rfl
  | [p], hlen, _ => exact absurd rfl hlen
  | p :: q :: l, _, h =>
    have hf : (OrdMap.ofLog (p :: q :: l)).floor? t = none :=
      OrdMap.floor?_eq_none_iff.mpr fun k hk => by
        rw [OrdMap.get?_ofLog, List.lookup_eq_none_iff]
        intro p hp
        simpa using (hk.trans_lt (h p hp)).ne
    rw [resolve_of_two_le (by simp), hf]
    rfl

lemma resolve_mem : resolve l t = notFound ∨ ∃ p ∈ l, p.2 = resolve l t := by
  match l with
  | [] => exact Or.inl rfl
  | [p] => exact Or.inr ⟨p, by simp, rfl⟩
  | p :: q :: l =>
    rw [resolve_of_two_le (by simp)]
    cases hf : (OrdMap.ofLog (p :: q :: l)).floor? t with
    | none => exact Or.inl rfl
    | some v =>
      obtain ⟨k, -, hv, -⟩ := OrdMap.floor?_eq_some_iff.mp hf
      rw [OrdMap.get?_ofLog] at hv
      exact Or.inr ⟨(k, v), OrdMap.mem_of_lookup hv, rfl⟩

/-- An answer is the first event of some time; when there are several events, that time is the
latest one at or before `t`. -/
theorem exists_of_resolve {i : ObjId} (h : resolve l t = i) (hi : i ≠ notFound) :
    ∃ s, l.lookup s = some i ∧ (2 ≤ l.length → s ≤ t ∧ ∀ p ∈ l, p.1 ≤ t → p.1 ≤ s) := by
  match l, h with
  | [p], h => exact ⟨p.1, by rw [lookup_cons_ite, if_pos rfl, ← h]; rfl, by simp⟩
  | [], h => exact absurd h.symm hi
  | p :: q :: l, h =>
    by_cases hlate : ∀ p' ∈ p :: q :: l, t < p'.1
    · rw [resolve_eq_notFound (by simp) hlate] at h
      exact absurd h.symm hi
    · simp only [not_forall, not_lt] at hlate
      obtain ⟨p', hp', hle⟩ := hlate
      obtain ⟨s, j, hl, hs, hmax⟩ := exists_latest hp' hle
      rw [resolve_eq_lookup hl hs hmax] at h
      exact ⟨s, h ▸ hl, fun _ => ⟨hs, hmax⟩⟩

/-- Several events without the id `notFound` leave an address unresolved only when all of them are
later. -/
lemma lt_of_resolve_eq_notFound (hid : ∀ p ∈ l, p.2 ≠ notFound) (h : resolve l t = notFound) :
    ∀ p ∈ l, t < p.1 := by
  intro p hp
  by_contra hle
  obtain ⟨s, i, hl, hs, hmax⟩ := exists_latest hp (not_lt.mp hle)
  rw [resolve_eq_lookup hl hs hmax] at h
  exact hid (s, i) (OrdMap.mem_of_lookup hl) h

/-- **Renaming.** Logs with the same number of events, whose ids differ by `π`, answer every query
up to `π`. -/
theorem resolve_map (π : ObjId → ObjId) (hπ : π notFound = notFound)
    (hlen : l'.length = l.length) (h : ∀ k, l'.lookup k = (l.lookup k).map π) :
    resolve l' t = π (resolve l t) := by
  match l, l', hlen, h with
  | [], [], _, _ => exact hπ.symm
  | [p], [p'], _, h =>
    have := h p.1
    rw [lookup_cons_ite, lookup_cons_ite, if_pos rfl] at this
    split at this <;> simp_all [resolve]
  | p :: q :: l, p' :: q' :: l', _, h =>
    rw [resolve_of_two_le (by simp), resolve_of_two_le (by simp)]
    rw [OrdMap.floor?_map π (m := OrdMap.ofLog (p :: q :: l))
      (fun k => by rw [OrdMap.get?_ofLog, OrdMap.get?_ofLog, h])]
    cases (OrdMap.ofLog (p :: q :: l)).floor? t with
    | none => exact hπ.symm
    | some v => rfl

end Resolve

/-! ### The store -/

/-- The abstract model: the log of all events and the next id. -/
structure Store where
  events : List Event
  curId : ObjId

namespace Store

/-- The store with address `0` holding the id `0` from time `0` on. -/
def init : Store := ⟨[⟨0, 0, 0⟩], 1⟩

/-- The id of the object at `a` at time `t`. -/
def query (s : Store) (a : Addr) (t : Time) : ObjId := resolve (eventsAt s.events a) t

/-- An allocation: a new id at the address. -/
def addNew (s : Store) (r : NewRecord) : Store :=
  ⟨s.events ++ [⟨r.addr, r.time, s.curId⟩], s.curId + 1⟩

/-- The id that a relocation stores. An object that is not known gets a new masked id. -/
def moveId (s : Store) (r : GCRecord) : ObjId :=
  if s.query r.orgAddr r.time = notFound then s.curId ||| gcMask else s.query r.orgAddr r.time

/-- A relocation whose object is not known counts as an allocation with a masked id. -/
def addMove (s : Store) (r : GCRecord) : Store :=
  if s.query r.orgAddr r.time = notFound then
    ⟨s.events ++ [⟨r.newAddr, r.time, s.curId ||| gcMask⟩], s.curId + 1⟩
  else
    ⟨s.events ++ [⟨r.newAddr, r.time, s.query r.orgAddr r.time⟩], s.curId⟩

lemma addMove_events (s : Store) (r : GCRecord) :
    (s.addMove r).events = s.events ++ [⟨r.newAddr, r.time, s.moveId r⟩] := by
  unfold addMove moveId
  split <;> rfl

lemma addMove_curId (s : Store) (r : GCRecord) :
    (s.addMove r).curId =
      if s.query r.orgAddr r.time = notFound then s.curId + 1 else s.curId := by
  unfold addMove
  split <;> rfl

/-- The store of a trace: all allocations, then all relocations. -/
def build (news : List NewRecord) (gcs : List GCRecord) : Store :=
  gcs.foldl addMove (news.foldl addNew init)

end Store

/-! ### The code refines the store -/

/-- The entry of an address that holds the given events. -/
def entryOf (l : List (Time × ObjId)) : Option Entry :=
  match l with
  | [] => none
  | [p] => some (.unique ⟨p.2, p.1⟩)
  | l => some (.timeMap (OrdMap.ofLog l))

/-- The address map holds exactly the events of the store. -/
structure Refines (am : AddrMap) (s : Store) : Prop where
  entries : ∀ a, am.entries a = entryOf (eventsAt s.events a)
  curId : am.curId = s.curId

namespace Refines

variable {am : AddrMap} {s : Store}

/-- **A query of the code reads the log.** -/
theorem query (h : Refines am s) (a : Addr) (t : Time) : am.query a t = s.query a t := by
  unfold AddrMap.query Store.query
  rw [h.entries a]
  match eventsAt s.events a with
  | [] => rfl
  | [p] => rfl
  | p :: q :: l =>
    rw [resolve_of_two_le (by simp)]
    simp only [entryOf]
    rw [← OrdMap.floor?]
    cases (OrdMap.ofLog (p :: q :: l)).floor? t <;> rfl

/-- Storing an event appends it to the log. -/
theorem insertWithId (h : Refines am s) (a : Addr) (t : Time) (i : ObjId) :
    Refines (am.insertWithId a t i) ⟨s.events ++ [⟨a, t, i⟩], s.curId⟩ := by
  have hother : ∀ b, b ≠ a → eventsAt (s.events ++ [⟨a, t, i⟩]) b = eventsAt s.events b := by
    intro b hb
    simp [eventsAt_cons, hb.symm]
  have hself : eventsAt (s.events ++ [⟨a, t, i⟩]) a = eventsAt s.events a ++ [(t, i)] := by
    simp [eventsAt_cons]
  have ha := h.entries a
  constructor
  · intro b
    by_cases hb : b = a
    · subst hb
      rw [hself]
      unfold AddrMap.insertWithId
      -- one case per representation of the entry: absent, one event, a time map
      match eventsAt s.events b, ha with
      | [], ha => simp [ha, entryOf]
      | [p], ha => simp [ha, entryOf, Entry.toTimeMap, OrdMap.ofLog]
      | p :: q :: l, ha =>
        have := OrdMap.ofLog_append (p :: q :: l) (t, i)
        simp only [List.cons_append] at this ⊢
        simp [ha, entryOf, Entry.toTimeMap, this]
    · rw [hother b hb, ← h.entries b]
      unfold AddrMap.insertWithId
      split <;> simp [hb]
  · unfold AddrMap.insertWithId
    split <;> exact h.curId

lemma withCurId (h : Refines am s) (c : ObjId) : Refines { am with curId := c } { s with curId := c } :=
  ⟨h.entries, rfl⟩

theorem insertGcRecord (h : Refines am s) (r : GCRecord) :
    Refines (am.insertGcRecord r) (s.addMove r) := by
  unfold AddrMap.insertGcRecord AddrMap.insertMove Store.addMove
  rw [h.query]
  dsimp only
  split
  · unfold AddrMap.insertGc
    rw [h.curId]
    exact (h.withCurId _).insertWithId _ _ _
  · exact h.insertWithId _ _ _

theorem foldl_insertGcRecord (h : Refines am s) (gcs : List GCRecord) :
    Refines (gcs.foldl AddrMap.insertGcRecord am) (gcs.foldl Store.addMove s) := by
  induction gcs generalizing am s with
  | nil => exact h
  | cons r gcs ih => exact ih (h.insertGcRecord r)

theorem insertNewRecords (h : Refines am s) (news : List NewRecord) :
    Refines (am.insertNewRecords news).1 (news.foldl Store.addNew s) := by
  induction news generalizing am s with
  | nil => exact h
  | cons r news ih =>
    refine ih ?_
    unfold AddrMap.insert Store.addNew
    dsimp only
    rw [h.curId]
    exact (h.withCurId _).insertWithId _ _ _

end Refines

theorem refines_init : Refines AddrMap.init Store.init := by
  have h : Refines ⟨fun _ => none, 1⟩ ⟨[], 1⟩ := ⟨fun _ => rfl, rfl⟩
  exact h.insertWithId 0 0 0

/-- **Refinement.** The map that `build_addr_map` builds holds the events of the store of the
trace. -/
theorem refines_buildAddrMap (newFiles : List (List NewRecord)) (gcFiles : List (List GCRecord)) :
    Refines (AddrMap.buildAddrMap newFiles gcFiles).1
      (Store.build newFiles.flatten gcFiles.flatten) := by
  rw [AddrMap.buildAddrMap_eq]
  exact (refines_init.insertNewRecords _).foldl_insertGcRecord _

theorem query_buildAddrMap (newFiles : List (List NewRecord)) (gcFiles : List (List GCRecord))
    (a : Addr) (t : Time) : (AddrMap.buildAddrMap newFiles gcFiles).1.query a t =
      (Store.build newFiles.flatten gcFiles.flatten).query a t :=
  (refines_buildAddrMap newFiles gcFiles).query a t

/-! ### The allocations -/

/-- The events of a list of allocations whose first id is `c`. -/
def newEvents (c : ObjId) (news : List NewRecord) : List Event :=
  news.mapIdx fun i r => ⟨r.addr, r.time, c + UInt32.ofNat i⟩

lemma newEvents_cons (c : ObjId) (r : NewRecord) (news : List NewRecord) :
    newEvents c (r :: news) = ⟨r.addr, r.time, c⟩ :: newEvents (c + 1) news := by
  unfold newEvents
  rw [List.mapIdx_cons]
  congr 1
  · simp
  · congr 1
    funext i r
    rw [add_ofNat_succ]

theorem foldl_addNew (s : Store) (news : List NewRecord) : news.foldl Store.addNew s =
    ⟨s.events ++ newEvents s.curId news, s.curId + UInt32.ofNat news.length⟩ := by
  induction news generalizing s with
  | nil => simp [newEvents]
  | cons r news ih =>
    rw [List.foldl_cons, ih, newEvents_cons]
    simp only [Store.addNew, List.append_assoc, List.singleton_append, List.length_cons,
      Store.mk.injEq, true_and]
    rw [add_ofNat_succ]

/-- The line printed for an allocation with the given id. -/
def lineOf (id : ObjId) (r : NewRecord) : AddrIdLine :=
  ⟨id, r.classNameId, r.line, r.objSize, r.objTypeid⟩

lemma insert_snd (am : AddrMap) (a : Addr) (t : Time) : (am.insert a t).2 = am.curId := by
  unfold AddrMap.insert AddrMap.insertWithId
  dsimp only
  split <;> exact UInt32.add_sub_cancel ..

lemma insert_curId (am : AddrMap) (a : Addr) (t : Time) : (am.insert a t).1.curId = am.curId + 1 := by
  unfold AddrMap.insert AddrMap.insertWithId
  dsimp only
  split <;> rfl

theorem insertNewRecords_snd (am : AddrMap) (news : List NewRecord) :
    (am.insertNewRecords news).2 =
      news.mapIdx fun i r => lineOf (am.curId + UInt32.ofNat i) r := by
  induction news generalizing am with
  | nil => rfl
  | cons r news ih =>
    rw [AddrMap.insertNewRecords, List.mapIdx_cons]
    dsimp only
    rw [ih, insert_snd, insert_curId]
    congr 1
    · simp [lineOf]
    · congr 1
      funext i r
      rw [add_ofNat_succ]

/-- **The lines of `addr-id.dat`**: the NEW records in the order they are read, numbered from
`1` on. -/
theorem buildAddrMap_snd (newFiles : List (List NewRecord)) (gcFiles : List (List GCRecord)) :
    (AddrMap.buildAddrMap newFiles gcFiles).2 =
      newFiles.flatten.mapIdx fun i r => lineOf (1 + UInt32.ofNat i) r := by
  rw [AddrMap.buildAddrMap_eq]
  exact insertNewRecords_snd _ _

/-- The store after the allocations of a trace. -/
theorem foldl_addNew_init (news : List NewRecord) : news.foldl Store.addNew Store.init =
    ⟨⟨0, 0, 0⟩ :: newEvents 1 news, 1 + UInt32.ofNat news.length⟩ :=
  foldl_addNew _ _

lemma mem_newEvents {c : ObjId} {news : List NewRecord} {e : Event} :
    e ∈ newEvents c news ↔
      ∃ i r, news[i]? = some r ∧ e = ⟨r.addr, r.time, c + UInt32.ofNat i⟩ := by
  unfold newEvents
  rw [List.mem_iff_getElem?]
  simp only [List.getElem?_mapIdx, Option.map_eq_some_iff]
  constructor
  · rintro ⟨i, r, hr, rfl⟩
    exact ⟨i, r, hr, rfl⟩
  · rintro ⟨i, r, hr, rfl⟩
    exact ⟨i, r, hr, rfl⟩

end Cinst.Addr
