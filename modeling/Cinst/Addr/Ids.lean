import Cinst.Addr.Rename

/-!
The ids of `addr_map` under any mix of its operations.

Every call of `insert` and of `insert_gc` takes the next number of one counter, and `insert_gc` sets
the bit of `GC_MASK` in it. While the numbers stay below that bit, the ids of different calls differ
and none of them is the `-1` of `query` (`ids_distinct`).
-/

namespace Cinst.Addr

open Cinst.Lib Cinst.Record

/-! ### What is handed out -/

/-- A call of `insert` or of `insert_gc`, which may be part of a relocation, and the id that it hands
out. -/
structure Handing where
  gc : Bool
  id : ObjId
  deriving DecidableEq, Repr

namespace AddrMap

/-- The call of `insert` or `insert_gc` that a call is or makes. -/
def hands (am : AddrMap) : Insert → Option Handing
  | .insert addr time => some ⟨false, (am.insert addr time).2⟩
  | .insertGc _ _ => some ⟨true, am.curId ||| gcMask⟩
  | .insertMove oldAddr _ time =>
    if am.query oldAddr time = notFound then some ⟨true, am.curId ||| gcMask⟩ else none

lemma hands_insertMove (am : AddrMap) (oldAddr newAddr : Addr) (time : Time) :
    am.hands (.insertMove oldAddr newAddr time) =
      if am.query oldAddr time = notFound then some ⟨true, am.curId ||| gcMask⟩ else none := rfl

/-- The map after some calls, and all that was handed out, in the order of the calls. -/
def runCalls (calls : List Insert) : AddrMap × List Handing :=
  calls.foldl (fun s c => (c.apply s.1, s.2 ++ (s.1.hands c).toList)) (init, [])

lemma runCalls_snoc (calls : List Insert) (c : Insert) : runCalls (calls ++ [c]) =
    (c.apply (runCalls calls).1, (runCalls calls).2 ++ ((runCalls calls).1.hands c).toList) := by
  simp [runCalls]

/-! ### What is stored -/

/-- The map holds `id` for the address from `time` on, as the only entry or in a map of times. -/
def Stored (am : AddrMap) (addr : Addr) (time : Time) (id : ObjId) : Prop :=
  ∃ e, am.entries addr = some e ∧ (time, id) ∈ e.toTimeMap.toList

/-- No entry answers for the address at a time: there is none, or there are several times and all
are later. -/
def Unresolved (am : AddrMap) (addr : Addr) (time : Time) : Prop :=
  match am.entries addr with
  | none => True
  | some (.unique _) => False
  | some (.timeMap m) => ∀ p ∈ m.toList, time < p.1

section Stored

variable {am : AddrMap} {addr a : Addr} {time t : Time} {id i : ObjId}

lemma stored_insertWithId (h : Stored (am.insertWithId addr time id) a t i) :
    (a = addr ∧ t = time ∧ i = id) ∨ Stored am a t i := by
  obtain ⟨e, he, hmem⟩ := h
  by_cases ha : a = addr
  · subst ha
    unfold insertWithId at he
    cases hold : am.entries a with
    | none =>
      simp only [hold, Function.update_self, Option.some.injEq] at he
      subst he
      left
      simpa [Entry.toTimeMap, OrdMap.emplace, OrdMap.emplaceList, OrdMap.empty] using hmem
    | some old =>
      simp only [hold, Function.update_self, Option.some.injEq] at he
      subst he
      rcases OrdMap.mem_emplaceList hmem with hnew | hold'
      · cases hnew
        exact Or.inl ⟨rfl, rfl, rfl⟩
      · exact Or.inr ⟨old, hold, hold'⟩
  · right
    unfold insertWithId at he
    split at he <;> exact ⟨e, by simpa [ha] using he, hmem⟩

lemma mem_toTimeMap_unique (info : UniqueAddrInfo) :
    (info.time, info.id) ∈ (Entry.unique info).toTimeMap.toList := List.mem_singleton_self _

lemma query_cases (am : AddrMap) (addr : Addr) (time : Time) :
    (am.query addr time = notFound ∧ am.Unresolved addr time) ∨
      ((∃ t, Stored am addr t (am.query addr time)) ∧ ¬ am.Unresolved addr time) := by
  unfold query Unresolved
  cases he : am.entries addr with
  | none => exact Or.inl ⟨rfl, trivial⟩
  | some e =>
    cases e with
    | unique info => exact Or.inr ⟨⟨info.time, _, he, mem_toTimeMap_unique info⟩, id⟩
    | timeMap m =>
      simp only [← OrdMap.prev_upperBound_eq_none_iff]
      cases hprev : m.prev (m.upperBound time) with
      | none => exact Or.inl ⟨rfl, rfl⟩
      | some i =>
        obtain ⟨p, hp, rfl⟩ := Option.map_eq_some_iff.mp hprev
        refine Or.inr ⟨⟨p.1, _, he, ?_⟩, Option.some_ne_none _⟩
        exact List.mem_of_mem_take (List.mem_of_mem_getLast? hp)

lemma query_eq_notFound_iff (h : ∀ t i, Stored am addr t i → i ≠ notFound) :
    am.query addr time = notFound ↔ am.Unresolved addr time := by
  rcases query_cases am addr time with ⟨hquery, hun⟩ | ⟨⟨t, hstored⟩, hres⟩
  · exact ⟨fun _ => hun, fun _ => hquery⟩
  · exact ⟨fun hquery => absurd hquery (h t _ hstored), fun hun => absurd hun hres⟩

end Stored

/-! ### The numbers of the counter -/

/-- The id that a call of `insert` or `insert_gc` makes of the number `n`, from `0` on. -/
def idOfNumber (gc : Bool) (n : ℕ) : ObjId := if gc then newId n ||| gcMask else newId n

section Number

variable {gc : Bool} {n : ℕ}

lemma idOfNumber_toNat (h : n < 2 ^ 31 - 1) :
    (idOfNumber gc n).toNat = n + 1 + if gc then 2 ^ 31 else 0 := by
  have hn : (newId n).toNat = n + 1 := newId_toNat (by omega)
  cases gc with
  | false => exact hn
  | true =>
    show (newId n ||| gcMask).toNat = n + 1 + 2 ^ 31
    rw [or_gcMask_toNat (by omega), hn]

lemma idOfNumber_mask (h : n < 2 ^ 31 - 1) : idOfNumber gc n &&& gcMask ≠ 0 ↔ gc = true := by
  cases gc with
  | false => exact ⟨fun hne => absurd (newId_and_gcMask (by omega)) hne, fun h => nomatch h⟩
  | true => exact ⟨fun _ => rfl, fun _ => or_gcMask_and _⟩

/-- The last number would give `-1`. -/
lemma idOfNumber_ne (h : n < 2 ^ 31 - 2) : idOfNumber gc n ≠ notFound := by
  intro heq
  have hval := @idOfNumber_toNat gc n (by omega)
  rw [heq, show notFound.toNat = 2 ^ 32 - 1 from rfl] at hval
  split at hval <;> omega

lemma idOfNumber_inj {gc' : Bool} {n' : ℕ} (h : n < 2 ^ 31 - 1) (h' : n' < 2 ^ 31 - 1)
    (heq : idOfNumber gc n = idOfNumber gc' n') : n = n' := by
  have hval := congrArg UInt32.toNat heq
  rw [idOfNumber_toNat h, idOfNumber_toNat h'] at hval
  split at hval <;> split at hval <;> omega

lemma idOfNumber_ne_zero (h : n < 2 ^ 31 - 1) : idOfNumber gc n ≠ 0 := by
  intro heq
  have hval := @idOfNumber_toNat gc n h
  rw [heq, show (0 : UInt32).toNat = 0 from rfl] at hval
  omega

end Number

/-! ### The invariant -/

/-- The built-in entry, or an entry that a relocation has made of an id `0`. -/
def CopyOfBuiltin (calls : List Insert) (addr : Addr) (time : Time) : Prop :=
  (addr = 0 ∧ time = 0) ∨ ∃ pre oldAddr post, calls = pre ++ .insertMove oldAddr addr time :: post ∧
    (runCalls pre).1.query oldAddr time = 0

lemma CopyOfBuiltin.snoc {calls : List Insert} {addr : Addr} {time : Time}
    (h : CopyOfBuiltin calls addr time) (c : Insert) : CopyOfBuiltin (calls ++ [c]) addr time := by
  refine h.imp_right ?_
  rintro ⟨pre, oldAddr, post, rfl, hquery⟩
  exact ⟨pre, oldAddr, post ++ [c], by rw [List.append_assoc, List.cons_append], hquery⟩

/-- What is handed out is made of the numbers of the counter, and what is stored was handed out or is
the built-in id. -/
structure Numbered (calls : List Insert) (am : AddrMap) (log : List Handing) : Prop where
  curId : am.curId = newId log.length
  ids : ∀ n x, log[n]? = some x → x.id = idOfNumber x.gc n
  stored : ∀ addr time id, am.Stored addr time id →
    (id = 0 ∧ CopyOfBuiltin calls addr time) ∨ ∃ x ∈ log, x.id = id

lemma numbered_init : Numbered [] init [] where
  curId := rfl
  ids := by
    intro n x hx
    cases hx
  stored := by
    intro addr time id h
    rcases stored_insertWithId h with ⟨rfl, rfl, rfl⟩ | ⟨e, he, -⟩
    · exact Or.inl ⟨rfl, Or.inl ⟨rfl, rfl⟩⟩
    · cases he

section Step

variable {calls : List Insert} {am : AddrMap} {log : List Handing}

lemma insertWithId_curId (am : AddrMap) (addr : Addr) (time : Time) (id : ObjId) :
    (am.insertWithId addr time id).curId = am.curId := by
  unfold insertWithId
  split <;> rfl

lemma Numbered.hand (h : Numbered calls am log) (gc : Bool) (addr : Addr) (time : Time) (c : Insert) :
    Numbered (calls ++ [c])
      (insertWithId { am with curId := am.curId + 1 } addr time (idOfNumber gc log.length))
      (log ++ [⟨gc, idOfNumber gc log.length⟩]) where
  curId := by
    rw [insertWithId_curId, List.length_append, List.length_singleton]
    show am.curId + 1 = newId (log.length + 1)
    rw [h.curId, newId, newId, UInt32.ofNat_add, UInt32.add_assoc]
    rfl
  ids := by
    intro n x hx
    rcases Nat.lt_or_ge n log.length with hlt | hge
    · rw [List.getElem?_append_left hlt] at hx
      exact h.ids n x hx
    · rw [List.getElem?_append_right hge] at hx
      obtain ⟨hn, -⟩ := List.getElem?_eq_some_iff.mp hx
      rw [List.length_singleton] at hn
      obtain rfl : n = log.length := by omega
      rw [Nat.sub_self] at hx
      cases hx
      rfl
  stored := by
    intro a t i hstored
    rcases stored_insertWithId hstored with ⟨-, -, rfl⟩ | hold
    · exact Or.inr ⟨_, List.mem_append_right _ (List.mem_singleton_self _), rfl⟩
    · refine (h.stored a t i hold).imp (fun hc => ⟨hc.1, hc.2.snoc c⟩) ?_
      rintro ⟨x, hx, rfl⟩
      exact ⟨x, List.mem_append_left _ hx, rfl⟩

lemma Numbered.copy (h : Numbered calls am log) (hrun : am = (runCalls calls).1)
    {oldAddr : Addr} {time : Time} (hfound : am.query oldAddr time ≠ notFound) (newAddr : Addr) :
    Numbered (calls ++ [.insertMove oldAddr newAddr time])
      (am.insertWithId newAddr time (am.query oldAddr time)) log where
  curId := by rw [insertWithId_curId, h.curId]
  ids := h.ids
  stored := by
    intro a t i hstored
    rcases stored_insertWithId hstored with ⟨rfl, rfl, rfl⟩ | hold
    · obtain ⟨t', ht'⟩ := ((query_cases am oldAddr t).resolve_left fun hun => hfound hun.1).1
      refine (h.stored oldAddr t' _ ht').imp_left ?_
      rintro ⟨h0, -⟩
      exact ⟨h0, Or.inr ⟨calls, oldAddr, [], rfl, hrun ▸ h0⟩⟩
    · exact (h.stored a t i hold).imp_left fun hc => ⟨hc.1, hc.2.snoc _⟩

/-- **A call keeps the invariant.** -/
theorem Numbered.apply (h : Numbered calls am log) (hrun : am = (runCalls calls).1) (c : Insert) :
    Numbered (calls ++ [c]) (c.apply am) (log ++ (am.hands c).toList) := by
  cases c with
  | insert addr time =>
    have hid : (am.insert addr time).2 = idOfNumber false log.length :=
      (insert_snd am addr time).trans h.curId
    rw [hands, hid]
    have := h.hand false addr time (.insert addr time)
    rw [← show am.curId = idOfNumber false log.length from h.curId] at this ⊢
    exact this
  | insertGc addr time =>
    have := h.hand true addr time (.insertGc addr time)
    rw [← show am.curId ||| gcMask = idOfNumber true log.length from by rw [h.curId]; rfl] at this
    exact this
  | insertMove oldAddr newAddr time =>
    by_cases hfound : am.query oldAddr time = notFound
    · have hcall : (Insert.insertMove oldAddr newAddr time).apply am = am.insertGc newAddr time :=
        if_pos hfound
      have := h.hand true newAddr time (.insertMove oldAddr newAddr time)
      rw [← show am.curId ||| gcMask = idOfNumber true log.length from by rw [h.curId]; rfl] at this
      rw [hcall, hands_insertMove, if_pos hfound]
      exact this
    · have hcall : (Insert.insertMove oldAddr newAddr time).apply am =
          am.insertWithId newAddr time (am.query oldAddr time) := if_neg hfound
      rw [hcall, hands_insertMove, if_neg hfound, Option.toList_none, List.append_nil]
      exact h.copy hrun hfound newAddr

end Step

theorem numbered_runCalls (calls : List Insert) :
    Numbered calls (runCalls calls).1 (runCalls calls).2 := by
  induction calls using List.reverseRecOn with
  | nil => exact numbered_init
  | append_singleton calls c ih =>
    rw [runCalls_snoc]
    exact ih.apply rfl c

/-! ### What holds below the bound -/

section Bound

variable {calls : List Insert} {am : AddrMap} {log : List Handing}

lemma number_lt (h : log.length < 2 ^ 31 - 1) {n : ℕ} {x : Handing} (hx : log[n]? = some x) :
    n < 2 ^ 31 - 2 := by
  have := (List.getElem?_eq_some_iff.mp hx).1
  omega

lemma Numbered.inj (hnum : Numbered calls am log) (h : log.length < 2 ^ 31 - 1) {n m : ℕ}
    {x y : Handing} (hx : log[n]? = some x) (hy : log[m]? = some y) (heq : x.id = y.id) : n = m := by
  have hn := number_lt h hx
  have hm := number_lt h hy
  rw [hnum.ids n x hx, hnum.ids m y hy] at heq
  exact idOfNumber_inj (by omega) (by omega) heq

lemma Numbered.nodup (hnum : Numbered calls am log) (h : log.length < 2 ^ 31 - 1) :
    (log.map Handing.id).Nodup := by
  refine List.nodup_iff_getElem?_ne_getElem?.mpr fun n m hnm hm heq => ?_
  rw [List.length_map] at hm
  have hy := List.getElem?_eq_getElem hm
  have hx := List.getElem?_eq_getElem (hnm.trans hm)
  rw [List.getElem?_map, List.getElem?_map, hx, hy, Option.map_some, Option.map_some,
    Option.some.injEq] at heq
  exact hnm.ne (hnum.inj h hx hy heq)

lemma Numbered.ne_notFound (hnum : Numbered calls am log) (h : log.length < 2 ^ 31 - 1)
    {addr : Addr} {time : Time} {id : ObjId} (hs : am.Stored addr time id) : id ≠ notFound := by
  rcases hnum.stored addr time id hs with ⟨rfl, -⟩ | ⟨x, hx, rfl⟩
  · decide
  · obtain ⟨n, hn⟩ := List.mem_iff_getElem?.mp hx
    rw [hnum.ids n x hn]
    exact idOfNumber_ne (number_lt h hn)

end Bound

/-- **Ids and the answer `-1` are kept apart** by every sequence of calls that hands out fewer than
`2 ^ 31 - 1` ids. -/
theorem ids_distinct (calls : List Insert) (h : (runCalls calls).2.length < 2 ^ 31 - 1) :
    (∀ addr time id, (runCalls calls).1.Stored addr time id →
      (id = 0 ∧ CopyOfBuiltin calls addr time) ∨
        ∃! n : ℕ, ∃ x : Handing, (runCalls calls).2[n]? = some x ∧ x.id = id) ∧
    ((runCalls calls).2.map Handing.id).Nodup ∧
    (∀ x ∈ (runCalls calls).2, x.id ≠ 0 ∧ (x.id &&& gcMask ≠ 0 ↔ x.gc = true)) ∧
    (∀ addr time id, (runCalls calls).1.Stored addr time id → id ≠ notFound) ∧
    (∀ addr time, (runCalls calls).1.query addr time = notFound ↔
      (runCalls calls).1.Unresolved addr time) ∧
    ∀ oldAddr newAddr time, (runCalls calls).1.hands (.insertMove oldAddr newAddr time) ≠ none ↔
      (runCalls calls).1.Unresolved oldAddr time := by
  have hnum := numbered_runCalls calls
  have hquery : ∀ addr time, (runCalls calls).1.query addr time = notFound ↔
      (runCalls calls).1.Unresolved addr time :=
    fun addr time => query_eq_notFound_iff fun _ _ hs => hnum.ne_notFound h hs
  refine ⟨fun addr time id hs => ?_, hnum.nodup h, fun x hx => ?_,
    fun _ _ _ hs => hnum.ne_notFound h hs, hquery, fun oldAddr newAddr time => ?_⟩
  · refine (hnum.stored addr time id hs).imp_right ?_
    rintro ⟨x, hx, rfl⟩
    obtain ⟨n, hn⟩ := List.mem_iff_getElem?.mp hx
    exact ⟨n, ⟨x, hn, rfl⟩, fun m ⟨y, hy, heq⟩ => hnum.inj h hy hn heq⟩
  · obtain ⟨n, hn⟩ := List.mem_iff_getElem?.mp hx
    have hlt := number_lt h hn
    rw [hnum.ids n x hn]
    exact ⟨idOfNumber_ne_zero (by omega), idOfNumber_mask (by omega)⟩
  · rw [← hquery oldAddr time, hands_insertMove]
    split
    · rename_i hnone
      exact ⟨fun _ => hnone, fun _ => Option.some_ne_none _⟩
    · rename_i hsome
      exact ⟨fun hno => absurd rfl hno, fun hnone => absurd hnone hsome⟩

/-- An object at an unknown address moves twice, the built-in id once, and one is allocated. -/
theorem ids_distinct_moves :
    ((runCalls [.insertMove 5 6 1, .insertMove 6 7 2, .insertMove 0 8 3, .insert 5 4]).2.map
      Handing.id).Nodup :=
  (ids_distinct _ (by decide)).2.1

end AddrMap

end Cinst.Addr
