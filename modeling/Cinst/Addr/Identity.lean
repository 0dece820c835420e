import Cinst.Addr.Replay

/-!
The address map refines the object heap: a use of an address resolves to the id of the allocation
of the object that lives there, through reuse of addresses and chains of moves.
-/

namespace Cinst.Addr

open Cinst.Lib Cinst.Record

section Identity

variable {α Obj : Type*}

/-- The events of a history carry strictly increasing positive times. -/
structure IncreasingTimes (evs : List (HeapEvent α Obj)) : Prop where
  increasing : (evs.filterMap HeapEvent.time).Pairwise (· < ·)
  pos : ∀ t ∈ evs.filterMap HeapEvent.time, 0 < t

lemma IncreasingTimes.pairwise {evs : List (HeapEvent α Obj)} (h : IncreasingTimes evs) :
    evs.Pairwise fun e e' => ∀ t t', e.time = some t → e'.time = some t' → t < t' :=
  (List.pairwise_filterMap.mp h.increasing).imp fun hlt t t' ht ht' => hlt t ht t' ht'

lemma IncreasingTimes.ordered {evs : List (HeapEvent α Obj)} (h : IncreasingTimes evs) :
    evs.Pairwise Ordered := by
  refine h.pairwise.imp fun {e e'} hlt a t t' => ⟨fun hw hr => ?_, fun hm hw => ?_⟩
  · rcases hr with hw' | hm'
    · exact hlt t t' (HeapEvent.time_of_writes hw) (HeapEvent.time_of_writes hw')
    · exact hlt t t' (HeapEvent.time_of_writes hw) (HeapEvent.time_of_moves hm')
  · exact hlt t t' (HeapEvent.time_of_moves hm) (HeapEvent.time_of_writes hw)

lemma IncreasingTimes.recorded [DecidableEq Obj] {evs : List (HeapEvent Addr Obj)}
    (h : IncreasingTimes evs) (hvalid : (run Heap.step Heap.empty evs).isSome)
    {news : List NewRecord}
    (hnew : (news.map fun r => (r.addr, r.time)).Perm (newKeys id evs))
    (hcount : news.length < 2 ^ 31 - 1) : Recorded id evs news where
  valid := Option.isSome_iff_exists.mp hvalid
  perm := hnew
  ordered := h.ordered
  pos e he _ t hw _ := h.pos t (List.mem_filterMap.mpr ⟨e, he, HeapEvent.time_of_writes hw⟩)
  inj _ _ _ _ _ _ _ _ hab := hab
  count := hcount

/-- The use of `a` at `t` after `pre` is the use of an object whose NEW record is printed with the
id that the query of `a` at `t` answers. -/
def ResolvesToNew [DecidableEq Obj] (evs pre : List (HeapEvent Addr Obj)) (a : Addr) (t : Time)
    (newFiles : List (List NewRecord)) (gcFiles : List (List GCRecord)) : Prop :=
  ∃ h o, run Heap.step Heap.empty pre = some h ∧ h.live a = some o ∧
    ∃ b s, HeapEvent.new o b s ∈ evs ∧
      ∃ (k : ℕ) (r : NewRecord) (l : AddrIdLine), newFiles.flatten[k]? = some r ∧ r.addr = b ∧
        r.time = s ∧ (AddrMap.buildAddrMap newFiles gcFiles).2[k]? = some l ∧
        (AddrMap.buildAddrMap newFiles gcFiles).1.query a t = l.id

/-- **Heap identity.** All NEW records of a history are inserted, in any order, and then its gc
records in the order of their times; every use resolves to the id of the object that is used. -/
theorem heap_identity [DecidableEq Obj] (evs : List (HeapEvent Addr Obj))
    (newFiles : List (List NewRecord)) (htimes : IncreasingTimes evs)
    (hvalid : (run Heap.step Heap.empty evs).isSome)
    (hnew : (newFiles.flatten.map fun r => (r.addr, r.time)).Perm (newKeys id evs))
    (hcount : newFiles.flatten.length < 2 ^ 31 - 1)
    (pre post : List (HeapEvent Addr Obj)) (a : Addr) (t : Time)
    (huse : evs = pre ++ .use a t :: post) :
    ResolvesToNew evs pre a t newFiles [gcRecords id evs] := by
  have hrec := htimes.recorded hvalid hnew hcount
  obtain ⟨hend, hrun⟩ := hrec.valid
  rw [huse] at hrun
  obtain ⟨h, hpre, hrest⟩ := exists_of_run_append hrun
  obtain ⟨h', huse', -⟩ := Option.bind_eq_some_iff.mp hrest
  obtain ⟨o, ha⟩ : ∃ o, h.live a = some o := by
    simp only [Heap.step] at huse'
    split at huse'
    · exact Option.ne_none_iff_exists'.mp ‹_›
    · cases huse'
  obtain ⟨b, s, hborn⟩ := Heap.exists_new hpre ha
  have hborn' : HeapEvent.new o b s ∈ evs := by rw [huse]; exact List.mem_append_left _ hborn
  obtain ⟨k, r, hk, hb, hs⟩ := hrec.exists_record hborn'
  refine ⟨h, o, hpre, ha, b, s, hborn', k, r, lineOf (newId k) r, hk, hb, hs, ?_, ?_⟩
  · rw [buildAddrMap_snd, List.getElem?_mapIdx, hk]
    rfl
  · have hord := htimes.pairwise
    rw [huse] at hord
    obtain ⟨-, hpost, hcross⟩ := List.pairwise_append.mp hord
    rw [query_buildAddrMap, List.flatten_singleton]
    refine (query_use hrec replays_gcRecords huse hpre ha ?_ ?_).trans (hrec.idOf_eq hborn' hk hb hs)
    · intro e he t' hw
      exact (hcross e he _ (List.mem_cons_self ..) t' t (HeapEvent.time_of_writes hw) rfl).le
    · intro e he t' hw
      exact (List.pairwise_cons.mp hpost).1 e he t t' rfl (HeapEvent.time_of_writes hw)

/-- An object moves twice, its first address is reused, and it is used at its last address. -/
theorem heap_identity_chain :
    ResolvesToNew
      ([.new 0 8 1, .move 8 16 2, .new 1 8 3, .die 8, .new 2 8 4, .move 16 24 5, .use 24 6] :
        List (HeapEvent Addr ℕ))
      [.new 0 8 1, .move 8 16 2, .new 1 8 3, .die 8, .new 2 8 4, .move 16 24 5] 24 6
      [[⟨1, 0, 0, 16, 8, 4⟩], [⟨1, 0, 0, 16, 8, 1⟩, ⟨1, 0, 0, 16, 8, 3⟩]]
      [[⟨8, 16, 2⟩, ⟨16, 24, 5⟩]] :=
  heap_identity _ _ ⟨by decide, List.forall_iff_forall_mem.mp (by decide)⟩ (by decide) (by decide)
    (by decide) _ [] _ _ rfl

end Identity

end Cinst.Addr
