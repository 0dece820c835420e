import Cinst.Trace.Rerun

/-!
The ids of the allocations: the id that `addr2id` prints for a NEW record is the one that stands in
the record afterwards.

The id is given while the map is built, and it is looked up when all other allocations and all
relocations are stored. The event of an allocation is the first one of its address and time in the
log, because relocations come behind, and no event is later than its own time at that time
(`query_new`).
-/

namespace Cinst.Trace

open Cinst.Lib Cinst.Record Cinst.Addr

/-! ### The event of an allocation -/

/-- No two records have the same address and time, and none has the address `0` at the time `0`. -/
structure Distinct (news : List NewRecord) : Prop where
  pairwise : news.Pairwise fun r r' => ¬ (r.addr = r'.addr ∧ r.time = r'.time)
  ne_zero : ∀ r ∈ news, ¬ (r.addr = 0 ∧ r.time = 0)

section Store

variable {news : List NewRecord} {gcs : List GCRecord}

lemma foldl_addMove_events (s : Store) (gcs : List GCRecord) :
    ∃ es, (gcs.foldl Store.addMove s).events = s.events ++ es := by
  induction gcs generalizing s with
  | nil => exact ⟨[], (List.append_nil _).symm⟩
  | cons r gcs ih =>
    obtain ⟨es, hes⟩ := ih (s.addMove r)
    refine ⟨⟨r.newAddr, r.time, s.moveId r⟩ :: es, ?_⟩
    rw [List.foldl_cons, hes, Store.addMove_events, List.append_assoc, List.singleton_append]

lemma find_newEvents (h : Distinct news) {i : ℕ} {r : NewRecord} (hr : news[i]? = some r) :
    (newEvents 1 news).find? (fun e => e.addr = r.addr ∧ e.time = r.time) =
      some ⟨r.addr, r.time, newId i⟩ := by
  obtain ⟨hi, hri⟩ := List.getElem?_eq_some_iff.mp hr
  refine List.find?_eq_some_iff_getElem.mpr ⟨by simp, i, by simpa [newEvents] using hi, ?_, ?_⟩
  · simp only [newEvents, List.getElem_mapIdx, hri]
    rfl
  · intro j hj
    have hne := List.pairwise_iff_getElem.mp h.pairwise j i (hj.trans hi) hi hj
    rw [hri] at hne
    simp only [newEvents, List.getElem_mapIdx]
    exact (Bool.not_eq_true' _).mpr (decide_eq_false hne)

/-- **An allocation is found under its own id**, whatever is stored after it. -/
theorem query_new (h : Distinct news) {i : ℕ} {r : NewRecord} (hr : news[i]? = some r) :
    (Store.build news gcs).query r.addr r.time = newId i := by
  obtain ⟨es, hes⟩ := foldl_addMove_events (news.foldl Store.addNew Store.init) gcs
  rw [foldl_addNew_init] at hes
  have hzero := h.ne_zero r (List.mem_of_getElem? hr)
  have hlookup : (eventsAt (Store.build news gcs).events r.addr).lookup r.time = some (newId i) := by
    rw [lookup_eventsAt, List.head?_map, List.head?_filter, Store.build, foldl_addNew_init, hes,
      List.cons_append, List.find?_cons_of_neg, List.find?_append, find_newEvents h hr]
    · rfl
    · intro h0
      obtain ⟨ha, ht⟩ := of_decide_eq_true h0
      exact hzero ⟨ha.symm, ht.symm⟩
  exact resolve_eq_lookup hlookup le_rfl fun _ _ hle => hle

end Store

/-! ### The files -/

lemma toInt_toInt32 {id : ObjId} (h : id.toNat < 2 ^ 31) : id.toInt32.toInt = id.toNat := by
  have htwo : 2 * id.toBitVec.toNat < 2 ^ 32 := by
    rw [UInt32.toNat_toBitVec]
    omega
  exact BitVec.toInt_eq_toNat_of_lt htwo

section Directory

variable {d : Directory}

lemma newRecords_main_eq (hwhole : NewWhole d) (h : Distinct (newRecords d)) :
    newRecords (main d) = (newRecords d).mapIdx fun i r => { r with addr := newId i } := by
  rw [newRecords_main hwhole]
  refine List.ext_getElem (by simp) fun i hi hi' => ?_
  rw [List.getElem_map, List.getElem_mapIdx, query_buildAddrMap]
  rw [List.length_map] at hi
  rw [query_new h (List.getElem?_eq_getElem hi)]

/-- **The table of the allocations and the trace agree.** The `n`-th NEW record is printed with the
id `n`, its address becomes `n`, and no other NEW record has this address. -/
theorem newIds_agree (d : Directory) (hwhole : NewWhole d) (h : Distinct (newRecords d))
    (hcount : (newRecords d).length + (gcRecords d).length < 2 ^ 31 - 1) :
    (main d).read "addr-id.dat" =
        some (renderLines ((newRecords d).mapIdx fun i r => lineOf (newId i) r)) ∧
      (∀ i < (newRecords d).length, (newId i).toInt32.toInt = i + 1 ∧ (newId i).toNat = i + 1) ∧
      newRecords (main d) = ((newRecords d).mapIdx fun i r => { r with addr := newId i }) ∧
      ∀ i < (newRecords d).length,
        ∃! j : ℕ, (newRecords (main d))[j]?.map NewRecord.addr = some (newId i) := by
  have hid : ∀ i < (newRecords d).length, (newId i).toNat = i + 1 :=
    fun i hi => newId_toNat (by omega)
  have hmain := newRecords_main_eq hwhole h
  refine ⟨?_, ?_, hmain, ?_⟩
  · rw [read_main_addrId, buildAddrMap_lines]
    rfl
  · intro i hi
    refine ⟨?_, hid i hi⟩
    rw [toInt_toInt32 (by rw [hid i hi]; omega), hid i hi, Nat.cast_add, Nat.cast_one]
  · intro i hi
    have hget : ∀ j, (newRecords (main d))[j]?.map NewRecord.addr =
        (newRecords d)[j]?.map fun _ => newId j := by
      intro j
      rw [hmain, List.getElem?_mapIdx, Option.map_map]
      rfl
    refine ⟨i, ?_, fun j hj => ?_⟩
    · dsimp only
      rw [hget, List.getElem?_eq_getElem hi, Option.map_some]
    · dsimp only at hj
      rw [hget] at hj
      obtain ⟨r, hr, heq⟩ := Option.map_eq_some_iff.mp hj
      have hj := (List.getElem?_eq_some_iff.mp hr).1
      exact newId_inj (by omega) (by omega) heq

/-- Two allocations at the address `8`, at the times `1` and `5`, and relocations to the same address
at both times. -/
def movedTrace : Directory where
  files :=
    [ ("NEW-1-2",
        [5, 0, 0, 0, 7, 0, 0, 0, 16, 0, 0, 0, 8, 0, 0, 0, 1, 0, 0, 0, 0, 0, 0, 0,
          6, 0, 0, 0, 7, 0, 0, 0, 16, 0, 0, 0, 8, 0, 0, 0, 5, 0, 0, 0, 0, 0, 0, 0]),
      ("gc-1-2",
        [8, 0, 0, 0, 8, 0, 0, 0, 5, 0, 0, 0, 0, 0, 0, 0,
          24, 0, 0, 0, 8, 0, 0, 0, 1, 0, 0, 0, 0, 0, 0, 0]) ]
  nodup := by decide

theorem newIds_agree_moved :
    (gcRecords movedTrace).length = 2 ∧
      (newRecords (main movedTrace)).map NewRecord.addr = [1, 2] := by
  refine ⟨by decide, ?_⟩
  rw [(newIds_agree movedTrace (by decide) ⟨by decide, by decide⟩ (by decide)).2.2.1]
  decide

end Directory

end Cinst.Trace
