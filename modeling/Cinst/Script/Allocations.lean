import Cinst.Script.Classnames

/-!
The table `ALLOCATIONS` from the NEW records, through the text of `addr-id.dat`.

`%d` prints a number of 32 bits as a signed one. What the script reads are the ids and sizes of the
records as long as they are below `2 ^ 31` (`roundTrips_iff`).
-/

namespace Cinst.Script

open Cinst.Lib Cinst.Record Cinst.Addr Cinst.Trace

/-- The values of the record number `i`, from `0` on, with the id that it gets. -/
def recordValues (i : ℕ) (r : NewRecord) : List ℤ :=
  [(newId i).toNat, r.classNameId.toNat, r.line.toNat, r.objSize.toNat, r.objTypeid.toInt]

/-- The script reads the values of the records that are inserted into a new map. -/
def RoundTrips (news : List NewRecord) : Prop :=
  loadAllocations (renderLines (AddrMap.init.insertNewRecords news).2) =
    some (news.mapIdx recordValues)

/-- A number below `2 ^ 31` is printed as it is, a larger one is not. -/
lemma toInt_toInt32_eq_iff (n : UInt32) : n.toInt32.toInt = n.toNat ↔ n.toNat < 2 ^ 31 := by
  have hlt : n.toNat < 2 ^ 32 := n.toNat_lt
  have hval : n.toInt32.toInt = (n.toNat : ℤ).bmod (2 ^ 32) := by
    rw [Int32.toInt, UInt32.toBitVec_toInt32, BitVec.toInt_eq_toNat_bmod]
    rfl
  rw [hval, Int.bmod_def]
  split <;> omega

lemma lineNums_eq_iff (i : ℕ) (r : NewRecord) :
    lineNums (lineOf (newId i) r) = recordValues i r ↔
      (newId i).toNat < 2 ^ 31 ∧ r.objSize.toNat < 2 ^ 31 := by
  rw [← toInt_toInt32_eq_iff, ← toInt_toInt32_eq_iff]
  simp [lineNums, lineOf, recordValues]

lemma forall_newId_lt_iff (n : ℕ) : (∀ i < n, (newId i).toNat < 2 ^ 31) ↔ n < 2 ^ 31 := by
  constructor
  · intro h
    by_contra hn
    have hlast := h (2 ^ 31 - 1) (by omega)
    rw [newId_toNat (by omega)] at hlast
    omega
  · intro hn i hi
    rw [newId_toNat (by omega)]
    omega

/-- **The records are read back** exactly when there are fewer than `2 ^ 31` and no size is `2 ^ 31`
or more. -/
theorem roundTrips_iff (news : List NewRecord) :
    RoundTrips news ↔ news.length < 2 ^ 31 ∧ ∀ r ∈ news, r.objSize.toNat < 2 ^ 31 := by
  have hlines : (AddrMap.init.insertNewRecords news).2 =
      news.mapIdx fun i r => lineOf (newId i) r := insertNewRecords_snd _ _
  have hrows : RoundTrips news ↔ ∀ i r, news[i]? = some r →
      lineNums (lineOf (newId i) r) = recordValues i r := by
    rw [RoundTrips, loadAllocations_renderLines, hlines, Option.some.injEq, List.ext_getElem?_iff]
    refine forall_congr' fun i => ?_
    rw [List.getElem?_map, List.getElem?_mapIdx, List.getElem?_mapIdx]
    cases news[i]? with
    | none => simp
    | some r => simp
  rw [hrows, ← forall_newId_lt_iff]
  constructor
  · intro h
    refine ⟨fun i hi => ?_, fun r hr => ?_⟩
    · exact ((lineNums_eq_iff i _).mp (h i _ (List.getElem?_eq_getElem hi))).1
    · obtain ⟨i, hi⟩ := List.mem_iff_getElem?.mp hr
      exact ((lineNums_eq_iff i r).mp (h i r hi)).2
  · rintro ⟨hids, hsizes⟩ i r hr
    exact (lineNums_eq_iff i r).mpr
      ⟨hids i (List.getElem?_eq_some_iff.mp hr).1, hsizes r (List.mem_of_getElem? hr)⟩

/-- An object of `3000000000` bytes: the table has the size `-1294967296`. -/
theorem not_roundTrips_large : ¬ RoundTrips [⟨7, 1, 3, 3000000000, 16, 5⟩] := by
  rw [RoundTrips, loadAllocations_renderLines]
  decide

end Cinst.Script
