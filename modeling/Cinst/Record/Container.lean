import Cinst.Record.Layout

/-!
The records of container operations, of their places and of allocations, as the native library fills
them in: the members are assigned one by one in memory whose other bytes, the padding, are whatever
was there.
-/

namespace Cinst.Record

open Cinst.Lib

/-! ### Assigning members -/

/-- A value to be assigned to the member of `len` bytes at `off`. -/
structure Assignment where
  off : ℕ
  len : ℕ
  val : ℕ

/-- Assignments to the members of a record, one after the other. -/
def assign {size : ℕ} (r : Raw size) (as : List Assignment) : Raw size :=
  as.foldl (fun r a => setWord a.off a.len a.val r) r

/-- The members that are assigned lie inside the record and do not overlap. -/
def FitsIn (size : ℕ) (places : List (ℕ × ℕ)) : Prop :=
  (∀ p ∈ places, p.1 + p.2 ≤ size) ∧ places.Pairwise fun p p' => Apart p.1 p.2 p'.1 p'.2

instance (size : ℕ) (places : List (ℕ × ℕ)) : Decidable (FitsIn size places) :=
  inferInstanceAs (Decidable (_ ∧ _))

/-- Where a list of assignments writes. -/
def places (as : List Assignment) : List (ℕ × ℕ) := as.map fun a => (a.off, a.len)

section Assign

variable {size : ℕ} {as : List Assignment}

lemma getWord_assign_of_apart {off n : ℕ} (hin : ∀ a ∈ as, a.off + a.len ≤ size)
    (h : ∀ a ∈ as, Apart off n a.off a.len) (r : Raw size) :
    getWord off n (assign r as) = getWord off n r := by
  induction as generalizing r with
  | nil => rfl
  | cons a as ih =>
    refine (ih (fun b hb => hin b (List.mem_cons_of_mem _ hb))
      (fun b hb => h b (List.mem_cons_of_mem _ hb)) _).trans ?_
    exact getWord_setWord_of_apart _ (hin a (by simp)) (h a (by simp)) r

/-- **Every assigned member is read back**, whatever the memory held before. -/
theorem getWord_assign (h : FitsIn size (places as)) {a : Assignment} (ha : a ∈ as)
    (hval : a.val < 256 ^ a.len) (r : Raw size) : getWord a.off a.len (assign r as) = a.val := by
  obtain ⟨hin, hapart⟩ := h
  simp only [places, List.forall_mem_map, List.pairwise_map] at hin hapart
  induction as generalizing r with
  | nil => simp at ha
  | cons b as ih =>
    obtain ⟨hb, hapart⟩ := List.pairwise_cons.mp hapart
    have hin' : ∀ c ∈ as, c.off + c.len ≤ size := fun c hc => hin c (List.mem_cons_of_mem _ hc)
    rcases List.mem_cons.mp ha with rfl | ha
    · refine (getWord_assign_of_apart hin' hb _).trans ?_
      exact getWord_setWord (hin a (by simp)) hval r
    · exact ih ha _ hin' hapart

end Assign

/-! ### The records -/

/-- The assignments to the member `br`. -/
def ContainerRecord.assignments (k : Kind) (br : ContainerRecord) : List Assignment :=
  [ ⟨k.offset (.inBr .time), 8, br.time.toNat⟩,
    ⟨k.offset (.inBr .cid), 2, br.cid.toNat⟩,
    ⟨k.offset (.inBr .copid), 2, br.copid.toNat⟩,
    ⟨k.offset (.inBr .holderAddr), 4, br.holderAddr.toNat⟩,
    ⟨k.offset (.inBr .refAddr), 4, br.refAddr.toNat⟩,
    ⟨k.offset (.inBr .size), 4, br.size.toNat⟩ ]

/-- The assignments to a `ListAndSetRecord<0>`. -/
def ListAndSetRecord.assignments (r : ListAndSetRecord) : List Assignment :=
  r.br.assignments .listAndSet ++
    [⟨Kind.listAndSet.offset (.top .idxOrSucc), 4, r.idxOrSucc.toNat⟩]

/-- The assignments to a `MapRecord<0>`. -/
def MapRecord.assignments (r : MapRecord) : List Assignment :=
  r.br.assignments .map ++
    [ ⟨Kind.map.offset (.top .keyAddr), 4, r.keyAddr.toNat⟩,
      ⟨Kind.map.offset (.top .valueAddr), 4, r.valueAddr.toNat⟩ ]

/-- The assignments to a `ContainerLineInfoRecord`. -/
def ContainerLineInfoRecord.assignments (r : ContainerLineInfoRecord) : List Assignment :=
  [ ⟨Kind.containerLineInfo.offset (.top .time), 8, r.time.toNat⟩,
    ⟨Kind.containerLineInfo.offset (.top .line), 2, r.line.toNat⟩,
    ⟨Kind.containerLineInfo.offset (.top .classNameId), 2, r.classNameId.toNat⟩ ]

/-- The assignments to a `NewRecord<0>`. -/
def NewRecord.assignments (r : NewRecord) : List Assignment :=
  [ ⟨Kind.new.offset (.top .time), 8, r.time.toNat⟩,
    ⟨Kind.new.offset (.top .addr), 4, r.addr.toNat⟩,
    ⟨Kind.new.offset (.top .objTypeid), 4, r.objTypeid.toUInt32.toNat⟩,
    ⟨Kind.new.offset (.top .line), 2, r.line.toNat⟩,
    ⟨Kind.new.offset (.top .classNameId), 2, r.classNameId.toNat⟩,
    ⟨Kind.new.offset (.top .objSize), 4, r.objSize.toNat⟩ ]

/-- A `ListAndSetRecord<0>` in memory. -/
def ListAndSetRecord.toRaw (mem : Raw Kind.listAndSet.size) (r : ListAndSetRecord) :
    Raw Kind.listAndSet.size :=
  assign mem r.assignments

/-- A `MapRecord<0>` in memory. -/
def MapRecord.toRaw (mem : Raw Kind.map.size) (r : MapRecord) : Raw Kind.map.size :=
  assign mem r.assignments

/-- A `ContainerLineInfoRecord` in memory. -/
def ContainerLineInfoRecord.toRaw (mem : Raw Kind.containerLineInfo.size)
    (r : ContainerLineInfoRecord) : Raw Kind.containerLineInfo.size :=
  assign mem r.assignments

/-- A `NewRecord<0>` in memory. -/
def NewRecord.toRaw (mem : Raw Kind.new.size) (r : NewRecord) : Raw Kind.new.size :=
  assign mem r.assignments

section Fits

lemma ListAndSetRecord.fits (r : ListAndSetRecord) :
    FitsIn Kind.listAndSet.size (places r.assignments) := by
  simp only [places, assignments, ContainerRecord.assignments, List.map_append, List.map_cons,
    List.map_nil]
  decide

lemma MapRecord.fits (r : MapRecord) : FitsIn Kind.map.size (places r.assignments) := by
  simp only [places, assignments, ContainerRecord.assignments, List.map_append, List.map_cons,
    List.map_nil]
  decide

lemma ContainerLineInfoRecord.fits (r : ContainerLineInfoRecord) :
    FitsIn Kind.containerLineInfo.size (places r.assignments) := by
  simp only [places, assignments, List.map_cons, List.map_nil]
  decide

lemma NewRecord.fits (r : NewRecord) : FitsIn Kind.new.size (places r.assignments) := by
  simp only [places, assignments, List.map_cons, List.map_nil]
  decide

end Fits

/-- A record of a container operation, of either type. -/
inductive Entry where
  | listAndSet (r : ListAndSetRecord)
  | map (r : MapRecord)
  deriving DecidableEq, Repr

/-- `r.br`. -/
def Entry.br : Entry → ContainerRecord
  | .listAndSet r => r.br
  | .map r => r.br

/-- `r.br.time`, as a number. -/
def Entry.time (e : Entry) : ℤ := e.br.time.toNat

/-- `r.time`, as a number. -/
def lineTime (r : ContainerLineInfoRecord) : ℤ := r.time.toNat

/-- The time of a container record or a line record. -/
def stamp : Entry ⊕ ContainerLineInfoRecord → ℤ
  | .inl c => c.time
  | .inr r2 => lineTime r2

end Cinst.Record
