import Cinst.Native.Container
import Mathlib.Data.Nat.Bitwise

/-!
The records of stored references: `addTagPutFieldRecord` and `addTagAASTORERecord` write a record
when the referent is sampled, whatever the holder is.

A holder that has no tag is meant to get one with `NOT_SAMPLED_MASK`. But `get_tag` never answers
`0`: it answers `-1` for every object without a tag, so all these holders have one address in the
records (`holdersKept_iff`).
-/

namespace Cinst.Native

open Cinst.Lib Cinst.Record

/-! ### The two functions -/

/-- A thread with the counter of tags and the recorders of references. A record is kept with the
holder of the call that added it. -/
structure RefThread (Obj : Type*) extends Thread Obj where
  globalTag : Int64
  putFieldRecoreder : List (Option Obj × PutFieldRecord)
  aaStoreRecoreder : List (Option Obj × AAStoreRecord)

section RefThread

variable {Obj : Type*} [DecidableEq Obj]

namespace RefThread

/-- `get_tag`. -/
def getTag (localTag : Int64) (obj : Option Obj) (s : RefThread Obj) : Int64 × RefThread Obj :=
  let found := s.toThread.getTag localTag obj
  (found.1, { s with toThread := found.2 })

/-- `set_tag`. -/
def setTag (obj : Option Obj) (tag : Int64) (s : RefThread Obj) : RefThread Obj :=
  { s with
    localEnv := jvmtiSetTag s.localEnv obj tag
    jvmtiEnv := jvmtiSetTag s.jvmtiEnv obj tag }

/-- The tag of the holder for the record; a new one has `NOT_SAMPLED_MASK` in the tag maps only. -/
def holderTag (amb : Ambient) (holder : Option Obj) (s : RefThread Obj) : Int64 × RefThread Obj :=
  let found := s.getTag (amb.localTag 1) holder
  if found.1 = 0 then
    let tag := found.2.globalTag
    (tag, ({ found.2 with globalTag := tag + 1 }).setTag holder (tag ||| notSampledMask))
  else found

/-- What the two functions have in common: `add` adds the record to its recorder, for the address of
the holder and that of the referent. -/
def addReference (amb : Ambient) (holder ref : Option Obj)
    (add : Addr → Addr → RefThread Obj → RefThread Obj) (s : RefThread Obj) : RefThread Obj :=
  let found := s.getTag (amb.localTag 0) ref
  if !isSampledObject found.1 then found.2
  else
    let tag := found.2.holderTag amb holder
    add (addrOfTag tag.1) (addrOfTag found.1) tag.2

/-- `addTagPutFieldRecord`. -/
def addTagPutFieldRecord (holder ref : Option Obj) (line classNameId fieldId : Int32)
    (amb : Ambient) : RefThread Obj → RefThread Obj :=
  addReference amb holder ref fun holderAddr refAddr s =>
    let r : PutFieldRecord := ⟨line.toUInt32.toUInt16, classNameId.toUInt32.toUInt16, fieldId,
      holderAddr, refAddr, amb.nanotime⟩
    { s with putFieldRecoreder := s.putFieldRecoreder ++ [(holder, r)] }

/-- `addTagAASTORERecord`. -/
def addTagAASTORERecord (holder : Option Obj) (index : Int32) (ref : Option Obj)
    (line classNameId : Int32) (amb : Ambient) : RefThread Obj → RefThread Obj :=
  addReference amb holder ref fun holderAddr refAddr s =>
    let r : AAStoreRecord := ⟨line.toUInt32.toUInt16, classNameId.toUInt32.toUInt16, index,
      holderAddr, refAddr, amb.nanotime⟩
    { s with aaStoreRecoreder := s.aaStoreRecoreder ++ [(holder, r)] }

end RefThread

/-- A call of one of the two functions. -/
inductive RefCall (Obj : Type*) where
  | putField (holder ref : Option Obj) (line classNameId fieldId : Int32) (amb : Ambient)
  | aaStore (holder : Option Obj) (index : Int32) (ref : Option Obj) (line classNameId : Int32)
      (amb : Ambient)

/-- The holder of a call. -/
def RefCall.holder : RefCall Obj → Option Obj
  | .putField holder .. => holder
  | .aaStore holder .. => holder

/-- The referent of a call. -/
def RefCall.ref : RefCall Obj → Option Obj
  | .putField _ ref .. => ref
  | .aaStore _ _ ref .. => ref

namespace RefThread

/-- A call. -/
def step (s : RefThread Obj) : RefCall Obj → RefThread Obj
  | .putField holder ref line classNameId fieldId amb =>
    addTagPutFieldRecord holder ref line classNameId fieldId amb s
  | .aaStore holder index ref line classNameId amb =>
    addTagAASTORERecord holder index ref line classNameId amb s

/-- A sequence of calls. -/
def run (s : RefThread Obj) (calls : List (RefCall Obj)) : RefThread Obj := calls.foldl step s

/-- A thread that finds the tags in the state `s`, before its first call. -/
def start {Tid : Type*} (s : Tags Tid Obj) (t : Tid) : RefThread Obj where
  toThread := Thread.init (s.localEnv t) s.jvmtiEnv
  globalTag := s.globalTag
  putFieldRecoreder := []
  aaStoreRecoreder := []

/-- The records with their holders: the addresses of the holders. -/
def written (s : RefThread Obj) : List (Option Obj × Addr) :=
  s.putFieldRecoreder.map (Prod.map id PutFieldRecord.holderAddr) ++
    s.aaStoreRecoreder.map (Prod.map id AAStoreRecord.holderAddr)

/-- The object has a sampled tag. -/
def Sampled (s : RefThread Obj) (o : Obj) : Prop := isSampledObject (tagOf s.toThread o)

instance (s : RefThread Obj) : DecidablePred s.Sampled := fun o => by
  unfold Sampled
  infer_instance

end RefThread

/-- The holder of a call is some object, and its referent is a sampled one. -/
def RefCall.OfSampled (s : RefThread Obj) (c : RefCall Obj) : Prop :=
  (∃ h, c.holder = some h) ∧ ∃ r, c.ref = some r ∧ s.Sampled r

/-- Two records have the same `holder_addr` if and only if the calls had the same holder. -/
def HoldersKept (s : RefThread Obj) : Prop :=
  ∀ p ∈ s.written, ∀ q ∈ s.written, p.2 = q.2 ↔ p.1 = q.1

/-! ### What a call does -/

omit [DecidableEq Obj] in
lemma tagFound_ne_zero (t : Thread Obj) (amb : Ambient) (n : ℕ) (obj : Option Obj) :
    tagFound t amb n obj ≠ 0 := by
  have hneg : (-1 : Int64) ≠ 0 := by decide
  unfold tagFound
  cases obj with
  | none =>
    by_cases hv : amb.localTag n = 0 <;> simp [hv, hneg]
  | some o =>
    by_cases hl : t.localEnv o = 0
    · by_cases hg : t.jvmtiEnv o = 0 <;> simp [tagOf, hl, hg, hneg]
    · simp [tagOf, hl]

/-- So no holder gets a new tag. -/
lemma holderTag_eq (s : RefThread Obj) (amb : Ambient) (holder : Option Obj) :
    s.holderTag amb holder = s.getTag (amb.localTag 1) holder := by
  have hne : (s.getTag (amb.localTag 1) holder).1 ≠ 0 := by
    show (s.toThread.getTag (amb.localTag 1) holder).1 ≠ 0
    rw [getTag_fst]
    exact tagFound_ne_zero _ _ _ _
  unfold RefThread.holderTag
  dsimp only
  rw [if_neg hne]

/-- The address of an object in the records. -/
def addrIn (s : RefThread Obj) (o : Obj) : Addr := addrOfTag (tagOf s.toThread o)

lemma addReference_written {s : RefThread Obj} (amb : Ambient) {h r : Obj}
    {add : Addr → Addr → RefThread Obj → RefThread Obj}
    (hthread : ∀ a b s, (add a b s).toThread = s.toThread)
    (hadd : ∀ a b s p, p ∈ (add a b s).written ↔ p ∈ s.written ∨ p = (some h, a))
    (hr : s.Sampled r) :
    tagOf (RefThread.addReference amb (some h) (some r) add s).toThread = tagOf s.toThread ∧
      ∀ p, p ∈ (RefThread.addReference amb (some h) (some r) add s).written ↔
        p ∈ s.written ∨ p = (some h, addrIn s h) := by
  let t₁ := (s.toThread.getTag (amb.localTag 0) (some r)).2
  let t₂ := (t₁.getTag (amb.localTag 1) (some h)).2
  have ht₁ : tagOf t₁ = tagOf s.toThread := tagOf_getTag ..
  have ht₂ : tagOf t₂ = tagOf s.toThread := (tagOf_getTag ..).trans ht₁
  have href : (s.getTag (amb.localTag 0) (some r)).1 = tagOf s.toThread r := getTag_fst ..
  have hholder : ((s.getTag (amb.localTag 0) (some r)).2.getTag (amb.localTag 1) (some h)).1 =
      tagOf s.toThread h := by
    rw [← ht₁]
    exact getTag_fst ..
  have heq : RefThread.addReference amb (some h) (some r) add s =
      add (addrIn s h) (addrIn s r) { s with toThread := t₂ } := by
    unfold RefThread.addReference
    dsimp only
    rw [href, hr, holderTag_eq, hholder]
    rfl
  rw [heq]
  refine ⟨?_, hadd (addrIn s h) (addrIn s r) { s with toThread := t₂ }⟩
  rw [hthread]
  exact ht₂

/-- **A call** adds one record, with the address of its holder. -/
theorem step_written {s : RefThread Obj} {c : RefCall Obj} (hc : c.OfSampled s) :
    tagOf (s.step c).toThread = tagOf s.toThread ∧
      ∀ p, p ∈ (s.step c).written ↔
        p ∈ s.written ∨ ∃ h, c.holder = some h ∧ p = (some h, addrIn s h) := by
  obtain ⟨⟨h, hh⟩, r, hr, hs⟩ := hc
  simp only [hh, Option.some.injEq, exists_eq_left']
  cases c with
  | putField holder ref line classNameId fieldId amb =>
    obtain rfl : holder = some h := hh
    obtain rfl : ref = some r := hr
    refine addReference_written amb (fun _ _ _ => rfl) (fun a b s p => ?_) hs
    simp only [RefThread.written, List.map_append, List.mem_append]
    rw [or_right_comm]
    simp
  | aaStore holder index ref line classNameId amb =>
    obtain rfl : holder = some h := hh
    obtain rfl : ref = some r := hr
    refine addReference_written amb (fun _ _ _ => rfl) (fun a b s p => ?_) hs
    simp only [RefThread.written, List.map_append, List.mem_append, or_assoc]
    simp

omit [DecidableEq Obj] in
lemma RefCall.OfSampled.congr {s s' : RefThread Obj} {c : RefCall Obj} (hc : c.OfSampled s)
    (h : tagOf s'.toThread = tagOf s.toThread) : c.OfSampled s' := by
  obtain ⟨hh, r, hr, hs⟩ := hc
  refine ⟨hh, r, hr, ?_⟩
  unfold RefThread.Sampled
  rw [h]
  exact hs

/-- **A sequence of calls** adds a record for each call, with the address that the holder has at the
start. -/
theorem run_written {s : RefThread Obj} {calls : List (RefCall Obj)}
    (hcalls : ∀ c ∈ calls, c.OfSampled s) (p : Option Obj × Addr) :
    p ∈ (s.run calls).written ↔
      p ∈ s.written ∨ ∃ c ∈ calls, ∃ h, c.holder = some h ∧ p = (some h, addrIn s h) := by
  induction calls generalizing s with
  | nil => simp [RefThread.run]
  | cons c calls ih =>
    obtain ⟨htags, hstep⟩ := step_written (hcalls c (List.mem_cons_self ..))
    have haddr : addrIn (s.step c) = addrIn s := by
      unfold addrIn
      rw [htags]
    have hrest : ∀ c' ∈ calls, c'.OfSampled (s.step c) := fun c' hc' =>
      (hcalls c' (List.mem_cons_of_mem _ hc')).congr htags
    have hrun : s.run (c :: calls) = (s.step c).run calls := rfl
    rw [hrun, ih hrest, hstep, haddr, List.exists_mem_cons_iff, or_assoc]

/-! ### The tags of the holders -/

lemma isSampledObject_nthTag {k : ℕ} (hk : 10 + k < 2 ^ 32) : isSampledObject (nthTag k) = true := by
  have hnat : (nthTag k).toBitVec.toNat = 10 + k := by
    simp only [nthTag, Int64.toBitVec_ofNat', BitVec.toNat_ofNat]
    omega
  have hmask : nthTag k &&& notSampledMask = 0 := by
    rw [← Int64.toBitVec_inj, ← BitVec.toNat_inj, Int64.toBitVec_and, BitVec.toNat_and, hnat,
      show notSampledMask.toBitVec.toNat = 2 ^ 63 by decide, Nat.and_comm, Nat.two_pow_and,
      Nat.testBit_lt_two_pow (by omega)]
    rfl
  have hne : ∀ tag : Int64, tag.toBitVec.toNat ≠ 10 + k → nthTag k ≠ tag := fun tag h e =>
    h (e ▸ hnat)
  have h0 : nthTag k ≠ 0 := hne 0 (by rw [show (0 : Int64).toBitVec.toNat = 0 by decide]; omega)
  have h1 : nthTag k ≠ -1 := hne (-1) (by
    rw [show (-1 : Int64).toBitVec.toNat = 2 ^ 64 - 1 by decide]; omega)
  simp [isSampledObject, hmask, h0, h1]

section Start

variable {Tid : Type*} [DecidableEq Tid] {as : List (TagAct Tid Obj)} {s : Tags Tid Obj}

lemma tagOf_start (h : run Tags.step Tags.init as = some s) (t : Tid) (o : Obj) :
    tagOf (RefThread.start s t).toThread o = -1 ∨
      ∃ k : ℕ, (issuedTo as)[k]? = some o ∧ tagOf (RefThread.start s t).toThread o = nthTag k := by
  have hi := issued_run h
  have htag : tagOf (RefThread.start s t).toThread o =
      if s.localEnv t o ≠ 0 then s.localEnv t o
      else if s.jvmtiEnv o ≠ 0 then s.jvmtiEnv o else -1 := rfl
  rw [htag]
  split_ifs with hl hg
  · exact ((hi.localEnv t o).resolve_left hl).imp_right fun hmem => hi.news _ hmem
  · exact Or.inr (hi.news _ ((hi.jvmtiEnv o).resolve_left hg))
  · exact Or.inl rfl

lemma addrIn_sampled (h : run Tags.step Tags.init as = some s)
    (hlen : (issuedTo as).length < 2 ^ 32 - 11) {t : Tid} {o : Obj}
    (ho : (RefThread.start s t).Sampled o) :
    ∃ k : ℕ, (issuedTo as)[k]? = some o ∧ k < 2 ^ 32 - 11 ∧
      (addrIn (RefThread.start s t) o).toNat = 10 + k := by
  rcases tagOf_start h t o with hneg | ⟨k, hk, htag⟩
  · rw [RefThread.Sampled, hneg] at ho
    exact absurd ho (by decide)
  · have hlt := (List.getElem?_eq_some_iff.mp hk).1
    refine ⟨k, hk, by omega, ?_⟩
    rw [addrIn, htag, addrOfTag_nthTag (by omega)]

lemma addrIn_unsampled (h : run Tags.step Tags.init as = some s)
    (hlen : (issuedTo as).length < 2 ^ 32 - 11) {t : Tid} {o : Obj}
    (ho : ¬ (RefThread.start s t).Sampled o) :
    addrIn (RefThread.start s t) o = 0xFFFFFFFF := by
  rcases tagOf_start h t o with hneg | ⟨k, hk, htag⟩
  · rw [addrIn, hneg]
    rfl
  · have hlt := (List.getElem?_eq_some_iff.mp hk).1
    rw [RefThread.Sampled, htag] at ho
    exact absurd (isSampledObject_nthTag (by omega)) ho

lemma addrIn_ne (h : run Tags.step Tags.init as = some s)
    (hlen : (issuedTo as).length < 2 ^ 32 - 11) {t : Tid} {o o' : Obj}
    (ho : (RefThread.start s t).Sampled o) (ho' : ¬ (RefThread.start s t).Sampled o') :
    addrIn (RefThread.start s t) o ≠ addrIn (RefThread.start s t) o' := by
  obtain ⟨k, -, hlt, haddr⟩ := addrIn_sampled h hlen ho
  intro heq
  rw [heq, addrIn_unsampled h hlen ho', show (0xFFFFFFFF : Addr).toNat = 2 ^ 32 - 1 from rfl]
    at haddr
  omega

/-- Two objects have one address exactly when they are one object or both have no sampled tag. -/
theorem addrIn_eq_iff (h : run Tags.step Tags.init as = some s)
    (hlen : (issuedTo as).length < 2 ^ 32 - 11) {t : Tid} {o o' : Obj} :
    addrIn (RefThread.start s t) o = addrIn (RefThread.start s t) o' ↔
      o = o' ∨ ¬ (RefThread.start s t).Sampled o ∧ ¬ (RefThread.start s t).Sampled o' := by
  constructor
  · intro heq
    by_cases ho : (RefThread.start s t).Sampled o
    · by_cases ho' : (RefThread.start s t).Sampled o'
      · obtain ⟨k, hk, -, haddr⟩ := addrIn_sampled h hlen ho
        obtain ⟨k', hk', -, haddr'⟩ := addrIn_sampled h hlen ho'
        obtain rfl : k = k' := by
          rw [heq] at haddr
          omega
        exact Or.inl (Option.some.inj (hk.symm.trans hk'))
      · exact absurd heq (addrIn_ne h hlen ho ho')
    · by_cases ho' : (RefThread.start s t).Sampled o'
      · exact absurd heq.symm (addrIn_ne h hlen ho' ho)
      · exact Or.inr ⟨ho, ho'⟩
  · rintro (rfl | ⟨ho, ho'⟩)
    · rfl
    · rw [addrIn_unsampled h hlen ho, addrIn_unsampled h hlen ho']

/-- **The records tell the holders apart** exactly when the holders without a sampled tag are one
object. -/
theorem holdersKept_iff (as : List (TagAct Tid Obj)) (s : Tags Tid Obj) (t : Tid)
    (h : run Tags.step Tags.init as = some s) (hlen : (issuedTo as).length < 2 ^ 32 - 11)
    (calls : List (RefCall Obj)) (hcalls : ∀ c ∈ calls, c.OfSampled (RefThread.start s t)) :
    HoldersKept ((RefThread.start s t).run calls) ↔
      ∀ c ∈ calls, ∀ c' ∈ calls, ∀ o o', c.holder = some o → c'.holder = some o' →
        ¬ (RefThread.start s t).Sampled o → ¬ (RefThread.start s t).Sampled o' → o = o' := by
  have hmem : ∀ p, p ∈ ((RefThread.start s t).run calls).written ↔
      ∃ c ∈ calls, ∃ o, c.holder = some o ∧ p = (some o, addrIn (RefThread.start s t) o) := by
    intro p
    rw [run_written hcalls]
    exact or_iff_right (List.not_mem_nil)
  unfold HoldersKept
  constructor
  · intro hkept c hc c' hc' o o' ho ho' hu hu'
    have hiff := hkept _ ((hmem _).mpr ⟨c, hc, o, ho, rfl⟩) _ ((hmem _).mpr ⟨c', hc', o', ho', rfl⟩)
    exact Option.some.inj (hiff.mp ((addrIn_eq_iff h hlen).mpr (Or.inr ⟨hu, hu'⟩)))
  · intro hone p hp q hq
    obtain ⟨c, hc, o, ho, rfl⟩ := (hmem p).mp hp
    obtain ⟨c', hc', o', ho', rfl⟩ := (hmem q).mp hq
    rw [addrIn_eq_iff h hlen, Option.some.injEq, or_iff_left_iff_imp]
    exact fun hu => hone c hc c' hc' o o' ho ho' hu.1 hu.2

end Start

end RefThread

/-! ### Holders without a tag -/

/-- Memory is zero, and the clock stands still. -/
def still : Ambient := ⟨0, fun _ => 0, []⟩

/-- A thread tags object `5` and stores it in a field of itself, and twice in an array that has no
tag. -/
theorem holdersKept_single : ∃ (as : List (TagAct ℕ ℕ)) (s : Tags ℕ ℕ) (calls : List (RefCall ℕ)),
    run Tags.step Tags.init as = some s ∧ calls.length = 3 ∧
      HoldersKept ((RefThread.start s 0).run calls) := by
  let as : List (TagAct ℕ ℕ) := [.addTagNewRecord 0 5, .advance 0, .advance 0, .advance 0]
  let s := (run Tags.step Tags.init as).get (by decide)
  let calls : List (RefCall ℕ) :=
    [.putField (some 5) (some 5) 1 0 7 still, .aaStore (some 0) 0 (some 5) 2 0 still,
      .aaStore (some 0) 1 (some 5) 2 0 still]
  have hs : (RefThread.start s 0).Sampled 5 := by decide
  have hholder : ∀ c ∈ calls, c.holder = some 5 ∨ c.holder = some 0 := by decide
  refine ⟨as, s, calls, by simp [s], rfl,
    (holdersKept_iff as s 0 (by simp [s]) (by decide) calls ?_).mpr ?_⟩
  · intro c hc
    have hr : c.ref = some 5 := (show ∀ c ∈ calls, c.ref = some 5 by decide) c hc
    exact ⟨(hholder c hc).elim (fun h => ⟨5, h⟩) fun h => ⟨0, h⟩, 5, hr, hs⟩
  · have hzero : ∀ c ∈ calls, ∀ o, c.holder = some o → ¬ (RefThread.start s 0).Sampled o →
        o = 0 := by
      intro c hc o ho hu
      rcases hholder c hc with h | h
      · rw [Option.some.inj (ho.symm.trans h)] at hu
        exact absurd hs hu
      · exact Option.some.inj (ho.symm.trans h)
    intro c hc c' hc' o o' ho ho' hu hu'
    rw [hzero c hc o ho hu, hzero c' hc' o' ho' hu']

/-- The records of two arrays without a tag both have the address `0xFFFFFFFF`. -/
theorem holders_confused : ¬ ∀ (as : List (TagAct ℕ ℕ)) (s : Tags ℕ ℕ) (t : ℕ)
    (calls : List (RefCall ℕ)), run Tags.step Tags.init as = some s →
      (issuedTo as).length < 2 ^ 32 - 11 → (∀ c ∈ calls, c.OfSampled (RefThread.start s t)) →
      HoldersKept ((RefThread.start s t).run calls) := by
  intro hall
  let as : List (TagAct ℕ ℕ) := [.addTagNewRecord 0 5, .advance 0, .advance 0, .advance 0]
  let s := (run Tags.step Tags.init as).get (by decide)
  let calls : List (RefCall ℕ) :=
    [.aaStore (some 0) 0 (some 5) 2 0 still, .aaStore (some 1) 0 (some 5) 2 0 still]
  have hs : (RefThread.start s 0).Sampled 5 := by decide
  have hcalls : ∀ c ∈ calls, c.OfSampled (RefThread.start s 0) := by
    intro c hc
    simp only [calls, List.mem_cons, List.not_mem_nil, or_false] at hc
    rcases hc with rfl | rfl
    · exact ⟨⟨0, rfl⟩, 5, rfl, hs⟩
    · exact ⟨⟨1, rfl⟩, 5, rfl, hs⟩
  have hwritten : ((RefThread.start s 0).run calls).written =
      [(some 0, 0xFFFFFFFF), (some 1, 0xFFFFFFFF)] := by decide
  have hkept := hall as s 0 calls (by simp [s]) (by decide) hcalls
  rw [HoldersKept, hwritten] at hkept
  exact absurd hkept (by decide)

end Cinst.Native
