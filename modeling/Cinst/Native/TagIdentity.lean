import Cinst.Native.References
import Cinst.Native.TagCalls

/-!
What the records of a process in tag mode say about its objects, for every interleaving of the
threads: every object that a record is made for has a NEW record (`process_sound`), and two records
name one object if and only if they have the same address (`addresses_identify`).
-/

namespace Cinst.Native

open Cinst.Lib Cinst.Record

section Identity

variable {Tid Obj : Type*}

/-- The address of the object that a record is made for: the one whose tag decides whether there is a
record. -/
def TagRecord.address : TagRecord → Addr
  | .new r => r.addr
  | .construct r => r.addr
  | .putField r => r.refAddr
  | .aaStore r => r.refAddr
  | .use r => r.addr
  | .container e => e.br.holderAddr
  | .lineInfo _ => 0

/-- The record is made for the object. -/
def Added.About (a : Added Tid Obj) (o : Obj) : Prop := ∃ p ∈ a.found.head?, p.1 = some o

lemma Added.Filled.address {a : Added Tid Obj} (h : a.Filled) {p : Option Obj × Int64}
    (hp : p ∈ a.found.head?) : a.record.address = addrOfTag p.2 := by
  obtain ⟨tid, record, found⟩ := a
  cases record with
  | new r | construct r | use r =>
    obtain ⟨obj, tag, rfl, haddr⟩ := h
    obtain rfl := Option.mem_some.mp hp
    exact haddr
  | putField r | aaStore r =>
    obtain ⟨ref, refTag, holder, tag, rfl, haddr, -⟩ := h
    obtain rfl := Option.mem_some.mp hp
    exact haddr
  | container e =>
    obtain ⟨call, tag, tags, time, rfl, -, rfl⟩ := h
    obtain rfl := Option.mem_some.mp hp
    cases call <;> rfl
  | lineInfo r =>
    obtain rfl : found = [] := h
    cases hp

variable [DecidableEq Tid] [DecidableEq Obj]

/-- The states that the threads of a process reach. -/
def Reached (s : TagThreads Tid Obj) : Prop :=
  ∃ as, run TagThreads.step (Threads.start TagProcess.init) as = some s

lemma ok_of_run {s : TagThreads Tid Obj} {as : List (ThreadAct Tid (TagCall Obj × (ℕ → Int64)) Time)}
    (h : run TagThreads.step (Threads.start TagProcess.init) as = some s) :
    tagProtocol.Ok Follows (fun t => as.filterMap fun a => a.callOf t) s :=
  Protocol.ok_run keeps_body (Protocol.ok_start tagInv_init follows_init) h

lemma Reached.inv {s : TagThreads Tid Obj} (h : Reached s) : TagInv s.shared := by
  obtain ⟨as, has⟩ := h
  exact (ok_of_run has).inv

/-- What holds of a process in a state that its threads reach. A thread inside a call can come to its
end, so no environment is used before it is made; the addresses of a record are the tags that were
found. What is found for an object is `-1` or the tag of a NEW record of the same object, and the
object that a record is made for has a NEW record, which is not later. As long as no more than
`2 ^ 64` tags were issued, no two NEW records have one tag. -/
structure ProcessSound (s : TagThreads Tid Obj) : Prop where
  finishes : ∀ t, ∃ n s', run TagThreads.step s (Threads.stepsOf t n) = some s' ∧ s'.prog t = none
  filled : ∀ a ∈ s.shared.added, a.Filled
  found : ∀ a ∈ s.shared.added, a.record.isNew = false → ∀ p ∈ a.found, ∀ o, p.1 = some o →
    p.2 = -1 ∨ ∃ n ∈ s.shared.added, n.IsNew o p.2
  allocated : ∀ a ∈ s.shared.added, a.record.isNew = false → ∀ p ∈ a.found.head?, ∀ o,
    p.1 = some o → ∃ n ∈ s.shared.added, n.IsNew o p.2 ∧
      (a.record.isPutField = false → n.record.time ≤ a.record.time)
  distinct : s.shared.issued.length ≤ 2 ^ 64 → (s.shared.added.filterMap Added.newTag?).Nodup

/-- **Tags in every interleaving.** -/
theorem process_sound (s : TagThreads Tid Obj) (h : Reached s) : ProcessSound s := by
  have hinv := h.inv
  have hunknown : isSampledObject (-1) = false := by decide
  refine ⟨fun t => ?_, fun a ha => (hinv.sound a ha).filled, fun a ha hnew p hp o ho => ?_,
    fun a ha hnew p hp o ho => ?_, hinv.distinct⟩
  · obtain ⟨as, has⟩ := h
    exact (ok_of_run has).finishes keeps_body t
  · obtain ⟨time, hans⟩ := (hinv.sound a ha).answered hnew p hp
    refine (hans.2 o ho).imp_right fun ⟨n, hn, hisNew, _⟩ => ⟨n, hn, hisNew⟩
  · have hsound := hinv.sound a ha
    have hsampled := hsound.sampled hnew p hp
    have hne : p.2 ≠ -1 := by
      intro hneg
      rw [hneg, hunknown] at hsampled
      cases hsampled
    cases hput : a.record.isPutField with
    | false =>
      obtain ⟨n, hn, hisNew, hle⟩ := ((hsound.causal hnew hput p hp).2 o ho).resolve_left hne
      exact ⟨n, hn, hisNew, fun _ => hle⟩
    | true =>
      obtain ⟨time, hans⟩ := hsound.answered hnew p (List.mem_of_mem_head? hp)
      obtain ⟨n, hn, hisNew, -⟩ := (hans.2 o ho).resolve_left hne
      exact ⟨n, hn, hisNew, fun h => by cases h⟩

/-- A thread allocates an object. Another one finds the environments of the first, and its tag for the
object, and allocates an object as well. -/
def newFoundNew : List (ThreadAct Bool (TagCall ℕ × (ℕ → Int64)) Time) :=
  .call false (.new false (some 5) 3 12 0 24, fun _ => 0) :: (Threads.stepsOf false 3087 ++
    .env 7 :: .call true (.construct (some 5) 3 12 0, fun _ => 0) :: (Threads.stepsOf true 11 ++
      .call true (.new false (some 6) 3 14 0 16, fun _ => 0) :: Threads.stepsOf true 9))

lemma newFoundNew_run :
    (run TagThreads.step (Threads.start TagProcess.init) newFoundNew).isSome := by
  decide +kernel

theorem process_sound_new : ∃ s : TagThreads Bool ℕ,
    s.shared.added.map (fun a => (a.tid, a.record.address)) = [(false, 10), (true, 10), (true, 11)] ∧
      s.shared.issued.length ≤ 2 ^ 64 ∧ ProcessSound s := by
  refine ⟨(run TagThreads.step (Threads.start TagProcess.init) newFoundNew).get newFoundNew_run, ?_, ?_,
    process_sound _ ⟨newFoundNew, by simp⟩⟩ <;> decide +kernel

/-! ### Addresses -/

omit [DecidableEq Tid] [DecidableEq Obj] in
lemma Added.IsNew.issued {s : TagProcess Tid Obj} (h : TagInv s) {n : Added Tid Obj} (hn : n ∈ s.added)
    {o : Obj} {tag : Int64} (hnew : n.IsNew o tag) :
    ∃ k : ℕ, s.issued[k]? = some (n.tid, some o) ∧ tag = nthTag k := by
  obtain ⟨hfound, r, hr⟩ := hnew
  obtain ⟨k, obj, hk, hfound'⟩ := h.news n hn (by rw [hr]; rfl)
  rw [hfound, List.cons.injEq, Prod.mk.injEq] at hfound'
  obtain ⟨⟨rfl, rfl⟩, -⟩ := hfound'
  exact ⟨k, hk, rfl⟩

lemma Reached.address {s : TagThreads Tid Obj} (h : Reached s) {a : Added Tid Obj}
    (ha : a ∈ s.shared.added) {o : Obj} (habout : a.About o) :
    ∃ (k : ℕ) (tid : Tid), s.shared.issued[k]? = some (tid, some o) ∧
      a.record.address = addrOfTag (nthTag k) := by
  have hsound := process_sound s h
  obtain ⟨p, hp, ho⟩ := habout
  have haddr := (hsound.filled a ha).address hp
  cases hnew : a.record.isNew with
  | true =>
    obtain ⟨k, obj, hk, hfound⟩ := h.inv.news a ha hnew
    rw [hfound, List.head?_cons, Option.mem_some] at hp
    subst hp
    obtain rfl : obj = some o := ho
    exact ⟨k, a.tid, hk, haddr⟩
  | false =>
    obtain ⟨n, hn, hisNew, -⟩ := hsound.allocated a ha hnew p hp o ho
    obtain ⟨k, hk, htag⟩ := hisNew.issued h.inv hn
    rw [htag] at haddr
    exact ⟨k, n.tid, hk, haddr⟩

omit [DecidableEq Tid] [DecidableEq Obj] in
lemma issued_unique {l : List (Tid × Option Obj)} (h : (l.filterMap Prod.snd).Nodup) {k k' : ℕ}
    {tid tid' : Tid} {o : Obj} (hk : l[k]? = some (tid, some o)) (hk' : l[k']? = some (tid', some o)) :
    k = k' := by
  induction l generalizing k k' with
  | nil => simp at hk
  | cons p l ih =>
    obtain ⟨t, obj⟩ := p
    have hmem : ∀ {i : ℕ} {tid : Tid}, l[i]? = some (tid, some o) → o ∈ l.filterMap Prod.snd :=
      fun hi => List.mem_filterMap.mpr ⟨_, List.mem_of_getElem? hi, rfl⟩
    have htail : (l.filterMap Prod.snd).Nodup :=
      h.sublist ((List.sublist_cons_self _ _).filterMap _)
    have hhead : obj = some o → o ∉ l.filterMap Prod.snd := by
      rintro rfl
      exact (List.nodup_cons.mp h).1
    cases k with
    | zero =>
      obtain rfl : obj = some o := congrArg Prod.snd (Option.some.inj hk)
      cases k' with
      | zero => rfl
      | succ k' => exact absurd (hmem hk') (hhead rfl)
    | succ k =>
      cases k' with
      | zero =>
        obtain rfl : obj = some o := congrArg Prod.snd (Option.some.inj hk')
        exact absurd (hmem hk) (hhead rfl)
      | succ k' => exact congrArg Nat.succ (ih htail hk hk')

/-- **Records name objects.** As long as fewer than `2 ^ 32 - 11` tags are issued and no object is
tagged by two calls, the records of all threads have the same address if and only if they are made
for the same object, and this address is not that of a null reference or of an object without a tag. -/
theorem addresses_identify (s : TagThreads Tid Obj) (h : Reached s)
    (hcount : s.shared.issued.length < 2 ^ 32 - 11)
    (honce : (s.shared.issued.filterMap Prod.snd).Nodup) :
    ∀ a ∈ s.shared.added, ∀ b ∈ s.shared.added, ∀ o o', a.About o → b.About o' →
      (a.record.address = b.record.address ↔ o = o') ∧ a.record.address ≠ 0 ∧
        a.record.address ≠ 0xFFFFFFFF := by
  intro a ha b hb o o' hao hbo'
  obtain ⟨k, tid, hk, haddr⟩ := h.address ha hao
  obtain ⟨k', tid', hk', haddr'⟩ := h.address hb hbo'
  have hlt := (List.getElem?_eq_some_iff.mp hk).1
  have hlt' := (List.getElem?_eq_some_iff.mp hk').1
  have hval : a.record.address.toNat = 10 + k := by rw [haddr, addrOfTag_nthTag (by omega)]
  have hval' : b.record.address.toNat = 10 + k' := by rw [haddr', addrOfTag_nthTag (by omega)]
  refine ⟨⟨fun heq => ?_, fun heq => ?_⟩, fun h0 => ?_, fun hunknown => ?_⟩
  · rw [heq, hval'] at hval
    obtain rfl : k = k' := by omega
    rw [hk] at hk'
    exact Option.some.inj (congrArg Prod.snd (Option.some.inj hk'))
  · subst heq
    obtain rfl := issued_unique honce hk hk'
    rw [haddr, haddr']
  · rw [h0, show (0 : Addr).toNat = 0 from rfl] at hval
    omega
  · rw [hunknown, show (0xFFFFFFFF : Addr).toNat = 2 ^ 32 - 1 from rfl] at hval
    omega

/-- Two threads have added the NEW records of two objects. -/
theorem addresses_identify_two : ∃ s : TagThreads ℕ ℕ, s.shared.added.length = 2 ∧
    ∀ a ∈ s.shared.added, ∀ b ∈ s.shared.added, ∀ o o', a.About o → b.About o' →
      (a.record.address = b.record.address ↔ o = o') ∧ a.record.address ≠ 0 ∧
        a.record.address ≠ 0xFFFFFFFF := by
  let as : List (ThreadAct ℕ (TagCall ℕ × (ℕ → Int64)) Time) :=
    [.call 0 (.new false (some 5) 3 12 0 24, fun _ => 0), .step 0, .env 7, .step 0,
      .call 1 (.new false (some 6) 3 12 0 24, fun _ => 0), .step 1, .step 1, .step 1, .step 0]
  have hsome : (run TagThreads.step (Threads.start TagProcess.init) as).isSome := rfl
  let s := (run TagThreads.step (Threads.start TagProcess.init) as).get hsome
  have hissued : s.shared.issued = [(0, some 5), (1, some 6)] := rfl
  exact ⟨s, rfl, addresses_identify s ⟨as, by simp [s]⟩ (by rw [hissued]; decide)
    (by rw [hissued]; decide)⟩

end Identity

end Cinst.Native
