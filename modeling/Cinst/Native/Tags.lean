import Cinst.Lib.Run
import Cinst.Record.Types

/-!
Object tags of the native library: a global tag map, one tag map per thread in front of it, and the
counter `global_tag`. Threads interleave in single steps, one `GetTag`, `SetTag`, increment of the
counter or NEW record each.

A tag that is read for an object was issued for it and has a NEW record (`Issued`). Tags identify
objects as long as the counter of 64 bits does not come round (`tag_soundness`).
-/

namespace Cinst.Native

open Cinst.Lib Cinst.Record

/-! ### The steps of `addTagNewRecord` and `get_tag` -/

/-- `NOT_SAMPLED_MASK`. -/
def notSampledMask : Int64 := (1 : Int64) <<< 63

/-- `is_sampled_object`. -/
def isSampledObject (tag : Int64) : Bool :=
  tag != 0 && !(tag &&& notSampledMask != 0) && tag != -1

/-- The address that a record stores for an object with this tag: `r.addr = tag`. -/
def addrOfTag (tag : Int64) : Addr := tag.toUInt64.toUInt32

/-- The record of `addTagNewRecord`: the line and the class have 16 bits. -/
def tagNewRecord (tag : Int64) (objTypeid line classNameId : Int32) (objSize : Int64)
    (time : Time) : NewRecord where
  line := line.toUInt32.toUInt16
  classNameId := classNameId.toUInt32.toUInt16
  objTypeid := objTypeid
  objSize := objSize.toUInt64.toUInt32
  addr := addrOfTag tag
  time := time

/-- Where a thread is: between two calls, or inside `addTagNewRecord` or `get_tag` on an object. A
call of `get_tag` remembers when it started. -/
inductive Pc (Obj : Type*) where
  | idle
  /-- The counter is incremented. -/
  | tagged (o : Obj) (tag : Int64)
  /-- The NEW record is added. -/
  | recorded (o : Obj) (tag : Int64)
  /-- `set_tag` has written the tag map of the thread. -/
  | cached (o : Obj) (tag : Int64)
  /-- The tag map of the thread has no tag. -/
  | missed (o : Obj) (start : ℕ)
  /-- The global tag map has answered. -/
  | looked (o : Obj) (tag : Int64) (start : ℕ)

/-- The result of a call of `get_tag` that started at `start`. -/
structure Yield (Obj : Type*) where
  obj : Obj
  tag : Int64
  start : ℕ

/-- The tag maps (`0` for no tag), the counter, and the threads. The NEW records added and the
results of `get_tag` are kept with their objects, and the steps are counted. -/
structure Tags (Tid Obj : Type*) where
  globalTag : Int64
  jvmtiEnv : Obj → Int64
  localEnv : Tid → Obj → Int64
  pc : Tid → Pc Obj
  news : List (Obj × Int64)
  yields : List (Yield Obj)
  now : ℕ

/-- A thread starts a call with its first step, or takes the next step of its call. -/
inductive TagAct (Tid Obj : Type*) where
  | addTagNewRecord (t : Tid) (o : Obj)
  | getTag (t : Tid) (o : Obj)
  | advance (t : Tid)

section Tags

variable {Tid Obj : Type*} [DecidableEq Tid] [DecidableEq Obj]

namespace Tags

/-- Before the first call nothing is tagged. -/
def init : Tags Tid Obj := ⟨10, fun _ => 0, fun _ _ => 0, fun _ => .idle, [], [], 0⟩

/-- `SetTag` on the tag map of the thread `t`. -/
def setLocal (s : Tags Tid Obj) (t : Tid) (o : Obj) (tag : Int64) : Tid → Obj → Int64 :=
  Function.update s.localEnv t (Function.update (s.localEnv t) o tag)

/-- What `get_tag` answers and remembers when the global tag map answers `tag`. -/
def answer (tag : Int64) : Int64 := if tag ≠ 0 then tag else -1

/-- One step. -/
def step (s : Tags Tid Obj) : TagAct Tid Obj → Option (Tags Tid Obj)
  | .addTagNewRecord t o =>
    match s.pc t with
    | .idle => some
      { s with
        globalTag := s.globalTag + 1
        pc := Function.update s.pc t (.tagged o s.globalTag)
        now := s.now + 1 }
    | _ => none
  | .getTag t o =>
    match s.pc t with
    | .idle =>
      if s.localEnv t o ≠ 0 then
        some { s with yields := ⟨o, s.localEnv t o, s.now⟩ :: s.yields, now := s.now + 1 }
      else
        some { s with pc := Function.update s.pc t (.missed o s.now), now := s.now + 1 }
    | _ => none
  | .advance t =>
    match s.pc t with
    | .idle => none
    | .tagged o tag => some
      { s with
        news := (o, tag) :: s.news
        pc := Function.update s.pc t (.recorded o tag)
        now := s.now + 1 }
    | .recorded o tag => some
      { s with
        localEnv := s.setLocal t o tag
        pc := Function.update s.pc t (.cached o tag)
        now := s.now + 1 }
    | .cached o tag => some
      { s with
        jvmtiEnv := Function.update s.jvmtiEnv o tag
        pc := Function.update s.pc t .idle
        now := s.now + 1 }
    | .missed o start => some
      { s with
        pc := Function.update s.pc t (.looked o (s.jvmtiEnv o) start)
        now := s.now + 1 }
    | .looked o tag start => some
      { s with
        localEnv := s.setLocal t o (answer tag)
        yields := ⟨o, answer tag, start⟩ :: s.yields
        pc := Function.update s.pc t .idle
        now := s.now + 1 }

end Tags

/-- The steps as a relation, one case for each kind. -/
inductive TagStep (s : Tags Tid Obj) : TagAct Tid Obj → Tags Tid Obj → Prop
  | issue (t o) (h : s.pc t = .idle) : TagStep s (.addTagNewRecord t o)
      { s with
        globalTag := s.globalTag + 1
        pc := Function.update s.pc t (.tagged o s.globalTag)
        now := s.now + 1 }
  | hit (t o) (h : s.pc t = .idle) (hl : s.localEnv t o ≠ 0) : TagStep s (.getTag t o)
      { s with yields := ⟨o, s.localEnv t o, s.now⟩ :: s.yields, now := s.now + 1 }
  | miss (t o) (h : s.pc t = .idle) (hl : s.localEnv t o = 0) : TagStep s (.getTag t o)
      { s with pc := Function.update s.pc t (.missed o s.now), now := s.now + 1 }
  | record (t o tag) (h : s.pc t = .tagged o tag) : TagStep s (.advance t)
      { s with
        news := (o, tag) :: s.news
        pc := Function.update s.pc t (.recorded o tag)
        now := s.now + 1 }
  | cache (t o tag) (h : s.pc t = .recorded o tag) : TagStep s (.advance t)
      { s with
        localEnv := s.setLocal t o tag
        pc := Function.update s.pc t (.cached o tag)
        now := s.now + 1 }
  | publish (t o tag) (h : s.pc t = .cached o tag) : TagStep s (.advance t)
      { s with
        jvmtiEnv := Function.update s.jvmtiEnv o tag
        pc := Function.update s.pc t .idle
        now := s.now + 1 }
  | look (t o start) (h : s.pc t = .missed o start) : TagStep s (.advance t)
      { s with
        pc := Function.update s.pc t (.looked o (s.jvmtiEnv o) start)
        now := s.now + 1 }
  | fill (t o tag start) (h : s.pc t = .looked o tag start) : TagStep s (.advance t)
      { s with
        localEnv := s.setLocal t o (Tags.answer tag)
        yields := ⟨o, Tags.answer tag, start⟩ :: s.yields
        pc := Function.update s.pc t .idle
        now := s.now + 1 }

/-- **Inversion of a step.** -/
theorem tagStep_iff {s s' : Tags Tid Obj} {a : TagAct Tid Obj} :
    s.step a = some s' ↔ TagStep s a s' := by
  constructor
  · intro h
    cases a with
    | addTagNewRecord t o =>
      simp only [Tags.step] at h
      split at h
      · cases h
        exact .issue t o ‹_›
      · cases h
    | getTag t o =>
      simp only [Tags.step] at h
      split at h
      · split at h
        · cases h
          exact .hit t o ‹_› ‹_›
        · cases h
          exact .miss t o ‹_› (not_not.mp ‹_›)
      · cases h
    | advance t =>
      simp only [Tags.step] at h
      split at h
      · cases h
      · cases h
        exact .record t _ _ ‹_›
      · cases h
        exact .cache t _ _ ‹_›
      · cases h
        exact .publish t _ _ ‹_›
      · cases h
        exact .look t _ _ ‹_›
      · cases h
        exact .fill t _ _ _ ‹_›
  · intro h
    cases h <;> simp [Tags.step, *]

/-! ### Issued tags -/

/-- The objects that tags were issued for, in the order of the counter. -/
def issuedTo (as : List (TagAct Tid Obj)) : List Obj :=
  as.filterMap fun a => match a with
    | .addTagNewRecord _ o => some o
    | _ => none

/-- The tag that the counter issues after `k` other ones. -/
def nthTag (k : ℕ) : Int64 := Int64.ofNat (10 + k)

/-- The tag that a thread holds inside a call was issued for the object of the call; from the NEW
record on it is among the recorded ones. -/
def PcIssued (objs : List Obj) (news : List (Obj × Int64)) : Pc Obj → Prop
  | .idle => True
  | .tagged o tag => ∃ k : ℕ, objs[k]? = some o ∧ tag = nthTag k
  | .recorded o tag => (o, tag) ∈ news
  | .cached o tag => (o, tag) ∈ news
  | .missed _ _ => True
  | .looked o tag _ => tag = 0 ∨ (o, tag) ∈ news

/-- Every tag in a map, a record or a result was issued for its object, and has a NEW record as soon
as it can be read. -/
structure Issued (objs : List Obj) (s : Tags Tid Obj) : Prop where
  counter : s.globalTag = nthTag objs.length
  news : ∀ p ∈ s.news, ∃ k : ℕ, objs[k]? = some p.1 ∧ p.2 = nthTag k
  pc : ∀ t, PcIssued objs s.news (s.pc t)
  jvmtiEnv : ∀ o, s.jvmtiEnv o = 0 ∨ (o, s.jvmtiEnv o) ∈ s.news
  localEnv : ∀ t o, s.localEnv t o = 0 ∨ s.localEnv t o = -1 ∨ (o, s.localEnv t o) ∈ s.news
  yields : ∀ y ∈ s.yields, y.tag = -1 ∨ (y.obj, y.tag) ∈ s.news

omit [DecidableEq Tid] [DecidableEq Obj] in
lemma issuedTo_snoc (as : List (TagAct Tid Obj)) (a : TagAct Tid Obj) :
    issuedTo (as ++ [a]) = issuedTo as ++ issuedTo [a] :=
  List.filterMap_append ..

omit [DecidableEq Tid] [DecidableEq Obj] in
@[simp] lemma issuedTo_advance (t : Tid) : issuedTo [(.advance t : TagAct Tid Obj)] = [] := rfl

omit [DecidableEq Tid] [DecidableEq Obj] in
@[simp] lemma issuedTo_getTag (t : Tid) (o : Obj) : issuedTo [TagAct.getTag t o] = [] := rfl

lemma nthTag_succ (k : ℕ) : nthTag k + 1 = nthTag (k + 1) := by
  rw [nthTag, nthTag, ← Nat.add_assoc, Int64.ofNat_add (10 + k) 1]
  rfl

omit [DecidableEq Tid] [DecidableEq Obj] in
lemma issued_init : Issued [] (Tags.init : Tags Tid Obj) := by
  constructor <;> simp [Tags.init, nthTag, PcIssued]

omit [DecidableEq Obj] in
lemma PcIssued.mono {objs : List Obj} {news : List (Obj × Int64)} {p : Pc Obj}
    (h : PcIssued objs news p) (objs' : List Obj) {news' : List (Obj × Int64)}
    (hnews : ∀ x ∈ news, x ∈ news') : PcIssued (objs ++ objs') news' p := by
  cases p with
  | idle | missed => trivial
  | tagged o tag =>
    obtain ⟨k, hk, rfl⟩ := h
    refine ⟨k, ?_, rfl⟩
    rw [List.getElem?_append_left (List.getElem?_eq_some_iff.mp hk).1, hk]
  | recorded o tag | cached o tag => exact hnews _ h
  | looked o tag start => exact h.imp_right (hnews _)

lemma setLocal_eq (s : Tags Tid Obj) (t : Tid) (o : Obj) (tag : Int64) (t' : Tid) (o' : Obj) :
    s.setLocal t o tag t' o' = if t' = t ∧ o' = o then tag else s.localEnv t' o' := by
  unfold Tags.setLocal
  by_cases ht : t' = t
  · subst ht
    by_cases ho : o' = o <;> simp [ho]
  · simp [ht]

lemma answer_cases (tag : Int64) : Tags.answer tag = -1 ∨ Tags.answer tag = tag ∧ tag ≠ 0 := by
  unfold Tags.answer
  split
  · exact Or.inr ⟨rfl, ‹_›⟩
  · exact Or.inl rfl

omit [DecidableEq Tid] [DecidableEq Obj] in
lemma Issued.pc_of_eq {objs : List Obj} {s : Tags Tid Obj} (h : Issued objs s) {t : Tid} {p : Pc Obj}
    (hpc : s.pc t = p) : PcIssued objs s.news p :=
  hpc ▸ h.pc t

omit [DecidableEq Obj] in
lemma Issued.pc_update {objs : List Obj} {s : Tags Tid Obj} (h : Issued objs s)
    (objs' : List Obj) {news' : List (Obj × Int64)} (hnews : ∀ x ∈ s.news, x ∈ news') {t : Tid}
    {p : Pc Obj} (hp : PcIssued (objs ++ objs') news' p) (t' : Tid) :
    PcIssued (objs ++ objs') news' (Function.update s.pc t p t') :=
  (Function.forall_update_iff s.pc fun _ q => PcIssued (objs ++ objs') news' q).mpr
    ⟨hp, fun t' _ => (h.pc t').mono objs' hnews⟩ t'

lemma Issued.localEnv_setLocal {objs : List Obj} {s : Tags Tid Obj} (h : Issued objs s) (t : Tid)
    {o : Obj} {tag : Int64} (htag : tag = -1 ∨ (o, tag) ∈ s.news) (t' : Tid) (o' : Obj) :
    s.setLocal t o tag t' o' = 0 ∨ s.setLocal t o tag t' o' = -1 ∨
      (o', s.setLocal t o tag t' o') ∈ s.news := by
  rw [setLocal_eq]
  split_ifs with hto
  · obtain ⟨rfl, rfl⟩ := hto
    exact Or.inr htag
  · exact h.localEnv t' o'

/-- **A step keeps every tag issued.** -/
theorem Issued.step {objs : List Obj} {s s' : Tags Tid Obj} {a : TagAct Tid Obj}
    (h : Issued objs s) (hs : s.step a = some s') : Issued (objs ++ issuedTo [a]) s' := by
  have hquiet : ∀ (t : Tid) (p : Pc Obj) (news' : List (Obj × Int64)),
      (∀ x ∈ s.news, x ∈ news') → PcIssued objs news' p →
      ∀ t', PcIssued objs news' (Function.update s.pc t p t') := by
    intro t p news' hnews hp
    have := h.pc_update [] hnews (t := t) (p := p)
    rw [List.append_nil] at this
    exact this hp
  cases tagStep_iff.mp hs with
  | issue t o hpc =>
    have hlen : objs.length < (objs ++ [o]).length := by simp
    refine ⟨?_, fun p hp => ?_, h.pc_update [o] (fun _ hx => hx) ?_, h.jvmtiEnv, h.localEnv, h.yields⟩
    · rw [h.counter, nthTag_succ]
      simp [issuedTo]
    · obtain ⟨k, hk, hp⟩ := h.news p hp
      refine ⟨k, ?_, hp⟩
      rw [List.getElem?_append_left (List.getElem?_eq_some_iff.mp hk).1, hk]
    · exact ⟨objs.length, by simp, h.counter⟩
  | hit t o hpc hl =>
    rw [issuedTo_getTag, List.append_nil]
    refine ⟨h.counter, h.news, h.pc, h.jvmtiEnv, h.localEnv, fun y hy => ?_⟩
    rcases List.mem_cons.mp hy with rfl | hy
    · exact (h.localEnv t o).resolve_left hl
    · exact h.yields y hy
  | miss t o hpc hl =>
    rw [issuedTo_getTag, List.append_nil]
    have hpc'' := hquiet t (.missed o s.now) s.news (fun _ hx => hx) trivial
    exact ⟨h.counter, h.news, hpc'', h.jvmtiEnv, h.localEnv, h.yields⟩
  | record t o tag hpc =>
    rw [issuedTo_advance, List.append_nil]
    have hpc' := h.pc_of_eq hpc
    have hpc'' := hquiet t (.recorded o tag) ((o, tag) :: s.news) (fun x => List.mem_cons_of_mem _)
      (List.mem_cons_self ..)
    refine ⟨h.counter, fun p hp => ?_, hpc'', fun o' => (h.jvmtiEnv o').imp_right
      (List.mem_cons_of_mem _), fun t' o' => (h.localEnv t' o').imp_right
      (Or.imp_right (List.mem_cons_of_mem _)), fun y hy => (h.yields y hy).imp_right
      (List.mem_cons_of_mem _)⟩
    rcases List.mem_cons.mp hp with rfl | hp
    · exact hpc'
    · exact h.news p hp
  | cache t o tag hpc =>
    rw [issuedTo_advance, List.append_nil]
    have hpc' := h.pc_of_eq hpc
    have hpc'' := hquiet t (.cached o tag) s.news (fun _ hx => hx) hpc'
    exact ⟨h.counter, h.news, hpc'', h.jvmtiEnv, h.localEnv_setLocal t (Or.inr hpc'), h.yields⟩
  | publish t o tag hpc =>
    rw [issuedTo_advance, List.append_nil]
    have hpc' := h.pc_of_eq hpc
    have hpc'' := hquiet t .idle s.news (fun _ hx => hx) trivial
    refine ⟨h.counter, h.news, hpc'', fun o' => ?_, h.localEnv, h.yields⟩
    by_cases ho : o' = o
    · subst ho
      dsimp only
      rw [Function.update_self]
      exact Or.inr hpc'
    · dsimp only
      rw [Function.update_of_ne ho]
      exact h.jvmtiEnv o'
  | look t o start hpc =>
    rw [issuedTo_advance, List.append_nil]
    have hpc'' := hquiet t (.looked o (s.jvmtiEnv o) start) s.news (fun _ hx => hx) (h.jvmtiEnv o)
    exact ⟨h.counter, h.news, hpc'', h.jvmtiEnv, h.localEnv, h.yields⟩
  | fill t o tag start hpc =>
    rw [issuedTo_advance, List.append_nil]
    have hpc' := h.pc_of_eq hpc
    have hans : Tags.answer tag = -1 ∨ (o, Tags.answer tag) ∈ s.news := by
      refine (answer_cases tag).imp_right fun ⟨he, hne⟩ => ?_
      rw [he]
      exact hpc'.resolve_left hne
    have hpc'' := hquiet t .idle s.news (fun _ hx => hx) trivial
    refine ⟨h.counter, h.news, hpc'', h.jvmtiEnv, h.localEnv_setLocal t hans, fun y hy => ?_⟩
    rcases List.mem_cons.mp hy with rfl | hy
    · exact hans
    · exact h.yields y hy

/-- **Every tag is issued, in every reachable state.** -/
theorem issued_run {as : List (TagAct Tid Obj)} {s : Tags Tid Obj}
    (h : run Tags.step Tags.init as = some s) : Issued (issuedTo as) s := by
  refine run_invariant (fun as s => Issued (issuedTo as) s) issued_init
    (fun as s a s' _ ih hs => ?_) h
  rw [issuedTo_snoc]
  exact ih.step hs

/-! ### Tags identify objects -/

/-- The counter is below `2 ^ 32 - 1` at the start and after every step. -/
def StaysBelow (as : List (TagAct Tid Obj)) : Prop :=
  ∀ bs s, bs <+: as → run Tags.step Tags.init bs = some s → s.globalTag < 4294967295

/-- What the tags read so far say in a state `s` that the steps `as` lead to. A sampled tag has a NEW
record for its object, and tags identify objects while the counter has not come round; while it is
below `2 ^ 32 - 1`, so do the addresses that records store. -/
structure TagSound (as : List (TagAct Tid Obj)) (s : Tags Tid Obj) : Prop where
  recorded : ∀ y ∈ s.yields, isSampledObject y.tag → (y.obj, y.tag) ∈ s.news
  identifies : (issuedTo as).length ≤ 2 ^ 64 → ∀ y ∈ s.yields, ∀ y' ∈ s.yields,
    isSampledObject y.tag → y'.tag = y.tag → y'.obj = y.obj
  addrRecorded : StaysBelow as → ∀ y ∈ s.yields, isSampledObject y.tag →
    ∃ p ∈ s.news, p.1 = y.obj ∧ addrOfTag p.2 = addrOfTag y.tag
  addrIdentifies : StaysBelow as → ∀ y ∈ s.yields, ∀ y' ∈ s.yields,
    isSampledObject y.tag → isSampledObject y'.tag → addrOfTag y'.tag = addrOfTag y.tag →
    y'.obj = y.obj
  addrReserved : StaysBelow as → ∀ y ∈ s.yields, isSampledObject y.tag →
    addrOfTag y.tag ≠ 0 ∧ addrOfTag y.tag ≠ 0xFFFFFFFF

lemma nthTag_inj {k k' : ℕ} (hk : k < 2 ^ 64) (hk' : k' < 2 ^ 64) (h : nthTag k = nthTag k') :
    k = k' := by
  have := congrArg (fun x : Int64 => x.toUInt64.toNat) h
  simp only [nthTag, Int64.toUInt64_ofNat', UInt64.toNat_ofNat'] at this
  omega

lemma addrOfTag_nthTag {k : ℕ} (hk : 10 + k < 2 ^ 32) : (addrOfTag (nthTag k)).toNat = 10 + k := by
  rw [addrOfTag, nthTag, Int64.toUInt64_ofNat', UInt64.toNat_toUInt32, UInt64.toNat_ofNat']
  omega

lemma StaysBelow.length {as : List (TagAct Tid Obj)} {s : Tags Tid Obj} (hb : StaysBelow as)
    (h : run Tags.step Tags.init as = some s) : 10 + (issuedTo as).length < 2 ^ 32 - 1 := by
  induction as using List.reverseRecOn generalizing s with
  | nil => simp [issuedTo]
  | append_singleton as a ih =>
    obtain ⟨s', h', -⟩ := exists_of_run_snoc h
    have hprev := ih (fun bs s hbs => hb bs s (hbs.trans (List.prefix_append ..))) h'
    have hlt := hb _ s (List.prefix_refl _) h
    have hle : (issuedTo (as ++ [a])).length ≤ (issuedTo as).length + 1 := by
      rw [issuedTo_snoc, List.length_append]
      cases a <;> simp [issuedTo]
    rw [(issued_run h).counter, Int64.lt_iff_toInt_lt, nthTag,
      Int64.toInt_ofNat_of_lt (by omega)] at hlt
    have h4 : (4294967295 : Int64).toInt = 4294967295 := by decide
    omega

/-- **Tag soundness**, in every state that any interleaving reaches. -/
theorem tag_soundness (as : List (TagAct Tid Obj)) (s : Tags Tid Obj)
    (h : run Tags.step Tags.init as = some s) : TagSound as s := by
  have hi := issued_run h
  have hrec : ∀ y ∈ s.yields, isSampledObject y.tag → (y.obj, y.tag) ∈ s.news := by
    intro y hy hs
    refine (hi.yields y hy).resolve_left fun hneg => ?_
    rw [hneg] at hs
    exact absurd hs (by decide)
  have hnth : ∀ y ∈ s.yields, isSampledObject y.tag →
      ∃ k : ℕ, (issuedTo as)[k]? = some y.obj ∧ y.tag = nthTag k ∧ k < (issuedTo as).length := by
    intro y hy hs
    obtain ⟨k, hk, ht⟩ := hi.news _ (hrec y hy hs)
    exact ⟨k, hk, ht, (List.getElem?_eq_some_iff.mp hk).1⟩
  refine ⟨hrec, fun hlen y hy y' hy' hs heq => ?_,
    fun _ y hy hs => ⟨_, hrec y hy hs, rfl, rfl⟩, fun hb y hy y' hy' hs hs' heq => ?_,
    fun hb y hy hs => ?_⟩
  · obtain ⟨k, hk, ht, hlt⟩ := hnth y hy hs
    obtain ⟨k', hk', ht', hlt'⟩ := hnth y' hy' (heq ▸ hs)
    obtain rfl := nthTag_inj (by omega) (by omega) (ht'.symm.trans (heq.trans ht))
    rw [hk] at hk'
    exact (Option.some.inj hk').symm
  · have hlen := hb.length h
    obtain ⟨k, hk, ht, hlt⟩ := hnth y hy hs
    obtain ⟨k', hk', ht', hlt'⟩ := hnth y' hy' hs'
    rw [ht, ht'] at heq
    have hval := congrArg UInt32.toNat heq
    rw [addrOfTag_nthTag (by omega), addrOfTag_nthTag (by omega)] at hval
    obtain rfl : k' = k := by omega
    rw [hk] at hk'
    exact (Option.some.inj hk').symm
  · have hlen := hb.length h
    obtain ⟨k, hk, ht, hlt⟩ := hnth y hy hs
    have hval := addrOfTag_nthTag (k := k) (by omega)
    rw [ht]
    constructor
    · intro h0
      rw [h0, UInt32.toNat_zero] at hval
      omega
    · intro hF
      rw [hF, show (0xFFFFFFFF : UInt32).toNat = 2 ^ 32 - 1 from rfl] at hval
      omega

/-- Two threads, three objects; one object is tagged twice. -/
theorem tag_soundness_two : ∃ (as : List (TagAct ℕ ℕ)) (s : Tags ℕ ℕ),
    run Tags.step Tags.init as = some s ∧ s.yields.length = 3 ∧ TagSound as s := by
  let as : List (TagAct ℕ ℕ) :=
    [.addTagNewRecord 0 5, .addTagNewRecord 1 6, .advance 0, .advance 1, .advance 0, .advance 0,
      .getTag 0 5, .advance 1, .getTag 0 6, .advance 1, .advance 0, .advance 0,
      .addTagNewRecord 0 5, .advance 0, .advance 0, .advance 0, .getTag 0 5]
  exact ⟨as, (run Tags.step Tags.init as).get (by decide), by simp, by decide,
    tag_soundness as _ (by simp)⟩

/-! ### The counter comes round -/

/-- A whole call of `addTagNewRecord`. -/
def tagRound (t : Tid) (o : Obj) : List (TagAct Tid Obj) :=
  [.addTagNewRecord t o, .advance t, .advance t, .advance t]

lemma run_tagRound {s : Tags Tid Obj} {t : Tid} (o : Obj) (h : s.pc t = .idle) :
    ∃ s', run Tags.step s (tagRound t o) = some s' ∧ s'.pc t = .idle ∧
      s'.globalTag = s.globalTag + 1 ∧ s'.yields = s.yields ∧
      s'.localEnv t o = s.globalTag ∧ ∀ o' ≠ o, s'.localEnv t o' = s.localEnv t o' := by
  simp [tagRound, run_cons, Tags.step, h, setLocal_eq]
  intro o' ho
  simp [ho]

lemma run_tagRounds (n : ℕ) {s : Tags Tid Obj} {t : Tid} (o : Obj) (h : s.pc t = .idle) :
    ∃ s', run Tags.step s (List.replicate n (tagRound t o)).flatten = some s' ∧
      s'.pc t = .idle ∧ s'.globalTag = s.globalTag + Int64.ofNat n ∧ s'.yields = s.yields := by
  induction n generalizing s with
  | zero => exact ⟨s, rfl, h, by simp, rfl⟩
  | succ n ih =>
    obtain ⟨s₁, hrun₁, hpc₁, hg₁, hy₁, -⟩ := run_tagRound o h
    obtain ⟨s₂, hrun₂, hpc₂, hg₂, hy₂⟩ := ih hpc₁
    refine ⟨s₂, ?_, hpc₂, ?_, hy₂.trans hy₁⟩
    · rw [List.replicate_succ, List.flatten_cons]
      exact run_trans hrun₁ hrun₂
    · rw [hg₂, hg₁, Nat.add_comm, Int64.ofNat_add, ← Int64.add_assoc]
      rfl

lemma run_getTag {s : Tags Tid Obj} {t : Tid} {o : Obj} (h : s.pc t = .idle)
    (hl : s.localEnv t o ≠ 0) :
    ∃ s', run Tags.step s [.getTag t o] = some s' ∧ s'.pc t = .idle ∧
      s'.globalTag = s.globalTag ∧ s'.yields = ⟨o, s.localEnv t o, s.now⟩ :: s.yields := by
  simp [run_cons, Tags.step, h, hl]

end Tags

/-- After `2 ^ 64` other tags the tag of an object is issued again, to another object. -/
theorem tags_reissued : ¬ ∀ (as : List (TagAct ℕ ℕ)) (s : Tags ℕ ℕ),
    run Tags.step Tags.init as = some s → ∀ y ∈ s.yields, ∀ y' ∈ s.yields,
      isSampledObject y.tag → y'.tag = y.tag → y'.obj = y.obj := by
  intro hall
  -- a name for the number, so that nothing is unfolded
  obtain ⟨n, hn⟩ : ∃ n : ℕ, n = 2 ^ 64 - 1 := ⟨_, rfl⟩
  obtain ⟨s₁, hrun₁, hpc₁, hg₁, hy₁, hl₁, -⟩ :=
    run_tagRound (s := (Tags.init : Tags ℕ ℕ)) (t := 0) 0 rfl
  have h10 : s₁.localEnv 0 0 = 10 := hl₁
  obtain ⟨s₂, hrun₂, hpc₂, hg₂, hy₂⟩ := run_getTag (o := 0) hpc₁ (by rw [h10]; decide)
  obtain ⟨s₃, hrun₃, hpc₃, hg₃, hy₃⟩ := run_tagRounds n 1 hpc₂
  obtain ⟨s₄, hrun₄, hpc₄, hg₄, hy₄, hl₄, -⟩ := run_tagRound 2 hpc₃
  have h10' : s₄.localEnv 0 2 = 10 := by
    rw [hl₄, hg₃, hg₂, hg₁, hn]
    decide
  obtain ⟨s₅, hrun₅, -, -, hy₅⟩ := run_getTag (o := 2) hpc₄ (by rw [h10']; decide)
  rw [h10] at hy₂
  rw [h10', hy₄, hy₃, hy₂] at hy₅
  have hrun := run_trans hrun₁ (run_trans hrun₂ (run_trans hrun₃ (run_trans hrun₄ hrun₅)))
  have := hall _ s₅ hrun ⟨0, 10, s₁.now⟩ (by rw [hy₅]; simp) ⟨2, 10, s₄.now⟩ (by rw [hy₅]; simp)
    (show isSampledObject 10 = true by decide) rfl
  exact absurd this (show ¬ (2 : ℕ) = 0 by decide)

end Cinst.Native
