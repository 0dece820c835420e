import Cinst.Native.TagProcess

/-!
What holds of a process in tag mode, however its threads interleave: a tag that is found for an object
was issued for it and has a NEW record (`TagInv`). The functions are shown to be safe one operation
after the other, with what `get_tag` may answer (`Answered`) as the only thing that they remember.
-/

namespace Cinst.Native

open Cinst.Lib Cinst.Record

/-! ### Records and tags -/

section Sound

variable {Tid Obj : Type*}

/-- The NEW record of an object, under the tag. -/
def Added.IsNew (n : Added Tid Obj) (o : Obj) (tag : Int64) : Prop :=
  n.found = [(some o, tag)] ∧ ∃ r, n.record = .new r

/-- The object has a NEW record with the tag, made at the given time or before. -/
def Recorded (added : List (Added Tid Obj)) (o : Obj) (tag : Int64) (time : Time) : Prop :=
  ∃ n ∈ added, n.IsNew o tag ∧ n.record.time ≤ time

/-- What `get_tag` may answer at a time. -/
def Answered (added : List (Added Tid Obj)) (time : Time) (obj : Option Obj) (tag : Int64) : Prop :=
  tag ≠ 0 ∧ ∀ o, obj = some o → tag = -1 ∨ Recorded added o tag time

/-- The address fields of a record are the tags that the call has found, in the order in which it
looked them up. -/
def Added.Filled (a : Added Tid Obj) : Prop :=
  match a.record with
  | .new r => ∃ obj tag, a.found = [(obj, tag)] ∧ r.addr = addrOfTag tag
  | .construct r => ∃ obj tag, a.found = [(obj, tag)] ∧ r.addr = addrOfTag tag
  | .putField r => ∃ ref refTag holder tag, a.found = [(ref, refTag), (holder, tag)] ∧
      r.refAddr = addrOfTag refTag ∧ r.holderAddr = addrOfTag tag
  | .aaStore r => ∃ ref refTag holder tag, a.found = [(ref, refTag), (holder, tag)] ∧
      r.refAddr = addrOfTag refTag ∧ r.holderAddr = addrOfTag tag
  | .use r => ∃ obj tag, a.found = [(obj, tag)] ∧ r.addr = addrOfTag tag
  | .container e => ∃ (call : ContainerCall Obj) (tag : Int64) (tags : List Int64) (time : Time),
      a.found = (call.op.holder, tag) :: call.op.objs.zip tags ∧
        tags.length = call.op.objs.length ∧ e = call.op.entry tag tags time
  | .lineInfo _ => a.found = []

/-- A record that says that an object was used, constructed, stored or operated on, not allocated. -/
def TagRecord.isNew : TagRecord → Bool
  | .new _ => true
  | _ => false

/-- A record whose time is read before the object is looked up. -/
def TagRecord.isPutField : TagRecord → Bool
  | .putField _ => true
  | _ => false

/-- The tags of a record were found by `get_tag`, and the first of them is a sampled one; except for
`addTagPutFieldRecord`, it was found before the time of the record. -/
structure Added.Sound (added : List (Added Tid Obj)) (a : Added Tid Obj) : Prop where
  filled : a.Filled
  answered : a.record.isNew = false → ∀ p ∈ a.found, ∃ time, Answered added time p.1 p.2
  sampled : a.record.isNew = false → ∀ p ∈ a.found.head?, isSampledObject p.2
  causal : a.record.isNew = false → a.record.isPutField = false → ∀ p ∈ a.found.head?,
    Answered added a.record.time p.1 p.2

/-- The tag of a NEW record. -/
def Added.newTag? (a : Added Tid Obj) : Option Int64 :=
  if a.record.isNew then a.found.head?.map Prod.snd else none

/-- **The invariant of the process.** -/
structure TagInv (s : TagProcess Tid Obj) : Prop where
  counter : s.globalTag = nthTag s.issued.length
  maps : ∀ e o, s.tagMaps e o = 0 ∨ s.tagMaps e o = -1 ∨
    Recorded s.added o (s.tagMaps e o) s.clock
  news : ∀ n ∈ s.added, n.record.isNew → ∃ (k : ℕ) (obj : Option Obj),
    s.issued[k]? = some (n.tid, obj) ∧ n.found = [(obj, nthTag k)]
  distinct : s.issued.length ≤ 2 ^ 64 → (s.added.filterMap Added.newTag?).Nodup
  sound : ∀ a ∈ s.added, a.Sound s.added

/-- What every operation leaves of the environments: those of the array are replaced at most, those of
the threads stay, and none loses its capability. -/
structure EnvsKept (s s' : TagProcess Tid Obj) : Prop where
  shared : ∀ i, (s.jvmtiEnv i).isSome → (s'.jvmtiEnv i).isSome
  own : ∀ t e, s.localJvmtiEnv t = some e → s'.localJvmtiEnv t = some e
  capable : ∀ e, s.canTagObjects e → s'.canTagObjects e

lemma EnvsKept.of_eq {s s' : TagProcess Tid Obj} (hshared : s'.jvmtiEnv = s.jvmtiEnv)
    (hown : s'.localJvmtiEnv = s.localJvmtiEnv) (hcap : s'.canTagObjects = s.canTagObjects) :
    EnvsKept s s' :=
  ⟨fun i h => by rwa [hshared], fun t e h => by rwa [hown], fun e h => by rwa [hcap]⟩

lemma EnvsKept.trans {s s' s'' : TagProcess Tid Obj} (h : EnvsKept s s') (h' : EnvsKept s' s'') :
    EnvsKept s s'' :=
  ⟨fun i hi => h'.shared i (h.shared i hi), fun t e ht => h'.own t e (h.own t e ht),
    fun e he => h'.capable e (h.capable e he)⟩

/-- What every operation leaves: records, issued tags, and environments. -/
structure Grown (s s' : TagProcess Tid Obj) : Prop where
  added : s.added <+: s'.added
  issued : s.issued <+: s'.issued
  clock : s.clock ≤ s'.clock
  envs : EnvsKept s s'

/-- What the other threads leave besides: the thread's own records and variables. -/
structure ByOthers [DecidableEq Tid] (t : Tid) (s s' : TagProcess Tid Obj) : Prop extends
    Grown s s' where
  records : (s'.added.filter fun a => a.tid = t) = s.added.filter fun a => a.tid = t
  localEnv : s'.localJvmtiEnv t = s.localJvmtiEnv t
  enable : s'.enable t = s.enable t
  isSampledContainer : s'.isSampledContainer t = s.isSampledContainer t

lemma Grown.refl (s : TagProcess Tid Obj) : Grown s s :=
  ⟨List.prefix_rfl, List.prefix_rfl, le_rfl, .of_eq rfl rfl rfl⟩

lemma Grown.trans {s s' s'' : TagProcess Tid Obj} (h : Grown s s') (h' : Grown s' s'') :
    Grown s s'' :=
  ⟨h.added.trans h'.added, h.issued.trans h'.issued, h.clock.trans h'.clock, h.envs.trans h'.envs⟩

/-- The protocol of the process. -/
def tagProtocol [DecidableEq Tid] : Protocol Tid (TagProcess Tid Obj) where
  inv := TagInv
  grow := Grown
  rely := ByOthers
  refl _ s := ⟨Grown.refl s, rfl, rfl, rfl, rfl⟩
  trans _ _ _ _ h h' := ⟨h.toGrown.trans h'.toGrown, h'.records.trans h.records,
    h'.localEnv.trans h.localEnv, h'.enable.trans h.enable,
    h'.isSampledContainer.trans h.isSampledContainer⟩
  grow_trans _ _ _ := Grown.trans
  rely_grow _ _ _ h := h.toGrown

lemma Recorded.mono {added added' : List (Added Tid Obj)} {o : Obj} {tag : Int64} {time time' : Time}
    (h : Recorded added o tag time) (ha : added <+: added') (ht : time ≤ time') :
    Recorded added' o tag time' := by
  obtain ⟨n, hn, hnew, hle⟩ := h
  exact ⟨n, ha.subset hn, hnew, hle.trans ht⟩

lemma Answered.mono {added added' : List (Added Tid Obj)} {obj : Option Obj} {tag : Int64}
    {time time' : Time} (h : Answered added time obj tag) (ha : added <+: added')
    (ht : time ≤ time') : Answered added' time' obj tag :=
  ⟨h.1, fun o ho => (h.2 o ho).imp_right fun hr => hr.mono ha ht⟩

lemma Answered.grown {s s' : TagProcess Tid Obj} {obj : Option Obj} {tag : Int64}
    (h : Answered s.added s.clock obj tag) (hg : Grown s s') :
    Answered s'.added s'.clock obj tag :=
  h.mono hg.added hg.clock

lemma Added.Sound.mono {added added' : List (Added Tid Obj)} {a : Added Tid Obj}
    (h : a.Sound added) (ha : added <+: added') : a.Sound added' where
  filled := h.filled
  answered hnew p hp := (h.answered hnew p hp).imp fun _ hans => hans.mono ha le_rfl
  sampled := h.sampled
  causal hnew hput p hp := (h.causal hnew hput p hp).mono ha le_rfl

end Sound

/-! ### Operations -/

section Operations

variable {Tid Obj : Type*} [DecidableEq Tid] {t : Tid}

/-- A process with other values of the variables that are not about tags; those of the other threads
are the same. -/
structure SameTags (t : Tid) (s s' : TagProcess Tid Obj) : Prop where
  globalTag : s'.globalTag = s.globalTag
  issued : s'.issued = s.issued
  added : s'.added = s.added
  tagMaps : s'.tagMaps = s.tagMaps
  clock : s.clock ≤ s'.clock
  envs : EnvsKept s s'
  localEnv : ∀ t', t' ≠ t → s'.localJvmtiEnv t' = s.localJvmtiEnv t'
  enable : ∀ t', t' ≠ t → s'.enable t' = s.enable t'
  isSampledContainer : ∀ t', t' ≠ t → s'.isSampledContainer t' = s.isSampledContainer t'

section SameTags

variable {s s' : TagProcess Tid Obj}

omit [DecidableEq Tid] in
/-- The invariant is about the tags and their records, and the clock may go on. -/
lemma TagInv.of_eq (hs : TagInv s) (hglobal : s'.globalTag = s.globalTag) (hissued : s'.issued = s.issued)
    (hadded : s'.added = s.added) (hmaps : s'.tagMaps = s.tagMaps) (hclock : s.clock ≤ s'.clock) :
    TagInv s' where
  counter := by rw [hglobal, hissued, hs.counter]
  maps e o := by
    rw [hadded, hmaps]
    exact (hs.maps e o).imp_right (Or.imp_right fun hr => hr.mono List.prefix_rfl hclock)
  news n hn := by
    rw [hadded] at hn
    rw [hissued]
    exact hs.news n hn
  distinct := by
    rw [hadded, hissued]
    exact hs.distinct
  sound a ha := by
    rw [hadded] at ha ⊢
    exact hs.sound a ha

omit [DecidableEq Tid] in
lemma SameTags.inv (h : SameTags t s s') (hs : TagInv s) : TagInv s' :=
  hs.of_eq h.globalTag h.issued h.added h.tagMaps h.clock

omit [DecidableEq Tid] in
lemma SameTags.grown (h : SameTags t s s') : Grown s s' :=
  ⟨by rw [h.added], by rw [h.issued], h.clock, h.envs⟩

lemma SameTags.byOthers (h : SameTags t s s') {t' : Tid} (ht : t' ≠ t) : ByOthers t' s s' :=
  ⟨h.grown, by rw [h.added], h.localEnv t' ht, h.enable t' ht, h.isSampledContainer t' ht⟩

lemma SameTags.guar (h : SameTags t s s') : tagProtocol.Guar t s s' :=
  ⟨h.grown, fun _ ht => h.byOthers ht⟩

end SameTags

/-- Both variables for the environments of a thread are set, and the environment of the thread can tag
objects. -/
def Ready (t : Tid) (s : TagProcess Tid Obj) : Prop :=
  (s.jvmtiEnv 0).isSome ∧ ∃ e, s.localJvmtiEnv t = some e ∧ s.canTagObjects e

omit [DecidableEq Tid] in
lemma Ready.grown {s s' : TagProcess Tid Obj} (h : Ready t s) (hg : Grown s s') : Ready t s' := by
  obtain ⟨hshared, e, he, hcap⟩ := h
  exact ⟨hg.envs.shared 0 hshared, e, hg.envs.own t e he, hg.envs.capable e hcap⟩

omit [DecidableEq Tid] in
lemma Ready.isSome {s : TagProcess Tid Obj} (h : Ready t s) : (s.localJvmtiEnv t).isSome := by
  obtain ⟨-, e, he, -⟩ := h
  exact Option.isSome_iff_exists.mpr ⟨e, he⟩

variable {s : TagProcess Tid Obj}

lemma safe_set {f : TagProcess Tid Obj → TagProcess Tid Obj}
    (h : ∀ s', ByOthers t s s' → SameTags t s' (f s'))
    {Q : Unit → TagProcess Tid Obj → Prop} (hQ : ∀ s', ByOthers t s s' → Q () (f s')) :
    tagProtocol.Safe t Q (Prog.modify f) s :=
  Protocol.safe_modify fun s' hrely hinv =>
    ⟨(h s' hrely).inv hinv, (h s' hrely).guar, hQ s' hrely⟩

lemma safe_getEnv : tagProtocol.Safe t (fun _ s' => s'.localJvmtiEnv t = s.localJvmtiEnv t)
    TagProcess.getEnv s :=
  Protocol.safe_act fun s' hrely hinv =>
    have hsame : SameTags t s' { s' with created := s'.created + 1 } :=
      ⟨rfl, rfl, rfl, rfl, le_rfl, .of_eq rfl rfl rfl, fun _ _ => rfl, fun _ _ => rfl, fun _ _ => rfl⟩
    ⟨_, _, rfl, hsame.inv hinv, hsame.guar, hrely.localEnv⟩

lemma safe_addCapabilities {env : TagProcess Tid Obj → Option ℕ}
    (henv : ∀ s', Grown s s' → (env s').isSome) :
    tagProtocol.Safe t (fun _ s' => ∃ s₁ e, Grown s s₁ ∧ Grown s₁ s' ∧ env s₁ = some e ∧
      s'.canTagObjects e) (TagProcess.addCapabilities env) s := by
  refine Protocol.safe_act fun s' hrely hinv => ?_
  obtain ⟨e, he⟩ := Option.isSome_iff_exists.mp (henv s' hrely.toGrown)
  have hsame : SameTags t s'
      { s' with canTagObjects := Function.update s'.canTagObjects e true } := by
    refine ⟨rfl, rfl, rfl, rfl, le_rfl, ⟨fun _ => id, fun _ _ => id, fun e' he' => ?_⟩,
      fun _ _ => rfl, fun _ _ => rfl, fun _ _ => rfl⟩
    dsimp only
    by_cases hee : e' = e
    · rw [hee, Function.update_self]
    · rw [Function.update_of_ne hee, he']
  refine ⟨_, _, by rw [he]; rfl, hsame.inv hinv, hsame.guar, s', e, hrely.toGrown, hsame.grown, he, ?_⟩
  exact Function.update_self ..

lemma safe_nanotime :
    tagProtocol.Safe t (fun time s' => s.clock ≤ time ∧ time ≤ s'.clock) TagProcess.nanotime s :=
  Protocol.safe_get fun _ hrely _ => ⟨hrely.clock, le_rfl⟩

/-- Between two calls of a thread its environment, where it is set, can tag objects. -/
def OwnCapable (t : Tid) (s : TagProcess Tid Obj) : Prop :=
  ∀ e, s.localJvmtiEnv t = some e → s.canTagObjects e

omit [DecidableEq Tid] in
lemma OwnCapable.grown {s s' : TagProcess Tid Obj} (h : OwnCapable t s) (hg : Grown s s')
    (hlocal : s'.localJvmtiEnv t = s.localJvmtiEnv t) : OwnCapable t s' :=
  fun e he => hg.envs.capable e (h e (hlocal.symm.trans he))

omit [DecidableEq Tid] in
lemma Ready.ownCapable {s : TagProcess Tid Obj} (h : Ready t s) : OwnCapable t s := by
  obtain ⟨-, e, he, hcap⟩ := h
  intro e' he'
  rwa [← Option.some.inj (he.symm.trans he')]

lemma OwnCapable.safe {α : Type} {p : TagProg Tid Obj α} {Q : α → TagProcess Tid Obj → Prop}
    (hown : OwnCapable t s) (h : tagProtocol.Safe t Q p s) (hp : p.Fixes (TagProcess.localEnvOf t)) :
    tagProtocol.Safe t (fun a s' => OwnCapable t s' ∧ Q a s') p s :=
  ((h.fixes (fun _ _ (hrely : ByOthers t _ _) => hrely.localEnv) hp).frame (Grown.refl s)).mono
    fun _ _ h' => ⟨hown.grown h'.1 h'.2.1, h'.2.2⟩

lemma Ready.safe {α : Type} {p : TagProg Tid Obj α} {Q : α → TagProcess Tid Obj → Prop}
    (hready : Ready t s) (h : tagProtocol.Safe t Q p s) :
    tagProtocol.Safe t (fun a s' => OwnCapable t s' ∧ Q a s') p s :=
  (h.frame (Grown.refl s)).mono fun _ _ h' => ⟨(hready.grown h'.1).ownCapable, h'.2⟩

section Fixes

variable {γ : Type*} {g : TagProcess Tid Obj → γ}
  (hg : ∀ s created jvmtiEnv canTagObjects, g { s with created, jvmtiEnv, canTagObjects } = g s)
include hg

omit [DecidableEq Tid] in
lemma fixes_getEnv : (TagProcess.getEnv : TagProg Tid Obj ℕ).Fixes g :=
  Prog.fixes_act fun s v s' h => by
    cases h
    exact hg s _ s.jvmtiEnv s.canTagObjects

omit [DecidableEq Tid] in
lemma fixes_addCapabilities (env : TagProcess Tid Obj → Option ℕ) :
    (TagProcess.addCapabilities env).Fixes g := by
  refine Prog.fixes_act fun s v s' h => ?_
  obtain ⟨e, -, he⟩ := Option.map_eq_some_iff.mp h
  cases he
  exact hg s s.created s.jvmtiEnv _

omit [DecidableEq Tid] in
lemma fixes_initShared : (TagProcess.initShared : TagProg Tid Obj Unit).Fixes g := by
  have henvs : ∀ is, (TagProcess.initEnvs is : TagProg Tid Obj Unit).Fixes g := by
    intro is
    induction is with
    | nil => exact Prog.fixes_pure ()
    | cons i is ih =>
      refine (fixes_getEnv hg).bind fun env => Prog.Fixes.bind (Prog.fixes_modify fun s => ?_) fun _ =>
        (fixes_addCapabilities hg _).bind fun _ => ih
      exact hg s s.created _ s.canTagObjects
  refine (Prog.fixes_get _).bind fun env => ?_
  split_ifs
  · exact henvs _
  · exact Prog.fixes_pure ()

end Fixes

variable [DecidableEq Obj] {env : TagProcess Tid Obj → Option ℕ} {obj : Option Obj} {tag : Int64}

omit [DecidableEq Obj] in
/-- What `GetTag` leaves in the variable, for an object: what the map says, where the environment can
tag objects, and else what it had. -/
lemma safe_tagMapGet
    (henv : ∀ s', Grown s s' → ∃ e, env s' = some e ∧ (s'.canTagObjects e ∨ tag = 0)) :
    tagProtocol.Safe t (fun v s' => ∀ o, obj = some o → v = 0 ∨ v = -1 ∨
      Recorded s'.added o v s'.clock) (TagProcess.tagMapGet env obj tag) s := by
  refine Protocol.safe_act fun s' hrely hinv => ?_
  obtain ⟨e, he, hcap⟩ := henv s' hrely.toGrown
  refine ⟨_, s', by rw [he]; rfl, hinv, tagProtocol.guar_refl t s', fun o ho => ?_⟩
  split_ifs with hcan
  · rw [ho]
    exact hinv.maps e o
  · exact Or.inl (hcap.resolve_left hcan)

lemma safe_tagMapSet (henv : ∀ s', Grown s s' → (env s').isSome)
    (htag : ∀ o, obj = some o → tag = -1 ∨ Recorded s.added o tag s.clock) :
    tagProtocol.Safe t (fun _ _ => True) (TagProcess.tagMapSet env obj tag) s := by
  refine Protocol.safe_act fun s' hrely hinv => ?_
  obtain ⟨e, he⟩ := Option.isSome_iff_exists.mp (henv s' hrely.toGrown)
  refine ⟨_, _, by rw [he]; rfl, ?_, ?_, trivial⟩
  · refine ⟨hinv.counter, fun e' o => ?_, hinv.news, hinv.distinct, hinv.sound⟩
    dsimp only
    split_ifs
    · by_cases hee : e' = e
      · subst hee
        rw [Function.update_self]
        cases hobj : obj with
        | none => exact hinv.maps e' o
        | some o' =>
          rw [jvmtiSetTag, Option.elim_some]
          by_cases ho : o = o'
          · subst ho
            rw [Function.update_self]
            exact Or.inr ((htag o hobj).imp_right fun hr => hr.mono hrely.added hrely.clock)
          · rw [Function.update_of_ne ho]
            exact hinv.maps e' o
      · rw [Function.update_of_ne hee]
        exact hinv.maps e' o
    · exact hinv.maps e' o
  · have hgrown : ∀ maps, Grown s' { s' with tagMaps := maps } :=
      fun _ => ⟨List.prefix_rfl, List.prefix_rfl, le_rfl, .of_eq rfl rfl rfl⟩
    exact ⟨hgrown _, fun t' _ => ⟨hgrown _, rfl, rfl, rfl, rfl⟩⟩

/-! ### `init_jvmti`, `get_tag` and `set_tag` -/

omit [DecidableEq Obj] in
lemma safe_initEnvs (is : List ℕ) :
    tagProtocol.Safe t (fun _ s' => 0 ∈ is → (s'.jvmtiEnv 0).isSome)
      (TagProcess.initEnvs is : TagProg Tid Obj Unit) s := by
  induction is generalizing s with
  | nil => simp [TagProcess.initEnvs]
  | cons i is ih =>
    refine safe_getEnv.bind fun env s₁ _ _ => ?_
    have hset : tagProtocol.Safe t (fun _ s' => (s'.jvmtiEnv i).isSome)
        (Prog.modify fun s : TagProcess Tid Obj =>
          { s with jvmtiEnv := Function.update s.jvmtiEnv i (some env) }) s₁ := by
      refine safe_set (fun s _ => ?_) fun s' _ => ?_
      · refine ⟨rfl, rfl, rfl, rfl, le_rfl, ⟨fun j h => ?_, fun _ _ => id, fun _ => id⟩,
          fun _ _ => rfl, fun _ _ => rfl, fun _ _ => rfl⟩
        dsimp only
        by_cases hj : j = i
        · rw [hj, Function.update_self]
          rfl
        · rw [Function.update_of_ne hj]
          exact h
      · dsimp only
        rw [Function.update_self]
        rfl
    refine hset.bind fun _ s₂ _ hi => ?_
    refine (safe_addCapabilities fun s' h' => h'.envs.shared i hi).bind fun _ s₃ h₃ _ => ?_
    refine (ih.frame (Grown.refl s₃)).mono fun _ s' h hmem => ?_
    rcases List.mem_cons.mp hmem with rfl | hmem
    · exact (h₃.trans h.1).envs.shared 0 hi
    · exact h.2 hmem

omit [DecidableEq Obj] in
lemma safe_initShared : tagProtocol.Safe t (fun _ s' => (s'.jvmtiEnv 0).isSome)
    (TagProcess.initShared : TagProg Tid Obj Unit) s := by
  have hread : tagProtocol.Safe t (fun env s' => env ≠ none → (s'.jvmtiEnv 0).isSome)
      (Prog.get fun s : TagProcess Tid Obj => s.jvmtiEnv 0) s :=
    Protocol.safe_get fun _ _ _ => Option.isSome_iff_ne_none.mpr
  refine hread.bind fun env s₁ _ hsome => ?_
  have hmem : 0 ∈ List.range (TagProcess.jvmtiBucketSize + 1) :=
    List.mem_range.mpr (Nat.succ_pos _)
  split_ifs with hnone
  · exact (safe_initEnvs _).mono fun _ _ h => h hmem
  · exact Protocol.safe_pure.mpr (hsome hnone)

omit [DecidableEq Obj] in
lemma safe_setLocalEnv {e : ℕ} (hnone : s.localJvmtiEnv t = none) :
    tagProtocol.Safe t (fun _ s' => s'.localJvmtiEnv t = some e)
      (Prog.modify fun s : TagProcess Tid Obj =>
        { s with localJvmtiEnv := Function.update s.localJvmtiEnv t (some e) }) s := by
  refine safe_set (fun s' hrely => ?_) fun s' _ => Function.update_self ..
  refine ⟨rfl, rfl, rfl, rfl, le_rfl, ⟨fun _ => id, fun t' e' h => ?_, fun _ => id⟩,
    fun t' ht => Function.update_of_ne ht .., fun _ _ => rfl, fun _ _ => rfl⟩
  -- the variable of the thread is still unset
  have ht : t' ≠ t := by
    rintro rfl
    rw [hrely.localEnv, hnone] at h
    cases h
  exact (Function.update_of_ne ht ..).trans h

omit [DecidableEq Obj] in
lemma safe_initLocal (hown : OwnCapable t s) : tagProtocol.Safe t
    (fun _ s' => ∃ e, s'.localJvmtiEnv t = some e ∧ s'.canTagObjects e)
    (TagProcess.initLocal t : TagProg Tid Obj Unit) s := by
  have hread : tagProtocol.Safe t (fun env s' => s'.localJvmtiEnv t = env)
      (Prog.get (TagProcess.localEnvOf t)) s := Protocol.safe_get fun _ _ _ => rfl
  refine (hown.safe hread (Prog.fixes_get _)).bind fun env s₁ _ ⟨hown₁, henv⟩ => ?_
  cases env with
  | some e =>
    rw [if_neg (Option.some_ne_none e)]
    exact Protocol.safe_pure.mpr ⟨e, henv, hown₁ e henv⟩
  | none =>
    rw [if_pos rfl]
    refine safe_getEnv.bind fun e s₂ _ he => ?_
    refine (safe_setLocalEnv (he.trans henv)).bind fun _ s₃ _ hs₃ => ?_
    have hsome : ∀ s', Grown s₃ s' → (TagProcess.localEnvOf t s').isSome := fun s' h' =>
      Option.isSome_iff_exists.mpr ⟨e, h'.envs.own t e hs₃⟩
    refine (safe_addCapabilities hsome).mono fun _ s' ⟨s₄, e', h₄, h', he', hcap⟩ => ?_
    exact ⟨e', h'.envs.own t e' he', hcap⟩

omit [DecidableEq Obj] in
/-- After `init_jvmti` both environments are there. -/
theorem safe_initJvmti (hown : OwnCapable t s) : tagProtocol.Safe t (fun _ s' => Ready t s')
    (TagProcess.initJvmti t : TagProg Tid Obj Unit) s := by
  have hfixes : (TagProcess.initShared : TagProg Tid Obj Unit).Fixes (TagProcess.localEnvOf t) :=
    fixes_initShared fun _ _ _ _ => rfl
  refine (hown.safe safe_initShared hfixes).bind fun _ s₁ _ ⟨hown₁, hshared⟩ => ?_
  exact ((safe_initLocal hown₁).frame (Grown.refl s₁)).mono
    fun _ s' h => ⟨h.1.envs.shared 0 hshared, h.2⟩

/-- **`get_tag` answers with a tag of the object that has a NEW record, or `-1`**, and never `0`. -/
theorem safe_getTag (h : Ready t s) (localTag : Int64) :
    tagProtocol.Safe t (fun tag s' => Answered s'.added s'.clock obj tag)
      (TagProcess.getTag t localTag obj) s := by
  have hlocal : ∀ s₁, Grown s s₁ → ∀ s', Grown s₁ s' → (TagProcess.localEnvOf t s').isSome :=
    fun s₁ h₁ s' h' => (h.grown (h₁.trans h')).isSome
  -- what a map answers, when it is not `0`, may be answered by `get_tag`
  have hanswer : ∀ {v : Int64} {s' : TagProcess Tid Obj}, v ≠ 0 →
      (∀ o, obj = some o → v = 0 ∨ v = -1 ∨ Recorded s'.added o v s'.clock) →
      Answered s'.added s'.clock obj v :=
    fun hv hmap => ⟨hv, fun o ho => (hmap o ho).resolve_left hv⟩
  have hget : ∀ s', Grown s s' → ∃ e, TagProcess.localEnvOf t s' = some e ∧
      (s'.canTagObjects e ∨ localTag = 0) := fun s' h' =>
    (h.grown h').2.imp fun e he => ⟨he.1, Or.inl he.2⟩
  refine (safe_tagMapGet hget).bind fun v s₁ h₁ hv => ?_
  split_ifs with hzero
  · exact Protocol.safe_pure.mpr (hanswer hzero hv)
  -- the environment that is shared may not have its capability yet, but there is `0` in the variable
  have hglobal : ∀ s', Grown s₁ s' → ∃ e, TagProcess.globalEnv s' = some e ∧
      (s'.canTagObjects e ∨ v = 0) := fun s' h' =>
    (Option.isSome_iff_exists.mp (h.grown (h₁.trans h')).1).imp
      fun e he => ⟨he, Or.inr (not_not.mp hzero)⟩
  refine (safe_tagMapGet hglobal).bind fun w s₂ h₂ hw => ?_
  split_ifs with hzero
  · have hans := hanswer hzero hw
    refine (safe_tagMapSet (hlocal s₂ (h₁.trans h₂)) hans.2).bind fun _ s₃ h₃ _ => ?_
    exact Protocol.safe_pure.mpr (hans.grown h₃)
  · refine (safe_tagMapSet (hlocal s₂ (h₁.trans h₂)) fun _ _ => Or.inl rfl).bind
      fun _ s₃ h₃ _ => ?_
    exact Protocol.safe_pure.mpr ⟨by decide, fun _ _ => Or.inl rfl⟩

lemma safe_getTags (h : Ready t s) (localTag : ℕ → Int64) (n : ℕ) (objs : List (Option Obj)) :
    tagProtocol.Safe t (fun tags s' => tags.length = objs.length ∧
        ∀ p ∈ objs.zip tags, Answered s'.added s'.clock p.1 p.2)
      (TagProcess.getTags t localTag n objs) s := by
  induction objs generalizing n s with
  | nil => exact Protocol.safe_pure.mpr ⟨rfl, by simp⟩
  | cons obj objs ih =>
    refine (safe_getTag h (localTag n)).bind fun tag s₁ h₁ htag => ?_
    refine (ih (h.grown h₁) (n + 1)).bind fun tags s₂ h₂ htags => Protocol.safe_pure.mpr ?_
    refine ⟨by simp [htags.1], fun p hp => ?_⟩
    rcases List.mem_cons.mp hp with rfl | hp
    · exact htag.grown h₂
    · exact htags.2 p hp

lemma safe_setTag (h : Ready t s)
    (htag : ∀ o, obj = some o → tag = -1 ∨ Recorded s.added o tag s.clock) :
    tagProtocol.Safe t (fun _ _ => True) (TagProcess.setTag t obj tag) s := by
  refine (safe_tagMapSet (fun s' h' => (h.grown h').isSome) htag).bind fun _ s₁ h₁ _ => ?_
  exact safe_tagMapSet (fun s' h' => (h.grown (h₁.trans h')).1)
    fun o ho => (htag o ho).imp_right fun hr => hr.mono h₁.added h₁.clock

/-! ### New records -/

omit [DecidableEq Tid] [DecidableEq Obj] in
lemma TagInv.add (h : TagInv s) {a : Added Tid Obj} (hsound : a.Sound (s.added ++ [a]))
    (hnews : a.record.isNew → ∃ (k : ℕ) (obj : Option Obj), s.issued[k]? = some (a.tid, obj) ∧
      a.found = [(obj, nthTag k)] ∧
      (s.issued.length ≤ 2 ^ 64 → nthTag k ∉ s.added.filterMap Added.newTag?)) :
    TagInv { s with added := s.added ++ [a] } where
  counter := h.counter
  maps e o := (h.maps e o).imp_right (Or.imp_right fun hr => hr.mono (List.prefix_append ..) le_rfl)
  news n hn hnew := by
    rcases List.mem_append.mp hn with hn | hn
    · exact h.news n hn hnew
    · obtain rfl := List.mem_singleton.mp hn
      obtain ⟨k, obj, hk, hfound, -⟩ := hnews hnew
      exact ⟨k, obj, hk, hfound⟩
  distinct hlen := by
    rw [List.filterMap_append, List.nodup_append]
    refine ⟨h.distinct hlen, ?_, ?_⟩
    · cases htag : a.newTag? <;> simp [htag]
    · rintro tag htag _ hmem rfl
      cases hnew : a.record.isNew with
      | false => simp [Added.newTag?, hnew] at hmem
      | true =>
        obtain ⟨k, obj, -, hfound, hfresh⟩ := hnews hnew
        obtain rfl : tag = nthTag k := by simpa [Added.newTag?, hnew, hfound] using hmem
        exact hfresh hlen htag
  sound b hb := by
    rcases List.mem_append.mp hb with hb | hb
    · exact (h.sound b hb).mono (List.prefix_append ..)
    · obtain rfl := List.mem_singleton.mp hb
      exact hsound

omit [DecidableEq Obj] in
lemma guar_add (a : Added Tid Obj) :
    tagProtocol.Guar a.tid s { s with added := s.added ++ [a] } := by
  have hgrown : Grown s { s with added := s.added ++ [a] } :=
    ⟨List.prefix_append .., List.prefix_rfl, le_rfl, .of_eq rfl rfl rfl⟩
  refine ⟨hgrown, fun t' ht => ⟨hgrown, ?_, rfl, rfl, rfl⟩⟩
  dsimp only
  rw [List.filter_append, List.filter_cons_of_neg (by simpa using ht.symm), List.filter_nil,
    List.append_nil]

omit [DecidableEq Obj] in
lemma safe_add {record : TagRecord} {found : List (Option Obj × Int64)}
    (hnew : record.isNew = false) (hsound : (⟨t, record, found⟩ : Added Tid Obj).Sound s.added)
    {Q : Unit → TagProcess Tid Obj → Prop} (hQ : ∀ s', ByOthers t s s' →
      Q () { s' with added := s'.added ++ [⟨t, record, found⟩] }) :
    tagProtocol.Safe t Q (TagProcess.add t record found) s := by
  refine Protocol.safe_modify fun s' hrely hinv => ⟨?_, guar_add ⟨t, record, found⟩, hQ s' hrely⟩
  refine hinv.add (hsound.mono (hrely.added.trans (List.prefix_append ..))) fun h => ?_
  rw [hnew] at h
  cases h

/-- The thread has the tag `nthTag k` for an object, and no NEW record with it or a later one. -/
structure Held (t : Tid) (obj : Option Obj) (k : ℕ) (s : TagProcess Tid Obj) : Prop where
  issued : s.issued[k]? = some (t, obj)
  fresh : ∀ n ∈ s.added, n.tid = t → n.record.isNew →
    ∃ (k' : ℕ) (obj' : Option Obj), k' < k ∧ n.found = [(obj', nthTag k')]

omit [DecidableEq Tid] [DecidableEq Obj] in
lemma getElem?_of_prefix {α : Type*} {l l' : List α} (h : l <+: l') {i : ℕ} {x : α}
    (hx : l[i]? = some x) : l'[i]? = some x := by
  obtain ⟨r, rfl⟩ := h
  rw [List.getElem?_append_left (List.getElem?_eq_some_iff.mp hx).1, hx]

omit [DecidableEq Obj] in
lemma safe_nextTag : tagProtocol.Safe t (fun tag s' => ∃ k : ℕ, tag = nthTag k ∧ Held t obj k s')
    (TagProcess.nextTag t obj) s := by
  refine Protocol.safe_act fun s' hrely hinv => ⟨_, _, rfl, ?_, ?_, ?_⟩
  · refine ⟨?_, hinv.maps, fun n hn hnew => ?_, fun hlen => hinv.distinct ?_, hinv.sound⟩
    · dsimp only
      rw [hinv.counter, nthTag_succ, List.length_append, List.length_singleton]
    · obtain ⟨k, o, hk, hfound⟩ := hinv.news n hn hnew
      exact ⟨k, o, getElem?_of_prefix (List.prefix_append ..) hk, hfound⟩
    · simp only [List.length_append, List.length_singleton] at hlen
      omega
  · have hgrown : Grown s' { s' with
        globalTag := s'.globalTag + 1, issued := s'.issued ++ [(t, obj)] } :=
      ⟨List.prefix_rfl, List.prefix_append .., le_rfl, .of_eq rfl rfl rfl⟩
    exact ⟨hgrown, fun t' _ => ⟨hgrown, rfl, rfl, rfl, rfl⟩⟩
  · refine ⟨s'.issued.length, hinv.counter, by simp, fun n hn ht hnew => ?_⟩
    obtain ⟨k, o, hk, hfound⟩ := hinv.news n hn hnew
    exact ⟨k, o, (List.getElem?_eq_some_iff.mp hk).1, hfound⟩

omit [DecidableEq Obj] in
lemma safe_addNew {k : ℕ} (hheld : Held t obj k s) {r : NewRecord}
    (haddr : r.addr = addrOfTag (nthTag k)) (htime : r.time ≤ s.clock) :
    tagProtocol.Safe t (fun _ s' => ∀ o, obj = some o → Recorded s'.added o (nthTag k) s'.clock)
      (TagProcess.add t (.new r) [(obj, nthTag k)]) s := by
  refine Protocol.safe_modify fun s' hrely hinv => ⟨?_, guar_add _, fun o ho => ?_⟩
  · refine hinv.add ?_ fun _ => ⟨k, obj, getElem?_of_prefix hrely.issued hheld.issued, rfl, ?_⟩
    · refine ⟨⟨obj, nthTag k, rfl, haddr⟩, ?_, ?_, ?_⟩
      all_goals exact fun h => by cases h
    · -- another record with the tag would be one of the same thread, with an earlier tag
      intro hlen hmem
      obtain ⟨n, hn, htag⟩ := List.mem_filterMap.mp hmem
      have hnew : n.record.isNew = true := by
        by_contra hnew
        simp [Added.newTag?, hnew] at htag
      obtain ⟨k', o', hk', hfound'⟩ := hinv.news n hn hnew
      have hkk : nthTag k' = nthTag k := by simpa [Added.newTag?, hnew, hfound'] using htag
      have hlt := (List.getElem?_eq_some_iff.mp hk').1
      have hk := getElem?_of_prefix hrely.issued hheld.issued
      have hlt' := (List.getElem?_eq_some_iff.mp hk).1
      obtain rfl := nthTag_inj (by omega) (by omega) hkk
      have htid : n.tid = t := congrArg Prod.fst (Option.some.inj (hk'.symm.trans hk))
      have hown : n ∈ s'.added.filter fun a => a.tid = t :=
        List.mem_filter.mpr ⟨hn, by simpa using htid⟩
      rw [hrely.records] at hown
      obtain ⟨k'', o'', hlt'', hfound''⟩ :=
        hheld.fresh n (List.mem_of_mem_filter hown) htid hnew
      rw [hfound'] at hfound''
      have hkk'' : nthTag k' = nthTag k'' := by
        simpa using congrArg (List.map Prod.snd) hfound''
      exact absurd (nthTag_inj (by omega) (by omega) hkk'') (by omega)
  · subst ho
    exact ⟨⟨t, .new r, [(some o, nthTag k)]⟩, List.mem_append_right _ (List.mem_singleton_self _),
      ⟨rfl, r, rfl⟩, htime.trans hrely.clock⟩

/-! ### The functions -/

/-- What every call promises: the protocol, and that the environment of the thread can tag objects. -/
abbrev SafeCall (p : TagProg Tid Obj Unit) (t : Tid) (s : TagProcess Tid Obj) : Prop :=
  tagProtocol.Safe t (fun _ s' => OwnCapable t s') p s

omit [DecidableEq Obj] in
lemma Ready.safeCall {p : TagProg Tid Obj Unit} (hready : Ready t s)
    (h : tagProtocol.Safe t (fun _ _ => True) p s) : SafeCall p t s :=
  (hready.safe h).mono fun _ _ h' => h'.1

omit [DecidableEq Obj] in
lemma OwnCapable.safe_get {α : Type} (hown : OwnCapable t s) (f : TagProcess Tid Obj → α) :
    tagProtocol.Safe t (fun _ s' => OwnCapable t s') (Prog.get f) s :=
  Protocol.safe_get fun _ hrely _ => hown.grown hrely.toGrown hrely.localEnv

lemma safe_addTagNewRecord (hown : OwnCapable t s) (skip : Bool) (obj : Option Obj)
    (objTypeid line classNameId : Int32) (objSize : Int64) :
    SafeCall (TagProcess.addTagNewRecord t skip obj objTypeid line classNameId objSize) t s := by
  unfold TagProcess.addTagNewRecord
  split
  · exact Protocol.safe_pure.mpr hown
  refine (hown.safe safe_nanotime (Prog.fixes_get _)).bind fun time s₁ _ ⟨hown₁, htime⟩ => ?_
  have hnext : (TagProcess.nextTag t obj).Fixes (TagProcess.localEnvOf t) :=
    Prog.fixes_act fun s v s' h => by cases h; rfl
  refine (hown₁.safe safe_nextTag hnext).bind fun tag s₂ h₂ ⟨hown₂, k, htag, hheld⟩ => ?_
  subst htag
  refine (hown₂.safe (safe_addNew hheld rfl (htime.2.trans h₂.clock))
    (Prog.fixes_modify fun _ => rfl)).bind fun _ s₃ _ ⟨hown₃, hrec⟩ => ?_
  refine (safe_initJvmti hown₃).bind fun _ s₄ h₄ hready => hready.safeCall ?_
  refine (safe_setTag hready fun o ho =>
    Or.inr ((hrec o ho).mono h₄.added h₄.clock)).bind fun _ s₅ _ _ => ?_
  refine safe_set (fun _ _ => ?_) fun _ _ => trivial
  exact ⟨rfl, rfl, rfl, rfl, le_rfl, .of_eq rfl rfl rfl, fun _ _ => rfl, fun _ _ => rfl,
    fun _ _ => rfl⟩

omit [DecidableEq Tid] [DecidableEq Obj] in
lemma Added.Sound.single {added : List (Added Tid Obj)} {record : TagRecord} {tag : Int64}
    {time : Time} (hfilled : (⟨t, record, [(obj, tag)]⟩ : Added Tid Obj).Filled)
    (hans : Answered added time obj tag) (hsampled : isSampledObject tag) (htime : time ≤ record.time) :
    (⟨t, record, [(obj, tag)]⟩ : Added Tid Obj).Sound added where
  filled := hfilled
  answered _ p hp := by
    obtain rfl := List.mem_singleton.mp hp
    exact ⟨time, hans⟩
  sampled _ p hp := by
    obtain rfl := Option.mem_some.mp hp
    exact hsampled
  causal _ _ p hp := by
    obtain rfl := Option.mem_some.mp hp
    exact hans.mono List.prefix_rfl htime

lemma safe_addTagConstructRecord (hown : OwnCapable t s) (localTag : ℕ → Int64) (obj : Option Obj)
    (objTypeid line classNameId : Int32) :
    SafeCall (TagProcess.addTagConstructRecord t localTag obj objTypeid line classNameId) t s := by
  refine (safe_initJvmti hown).bind fun _ s₁ _ hready => hready.safeCall ?_
  refine (safe_getTag hready (localTag 0)).bind fun tag s₂ _ hans => ?_
  split_ifs with hsampled
  · exact Protocol.safe_pure.mpr trivial
  refine safe_nanotime.bind fun time s₃ h₃ htime => safe_add rfl ?_ fun _ _ => trivial
  exact .single ⟨obj, tag, rfl, rfl⟩ (hans.mono h₃.added le_rfl) (by simpa using hsampled) htime.1

lemma safe_addUse (hown : OwnCapable t s) (localTag : ℕ → Int64) (type : Int32) (obj : Option Obj)
    (line classNameId : Int32) :
    SafeCall (TagProcess.addUse t localTag type obj line classNameId) t s := by
  refine (safe_initJvmti hown).bind fun _ s₁ _ hready => hready.safeCall ?_
  refine (safe_getTag hready (localTag 0)).bind fun tag s₂ _ hans => ?_
  split_ifs with hsampled
  · exact Protocol.safe_pure.mpr trivial
  refine safe_nanotime.bind fun time s₃ h₃ htime => safe_add rfl ?_ fun _ _ => trivial
  exact .single ⟨obj, tag, rfl, rfl⟩ (hans.mono h₃.added le_rfl) (by simpa using hsampled) htime.1

lemma safe_addTagUseRecord (hown : OwnCapable t s) (localTag : ℕ → Int64) (type : Int32) (obj : Option Obj)
    (line classNameId : Int32) :
    SafeCall (TagProcess.addTagUseRecord t localTag type obj line classNameId) t s := by
  refine (hown.safe_get _).bind fun newCalled s₁ _ hown₁ => ?_
  split_ifs
  · exact Protocol.safe_pure.mpr hown₁
  refine (hown₁.safe_get _).bind fun env s₂ _ hown₂ => ?_
  split_ifs
  · exact Protocol.safe_pure.mpr hown₂
  · exact safe_addUse hown₂ ..

/-- A holder never gets a new tag: `get_tag` does not answer `0`. -/
lemma safe_holderTag (h : Ready t s) (localTag : Int64) :
    tagProtocol.Safe t (fun tag s' => Answered s'.added s'.clock obj tag)
      (TagProcess.holderTag t localTag obj) s := by
  refine (safe_getTag h localTag).bind fun tag s₁ _ hans => ?_
  rw [if_neg hans.1]
  exact Protocol.safe_pure.mpr hans

omit [DecidableEq Tid] [DecidableEq Obj] in
lemma Added.Sound.pair {added : List (Added Tid Obj)} {record : TagRecord}
    {ref holder : Option Obj} {refTag tag : Int64} {time time' : Time}
    (hfilled : (⟨t, record, [(ref, refTag), (holder, tag)]⟩ : Added Tid Obj).Filled)
    (href : Answered added time ref refTag) (hholder : Answered added time' holder tag)
    (hsampled : isSampledObject refTag) (htime : record.isPutField = false → time ≤ record.time) :
    (⟨t, record, [(ref, refTag), (holder, tag)]⟩ : Added Tid Obj).Sound added where
  filled := hfilled
  answered _ p hp := by
    rcases List.mem_cons.mp hp with rfl | hp
    · exact ⟨time, href⟩
    · obtain rfl := List.mem_singleton.mp hp
      exact ⟨time', hholder⟩
  sampled _ p hp := by
    obtain rfl := Option.mem_some.mp hp
    exact hsampled
  causal _ hput p hp := by
    obtain rfl := Option.mem_some.mp hp
    exact href.mono List.prefix_rfl (htime hput)

lemma safe_addTagPutFieldRecord (hown : OwnCapable t s) (localTag : ℕ → Int64)
    (holder ref : Option Obj) (line classNameId fieldId : Int32) :
    SafeCall (TagProcess.addTagPutFieldRecord t localTag holder ref line classNameId fieldId) t s := by
  refine (hown.safe_get _).bind fun time s₁ _ hown₁ => ?_
  refine (safe_initJvmti hown₁).bind fun _ s₂ _ hready => hready.safeCall ?_
  refine (safe_getTag hready (localTag 0)).bind fun refTag s₃ h₃ href => ?_
  split_ifs with hsampled
  · exact Protocol.safe_pure.mpr trivial
  refine (safe_holderTag (hready.grown h₃) (localTag 1)).bind fun tag s₄ h₄ hholder => ?_
  refine safe_add rfl ?_ fun _ _ => trivial
  exact .pair ⟨ref, refTag, holder, tag, rfl, rfl, rfl⟩ (href.mono h₄.added le_rfl) hholder
    (by simpa using hsampled) fun h => by cases h

lemma safe_addTagAASTORERecord (hown : OwnCapable t s) (localTag : ℕ → Int64) (holder : Option Obj)
    (index : Int32) (ref : Option Obj) (line classNameId : Int32) :
    SafeCall (TagProcess.addTagAASTORERecord t localTag holder index ref line classNameId) t s := by
  refine (safe_initJvmti hown).bind fun _ s₁ _ hready => hready.safeCall ?_
  refine (safe_getTag hready (localTag 0)).bind fun refTag s₂ h₂ href => ?_
  split_ifs with hsampled
  · exact Protocol.safe_pure.mpr trivial
  refine safe_nanotime.bind fun time s₃ h₃ htime => ?_
  refine (safe_holderTag (hready.grown (h₂.trans h₃)) (localTag 1)).bind fun tag s₄ h₄ hholder => ?_
  refine safe_add rfl ?_ fun _ _ => trivial
  exact .pair ⟨ref, refTag, holder, tag, rfl, rfl, rfl⟩
    (href.mono (h₃.added.trans h₄.added) le_rfl) hholder (by simpa using hsampled) fun _ => htime.1

end Operations

end Cinst.Native
