import Cinst.Native.TagSafety

/-!
A thread of the process by itself. The variables of the thread and its container and line records are
a `View`, which only its own calls change, and each call changes it as it would without other threads,
except that the tags and the time may be any (`View.Step`). So an interleaving is, for every thread,
one of its calls after the other (`Follows`).
-/

namespace Cinst.Native

open Cinst.Lib Cinst.Record

/-! ### The view of a thread -/

section View

variable {Tid Obj : Type*}

/-- A container record or a line record. -/
def TagRecord.logged? : TagRecord → Option (Entry ⊕ ContainerLineInfoRecord)
  | .container e => some (.inl e)
  | .lineInfo r => some (.inr r)
  | _ => none

/-- The variables of a thread that container and line calls use, and the records that they add. -/
@[ext] structure View where
  enable : Bool
  isSampledContainer : Bool
  records : List (Entry ⊕ ContainerLineInfoRecord)

namespace View

/-- A thread before its first call. -/
def init : View := ⟨true, true, []⟩

/-- A record is added. -/
def log (v : View) (r : Entry ⊕ ContainerLineInfoRecord) : View :=
  { v with records := v.records ++ [r] }

/-- What a call does to a view, and the record that it adds. -/
inductive Step : View → TagCall Obj → Option (Entry ⊕ ContainerLineInfoRecord) → View → Prop
  | disabled {v call} (h : v.enable = false) : Step v (.container call) none v
  | unsampled {v call} (h : v.enable = true) :
      Step v (.container call) none { v with isSampledContainer := false }
  | container {v call} (h : v.enable = true) (tag : Int64) (tags : List Int64) (time : Time)
      (hsampled : isSampledObject tag) (hlen : tags.length = call.op.objs.length) :
      Step v (.container call) (some (.inl (call.op.entry tag tags time)))
        (log { v with isSampledContainer := true } (.inl (call.op.entry tag tags time)))
  | noLine {v line classNameId} (h : (v.enable && v.isSampledContainer) = false) :
      Step v (.lineInfo line classNameId) none v
  | line {v line classNameId} (h : (v.enable && v.isSampledContainer) = true) (time : Time) :
      Step v (.lineInfo line classNameId) (some (.inr (lineRecord line classNameId time)))
        (v.log (.inr (lineRecord line classNameId time)))
  | enableRecord {v} : Step v .enableRecord none { v with enable := true }
  | disableRecord {v} : Step v .disableRecord none { v with enable := false }
  | new {v skip obj objTypeid line classNameId objSize} :
      Step v (.new skip obj objTypeid line classNameId objSize) none v
  | construct {v obj objTypeid line classNameId} :
      Step v (.construct obj objTypeid line classNameId) none v
  | putField {v holder ref line classNameId fieldId} :
      Step v (.putField holder ref line classNameId fieldId) none v
  | aaStore {v holder index ref line classNameId} :
      Step v (.aaStore holder index ref line classNameId) none v
  | use {v type obj line classNameId} : Step v (.use type obj line classNameId) none v

/-- One call after the other, with the records that they add. -/
inductive Runs : View → List (TagCall Obj × Option (Entry ⊕ ContainerLineInfoRecord)) → View → Prop
  | nil (v : View) : Runs v [] v
  | cons {v v₁ v' c o cs} (h : Step v c o v₁) (hs : Runs v₁ cs v') : Runs v ((c, o) :: cs) v'

variable {v v' : View} {cs : List (TagCall Obj × Option (Entry ⊕ ContainerLineInfoRecord))}

lemma Runs.snoc (h : Runs v cs v') {c : TagCall Obj} {o : Option (Entry ⊕ ContainerLineInfoRecord)}
    {v'' : View} (hstep : v'.Step c o v'') : Runs v (cs ++ [(c, o)]) v'' := by
  induction h with
  | nil v => exact .cons hstep (.nil _)
  | cons h _ ih => exact .cons h (ih hstep)

lemma Step.records {c : TagCall Obj} {o : Option (Entry ⊕ ContainerLineInfoRecord)}
    (h : v.Step c o v') : v'.records = v.records ++ o.toList := by
  cases h <;> simp [log]

lemma Runs.records (h : Runs v cs v') : v'.records = v.records ++ cs.filterMap Prod.snd := by
  induction h with
  | nil v => simp
  | @cons v v₁ v' c o cs h _ ih =>
    rw [ih, h.records, List.append_assoc]
    cases o <;> simp

end View

variable [DecidableEq Tid]

/-- The view of a thread of the process. -/
def viewOf (t : Tid) (s : TagProcess Tid Obj) : View where
  enable := s.enable t
  isSampledContainer := s.isSampledContainer t
  records := (s.added.filter fun a => a.tid = t).filterMap fun a => a.record.logged?

lemma ByOthers.view {t : Tid} {s s' : TagProcess Tid Obj} (h : ByOthers t s s') :
    viewOf t s' = viewOf t s := by
  simp only [viewOf, h.records, h.enable, h.isSampledContainer]

/-- What the calls of a thread have done: they ran one after the other on its view, and its records
are in the order of their times, none of them later than now. Its environment can tag objects. -/
structure Follows (t : Tid) (cs : List (TagCall Obj × (ℕ → Int64))) (s : TagProcess Tid Obj) :
    Prop where
  runs : ∃ cs', cs'.map Prod.fst = cs.map Prod.fst ∧ View.init.Runs cs' (viewOf t s)
  sorted : ((viewOf t s).records.map stamp).Pairwise (· ≤ ·)
  past : ∀ x ∈ (viewOf t s).records.map stamp, x ≤ s.clock.toNat
  own : OwnCapable t s

omit [DecidableEq Tid] in
lemma Time.cast_le {time time' : Time} (h : time ≤ time') : (time.toNat : ℤ) ≤ time'.toNat :=
  Int.ofNat_le.mpr (UInt64.le_iff_toNat_le.mp h)

lemma follows_init (t : Tid) : Follows t [] (TagProcess.init : TagProcess Tid Obj) :=
  ⟨⟨[], rfl, .nil _⟩, List.Pairwise.nil, (fun x hx => by cases hx), fun e he => by cases he⟩

lemma Follows.of_others {t : Tid} {cs : List (TagCall Obj × (ℕ → Int64))} {s s' : TagProcess Tid Obj}
    (h : Follows t cs s) (ho : ByOthers t s s') : Follows t cs s' := by
  refine ⟨?_, ?_, fun x hx => ?_, h.own.grown ho.toGrown ho.localEnv⟩
  · rw [ho.view]
    exact h.runs
  · rw [ho.view]
    exact h.sorted
  · rw [ho.view] at hx
    exact (h.past x hx).trans (Time.cast_le ho.clock)

/-- What a call of a thread does from one state to another: a step of its view, and its record has a
time between the two. -/
structure Called (t : Tid) (c : TagCall Obj) (s s' : TagProcess Tid Obj) : Prop where
  step : ∃ o, (viewOf t s).Step c o (viewOf t s') ∧
    ∀ r ∈ o, (s.clock.toNat : ℤ) ≤ stamp r ∧ stamp r ≤ s'.clock.toNat
  clock : s.clock ≤ s'.clock

lemma Follows.called {t : Tid} {cs : List (TagCall Obj × (ℕ → Int64))} {s s' : TagProcess Tid Obj}
    (h : Follows t cs s) {c : TagCall Obj × (ℕ → Int64)} (hown : OwnCapable t s')
    (hc : Called t c.1 s s') : Follows t (cs ++ [c]) s' := by
  obtain ⟨cs', hcs, hruns⟩ := h.runs
  obtain ⟨o, hstep, htime⟩ := hc.step
  refine ⟨⟨cs' ++ [(c.1, o)], by simp [hcs], hruns.snoc hstep⟩, ?_, ?_, hown⟩
  · rw [hstep.records, List.map_append, List.pairwise_append]
    refine ⟨h.sorted, ?_, fun x hx y hy => ?_⟩
    · cases o <;> simp
    · obtain ⟨r, hr, rfl⟩ := List.mem_map.mp hy
      exact (h.past x hx).trans (htime r (Option.mem_toList.mp hr)).1
  · intro x hx
    rw [hstep.records, List.map_append] at hx
    rcases List.mem_append.mp hx with hx | hx
    · exact (h.past x hx).trans (Time.cast_le hc.clock)
    · obtain ⟨r, hr, rfl⟩ := List.mem_map.mp hx
      exact (htime r (Option.mem_toList.mp hr)).2

end View

/-! ### What leaves the view alone -/

section Fixes

variable {Tid Obj : Type*} [DecidableEq Tid] {t : Tid}

open TagProcess

lemma fixes_nextTag (obj : Option Obj) : (nextTag t obj).Fixes (viewOf t) :=
  Prog.fixes_act fun s v s' h => by cases h; rfl

lemma fixes_initJvmti : (initJvmti t : TagProg Tid Obj Unit).Fixes (viewOf t) := by
  have hview : ∀ (s : TagProcess Tid Obj) created jvmtiEnv canTagObjects,
      viewOf t { s with created, jvmtiEnv, canTagObjects } = viewOf t s := fun _ _ _ _ => rfl
  refine Prog.Fixes.bind (fixes_initShared hview) fun _ => (Prog.fixes_get _).bind fun env => ?_
  split_ifs
  · exact (fixes_getEnv hview).bind fun env =>
      Prog.Fixes.bind (Prog.fixes_modify fun _ => rfl) fun _ => fixes_addCapabilities hview _
  · exact Prog.fixes_pure ()

lemma fixes_add {record : TagRecord} (h : record.logged? = none) (found : List (Option Obj × Int64)) :
    (add t record found).Fixes (viewOf t) := by
  refine Prog.fixes_modify fun s => ?_
  simp [viewOf, h]

lemma fixes_tagMapGet (env : TagProcess Tid Obj → Option ℕ) (obj : Option Obj) (tag : Int64) :
    (tagMapGet env obj tag).Fixes (viewOf t) := by
  refine Prog.fixes_act fun s v s' h => ?_
  obtain ⟨e, -, he⟩ := Option.map_eq_some_iff.mp h
  cases he
  rfl

variable [DecidableEq Obj]

lemma fixes_tagMapSet (env : TagProcess Tid Obj → Option ℕ) (obj : Option Obj) (tag : Int64) :
    (tagMapSet env obj tag).Fixes (viewOf t) := by
  refine Prog.fixes_act fun s v s' h => ?_
  obtain ⟨e, -, he⟩ := Option.map_eq_some_iff.mp h
  cases he
  rfl

lemma fixes_getTag (localTag : Int64) (obj : Option Obj) :
    (getTag t localTag obj).Fixes (viewOf t) := by
  refine (fixes_tagMapGet _ _ _).bind fun v => ?_
  split_ifs
  · exact Prog.fixes_pure v
  refine (fixes_tagMapGet _ _ _).bind fun w => ?_
  split_ifs
  · exact (fixes_tagMapSet _ _ _).bind fun _ => Prog.fixes_pure w
  · exact (fixes_tagMapSet _ _ _).bind fun _ => Prog.fixes_pure (-1)

lemma fixes_getTags (localTag : ℕ → Int64) (n : ℕ) (objs : List (Option Obj)) :
    (getTags t localTag n objs).Fixes (viewOf t) := by
  induction objs generalizing n with
  | nil => exact Prog.fixes_pure []
  | cons obj objs ih =>
    exact (fixes_getTag _ _).bind fun tag => (ih (n + 1)).bind fun tags => Prog.fixes_pure _

lemma fixes_setTag (obj : Option Obj) (tag : Int64) : (setTag t obj tag).Fixes (viewOf t) :=
  (fixes_tagMapSet _ _ _).bind fun _ => fixes_tagMapSet _ _ _

lemma fixes_holderTag (localTag : Int64) (holder : Option Obj) :
    (holderTag t localTag holder).Fixes (viewOf t) := by
  refine (fixes_getTag _ _).bind fun tag => ?_
  split_ifs
  · exact (fixes_nextTag _).bind fun tag => (fixes_setTag _ _).bind fun _ => Prog.fixes_pure tag
  · exact Prog.fixes_pure tag

lemma fixes_addTagNewRecord (skip : Bool) (obj : Option Obj) (objTypeid line classNameId : Int32)
    (objSize : Int64) :
    (addTagNewRecord t skip obj objTypeid line classNameId objSize).Fixes (viewOf t) := by
  unfold addTagNewRecord
  split_ifs
  · exact Prog.fixes_pure ()
  exact (Prog.fixes_get _).bind fun time => (fixes_nextTag obj).bind fun tag =>
    (fixes_add rfl _).bind fun _ => fixes_initJvmti.bind fun _ =>
      (fixes_setTag obj tag).bind fun _ => Prog.fixes_modify fun _ => rfl

lemma fixes_addTagConstructRecord (localTag : ℕ → Int64) (obj : Option Obj)
    (objTypeid line classNameId : Int32) :
    (addTagConstructRecord t localTag obj objTypeid line classNameId).Fixes (viewOf t) := by
  refine fixes_initJvmti.bind fun _ => (fixes_getTag _ _).bind fun tag => ?_
  split_ifs
  · exact Prog.fixes_pure ()
  · exact (Prog.fixes_get _).bind fun time => fixes_add rfl _

lemma fixes_addTagPutFieldRecord (localTag : ℕ → Int64) (holder ref : Option Obj)
    (line classNameId fieldId : Int32) :
    (addTagPutFieldRecord t localTag holder ref line classNameId fieldId).Fixes (viewOf t) := by
  refine (Prog.fixes_get _).bind fun time => fixes_initJvmti.bind fun _ =>
    (fixes_getTag _ _).bind fun refTag => ?_
  split_ifs
  · exact Prog.fixes_pure ()
  · exact (fixes_holderTag _ _).bind fun tag => fixes_add rfl _

lemma fixes_addTagAASTORERecord (localTag : ℕ → Int64) (holder : Option Obj) (index : Int32)
    (ref : Option Obj) (line classNameId : Int32) :
    (addTagAASTORERecord t localTag holder index ref line classNameId).Fixes (viewOf t) := by
  refine fixes_initJvmti.bind fun _ => (fixes_getTag _ _).bind fun refTag => ?_
  split_ifs
  · exact Prog.fixes_pure ()
  · exact (Prog.fixes_get _).bind fun time => (fixes_holderTag _ _).bind fun tag => fixes_add rfl _

lemma fixes_addTagUseRecord (localTag : ℕ → Int64) (type : Int32) (obj : Option Obj)
    (line classNameId : Int32) :
    (addTagUseRecord t localTag type obj line classNameId).Fixes (viewOf t) := by
  refine (Prog.fixes_get _).bind fun newCalled => ?_
  split_ifs
  · exact Prog.fixes_pure ()
  refine (Prog.fixes_get _).bind fun env => ?_
  split_ifs
  · exact Prog.fixes_pure ()
  refine fixes_initJvmti.bind fun _ => (fixes_getTag _ _).bind fun tag => ?_
  split_ifs
  · exact Prog.fixes_pure ()
  · exact (Prog.fixes_get _).bind fun time => fixes_add rfl _

end Fixes

/-! ### Every call -/

section Calls

variable {Tid Obj : Type*} [DecidableEq Tid] {t : Tid} {s : TagProcess Tid Obj}

lemma safe_view {α : Type} {p : TagProg Tid Obj α} {Q : α → TagProcess Tid Obj → Prop}
    (h : tagProtocol.Safe t Q p s) (hp : p.Fixes (viewOf t)) :
    tagProtocol.Safe t (fun a s' => viewOf t s' = viewOf t s ∧ Q a s') p s :=
  h.fixes (fun s s' (hrely : ByOthers t s s') => hrely.view) hp

lemma safe_quiet {p : TagProg Tid Obj Unit} (h : SafeCall p t s) (hp : p.Fixes (viewOf t))
    {c : TagCall Obj} (hc : ∀ v, View.Step v c none v) :
    tagProtocol.Safe t (fun _ s' => OwnCapable t s' ∧ Called t c s s') p s := by
  refine ((safe_view h hp).frame (Grown.refl s)).mono fun _ s' hs' =>
    ⟨hs'.2.2, ⟨none, ?_, ?_⟩, hs'.1.clock⟩
  · rw [hs'.2.1]
    exact hc _
  · exact fun r hr => by cases hr

lemma safe_setIsSampledContainer (b : Bool) :
    tagProtocol.Safe t (fun _ s' => s.clock ≤ s'.clock ∧
        viewOf t s' = { viewOf t s with isSampledContainer := b })
      (TagProcess.setIsSampledContainer t b) s := by
  unfold TagProcess.setIsSampledContainer
  refine safe_set ?_ ?_
  · exact fun s _ => ⟨rfl, rfl, rfl, rfl, le_rfl, .of_eq rfl rfl rfl, fun _ _ => rfl, fun _ _ => rfl,
      fun _ ht => Function.update_of_ne ht ..⟩
  · intro s' hrely
    refine ⟨hrely.clock, ?_⟩
    rw [← hrely.view]
    simp [viewOf]

lemma view_add {s' : TagProcess Tid Obj} {record : TagRecord} {r : Entry ⊕ ContainerLineInfoRecord}
    (hr : record.logged? = some r) (hrely : ByOthers t s s') (found : List (Option Obj × Int64)) :
    viewOf t { s' with added := s'.added ++ [⟨t, record, found⟩] } = (viewOf t s).log r := by
  rw [← hrely.view]
  simp [viewOf, View.log, hr]

lemma entry_time (call : ContainerCall Obj) (tag : Int64) (tags : List Int64) (time : Time) :
    (call.op.entry tag tags time).br.time = time := by
  cases call <;> rfl

variable [DecidableEq Obj]

lemma safe_addContainerRecord (hown : OwnCapable t s) (localTag : ℕ → Int64)
    (call : ContainerCall Obj) :
    tagProtocol.Safe t (fun _ s' => OwnCapable t s' ∧ Called t (.container call) s s')
      (TagProcess.addContainerRecord t localTag call.op) s := by
  have henable : tagProtocol.Safe t (fun enable s' => enable = (viewOf t s').enable)
      (Prog.get fun s : TagProcess Tid Obj => s.enable t) s := Protocol.safe_get fun _ _ _ => rfl
  refine (hown.safe (safe_view henable (Prog.fixes_get _)) (Prog.fixes_get _)).bind
    fun enable s₁ h₁ ⟨hown₁, hv₁, henable⟩ => ?_
  rw [hv₁] at henable
  cases enable with
  | false =>
    exact Protocol.safe_pure.mpr
      ⟨hown₁, ⟨none, by rw [hv₁]; exact .disabled henable.symm, by simp⟩, h₁.clock⟩
  | true =>
    refine (safe_view (safe_initJvmti hown₁) fixes_initJvmti).bind
      fun _ s₂ h₂ ⟨hv₂, hready⟩ => hready.safe ?_
    refine (safe_view (safe_getTag hready (localTag 0)) (fixes_getTag _ _)).bind
      fun tag s₃ h₃ ⟨hv₃, hans⟩ => ?_
    have hv : viewOf t s₃ = viewOf t s := hv₃.trans (hv₂.trans hv₁)
    have hgrown : Grown s s₃ := h₁.trans (h₂.trans h₃)
    cases hsampled : isSampledObject tag with
    | false =>
      refine (safe_setIsSampledContainer false).mono fun _ s' hs' => ⟨⟨none, ?_, by simp⟩, ?_⟩
      · rw [hs'.2, hv]
        exact .unsampled henable.symm
      · exact hgrown.clock.trans hs'.1
    | true =>
      refine (safe_setIsSampledContainer true).bind fun _ s₄ h₄ ⟨_, hv₄⟩ => ?_
      refine (safe_view (safe_getTags (hready.grown (h₃.trans h₄)) localTag 1 call.op.objs)
        (fixes_getTags _ _ _)).bind fun tags s₅ h₅ ⟨hv₅, htags⟩ => ?_
      refine (safe_view safe_nanotime (Prog.fixes_get _)).bind fun time s₆ h₆ ⟨hv₆, htime⟩ => ?_
      have hclock : s₃.clock ≤ time := h₄.clock.trans (h₅.clock.trans htime.1)
      have hans₆ : Answered s₆.added s₃.clock call.op.holder tag :=
        hans.mono (h₄.added.trans (h₅.added.trans h₆.added)) le_rfl
      refine safe_add rfl ?_ fun s' hrely =>
        ⟨⟨some (.inl (call.op.entry tag tags time)), ?_, fun r hr => ?_⟩, ?_⟩
      · refine ⟨⟨call, tag, tags, time, rfl, htags.1, rfl⟩, fun _ p hp => ?_, fun _ p hp => ?_,
          fun _ _ p hp => ?_⟩
        · rcases List.mem_cons.mp hp with rfl | hp
          · exact ⟨_, hans₆⟩
          · exact ⟨_, (htags.2 p hp).mono h₆.added le_rfl⟩
        · obtain rfl := Option.mem_some.mp hp
          exact hsampled
        · obtain rfl := Option.mem_some.mp hp
          refine hans₆.mono List.prefix_rfl ?_
          rw [TagRecord.time, entry_time]
          exact hclock
      · rw [view_add rfl hrely, hv₆, hv₅, hv₄, hv]
        exact .container henable.symm tag tags time hsampled htags.1
      · obtain rfl := Option.mem_some.mp hr
        rw [stamp, Entry.time, entry_time]
        exact ⟨Time.cast_le (hgrown.clock.trans hclock), Time.cast_le (htime.2.trans hrely.clock)⟩
      · exact (hgrown.trans (h₄.trans (h₅.trans h₆))).clock.trans hrely.clock

omit [DecidableEq Obj] in
lemma safe_addLineInfo (hown : OwnCapable t s) (line classNameId : Int32) :
    tagProtocol.Safe t (fun _ s' => OwnCapable t s' ∧ Called t (.lineInfo line classNameId) s s')
      (TagProcess.addLineInfo t line classNameId : TagProg Tid Obj Unit) s := by
  have hfixes : (TagProcess.addLineInfo t line classNameId : TagProg Tid Obj Unit).Fixes
      (TagProcess.localEnvOf t) := by
    refine (Prog.fixes_get _).bind fun enable => (Prog.fixes_get _).bind fun sampled => ?_
    split_ifs
    · exact Prog.fixes_pure ()
    · exact (Prog.fixes_get _).bind fun time => Prog.fixes_modify fun _ => rfl
  refine hown.safe ?_ hfixes
  have hread : ∀ (f : TagProcess Tid Obj → Bool) s,
      tagProtocol.Safe t (fun b s' => b = f s') (Prog.get f) s :=
    fun f s => Protocol.safe_get fun _ _ _ => rfl
  refine (safe_view (hread _ s) (Prog.fixes_get _)).bind fun enable s₁ h₁ ⟨hv₁, henable⟩ => ?_
  refine (safe_view (hread _ s₁) (Prog.fixes_get _)).bind fun sampled s₂ h₂ ⟨hv₂, hsampled⟩ => ?_
  have hv : viewOf t s₂ = viewOf t s := hv₂.trans hv₁
  have hflags : ((viewOf t s).enable && (viewOf t s).isSampledContainer) = (enable && sampled) := by
    rw [henable, hsampled, ← hv₁, ← congrArg View.isSampledContainer hv₂]
    rfl
  split_ifs with hoff
  · refine Protocol.safe_pure.mpr ⟨⟨none, ?_, by simp⟩, (h₁.trans h₂).clock⟩
    rw [hv]
    refine .noLine (hflags.trans ?_)
    cases enable <;> cases sampled <;> simp_all
  refine (safe_view safe_nanotime (Prog.fixes_get _)).bind fun time s₃ h₃ ⟨hv₃, htime⟩ => ?_
  refine safe_add rfl ?_ fun s' hrely =>
    ⟨⟨some (.inr (lineRecord line classNameId time)), ?_, fun r hr => ?_⟩, ?_⟩
  · refine ⟨rfl, fun _ p hp => absurd hp List.not_mem_nil, ?_, ?_⟩
    · exact fun _ p hp => by cases hp
    · exact fun _ _ p hp => by cases hp
  · rw [view_add rfl hrely, hv₃, hv]
    refine .line (hflags.trans ?_) time
    cases enable <;> cases sampled <;> simp_all
  · obtain rfl := Option.mem_some.mp hr
    exact ⟨Time.cast_le ((h₁.trans h₂).clock.trans htime.1), Time.cast_le (htime.2.trans hrely.clock)⟩
  · exact (h₁.trans (h₂.trans h₃)).clock.trans hrely.clock

omit [DecidableEq Obj] in
lemma safe_setEnable (hown : OwnCapable t s) (b : Bool) {c : TagCall Obj}
    (hc : ∀ v, View.Step v c none { v with enable := b }) :
    tagProtocol.Safe t (fun _ s' => OwnCapable t s' ∧ Called t c s s')
      (TagProcess.setEnable t b) s := by
  refine hown.safe (safe_set ?_ ?_) (Prog.fixes_modify fun _ => rfl)
  · exact fun s _ => ⟨rfl, rfl, rfl, rfl, le_rfl, .of_eq rfl rfl rfl, fun _ _ => rfl,
      fun _ ht => Function.update_of_ne ht .., fun _ _ => rfl⟩
  · intro s' hrely
    refine ⟨⟨none, ?_, by simp⟩, hrely.clock⟩
    have hview := hc (viewOf t s)
    rw [← hrely.view] at hview ⊢
    simpa [viewOf] using hview

lemma safe_body (hown : OwnCapable t s) (c : TagCall Obj × (ℕ → Int64)) :
    tagProtocol.Safe t (fun _ s' => OwnCapable t s' ∧ Called t c.1 s s') (TagCall.body t c) s := by
  obtain ⟨call, localTag⟩ := c
  cases call with
  | new skip obj objTypeid line classNameId objSize =>
    exact safe_quiet (safe_addTagNewRecord hown ..) (fixes_addTagNewRecord ..) fun _ => .new
  | construct obj objTypeid line classNameId =>
    exact safe_quiet (safe_addTagConstructRecord hown ..) (fixes_addTagConstructRecord ..)
      fun _ => .construct
  | putField holder ref line classNameId fieldId =>
    exact safe_quiet (safe_addTagPutFieldRecord hown ..) (fixes_addTagPutFieldRecord ..)
      fun _ => .putField
  | aaStore holder index ref line classNameId =>
    exact safe_quiet (safe_addTagAASTORERecord hown ..) (fixes_addTagAASTORERecord ..)
      fun _ => .aaStore
  | use type obj line classNameId =>
    exact safe_quiet (safe_addTagUseRecord hown ..) (fixes_addTagUseRecord ..) fun _ => .use
  | container call => exact safe_addContainerRecord hown ..
  | lineInfo line classNameId => exact safe_addLineInfo hown ..
  | enableRecord => exact safe_setEnable hown true fun _ => .enableRecord
  | disableRecord => exact safe_setEnable hown false fun _ => .disableRecord

/-- **Every call is safe** and goes on from where the calls before it have led; so is the clock. -/
theorem keeps_body : tagProtocol.Keeps Follows
    (TagCall.body : Tid → TagCall Obj × (ℕ → Int64) → TagProg Tid Obj Unit) tick where
  stable _ _ _ _ h hrely _ := h.of_others hrely
  body _ _ c _ _ h := (safe_body h.own c).mono fun _ _ hc => h.called hc.1 hc.2
  env s clock s' hs h := by
    unfold tick at h
    split at h
    · rename_i hle
      cases h
      have hgrown : Grown s { s with clock := clock } :=
        ⟨List.prefix_rfl, List.prefix_rfl, hle, .of_eq rfl rfl rfl⟩
      exact ⟨hs.of_eq rfl rfl rfl rfl hle, fun t => ⟨hgrown, rfl, rfl, rfl, rfl⟩⟩
    · cases h

omit [DecidableEq Tid] [DecidableEq Obj] in
lemma tagInv_init : TagInv (TagProcess.init : TagProcess Tid Obj) := by
  constructor <;> simp [TagProcess.init, nthTag]

end Calls

end Cinst.Native
