import Mathlib.Data.Fintype.Basic
import Cinst.Lib.Run
import Cinst.Lib.Stream

/-!
The agent and the JVM: the hook `ClassFileLoadHook`, which sends a class to the server and hands the
instrumented class back, the loading of classes on any number of threads, and the branch of
`MethodEntry` that is taken at `checkAndLoadMain` and retransforms the classes that are loaded.

The hook is cut at the places where it reads or writes a variable that the threads share.
-/

namespace Cinst.Agent

open Cinst.Lib

/-! ### Classes -/

/-- A class as the JVM hands it to the agent; the hook gets no name for some classes. A class file
is not empty. -/
structure ClassFile where
  name : Option String
  signature : String
  modifiable : Bool
  classData : Bytes
  signature_eq : ∀ n, name = some n → signature = "L" ++ n ++ ";"
  classData_ne : classData ≠ []

/-- `strncmp("Ljava/lang/invoke", signature, strlen("Ljava/lang/invoke")) == 0`. -/
def skipped (signature : String) : Bool :=
  "Ljava/lang/invoke".toList.isPrefixOf signature.toList

/-- The classes that are to be instrumented: modifiable, with a name that is not empty and not under
`java/lang/invoke`. -/
def ClassFile.Eligible (f : ClassFile) : Prop :=
  f.modifiable ∧ ∃ n ∈ f.name, n ≠ "" ∧ ¬ "java/lang/invoke".toList <+: n.toList

instance (f : ClassFile) : Decidable f.Eligible := inferInstanceAs (Decidable (_ ∧ _))

/-! ### The hook -/

/-- Where a call of the hook stands: before it reads `vm_init`, before it looks the name up in
`transformed_classes`, before it inserts the name, before it asks the server, and after it has
returned, with the class that it has set, if any. -/
inductive HookPc where
  | entered
  | vmInitRead
  | notFound
  | inserted
  | returned (newClassData : Option Bytes)
  deriving DecidableEq

/-- The next step of a call of `ClassFileLoadHook`, and `transformed_classes` after it. `server` is
what the server answers to a class, in the mode of the agent. -/
def hookStep (server : String → Bytes → Bytes) (vmInit : Bool) (transformed : List String)
    (f : ClassFile) : HookPc → Option (HookPc × List String)
  | .entered =>
    match f.name with
    | none => some (.returned none, transformed)
    | some _ =>
      if vmInit then some (.vmInitRead, transformed) else some (.returned none, transformed)
  | .vmInitRead =>
    if f.name.getD "" ∈ transformed then some (.returned none, transformed)
    else some (.notFound, transformed)
  | .notFound => some (.inserted, f.name.getD "" :: transformed)
  | .inserted =>
    if f.classData.length = 0 then some (.returned none, transformed)
    else if f.name.getD "" = "" then some (.returned none, transformed)
    else some (.returned (some (server (f.name.getD "") f.classData)), transformed)
  | .returned _ => none

/-! ### The JVM -/

section Jvm

variable {C : Type*} [DecidableEq C]

/-- Where the branch of `MethodEntry` stands: before it sets `vm_init`, before it asks for the loaded
classes, at the head of the loop with the classes that are left, within `RetransformClasses` of a
class, and behind the loop. -/
inductive MainPc (C : Type*) where
  | start
  | vmInitSet
  | loop (klasses : List C)
  | retransform (c : C) (pc : HookPc) (klasses : List C)
  | finished

/-- The variables of the agent, the classes that are being loaded, the loaded classes with the bytes
that they run, and the main thread. -/
structure Jvm (C : Type*) where
  vmInit : Bool
  transformedClasses : List String
  loading : C → Option HookPc
  loaded : List C
  code : C → Bytes
  main : MainPc C

/-- What happens: a thread begins to load a class, goes on in its hook, and the class is there; and
the steps of the branch. -/
inductive JvmAct (C : Type*) where
  | load (c : C)
  | hook (c : C)
  | install (c : C)
  | setVmInit
  | getLoadedClasses (klasses : List C)
  | next
  | retransformHook
  | retransformInstall

variable (server : String → Bytes → Bytes) (file : C → ClassFile)

namespace Jvm

/-- The JVM at its start. -/
def init : Jvm C where
  vmInit := false
  transformedClasses := []
  loading := fun _ => none
  loaded := []
  code := fun _ => []
  main := .start

/-- One step. `RetransformClasses` starts from the bytes of the class file. The class that the hook
has set is installed, or the bytes that it was given when it has set none. -/
def step (s : Jvm C) : JvmAct C → Option (Jvm C)
  | .load c =>
    match s.loading c with
    | none =>
      if c ∈ s.loaded then none
      else some { s with loading := Function.update s.loading c (some .entered) }
    | some _ => none
  | .hook c =>
    match s.loading c with
    | none => none
    | some pc =>
      (hookStep server s.vmInit s.transformedClasses (file c) pc).map fun r =>
        { s with
          loading := Function.update s.loading c (some r.1)
          transformedClasses := r.2 }
  | .install c =>
    match s.loading c with
    | some (.returned newClassData) =>
      some { s with
        loading := Function.update s.loading c none
        loaded := s.loaded ++ [c]
        code := Function.update s.code c (newClassData.getD (file c).classData) }
    | _ => none
  | .setVmInit =>
    match s.main with
    | .start => some { s with vmInit := true, main := .vmInitSet }
    | _ => none
  | .getLoadedClasses klasses =>
    match s.main with
    | .vmInitSet => if klasses.Perm s.loaded then some { s with main := .loop klasses } else none
    | _ => none
  | .next =>
    match s.main with
    | .loop [] => some { s with main := .finished }
    | .loop (c :: klasses) =>
      if skipped (file c).signature || !(file c).modifiable then
        some { s with main := .loop klasses }
      else some { s with main := .retransform c .entered klasses }
    | _ => none
  | .retransformHook =>
    match s.main with
    | .retransform c pc klasses =>
      (hookStep server s.vmInit s.transformedClasses (file c) pc).map fun r =>
        { s with
          main := .retransform c r.1 klasses
          transformedClasses := r.2 }
    | _ => none
  | .retransformInstall =>
    match s.main with
    | .retransform c (.returned newClassData) klasses =>
      some { s with
        main := .loop klasses
        code := Function.update s.code c (newClassData.getD (file c).classData) }
    | _ => none

end Jvm

/-- What the server answers to a class. -/
def ClassFile.instrumented (f : ClassFile) : Bytes := server (f.name.getD "") f.classData

/-- Every loaded class that is to be instrumented runs what the server has answered. -/
def Instrumented (s : Jvm C) : Prop :=
  ∀ c ∈ s.loaded, (file c).Eligible → s.code c = (file c).instrumented server

/-- The class whose name the hook of the branch looks up next. -/
def MainPc.lookingUp : MainPc C → Option C
  | .retransform c .vmInitRead _ => some c
  | _ => none

/-- A class that is to be instrumented is not found in `transformed_classes`. -/
def Unfound (s : Jvm C) (c : C) : Prop :=
  (file c).Eligible → (file c).name.getD "" ∉ s.transformedClasses

/-- The condition on a step. A hook that looks up the name of a class that is to be instrumented does
not find it; and when the loaded classes are asked for, no such class is still being loaded whose
hook has returned without setting a class. -/
def Undisturbed (s : Jvm C) : JvmAct C → Prop
  | .hook c => s.loading c = some .vmInitRead → Unfound file s c
  | .retransformHook => ∀ c ∈ s.main.lookingUp, Unfound file s c
  | .getLoadedClasses _ => ∀ c, (file c).Eligible → s.loading c ≠ some (.returned none)
  | _ => True

instance (s : Jvm C) (c : C) : Decidable (Unfound file s c) := inferInstanceAs (Decidable (_ → _))

instance [Fintype C] (s : Jvm C) : DecidablePred (Undisturbed file s)
  | .hook _ => inferInstanceAs (Decidable (_ → _))
  | .retransformHook => inferInstanceAs (Decidable (∀ c ∈ s.main.lookingUp, Unfound file s c))
  | .getLoadedClasses _ => Fintype.decidableForallFintype
  | .load _ | .install _ | .setVmInit | .next | .retransformInstall => instDecidableTrue

/-! ### One step of the hook -/

section HookStep

variable {server} {f : ClassFile}

lemma ClassFile.Eligible.name_ne (h : f.Eligible) : ∃ n, f.name = some n ∧ n ≠ "" := by
  obtain ⟨-, n, hname, hne, -⟩ := h
  exact ⟨n, hname, hne⟩

lemma ClassFile.Eligible.not_skipped (h : f.Eligible) :
    (skipped f.signature || !f.modifiable) = false := by
  obtain ⟨hmod, n, hname, -, hinvoke⟩ := h
  have hskip : ¬ skipped f.signature = true := by
    rw [skipped, List.isPrefixOf_iff_prefix, f.signature_eq n hname, String.toList_append,
      String.toList_append]
    intro hp
    have hp' : 'L' :: "java/lang/invoke".toList <+: 'L' :: (n.toList ++ [';']) := hp
    rcases List.prefix_concat_iff.mp (List.cons_prefix_cons.mp hp').2 with heq | hp
    · have hlast : some 'e' = some ';' := by
        simpa using congrArg List.getLast? heq
      exact absurd hlast (by decide)
    · exact hinvoke hp
  simp [hmod, hskip]

/-- **What a call of the hook sets**, for a class that is to be instrumented and whose name it does
not find: the answer of the server, unless it has read `vm_init` before it was set. -/
lemma hookStep_returned (hf : f.Eligible) {vmInit : Bool} {ts ts' : List String} {pc : HookPc}
    (hfresh : pc = .vmInitRead → f.name.getD "" ∉ ts) {out : Option Bytes}
    (h : hookStep server vmInit ts f pc = some (.returned out, ts')) :
    out = some (f.instrumented server) ∨ (out = none ∧ vmInit = false) := by
  obtain ⟨n, hname, hne⟩ := hf.name_ne
  have hlen : f.classData.length ≠ 0 := fun h0 => f.classData_ne (List.length_eq_zero_iff.mp h0)
  cases pc with
  | entered =>
    cases vmInit with
    | false =>
      simp [hookStep, hname] at h
      exact Or.inr ⟨h.1.symm, rfl⟩
    | true => simp [hookStep, hname] at h
  | vmInitRead => simp [hookStep, hfresh rfl] at h
  | notFound => simp [hookStep] at h
  | inserted =>
    simp [hookStep, hname, hne, hlen] at h
    left
    rw [← h.1, ClassFile.instrumented, hname, Option.getD_some]
  | returned out => simp [hookStep] at h

end HookStep

/-! ### The invariant -/

/-- The classes that the branch has still to treat. -/
def MainPc.pending : MainPc C → List C
  | .loop klasses => klasses
  | .retransform c _ klasses => c :: klasses
  | _ => []

/-- The branch has not asked for the loaded classes yet. -/
def MainPc.Early : MainPc C → Prop
  | .start | .vmInitSet => True
  | _ => False

/-- A class that is to be instrumented and is not, is yet to be treated by the branch. -/
structure Jvm.Inv (s : Jvm C) : Prop where
  vmInit : s.vmInit = false → s.main = .start
  loading : ∀ c, (file c).Eligible → ∀ out, s.loading c = some (.returned out) →
    out = some ((file c).instrumented server) ∨ (out = none ∧ s.main.Early)
  loaded : ∀ c ∈ s.loaded, (file c).Eligible →
    s.code c = (file c).instrumented server ∨ s.main.Early ∨ c ∈ s.main.pending
  retransform : ∀ c klasses out, (file c).Eligible → s.main = .retransform c (.returned out) klasses →
    out = some ((file c).instrumented server)

section Step

variable {server file} {s s' : Jvm C}

omit [DecidableEq C] in
lemma Jvm.inv_init : (Jvm.init : Jvm C).Inv server file where
  vmInit _ := rfl
  loading _ _ _ h := by cases h
  loaded _ h := by cases h
  retransform _ _ _ _ h := by cases h

namespace Jvm.Inv

/-- A class that is being loaded: where its hook stands changes, and `transformed_classes`. -/
lemma setLoading (h : s.Inv server file) (c : C) (pc : Option HookPc) (ts : List String)
    (hpc : (file c).Eligible → ∀ out, pc = some (.returned out) →
      out = some ((file c).instrumented server) ∨ (out = none ∧ s.main.Early)) :
    Inv server file { s with
      loading := Function.update s.loading c pc
      transformedClasses := ts } where
  vmInit := h.vmInit
  loading c' hf out hout := by
    dsimp only at hout ⊢
    by_cases hc : c' = c
    · subst hc
      rw [Function.update_self] at hout
      exact hpc hf out hout
    · rw [Function.update_of_ne hc] at hout
      exact h.loading c' hf out hout
  loaded := h.loaded
  retransform := h.retransform

lemma load (h : s.Inv server file) {c : C} (hs : s.step server file (.load c) = some s') :
    s'.Inv server file := by
  simp only [step] at hs
  split at hs
  · split at hs
    · cases hs
    · cases hs
      exact h.setLoading c _ _ fun _ _ he => by cases he
  · cases hs

lemma hook (h : s.Inv server file) {c : C} (hu : Undisturbed file s (.hook c))
    (hs : s.step server file (.hook c) = some s') : s'.Inv server file := by
  simp only [step] at hs
  split at hs
  · cases hs
  · rename_i pc hpc
    obtain ⟨⟨pc', ts⟩, hhook, rfl⟩ := Option.map_eq_some_iff.mp hs
    refine h.setLoading c _ ts fun hf out hout => ?_
    cases hout
    refine (hookStep_returned hf (fun e => hu (e ▸ hpc) hf) hhook).imp_right ?_
    rintro ⟨hnone, hinit⟩
    exact ⟨hnone, by rw [h.vmInit hinit]; trivial⟩

lemma install (h : s.Inv server file) {c : C}
    (hs : s.step server file (.install c) = some s') : s'.Inv server file := by
  simp only [step] at hs
  split at hs
  · rename_i out hout
    cases hs
    have hloading := (h.setLoading c none s.transformedClasses fun _ _ he => by cases he).loading
    refine ⟨h.vmInit, hloading, fun c' hc' hf => ?_, h.retransform⟩
    dsimp only at hc' ⊢
    by_cases hc : c' = c
    · subst hc
      rw [Function.update_self]
      rcases h.loading c' hf out hout with rfl | ⟨-, hearly⟩
      · exact Or.inl rfl
      · exact Or.inr (Or.inl hearly)
    · rw [Function.update_of_ne hc]
      exact h.loaded c' ((List.mem_append.mp hc').resolve_right (by simpa using hc)) hf
  · cases hs

lemma setVmInit (h : s.Inv server file)
    (hs : s.step server file .setVmInit = some s') : s'.Inv server file := by
  simp only [step] at hs
  split at hs
  · rename_i hmain
    cases hs
    refine ⟨fun he => (by cases he), fun c hf out hout => ?_, fun c _ _ => ?_,
      fun _ _ _ _ he => (by cases he)⟩
    · refine (h.loading c hf out hout).imp_right fun hn => ⟨hn.1, trivial⟩
    · exact Or.inr (Or.inl trivial)
  · cases hs

lemma getLoadedClasses (h : s.Inv server file) {klasses : List C}
    (hu : Undisturbed file s (.getLoadedClasses klasses))
    (hs : s.step server file (.getLoadedClasses klasses) = some s') : s'.Inv server file := by
  simp only [step] at hs
  split at hs
  · rename_i hmain
    split at hs
    · rename_i hperm
      cases hs
      refine ⟨fun he => ?_, fun c hf out hout => ?_, fun c hc _ => ?_,
        fun _ _ _ _ he => (by cases he)⟩
      · rw [h.vmInit he] at hmain
        cases hmain
      · rcases h.loading c hf out hout with hins | ⟨rfl, -⟩
        · exact Or.inl hins
        · exact absurd hout (hu c hf)
      · exact Or.inr (Or.inr (hperm.mem_iff.mpr hc))
    · cases hs
  · cases hs

omit [DecidableEq C] in
/-- The branch goes on, behind `getLoadedClasses`, and leaves out at most classes that are not to be
instrumented. -/
lemma setMain (h : s.Inv server file) {main : MainPc C} (hearly : ¬ s.main.Early)
    (hpending : ∀ c ∈ s.main.pending, (file c).Eligible → c ∈ main.pending)
    (hretransform : ∀ c klasses out, main ≠ .retransform c (.returned out) klasses) :
    Inv server file { s with main := main } where
  vmInit he := by
    rw [h.vmInit he] at hearly
    exact absurd trivial hearly
  loading c hf out hout := Or.inl ((h.loading c hf out hout).resolve_right fun hn => hearly hn.2)
  loaded c hc hf := by
    rcases h.loaded c hc hf with hcode | hn | hmem
    · exact Or.inl hcode
    · exact absurd hn hearly
    · exact Or.inr (Or.inr (hpending c hmem hf))
  retransform c klasses out _ he := absurd he (hretransform c klasses out)

lemma next (h : s.Inv server file) (hs : s.step server file .next = some s') :
    s'.Inv server file := by
  simp only [step] at hs
  split at hs
  · rename_i hmain
    cases hs
    refine h.setMain ?_ ?_ ?_
    · simp [hmain, MainPc.Early]
    · simp [hmain, MainPc.pending]
    · simp
  · rename_i c klasses hmain
    split at hs
    · rename_i hskip
      cases hs
      refine h.setMain ?_ ?_ ?_
      · simp [hmain, MainPc.Early]
      · intro c' hc' hf
        rw [hmain, MainPc.pending, List.mem_cons] at hc'
        refine hc'.resolve_left ?_
        rintro rfl
        rw [hf.not_skipped] at hskip
        cases hskip
      · simp
    · cases hs
      refine h.setMain ?_ ?_ ?_
      · simp [hmain, MainPc.Early]
      · intro c' hc' _
        rw [hmain] at hc'
        exact hc'
      · simp
  · cases hs

lemma retransformHook (h : s.Inv server file) (hu : Undisturbed file s .retransformHook)
    (hs : s.step server file .retransformHook = some s') : s'.Inv server file := by
  simp only [step] at hs
  split at hs
  · rename_i c pc klasses hmain
    obtain ⟨⟨pc', ts⟩, hhook, rfl⟩ := Option.map_eq_some_iff.mp hs
    have hinit : s.vmInit = true := by
      by_contra hf
      have := h.vmInit (by simpa using hf)
      rw [hmain] at this
      cases this
    refine ⟨fun he => ?_, fun c' hf out hout => ?_, fun c' hc' hf => ?_,
      fun c' klasses' out hf he => ?_⟩
    · exact absurd (hinit.symm.trans he) (by simp)
    · refine Or.inl ((h.loading c' hf out hout).resolve_right fun hn => ?_)
      rw [hmain] at hn
      exact hn.2
    · have := h.loaded c' hc' hf
      rw [hmain] at this
      exact this
    · cases he
      refine (hookStep_returned hf ?_ hhook).resolve_right ?_
      · rintro rfl
        exact hu c (by rw [hmain]; rfl) hf
      · rintro ⟨-, he⟩
        exact absurd (hinit.symm.trans he) (by simp)
  · cases hs

lemma retransformInstall (h : s.Inv server file)
    (hs : s.step server file .retransformInstall = some s') : s'.Inv server file := by
  simp only [step] at hs
  split at hs
  · rename_i c out klasses hmain
    cases hs
    refine ⟨fun he => ?_, fun c' hf out hout => ?_, fun c' hc' hf => ?_,
      fun _ _ _ _ he => (by cases he)⟩
    · have := h.vmInit he
      rw [hmain] at this
      cases this
    · refine Or.inl ((h.loading c' hf out hout).resolve_right fun hn => ?_)
      rw [hmain] at hn
      exact hn.2
    · dsimp only at hc' ⊢
      by_cases hc : c' = c
      · subst hc
        rw [Function.update_self, h.retransform c' klasses out hf hmain]
        exact Or.inl rfl
      · rw [Function.update_of_ne hc]
        have := h.loaded c' hc' hf
        rw [hmain] at this
        rcases this with hcode | hn | hmem
        · exact Or.inl hcode
        · exact absurd hn id
        · exact Or.inr (Or.inr ((List.mem_cons.mp hmem).resolve_left hc))
  · cases hs

end Jvm.Inv

theorem Jvm.inv_step {a : JvmAct C} (h : s.Inv server file) (hu : Undisturbed file s a)
    (hs : s.step server file a = some s') : s'.Inv server file := by
  cases a with
  | load c => exact h.load hs
  | hook c => exact h.hook hu hs
  | install c => exact h.install hs
  | setVmInit => exact h.setVmInit hs
  | getLoadedClasses klasses => exact h.getLoadedClasses hu hs
  | next => exact h.next hs
  | retransformHook => exact h.retransformHook hu hs
  | retransformInstall => exact h.retransformInstall hs

end Step

variable (C) in
/-- **Every class ends up instrumented.** In every run of any number of loading threads and the branch
whose steps all meet the condition, in every state after the branch has finished, every loaded class
that is to be instrumented runs what the server has answered. -/
theorem instrumented_of_undisturbed (acts : List (JvmAct C)) (s : Jvm C)
    (hrun : run (Jvm.step server file) Jvm.init acts = some s)
    (hu : Along (Jvm.step server file) (Undisturbed file) Jvm.init acts)
    (hfin : s.main = .finished) : Instrumented server file s := by
  have hinv : s.Inv server file :=
    run_invariant_along (Jvm.Inv server file) (fun _ _ _ => Jvm.inv_step) Jvm.inv_init hu hrun
  intro c hc hf
  rcases hinv.loaded c hc hf with hcode | hearly | hmem
  · exact hcode
  · rw [hfin] at hearly
    exact absurd hearly id
  · rw [hfin] at hmem
    cases hmem

end Jvm

/-! ### Two runs -/

/-- Two classes, `a` and `b`. -/
def twoFiles (c : Bool) : ClassFile where
  name := some (if c then "b" else "a")
  signature := "L" ++ (if c then "b" else "a") ++ ";"
  modifiable := true
  classData := [0]
  signature_eq n h := by cases h; rfl
  classData_ne := List.cons_ne_nil _ _

/-- A server that marks a class. -/
def markServer (_ : String) (classData : Bytes) : Bytes := 1 :: classData

/-- `a` is loaded before `vm_init` is set and retransformed, `b` is loaded at the end. -/
def quietRun : List (JvmAct Bool) :=
  [ .load false, .hook false, .install false, .setVmInit, .getLoadedClasses [false], .next,
    .retransformHook, .retransformHook, .retransformHook, .retransformHook, .retransformInstall,
    .next, .load true, .hook true, .hook true, .hook true, .hook true, .install true ]

/-- The state after a list of steps. -/
def afterRun (acts : List (JvmAct Bool)) : Jvm Bool :=
  (run (Jvm.step markServer twoFiles) Jvm.init acts).getD Jvm.init

theorem instrumented_of_undisturbed_quietRun : Instrumented markServer twoFiles (afterRun quietRun) := by
  refine instrumented_of_undisturbed Bool markServer twoFiles quietRun _ rfl ?_ rfl
  decide

/-- `a` is loaded, and instrumented, after `vm_init` was set and before the loaded classes are asked
for. -/
def lateRun : List (JvmAct Bool) :=
  [ .setVmInit, .load false, .hook false, .hook false, .hook false, .hook false, .install false,
    .getLoadedClasses [false], .next, .retransformHook, .retransformHook, .retransformInstall,
    .next ]

/-- Retransforming takes the instrumented class away. -/
theorem not_instrumented_lateRun :
    run (Jvm.step markServer twoFiles) Jvm.init lateRun = some (afterRun lateRun) ∧
      (afterRun lateRun).main = .finished ∧
      ¬ Instrumented markServer twoFiles (afterRun lateRun) := by
  refine ⟨rfl, rfl, fun h => ?_⟩
  have hcode := h false (by decide) (by decide)
  exact absurd hcode (by decide)

end Cinst.Agent
