import Cinst.Native.TagCalls
import Cinst.Script.Join

/-!
Container operations and their call sites in a process with several threads: whatever the other
threads do, on a thread that makes its calls in the order of the instrumented code every line record
stands directly behind the record of the operation that it is for (`paired_runs`).
-/

namespace Cinst.Native

open Cinst.Lib Cinst.Record
open Cinst.Script (row lineData4sql Paired)

section Attribution

variable {Tid Obj : Type*}

/-- Every line call has a container call between it and the previous line call, and the flag
`enable` has the value that it had at the last of these. The arguments are the flag, and its value at
the last container call since the last line call. -/
def TagCall.Disciplined : Bool → Option Bool → List (TagCall Obj) → Prop
  | _, _, [] => True
  | enable, _, .container _ :: cs => Disciplined enable (some enable) cs
  | enable, last, .lineInfo .. :: cs => last = some enable ∧ Disciplined enable none cs
  | _, last, .enableRecord :: cs => Disciplined true last cs
  | _, last, .disableRecord :: cs => Disciplined false last cs
  | enable, last, .new .. :: cs | enable, last, .construct .. :: cs
  | enable, last, .putField .. :: cs | enable, last, .aaStore .. :: cs
  | enable, last, .use .. :: cs => Disciplined enable last cs

instance decidableDisciplined : (enable : Bool) → (last : Option Bool) → (cs : List (TagCall Obj)) →
    Decidable (TagCall.Disciplined enable last cs)
  | _, _, [] => isTrue trivial
  | enable, _, .container _ :: cs => decidableDisciplined enable (some enable) cs
  | enable, last, .lineInfo .. :: cs =>
    have := decidableDisciplined enable none cs
    inferInstanceAs (Decidable (last = some enable ∧ _))
  | _, last, .enableRecord :: cs => decidableDisciplined true last cs
  | _, last, .disableRecord :: cs => decidableDisciplined false last cs
  | enable, last, .new .. :: cs | enable, last, .construct .. :: cs
  | enable, last, .putField .. :: cs | enable, last, .aaStore .. :: cs
  | enable, last, .use .. :: cs => decidableDisciplined enable last cs

/-- What the calls are for, given the records that they have added: the line and the class of a line
call belong to the record of the last container call, when there is one. -/
def sites (last : Option Entry) :
    List (TagCall Obj × Option (Entry ⊕ ContainerLineInfoRecord)) → List (Entry × Int32 × Int32)
  | [] => []
  | (.container _, o) :: cs => sites (o.bind Sum.getLeft?) cs
  | (.lineInfo line classNameId, _) :: cs =>
    (last.toList.map fun e => (e, line, classNameId)) ++ sites last cs
  | _ :: cs => sites last cs

/-- The row of a container record at a site. -/
def siteRow (p : Entry × Int32 × Int32) : List ℤ := row p.1 (lineRecord p.2.1 p.2.2 0)

/-- A container record and its line record are what a call at a site has recorded. -/
structure AtSite (p : Entry × ContainerLineInfoRecord) (q : Entry × Int32 × Int32) : Prop where
  entry : p.1 = q.1
  line : lineData4sql p.2 = lineData4sql (lineRecord q.2.1 q.2.2 0)

/-- The record of the last container call since the last line call, where `last` is the value of
`enable` at that call: `is_sampled_container` says whether there is one. -/
def View.Awaits (v : View) (last : Option Bool) (record : Option Entry) : Prop :=
  if last = some true then v.isSampledContainer = record.isSome else record = none

/-- What the last container call was does not matter when there has to be another one before the
next line call. -/
lemma sites_eq_none {cs : List (TagCall Obj × Option (Entry ⊕ ContainerLineInfoRecord))}
    {enable : Bool} (h : TagCall.Disciplined enable none (cs.map Prod.fst)) (last : Option Entry) :
    sites last cs = sites none cs := by
  induction cs generalizing enable with
  | nil => rfl
  | cons p cs ih =>
    obtain ⟨c, o⟩ := p
    cases c with
    | container call => rfl
    | lineInfo line classNameId => cases h.1
    | enableRecord | disableRecord => exact ih h
    | new | construct | putField | aaStore | use => exact ih h

variable {v v' : View} {last : Option Bool} {record : Option Entry}

/-- A line call adds a record exactly when there is a container record for it. -/
lemma View.Awaits.isSome (h : v.Awaits last record) (hlast : last = some v.enable) :
    record.isSome = (v.enable && v.isSampledContainer) := by
  subst hlast
  unfold Awaits at h
  cases henable : v.enable with
  | true =>
    rw [henable, if_pos rfl] at h
    rw [← h, Bool.true_and]
  | false =>
    rw [henable, if_neg (by simp)] at h
    rw [h, Option.isSome_none, Bool.false_and]

lemma View.awaits_true (h : v.isSampledContainer = record.isSome) : v.Awaits (some true) record := by
  unfold Awaits
  rw [if_pos rfl]
  exact h

/-- **Every line record stands directly behind the record of its operation.** -/
theorem paired_runs {cs : List (TagCall Obj × Option (Entry ⊕ ContainerLineInfoRecord))}
    (h : v.Runs cs v') (hd : TagCall.Disciplined v.enable last (cs.map Prod.fst))
    (hw : v.Awaits last record) :
    ∃ ps, Paired (record.toList.map .inl ++ cs.filterMap Prod.snd) ps ∧
      List.Forall₂ AtSite ps (sites record cs) := by
  induction h generalizing last record with
  | nil v => exact ⟨[], Paired.nil.pending record, .nil⟩
  | @cons v v₁ v' c o cs hstep hruns ih =>
    cases hstep with
    | disabled henable =>
      have hnone : v.Awaits (some v.enable) none := by
        unfold View.Awaits
        rw [henable]
        rfl
      obtain ⟨ps, hps, hsites⟩ := ih hd hnone
      exact ⟨ps, hps.pending record, hsites⟩
    | unsampled henable =>
      have hnone : View.Awaits { v with isSampledContainer := false } (some true) none :=
        View.awaits_true rfl
      obtain ⟨ps, hps, hsites⟩ := ih (by rw [← henable]; exact hd) hnone
      exact ⟨ps, hps.pending record, hsites⟩
    | @container call henable tag tags time =>
      have hsome : View.Awaits (View.log { v with isSampledContainer := true }
          (.inl (call.op.entry tag tags time))) (some true) (some (call.op.entry tag tags time)) :=
        View.awaits_true rfl
      obtain ⟨ps, hps, hsites⟩ := ih (by rw [← henable]; exact hd) hsome
      exact ⟨ps, hps.pending record, hsites⟩
    | noLine hoff =>
      -- the operation was not recorded either
      have hnone := hw.isSome hd.1
      rw [hoff, Option.isSome_eq_false_iff, Option.isNone_iff_eq_none] at hnone
      subst hnone
      have hnext : v.Awaits none none := rfl
      exact ih hd.2 hnext
    | @line line classNameId hon time =>
      have hsome := hw.isSome hd.1
      rw [hon] at hsome
      obtain ⟨e, rfl⟩ := Option.isSome_iff_exists.mp hsome
      have hnext : View.Awaits (v.log (.inr (lineRecord line classNameId time))) none none := rfl
      obtain ⟨ps, hps, hsites⟩ := ih hd.2 hnext
      refine ⟨(e, lineRecord line classNameId time) :: ps, hps.pair e _, ?_⟩
      rw [sites, sites_eq_none hd.2]
      exact .cons ⟨rfl, rfl⟩ hsites
    | enableRecord => exact ih hd hw
    | disableRecord => exact ih hd hw
    | new | construct | putField | aaStore | use => exact ih hd hw

variable [DecidableEq Tid] {t : Tid} {s : TagProcess Tid Obj} {cs : List (TagCall Obj × (ℕ → Int64))}

/-- The records of a thread in the order of their times, each line record behind the record of its
operation. -/
structure Attributed (t : Tid) (s : TagProcess Tid Obj) (cs : List (TagCall Obj))
    (ps : List (Entry × Int32 × Int32)) : Prop where
  sites : ∃ cs', cs'.map Prod.fst = cs ∧ View.init.Runs cs' (viewOf t s) ∧ ps = sites none cs'
  paired : ∃ ps', Paired (viewOf t s).records ps' ∧ List.Forall₂ AtSite ps' ps
  increasing : ((viewOf t s).records.map stamp).Pairwise (· < ·)

/-- **The calls of one thread in any interleaving**, when no two of its records have the same time. -/
theorem Follows.attributed (h : Follows t cs s)
    (hd : TagCall.Disciplined true none (cs.map Prod.fst))
    (htime : ((viewOf t s).records.map stamp).Nodup) : ∃ ps, Attributed t s (cs.map Prod.fst) ps := by
  obtain ⟨cs', hcs, hruns⟩ := h.runs
  rw [← hcs] at hd ⊢
  have hnone : View.init.Awaits none none := rfl
  obtain ⟨ps, hps, hsites⟩ := paired_runs hruns hd hnone
  rw [Option.toList_none, List.map_nil, List.nil_append] at hps
  have hrecords := hruns.records
  rw [View.init, List.nil_append] at hrecords
  refine ⟨_, ⟨cs', rfl, hruns, rfl⟩, ⟨ps, by rw [hrecords]; exact hps, hsites⟩, ?_⟩
  exact (h.sorted.and htime).imp fun hx => lt_of_le_of_ne hx.1 hx.2

end Attribution

end Cinst.Native
