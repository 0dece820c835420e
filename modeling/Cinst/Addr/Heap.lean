import Cinst.Lib.Run
import Cinst.Record.Types

/-!
Heaps whose objects move: an object is allocated at a free address, a collector moves it to another
free address, it dies without notice, and it is used at the address where it lives.

The addresses are any type. Every event carries the time that is recorded for it; nothing here asks
that recorded times follow the order of the history. The main fact is `exists_placement`: an
object lives at an address because some event of the history put it there, and no later event of
the history wrote that address.
-/

namespace Cinst.Addr

open Cinst.Lib Cinst.Record

/-- What happens to a heap, with the time recorded for it. -/
inductive HeapEvent (α Obj : Type*) where
  | new (o : Obj) (a : α) (t : Time)
  | move (a b : α) (t : Time)
  | die (a : α)
  | use (a : α) (t : Time)

/-- The objects that live at the addresses, and all objects that were ever allocated. -/
structure Heap (α Obj : Type*) where
  live : α → Option Obj
  born : List Obj

namespace HeapEvent

variable {α Obj : Type*}

/-- The address that an event puts an object at, and the recorded time. -/
def writes : HeapEvent α Obj → Option (α × Time)
  | .new _ a t => some (a, t)
  | .move _ b t => some (b, t)
  | _ => none

/-- The address that a move takes its object from, and the recorded time. -/
def moves : HeapEvent α Obj → Option (α × Time)
  | .move a _ t => some (a, t)
  | _ => none

/-- The recorded time. -/
def time : HeapEvent α Obj → Option Time
  | .new _ _ t => some t
  | .move _ _ t => some t
  | .die _ => none
  | .use _ t => some t

/-- The addresses an event names. -/
def addrs : HeapEvent α Obj → List α
  | .new _ a _ => [a]
  | .move a b _ => [a, b]
  | .die a => [a]
  | .use a _ => [a]

lemma mem_addrs_of_writes {e : HeapEvent α Obj} {a : α} {t : Time} (h : e.writes = some (a, t)) :
    a ∈ e.addrs := by
  cases e <;> simp_all [writes, addrs]

lemma time_of_writes {e : HeapEvent α Obj} {a : α} {t : Time} (h : e.writes = some (a, t)) :
    e.time = some t := by
  cases e <;> simp_all [writes, time]

lemma time_of_moves {e : HeapEvent α Obj} {a : α} {t : Time} (h : e.moves = some (a, t)) :
    e.time = some t := by
  cases e <;> simp_all [moves, time]

end HeapEvent

namespace Heap

variable {α Obj : Type*} [DecidableEq α] [DecidableEq Obj]

/-- The heap before the first event. -/
def empty : Heap α Obj := ⟨fun _ => none, []⟩

/-- One event; `none` when the heap does not allow it. An object is allocated once, at a free
address; a move goes to an address that no other object occupies; a use finds an object. -/
def step (h : Heap α Obj) : HeapEvent α Obj → Option (Heap α Obj)
  | .new o a _ =>
    if h.live a = none ∧ o ∉ h.born then some ⟨Function.update h.live a (some o), o :: h.born⟩
    else none
  | .move a b _ =>
    if h.live a ≠ none ∧ (b = a ∨ h.live b = none) then
      some ⟨Function.update (Function.update h.live a none) b (h.live a), h.born⟩
    else none
  | .die a => some ⟨Function.update h.live a none, h.born⟩
  | .use a _ => if h.live a ≠ none then some h else none

/-- The object that an event puts somewhere. -/
def placed (h : Heap α Obj) : HeapEvent α Obj → Option Obj
  | .new o _ _ => some o
  | .move a _ _ => h.live a
  | _ => none

variable {h h' : Heap α Obj} {e : HeapEvent α Obj}

/-- **Inversion of a step.** After an event, an address that the event wrote holds the object it
placed, and any other occupied address was not written and holds what it held before. -/
theorem live_step (hs : step h e = some h') {a : α} {o : Obj} (ha : h'.live a = some o) :
    (∃ t, e.writes = some (a, t) ∧ placed h e = some o) ∨
      ((∀ t, e.writes ≠ some (a, t)) ∧ h.live a = some o) := by
  cases e with
  | new o' b t =>
    simp only [step] at hs
    split at hs
    · cases hs
      by_cases hb : a = b
      · subst hb
        simp only [Function.update_self] at ha
        exact Or.inl ⟨t, rfl, ha⟩
      · dsimp only at ha
        rw [Function.update_of_ne hb] at ha
        exact Or.inr ⟨by simp [HeapEvent.writes, Ne.symm hb], ha⟩
    · cases hs
  | move b c t =>
    simp only [step] at hs
    split at hs
    · cases hs
      by_cases hc : a = c
      · subst hc
        simp only [Function.update_self] at ha
        exact Or.inl ⟨t, rfl, ha⟩
      · dsimp only at ha
        rw [Function.update_of_ne hc] at ha
        refine Or.inr ⟨by simp [HeapEvent.writes, Ne.symm hc], ?_⟩
        by_cases hb : a = b
        · simp [hb] at ha
        · rwa [Function.update_of_ne hb] at ha
    · cases hs
  | die b =>
    cases hs
    refine Or.inr ⟨by simp [HeapEvent.writes], ?_⟩
    by_cases hb : a = b
    · simp [hb] at ha
    · dsimp only at ha
      rwa [Function.update_of_ne hb] at ha
  | use b t =>
    simp only [step] at hs
    split at hs
    · cases hs
      exact Or.inr ⟨by simp [HeapEvent.writes], ha⟩
    · cases hs

/-- The event `e` put `o` at `a` after the events `p`, and the events `q` that followed did not
write `a`. -/
structure Placement (evs p : List (HeapEvent α Obj)) (e : HeapEvent α Obj)
    (q : List (HeapEvent α Obj)) (a : α) (t : Time) (o : Obj) : Prop where
  split : evs = p ++ e :: q
  writes : e.writes = some (a, t)
  placed : ∃ h, run step empty p = some h ∧ h.placed e = some o
  quiet : ∀ e' ∈ q, ∀ t', e'.writes ≠ some (a, t')

/-- **An object lives where some event put it, and nothing was put there since.** -/
theorem exists_placement {evs : List (HeapEvent α Obj)} (hrun : run step empty evs = some h)
    {a : α} {o : Obj} (ha : h.live a = some o) : ∃ p e q t, Placement evs p e q a t o := by
  induction evs using List.reverseRecOn generalizing h with
  | nil =>
    cases hrun
    cases ha
  | append_singleton evs e ih =>
    obtain ⟨h₀, hrun₀, hs⟩ := exists_of_run_snoc hrun
    rcases live_step hs ha with ⟨t, hw, hp⟩ | ⟨hw, ha₀⟩
    · exact ⟨evs, e, [], t, rfl, hw, ⟨h₀, hrun₀, hp⟩, by simp⟩
    · obtain ⟨p, e', q, t, hpl⟩ := ih hrun₀ ha₀
      refine ⟨p, e', q ++ [e], t, by rw [hpl.split]; simp, hpl.writes, hpl.placed, ?_⟩
      intro e'' he''
      rcases List.mem_append.mp he'' with he'' | he''
      · exact hpl.quiet e'' he''
      · rw [List.mem_singleton] at he''
        exact he'' ▸ hw

/-- Every live object was allocated by an event of the history. -/
theorem exists_new {evs : List (HeapEvent α Obj)} (hrun : run step empty evs = some h)
    {a : α} {o : Obj} (ha : h.live a = some o) : ∃ b t, HeapEvent.new o b t ∈ evs := by
  induction evs using List.reverseRecOn generalizing h a with
  | nil =>
    cases hrun
    cases ha
  | append_singleton evs e ih =>
    obtain ⟨h₀, hrun₀, hs⟩ := exists_of_run_snoc hrun
    have hlift : (∃ b t, HeapEvent.new o b t ∈ evs) → ∃ b t, HeapEvent.new o b t ∈ evs ++ [e] :=
      fun ⟨b, t, hm⟩ => ⟨b, t, List.mem_append_left _ hm⟩
    rcases live_step hs ha with ⟨t, hw, hp⟩ | ⟨-, ha₀⟩
    · cases e with
      | new o' b t' =>
        cases hp
        exact ⟨b, t', by simp⟩
      | move b c t' => exact hlift (ih hrun₀ hp)
      | die b => cases hp
      | use b t' => cases hp
    · exact hlift (ih hrun₀ ha₀)

lemma born_step (hs : step h e = some h') {o : Obj} (ho : o ∈ h.born) : o ∈ h'.born := by
  cases e with
  | die b =>
    cases hs
    exact ho
  | new o' b t =>
    simp only [step] at hs
    split at hs
    · cases hs
      exact List.mem_cons_of_mem _ ho
    · cases hs
  | move b c t | use b t =>
    simp only [step] at hs
    split at hs
    · cases hs
      exact ho
    · cases hs

lemma mem_born_of_new {evs : List (HeapEvent α Obj)} (hrun : run step empty evs = some h)
    {o : Obj} {a : α} {t : Time} (hm : HeapEvent.new o a t ∈ evs) : o ∈ h.born := by
  induction evs using List.reverseRecOn generalizing h with
  | nil => cases hm
  | append_singleton evs e ih =>
    obtain ⟨h₀, hrun₀, hs⟩ := exists_of_run_snoc hrun
    rcases List.mem_append.mp hm with hm | hm
    · exact born_step hs (ih hrun₀ hm)
    · rw [List.mem_singleton] at hm
      subst hm
      simp only [step] at hs
      split at hs
      · cases hs
        simp
      · cases hs

/-- An object is allocated once. -/
theorem new_unique {evs : List (HeapEvent α Obj)} (hrun : run step empty evs = some h)
    {o : Obj} {a b : α} {t t' : Time} (ha : HeapEvent.new o a t ∈ evs)
    (hb : HeapEvent.new o b t' ∈ evs) : a = b ∧ t = t' := by
  induction evs using List.reverseRecOn generalizing h with
  | nil => cases ha
  | append_singleton evs e ih =>
    obtain ⟨h₀, hrun₀, hs⟩ := exists_of_run_snoc hrun
    have hfresh : ∀ c s, e = .new o c s → ∀ d s', HeapEvent.new o d s' ∉ evs := by
      rintro c s rfl d s' hm
      simp only [step] at hs
      split at hs
      · rename_i hc
        exact hc.2 (mem_born_of_new hrun₀ hm)
      · cases hs
    rcases List.mem_append.mp ha with ha | ha <;> rcases List.mem_append.mp hb with hb | hb
    · exact ih hrun₀ ha hb
    · exact absurd ha (hfresh b t' (List.mem_singleton.mp hb).symm a t)
    · exact absurd hb (hfresh a t (List.mem_singleton.mp ha).symm b t')
    · rw [List.mem_singleton] at ha hb
      have := ha.trans hb.symm
      cases this
      exact ⟨rfl, rfl⟩

end Heap

end Cinst.Addr
