import Cinst.Lib.Run

/-!
Programs of atomic operations that threads run on one shared state. A thread takes one operation of
its program at a time, and the threads take turns in any order.

A `Protocol` says what always holds of the shared state and, for each thread, what the other threads
may do to it between two of its operations. Programs that are `Safe` under it can be put together
(`Safe.bind`), and when all programs are safe every interleaving of them keeps the protocol
(`ok_run`); then no thread is ever stuck, and each can finish by its own steps (`Ok.finishes`).
-/

namespace Cinst.Lib

universe u

/-! ### Programs -/

/-- A program on a shared state. An operation answers and changes the state, or fails. -/
inductive Prog (σ : Type u) (α : Type) : Type (max u 1) where
  | ret (a : α)
  | op {ν : Type} (f : σ → Option (ν × σ)) (k : ν → Prog σ α)

namespace Prog

variable {σ : Type u} {α β : Type}

/-- One program after the other. -/
def bind : Prog σ α → (α → Prog σ β) → Prog σ β
  | ret a, g => g a
  | op f k, g => op f fun v => (k v).bind g

instance : Monad (Prog σ) where
  pure := ret
  bind := bind

/-- A single operation. -/
def act (f : σ → Option (α × σ)) : Prog σ α := op f ret

/-- The state is read. -/
def get (f : σ → α) : Prog σ α := act fun s => some (f s, s)

/-- The state is changed. -/
def modify (f : σ → σ) : Prog σ Unit := act fun s => some ((), f s)

/-- No operation of the program changes what `g` shows of the state. -/
def Fixes {γ : Type*} (g : σ → γ) : Prog σ α → Prop
  | ret _ => True
  | op f k => (∀ s v s', f s = some (v, s') → g s' = g s) ∧ ∀ v, (k v).Fixes g

section Fixes

variable {γ : Type*} {g : σ → γ}

lemma fixes_pure (a : α) : (pure a : Prog σ α).Fixes g := trivial

lemma fixes_act {f : σ → Option (α × σ)} (h : ∀ s v s', f s = some (v, s') → g s' = g s) :
    (act f).Fixes g :=
  ⟨h, fun _ => trivial⟩

lemma fixes_get (f : σ → α) : (get f).Fixes g := by
  refine fixes_act fun s v s' h => ?_
  cases h
  rfl

lemma fixes_modify {f : σ → σ} (h : ∀ s, g (f s) = g s) : (modify f).Fixes g := by
  refine fixes_act fun s v s' hf => ?_
  cases hf
  exact h s

lemma Fixes.bind {p : Prog σ α} {q : α → Prog σ β} (hp : p.Fixes g) (hq : ∀ a, (q a).Fixes g) :
    (p >>= q).Fixes g := by
  induction p with
  | ret a => exact hq a
  | op f k ih => exact ⟨hp.1, fun v => ih v (hp.2 v)⟩

end Fixes

end Prog

/-! ### Threads -/

/-- The shared state, and what the threads that are inside a call have still to do. -/
structure Threads (Tid : Type*) (σ : Type u) where
  shared : σ
  prog : Tid → Option (Prog σ Unit)

/-- A thread starts a call, or takes the next step of its call, or the environment changes the
state. -/
inductive ThreadAct (Tid κ ε : Type*) where
  | call (t : Tid) (c : κ)
  | step (t : Tid)
  | env (e : ε)

/-- The call that a thread starts. -/
def ThreadAct.callOf {Tid κ ε : Type*} [DecidableEq Tid] (t : Tid) : ThreadAct Tid κ ε → Option κ
  | .call t' c => if t' = t then some c else none
  | .step _ | .env _ => none

namespace Threads

variable {Tid κ ε : Type*} {σ : Type u} [DecidableEq Tid]

/-- All threads are between two calls. -/
def start (s : σ) : Threads Tid σ := ⟨s, fun _ => none⟩

/-- One step, where `body` is the program of a call and `env` a change by the environment. A thread
whose operation fails is stuck. -/
def step (body : Tid → κ → Prog σ Unit) (env : σ → ε → Option σ) (s : Threads Tid σ) :
    ThreadAct Tid κ ε → Option (Threads Tid σ)
  | .call t c =>
    match s.prog t with
    | none => some { s with prog := Function.update s.prog t (some (body t c)) }
    | some _ => none
  | .step t =>
    match s.prog t with
    | none => none
    | some (.ret _) => some { s with prog := Function.update s.prog t none }
    | some (.op f k) => (f s.shared).map fun r =>
      ⟨r.2, Function.update s.prog t (some (k r.1))⟩
  | .env e => (env s.shared e).map fun s' => { s with shared := s' }

/-- A thread takes a number of steps while the others wait. -/
def stepsOf (t : Tid) (n : ℕ) : List (ThreadAct Tid κ ε) := List.replicate n (.step t)

end Threads

/-! ### Protocols -/

/-- What always holds of the shared state, how every operation may change it, and what the other
threads may do to it while a thread does nothing. -/
structure Protocol (Tid : Type*) (σ : Type u) where
  inv : σ → Prop
  grow : σ → σ → Prop
  rely : Tid → σ → σ → Prop
  refl : ∀ t s, rely t s s
  trans : ∀ t s s' s'', rely t s s' → rely t s' s'' → rely t s s''
  grow_trans : ∀ s s' s'', grow s s' → grow s' s'' → grow s s''
  rely_grow : ∀ t s s', rely t s s' → grow s s'

namespace Protocol

variable {Tid : Type*} {σ : Type u} {α β : Type} (P : Protocol Tid σ)

/-- What a thread promises of its own operations: what all other threads rely on. -/
def Guar (t : Tid) (s s' : σ) : Prop := P.grow s s' ∧ ∀ t', t' ≠ t → P.rely t' s s'

lemma guar_refl (t : Tid) (s : σ) : P.Guar t s s :=
  ⟨P.rely_grow t s s (P.refl t s), fun t' _ => P.refl t' s⟩

/-- **Safe programs.** Whatever the other threads do before each operation, it does not fail and keeps
the protocol; at the end, `Q` holds of the result and the state. -/
def Safe (t : Tid) (Q : α → σ → Prop) : Prog σ α → σ → Prop
  | .ret a, s => Q a s
  | .op f k, s => ∀ s', P.rely t s s' → P.inv s' →
    ∃ v s'', f s' = some (v, s'') ∧ P.inv s'' ∧ P.Guar t s' s'' ∧ Safe t Q (k v) s''

section Safe

variable {P} {t : Tid} {Q Q' : α → σ → Prop} {s : σ}

@[simp] lemma safe_pure {a : α} : P.Safe t Q (pure a) s ↔ Q a s := Iff.rfl

lemma Safe.mono {p : Prog σ α} (h : P.Safe t Q p s) (hQ : ∀ a s, Q a s → Q' a s) :
    P.Safe t Q' p s := by
  induction p generalizing s with
  | ret a => exact hQ a s h
  | op f k ih =>
    intro s' hrely hinv
    obtain ⟨v, s'', hf, hinv', hguar, hk⟩ := h s' hrely hinv
    exact ⟨v, s'', hf, hinv', hguar, ih v hk⟩

/-- **Frame rule.** What is left of the state before a program has grown from it. -/
theorem Safe.frame {p : Prog σ α} {s₀ : σ} (h : P.Safe t Q p s) (h₀ : P.grow s₀ s) :
    P.Safe t (fun a s' => P.grow s₀ s' ∧ Q a s') p s := by
  induction p generalizing s with
  | ret a => exact ⟨h₀, h⟩
  | op f k ih =>
    intro s' hrely hinv
    obtain ⟨v, s'', hf, hinv', hguar, hk⟩ := h s' hrely hinv
    have h₁ := P.grow_trans _ _ _ h₀ (P.rely_grow t _ _ hrely)
    exact ⟨v, s'', hf, hinv', hguar, ih v hk (P.grow_trans _ _ _ h₁ hguar.1)⟩

/-- **Frame rule for a part of the state** that the program leaves alone, and the other threads too. -/
theorem Safe.fixes {γ : Type*} {g : σ → γ} (hrely : ∀ s s', P.rely t s s' → g s' = g s)
    {p : Prog σ α} (h : P.Safe t Q p s) (hp : p.Fixes g) :
    P.Safe t (fun a s' => g s' = g s ∧ Q a s') p s := by
  induction p generalizing s with
  | ret a => exact ⟨rfl, h⟩
  | op f k ih =>
    intro s' hothers hinv
    obtain ⟨v, s'', hf, hinv', hguar, hk⟩ := h s' hothers hinv
    have hsame : g s'' = g s := (hp.1 s' v s'' hf).trans (hrely s s' hothers)
    refine ⟨v, s'', hf, hinv', hguar, (ih v hk (hp.2 v)).mono fun a s₁ hq => ⟨?_, hq.2⟩⟩
    rw [hq.1, hsame]

lemma Safe.seq {p : Prog σ α} {g : α → Prog σ β} {R : β → σ → Prop} (h : P.Safe t Q p s)
    (hg : ∀ a s, Q a s → P.Safe t R (g a) s) : P.Safe t R (p >>= g) s := by
  induction p generalizing s with
  | ret a => exact hg a s h
  | op f k ih =>
    intro s' hrely hinv
    obtain ⟨v, s'', hf, hinv', hguar, hk⟩ := h s' hrely hinv
    exact ⟨v, s'', hf, hinv', hguar, ih v hk⟩

/-- **Sequence rule.** The second program starts in a state that has grown from that before the
first. -/
theorem Safe.bind {p : Prog σ α} {g : α → Prog σ β} {R : β → σ → Prop} (h : P.Safe t Q p s)
    (hg : ∀ a s', P.grow s s' → Q a s' → P.Safe t R (g a) s') : P.Safe t R (p >>= g) s :=
  (h.frame (P.rely_grow t s s (P.refl t s))).seq fun a s' hq => hg a s' hq.1 hq.2

/-- **Rule for an operation.** -/
theorem safe_act {f : σ → Option (α × σ)}
    (h : ∀ s', P.rely t s s' → P.inv s' →
      ∃ v s'', f s' = some (v, s'') ∧ P.inv s'' ∧ P.Guar t s' s'' ∧ Q v s'') :
    P.Safe t Q (Prog.act f) s := h

lemma safe_get {f : σ → α} (h : ∀ s', P.rely t s s' → P.inv s' → Q (f s') s') :
    P.Safe t Q (Prog.get f) s :=
  safe_act fun s' hrely hinv => ⟨f s', s', rfl, hinv, P.guar_refl t s', h s' hrely hinv⟩

lemma safe_modify {f : σ → σ} {Q : Unit → σ → Prop}
    (h : ∀ s', P.rely t s s' → P.inv s' → P.inv (f s') ∧ P.Guar t s' (f s') ∧ Q () (f s')) :
    P.Safe t Q (Prog.modify f) s :=
  safe_act fun s' hrely hinv => ⟨(), f s', rfl, h s' hrely hinv⟩

lemma Safe.of_rely {p : Prog σ α} {s' : σ} (h : P.Safe t Q p s)
    (hQ : ∀ a s s', Q a s → P.rely t s s' → P.inv s' → Q a s') (hrely : P.rely t s s')
    (hinv : P.inv s') : P.Safe t Q p s' := by
  cases p with
  | ret a => exact hQ a s s' h hrely hinv
  | op f k => exact fun s'' hrely' hinv' => h s'' (P.trans t s s' s'' hrely hrely') hinv'

end Safe

/-! ### Interleavings -/

variable {κ ε : Type*} [DecidableEq Tid]

/-- The protocol holds. A thread that has begun the given calls is between two of them, and `J` says
what they have done, or the rest of the last one is safe and leads there. -/
structure Ok (J : Tid → List κ → σ → Prop) (calls : Tid → List κ) (s : Threads Tid σ) : Prop where
  inv : P.inv s.shared
  idle : ∀ t, s.prog t = none → J t (calls t) s.shared
  safe : ∀ t p, s.prog t = some p → P.Safe t (fun _ s' => J t (calls t) s') p s.shared

/-- A call leads from what the calls before it have done to what they all have done; the other threads
and the environment leave this, and the environment keeps the protocol. -/
structure Keeps (J : Tid → List κ → σ → Prop) (body : Tid → κ → Prog σ Unit)
    (env : σ → ε → Option σ) : Prop where
  stable : ∀ t cs s s', J t cs s → P.rely t s s' → P.inv s' → J t cs s'
  body : ∀ t cs c s, P.inv s → J t cs s → P.Safe t (fun _ s' => J t (cs ++ [c]) s') (body t c) s
  env : ∀ s e s', P.inv s → env s e = some s' → P.inv s' ∧ ∀ t, P.rely t s s'

variable {P} {J : Tid → List κ → σ → Prop} {calls : Tid → List κ} {body : Tid → κ → Prog σ Unit}
  {env : σ → ε → Option σ}

omit [DecidableEq Tid] in
lemma ok_start {s : σ} (h : P.inv s) (hJ : ∀ t, J t [] s) :
    P.Ok J (fun _ => []) (Threads.start s) :=
  ⟨h, fun t _ => hJ t, fun _ _ hp => by cases hp⟩

/-- The thread `t` goes on with `x`, after the calls `cs`, and the others where they are. -/
lemma Ok.update (hk : P.Keeps J body env) {s : Threads Tid σ} (h : P.Ok J calls s) {s' : σ}
    (hinv : P.inv s') {t : Tid} (hguar : P.Guar t s.shared s') {calls' : Tid → List κ}
    (hcalls : ∀ t', t' ≠ t → calls' t' = calls t') {x : Option (Prog σ Unit)}
    (hidle : x = none → J t (calls' t) s')
    (hx : ∀ p, x = some p → P.Safe t (fun _ s => J t (calls' t) s) p s') :
    P.Ok J calls' ⟨s', Function.update s.prog t x⟩ := by
  refine ⟨hinv, fun t' hp => ?_, fun t' p hp => ?_⟩ <;> dsimp only at hp
  · by_cases ht : t' = t
    · subst ht
      rw [Function.update_self] at hp
      exact hidle hp
    · rw [Function.update_of_ne ht] at hp
      rw [hcalls t' ht]
      exact hk.stable t' _ _ _ (h.idle t' hp) (hguar.2 t' ht) hinv
  · by_cases ht : t' = t
    · subst ht
      rw [Function.update_self] at hp
      exact hx p hp
    · rw [Function.update_of_ne ht] at hp
      rw [hcalls t' ht]
      exact (h.safe t' p hp).of_rely (fun _ _ _ => hk.stable t' _ _ _) (hguar.2 t' ht) hinv

/-- **A step keeps the protocol.** -/
theorem Ok.step (hk : P.Keeps J body env) {s s' : Threads Tid σ} {a : ThreadAct Tid κ ε}
    (h : P.Ok J calls s) (hs : s.step body env a = some s') :
    P.Ok J (fun t => calls t ++ (a.callOf t).toList) s' := by
  have hcalls : ∀ (a : ThreadAct Tid κ ε) (t : Tid), (a.callOf t).toList = [] →
      calls t ++ (a.callOf t).toList = calls t := fun a t hnone => by
    rw [hnone, List.append_nil]
  cases a with
  | call t c =>
    rw [Threads.step] at hs
    split at hs
    · rename_i hidle
      cases hs
      refine h.update hk h.inv (P.guar_refl t _) (fun t' ht => hcalls _ t' ?_) (fun hx => by cases hx)
        fun p hp => ?_
      · rw [ThreadAct.callOf, if_neg (Ne.symm ht), Option.toList_none]
      · cases hp
        rw [ThreadAct.callOf, if_pos rfl]
        exact hk.body t (calls t) c s.shared h.inv (h.idle t hidle)
    · cases hs
  | step t =>
    rw [Threads.step] at hs
    split at hs
    · cases hs
    · rename_i u hprog
      cases hs
      refine h.update hk h.inv (P.guar_refl t _) (fun t' _ => hcalls _ t' rfl) (fun _ => ?_)
        fun p hp => by cases hp
      rw [hcalls _ t rfl]
      exact safe_pure.mp (h.safe t _ hprog)
    · rename_i ν f k hprog
      obtain ⟨v, s'', hf, hinv, hguar, hsafe⟩ := h.safe t _ hprog s.shared (P.refl t _) h.inv
      rw [hf] at hs
      cases hs
      refine h.update hk hinv hguar (fun t' _ => hcalls _ t' rfl) (fun hx => by cases hx) fun p hp => ?_
      cases hp
      rw [hcalls _ t rfl]
      exact hsafe
  | env e =>
    obtain ⟨s₁, henv, rfl⟩ := Option.map_eq_some_iff.mp hs
    obtain ⟨hinv, hrely⟩ := hk.env _ _ _ h.inv henv
    refine ⟨hinv, fun t hp => ?_, fun t p hp => ?_⟩ <;> rw [hcalls _ t rfl]
    · exact hk.stable t _ _ _ (h.idle t hp) (hrely t) hinv
    · exact (h.safe t p hp).of_rely (fun _ _ _ => hk.stable t _ _ _) (hrely t) hinv

/-- **Every interleaving keeps the protocol**, and what the calls of each thread do one after the other
is done. -/
theorem ok_run (hk : P.Keeps J body env) {s₀ s : Threads Tid σ} {as : List (ThreadAct Tid κ ε)}
    (h₀ : P.Ok J (fun _ => []) s₀) (h : run (Threads.step body env) s₀ as = some s) :
    P.Ok J (fun t => as.filterMap fun a => a.callOf t) s := by
  refine run_invariant (fun as s => P.Ok J (fun t => as.filterMap fun a => a.callOf t) s) h₀ ?_ h
  intro as s a s' _ hok hs
  have hstep := hok.step hk hs
  simp only [List.filterMap_append]
  refine cast (congrArg (fun calls => P.Ok J calls s') (funext fun t => ?_)) hstep
  cases ha : a.callOf t <;> simp [ha]

/-- **No thread is stuck**: as long as the other threads wait, a thread comes to the end of its
call. -/
theorem Ok.finishes (hk : P.Keeps J body env) {s : Threads Tid σ} (h : P.Ok J calls s) (t : Tid) :
    ∃ n s', run (Threads.step body env) s (Threads.stepsOf t n) = some s' ∧ s'.prog t = none := by
  cases hprog : s.prog t with
  | none => exact ⟨0, s, rfl, hprog⟩
  | some p =>
    induction p generalizing s calls with
    | ret a =>
      refine ⟨1, { s with prog := Function.update s.prog t none }, ?_, Function.update_self ..⟩
      simp [Threads.stepsOf, run_cons, Threads.step, hprog]
    | op f k ih =>
      obtain ⟨v, s₁, hf, -⟩ := h.safe t _ hprog s.shared (P.refl t _) h.inv
      have hs : s.step body env (.step t) =
          some ⟨s₁, Function.update s.prog t (some (k v))⟩ := by
        simp [Threads.step, hprog, hf]
      obtain ⟨n, s', hrun, hidle⟩ := ih v (h.step hk hs) (Function.update_self ..)
      refine ⟨n + 1, s', ?_, hidle⟩
      rw [Threads.stepsOf, List.replicate_succ, run_cons, hs]
      exact hrun

-- the rules above are all that is used of them; they are not to be evaluated on long programs
attribute [irreducible] Safe Prog.Fixes

end Protocol

end Cinst.Lib
