import Cinst.Lib.Stream

/-!
A connected stream socket, as the program at one end of it sees it: what `::recv` and `::send`
return, and which bytes they move.

Bytes arrive in pieces of any size, and a call can fail at any place between them, so a list of
arrivals stands for all that a sequence of calls can return. `arriving` is what arrives before a call
fails.
-/

namespace Cinst.Lib

/-- The memory with `bs` at the offset `off`. -/
def overwrite (off : ℕ) (bs mem : Bytes) : Bytes := mem.take off ++ bs ++ mem.drop (off + bs.length)

section Overwrite

variable {off : ℕ} {bs mem : Bytes}

lemma length_overwrite (h : off + bs.length ≤ mem.length) :
    (overwrite off bs mem).length = mem.length := by
  simp only [overwrite, List.length_append, List.length_take, List.length_drop]
  omega

lemma take_overwrite (h : off ≤ mem.length) :
    (overwrite off bs mem).take (off + bs.length) = mem.take off ++ bs := by
  refine List.take_left' ?_
  rw [List.length_append, List.length_take, Nat.min_eq_left h]

lemma overwrite_nil (off : ℕ) (mem : Bytes) : overwrite off [] mem = mem := by
  rw [overwrite, List.append_nil, List.length_nil, Nat.add_zero, List.take_append_drop]

lemma overwrite_overwrite (h : off + bs.length ≤ mem.length) (bs' : Bytes) :
    overwrite (off + bs.length) bs' (overwrite off bs mem) = overwrite off (bs ++ bs') mem := by
  have hlen : (mem.take off ++ bs).length = off + bs.length := by
    rw [List.length_append, List.length_take, Nat.min_eq_left (by omega)]
  rw [overwrite, take_overwrite (by omega), overwrite, ← List.drop_drop, List.drop_left' hlen,
    List.drop_drop, overwrite, List.length_append, Nat.add_assoc]
  simp only [List.append_assoc]

end Overwrite

/-! ### Receiving -/

/-- What happens next at a socket: some bytes are there, or a call fails. -/
inductive Arrival where
  | data (bs : Bytes) (ne : bs ≠ [])
  | error
  deriving DecidableEq

namespace Socket

/-- `::recv` of at most `k` bytes: the bytes, or `none` for the result `-1`, and what is still to
come. Behind the last arrival the peer has closed the connection, and the result is `0`. -/
def recv (k : ℕ) : List Arrival → Option Bytes × List Arrival
  | [] => (some [], [])
  | .error :: as => (none, as)
  | .data bs ne :: as =>
    if h : k < bs.length then
      (some (bs.take k), .data (bs.drop k) (by rwa [Ne, List.drop_eq_nil_iff, not_le]) :: as)
    else (some bs, as)

/-- The bytes that arrive before a call fails. -/
def arriving : List Arrival → Bytes
  | [] => []
  | .error :: _ => []
  | .data bs _ :: as => bs ++ arriving as

/-- What a call can return: the peer has closed, the call fails, or it gets the next bytes. -/
lemma recv_cases {k : ℕ} (hk : 0 < k) (as : List Arrival) :
    (as = [] ∧ recv k as = (some [], [])) ∨
      (∃ as', as = .error :: as' ∧ recv k as = (none, as')) ∨
      ∃ bs as', recv k as = (some bs, as') ∧ bs ≠ [] ∧ bs.length ≤ k ∧
        arriving as = bs ++ arriving as' ∧ (.error ∈ as ↔ .error ∈ as') := by
  match as with
  | [] => exact Or.inl ⟨rfl, rfl⟩
  | .error :: as => exact Or.inr (Or.inl ⟨as, rfl, rfl⟩)
  | .data bs ne :: as =>
    refine Or.inr (Or.inr ?_)
    rw [recv]
    split
    · rename_i h
      refine ⟨_, _, rfl, ?_, by simp, ?_, by simp⟩
      · rw [Ne, List.take_eq_nil_iff]
        simp only [ne, or_false]
        omega
      · rw [arriving, arriving, ← List.append_assoc, List.take_append_drop]
    · rename_i h
      exact ⟨bs, as, rfl, ne, by omega, rfl, by simp⟩

end Socket

/-! ### Sending -/

/-- The other direction: the bytes on the wire, and the number of calls of `::send` so far. -/
structure Outgoing where
  wire : Bytes
  calls : ℕ

namespace Outgoing

/-- `::send`. The `i`-th call finds room for `room i` bytes, at least for one, and puts so many bytes
of the buffer on the wire. -/
def send (room : ℕ → ℕ) (o : Outgoing) (bs : Bytes) : Outgoing :=
  ⟨o.wire ++ bs.take (max 1 (room o.calls)), o.calls + 1⟩

/-- The `i`-th call, with the buffer `bs`, puts all of it on the wire. -/
def Whole (room : ℕ → ℕ) (i : ℕ) (bs : Bytes) : Prop := bs.length ≤ max 1 (room i)

instance (room : ℕ → ℕ) (i : ℕ) (bs : Bytes) : Decidable (Whole room i bs) :=
  inferInstanceAs (Decidable (_ ≤ _))

variable {room : ℕ → ℕ}

/-- What a sequence of calls puts on the wire: never more than the buffers, and all of them exactly
when each call puts its buffer there. -/
lemma foldl_send (bufs : List Bytes) (o : Outgoing) :
    ∃ out, (bufs.foldl (send room) o).wire = o.wire ++ out ∧
      out.length ≤ bufs.flatten.length ∧
      (out = bufs.flatten ↔ ∀ i bs, bufs[i]? = some bs → Whole room (o.calls + i) bs) := by
  induction bufs generalizing o with
  | nil => exact ⟨[], by simp, le_rfl, by simp⟩
  | cons b bufs ih =>
    obtain ⟨out, hwire, hle, hiff⟩ := ih (o.send room b)
    have htake : (b.take (max 1 (room o.calls))).length ≤ b.length := List.length_take_le' ..
    refine ⟨b.take (max 1 (room o.calls)) ++ out, ?_, ?_, ?_⟩
    · rw [List.foldl_cons, hwire, send, List.append_assoc]
    · rw [List.length_append, List.flatten_cons, List.length_append]
      omega
    · rw [List.flatten_cons]
      constructor
      · intro heq
        have hlen := congrArg List.length heq
        rw [List.length_append, List.length_append] at hlen
        have hb : Whole room o.calls b := by
          rw [Whole]
          rw [List.length_take] at hlen htake
          omega
        have hall : b.take (max 1 (room o.calls)) = b := List.take_of_length_le hb
        rw [hall] at heq
        intro i bs hi
        cases i with
        | zero =>
          cases hi
          exact hb
        | succ i =>
          have := hiff.mp (List.append_cancel_left heq) i bs hi
          rwa [send, Nat.add_assoc, Nat.add_comm 1] at this
      · intro h
        have hb : Whole room o.calls b := h 0 b rfl
        have hrest : out = bufs.flatten := by
          refine hiff.mpr fun i bs hi => ?_
          have := h (i + 1) bs hi
          rwa [send, Nat.add_assoc, Nat.add_comm 1]
        rw [hrest, List.take_of_length_le hb]

end Outgoing

end Cinst.Lib
