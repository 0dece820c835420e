import Cinst.Lib.Socket
import Cinst.Lib.Word

/-!
The class `ASMClient` of the agent: the loop that receives a number of bytes, the answer of the
server, and the parts of a request.

The loop of `recv` need not end, so it is run for a number of iterations (`recvLoop`). It ends when
enough bytes arrive and when a call fails, and it does not end when the server closes the connection
before (`ends_iff`).
-/

namespace Cinst.Agent

open Cinst.Lib

/-! ### Receiving -/

/-- An `int` as a `size_t`. -/
def sizeT (i : ℤ) : ℕ := (i % 2 ^ 64).toNat

lemma sizeT_natCast {n : ℕ} (h : n < 2 ^ 64) : sizeT n = n := by
  rw [sizeT]
  omega

/-- The variables of `recv`: `sum`, the memory at `buf`, and the socket. -/
structure Receiving where
  sum : ℕ
  buf : Bytes
  socket : List Arrival

/-- The loop of `recv`, for less than `fuel` iterations: the result, or `none` when it has not ended
by then. -/
def recvLoop (len : ℤ) : ℕ → Receiving → Option (ℤ × Receiving)
  | 0, _ => none
  | fuel + 1, s =>
    if s.sum = len then some (s.sum, s)
    else
      match Socket.recv (sizeT (len - s.sum)) s.socket with
      | (none, socket) => some (-1, { s with socket })
      | (some bs, socket) =>
        recvLoop len fuel ⟨s.sum + bs.length, overwrite s.sum bs s.buf, socket⟩

/-- `ASMClient::recv`. -/
def recv (fuel : ℕ) (buf : Bytes) (len : ℤ) (socket : List Arrival) : Option (ℤ × Receiving) :=
  recvLoop len fuel ⟨0, buf, socket⟩

/-- An `int` in memory. -/
def intVal (r : Raw 4) : ℤ := Int.bmod (leVal r.bytes) (2 ^ 32)

/-- The parameters that `ClassFileLoadHook` sets: the memory that `*new_class_data` points to, when
it is not null, and `*new_class_data_len`. -/
structure OutParams where
  newClassData : Option Bytes
  newClassDataLen : Raw 4
  deriving DecidableEq

/-- What is left by `recv_bytecode`: the parameters, the sizes that it has asked the allocator for,
and the socket. -/
structure Received where
  out : OutParams
  allocated : List ℕ
  socket : List Arrival

/-- `recv_bytecode`. The function `allocator` gives new memory of the size that it is asked for. The
results of `recv` are not looked at. -/
def recvBytecode (allocator : (n : ℕ) → Raw n) (fuel : ℕ) (out : OutParams)
    (socket : List Arrival) : Option Received :=
  -- recv_int(new_class_data_len)
  (recv fuel out.newClassDataLen.bytes 4 socket).bind fun header =>
    let len := Raw.ofBytes 4 header.2.buf
    if intVal len = 0 then some ⟨⟨out.newClassData, len⟩, [], header.2.socket⟩
    else
      let size := sizeT (intVal len)
      (recv fuel (allocator size).bytes (intVal len) header.2.socket).map fun body =>
        ⟨⟨some body.2.buf, len⟩, [size], body.2.socket⟩

/-! ### Sending -/

/-- A C string, without the zero at its end. Its length is an `int`. -/
structure CString where
  bytes : Bytes
  ne_zero : ∀ b ∈ bytes, b ≠ 0
  length_lt : bytes.length < 2 ^ 31

/-- The bytes of a class file. Their number is a `jint`. -/
structure ClassData where
  bytes : Bytes
  length_lt : bytes.length < 2 ^ 31

/-- The memory of an `int`. -/
def intBytes (val : Int32) : Bytes := leBytes 4 val.toUInt32.toNat

section Send

variable (room : ℕ → ℕ)

/-- `send_int`. -/
def sendInt (o : Outgoing) (val : Int32) : Outgoing := o.send room (intBytes val)

/-- `send_with_len`. -/
def sendWithLen (o : Outgoing) (buf : Bytes) : Outgoing :=
  (o.send room (leBytes 4 buf.length)).send room buf

/-- `send_str`. -/
def sendStr (o : Outgoing) (src : CString) : Outgoing := sendWithLen room o src.bytes

/-- `send_bytecode`. -/
def sendBytecode (o : Outgoing) (name : CString) (classData : ClassData) : Outgoing :=
  sendWithLen room (sendStr room o name) classData.bytes

/-- `send_header`. -/
def sendHeader (pid : Int32) (o : Outgoing) (command : Int32) : Outgoing :=
  sendInt room (sendInt room o pid) command

end Send

/-! ### The loop of `recv` -/

section Loop

variable {len : ℕ} {s : Receiving}

lemma recvLoop_data {fuel : ℕ} {bs : Bytes} {socket : List Arrival} (hne : s.sum ≠ len)
    (h : Socket.recv (sizeT (len - s.sum)) s.socket = (some bs, socket)) :
    recvLoop len (fuel + 1) s =
      recvLoop len fuel ⟨s.sum + bs.length, overwrite s.sum bs s.buf, socket⟩ := by
  rw [recvLoop, if_neg (by exact_mod_cast hne), h]

lemma recvLoop_error {fuel : ℕ} {socket : List Arrival} (hne : s.sum ≠ len)
    (h : Socket.recv (sizeT (len - s.sum)) s.socket = (none, socket)) :
    recvLoop len (fuel + 1) s = some (-1, { s with socket }) := by
  rw [recvLoop, if_neg (by exact_mod_cast hne), h]

lemma recvLoop_mono {l : ℤ} {fuel fuel' : ℕ} (hle : fuel ≤ fuel') {r : ℤ × Receiving}
    (h : recvLoop l fuel s = some r) : recvLoop l fuel' s = some r := by
  induction fuel generalizing fuel' s with
  | zero => cases h
  | succ fuel ih =>
    obtain ⟨fuel', rfl⟩ := Nat.exists_eq_add_of_lt hle
    rw [recvLoop] at h ⊢
    split_ifs at h ⊢ with hsum
    · exact h
    · split at h
      · exact h
      · exact ih (by omega) h

lemma sizeT_sub (hlen : len < 2 ^ 64) (hsum : s.sum < len) :
    sizeT ((len : ℤ) - s.sum) = len - s.sum := by
  rw [← Nat.cast_sub hsum.le, sizeT_natCast (by omega)]

/-- **Enough bytes arrive**: they are all put in their places, and no byte more is read. The
induction is on the number of bytes that are missing. -/
theorem recvLoop_full (hlen : len < 2 ^ 64) (hsum : s.sum ≤ len) (hbuf : s.buf.length = len)
    (henough : len - s.sum ≤ (Socket.arriving s.socket).length) :
    ∃ fuel socket, recvLoop len fuel s = some ((len : ℤ),
        ⟨len, s.buf.take s.sum ++ (Socket.arriving s.socket).take (len - s.sum), socket⟩) ∧
      Socket.arriving socket = (Socket.arriving s.socket).drop (len - s.sum) := by
  induction hk : len - s.sum using Nat.strong_induction_on generalizing s with
  | _ k ih =>
    subst hk
    by_cases hdone : s.sum = len
    · refine ⟨1, s.socket, ?_, by rw [hdone, Nat.sub_self, List.drop_zero]⟩
      rw [recvLoop, if_pos (by exact_mod_cast hdone), hdone, Nat.sub_self, List.take_zero,
        List.append_nil, ← hbuf, List.take_length, hbuf, ← hdone]
    · have hlt : s.sum < len := by omega
      rcases Socket.recv_cases (show 0 < len - s.sum by omega) s.socket with
        ⟨hnil, -⟩ | ⟨as, herr, -⟩ | ⟨bs, as, hrecv, hne, hle, harr, -⟩
      · rw [hnil, Socket.arriving, List.length_nil] at henough
        omega
      · rw [herr, Socket.arriving, List.length_nil] at henough
        omega
      · have hpos : 0 < bs.length := List.length_pos_iff.mpr hne
        rw [harr, List.length_append] at henough
        obtain ⟨fuel, socket, hloop, hrest⟩ :=
          @ih (len - (s.sum + bs.length)) (by omega)
            ⟨s.sum + bs.length, overwrite s.sum bs s.buf, as⟩ (by dsimp only; omega)
            (by rw [length_overwrite (by omega)]; exact hbuf) (by dsimp only; omega) rfl
        dsimp only at hloop hrest
        have hsub : len - s.sum = bs.length + (len - (s.sum + bs.length)) := by omega
        refine ⟨fuel + 1, socket, ?_, ?_⟩
        · rw [recvLoop_data hdone (by rw [sizeT_sub hlen hlt]; exact hrecv), hloop,
            take_overwrite (by omega), harr, hsub, List.take_length_add_append,
            List.append_assoc]
        · rw [hrest, harr, hsub, List.drop_length_add_append]

/-- **A call fails before enough bytes have arrived**: the bytes are in their places, and the result
is `-1`. -/
theorem recvLoop_failed (hlen : len < 2 ^ 64) (hbuf : s.buf.length = len)
    (hshort : s.sum + (Socket.arriving s.socket).length < len)
    (herror : Arrival.error ∈ s.socket) :
    ∃ fuel r, recvLoop len fuel s = some (-1, r) ∧
      r.buf = overwrite s.sum (Socket.arriving s.socket) s.buf := by
  induction hk : len - s.sum using Nat.strong_induction_on generalizing s with
  | _ k ih =>
    subst hk
    have hne : s.sum ≠ len := by omega
    rcases Socket.recv_cases (show 0 < len - s.sum by omega) s.socket with
      ⟨hnil, -⟩ | ⟨as, herr, hrecv⟩ | ⟨bs, as, hrecv, hbs, hle, harr, hiff⟩
    · rw [hnil] at herror
      cases herror
    · refine ⟨1, _, recvLoop_error hne (by rw [sizeT_sub hlen (by omega)]; exact hrecv), ?_⟩
      rw [herr, Socket.arriving, overwrite_nil]
    · have hpos : 0 < bs.length := List.length_pos_iff.mpr hbs
      rw [harr, List.length_append] at hshort
      obtain ⟨fuel, r, hloop, hr⟩ :=
        @ih (len - (s.sum + bs.length)) (by omega)
          ⟨s.sum + bs.length, overwrite s.sum bs s.buf, as⟩
          (by rw [length_overwrite (by omega)]; exact hbuf) (by dsimp only; omega)
          (hiff.mp herror) rfl
      refine ⟨fuel + 1, r, ?_, ?_⟩
      · rw [recvLoop_data hne (by rw [sizeT_sub hlen (by omega)]; exact hrecv), hloop]
      · rw [hr, harr, overwrite_overwrite (by omega)]

/-- **The connection is closed before enough bytes have arrived**: the loop does not end. -/
theorem recvLoop_closed (hlen : len < 2 ^ 64)
    (hshort : s.sum + (Socket.arriving s.socket).length < len)
    (herror : Arrival.error ∉ s.socket) (fuel : ℕ) : recvLoop len fuel s = none := by
  induction fuel generalizing s with
  | zero => rfl
  | succ fuel ih =>
    have hne : s.sum ≠ len := by omega
    rcases Socket.recv_cases (show 0 < len - s.sum by omega) s.socket with
      ⟨hnil, hrecv⟩ | ⟨as, herr, -⟩ | ⟨bs, as, hrecv, -, -, harr, hiff⟩
    · -- the call returns `0`, and nothing changes
      rw [recvLoop_data hne (by rw [sizeT_sub hlen (by omega)]; exact hrecv)]
      rw [hnil] at hshort
      exact ih hshort (by simp)
    · rw [herr] at herror
      exact absurd List.mem_cons_self herror
    · rw [harr, List.length_append] at hshort
      rw [recvLoop_data hne (by rw [sizeT_sub hlen (by omega)]; exact hrecv)]
      exact ih (by dsimp only; omega) (by rwa [← hiff])

end Loop

/-- The loop of `recv` ends, and the result tells whether `len` bytes have arrived. -/
def Ends (len : ℕ) (buf : Bytes) (socket : List Arrival) : Prop :=
  ∃ fuel res s, recv fuel buf len socket = some (res, s) ∧
    (res = len ↔ len ≤ (Socket.arriving socket).length)

/-- **When `recv` ends**: `len` bytes arrive, or a call fails. -/
theorem ends_iff (len : ℕ) (hlen : len < 2 ^ 31) (buf : Raw len) (socket : List Arrival) :
    Ends len buf.bytes socket ↔
      len ≤ (Socket.arriving socket).length ∨ Arrival.error ∈ socket := by
  have hlen' : len < 2 ^ 64 := by omega
  by_cases henough : len ≤ (Socket.arriving socket).length
  · obtain ⟨fuel, rest, hloop, -⟩ :=
      @recvLoop_full len ⟨0, buf.bytes, socket⟩ hlen' (Nat.zero_le _) buf.length_eq henough
    simp only [henough, true_or, iff_true]
    exact ⟨fuel, len, _, hloop, by simp [henough]⟩
  · by_cases herror : Arrival.error ∈ socket
    · obtain ⟨fuel, r, hloop, -⟩ :=
        @recvLoop_failed len ⟨0, buf.bytes, socket⟩ hlen' buf.length_eq (by dsimp only; omega) herror
      simp only [herror, or_true, iff_true]
      exact ⟨fuel, -1, r, hloop, by constructor <;> intro <;> omega⟩
    · simp only [henough, herror, or_self, iff_false]
      rintro ⟨fuel, res, s, hloop, -⟩
      have hnone := @recvLoop_closed len ⟨0, buf.bytes, socket⟩ hlen' (by dsimp only; omega) herror
        fuel
      rw [recv, hnone] at hloop
      cases hloop

/-- The length field arrives in two pieces. -/
theorem ends_iff_pieces :
    Ends 4 [0, 0, 0, 0] [.data [7, 0] (by decide), .data [0, 0, 9] (by decide)] :=
  (ends_iff 4 (by decide) ⟨[0, 0, 0, 0], rfl⟩ _).mpr (Or.inl (by decide))

/-- The server closes the connection within the length field. -/
theorem not_ends_closed : ¬ Ends 4 [0, 0, 0, 0] [.data [7, 0] (by decide)] := by
  rintro ⟨fuel, res, s, hloop, -⟩
  rw [recv, recvLoop_closed (by decide) (by decide) (by decide) fuel] at hloop
  cases hloop

end Cinst.Agent
