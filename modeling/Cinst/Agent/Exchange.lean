import Cinst.Agent.Client
import Cinst.Agent.Instrument

/-!
The exchange of a class with the server.

A whole answer is read in its frame, whatever the pieces in which it arrives (`recvBytecode_framed`).
When a call fails before, the parameters of the hook are set all the same, except when only zeros of
the length have arrived (`unmodified_iff`). A request is on the wire as it is meant to be exactly
when no call of `::send` is short (`framed_iff`).
-/

namespace Cinst.Agent

open Cinst.Lib

/-! ### The `int` that is received -/

lemma leVal_lt_four (r : Raw 4) : leVal r.bytes < 2 ^ 32 := by
  have h := leVal_lt r.bytes
  rw [r.length_eq] at h
  norm_num at h ⊢
  exact h

lemma intVal_eq_zero_iff (r : Raw 4) : intVal r = 0 ↔ ∀ b ∈ r.bytes, b = 0 := by
  have hlt := leVal_lt_four r
  rw [← leVal_eq_zero_iff]
  unfold intVal
  generalize leVal r.bytes = v at hlt ⊢
  rw [Int.bmod_def]
  constructor
  · intro h
    split at h <;> omega
  · intro h
    subst h
    simp

lemma intVal_leBytes {n : ℕ} (hn : n < 2 ^ 31) (h : (leBytes 4 n).length = 4) :
    intVal ⟨leBytes 4 n, h⟩ = n := by
  have hval : leVal (leBytes 4 n) = n := leVal_leBytes (by norm_num; omega)
  dsimp only [intVal]
  rw [hval, Int.bmod_def]
  split <;> omega

/-! ### The answer -/

section Answer

variable {allocator : (n : ℕ) → Raw n} {out : OutParams} {socket : List Arrival}

lemma recv_header (h : 4 ≤ (Socket.arriving socket).length) :
    ∃ fuel s, recv fuel out.newClassDataLen.bytes 4 socket = some (4, s) ∧
      s.buf = (Socket.arriving socket).take 4 ∧
      Socket.arriving s.socket = (Socket.arriving socket).drop 4 := by
  obtain ⟨fuel, rest, hloop, hrest⟩ :=
    @recvLoop_full 4 ⟨0, out.newClassDataLen.bytes, socket⟩ (by decide) (Nat.zero_le _)
      out.newClassDataLen.length_eq h
  exact ⟨fuel, _, hloop, rfl, hrest⟩

lemma recv_header_failed (hshort : (Socket.arriving socket).length < 4)
    (herror : Arrival.error ∈ socket) :
    ∃ fuel s, recv fuel out.newClassDataLen.bytes 4 socket = some (-1, s) ∧
      s.buf = overwrite 0 (Socket.arriving socket) out.newClassDataLen.bytes := by
  obtain ⟨fuel, s, hloop, hbuf⟩ :=
    @recvLoop_failed 4 ⟨0, out.newClassDataLen.bytes, socket⟩ (by decide)
      out.newClassDataLen.length_eq (by dsimp only; omega) herror
  exact ⟨fuel, s, hloop, hbuf⟩

lemma recv_unique {fuel fuel' : ℕ} {buf : Bytes} {len : ℤ} {r r' : ℤ × Receiving}
    (h : recv fuel buf len socket = some r) (h' : recv fuel' buf len socket = some r') : r = r' := by
  have h := recvLoop_mono (Nat.le_max_left fuel fuel') h
  have h' := recvLoop_mono (Nat.le_max_right fuel fuel') h'
  exact Option.some.inj (h.symm.trans h')

lemma recvBytecode_zero {fuel : ℕ} {res : ℤ} {s : Receiving}
    (h : recv fuel out.newClassDataLen.bytes 4 socket = some (res, s))
    (h0 : intVal (Raw.ofBytes 4 s.buf) = 0) :
    recvBytecode allocator fuel out socket =
      some ⟨⟨out.newClassData, Raw.ofBytes 4 s.buf⟩, [], s.socket⟩ := by
  rw [recvBytecode, h, Option.bind_some]
  exact if_pos h0

lemma recvBytecode_ne_zero {fuel : ℕ} {res : ℤ} {s : Receiving}
    (h : recv fuel out.newClassDataLen.bytes 4 socket = some (res, s))
    (h0 : intVal (Raw.ofBytes 4 s.buf) ≠ 0) :
    recvBytecode allocator fuel out socket =
      (recv fuel (allocator (sizeT (intVal (Raw.ofBytes 4 s.buf)))).bytes
        (intVal (Raw.ofBytes 4 s.buf)) s.socket).map fun body =>
          ⟨⟨some body.2.buf, Raw.ofBytes 4 s.buf⟩, [sizeT (intVal (Raw.ofBytes 4 s.buf))],
            body.2.socket⟩ := by
  rw [recvBytecode, h, Option.bind_some]
  exact if_neg h0

lemma recv_length {n : ℕ} (hn : n < 2 ^ 31) {bs : Bytes}
    (h : Socket.arriving socket = leBytes 4 n ++ bs) :
    ∃ fuel s, recv fuel out.newClassDataLen.bytes 4 socket = some (4, s) ∧
      intVal (Raw.ofBytes 4 s.buf) = n ∧ Socket.arriving s.socket = bs := by
  have hfour : (leBytes 4 n).length = 4 := length_leBytes 4 n
  obtain ⟨fuel, s, hrecv, hbuf, hrest⟩ :=
    @recv_header out socket (by rw [h, List.length_append]; omega)
  rw [h, List.take_left' hfour] at hbuf
  rw [h, List.drop_left' hfour] at hrest
  refine ⟨fuel, s, hrecv, ?_, hrest⟩
  rw [hbuf, Raw.ofBytes_eq hfour, intVal_leBytes hn]

lemma recvBytecode_empty (allocator : (n : ℕ) → Raw n) (out : OutParams) {rest : Bytes}
    (h : Socket.arriving socket = leBytes 4 0 ++ rest) :
    ∃ fuel r, recvBytecode allocator fuel out socket = some r ∧
      intVal r.out.newClassDataLen = 0 ∧ r.out.newClassData = out.newClassData ∧
      r.allocated = [] ∧ Socket.arriving r.socket = rest := by
  obtain ⟨fuel, s, hrecv, hval, hrest⟩ := @recv_length out socket 0 (by decide) _ h
  exact ⟨fuel, _, recvBytecode_zero hrecv hval, hval, rfl, rfl, hrest⟩

lemma recvBytecode_body (allocator : (n : ℕ) → Raw n) (out : OutParams) {body rest : Bytes}
    (hlt : body.length < 2 ^ 31) (hne : body ≠ [])
    (h : Socket.arriving socket = leBytes 4 body.length ++ (body ++ rest)) :
    ∃ fuel r, recvBytecode allocator fuel out socket = some r ∧
      intVal r.out.newClassDataLen = body.length ∧ r.out.newClassData = some body ∧
      r.allocated = [body.length] ∧ Socket.arriving r.socket = rest := by
  obtain ⟨fuel, s, hrecv, hval, hrest⟩ := @recv_length out socket _ hlt _ h
  have hpos : 0 < body.length := List.length_pos_iff.mpr hne
  have hval0 : intVal (Raw.ofBytes 4 s.buf) ≠ 0 := by
    rw [hval]
    omega
  obtain ⟨fuel', socket', hloop, hrest'⟩ :=
    @recvLoop_full body.length ⟨0, (allocator body.length).bytes, s.socket⟩ (by omega)
      (Nat.zero_le _) (allocator body.length).length_eq
      (by rw [hrest, List.length_append]; dsimp only; omega)
  simp only [List.take_zero, List.nil_append, Nat.sub_zero, hrest, List.take_left,
    List.drop_left] at hloop hrest'
  have hheader := recvLoop_mono (Nat.le_max_left fuel fuel') hrecv
  have hbody := recvLoop_mono (Nat.le_max_right fuel fuel') hloop
  refine ⟨max fuel fuel', ⟨⟨some body, Raw.ofBytes 4 s.buf⟩, [body.length], socket'⟩, ?_, hval, rfl,
    rfl, hrest'⟩
  rw [recvBytecode_ne_zero hheader hval0, hval, sizeT_natCast (by omega), recv, hbody]
  rfl

/-- **One framed answer is read**, whatever the pieces in which it arrives: the length is set, memory
of this size is allocated once and holds the body, and the bytes behind the answer stay unread. -/
theorem recvBytecode_framed (allocator : (n : ℕ) → Raw n) (out : OutParams) (n : ℕ)
    (hn : n < 2 ^ 31) (body rest : Bytes) (hbody : body.length = n) (socket : List Arrival)
    (h : Socket.arriving socket = leBytes 4 n ++ body ++ rest) :
    ∃ fuel r, recvBytecode allocator fuel out socket = some r ∧
      intVal r.out.newClassDataLen = n ∧
      r.out.newClassData = (if n = 0 then out.newClassData else some body) ∧
      r.allocated = (if n = 0 then [] else [n]) ∧
      Socket.arriving r.socket = rest := by
  rw [List.append_assoc] at h
  by_cases h0 : n = 0
  · subst h0
    rw [List.length_eq_zero_iff.mp hbody, List.nil_append] at h
    simp only [if_true]
    exact recvBytecode_empty allocator out h
  · subst hbody
    simp only [if_neg h0]
    exact recvBytecode_body allocator out hn (List.ne_nil_of_length_pos (by omega)) h

/-- Three bytes behind their length, which is cut in the middle, and two bytes of another answer. -/
theorem recvBytecode_framed_three :
    ∃ fuel r, recvBytecode (fun n => Raw.ofBytes n []) fuel ⟨none, ⟨[0, 0, 0, 0], rfl⟩⟩
        [.data [3, 0] (by decide), .data [0] (by decide), .data [0, 65] (by decide),
          .data [66, 67, 1, 0] (by decide)] = some r ∧
      intVal r.out.newClassDataLen = (3 : ℕ) ∧ r.out.newClassData = some [65, 66, 67] ∧
      r.allocated = [3] ∧ Socket.arriving r.socket = [1, 0] :=
  recvBytecode_framed _ _ 3 (by decide) [65, 66, 67] [1, 0] rfl _ (by decide)

/-- **The hook hands over the answer of the server**: the step of the hook that asks the server sets
what `recv_bytecode` receives when the answer arrives. -/
theorem hookStep_received (server : String → Bytes → Bytes) {f : ClassFile} {name : String}
    (hname : f.name = some name) (hne : name ≠ "") (hlt : (server name f.classData).length < 2 ^ 31)
    (hanswer : server name f.classData ≠ []) {rest : Bytes}
    (h : Socket.arriving socket = leBytes 4 (server name f.classData).length ++
      (server name f.classData ++ rest)) (vmInit : Bool) (transformed : List String) :
    ∃ fuel r, recvBytecode allocator fuel out socket = some r ∧
      hookStep server vmInit transformed f .inserted =
        some (.returned r.out.newClassData, transformed) := by
  obtain ⟨fuel, r, hr, -, hdata, -, -⟩ := recvBytecode_body allocator out hlt hanswer h
  have hlen : f.classData.length ≠ 0 := by
    rw [Ne, List.length_eq_zero_iff]
    exact f.classData_ne
  refine ⟨fuel, r, hr, ?_⟩
  rw [hookStep, if_neg hlen, hname, Option.getD_some, if_neg hne, hdata]

/-! ### A call fails -/

/-- The bytes hold a whole answer, the length and the body. -/
def WholeAnswer (bs : Bytes) : Prop := 4 ≤ bs.length ∧ 4 + leVal (bs.take 4) ≤ bs.length

instance (bs : Bytes) : Decidable (WholeAnswer bs) := inferInstanceAs (Decidable (_ ∧ _))

/-- `recv_bytecode` returns, and the parameters of the hook are as before. -/
def Unmodified (allocator : (n : ℕ) → Raw n) (out : OutParams) (socket : List Arrival) : Prop :=
  ∃ fuel r, recvBytecode allocator fuel out socket = some r ∧ r.out = out

lemma overwrite_zeros {bs : Bytes} {len : Raw 4} (hlen : ∀ b ∈ len.bytes, b = 0)
    (hshort : bs.length < 4) (hbs : ∀ b ∈ bs, b = 0) : overwrite 0 bs len.bytes = len.bytes := by
  have hlength : (overwrite 0 bs len.bytes).length = 4 := by
    rw [length_overwrite (by rw [len.length_eq]; omega), len.length_eq]
  have hzeros : ∀ b ∈ overwrite 0 bs len.bytes, b = 0 := by
    intro b hb
    rw [overwrite, List.take_zero, List.nil_append, List.mem_append] at hb
    rcases hb with hb | hb
    · exact hbs b hb
    · exact hlen b (List.mem_of_mem_drop hb)
  rw [List.eq_replicate_iff.mpr ⟨hlength, hzeros⟩, List.eq_replicate_iff.mpr ⟨len.length_eq, hlen⟩]

section Zero

variable {len : Raw 4} {fuel : ℕ} {res : ℤ} {s : Receiving}

/-- The parameters are as before only when the length that is read is `0` and was there before. -/
lemma length_of_unmodified {r : Received} (h : recvBytecode allocator fuel ⟨none, len⟩ socket = some r)
    (hout : r.out = ⟨none, len⟩) :
    ∃ res s, recv fuel len.bytes 4 socket = some (res, s) ∧ Raw.ofBytes 4 s.buf = len ∧
      intVal len = 0 := by
  obtain ⟨⟨res, s⟩, hrecv, -⟩ := Option.bind_eq_some_iff.mp h
  by_cases h0 : intVal (Raw.ofBytes 4 s.buf) = 0
  · rw [recvBytecode_zero hrecv h0, Option.some.injEq] at h
    have hlen : Raw.ofBytes 4 s.buf = len := by
      rw [← h] at hout
      exact congrArg OutParams.newClassDataLen hout
    exact ⟨res, s, hrecv, hlen, hlen ▸ h0⟩
  · rw [recvBytecode_ne_zero hrecv h0] at h
    obtain ⟨body, -, hr⟩ := Option.map_eq_some_iff.mp h
    rw [← hr] at hout
    cases hout

/-- The length is written over by what has arrived of it, so these are zeros. -/
lemma zeros_of_short (hshort : (Socket.arriving socket).length < 4) (herror : Arrival.error ∈ socket)
    (hrecv : recv fuel len.bytes 4 socket = some (res, s)) (hlen : Raw.ofBytes 4 s.buf = len)
    (h0 : intVal len = 0) : ∀ b ∈ Socket.arriving socket, b = 0 := by
  obtain ⟨fuel', s', hrecv', hbuf⟩ := @recv_header_failed ⟨none, len⟩ socket hshort herror
  have hs : s = s' := congrArg Prod.snd (recv_unique hrecv hrecv')
  have hlength : (overwrite 0 (Socket.arriving socket) len.bytes).length = 4 := by
    rw [length_overwrite (by rw [len.length_eq]; omega), len.length_eq]
  rw [hs, hbuf, Raw.ofBytes_eq hlength] at hlen
  intro b hb
  refine (intVal_eq_zero_iff len).mp h0 b ?_
  rw [← hlen]
  dsimp only [overwrite]
  rw [List.take_zero, List.nil_append]
  exact List.mem_append_left _ hb

lemma wholeAnswer_of_full (hfull : 4 ≤ (Socket.arriving socket).length)
    (hrecv : recv fuel len.bytes 4 socket = some (res, s)) (hlen : Raw.ofBytes 4 s.buf = len)
    (h0 : intVal len = 0) : WholeAnswer (Socket.arriving socket) := by
  obtain ⟨fuel', s', hrecv', hbuf, -⟩ := @recv_header ⟨none, len⟩ socket hfull
  have hs : s = s' := congrArg Prod.snd (recv_unique hrecv hrecv')
  have hlength : ((Socket.arriving socket).take 4).length = 4 := by
    rw [List.length_take, Nat.min_eq_left hfull]
  rw [hs, hbuf, Raw.ofBytes_eq hlength] at hlen
  have hzero : leVal ((Socket.arriving socket).take 4) = 0 := by
    rw [← hlen, intVal_eq_zero_iff] at h0
    exact (leVal_eq_zero_iff _).mpr h0
  exact ⟨hfull, by omega⟩

end Zero

/-- **A failed exchange leaves the parameters as they were** exactly when the call fails within the
length, of which only zeros have arrived, and the length was `0` before. -/
theorem unmodified_iff (allocator : (n : ℕ) → Raw n) (len : Raw 4) (socket : List Arrival)
    (herror : Arrival.error ∈ socket) (hpart : ¬ WholeAnswer (Socket.arriving socket)) :
    Unmodified allocator ⟨none, len⟩ socket ↔
      intVal len = 0 ∧ (Socket.arriving socket).length < 4 ∧
        ∀ b ∈ Socket.arriving socket, b = 0 := by
  constructor
  · rintro ⟨fuel, r, hreceived, hout⟩
    obtain ⟨res, s, hrecv, hlen, h0⟩ := length_of_unmodified hreceived hout
    rcases Nat.lt_or_ge (Socket.arriving socket).length 4 with hshort | hfull
    · exact ⟨h0, hshort, zeros_of_short hshort herror hrecv hlen h0⟩
    · exact absurd (wholeAnswer_of_full hfull hrecv hlen h0) hpart
  · rintro ⟨h0, hshort, hzeros⟩
    obtain ⟨fuel, s, hrecv, hbuf⟩ := @recv_header_failed ⟨none, len⟩ socket hshort herror
    rw [overwrite_zeros ((intVal_eq_zero_iff len).mp h0) hshort hzeros] at hbuf
    have hlen : Raw.ofBytes 4 s.buf = len := by
      rw [hbuf]
      exact Raw.ofBytes_eq len.length_eq
    exact ⟨fuel, _, recvBytecode_zero hrecv (by rw [hlen, h0]), by rw [hlen]⟩

/-- The first call fails. -/
theorem unmodified_iff_first :
    Unmodified (fun n => Raw.ofBytes n []) ⟨none, ⟨[0, 0, 0, 0], rfl⟩⟩ [.error] :=
  (unmodified_iff _ _ _ (by decide) (by decide)).mpr
    ⟨by decide, by decide, by simp [Socket.arriving]⟩

/-- The length and a byte of the body. -/
def brokenAnswer : List Arrival := [.data [3, 0, 0, 0] (by decide), .data [65] (by decide), .error]

/-- The connection breaks within the body. -/
theorem not_unmodified_body :
    Arrival.error ∈ brokenAnswer ∧ ¬ WholeAnswer (Socket.arriving brokenAnswer) ∧
      ¬ Unmodified (fun n => Raw.ofBytes n []) ⟨none, ⟨[0, 0, 0, 0], rfl⟩⟩ brokenAnswer := by
  refine ⟨by decide, by decide, ?_⟩
  rintro ⟨fuel, r, hreceived, hout⟩
  obtain ⟨res, s, hrecv, hlen, -⟩ := length_of_unmodified hreceived hout
  obtain ⟨fuel', s', hrecv', hbuf, -⟩ :=
    @recv_header ⟨none, ⟨[0, 0, 0, 0], rfl⟩⟩ brokenAnswer (by decide)
  have hs : s = s' := congrArg Prod.snd (recv_unique hrecv hrecv')
  rw [hs, hbuf] at hlen
  exact absurd hlen (by decide)

end Answer

/-! ### The request -/

/-- The buffers that make up a request, one for each call of `::send`. -/
def requestParts (pid command : Int32) (name : CString) (classData : ClassData) : List Bytes :=
  [intBytes pid, intBytes command, leBytes 4 name.bytes.length, name.bytes,
    leBytes 4 classData.bytes.length, classData.bytes]

/-- What the hook sends: `send_header` and `send_bytecode`. -/
def sendRequest (room : ℕ → ℕ) (pid command : Int32) (name : CString) (classData : ClassData) :
    Outgoing :=
  sendBytecode room (sendHeader room pid ⟨[], 0⟩ command) name classData

/-- The first `n` bytes, and the rest. -/
def readChunk (n : ℕ) (bs : Bytes) : Option (Bytes × Bytes) :=
  if n ≤ bs.length then some (bs.take n, bs.drop n) else none

/-- An `int`. -/
def readInt (bs : Bytes) : Option (Int32 × Bytes) :=
  (readChunk 4 bs).map fun p => ((UInt32.ofNat (leVal p.1)).toInt32, p.2)

/-- A length, and so many bytes. -/
def readWithLen (bs : Bytes) : Option (Bytes × Bytes) :=
  (readChunk 4 bs).bind fun p => readChunk (leVal p.1) p.2

/-- A request, as the peer reads it. -/
structure Request where
  pid : Int32
  command : Int32
  name : Bytes
  classData : Bytes
  deriving DecidableEq

/-- A request, and the bytes behind it. -/
def readRequest (bs : Bytes) : Option (Request × Bytes) := do
  let (pid, bs) ← readInt bs
  let (command, bs) ← readInt bs
  let (name, bs) ← readWithLen bs
  let (classData, bs) ← readWithLen bs
  return (⟨pid, command, name, classData⟩, bs)

lemma readChunk_append {n : ℕ} {chunk : Bytes} (h : chunk.length = n) (bs : Bytes) :
    readChunk n (chunk ++ bs) = some (chunk, bs) := by
  rw [readChunk, if_pos (by rw [List.length_append]; omega), List.take_left' h, List.drop_left' h]

lemma readInt_intBytes (val : Int32) (bs : Bytes) :
    readInt (intBytes val ++ bs) = some (val, bs) := by
  have hlt : val.toUInt32.toNat < 256 ^ 4 := by
    have := val.toUInt32.toNat_lt
    norm_num at this ⊢
    exact this
  rw [readInt, intBytes, readChunk_append (length_leBytes 4 _), Option.map_some]
  dsimp only
  rw [leVal_leBytes hlt]
  simp

lemma readWithLen_append {buf : Bytes} (h : buf.length < 2 ^ 31) (bs : Bytes) :
    readWithLen (leBytes 4 buf.length ++ (buf ++ bs)) = some (buf, bs) := by
  rw [readWithLen, readChunk_append (length_leBytes 4 _), Option.bind_some]
  dsimp only
  rw [leVal_leBytes (by norm_num; omega), readChunk_append rfl]

lemma readRequest_parts (pid command : Int32) (name : CString) (classData : ClassData) :
    readRequest (requestParts pid command name classData).flatten =
      some (⟨pid, command, name.bytes, classData.bytes⟩, []) := by
  have hdata := readWithLen_append classData.length_lt []
  rw [List.append_nil] at hdata
  simp only [requestParts, List.flatten_cons, List.flatten_nil, List.append_nil, readRequest,
    readInt_intBytes, readWithLen_append name.length_lt, hdata, Option.bind_eq_bind,
    Option.bind_some, Option.pure_def]

/-- A request is on the wire as it is meant to be, and the peer reads it. -/
def Framed (room : ℕ → ℕ) (pid command : Int32) (name : CString) (classData : ClassData) : Prop :=
  (sendRequest room pid command name classData).wire =
      (requestParts pid command name classData).flatten ∧
    readRequest (sendRequest room pid command name classData).wire =
      some (⟨pid, command, name.bytes, classData.bytes⟩, [])

/-- **A request is framed** exactly when each of the six calls of `::send` puts all of its buffer on
the wire. -/
theorem framed_iff (room : ℕ → ℕ) (pid command : Int32) (name : CString) (classData : ClassData) :
    Framed room pid command name classData ↔
      ∀ i bs, (requestParts pid command name classData)[i]? = some bs →
        Outgoing.Whole room i bs := by
  obtain ⟨out, hwire, -, hiff⟩ :=
    @Outgoing.foldl_send room (requestParts pid command name classData) ⟨[], 0⟩
  have hsend : (sendRequest room pid command name classData).wire = out := hwire
  simp only [Nat.zero_add] at hiff
  rw [Framed, hsend, ← hiff]
  constructor
  · exact fun h => h.1
  · intro h
    exact ⟨h, by rw [h, readRequest_parts]⟩

/-- The class `A`, of three bytes; the last call puts two of them on the wire. -/
theorem not_framed_short :
    ¬ Framed (fun i => if i = 5 then 2 else 4) 1 2 ⟨[65], by simp, by decide⟩
        ⟨[7, 8, 9], by decide⟩ := by
  rintro ⟨hwire, -⟩
  exact absurd hwire (by decide)

end Cinst.Agent
