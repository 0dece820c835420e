import Mathlib.Tactic

/-!
Files of records of a fixed size: a value as it lies in memory (`Raw`), the whole records of a list
of bytes (`records`), and a file that is open for update, with `fread`, `fseek` and `fwrite` of the
C library.

`rewrite` reads a block of records, changes each of them and writes the block back in its place,
until the end of the file. On a file of whole records this changes every record once, whatever the
size of the blocks (`rewrite_whole`).
-/

namespace Cinst.Lib

/-- Bytes in memory or in a file. -/
abbrev Bytes := List UInt8

/-- A value of `size` bytes in memory. -/
@[ext] structure Raw (size : ℕ) where
  bytes : Bytes
  length_eq : bytes.length = size
  deriving DecidableEq

/-- The first `size` bytes, filled up with zeros. -/
def Raw.ofBytes (size : ℕ) (bs : Bytes) : Raw size :=
  ⟨(bs.take size).rightpad size 0, by simp⟩

/-- The first `n` values of `size` bytes. -/
def takeRecords (size : ℕ) : ℕ → Bytes → List (Raw size)
  | 0, _ => []
  | n + 1, bs => Raw.ofBytes size bs :: takeRecords size n (bs.drop size)

/-- The whole records of a file. -/
def records (size : ℕ) (bs : Bytes) : List (Raw size) := takeRecords size (bs.length / size) bs

/-- The bytes of a list of records. -/
def joinRecords {size : ℕ} (rs : List (Raw size)) : Bytes := (rs.map Raw.bytes).flatten

section Records

variable {size : ℕ}

@[simp] lemma joinRecords_nil : joinRecords ([] : List (Raw size)) = [] := rfl

@[simp] lemma joinRecords_cons (r : Raw size) (rs : List (Raw size)) :
    joinRecords (r :: rs) = r.bytes ++ joinRecords rs := rfl

@[simp] lemma joinRecords_append (rs rs' : List (Raw size)) :
    joinRecords (rs ++ rs') = joinRecords rs ++ joinRecords rs' := by
  simp [joinRecords]

@[simp] lemma length_joinRecords (rs : List (Raw size)) :
    (joinRecords rs).length = rs.length * size := by
  induction rs with
  | nil => simp
  | cons r rs ih =>
    rw [joinRecords_cons, List.length_append, ih, r.length_eq, List.length_cons]
    ring

lemma Raw.ofBytes_append (r : Raw size) (bs : Bytes) : Raw.ofBytes size (r.bytes ++ bs) = r := by
  have h : (r.bytes ++ bs).take size = r.bytes := List.take_left' r.length_eq
  ext1
  simp [Raw.ofBytes, h, List.rightpad, r.length_eq]

lemma Raw.ofBytes_eq {bs : Bytes} (h : bs.length = size) :
    Raw.ofBytes size bs = ⟨bs, h⟩ := by
  have := Raw.ofBytes_append ⟨bs, h⟩ []
  rwa [List.append_nil] at this

lemma takeRecords_append (rs : List (Raw size)) (bs : Bytes) :
    takeRecords size rs.length (joinRecords rs ++ bs) = rs := by
  induction rs with
  | nil => rfl
  | cons r rs ih =>
    rw [joinRecords_cons, List.append_assoc, List.length_cons, takeRecords, Raw.ofBytes_append,
      List.drop_left' r.length_eq, ih]

/-- Bytes of records are cut into these records. -/
theorem records_joinRecords (hsize : 0 < size) (rs : List (Raw size)) :
    records size (joinRecords rs) = rs := by
  have h := takeRecords_append rs []
  rw [List.append_nil] at h
  rw [records, length_joinRecords, Nat.mul_div_cancel _ hsize, h]

lemma joinRecords_takeRecords {n : ℕ} {bs : Bytes} (h : n * size ≤ bs.length) :
    joinRecords (takeRecords size n bs) = bs.take (n * size) := by
  induction n generalizing bs with
  | zero => simp [takeRecords]
  | succ n ih =>
    have hn : (n + 1) * size = size + n * size := by ring
    have hbytes : (Raw.ofBytes size bs).bytes = bs.take size := by
      simp only [Raw.ofBytes, List.rightpad, List.length_take]
      rw [Nat.min_eq_left (by omega), Nat.sub_self, List.replicate_zero, List.append_nil]
    rw [takeRecords, joinRecords_cons, ih (by simp; omega), hbytes, hn, List.take_add]

lemma take_joinRecords (rs : List (Raw size)) (n : ℕ) :
    (joinRecords rs).take (n * size) = joinRecords (rs.take n) := by
  rcases le_total n rs.length with h | h
  · have hlen : (joinRecords (rs.take n)).length = n * size := by
      rw [length_joinRecords, List.length_take, Nat.min_eq_left h]
    have hrs : joinRecords rs = joinRecords (rs.take n) ++ joinRecords (rs.drop n) := by
      rw [← joinRecords_append, List.take_append_drop]
    rw [hrs, List.take_left' hlen]
  · rw [List.take_of_length_le h, List.take_of_length_le]
    rw [length_joinRecords]
    exact Nat.mul_le_mul_right _ h

lemma getElem?_takeRecords (size n i : ℕ) (bs : Bytes) :
    (takeRecords size n bs)[i]? =
      if i < n then some (Raw.ofBytes size (bs.drop (i * size))) else none := by
  induction n generalizing i bs with
  | zero => simp [takeRecords]
  | succ n ih =>
    cases i with
    | zero => simp [takeRecords]
    | succ i =>
      rw [takeRecords, List.getElem?_cons_succ, ih, List.drop_drop,
        show size + i * size = (i + 1) * size by ring]
      simp

/-- A file of whole records is the bytes of its records. -/
theorem joinRecords_records {bs : Bytes} (h : size ∣ bs.length) :
    joinRecords (records size bs) = bs := by
  have hlen : bs.length / size * size = bs.length := Nat.div_mul_cancel h
  rw [records, joinRecords_takeRecords hlen.le, hlen, List.take_length]

end Records

/-! ### Files open for update -/

/-- A `FILE` and its position. -/
structure Stream where
  bytes : Bytes
  pos : ℕ

namespace Stream

/-- The bytes that an `fread` of `n` items of `size` bytes gets. -/
def available (f : Stream) (size n : ℕ) : ℕ := min (size * n) (f.bytes.length - f.pos)

/-- The items that `fread` returns; a partial one at the end of the file is not counted. -/
def freadItems (f : Stream) (size n : ℕ) : List (Raw size) :=
  takeRecords size (f.available size n / size) (f.bytes.drop f.pos)

/-- After an `fread` the position is behind all bytes it got. -/
def fread (f : Stream) (size n : ℕ) : Stream := { f with pos := f.pos + f.available size n }

/-- After an `fread` the end of the file is seen when the request could not be filled. -/
def feof (f : Stream) (size n : ℕ) : Bool := f.available size n < size * n

/-- `fseek(f, -k, SEEK_CUR)`. -/
def fseekBack (f : Stream) (k : ℕ) : Stream := { f with pos := f.pos - k }

/-- `fwrite`: the bytes are written over those at the position. -/
def fwrite (f : Stream) (bs : Bytes) : Stream where
  bytes := f.bytes.take f.pos ++ bs ++ f.bytes.drop (f.pos + bs.length)
  pos := f.pos + bs.length

/-- One block: read, change every item, go back and write. -/
def rewriteBlock (size n : ℕ) (func : Raw size → Raw size) (f : Stream) : Stream :=
  ((f.fread size n).fseekBack ((f.freadItems size n).length * size)).fwrite
    (joinRecords ((f.freadItems size n).map func))

lemma length_takeRecords (size n : ℕ) (bs : Bytes) : (takeRecords size n bs).length = n := by
  induction n generalizing bs with
  | zero => rfl
  | succ n ih => rw [takeRecords, List.length_cons, ih]

lemma length_rewriteBlock (size n : ℕ) (func : Raw size → Raw size) (f : Stream) :
    (f.rewriteBlock size n func).bytes.length = f.bytes.length ∧
      (f.rewriteBlock size n func).pos = f.pos + f.available size n := by
  have hcount : f.available size n / size * size ≤ f.available size n := Nat.div_mul_le_self ..
  have havail : f.available size n ≤ f.bytes.length - f.pos := Nat.min_le_right ..
  simp only [rewriteBlock, fwrite, fseekBack, fread, freadItems, List.length_append,
    List.length_take, List.length_drop, length_joinRecords, List.length_map, length_takeRecords]
  omega

/-- The loop of `transform_local`: blocks of `n` items, until the end of the file is seen. -/
def rewrite (size n : ℕ) (hblock : 0 < size * n) (func : Raw size → Raw size) (f : Stream) :
    Stream :=
  if _h : f.feof size n then f.rewriteBlock size n func
  else rewrite size n hblock func (f.rewriteBlock size n func)
  termination_by f.bytes.length - f.pos
  decreasing_by
    have hb := length_rewriteBlock size n func f
    simp only [feof, decide_eq_true_eq, not_lt] at _h
    have : f.available size n ≤ f.bytes.length - f.pos := Nat.min_le_right ..
    omega

/-- The loop that reads blocks of `n` items and hands over each item, until a read returns none. -/
def forEach {σ : Type*} (size n : ℕ) (func : σ → Raw size → σ) (s : σ) (f : Stream) : σ × Stream :=
  if _h : f.available size n / size = 0 then (s, f.fread size n)
  else forEach size n func ((f.freadItems size n).foldl func s) (f.fread size n)
  termination_by f.bytes.length - f.pos
  decreasing_by
    have hle : f.available size n ≤ f.bytes.length - f.pos := Nat.min_le_right ..
    have hpos : 0 < f.available size n := by
      rcases Nat.eq_zero_or_pos (f.available size n) with h0 | h0
      · rw [h0, Nat.zero_div] at _h
        exact absurd rfl _h
      · exact h0
    show f.bytes.length - (f.pos + f.available size n) < _
    omega

/-! ### The records that are read -/

section Congr

variable {size n : ℕ} {func func' : Raw size → Raw size}

lemma takeRecords_take (size m n : ℕ) (bs : Bytes) :
    (takeRecords size n bs).take m = takeRecords size (min m n) bs := by
  induction n generalizing m bs with
  | zero => simp [takeRecords]
  | succ n ih =>
    cases m with
    | zero => simp [takeRecords]
    | succ m => rw [takeRecords, List.take_succ_cons, ih, Nat.succ_min_succ, takeRecords]

lemma takeRecords_drop (size m n : ℕ) (bs : Bytes) :
    (takeRecords size (m + n) bs).drop m = takeRecords size n (bs.drop (m * size)) := by
  induction m generalizing bs with
  | zero => simp
  | succ m ih =>
    rw [Nat.succ_add, takeRecords, List.drop_succ_cons, ih, List.drop_drop]
    congr 2
    ring

lemma freadItems_eq (f : Stream) (hsize : 0 < size) :
    f.freadItems size n = (records size (f.bytes.drop f.pos)).take n := by
  have hcount : f.available size n / size = min n ((f.bytes.length - f.pos) / size) := by
    rw [available]
    rcases le_total (size * n) (f.bytes.length - f.pos) with h | h
    · rw [Nat.min_eq_left h, Nat.mul_div_cancel_left _ hsize, Nat.min_eq_left]
      exact (Nat.le_div_iff_mul_le hsize).mpr (by rwa [Nat.mul_comm])
    · rw [Nat.min_eq_right h, Nat.min_eq_right]
      exact Nat.div_le_of_le_mul h
  rw [freadItems, hcount, records, List.length_drop, takeRecords_take]

lemma drop_rewriteBlock {f : Stream} (hblock : 0 < size * n) (h : ¬ f.feof size n) :
    (f.rewriteBlock size n func).bytes.drop (f.rewriteBlock size n func).pos =
      f.bytes.drop (f.pos + size * n) := by
  have hsize : 0 < size := Nat.pos_of_mul_pos_right hblock
  have hfull : f.available size n = size * n := by
    simp only [feof, decide_eq_true_eq, not_lt] at h
    exact le_antisymm (Nat.min_le_left ..) h
  have hle : size * n ≤ f.bytes.length - f.pos := hfull ▸ Nat.min_le_right ..
  have hlen : (f.freadItems size n).length * size = size * n := by
    rw [freadItems, length_takeRecords, hfull, Nat.mul_div_cancel_left _ hsize, Nat.mul_comm]
  rw [(length_rewriteBlock size n func f).2, hfull]
  simp only [rewriteBlock, fwrite, fseekBack, fread, hfull, hlen, Nat.add_sub_cancel,
    length_joinRecords, List.length_map]
  have htaken : (f.bytes.take f.pos ++ joinRecords ((f.freadItems size n).map func)).length =
      f.pos + size * n := by
    rw [List.length_append, List.length_take, length_joinRecords, List.length_map, hlen]
    omega
  rw [List.drop_left' htaken]

lemma records_drop {f : Stream} (hblock : 0 < size * n) (h : ¬ f.feof size n) :
    records size (f.bytes.drop (f.pos + size * n)) =
      (records size (f.bytes.drop f.pos)).drop n := by
  have hsize : 0 < size := Nat.pos_of_mul_pos_right hblock
  have hle : size * n ≤ f.bytes.length - f.pos := by
    simp only [feof, decide_eq_true_eq, not_lt] at h
    exact h.trans (Nat.min_le_right ..)
  obtain ⟨m, hm⟩ := Nat.exists_eq_add_of_le hle
  rw [records, records, List.length_drop, List.length_drop, ← Nat.sub_sub, hm,
    Nat.add_sub_cancel_left, Nat.mul_add_div hsize, takeRecords_drop, List.drop_drop,
    Nat.mul_comm n size]

/-- **Rewriting depends on what is done to the records of the file only**, also when the file ends
in a partial record. -/
theorem rewrite_congr (hblock : 0 < size * n) {f : Stream}
    (h : ∀ r ∈ records size (f.bytes.drop f.pos), func r = func' r) :
    f.rewrite size n hblock func = f.rewrite size n hblock func' := by
  have hsize : 0 < size := Nat.pos_of_mul_pos_right hblock
  induction hk : f.bytes.length - f.pos using Nat.strong_induction_on generalizing f with
  | _ k ih =>
    have hb : f.rewriteBlock size n func = f.rewriteBlock size n func' := by
      have hitems : (f.freadItems size n).map func = (f.freadItems size n).map func' := by
        refine List.map_congr_left fun r hr => h r ?_
        rw [freadItems_eq f hsize] at hr
        exact List.mem_of_mem_take hr
      rw [rewriteBlock, rewriteBlock, hitems]
    rw [rewrite.eq_def size n hblock func f, rewrite.eq_def size n hblock func' f, hb]
    by_cases heof : f.feof size n
    · rw [dif_pos heof, dif_pos heof]
    · have hlen := length_rewriteBlock size n func' f
      have hfull : ¬ f.available size n < size * n := by simpa [feof] using heof
      have hle : f.available size n ≤ f.bytes.length - f.pos := Nat.min_le_right ..
      rw [dif_neg heof, dif_neg heof]
      refine ih _ (by omega) (fun r hr => h r ?_) rfl
      rw [drop_rewriteBlock hblock heof, records_drop hblock heof] at hr
      exact List.mem_of_mem_drop hr

end Congr

/-! ### Files of whole records -/

section Whole

variable {size n : ℕ} {func : Raw size → Raw size} {f : Stream} {done : Bytes}
  {rs : List (Raw size)}

/-- A file whose bytes before the position are `done` and from there on the records `rs`. -/
structure At (f : Stream) (done : Bytes) (rs : List (Raw size)) : Prop where
  bytes : f.bytes = done ++ joinRecords rs
  pos : f.pos = done.length

lemma At.available (h : At f done rs) : f.available size n = size * min n rs.length := by
  rw [Stream.available, h.bytes, h.pos, List.length_append, length_joinRecords,
    Nat.add_sub_cancel_left, Nat.mul_comm rs.length, Nat.mul_min_mul_left]

lemma At.freadItems (h : At f done rs) (hsize : 0 < size) : f.freadItems size n = rs.take n := by
  have hcount : f.available size n / size = (rs.take n).length := by
    rw [h.available, Nat.mul_div_cancel_left _ hsize, List.length_take]
  have hdrop : f.bytes.drop f.pos = joinRecords (rs.take n) ++ joinRecords (rs.drop n) := by
    rw [h.bytes, h.pos, List.drop_left, ← joinRecords_append, List.take_append_drop]
  rw [Stream.freadItems, hcount, hdrop, takeRecords_append]

/-- A block is changed in its place. -/
lemma At.rewriteBlock (h : At f done rs) (hsize : 0 < size) :
    At (f.rewriteBlock size n func) (done ++ joinRecords ((rs.take n).map func)) (rs.drop n) := by
  have hlen : (rs.take n).length * size = size * min n rs.length := by
    rw [List.length_take, Nat.mul_comm]
  have hsplit : f.bytes = done ++ (joinRecords (rs.take n) ++ joinRecords (rs.drop n)) := by
    rw [h.bytes, ← joinRecords_append, List.take_append_drop]
  constructor
  · simp only [Stream.rewriteBlock, fwrite, fseekBack, fread, h.freadItems hsize, h.available,
      h.pos, hlen, Nat.add_sub_cancel, length_joinRecords, List.length_map]
    rw [hsplit, List.take_left, ← List.drop_drop, List.drop_left,
      List.drop_left' (by rw [length_joinRecords, hlen]), List.append_assoc]
  · rw [(length_rewriteBlock size n func f).2, h.available, h.pos, List.length_append,
      length_joinRecords, List.length_map, hlen]

/-- **Rewriting in blocks is mapping over the records**, whatever the size of the blocks. -/
theorem rewrite_whole (hblock : 0 < size * n) (h : At f done rs) :
    (f.rewrite size n hblock func).bytes = done ++ joinRecords (rs.map func) := by
  have hsize : 0 < size := Nat.pos_of_mul_pos_right hblock
  have hn : 0 < n := Nat.pos_of_mul_pos_left hblock
  induction hk : rs.length using Nat.strong_induction_on generalizing f done rs with
  | _ k ih =>
    have hb : At (f.rewriteBlock size n func) _ _ := h.rewriteBlock hsize
    rw [rewrite]
    by_cases heof : f.feof size n
    · -- the last block holds all that is left
      have hle : rs.length ≤ n := by
        simp only [feof, decide_eq_true_eq, h.available] at heof
        have := Nat.lt_of_mul_lt_mul_left heof
        omega
      rw [dif_pos heof, hb.bytes, List.drop_of_length_le hle, List.take_of_length_le hle,
        joinRecords_nil, List.append_nil]
    · have hlt : n ≤ rs.length := by
        simp only [feof, decide_eq_true_eq, h.available, not_lt] at heof
        have := Nat.le_of_mul_le_mul_left heof hsize
        omega
      rw [dif_neg heof, ih _ (by rw [List.length_drop]; omega) hb rfl, List.append_assoc,
        ← joinRecords_append, ← List.map_append, List.take_append_drop]

lemma At.fread (h : At f done rs) :
    At (f.fread size n) (done ++ joinRecords (rs.take n)) (rs.drop n) := by
  constructor
  · rw [List.append_assoc, ← joinRecords_append, List.take_append_drop]
    exact h.bytes
  · show f.pos + f.available size n = _
    rw [h.available, h.pos, List.length_append, length_joinRecords, List.length_take, Nat.mul_comm]

/-- **Reading in blocks hands over all records**, whatever the size of the blocks. -/
theorem forEach_whole {σ : Type*} {step : σ → Raw size → σ} {s : σ} (hsize : 0 < size) (hn : 0 < n)
    (h : At f done rs) : (f.forEach size n step s).1 = rs.foldl step s := by
  induction hk : rs.length using Nat.strong_induction_on generalizing f done rs s with
  | _ k ih =>
    rw [forEach, h.available, Nat.mul_div_cancel_left _ hsize]
    by_cases hrs : rs.length = 0
    · rw [dif_pos (by rw [hrs, Nat.min_zero]), List.length_eq_zero_iff.mp hrs, List.foldl_nil]
    · rw [dif_neg (by omega), ih _ (by rw [List.length_drop]; omega) h.fread rfl,
        h.freadItems hsize, ← List.foldl_append, List.take_append_drop]

end Whole

/-! ### Files that end in a partial record -/

section Partial

variable {size n : ℕ} {func : Raw size → Raw size} {f : Stream} {done tail : Bytes}
  {rs : List (Raw size)}

/-- A file whose bytes before the position are `done` and from there on the records `rs`, and behind
them the bytes `tail`, which are less than a record. -/
structure AtPartial (f : Stream) (done : Bytes) (rs : List (Raw size)) (tail : Bytes) : Prop where
  bytes : f.bytes = done ++ (joinRecords rs ++ tail)
  pos : f.pos = done.length
  tail_lt : tail.length < size

namespace AtPartial

lemma available (h : AtPartial f done rs tail) :
    f.available size n = min (size * n) (size * rs.length + tail.length) := by
  rw [Stream.available, h.bytes, h.pos, List.length_append, List.length_append, length_joinRecords,
    Nat.add_sub_cancel_left, Nat.mul_comm rs.length]

lemma feof_iff (h : AtPartial f done rs tail) : f.feof size n ↔ rs.length < n := by
  have htail := h.tail_lt
  rw [feof, decide_eq_true_eq, h.available]
  constructor
  · intro hlt
    by_contra hge
    have : size * n ≤ size * rs.length := Nat.mul_le_mul_left _ (by omega)
    omega
  · intro hlt
    have : size * (rs.length + 1) ≤ size * n := Nat.mul_le_mul_left _ hlt
    rw [Nat.mul_succ] at this
    omega

lemma freadItems (h : AtPartial f done rs tail) : f.freadItems size n = rs.take n := by
  have hsize : 0 < size := (Nat.zero_le _).trans_lt h.tail_lt
  have hrecords : Lib.records size (f.bytes.drop f.pos) = rs := by
    have hlen : (rs.length * size + tail.length) / size = rs.length := by
      rw [Nat.add_comm, Nat.add_mul_div_right _ _ hsize, Nat.div_eq_of_lt h.tail_lt, Nat.zero_add]
    rw [h.bytes, h.pos, List.drop_left, Lib.records, List.length_append, length_joinRecords, hlen,
      takeRecords_append]
  rw [freadItems_eq f hsize, hrecords]

lemma rewriteBlock_full (h : AtPartial f done rs tail) (hfull : n ≤ rs.length) :
    AtPartial (f.rewriteBlock size n func) (done ++ joinRecords ((rs.take n).map func)) (rs.drop n)
      tail := by
  have havail : f.available size n = size * n := by
    have : size * n ≤ size * rs.length := Nat.mul_le_mul_left _ hfull
    rw [h.available]
    omega
  have hlen : (rs.take n).length * size = size * n := by
    rw [List.length_take, Nat.min_eq_left hfull, Nat.mul_comm]
  have hsplit : f.bytes =
      done ++ (joinRecords (rs.take n) ++ (joinRecords (rs.drop n) ++ tail)) := by
    rw [h.bytes, ← List.append_assoc (joinRecords (rs.take n)), ← joinRecords_append,
      List.take_append_drop]
  refine ⟨?_, ?_, h.tail_lt⟩
  · simp only [rewriteBlock, fwrite, fseekBack, fread, h.freadItems, havail, h.pos, hlen,
      Nat.add_sub_cancel, length_joinRecords, List.length_map]
    rw [hsplit, List.take_left, ← List.drop_drop, List.drop_left,
      List.drop_left' (by rw [length_joinRecords, hlen])]
  · rw [(length_rewriteBlock size n func f).2, havail, h.pos, List.length_append,
      length_joinRecords, List.length_map, hlen]

/-- The last block, with the partial record behind it, is written too late by the length of the
partial record. -/
lemma rewriteBlock_last (h : AtPartial f done rs tail) (hlast : rs.length < n) :
    (f.rewriteBlock size n func).bytes =
      done ++ ((joinRecords rs ++ tail).take tail.length ++ joinRecords (rs.map func)) := by
  have havail : f.available size n = rs.length * size + tail.length := by
    have hlt : size * (rs.length + 1) ≤ size * n := Nat.mul_le_mul_left _ hlast
    have htail := h.tail_lt
    rw [Nat.mul_succ] at hlt
    rw [h.available, Nat.mul_comm rs.length]
    omega
  have hback : done.length + (rs.length * size + tail.length) - rs.length * size =
      done.length + tail.length := by omega
  simp only [rewriteBlock, fwrite, fseekBack, fread, h.freadItems, List.take_of_length_le hlast.le,
    havail, h.pos, hback, length_joinRecords, List.length_map]
  rw [h.bytes, List.take_length_add_append, List.drop_eq_nil_of_le, List.append_nil,
    List.append_assoc]
  rw [List.length_append, List.length_append, length_joinRecords]
  omega

end AtPartial

/-- **Rewriting a file that ends in a partial record**: the full blocks are mapped, and the last one,
of `rs.length % n` records, is put behind as many of the old bytes as the partial record has. -/
theorem rewrite_partial (hblock : 0 < size * n) (h : AtPartial f done rs tail) :
    ∃ first last, rs = first ++ last ∧ last.length = rs.length % n ∧
      (f.rewrite size n hblock func).bytes = done ++ (joinRecords (first.map func) ++
        ((joinRecords last ++ tail).take tail.length ++ joinRecords (last.map func))) := by
  have hn : 0 < n := Nat.pos_of_mul_pos_left hblock
  induction hk : rs.length using Nat.strong_induction_on generalizing f done rs with
  | _ k ih =>
    subst hk
    rw [rewrite]
    by_cases heof : f.feof size n
    · have hlast := h.feof_iff.mp heof
      refine ⟨[], rs, rfl, (Nat.mod_eq_of_lt hlast).symm, ?_⟩
      rw [dif_pos heof, h.rewriteBlock_last hlast]
      rfl
    · have hfull : n ≤ rs.length := not_lt.mp fun hlt => heof (h.feof_iff.mpr hlt)
      have hb : AtPartial (f.rewriteBlock size n func) _ _ tail := h.rewriteBlock_full hfull
      obtain ⟨first, last, hrs, hlast, hbytes⟩ := ih _ (by rw [List.length_drop]; omega) hb rfl
      refine ⟨rs.take n ++ first, last, ?_, ?_, ?_⟩
      · rw [List.append_assoc, ← hrs, List.take_append_drop]
      · rw [hlast, List.length_drop, ← Nat.mod_eq_sub_mod hfull]
      · rw [dif_neg heof, hbytes, List.map_append, joinRecords_append, List.append_assoc,
          List.append_assoc]

end Partial

end Stream

end Cinst.Lib
