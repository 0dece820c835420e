import Cinst.Trace.Addr2id

/-!
The class `RecordReader` with any size of its buffer: `transform_local` reads a block of records,
changes them and writes the block back, until the end of the file.

The number of records that are read is stored in an `int`, and the way back is an unsigned product.
As long as a block has less than `2 ^ 31` records both are what they are meant to be, and the loop is
the one of `Stream.rewrite` (`transformLoop_eq`).
-/

namespace Cinst.Trace

open Cinst.Lib Cinst.Record

/-! ### The class -/

/-- A `RecordReader<T>` for records of `size` bytes: `_buffer_size` and the transformers. -/
structure RecordReader (size : ℕ) where
  bufferSize : ℕ
  transformers : List (Raw size → Raw size)

/-- A `size_t` that is stored in an `int`. -/
def toInt (n : ℕ) : ℤ := Int.bmod n (2 ^ 32)

/-- `-count * sizeof(T)`, a product of type `size_t`, as the `long` that `fseek` gets. -/
def seekOffset (count : ℤ) (size : ℕ) : ℤ := Int.bmod (-count * size) (2 ^ 64)

/-- `fseek(f, off, SEEK_CUR)`, which fails before the beginning of the file. -/
def fseekCur (f : Stream) (off : ℤ) : Stream :=
  if f.pos + off < 0 then f else { f with pos := (f.pos + off).toNat }

namespace RecordReader

variable {size : ℕ}

/-- `register_transformer`. -/
def registerTransformer (reader : RecordReader size) (func : Raw size → Raw size) :
    RecordReader size :=
  { reader with transformers := reader.transformers ++ [func] }

lemma foldl_registerTransformer (reader : RecordReader size) (funcs : List (Raw size → Raw size)) :
    funcs.foldl registerTransformer reader =
      { reader with transformers := reader.transformers ++ funcs } := by
  induction funcs generalizing reader with
  | nil => rw [List.foldl_nil, List.append_nil]
  | cons func funcs ih =>
    rw [List.foldl_cons, ih, registerTransformer, List.append_assoc, List.singleton_append]

/-- All transformers, one after the other. -/
def transform (reader : RecordReader size) (r : Raw size) : Raw size :=
  reader.transformers.foldl (fun r func => func r) r

/-- One round of `transform_local`: the flag `eof` and the file. With a negative `count` the call
`fwrite(_buffer, sizeof(T), count, f)` reads far behind the buffer, and there is no result. -/
def transformBlock (reader : RecordReader size) (f : Stream) : Option (Bool × Stream) :=
  let items := f.freadItems size reader.bufferSize
  let count := toInt items.length
  if count < 0 then none
  else
    let block := (items.take count.toNat).map reader.transform
    some (f.feof size reader.bufferSize,
      (fseekCur (f.fread size reader.bufferSize) (seekOffset count size)).fwrite (joinRecords block))

/-- The loop of `transform_local`, for at most `fuel` rounds. -/
def transformLoop (reader : RecordReader size) : ℕ → Stream → Option Stream
  | 0, _ => none
  | fuel + 1, f =>
    (reader.transformBlock f).bind fun r =>
      if r.1 then some r.2 else reader.transformLoop fuel r.2

/-- `transform_local` on a file. -/
def transformLocal (reader : RecordReader size) (fuel : ℕ) (bs : Bytes) : Option Bytes :=
  (reader.transformLoop fuel ⟨bs, 0⟩).map Stream.bytes

/-! ### One round -/

section Round

variable {reader : RecordReader size} {f : Stream}

lemma toInt_eq {n : ℕ} (h : n < 2 ^ 31) : toInt n = n := by
  unfold toInt
  rw [Int.bmod_def]
  split <;> omega

lemma toInt_lt (n : ℕ) : toInt n < 2 ^ 31 := by
  unfold toInt
  rw [Int.bmod_def]
  split <;> omega

lemma toInt_le (n : ℕ) : toInt n ≤ n := by
  unfold toInt
  rw [Int.bmod_def]
  split <;> omega

lemma seekOffset_eq {count : ℕ} (h : count * size < 2 ^ 63) :
    seekOffset count size = -((count * size : ℕ) : ℤ) := by
  rw [seekOffset, neg_mul, ← Nat.cast_mul]
  generalize count * size = k at h
  rw [Int.bmod_def]
  split <;> omega

lemma length_freadItems (f : Stream) (size n : ℕ) :
    (f.freadItems size n).length = f.available size n / size :=
  Stream.length_takeRecords ..

/-- **One round**: the records of the block, as far as `count` goes, are written as many bytes back. -/
lemma transformBlock_eq (hpos : 0 ≤ toInt (f.freadItems size reader.bufferSize).length)
    (hfile : f.bytes.length < 2 ^ 63) :
    reader.transformBlock f =
      some (f.feof size reader.bufferSize,
        ((f.fread size reader.bufferSize).fseekBack
          ((toInt (f.freadItems size reader.bufferSize).length).toNat * size)).fwrite
          (joinRecords (((f.freadItems size reader.bufferSize).take
            (toInt (f.freadItems size reader.bufferSize).length).toNat).map reader.transform))) := by
  have hle := toInt_le (f.freadItems size reader.bufferSize).length
  obtain ⟨count, hcount⟩ := Int.eq_ofNat_of_zero_le hpos
  rw [transformBlock, if_neg (not_lt.mpr hpos)]
  rw [hcount] at hle ⊢
  rw [Int.toNat_natCast]
  have hcountle : count ≤ f.available size reader.bufferSize / size := by
    rw [length_freadItems] at hle
    exact_mod_cast hle
  have hback : count * size ≤ f.available size reader.bufferSize :=
    (Nat.mul_le_mul_right _ hcountle).trans (Nat.div_mul_le_self ..)
  have havail : f.available size reader.bufferSize ≤ f.bytes.length - f.pos := Nat.min_le_right ..
  have hseek : fseekCur (f.fread size reader.bufferSize) (seekOffset count size) =
      (f.fread size reader.bufferSize).fseekBack (count * size) := by
    have hoff := @seekOffset_eq size count (by omega)
    have hge : ¬ (((f.fread size reader.bufferSize).pos : ℤ) + seekOffset count size < 0) := by
      rw [hoff]
      dsimp only [Stream.fread]
      omega
    have hpos' : (((f.fread size reader.bufferSize).pos : ℤ) + seekOffset count size).toNat =
        (f.fread size reader.bufferSize).pos - count * size := by
      rw [hoff]
      omega
    unfold fseekCur Stream.fseekBack
    rw [if_neg hge, hpos']
  rw [hseek]

lemma transformBlock_of_lt (hlt : (f.freadItems size reader.bufferSize).length < 2 ^ 31)
    (hfile : f.bytes.length < 2 ^ 63) :
    reader.transformBlock f = some (f.feof size reader.bufferSize,
      f.rewriteBlock size reader.bufferSize reader.transform) := by
  have hcount := toInt_eq hlt
  rw [transformBlock_eq (by rw [hcount]; exact Int.natCast_nonneg _) hfile, hcount,
    Int.toNat_natCast, List.take_length]
  rfl

/-- **The loop is the one of the library**, as long as no block has `2 ^ 31` records or more. -/
theorem transformLoop_eq (hblock : 0 < size * reader.bufferSize) (hfile : f.bytes.length < 2 ^ 63)
    (hint : min reader.bufferSize (f.bytes.length / size) < 2 ^ 31) :
    ∃ fuel, reader.transformLoop fuel f =
      some (f.rewrite size reader.bufferSize hblock reader.transform) := by
  have hsize : 0 < size := Nat.pos_of_mul_pos_right hblock
  induction hk : f.bytes.length - f.pos using Nat.strong_induction_on generalizing f with
  | _ k ih =>
    have hlt : (f.freadItems size reader.bufferSize).length < 2 ^ 31 := by
      refine lt_of_le_of_lt (le_min ?_ ?_) hint
      · rw [length_freadItems]
        exact Nat.div_le_of_le_mul (Nat.min_le_left ..)
      · rw [length_freadItems]
        exact Nat.div_le_div_right ((Nat.min_le_right ..).trans (Nat.sub_le ..))
    have hb := Stream.length_rewriteBlock size reader.bufferSize reader.transform f
    rw [Stream.rewrite]
    by_cases heof : f.feof size reader.bufferSize
    · refine ⟨1, ?_⟩
      rw [transformLoop, transformBlock_of_lt hlt hfile, dif_pos heof, Option.bind_some, if_pos heof]
    · have hfull : ¬ f.available size reader.bufferSize < size * reader.bufferSize := by
        simpa [Stream.feof] using heof
      have hle : f.available size reader.bufferSize ≤ f.bytes.length - f.pos := Nat.min_le_right ..
      obtain ⟨fuel, hloop⟩ := ih _ (by rw [hb.1, hb.2]; omega) (by rwa [hb.1]) (by rwa [hb.1]) rfl
      refine ⟨fuel + 1, ?_⟩
      rw [transformLoop, transformBlock_of_lt hlt hfile, dif_neg heof, Option.bind_some,
        if_neg heof, hloop]

end Round

/-! ### Blocks that do not fit in an `int` -/

section Wrap

variable {reader : RecordReader size} {f f' : Stream} {eof : Bool}

lemma take_fwrite {bs : Bytes} {k : ℕ} (hk : k ≤ f.pos) (hpos : f.pos ≤ f.bytes.length) :
    (f.fwrite bs).bytes.take k = f.bytes.take k := by
  have hlen : k ≤ (f.bytes.take f.pos).length := by
    rw [List.length_take]
    omega
  rw [Stream.fwrite, List.append_assoc, List.take_append_of_le_length hlen, List.take_take,
    Nat.min_eq_left hk]

lemma length_fwrite {bs : Bytes} (h : f.pos + bs.length ≤ f.bytes.length) :
    (f.fwrite bs).bytes.length = f.bytes.length := by
  simp only [Stream.fwrite, List.length_append, List.length_take, List.length_drop]
  omega

/-- What any round leaves: the length, the position behind the block, and the bytes before the place
to which the block is written. -/
lemma transformBlock_frame (h : reader.transformBlock f = some (eof, f'))
    (hfile : f.bytes.length < 2 ^ 63) (hpos : f.pos ≤ f.bytes.length) :
    f'.bytes.length = f.bytes.length ∧
      f'.pos = f.pos + f.available size reader.bufferSize ∧
      ∃ count : ℕ, (count : ℤ) = toInt (f.freadItems size reader.bufferSize).length ∧
        ∀ k, k + count * size ≤ f'.pos → f'.bytes.take k = f.bytes.take k := by
  have hnonneg : 0 ≤ toInt (f.freadItems size reader.bufferSize).length := by
    by_contra hneg
    rw [transformBlock, if_pos (not_le.mp hneg)] at h
    cases h
  have hle := toInt_le (f.freadItems size reader.bufferSize).length
  rw [transformBlock_eq hnonneg hfile, Option.some.injEq, Prod.mk.injEq] at h
  obtain ⟨count, hcount⟩ := Int.eq_ofNat_of_zero_le hnonneg
  obtain ⟨-, rfl⟩ := h
  rw [hcount] at hle ⊢
  rw [Int.toNat_natCast]
  have hitems : count ≤ (f.freadItems size reader.bufferSize).length := by exact_mod_cast hle
  have hback : count * size ≤ f.available size reader.bufferSize := by
    rw [length_freadItems] at hitems
    exact (Nat.mul_le_mul_right _ hitems).trans (Nat.div_mul_le_self ..)
  have havail : f.available size reader.bufferSize ≤ f.bytes.length - f.pos := Nat.min_le_right ..
  have hblock : (joinRecords (((f.freadItems size reader.bufferSize).take count).map
      reader.transform)).length = count * size := by
    rw [length_joinRecords, List.length_map, List.length_take, Nat.min_eq_left hitems]
  have hseek : ((f.fread size reader.bufferSize).fseekBack (count * size)).pos + count * size =
      f.pos + f.available size reader.bufferSize := by
    dsimp only [Stream.fread, Stream.fseekBack]
    omega
  refine ⟨?_, ?_, count, rfl, fun k hk => ?_⟩
  · refine length_fwrite ?_
    rw [hblock, hseek]
    show f.pos + f.available size reader.bufferSize ≤ f.bytes.length
    omega
  · rw [← hseek, ← hblock]
    rfl
  · rw [Stream.fwrite, hblock, hseek] at hk
    dsimp only at hk
    refine take_fwrite (by omega) ?_
    show _ ≤ f.bytes.length
    omega

lemma take_transformLoop {fuel : ℕ} (h : reader.transformLoop fuel f = some f')
    (hfile : f.bytes.length < 2 ^ 63) (hpos : f.pos ≤ f.bytes.length) {k : ℕ} (hk : k ≤ f.pos) :
    f'.bytes.take k = f.bytes.take k := by
  induction fuel generalizing f with
  | zero => cases h
  | succ fuel ih =>
    obtain ⟨⟨eof, g⟩, hblock, hrest⟩ := Option.bind_eq_some_iff.mp h
    obtain ⟨hlen, hgpos, count, hcount, htake⟩ := transformBlock_frame hblock hfile hpos
    have havail : f.available size reader.bufferSize ≤ f.bytes.length - f.pos := Nat.min_le_right ..
    have hcountle : count * size ≤ f.available size reader.bufferSize := by
      have hle := toInt_le (f.freadItems size reader.bufferSize).length
      rw [← hcount, length_freadItems] at hle
      exact (Nat.mul_le_mul_right _ (by exact_mod_cast hle)).trans (Nat.div_mul_le_self ..)
    have hg : g.bytes.take k = f.bytes.take k := htake k (by omega)
    dsimp only at hrest
    split at hrest
    · cases hrest
      exact hg
    · rw [ih hrest (by rwa [hlen]) (by omega) (by omega), hg]

/-- **A block of `2 ^ 31` records or more**: its first record is not changed. -/
lemma take_transformLoop_wrap {fuel : ℕ} (h : reader.transformLoop fuel f = some f')
    (hfile : f.bytes.length < 2 ^ 63) (hpos : f.pos ≤ f.bytes.length)
    (hwrap : 2 ^ 31 ≤ (f.freadItems size reader.bufferSize).length) :
    f'.bytes.take (f.pos + size) = f.bytes.take (f.pos + size) := by
  cases fuel with
  | zero => cases h
  | succ fuel =>
    obtain ⟨⟨eof, g⟩, hblock, hrest⟩ := Option.bind_eq_some_iff.mp h
    obtain ⟨hlen, hgpos, count, hcount, htake⟩ := transformBlock_frame hblock hfile hpos
    have havail : f.available size reader.bufferSize ≤ f.bytes.length - f.pos := Nat.min_le_right ..
    have hcountlt : (count + 1) * size ≤ f.available size reader.bufferSize := by
      have hlt := toInt_lt (f.freadItems size reader.bufferSize).length
      rw [← hcount] at hlt
      rw [length_freadItems] at hwrap
      exact (Nat.mul_le_mul_right _ (by omega)).trans (Nat.div_mul_le_self ..)
    rw [Nat.succ_mul] at hcountlt
    have hg : g.bytes.take (f.pos + size) = f.bytes.take (f.pos + size) := htake _ (by omega)
    dsimp only at hrest
    split at hrest
    · cases hrest
      exact hg
    · rw [take_transformLoop hrest (by rwa [hlen]) (by omega) (by omega), hg]

end Wrap

/-! ### Whole records, and a partial one at the end -/

section Files

variable {reader : RecordReader size} {rs : List (Raw size)} {bs tail : Bytes}

/-- `transform_local` ends, and the file has the same length and its records, each with all
transformers applied once. -/
def Maps (reader : RecordReader size) (bs : Bytes) : Prop :=
  ∃ fuel bs', reader.transformLocal fuel bs = some bs' ∧ bs'.length = bs.length ∧
    bs' = joinRecords ((Lib.records size bs).map reader.transform)

/-- `transform_local` ends, and leaves the whole records transformed in their places and the bytes
behind them as they are. -/
def Intact (reader : RecordReader size) (rs : List (Raw size)) (tail : Bytes) : Prop :=
  ∃ fuel, reader.transformLocal fuel (joinRecords rs ++ tail) =
    some (joinRecords (rs.map reader.transform) ++ tail)

/-- The records of the last block, when it is not full. -/
def lastBlock (bufferSize : ℕ) (rs : List (Raw size)) : List (Raw size) :=
  rs.drop (rs.length - rs.length % bufferSize)

/-- The last block is the same behind as many of its old bytes as the partial record has, as in front
of the partial record. -/
def Shifts (reader : RecordReader size) (rs : List (Raw size)) (tail : Bytes) : Prop :=
  let last := lastBlock reader.bufferSize rs
  (joinRecords last ++ tail).take tail.length ++ joinRecords (last.map reader.transform) =
    joinRecords (last.map reader.transform) ++ tail

lemma transformLocal_unique {fuel fuel' : ℕ} {bs₁ bs₂ : Bytes}
    (h : reader.transformLocal fuel bs = some bs₁) (h' : reader.transformLocal fuel' bs = some bs₂) :
    bs₁ = bs₂ := by
  have hmono : ∀ {m k : ℕ} {f g : Stream}, reader.transformLoop m f = some g →
      reader.transformLoop (m + k) f = some g := by
    intro m
    induction m with
    | zero => exact fun hg => by cases hg
    | succ m ih =>
      intro k f g hg
      obtain ⟨r, hblock, hrest⟩ := Option.bind_eq_some_iff.mp hg
      rw [Nat.succ_add, transformLoop, hblock, Option.bind_some]
      split at hrest
      · rename_i heof
        rw [if_pos heof]
        exact hrest
      · rename_i heof
        rw [if_neg heof]
        exact ih hrest
  obtain ⟨g, hg, rfl⟩ := Option.map_eq_some_iff.mp h
  obtain ⟨g', hg', rfl⟩ := Option.map_eq_some_iff.mp h'
  have hboth := (hmono (k := fuel') hg).symm.trans (Nat.add_comm fuel fuel' ▸ hmono (k := fuel) hg')
  rw [Option.some.inj hboth]

lemma atPartial_start (htail : tail.length < size) :
    Stream.AtPartial ⟨joinRecords rs ++ tail, 0⟩ [] rs tail :=
  ⟨rfl, rfl, htail⟩

lemma length_div (htail : tail.length < size) :
    (joinRecords rs ++ tail).length / size = rs.length := by
  have hsize : 0 < size := (Nat.zero_le _).trans_lt htail
  rw [List.length_append, length_joinRecords, Nat.add_comm, Nat.add_mul_div_right _ _ hsize,
    Nat.div_eq_of_lt htail, Nat.zero_add]

lemma transformLocal_partial (hbuf : 0 < reader.bufferSize) (htail : tail.length < size)
    (hfile : (joinRecords rs ++ tail).length < 2 ^ 63)
    (hint : min reader.bufferSize rs.length < 2 ^ 31) :
    ∃ fuel first, rs = first ++ lastBlock reader.bufferSize rs ∧
      reader.transformLocal fuel (joinRecords rs ++ tail) =
        some (joinRecords (first.map reader.transform) ++
          ((joinRecords (lastBlock reader.bufferSize rs) ++ tail).take tail.length ++
            joinRecords ((lastBlock reader.bufferSize rs).map reader.transform))) := by
  have hblock : 0 < size * reader.bufferSize :=
    Nat.mul_pos ((Nat.zero_le _).trans_lt htail) hbuf
  obtain ⟨fuel, hloop⟩ := @transformLoop_eq size reader ⟨joinRecords rs ++ tail, 0⟩ hblock hfile
    (by rwa [length_div htail])
  obtain ⟨first, last, hrs, hlast, hbytes⟩ :=
    @Stream.rewrite_partial size reader.bufferSize reader.transform _ _ _ _ hblock
      (atPartial_start htail)
  have hlastBlock : lastBlock reader.bufferSize rs = last := by
    have hlen : rs.length - rs.length % reader.bufferSize = first.length := by
      rw [← hlast]
      rw [hrs, List.length_append]
      omega
    rw [lastBlock, hlen, hrs, List.drop_left]
  refine ⟨fuel, first, by rw [hlastBlock, hrs], ?_⟩
  rw [transformLocal, hloop, Option.map_some, hbytes, hlastBlock, List.nil_append]

/-- **A file with a partial record at its end**, when no block has `2 ^ 31` records. -/
lemma intact_iff_shifts (hbuf : 0 < reader.bufferSize) (htail : tail.length < size)
    (hfile : (joinRecords rs ++ tail).length < 2 ^ 63)
    (hint : min reader.bufferSize rs.length < 2 ^ 31) :
    reader.Intact rs tail ↔ reader.Shifts rs tail := by
  obtain ⟨fuel, first, hrs, hlocal⟩ := transformLocal_partial hbuf htail hfile hint
  have hmap : joinRecords (rs.map reader.transform) ++ tail =
      joinRecords (first.map reader.transform) ++
        (joinRecords ((lastBlock reader.bufferSize rs).map reader.transform) ++ tail) := by
    rw [← List.append_assoc, ← joinRecords_append, ← List.map_append, ← hrs]
  constructor
  · rintro ⟨fuel', hlocal'⟩
    have heq := transformLocal_unique hlocal hlocal'
    rw [hmap] at heq
    exact List.append_cancel_left heq
  · intro hshifts
    refine ⟨fuel, ?_⟩
    rw [hlocal, hmap, hshifts]

/-- The first record stays as it is when the first block has `2 ^ 31` records or more. -/
lemma transformLocal_wrap {fuel : ℕ} {bs' : Bytes} (htail : tail.length < size)
    (hfile : (joinRecords rs ++ tail).length < 2 ^ 63)
    (hwrap : 2 ^ 31 ≤ min reader.bufferSize rs.length)
    (h : reader.transformLocal fuel (joinRecords rs ++ tail) = some bs') :
    bs'.take size = (joinRecords rs ++ tail).take size := by
  obtain ⟨g, hg, rfl⟩ := Option.map_eq_some_iff.mp h
  have htake := take_transformLoop_wrap hg hfile (Nat.zero_le _) (by
    rw [(atPartial_start htail).freadItems, List.length_take]
    exact hwrap)
  rwa [Nat.zero_add] at htake

end Files

/-! ### When the file comes out right -/

section Iff

variable {bufferSize n p : ℕ} {tail : Bytes}

/-- A record that consists of the byte `b`. -/
def fill (size : ℕ) (b : UInt8) : Raw size := ⟨List.replicate size b, List.length_replicate⟩

lemma fill_ne (hsize : 0 < size) : (fill size 0).bytes ≠ (fill size 1).bytes := by
  intro h
  have := (List.replicate_inj.mp h).2.resolve_left (by omega)
  exact absurd this (by decide)

lemma take_replicate (hn : 0 < n) (r : Raw size) (bs : Bytes) :
    (joinRecords (List.replicate n r) ++ bs).take size = r.bytes := by
  obtain ⟨m, rfl⟩ := Nat.exists_eq_succ_of_ne_zero hn.ne'
  rw [List.replicate_succ, joinRecords_cons, List.append_assoc, List.take_left' r.length_eq]

/-- A file of zeros whose records are to be filled with ones. -/
def filler (size bufferSize : ℕ) : RecordReader size := ⟨bufferSize, [fun _ => fill size 1]⟩

lemma map_filler (n : ℕ) :
    (List.replicate n (fill size 0)).map (filler size bufferSize).transform =
      List.replicate n (fill size 1) := by
  rw [List.map_replicate]
  rfl

lemma filler_wrap (htail : tail.length < size) (hfile : n * size + tail.length < 2 ^ 63)
    (hwrap : 2 ^ 31 ≤ min bufferSize n) (fuel : ℕ) :
    (filler size bufferSize).transformLocal fuel (joinRecords (List.replicate n (fill size 0)) ++ tail)
      ≠ some (joinRecords (List.replicate n (fill size 1)) ++ tail) := by
  have hsize : 0 < size := (Nat.zero_le _).trans_lt htail
  have hn : 0 < n := by omega
  intro h
  have htake := transformLocal_wrap htail
    (by rwa [List.length_append, length_joinRecords, List.length_replicate])
    (by rwa [List.length_replicate]) h
  rw [take_replicate hn, take_replicate hn] at htake
  exact fill_ne hsize htake.symm

/-- **`transform_local` maps over the records of every file of `n` records** exactly when the records
of a block can be counted in an `int`. -/
theorem maps_iff (size bufferSize n : ℕ) (hsize : 0 < size) (hbuf : 0 < bufferSize)
    (hfile : n * size < 2 ^ 63) :
    (∀ (transformers : List (Raw size → Raw size)) (bs : Bytes), bs.length = n * size →
        (⟨bufferSize, transformers⟩ : RecordReader size).Maps bs) ↔
      min bufferSize n < 2 ^ 31 := by
  constructor
  · intro h
    by_contra hwrap
    have hlen : (joinRecords (List.replicate n (fill size 0))).length = n * size := by
      rw [length_joinRecords, List.length_replicate]
    obtain ⟨fuel, bs', hlocal, -, hbs'⟩ := h [fun _ => fill size 1] _ hlen
    rw [records_joinRecords hsize] at hbs'
    have hne := @filler_wrap size bufferSize n [] hsize hfile (not_lt.mp hwrap) fuel
    rw [List.append_nil, List.append_nil] at hne
    refine hne (hlocal.trans (congrArg some (hbs'.trans ?_)))
    exact congrArg joinRecords (map_filler n)
  · intro hint transformers bs hlen
    have hjoin : joinRecords (Lib.records size bs) = bs :=
      joinRecords_records (hlen ▸ Nat.dvd_mul_left size n)
    have hcount : (Lib.records size bs).length = n := by
      rw [Lib.records, Stream.length_takeRecords, hlen, Nat.mul_div_cancel _ hsize]
    have hlength : (joinRecords (Lib.records size bs) ++ []).length < 2 ^ 63 := by
      rw [List.append_nil, hjoin, hlen]
      exact hfile
    obtain ⟨fuel, hlocal⟩ := (@intact_iff_shifts size ⟨bufferSize, transformers⟩ _ [] hbuf hsize
      hlength (by rwa [hcount])).mpr (by simp [Shifts])
    rw [List.append_nil, List.append_nil, hjoin] at hlocal
    refine ⟨fuel, _, hlocal, ?_, rfl⟩
    rw [length_joinRecords, List.length_map, hcount, hlen]

/-- Seven records of two bytes in blocks of three, of which the bytes are swapped. -/
theorem maps_iff_seven :
    (⟨3, [fun r => ⟨r.bytes.reverse, by rw [List.length_reverse, r.length_eq]⟩]⟩ :
      RecordReader 2).Maps [1, 2, 3, 4, 5, 6, 7, 8, 9, 10, 11, 12, 13, 14] :=
  (maps_iff 2 3 7 (by decide) (by decide) (by decide)).mpr (by decide) _ _ rfl

/-- `2 ^ 32` records of one byte in a single block: `count` is `0`. -/
theorem not_maps_wrap :
    ¬ (filler 1 (2 ^ 32)).Maps (joinRecords (List.replicate (2 ^ 32) (fill 1 0))) := by
  rintro ⟨fuel, bs', hlocal, -, hbs'⟩
  have hne := @filler_wrap 1 (2 ^ 32) (2 ^ 32) [] Nat.one_pos
    (by rw [Nat.mul_one, List.length_nil]; norm_num) (by rw [Nat.min_self]; norm_num) fuel
  rw [List.append_nil, List.append_nil] at hne
  rw [records_joinRecords Nat.one_pos, map_filler] at hbs'
  exact hne (hlocal.trans (congrArg some hbs'))

/-! ### A partial record -/

lemma lastBlock_replicate (bufferSize n : ℕ) (r : Raw size) :
    lastBlock bufferSize (List.replicate n r) = List.replicate (n % bufferSize) r := by
  have hle : n % bufferSize ≤ n := Nat.mod_le ..
  rw [lastBlock, List.length_replicate, List.drop_replicate]
  congr 1
  omega

/-- The last block begins with a byte of the old record, not of the new one. -/
lemma not_shifts_filler (hsize : 0 < size) (hrest : n % bufferSize ≠ 0) (htail : 0 < tail.length) :
    ¬ (filler size bufferSize).Shifts (List.replicate n (fill size 0)) tail := by
  intro h
  have hblock : lastBlock (filler size bufferSize).bufferSize (List.replicate n (fill size 0)) =
      List.replicate (n % bufferSize) (fill size 0) := lastBlock_replicate ..
  rw [Shifts, hblock, map_filler] at h
  obtain ⟨m, hm⟩ := Nat.exists_eq_succ_of_ne_zero hrest
  obtain ⟨k, hk⟩ := Nat.exists_eq_succ_of_ne_zero htail.ne'
  obtain ⟨l, rfl⟩ := Nat.exists_eq_succ_of_ne_zero hsize.ne'
  rw [hm, hk, List.replicate_succ, List.replicate_succ, joinRecords_cons, joinRecords_cons] at h
  simp only [fill, List.replicate_succ, List.cons_append, List.take_succ_cons] at h
  exact absurd (List.cons.inj h).1 (by decide)

lemma shifts_of_dvd {reader : RecordReader size} {rs : List (Raw size)}
    (h : reader.bufferSize ∣ rs.length) : reader.Shifts rs tail := by
  have hnil : lastBlock reader.bufferSize rs = [] := by
    rw [lastBlock, Nat.mod_eq_zero_of_dvd h, Nat.sub_zero, List.drop_length]
  rw [Shifts, hnil]
  simp

/-- **A partial record of `p` bytes behind `n` records** leaves every file as it should be exactly
when there is no record in its block (and the records of a block can be counted in an `int`). In a
given file with records in this block they are written `p` bytes too late, and the file comes out
right only when these are the same bytes. -/
theorem intact_iff (size bufferSize n p : ℕ) (hbuf : 0 < bufferSize) (hp : 0 < p) (hlt : p < size)
    (hfile : n * size + p < 2 ^ 63) :
    ((∀ (transformers : List (Raw size → Raw size)) (rs : List (Raw size)) (tail : Bytes),
        rs.length = n → tail.length = p →
          (⟨bufferSize, transformers⟩ : RecordReader size).Intact rs tail) ↔
      bufferSize ∣ n ∧ min bufferSize n < 2 ^ 31) ∧
    (min bufferSize n < 2 ^ 31 →
      ∀ (transformers : List (Raw size → Raw size)) (rs : List (Raw size)) (tail : Bytes),
        rs.length = n → tail.length = p →
          ((⟨bufferSize, transformers⟩ : RecordReader size).Intact rs tail ↔
            bufferSize ∣ n ∨ (⟨bufferSize, transformers⟩ : RecordReader size).Shifts rs tail)) := by
  have hinput : min bufferSize n < 2 ^ 31 →
      ∀ (transformers : List (Raw size → Raw size)) (rs : List (Raw size)) (tail : Bytes),
        rs.length = n → tail.length = p →
          ((⟨bufferSize, transformers⟩ : RecordReader size).Intact rs tail ↔
            bufferSize ∣ n ∨ (⟨bufferSize, transformers⟩ : RecordReader size).Shifts rs tail) := by
    intro hint transformers rs tail hn htail
    have hfile' : (joinRecords rs ++ tail).length < 2 ^ 63 := by
      rw [List.length_append, length_joinRecords, hn, htail]
      exact hfile
    have hiff := @intact_iff_shifts size ⟨bufferSize, transformers⟩ rs tail hbuf (htail ▸ hlt) hfile'
      (by rwa [hn])
    rw [hiff]
    refine ⟨Or.inr, ?_⟩
    rintro (hdvd | hshifts)
    · exact shifts_of_dvd (hn ▸ hdvd)
    · exact hshifts
  refine ⟨⟨?_, ?_⟩, hinput⟩
  · intro h
    have hzeros := h [fun _ => fill size 1] (List.replicate n (fill size 0)) (List.replicate p 0)
      List.length_replicate List.length_replicate
    have hint : min bufferSize n < 2 ^ 31 := by
      by_contra hwrap
      obtain ⟨fuel, hlocal⟩ := hzeros
      refine @filler_wrap size bufferSize n (List.replicate p 0) ?_ ?_ (not_lt.mp hwrap) fuel ?_
      · rwa [List.length_replicate]
      · rwa [List.length_replicate]
      · refine hlocal.trans ?_
        exact congrArg (fun rs => some (joinRecords rs ++ List.replicate p 0)) (map_filler n)
    refine ⟨?_, hint⟩
    by_contra hdvd
    have hshifts := ((hinput hint _ _ _ List.length_replicate List.length_replicate).mp
      hzeros).resolve_left hdvd
    refine not_shifts_filler (hp.trans hlt) (fun h0 => hdvd (Nat.dvd_of_mod_eq_zero h0)) ?_ hshifts
    rwa [List.length_replicate]
  · rintro ⟨hdvd, hint⟩ transformers rs tail hn htail
    exact (hinput hint transformers rs tail hn htail).mpr (Or.inl hdvd)

/-- Four records of two bytes in blocks of two, and a byte behind them. -/
theorem intact_iff_four :
    (⟨2, [fun _ => ⟨[7, 7], rfl⟩]⟩ : RecordReader 2).Intact
      (List.replicate 4 ⟨[1, 2], rfl⟩) [9] :=
  ((intact_iff 2 2 4 1 (by decide) (by decide) (by decide) (by decide)).1.mpr (by decide)) _ _ _ rfl
    rfl

/-- One record of two bytes, which is to be set to `7, 7`, and a byte behind it: the file `1, 2, 9`
becomes `1, 7, 7`. -/
theorem not_intact_one :
    ¬ (⟨4, [fun _ => ⟨[7, 7], rfl⟩]⟩ : RecordReader 2).Intact [⟨[1, 2], rfl⟩] [9] := by
  rintro ⟨fuel, h⟩
  cases fuel with
  | zero => cases h
  | succ fuel =>
    have hfile : (⟨4, [fun _ => ⟨[7, 7], rfl⟩]⟩ : RecordReader 2).transformLocal (fuel + 1)
        (joinRecords [⟨[1, 2], rfl⟩] ++ [9]) = some [1, 7, 7] := rfl
    rw [hfile] at h
    exact absurd h (by decide)

end Iff

end RecordReader

/-- **The reader that `addr2id` makes for a file**, with the size of its buffer left to the default
and the transformers registered one by one, does what the passes do to the file. -/
theorem transformLocal_default (k : Kind) (transformers : List (Raw k.size → Raw k.size))
    {bs : Bytes} (hfile : bs.length < 2 ^ 63) :
    ∃ fuel, (transformers.foldl RecordReader.registerTransformer ⟨bufferSize, []⟩).transformLocal
      fuel bs = some (transformLocal k transformers bs) := by
  have hblock : 0 < k.size * bufferSize := Nat.mul_pos (Kind.size_pos k) (by decide)
  have hint : min bufferSize (bs.length / k.size) < 2 ^ 31 :=
    (Nat.min_le_left ..).trans_lt (by decide)
  obtain ⟨fuel, hloop⟩ := @RecordReader.transformLoop_eq k.size ⟨bufferSize, transformers⟩ ⟨bs, 0⟩
    hblock hfile hint
  refine ⟨fuel, ?_⟩
  rw [RecordReader.foldl_registerTransformer, List.nil_append, RecordReader.transformLocal, hloop]
  rfl

end Cinst.Trace
