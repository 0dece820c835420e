import Mathlib
import Cinst.Lib.Stream

/-!
Texts as bytes: numbers in decimal, the lines of a file, and the encoding of strings of 16-bit
characters that the JVM hands out (modified UTF-8: every character by itself, and the character 0
as two bytes).
-/

namespace Cinst.Lib

lemma toNat_ofNat_byte {n : ℕ} (h : n < 256) : (UInt8.ofNat n).toNat = n :=
  UInt8.toNat_ofNat_of_lt' h

/-! ### Decimal numbers -/

/-- A number in decimal, as ASCII characters. -/
def decimal (i : ℤ) : Bytes := (toString i).toList.map fun c => UInt8.ofNat c.toNat

lemma mem_toList_toString {i : ℤ} {c : Char} (h : c ∈ (toString i).toList) :
    c.isDigit ∨ c = '-' := by
  have hnat : ∀ {n : ℕ}, c ∈ n.repr.toList → c.isDigit := by
    intro n hn
    rw [← Nat.toString_eq_repr, Nat.toString_eq_ofList_toDigits, String.toList_ofList] at hn
    exact Nat.isDigit_of_mem_toDigits (by norm_num) (by norm_num) hn
  rw [Int.toString_eq_repr, Int.repr_eq_if] at h
  split at h
  · exact Or.inl (hnat h)
  · rw [String.toList_append, List.mem_append] at h
    rcases h with h | h
    · exact Or.inr (by simpa using h)
    · exact Or.inl (hnat h)

lemma toNat_lt_of_mem_toString {i : ℤ} {c : Char} (h : c ∈ (toString i).toList) :
    c.toNat < 58 ∧ c.toNat ≠ 44 ∧ c.toNat ≠ 10 := by
  rcases mem_toList_toString h with hd | rfl
  · simp only [Char.isDigit, Bool.and_eq_true, decide_eq_true_eq, UInt32.le_iff_toNat_le] at hd
    have h0 : (48 : ℕ) ≤ c.toNat := hd.1
    have h9 : c.toNat ≤ 57 := hd.2
    omega
  · decide

lemma decimal_injective : Function.Injective decimal := by
  intro i j h
  have hdecode : ∀ i : ℤ, (decimal i).map (fun b => Char.ofNat b.toNat) = (toString i).toList := by
    intro i
    rw [decimal, List.map_map]
    conv_rhs => rw [← List.map_id (toString i).toList]
    refine List.map_congr_left fun c hc => ?_
    have := (toNat_lt_of_mem_toString hc).1
    rw [Function.comp_apply, toNat_ofNat_byte (by omega), Char.ofNat_toNat, id]
  apply Int.repr_injective
  apply String.toList_injective
  rw [← Int.toString_eq_repr, ← Int.toString_eq_repr, ← hdecode, ← hdecode, h]

lemma notMem_decimal {b : UInt8} (hb : b = 44 ∨ b = 10) (i : ℤ) : b ∉ decimal i := by
  intro h
  obtain ⟨c, hc, rfl⟩ := List.mem_map.mp h
  obtain ⟨hlt, h44, h10⟩ := toNat_lt_of_mem_toString hc
  have hval : (UInt8.ofNat c.toNat).toNat = c.toNat := toNat_ofNat_byte (by omega)
  rcases hb with hb | hb
  · exact h44 (by rw [← hval, hb]; rfl)
  · exact h10 (by rw [← hval, hb]; rfl)

/-! ### Words that end at a separator -/

lemma append_cons_inj_of_notMem {α : Type*} {x : α} {l l' r r' : List α} (hl : x ∉ l)
    (hl' : x ∉ l') (h : l ++ x :: r = l' ++ x :: r') : l = l' ∧ r = r' := by
  rcases List.append_eq_append_iff.mp h with ⟨m, rfl, hm⟩ | ⟨m, rfl, hm⟩
  · cases m with
    | nil => exact ⟨(List.append_nil l).symm, (List.cons.inj hm).2⟩
    | cons y m => exact absurd (by simp [(List.cons.inj hm).1]) hl'
  · cases m with
    | nil => exact ⟨List.append_nil l', (List.cons.inj hm).2.symm⟩
    | cons y m => exact absurd (by simp [(List.cons.inj hm).1]) hl

/-! ### Lines -/

/-- The lines of a file; what is behind the last newline counts as a line. -/
def fileLines (bs : Bytes) : List Bytes := bs.splitOn 10

lemma fileLines_flatten {ls : List Bytes} (h : ∀ l ∈ ls, (10 : UInt8) ∉ l) :
    fileLines (ls.map (· ++ [10])).flatten = ls ++ [[]] := by
  induction ls with
  | nil => rfl
  | cons l ls ih =>
    have hrest := ih fun l' hl' => h l' (List.mem_cons_of_mem _ hl')
    rw [List.map_cons, List.flatten_cons, List.append_assoc, List.singleton_append, fileLines,
      List.splitOn_append_cons_self_of_not_mem (h l (List.mem_cons_self ..)), List.cons_append,
      ← hrest, fileLines]

/-! ### Modified UTF-8 -/

/-- The bytes of a 16-bit character. -/
def utfUnit (c : UInt16) : Bytes :=
  let n := c.toNat
  if 0 < n ∧ n < 0x80 then [UInt8.ofNat n]
  else if n < 0x800 then [UInt8.ofNat (0xC0 + n / 64), UInt8.ofNat (0x80 + n % 64)]
  else [UInt8.ofNat (0xE0 + n / 4096), UInt8.ofNat (0x80 + n / 64 % 64),
    UInt8.ofNat (0x80 + n % 64)]

/-- The bytes of a string of 16-bit characters. -/
def modifiedUtf8 (s : List UInt16) : Bytes := s.flatMap utfUnit

/-- Characters are told apart by their bytes, whatever follows. -/
lemma utfUnit_append_inj {c c' : UInt16} {l l' : Bytes} (h : utfUnit c ++ l = utfUnit c' ++ l') :
    c = c' ∧ l = l' := by
  have hc := c.toNat_lt
  have hc' := c'.toNat_lt
  rw [← UInt16.toNat_inj]
  simp only [utfUnit] at h
  split_ifs at h <;>
    simp only [List.cons_append, List.nil_append, List.cons.injEq, ← UInt8.toNat_inj] at h <;>
    simp (disch := omega) only [toNat_ofNat_byte] at h
  · exact h
  · omega
  · omega
  · omega
  · exact ⟨by omega, h.2.2⟩
  · omega
  · omega
  · omega
  · exact ⟨by omega, h.2.2.2⟩

lemma modifiedUtf8_injective : Function.Injective modifiedUtf8 := by
  intro s s' h
  have hne : ∀ c, utfUnit c ≠ [] := by
    intro c
    simp only [utfUnit]
    split_ifs <;> simp
  induction s generalizing s' with
  | nil =>
    cases s' with
    | nil => rfl
    | cons c' s' => exact absurd (List.append_eq_nil_iff.mp h.symm).1 (hne c')
  | cons c s ih =>
    cases s' with
    | nil => exact absurd (List.append_eq_nil_iff.mp h).1 (hne c)
    | cons c' s' =>
      obtain ⟨rfl, hrest⟩ := utfUnit_append_inj h
      rw [ih hrest]

/-- The newline is encoded by itself, and no other character has its byte. -/
lemma newline_mem_modifiedUtf8 {s : List UInt16} : (10 : UInt8) ∈ modifiedUtf8 s ↔ 10 ∈ s := by
  have hunit : ∀ c : UInt16, (10 : UInt8) ∈ utfUnit c ↔ c = 10 := by
    intro c
    have hc := c.toNat_lt
    simp only [utfUnit, ← UInt16.toNat_inj]
    split_ifs <;>
      simp only [List.mem_cons, List.not_mem_nil, or_false, ← UInt8.toNat_inj] <;>
      simp (disch := omega) only [toNat_ofNat_byte, UInt8.reduceToNat, UInt16.reduceToNat] <;> omega
  simp [modifiedUtf8, hunit]

end Cinst.Lib
