import Mathlib.Data.Nat.Digits.Lemmas
import Mathlib.Tactic

/-!
Machine words in memory: the order of `UInt64`, unsigned words of `n` bytes, little endian, read
from and written to a list of bytes (`getLE`, `setLE`), and where the members of a C struct lie.

A word that is written is read back (`getLE_setLE`), and a read at a place that the write does not
touch is not changed by it (`getLE_setLE_of_disjoint`).
-/

namespace Cinst.Lib

instance instLinearOrderUInt64 : LinearOrder UInt64 where
  le_refl := UInt64.le_refl
  le_trans _ _ _ := UInt64.le_trans
  le_antisymm _ _ := UInt64.le_antisymm
  le_total := UInt64.le_total
  lt_iff_le_not_ge a b := by
    rw [UInt64.not_le]
    exact ⟨fun h => ⟨UInt64.le_of_lt h, h⟩, fun h => h.2⟩
  toDecidableLE := inferInstance
  toDecidableLT := inferInstance
  toDecidableEq := inferInstance
  compare_eq_compareOfLessAndEq _ _ := rfl

lemma add_ofNat_succ (c : UInt32) (i : ℕ) :
    c + UInt32.ofNat (i + 1) = c + 1 + UInt32.ofNat i := by
  rw [UInt32.ofNat_add, UInt32.add_comm (UInt32.ofNat i), ← UInt32.add_assoc]
  rfl

/-! ### Words as bytes -/

/-- The value of a little-endian word. -/
def leVal (bs : List UInt8) : ℕ := Nat.ofDigits 256 (bs.map UInt8.toNat)

/-- The `n` bytes of the word `v`, the lowest first. -/
def leBytes : ℕ → ℕ → List UInt8
  | 0, _ => []
  | n + 1, v => UInt8.ofNat v :: leBytes n (v / 256)

@[simp] lemma leVal_nil : leVal [] = 0 := rfl

@[simp] lemma leVal_cons (b : UInt8) (bs : List UInt8) :
    leVal (b :: bs) = b.toNat + 256 * leVal bs := by
  simp [leVal, Nat.ofDigits_cons]

@[simp] lemma length_leBytes (n v : ℕ) : (leBytes n v).length = n := by
  induction n generalizing v with
  | zero => rfl
  | succ n ih => simp [leBytes, ih]

lemma leVal_lt (bs : List UInt8) : leVal bs < 256 ^ bs.length := by
  have h : ∀ d ∈ bs.map UInt8.toNat, d < 256 := by
    intro d hd
    obtain ⟨b, -, rfl⟩ := List.mem_map.mp hd
    exact b.toNat_lt
  simpa [leVal] using Nat.ofDigits_lt_base_pow_length (b := 256) (by norm_num) h

lemma leVal_eq_zero_iff (bs : List UInt8) : leVal bs = 0 ↔ ∀ b ∈ bs, b = 0 := by
  induction bs with
  | nil => simp
  | cons b bs ih =>
    rw [leVal_cons, List.forall_mem_cons, ← ih, ← UInt8.toNat_inj, UInt8.toNat_zero]
    omega

lemma leVal_leBytes {n v : ℕ} (h : v < 256 ^ n) : leVal (leBytes n v) = v := by
  induction n generalizing v with
  | zero => simp at h; simp [leBytes, h]
  | succ n ih =>
    have hdiv : v / 256 < 256 ^ n := Nat.div_lt_of_lt_mul (by rw [← pow_succ']; exact h)
    rw [leBytes, leVal_cons, ih hdiv, UInt8.toNat_ofNat']
    exact Nat.mod_add_div v 256

lemma leBytes_leVal (bs : List UInt8) : leBytes bs.length (leVal bs) = bs := by
  induction bs with
  | nil => rfl
  | cons b bs ih =>
    have hb := b.toNat_lt
    have hlow : UInt8.ofNat (b.toNat + 256 * leVal bs) = b := by
      apply UInt8.toNat_inj.mp
      rw [UInt8.toNat_ofNat']
      omega
    have hhigh : (b.toNat + 256 * leVal bs) / 256 = leVal bs := by omega
    rw [List.length_cons, leBytes, leVal_cons, hlow, hhigh, ih]

/-! ### Words in memory -/

/-- The word of `n` bytes at the offset `off`. -/
def getLE (off n : ℕ) (bs : List UInt8) : ℕ := leVal ((bs.drop off).take n)

/-- The memory with the word of `n` bytes at the offset `off` overwritten by `v`. -/
def setLE (off n v : ℕ) (bs : List UInt8) : List UInt8 :=
  bs.take off ++ leBytes n v ++ bs.drop (off + n)

lemma length_setLE {off n : ℕ} (v : ℕ) {bs : List UInt8} (h : off + n ≤ bs.length) :
    (setLE off n v bs).length = bs.length := by
  simp only [setLE, List.length_append, List.length_take, length_leBytes, List.length_drop]
  omega

lemma getLE_lt (off n : ℕ) (bs : List UInt8) : getLE off n bs < 256 ^ n :=
  (leVal_lt _).trans_le (Nat.pow_le_pow_right (by norm_num) (by simp))

lemma getElem?_setLE {off n i : ℕ} (v : ℕ) {bs : List UInt8} (h : off + n ≤ bs.length)
    (hi : i < off ∨ off + n ≤ i) : (setLE off n v bs)[i]? = bs[i]? := by
  have htake : (bs.take off).length = off := by simp; omega
  unfold setLE
  rcases hi with hi | hi
  · rw [List.append_assoc, List.getElem?_append_left (by omega), List.getElem?_take_of_lt hi]
  · rw [List.getElem?_append_right (by simp; omega), List.getElem?_drop]
    congr 1
    simp only [List.length_append, htake, length_leBytes]
    omega

lemma drop_take_eq_of_getElem? {off n : ℕ} {bs bs' : List UInt8}
    (h : ∀ i, off ≤ i → i < off + n → bs[i]? = bs'[i]?) :
    (bs.drop off).take n = (bs'.drop off).take n := by
  apply List.ext_getElem?
  intro i
  rw [List.getElem?_take, List.getElem?_take]
  split
  · rw [List.getElem?_drop, List.getElem?_drop]
    exact h _ (by omega) (by omega)
  · rfl

/-- **A word that is written is read back.** -/
theorem getLE_setLE {off n v : ℕ} {bs : List UInt8} (h : off + n ≤ bs.length)
    (hv : v < 256 ^ n) : getLE off n (setLE off n v bs) = v := by
  have htake : (bs.take off).length = off := by simp; omega
  have : ((setLE off n v bs).drop off).take n = leBytes n v := by
    unfold setLE
    rw [List.append_assoc, List.drop_left' htake, List.take_left' (length_leBytes n v)]
  rw [getLE, this, leVal_leBytes hv]

/-- **A read that is disjoint from the write does not see it.** -/
theorem getLE_setLE_of_disjoint {off n off' n' : ℕ} (v : ℕ) {bs : List UInt8}
    (h : off + n ≤ bs.length) (hd : off' + n' ≤ off ∨ off + n ≤ off') :
    getLE off' n' (setLE off n v bs) = getLE off' n' bs := by
  unfold getLE
  rw [drop_take_eq_of_getElem? fun i hi hi' => getElem?_setLE v h (by omega)]

/-- Writing back the word that is there changes nothing. -/
theorem setLE_getLE {off n : ℕ} {bs : List UInt8} (h : off + n ≤ bs.length) :
    setLE off n (getLE off n bs) bs = bs := by
  have hlen : ((bs.drop off).take n).length = n := by simp; omega
  have hb : leBytes n (getLE off n bs) = (bs.drop off).take n := by
    have := leBytes_leVal ((bs.drop off).take n)
    rwa [hlen] at this
  rw [setLE, hb, List.append_assoc, ← List.drop_drop, List.take_append_drop, List.take_append_drop]

/-! ### Structs -/

/-- A member of a struct. -/
structure Member (φ : Type*) where
  name : φ
  size : ℕ
  align : ℕ

/-- A member that is a machine word is aligned to its size. -/
def Member.word {φ : Type*} (name : φ) (size : ℕ) : Member φ := ⟨name, size, size⟩

/-- The next multiple of `a`. -/
def alignUp (a n : ℕ) : ℕ := (n + (a - 1)) / a * a

section Struct

variable {φ : Type*}

/-- The alignment of a struct is that of its most aligned member. -/
def alignof (ms : List (Member φ)) : ℕ := (ms.map Member.align).foldr max 1

/-- The end of the members that are placed from `off` on. -/
def endFrom : ℕ → List (Member φ) → ℕ
  | off, [] => off
  | off, m :: ms => endFrom (alignUp m.align off + m.size) ms

/-- The size of a struct: padded to its alignment. -/
def sizeof (ms : List (Member φ)) : ℕ := alignUp (alignof ms) (endFrom 0 ms)

/-- The offset of a member when the members are placed from `off` on. -/
def offsetFrom [DecidableEq φ] : ℕ → List (Member φ) → φ → Option ℕ
  | _, [], _ => none
  | off, m :: ms, f =>
    if m.name = f then some (alignUp m.align off)
    else offsetFrom (alignUp m.align off + m.size) ms f

/-- The offset of a member. -/
def offsetof? [DecidableEq φ] (ms : List (Member φ)) (f : φ) : Option ℕ := offsetFrom 0 ms f

end Struct

lemma toNat_toUInt16 (i : Int32) : (i.toUInt32.toUInt16.toNat : ℤ) = i.toInt % 65536 := by
  have h : (i.toUInt32.toNat : ℤ) = i.toInt % 2 ^ 32 := by
    show (i.toBitVec.toNat : ℤ) = i.toBitVec.toInt % 2 ^ 32
    have hlt := i.toBitVec.isLt
    have hmod : (i.toBitVec.toNat : ℤ).bmod (2 ^ 32) % ((2 ^ 32 : ℕ) : ℤ) =
        (i.toBitVec.toNat : ℤ) % ((2 ^ 32 : ℕ) : ℤ) := Int.bmod_emod
    rw [BitVec.toInt_eq_toNat_bmod]
    push_cast at hmod ⊢
    omega
  rw [UInt32.toNat_toUInt16]
  push_cast
  omega

end Cinst.Lib
