import Cinst.Lib.Text

/-!
Texts of a script: a file is decoded and read line by line, and a line is stripped, split at a
separator, or read as a number.
-/

namespace Cinst.Lib

/-! ### Files of text -/

/-- The text of a file in UTF-8. -/
def decodeUtf8 (bs : Bytes) : Option (List Char) := bs.toByteArray.utf8Decode?.map Array.toList

/-- Reading a file of text turns `\r\n` and `\r` into `\n`. -/
def universalNewlines : List Char → List Char
  | [] => []
  | '\r' :: '\n' :: cs => '\n' :: universalNewlines cs
  | '\r' :: cs => '\n' :: universalNewlines cs
  | c :: cs => c :: universalNewlines cs

/-- The lines of a text, each with its newline; what is behind the last newline is a line if it is
not empty. -/
def keepLines (cs : List Char) : List (List Char) :=
  let ls := cs.splitOn '\n'
  ls.dropLast.map (· ++ ['\n']) ++ (ls.getLast?.toList.filter fun l => !l.isEmpty)

/-- `readlines`. -/
def readlines (cs : List Char) : List (List Char) := keepLines (universalNewlines cs)

/-! ### Words -/

/-- `isspace` of a character. -/
def isSpace (c : Char) : Bool :=
  let n := c.toNat
  (9 ≤ n && n ≤ 13) || (28 ≤ n && n ≤ 32) || n == 133 || n == 160 || n == 5760 ||
    (8192 ≤ n && n ≤ 8202) || n == 8232 || n == 8233 || n == 8239 || n == 8287 || n == 12288

/-- `strip`. -/
def strip (cs : List Char) : List Char := (cs.dropWhile isSpace).rdropWhile isSpace

/-- `split(sep)`. -/
def split (sep : Char) (cs : List Char) : List (List Char) := cs.splitOn sep

/-- `int`, for ASCII digits. -/
def pyInt (cs : List Char) : Option ℤ :=
  match strip cs with
  | '+' :: ds => (String.ofList ds).toNat?.map fun n : ℕ => (n : ℤ)
  | '-' :: ds => (String.ofList ds).toNat?.map fun n : ℕ => -(n : ℤ)
  | ds => (String.ofList ds).toNat?.map fun n : ℕ => (n : ℤ)

/-! ### Reading what was written -/

lemma toList_loop (bs : ByteArray) (i : ℕ) (acc : Bytes) :
    ByteArray.toList.loop bs i acc = acc.reverse ++ bs.data.toList.drop i := by
  fun_induction ByteArray.toList.loop bs i acc with
  | case1 i acc h ih =>
    rw [ih, List.reverse_cons, List.append_assoc, List.singleton_append]
    congr 1
    have hlt : i < bs.data.toList.length := h
    rw [List.drop_eq_getElem_cons hlt]
    congr 1
    cases bs
    exact getElem!_pos _ i h
  | case2 i acc h =>
    have hle : bs.data.toList.length ≤ i := Nat.le_of_not_lt h
    rw [List.drop_eq_nil_of_le hle, List.append_nil]

lemma toList_byteArray (bs : ByteArray) : bs.toList = bs.data.toList := by
  rw [ByteArray.toList, toList_loop]
  rfl

lemma decodeUtf8_toUTF8 (ss : List String) :
    decodeUtf8 (ss.map fun s => s.toUTF8.toList).flatten = some (ss.map String.toList).flatten := by
  have hbytes : ∀ ss : List String, (ss.map fun s => s.toUTF8.toList).flatten.toByteArray =
      (ss.map String.toList).flatten.utf8Encode := by
    intro ss
    induction ss with
    | nil => rfl
    | cons s ss ih =>
      rw [List.map_cons, List.flatten_cons, List.toByteArray_append, ih, List.map_cons,
        List.flatten_cons, List.utf8Encode_append]
      congr 1
      rw [String.utf8Encode_toList, toList_byteArray]
      ext1
      simp
  rw [decodeUtf8, hbytes, List.utf8Decode?_utf8Encode]
  rfl

lemma universalNewlines_eq_self {cs : List Char} (h : '\r' ∉ cs) : universalNewlines cs = cs := by
  fun_induction universalNewlines cs with
  | case1 => rfl
  | case2 => simp at h
  | case3 => simp at h
  | case4 c cs _ _ ih => rw [ih fun h' => h (List.mem_cons_of_mem _ h')]

lemma readlines_flatten {ls : List (List Char)} (h : ∀ l ∈ ls, '\n' ∉ l ∧ '\r' ∉ l) :
    readlines (ls.map (· ++ ['\n'])).flatten = ls.map (· ++ ['\n']) := by
  have hr : '\r' ∉ (ls.map (· ++ ['\n'])).flatten := by
    simp only [List.mem_flatten, List.mem_map, not_exists, not_and]
    rintro _ ⟨l, hl, rfl⟩ hmem
    rcases List.mem_append.mp hmem with hmem | hmem
    · exact (h l hl).2 hmem
    · simp at hmem
  have hsplit : ((ls.map (· ++ ['\n'])).flatten).splitOn '\n' = ls ++ [[]] := by
    clear hr
    induction ls with
    | nil => rfl
    | cons l ls ih =>
      rw [List.map_cons, List.flatten_cons, List.append_assoc, List.singleton_append,
        List.splitOn_append_cons_self_of_not_mem (h l (List.mem_cons_self ..)).1,
        ih fun l' hl' => h l' (List.mem_cons_of_mem _ hl'), List.cons_append]
  rw [readlines, universalNewlines_eq_self hr, keepLines]
  rw [hsplit, List.dropLast_concat, List.getLast?_concat]
  simp

/-! ### Stripping -/

lemma strip_newline (cs : List Char) : strip (cs ++ ['\n']) = strip cs := by
  have hspace : isSpace '\n' = true := by decide
  have hcat : (cs ++ ['\n']).dropWhile isSpace = cs.dropWhile isSpace ++ ['\n'] ∨
      cs.dropWhile isSpace = [] ∧ (cs ++ ['\n']).dropWhile isSpace = [] := by
    rw [List.dropWhile_append]
    cases hdrop : cs.dropWhile isSpace with
    | nil => exact Or.inr ⟨rfl, by simp [hspace]⟩
    | cons c ds => exact Or.inl (by simp)
  unfold strip
  rcases hcat with hcat | ⟨hnil, hcat⟩
  · rw [hcat, List.rdropWhile_concat_pos _ _ _ hspace]
  · rw [hcat, hnil]

lemma strip_eq_self {cs : List Char} (h : ∀ c ∈ cs, isSpace c = false) : strip cs = cs := by
  have hdrop : cs.dropWhile isSpace = cs := by
    rw [List.dropWhile_eq_self_iff]
    intro hl
    rw [h _ (List.getElem_mem hl)]
    decide
  rw [strip, hdrop, List.rdropWhile_eq_self_iff]
  intro hl
  rw [h _ (List.getLast_mem hl)]
  decide

lemma mem_dropWhile_of_not {p : Char → Bool} {c : Char} (hc : p c = false) {cs : List Char} :
    c ∈ cs.dropWhile p ↔ c ∈ cs := by
  constructor
  · exact fun h => (List.dropWhile_suffix p).subset h
  · intro h
    rw [← List.takeWhile_append_dropWhile (p := p) (l := cs)] at h
    rcases List.mem_append.mp h with h | h
    · rw [List.mem_takeWhile_imp h] at hc
      cases hc
    · exact h

lemma mem_strip {c : Char} (hc : isSpace c = false) {cs : List Char} : c ∈ strip cs ↔ c ∈ cs := by
  rw [strip, List.rdropWhile, List.mem_reverse, mem_dropWhile_of_not hc, List.mem_reverse,
    mem_dropWhile_of_not hc]

/-! ### Splitting -/

lemma split_eq_singleton_iff {sep : Char} {cs : List Char} :
    (∃ v, split sep cs = [v]) ↔ sep ∉ cs := by
  constructor
  · rintro ⟨v, hv⟩ hmem
    obtain ⟨l, r, rfl⟩ := List.append_of_mem hmem
    rw [split, List.splitOn_append_cons_self] at hv
    have hlen := congrArg List.length hv
    have hl := List.length_pos_of_ne_nil (List.splitOn_ne_nil sep l)
    have hr := List.length_pos_of_ne_nil (List.splitOn_ne_nil sep r)
    rw [List.length_append, List.length_singleton] at hlen
    omega
  · exact fun h => ⟨cs, List.splitOn_eq_singleton h⟩

lemma split_eq_self {sep : Char} {cs : List Char} (h : sep ∉ cs) : split sep cs = [cs] :=
  List.splitOn_eq_singleton h

lemma split_append {sep : Char} {cs ds : List Char} (h : sep ∉ cs) :
    split sep (cs ++ sep :: ds) = cs :: split sep ds :=
  List.splitOn_append_cons_self_of_not_mem h _

/-! ### Numbers -/

/-- The text of a number. -/
def digits (i : ℤ) : List Char := (toString i).toList

lemma isSpace_digits {i : ℤ} {c : Char} (h : c ∈ digits i) : isSpace c = false := by
  have hrange : 45 ≤ c.toNat ∧ c.toNat < 58 := by
    rcases mem_toList_toString h with hd | rfl
    · simp only [Char.isDigit, Bool.and_eq_true, decide_eq_true_eq, UInt32.le_iff_toNat_le] at hd
      have h0 : (48 : ℕ) ≤ c.toNat := hd.1
      have h9 : c.toNat ≤ 57 := hd.2
      omega
    · decide
  rw [← Bool.not_eq_true]
  intro hspace
  simp only [isSpace, Bool.or_eq_true, Bool.and_eq_true, decide_eq_true_eq, beq_iff_eq] at hspace
  omega

lemma notMem_digits {c : Char} (hc : isSpace c = true) (i : ℤ) : c ∉ digits i := by
  intro h
  rw [isSpace_digits h] at hc
  cases hc

/-- **A number is read back.** -/
lemma pyInt_digits (i : ℤ) : pyInt (digits i) = some i := by
  have hstrip : strip (digits i) = digits i := strip_eq_self fun c hc => isSpace_digits hc
  have htext : digits i = i.repr.toList := by rw [digits, Int.toString_eq_repr]
  unfold pyInt
  rw [hstrip, htext, Int.repr_eq_if]
  split_ifs with hi
  · -- the first character is a digit
    have hdigit : ∀ c ∈ i.toNat.repr.toList, c.isDigit := by
      intro c hc
      rw [← Nat.toString_eq_repr, Nat.toString_eq_ofList_toDigits, String.toList_ofList] at hc
      exact Nat.isDigit_of_mem_toDigits (by norm_num) (by norm_num) hc
    have hread : (String.ofList i.toNat.repr.toList).toNat?.map (fun n : ℕ => (n : ℤ)) = some i := by
      rw [String.ofList_toList, Nat.toNat?_repr, Option.map_some, Int.toNat_of_nonneg (by omega)]
    split
    · rename_i ds hds
      have := hdigit '+' (by rw [hds]; simp)
      simp at this
    · rename_i ds hds
      have := hdigit '-' (by rw [hds]; simp)
      simp at this
    · exact hread
  · rw [String.toList_append]
    show (String.ofList (-i).toNat.repr.toList).toNat?.map (fun n : ℕ => -(n : ℤ)) = some i
    rw [String.ofList_toList, Nat.toNat?_repr, Option.map_some]
    congr 1
    omega

lemma pyInt_newline (cs : List Char) : pyInt (cs ++ ['\n']) = pyInt cs := by
  unfold pyInt
  rw [strip_newline]

end Cinst.Lib
