import Cinst.Script.Records

/-!
What the selector and the join of `build_container_db.py` compute.

The selector returns the records of its two buffers in the order of their times (`Selects.read`), so
the join is a function of the list of all container records (`joinLoop_eq`). Where every line record
is directly preceded, among all records, by a container record, the join pairs it with this one
(`joinList_paired`).
-/

namespace Cinst.Script

open Cinst.Lib Cinst.Record

/-! ### The selector merges by time -/

namespace ContainerBuffer

/-- The records that are still to be read. -/
def rest (b : ContainerBuffer) : List Entry :=
  ((Lib.records b.struct.size b.buf).drop b.pos).map b.struct.decode

lemma cur_eq (b : ContainerBuffer) : b.cur = b.rest.head? := by
  have hsize := b.struct.size_pos
  have hiff : b.pos < b.buf.length / b.struct.size ↔
      ¬ b.pos * b.struct.size + b.struct.size - 1 ≥ b.buf.length := by
    rw [← Nat.succ_le_iff, Nat.le_div_iff_mul_le hsize, Nat.succ_mul]
    omega
  rw [rest, List.head?_map, List.head?_drop, Lib.records, getElem?_takeRecords, cur]
  by_cases h : b.pos < b.buf.length / b.struct.size
  · rw [if_pos h, if_neg (hiff.mp h)]
    rfl
  · rw [if_neg h, if_pos (not_not.mp fun h' => h (hiff.mpr h'))]
    rfl

lemma rest_next (b : ContainerBuffer) : b.next.rest = b.rest.tail := by
  rw [rest, rest, ← List.map_tail, List.tail_drop]
  rfl

end ContainerBuffer

/-- The buffers hold the records `cs`, each the ones of its structure, and the times increase. -/
structure Selects (bufs : List ContainerBuffer) (cs : List Entry) : Prop where
  sorted : cs.Pairwise fun c c' => c.time < c'.time
  distinct : (bufs.map ContainerBuffer.struct).Nodup
  rest : ∀ b ∈ bufs, b.rest = cs.filter fun c => c.struct = b.struct
  covered : ∀ c ∈ cs, c.struct ∈ bufs.map ContainerBuffer.struct

lemma minBuf_eq_none {bufs : List ContainerBuffer} (h : ∀ b ∈ bufs, b.cur = none) :
    minBuf bufs = none := by
  cases hmin : minBuf bufs with
  | none => rfl
  | some p =>
    obtain ⟨b, hb, hcur⟩ := minBuf_mem (i := p.1) (r := p.2) hmin
    rw [h b (List.mem_of_getElem? hb)] at hcur
    cases hcur

lemma minBuf_eq_some {bufs : List ContainerBuffer} {i : ℕ} {b : ContainerBuffer} {c : Entry}
    (hb : bufs[i]? = some b) (hcur : b.cur = some c)
    (hother : ∀ j b' c', j ≠ i → bufs[j]? = some b' → b'.cur = some c' → c.time < c'.time) :
    minBuf bufs = some (i, c) := by
  induction bufs generalizing i with
  | nil => simp at hb
  | cons b₀ bufs ih =>
    rw [minBuf]
    cases i with
    | zero =>
      cases hb
      rw [hcur]
      cases hmin : minBuf bufs with
      | none => rfl
      | some p =>
        obtain ⟨b', hb', hcur'⟩ := minBuf_mem (i := p.1) (r := p.2) hmin
        have hlt := hother (p.1 + 1) b' p.2 (by omega) hb' hcur'
        exact if_neg (by omega)
    | succ i =>
      have hmin := ih hb fun j b' c' hj => hother (j + 1) b' c' (by omega)
      rw [hmin]
      cases hcur₀ : b₀.cur with
      | none => rfl
      | some r =>
        have hlt := hother 0 b₀ r (by omega) rfl hcur₀
        exact if_pos hlt

lemma map_struct_modify (bufs : List ContainerBuffer) (i : ℕ) :
    (bufs.modify i ContainerBuffer.next).map ContainerBuffer.struct =
      bufs.map ContainerBuffer.struct := by
  refine List.ext_getElem? fun j => ?_
  rw [List.getElem?_map, List.getElem?_map, List.getElem?_modify]
  cases bufs[j]? with
  | none => rfl
  | some b => by_cases h : i = j <;> simp [h, ContainerBuffer.next]

/-- **The selector returns the record with the least time.** -/
theorem Selects.read {bufs : List ContainerBuffer} {cs : List Entry} (h : Selects bufs cs) :
    (read bufs).1 = cs.head? ∧ Selects (read bufs).2 cs.tail := by
  cases cs with
  | nil =>
    have hmin : minBuf bufs = none := minBuf_eq_none fun b hb => by
      rw [b.cur_eq, h.rest b hb]
      rfl
    rw [Script.read, hmin]
    exact ⟨rfl, h⟩
  | cons c cs =>
    obtain ⟨hc, hsorted⟩ := List.pairwise_cons.mp h.sorted
    obtain ⟨b, hb, hstruct⟩ := List.mem_map.mp (h.covered c (by simp))
    obtain ⟨i, hi⟩ := List.mem_iff_getElem?.mp hb
    have hcur : b.cur = some c := by
      rw [b.cur_eq, h.rest b hb, List.filter_cons_of_pos (by simp [hstruct])]
      rfl
    -- another buffer holds none of the structure of `c`, so its record is a later one
    have hne : ∀ j b', j ≠ i → bufs[j]? = some b' → b'.struct ≠ c.struct := by
      intro j b' hj hb' heq
      have hsame : (bufs.map ContainerBuffer.struct)[j]? = (bufs.map ContainerBuffer.struct)[i]? := by
        rw [List.getElem?_map, List.getElem?_map, hb', hi, Option.map_some, Option.map_some, heq,
          hstruct]
      have hlt := (List.getElem?_eq_some_iff.mp hb').1
      exact hj ((List.getElem?_inj (by simpa using hlt) h.distinct).mp hsame)
    have hmin : minBuf bufs = some (i, c) := by
      refine minBuf_eq_some hi hcur fun j b' c' hj hb' hcur' => ?_
      rw [b'.cur_eq, h.rest b' (List.mem_of_getElem? hb'),
        List.filter_cons_of_neg (by simpa using (hne j b' hj hb').symm)] at hcur'
      exact hc c' (List.mem_of_mem_filter (List.mem_of_mem_head? hcur'))
    rw [Script.read, hmin]
    refine ⟨rfl, hsorted, ?_, ?_, ?_⟩
    · rw [map_struct_modify]
      exact h.distinct
    · intro b' hb'
      obtain ⟨j, hj⟩ := List.mem_iff_getElem?.mp hb'
      by_cases hij : i = j
      · subst hij
        rw [List.getElem?_modify_eq, hi] at hj
        rw [← Option.some.inj hj, b.rest_next, h.rest b hb, List.filter_cons_of_pos (by simp [hstruct])]
        rfl
      · rw [List.getElem?_modify_ne _ _ hij] at hj
        rw [h.rest b' (List.mem_of_getElem? hj),
          List.filter_cons_of_neg (by simpa using (hne j b' (Ne.symm hij) hj).symm)]
        rfl
    · intro c' hc'
      rw [map_struct_modify]
      exact h.covered c' (List.mem_cons_of_mem _ hc')

/-! ### The join as a function of the container records -/

/-- What the inner loop of the join leaves: the record that is nearest before the line record, and
those behind it. -/
def advance (r2 : ContainerLineInfoRecord) : Entry → List Entry → Entry × List Entry
  | c, [] => (c, [])
  | c, n :: cs =>
    if lineTime r2 - c.time > lineTime r2 - n.time ∧ n.time < lineTime r2 then advance r2 n cs
    else (c, n :: cs)

/-- A row of the table. -/
def row (c : Entry) (r2 : ContainerLineInfoRecord) : List ℤ := c.data4sql ++ lineData4sql r2

/-- The join of the container records `cs` with line records. -/
def joinList : List Entry → List ContainerLineInfoRecord → List (List ℤ)
  | _, [] => []
  | [], _ :: _ => []
  | c :: cs, r2 :: lines =>
    if c.time > lineTime r2 then joinList (c :: cs) lines
    else row (advance r2 c cs).1 r2 :: joinList (advance r2 c cs).2 lines

lemma lookahead_eq {bufs : List ContainerBuffer} {cs : List Entry} (h : Selects bufs cs.tail)
    (r1 : Entry) (r2 : ContainerLineInfoRecord) :
    (lookahead r1 cs.head? bufs r2).1 = (advance r2 r1 cs).1 ∧
      (lookahead r1 cs.head? bufs r2).2.1 = (advance r2 r1 cs).2.head? ∧
      Selects (lookahead r1 cs.head? bufs r2).2.2 (advance r2 r1 cs).2.tail := by
  induction cs generalizing r1 bufs with
  | nil =>
    rw [List.head?_nil, lookahead, advance]
    exact ⟨rfl, rfl, h⟩
  | cons n cs ih =>
    obtain ⟨hhead, htail⟩ := h.read
    rw [List.head?_cons, lookahead, advance]
    split
    · rw [hhead]
      exact ih htail n
    · exact ⟨rfl, rfl, h⟩

/-- **The loop over the line records reads the container records in the order of their times.** -/
theorem joinLoop_eq {bufs : List ContainerBuffer} {cs : List Entry}
    (h : Selects bufs cs.tail) (lines : List ContainerLineInfoRecord) :
    joinLoop cs.head? bufs lines = joinList cs lines := by
  induction lines generalizing cs bufs with
  | nil => cases cs <;> rfl
  | cons r2 lines ih =>
    cases cs with
    | nil => rfl
    | cons c cs =>
      rw [List.head?_cons, joinLoop, joinList]
      dsimp only
      split
      · have hrest : Selects bufs (c :: cs).tail := h
        exact ih hrest
      · obtain ⟨hhead, htail⟩ := h.read
        rw [List.tail_cons] at hhead htail
        obtain ⟨hr, hnext, hbufs⟩ := lookahead_eq htail c r2
        rw [hhead, hr, hnext, ih hbufs, row]

/-! ### Lines directly behind their operations -/

/-- The container records among the records of a thread. -/
def containers (es : List (Entry ⊕ ContainerLineInfoRecord)) : List Entry :=
  es.filterMap Sum.getLeft?

/-- The line records among the records of a thread. -/
def lines (es : List (Entry ⊕ ContainerLineInfoRecord)) : List ContainerLineInfoRecord :=
  es.filterMap Sum.getRight?

/-- Every line record stands directly behind a container record; these are the pairs. -/
inductive Paired : List (Entry ⊕ ContainerLineInfoRecord) →
    List (Entry × ContainerLineInfoRecord) → Prop
  | nil : Paired [] []
  | container {es ps} (c : Entry) (h : Paired es ps) : Paired (.inl c :: es) ps
  | pair {es ps} (c : Entry) (r2 : ContainerLineInfoRecord) (h : Paired es ps) :
      Paired (.inl c :: .inr r2 :: es) ((c, r2) :: ps)

lemma Paired.pending {es : List (Entry ⊕ ContainerLineInfoRecord)}
    {ps : List (Entry × ContainerLineInfoRecord)} (h : Paired es ps) (record : Option Entry) :
    Paired (record.toList.map .inl ++ es) ps := by
  cases record with
  | none => exact h
  | some c => exact .container c h

lemma mem_containers {es : List (Entry ⊕ ContainerLineInfoRecord)} {c : Entry} :
    c ∈ containers es ↔ .inl c ∈ es := by
  simp [containers, List.mem_filterMap]

lemma mem_lines {es : List (Entry ⊕ ContainerLineInfoRecord)} {r2 : ContainerLineInfoRecord} :
    r2 ∈ lines es ↔ .inr r2 ∈ es := by
  simp [lines, List.mem_filterMap]

/-- Before the first line record there is a container record. -/
lemma Paired.exists_container {es : List (Entry ⊕ ContainerLineInfoRecord)}
    {ps : List (Entry × ContainerLineInfoRecord)} (h : Paired es ps)
    (hs : (es.map stamp).Pairwise (· < ·)) {r2 : ContainerLineInfoRecord}
    {ls : List ContainerLineInfoRecord} (hl : lines es = r2 :: ls) :
    ∃ c es', es = .inl c :: es' ∧ c.time < lineTime r2 := by
  cases h with
  | nil => cases hl
  | @container es ps c h =>
    have hr2 : Sum.inr r2 ∈ es := mem_lines.mp (by rw [show lines es = r2 :: ls from hl]; simp)
    exact ⟨c, es, rfl, (List.pairwise_cons.mp hs).1 _ (List.mem_map_of_mem hr2)⟩
  | @pair es ps c r h =>
    cases hl
    exact ⟨c, _, rfl, (List.pairwise_cons.mp hs).1 _ (by simp [stamp])⟩

lemma joinList_nil_right (cs : List Entry) : joinList cs [] = [] := by
  cases cs <;> rfl

/-- **The join pairs every line record with the operation before it.** -/
theorem joinList_paired {es : List (Entry ⊕ ContainerLineInfoRecord)}
    {ps : List (Entry × ContainerLineInfoRecord)} (h : Paired es ps)
    (hs : (es.map stamp).Pairwise (· < ·)) :
    joinList (containers es) (lines es) = ps.map fun p => row p.1 p.2 := by
  induction h with
  | nil => rfl
  | @container es ps c h ih =>
    obtain ⟨hc, hs⟩ := List.pairwise_cons.mp hs
    rw [← ih hs]
    show joinList (c :: containers es) (lines es) = _
    cases hl : lines es with
    | nil => rw [joinList_nil_right, joinList_nil_right]
    | cons r2 ls =>
      -- the record is skipped: the next container record is still before the line
      obtain ⟨n, es', rfl, hn⟩ := h.exists_container hs hl
      have hcn : c.time < n.time := hc n.time (by simp [stamp])
      show joinList (c :: n :: containers es') _ = joinList (n :: containers es') _
      rw [joinList, joinList, if_neg (by omega), if_neg (by omega), advance,
        if_pos ⟨by omega, hn⟩]
  | @pair es ps c r2 h ih =>
    obtain ⟨hc, hs⟩ := List.pairwise_cons.mp hs
    obtain ⟨hr2, hs⟩ := List.pairwise_cons.mp hs
    have hlt : c.time < lineTime r2 := hc (lineTime r2) (by simp [stamp])
    have hstop : advance r2 c (containers es) = (c, containers es) := by
      cases hcs : containers es with
      | nil => rfl
      | cons n cs =>
        have hn : Sum.inl n ∈ es := mem_containers.mp (by rw [hcs]; simp)
        have : lineTime r2 < n.time := hr2 n.time (List.mem_map_of_mem (f := stamp) hn)
        rw [advance, if_neg (by omega)]
    show joinList (c :: containers es) (r2 :: lines es) = row c r2 :: _
    rw [joinList, if_neg (by omega), hstop, ih hs]

/-! ### The rows of a thread -/

/-- The buffer of a file holds the given records; a file without records may be absent. -/
def Reads (s : Struct) (buf : Option Bytes) (cs : List Entry) : Prop :=
  (∃ bs, buf = some bs ∧ (Lib.records s.size bs).map s.decode = cs) ∨ buf = none ∧ cs = []

lemma Reads.rest {s : Struct} {buf : Option Bytes} {cs : List Entry} (h : Reads s buf cs) :
    ∀ b ∈ buf.toList.map fun bs => (⟨bs, s, 0⟩ : ContainerBuffer), b.struct = s ∧ b.rest = cs := by
  rintro b hb
  obtain ⟨bs, hbs, rfl⟩ := List.mem_map.mp hb
  rw [Option.mem_toList] at hbs
  rcases h with ⟨bs', rfl, h⟩ | ⟨rfl, -⟩
  · cases hbs
    exact ⟨rfl, h⟩
  · cases hbs

lemma selects_selector {cs : List Entry} {listAndSetBuf mapBuf : Option Bytes}
    (hs : cs.Pairwise fun c c' => c.time < c'.time)
    (hlist : Reads .listAndSet listAndSetBuf (cs.filter fun c => c.struct = .listAndSet))
    (hmap : Reads .map mapBuf (cs.filter fun c => c.struct = .map)) :
    Selects (selector listAndSetBuf mapBuf) cs := by
  refine ⟨hs, ?_, ?_, ?_⟩
  · cases listAndSetBuf <;> cases mapBuf <;> simp [selector]
  · intro b hb
    rcases List.mem_append.mp hb with hb | hb
    · obtain ⟨hstruct, hrest⟩ := hlist.rest b hb
      rw [hrest, hstruct]
    · obtain ⟨hstruct, hrest⟩ := hmap.rest b hb
      rw [hrest, hstruct]
  · intro c hc
    -- the file of a record is there
    have hpresent : ∀ {s buf}, c.struct = s → Reads s buf (cs.filter fun c => c.struct = s) →
        s ∈ (buf.toList.map fun bs => (⟨bs, s, 0⟩ : ContainerBuffer)).map ContainerBuffer.struct := by
      rintro s buf hstruct (⟨bs, rfl, -⟩ | ⟨-, hnil⟩)
      · simp
      · exact absurd (by simpa using hstruct) (List.filter_eq_nil_iff.mp hnil c hc)
    rw [selector, List.map_append, List.mem_append]
    cases hstruct : c.struct with
    | listAndSet => exact Or.inl (hpresent hstruct hlist)
    | map => exact Or.inr (hpresent hstruct hmap)

/-- **The rows of a thread whose line records stand directly behind their operations.** -/
theorem records_paired {es : List (Entry ⊕ ContainerLineInfoRecord)}
    {ps : List (Entry × ContainerLineInfoRecord)} (h : Paired es ps)
    (hs : (es.map stamp).Pairwise (· < ·)) {lineInfoBuf : Bytes}
    {listAndSetBuf mapBuf : Option Bytes}
    (hline : (Lib.records (sizeof lineInfoFields) lineInfoBuf).map lineInfoOfRaw = lines es)
    (hlist : Reads .listAndSet listAndSetBuf
      ((containers es).filter fun c => c.struct = .listAndSet))
    (hmap : Reads .map mapBuf ((containers es).filter fun c => c.struct = .map)) :
    records lineInfoBuf listAndSetBuf mapBuf = ps.map fun p => row p.1 p.2 := by
  have hsorted : (containers es).Pairwise fun c c' => c.time < c'.time := by
    refine (List.pairwise_map.mp hs).filterMap _ fun e e' hlt c hc c' hc' => ?_
    rw [Sum.getLeft?_eq_some_iff.mp hc, Sum.getLeft?_eq_some_iff.mp hc'] at hlt
    exact hlt
  have hsel := selects_selector hsorted hlist hmap
  rw [records]
  split
  · -- without container files there is no container record, and so no line record
    rename_i hnone
    cases h with
    | nil => rfl
    | container c h =>
      have hc := hsel.covered c (by simp [containers])
      simp [selector, hnone] at hc
    | pair c r2 h =>
      have hc := hsel.covered c (by simp [containers])
      simp [selector, hnone] at hc
  · obtain ⟨hhead, htail⟩ := hsel.read
    rw [hhead, joinLoop_eq htail, hline, joinList_paired h hs]

end Cinst.Script
