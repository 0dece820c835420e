import Cinst.Script.Windows

/-!
The selector of `build_container_db.py` as a merge of its two buffers.

Successive calls of `read` return the complete records of both buffers by their times, of the same
time those of lists and sets first, and then `None` for ever (`selector_merges`). Times may repeat
here, within a buffer and between the two.
-/

namespace Cinst.Script

open Cinst.Lib Cinst.Record

/-- The complete records of a buffer, none for an absent one. -/
def complete (s : Struct) (buf : Option Bytes) : List Entry :=
  buf.elim [] fun bs => (Lib.records s.size bs).map s.decode

/-- The order in which records are read: by time, and at one time lists and sets before maps. -/
def Before (a b : Entry) : Prop :=
  a.time < b.time ∨ a.time = b.time ∧ (a.struct = .listAndSet ∨ b.struct = .map)

instance (a b : Entry) : Decidable (Before a b) := inferInstanceAs (Decidable (_ ∨ _))

/-- The result of call number `k` of `read`, from `0` on. -/
def readNumber (k : ℕ) (bufs : List ContainerBuffer) : Option Entry :=
  (read ((fun bufs => (read bufs).2)^[k] bufs)).1

/-! ### Merged lists -/

section Merge

variable {α : Type*} {le : α → α → Bool} {p : α → Bool}

lemma filter_merge_left {xs ys : List α} (hx : ∀ x ∈ xs, p x) (hy : ∀ y ∈ ys, p y = false) :
    (xs.merge ys le).filter p = xs := by
  induction xs generalizing ys with
  | nil => rw [List.nil_merge, List.filter_eq_nil_iff.mpr fun y h => by rw [hy y h]; decide]
  | cons x xs ih =>
    have hxs := fun z hz => hx z (List.mem_cons_of_mem x hz)
    induction ys with
    | nil => rw [List.merge_right, List.filter_eq_self.mpr hx]
    | cons y ys ihy =>
      have hys := fun z hz => hy z (List.mem_cons_of_mem y hz)
      rw [List.cons_merge_cons]
      split
      · rw [List.filter_cons_of_pos (hx x List.mem_cons_self), ih hxs hy]
      · rw [List.filter_cons_of_neg (by rw [hy y List.mem_cons_self]; decide), ihy hys]

lemma filter_merge_right {xs ys : List α} (hx : ∀ x ∈ xs, p x = false) (hy : ∀ y ∈ ys, p y) :
    (xs.merge ys le).filter p = ys := by
  induction xs generalizing ys with
  | nil => rw [List.nil_merge, List.filter_eq_self.mpr hy]
  | cons x xs ih =>
    have hxs := fun z hz => hx z (List.mem_cons_of_mem x hz)
    induction ys with
    | nil =>
      rw [List.merge_right, List.filter_eq_nil_iff.mpr fun z h => by rw [hx z h]; decide]
    | cons y ys ihy =>
      have hys := fun z hz => hy z (List.mem_cons_of_mem y hz)
      rw [List.cons_merge_cons]
      split
      · rw [List.filter_cons_of_neg (by rw [hx x List.mem_cons_self]; decide), ih hxs hy]
      · rw [List.filter_cons_of_pos (hy y List.mem_cons_self), ihy hys]

end Merge

/-! ### One call -/

section Read

variable {a b : ContainerBuffer} {x y : Entry}

lemma read_none {bufs : List ContainerBuffer} (h : ∀ b ∈ bufs, b.cur = none) :
    read bufs = (none, bufs) := by
  rw [read, minBuf_eq_none h]

lemma read_first {mapBuf : Option ContainerBuffer} (ha : a.cur = some x)
    (hle : ∀ b ∈ mapBuf, ∀ y, b.cur = some y → x.time ≤ y.time) :
    read (a :: mapBuf.toList) = (some x, a.next :: mapBuf.toList) := by
  have hmin : minBuf (a :: mapBuf.toList) = some (0, x) := by
    rw [minBuf, ha]
    cases mapBuf with
    | none => rfl
    | some b =>
      cases hb : b.cur with
      | none => simp [minBuf, hb]
      | some y =>
        have hxy := hle b rfl y hb
        simp [minBuf, hb, not_lt.mpr hxy]
  rw [read, hmin]
  rfl

lemma read_second {listAndSetBuf : Option ContainerBuffer} (hb : b.cur = some y)
    (hlt : ∀ a ∈ listAndSetBuf, ∀ x, a.cur = some x → y.time < x.time) :
    read (listAndSetBuf.toList ++ [b]) = (some y, listAndSetBuf.toList ++ [b.next]) := by
  cases listAndSetBuf with
  | none => simp [read, minBuf, hb]
  | some a =>
    cases ha : a.cur with
    | none => simp [read, minBuf, ha, hb]
    | some x =>
      have hyx := hlt a rfl x ha
      simp [read, minBuf, ha, hb, hyx]

end Read

/-! ### All calls -/

/-- The buffers hold `xs` and `ys`. -/
structure Queues (bufs : List ContainerBuffer) (xs ys : List Entry) : Prop where
  buffers : ∃ listAndSetBuf mapBuf : Option ContainerBuffer,
    bufs = listAndSetBuf.toList ++ mapBuf.toList ∧
      xs = listAndSetBuf.elim [] ContainerBuffer.rest ∧ ys = mapBuf.elim [] ContainerBuffer.rest
  left : ∀ x ∈ xs, x.struct = .listAndSet
  right : ∀ y ∈ ys, y.struct = .map

lemma before_iff_le {x y : Entry} (hx : x.struct = .listAndSet) : Before x y ↔ x.time ≤ y.time := by
  rw [Before, le_iff_lt_or_eq]
  exact or_congr_right ⟨fun h => h.1, fun h => ⟨h, Or.inl hx⟩⟩

lemma cur_of_mem {buf : Option ContainerBuffer} {b : ContainerBuffer} (hb : b ∈ buf) :
    b.cur = (buf.elim [] ContainerBuffer.rest).head? := by
  cases hb
  exact b.cur_eq

lemma Queues.read_left {bufs : List ContainerBuffer} {x : Entry} {xs ys : List Entry}
    (h : Queues bufs (x :: xs) ys) (hle : ∀ y ∈ ys.head?, x.time ≤ y.time) :
    (read bufs).1 = some x ∧ Queues (read bufs).2 xs ys := by
  obtain ⟨⟨listAndSetBuf, mapBuf, rfl, hxs, hys⟩, hleft, hright⟩ := h
  cases listAndSetBuf with
  | none => cases hxs
  | some a =>
    have hrest : a.rest = x :: xs := hxs.symm
    have hcur : a.cur = some x := by rw [a.cur_eq, hrest, List.head?_cons]
    have hread := read_first hcur
      (fun b hb y hy => hle y (by rw [hys, ← cur_of_mem hb]; exact hy))
    rw [Option.toList_some, List.singleton_append, hread]
    refine ⟨rfl, ⟨some a.next, mapBuf, rfl, ?_, hys⟩, ?_, hright⟩
    · rw [Option.elim_some, a.rest_next, hrest, List.tail_cons]
    · exact fun z hz => hleft z (List.mem_cons_of_mem x hz)

lemma Queues.read_right {bufs : List ContainerBuffer} {y : Entry} {xs ys : List Entry}
    (h : Queues bufs xs (y :: ys)) (hlt : ∀ x ∈ xs.head?, y.time < x.time) :
    (read bufs).1 = some y ∧ Queues (read bufs).2 xs ys := by
  obtain ⟨⟨listAndSetBuf, mapBuf, rfl, hxs, hys⟩, hleft, hright⟩ := h
  cases mapBuf with
  | none => cases hys
  | some b =>
    have hrest : b.rest = y :: ys := hys.symm
    have hcur : b.cur = some y := by rw [b.cur_eq, hrest, List.head?_cons]
    have hread := read_second hcur
      (fun a ha x hx => hlt x (by rw [hxs, ← cur_of_mem ha]; exact hx))
    rw [Option.toList_some, hread]
    refine ⟨rfl, ⟨listAndSetBuf, some b.next, rfl, hxs, ?_⟩, hleft, ?_⟩
    · rw [Option.elim_some, b.rest_next, hrest, List.tail_cons]
    · exact fun z hz => hright z (List.mem_cons_of_mem y hz)

lemma Queues.read_nil {bufs : List ContainerBuffer} (h : Queues bufs [] []) :
    read bufs = (none, bufs) := by
  obtain ⟨⟨listAndSetBuf, mapBuf, rfl, hxs, hys⟩, -, -⟩ := h
  refine read_none fun b hb => ?_
  rcases List.mem_append.mp hb with hb | hb
  · rw [cur_of_mem (Option.mem_toList.mp hb), ← hxs, List.head?_nil]
  · rw [cur_of_mem (Option.mem_toList.mp hb), ← hys, List.head?_nil]

/-- **One call returns the first record of the merge** and leaves the others. -/
theorem Queues.read {bufs : List ContainerBuffer} {xs ys : List Entry} (h : Queues bufs xs ys) :
    (read bufs).1 = (xs.merge ys fun a b => Before a b).head? ∧
      ∃ xs' ys', Queues (read bufs).2 xs' ys' ∧
        xs'.merge ys' (fun a b => Before a b) = (xs.merge ys fun a b => Before a b).tail := by
  match xs, ys with
  | [], [] =>
    rw [h.read_nil, List.nil_merge]
    exact ⟨rfl, [], [], h, List.nil_merge ..⟩
  | x :: xs', [] =>
    obtain ⟨hx, hqueues⟩ := h.read_left fun _ hy => by cases hy
    rw [List.merge_right]
    exact ⟨hx, xs', [], hqueues, List.merge_right ..⟩
  | [], y :: ys' =>
    obtain ⟨hy, hqueues⟩ := h.read_right fun _ hx => by cases hx
    rw [List.nil_merge]
    exact ⟨hy, [], ys', hqueues, List.nil_merge ..⟩
  | x :: xs', y :: ys' =>
    have hbefore := before_iff_le (y := y) (h.left x List.mem_cons_self)
    by_cases hxy : Before x y
    · obtain ⟨hx, hqueues⟩ := h.read_left fun z hz => by
        cases hz
        exact hbefore.mp hxy
      rw [List.cons_merge_cons_pos _ _ _ (decide_eq_true hxy)]
      exact ⟨hx, xs', y :: ys', hqueues, rfl⟩
    · obtain ⟨hy, hqueues⟩ := h.read_right fun z hz => by
        cases hz
        exact not_le.mp fun hle => hxy (hbefore.mpr hle)
      rw [List.cons_merge_cons_neg _ _ _ (by simpa using hxy)]
      exact ⟨hy, x :: xs', ys', hqueues, rfl⟩

lemma Queues.readNumber {bufs : List ContainerBuffer} {xs ys : List Entry} (h : Queues bufs xs ys)
    (k : ℕ) : readNumber k bufs = (xs.merge ys fun a b => Before a b)[k]? := by
  induction k generalizing bufs xs ys with
  | zero => exact h.read.1.trans List.head?_eq_getElem?
  | succ k ih =>
    obtain ⟨-, xs', ys', hqueues, htail⟩ := h.read
    rw [Script.readNumber, Function.iterate_succ_apply, ← Script.readNumber, ih hqueues, htail,
      List.getElem?_tail]

lemma struct_of_mem_complete {s : Struct} {buf : Option Bytes} {c : Entry}
    (h : c ∈ complete s buf) : c.struct = s := by
  cases buf with
  | none => cases h
  | some bs =>
    obtain ⟨r, -, rfl⟩ := List.mem_map.mp h
    cases s <;> rfl

lemma queues_selector (listAndSetBuf mapBuf : Option Bytes) :
    Queues (selector listAndSetBuf mapBuf) (complete .listAndSet listAndSetBuf)
      (complete .map mapBuf) := by
  refine ⟨⟨listAndSetBuf.map fun bs => ⟨bs, .listAndSet, 0⟩, mapBuf.map fun bs => ⟨bs, .map, 0⟩,
    ?_, ?_, ?_⟩, fun _ => struct_of_mem_complete, fun _ => struct_of_mem_complete⟩
  · rw [selector]
    cases listAndSetBuf <;> cases mapBuf <;> rfl
  · cases listAndSetBuf <;> rfl
  · cases mapBuf <;> rfl

/-! ### The order -/

lemma Before.trans {a b c : Entry} (hab : Before a b) (hbc : Before b c) : Before a c := by
  rcases hab with hlt | ⟨heq, hs⟩
  · rcases hbc with hlt' | ⟨heq', -⟩
    · exact Or.inl (hlt.trans hlt')
    · exact Or.inl (hlt.trans_eq heq')
  · rcases hbc with hlt' | ⟨heq', hs'⟩
    · exact Or.inl (heq.trans_lt hlt')
    · refine Or.inr ⟨heq.trans heq', ?_⟩
      rcases hs with ha | hb
      · exact Or.inl ha
      · exact hs'.imp (fun hb' => by rw [hb] at hb'; cases hb') id

lemma before_total (a b : Entry) : Before a b ∨ Before b a := by
  rcases lt_trichotomy a.time b.time with hlt | heq | hgt
  · exact Or.inl (Or.inl hlt)
  · cases ha : a.struct with
    | listAndSet => exact Or.inl (Or.inr ⟨heq, Or.inl ha⟩)
    | map => exact Or.inr (Or.inr ⟨heq.symm, Or.inr ha⟩)
  · exact Or.inr (Or.inl hgt)

lemma pairwise_before {s : Struct} {cs : List Entry} (hs : ∀ c ∈ cs, c.struct = s)
    (h : cs.Pairwise fun c c' => c.time ≤ c'.time) : cs.Pairwise Before := by
  refine h.imp_of_mem fun {c c'} hc hc' hle => ?_
  rcases hle.lt_or_eq with hlt | heq
  · exact Or.inl hlt
  · refine Or.inr ⟨heq, ?_⟩
    cases s with
    | listAndSet => exact Or.inl (hs c hc)
    | map => exact Or.inr (hs c' hc')

/-- **The selector is a complete stable merge.** The calls return the records of a list `out`, one
after the other, and then nothing; `out` has the complete records of both buffers, each in its own
order, by time and with lists and sets first. -/
theorem selector_merges (listAndSetBuf mapBuf : Option Bytes)
    (hlist : (complete .listAndSet listAndSetBuf).Pairwise fun c c' => c.time ≤ c'.time)
    (hmap : (complete .map mapBuf).Pairwise fun c c' => c.time ≤ c'.time) :
    ∃ out : List Entry, (∀ k, readNumber k (selector listAndSetBuf mapBuf) = out[k]?) ∧
      out.Perm (complete .listAndSet listAndSetBuf ++ complete .map mapBuf) ∧
      out.filter (fun c => c.struct = .listAndSet) = complete .listAndSet listAndSetBuf ∧
      out.filter (fun c => c.struct = .map) = complete .map mapBuf ∧
      out.Pairwise Before := by
  have hqueues := queues_selector listAndSetBuf mapBuf
  refine ⟨_, hqueues.readNumber, List.merge_perm_append _, ?_, ?_, ?_⟩
  · refine filter_merge_left (fun x hx => decide_eq_true (hqueues.left x hx)) fun y hy => ?_
    rw [hqueues.right y hy]
    rfl
  · refine filter_merge_right (fun x hx => ?_) fun y hy => decide_eq_true (hqueues.right y hy)
    rw [hqueues.left x hx]
    rfl
  · have hsorted := @List.pairwise_merge _ (fun a b => decide (Before a b))
      (fun a b c hab hbc => decide_eq_true ((of_decide_eq_true hab : Before a b).trans
        (of_decide_eq_true hbc))) (fun a b => by simpa using before_total a b) _ _
      ((pairwise_before hqueues.left hlist).imp decide_eq_true)
      ((pairwise_before hqueues.right hmap).imp decide_eq_true)
    exact hsorted.imp of_decide_eq_true

/-- Two records of one time in a buffer, one of the same time in the other, and a partial one. -/
theorem selector_merges_ties :
    ∃ out : List Entry, (∀ k, readNumber k (selector
        (some (sampleFile ListAndSetRecord.toRaw
          [⟨⟨7, 8, 1, 2, 20, 3⟩, 4⟩, ⟨⟨7, 8, 1, 2, 20, 3⟩, 5⟩] ++ [1, 2, 3]))
        (some (sampleFile MapRecord.toRaw [⟨⟨7, 8, 1, 2, 20, 3⟩, 5, 6⟩]))) = out[k]?) ∧
      out.Pairwise Before := by
  obtain ⟨out, hreads, -, -, -, hsorted⟩ := selector_merges
    (some (sampleFile ListAndSetRecord.toRaw
      [⟨⟨7, 8, 1, 2, 20, 3⟩, 4⟩, ⟨⟨7, 8, 1, 2, 20, 3⟩, 5⟩] ++ [1, 2, 3]))
    (some (sampleFile MapRecord.toRaw [⟨⟨7, 8, 1, 2, 20, 3⟩, 5, 6⟩])) (by decide) (by decide)
  exact ⟨out, hreads, hsorted⟩

end Cinst.Script
