import Cinst.Lib.Directory

/-!
The class `Recorder`: records are collected in a buffer, which is written to a file when it is full
and when the recorder is destroyed. The file is opened, and emptied, when the buffer is written for
the first time.

What is written to a stream is in the file at once here. The stream is closed by the destructor, so
after that there is no difference.
-/

namespace Cinst.Record

open Cinst.Lib

/-- A `Recorder` for records of `size` bytes: `_limit`, the name of the file, the records in
`_buffer` before `_pos`, and whether `fout` is open. -/
structure Recorder (size : ℕ) where
  limit : ℕ
  name : String
  buffer : List (Raw size)
  fout : Bool
  limit_pos : 0 < limit
  le_limit : buffer.length ≤ limit

namespace Recorder

variable {size : ℕ}

/-- The constructor. -/
def create (size : ℕ) (limit : ℕ+) (name : String) : Recorder size :=
  ⟨limit, name, [], false, limit.pos, Nat.zero_le _⟩

/-- `sync_bin`: `fout->open` with `ios::out` empties the file. -/
def sync (r : Recorder size) (d : Directory) : Directory × Recorder size :=
  let opened := if r.fout then d else d.write r.name []
  (opened.append r.name (joinRecords r.buffer),
    ⟨r.limit, r.name, [], true, r.limit_pos, Nat.zero_le _⟩)

/-- `add`. -/
def add (r : Recorder size) (d : Directory) (x : Raw size) : Directory × Recorder size :=
  if h : r.limit ≤ r.buffer.length then
    ((r.sync d).1, ⟨r.limit, r.name, [x], true, r.limit_pos, r.limit_pos⟩)
  else
    (d, ⟨r.limit, r.name, r.buffer ++ [x], r.fout, r.limit_pos, by
      rw [List.length_append, List.length_singleton]
      omega⟩)

/-- The destructor. -/
def destroy (r : Recorder size) (d : Directory) : Directory :=
  if r.buffer ≠ [] then (r.sync d).1 else d

@[simp] lemma create_name (limit : ℕ+) (name : String) : (create size limit name).name = name := rfl

@[simp] lemma add_name (r : Recorder size) (d : Directory) (x : Raw size) :
    (r.add d x).2.name = r.name := by
  unfold add
  split <;> rfl

/-! ### What a recorder has written -/

/-- The records `rs` were added to the recorder, and before that its file was `before`. The first
records `w` are in the file, as soon as it is open, and the others in the buffer. -/
structure Added (r : Recorder size) (d : Directory) (before : Option Bytes) (rs : List (Raw size)) :
    Prop where
  split : ∃ w, rs = w ++ r.buffer ∧ (r.fout = true ↔ w ≠ []) ∧
    d.read r.name = if r.fout then some (joinRecords w) else before

section Added

variable {r : Recorder size} {d : Directory} {before : Option Bytes} {rs : List (Raw size)}

lemma added_create (limit : ℕ+) (name : String) (d : Directory) :
    (create size limit name).Added d (d.read name) [] :=
  ⟨[], rfl, by simp [create], rfl⟩

lemma Added.congr (h : r.Added d before rs) {d' : Directory}
    (hd : d'.read r.name = d.read r.name) : r.Added d' before rs := by
  obtain ⟨w, hrs, hw, hread⟩ := h.split
  exact ⟨w, hrs, hw, hd.trans hread⟩

lemma read_sync (r : Recorder size) (d : Directory) {name : String} (h : name ≠ r.name) :
    (r.sync d).1.read name = d.read name := by
  rw [sync]
  dsimp only
  rw [Directory.read_append_ne h]
  split
  · rfl
  · exact Directory.read_write_ne h

lemma read_add (r : Recorder size) (d : Directory) (x : Raw size) {name : String}
    (h : name ≠ r.name) : (r.add d x).1.read name = d.read name := by
  unfold add
  split
  · exact r.read_sync d h
  · rfl

lemma read_destroy (r : Recorder size) (d : Directory) {name : String} (h : name ≠ r.name) :
    (r.destroy d).read name = d.read name := by
  unfold destroy
  split
  · exact r.read_sync d h
  · rfl

lemma Added.read_sync_self (h : r.Added d before rs) :
    (r.sync d).1.read r.name = some (joinRecords rs) := by
  obtain ⟨w, rfl, hw, hread⟩ := h.split
  rw [sync]
  dsimp only
  rw [Directory.read_append_self]
  cases hf : r.fout with
  | true =>
    rw [if_pos rfl, hread, hf, if_pos rfl, Option.map_some, joinRecords_append]
  | false =>
    have hnil : w = [] := by
      by_contra hne
      rw [hf] at hw
      exact absurd (hw.mpr hne) (by simp)
    rw [if_neg (by simp), Directory.read_write_self, hnil]
    rfl

theorem Added.add (h : r.Added d before rs) (x : Raw size) :
    (r.add d x).2.Added (r.add d x).1 before (rs ++ [x]) := by
  unfold Recorder.add
  split
  · rename_i hfull
    refine ⟨rs, rfl, ⟨fun _ hnil => ?_, fun _ => rfl⟩, h.read_sync_self⟩
    obtain ⟨w, rfl, -, -⟩ := h.split
    have hlimit := r.limit_pos
    rw [(List.append_eq_nil_iff.mp hnil).2] at hfull
    exact absurd hfull (not_le.mpr hlimit)
  · obtain ⟨w, rfl, hw, hread⟩ := h.split
    exact ⟨w, by rw [List.append_assoc], hw, hread⟩

/-- **After the destructor** the file holds all records that were added; without records it is as
before. -/
theorem Added.destroy (h : r.Added d before rs) :
    (r.destroy d).read r.name = if rs = [] then before else some (joinRecords rs) := by
  unfold Recorder.destroy
  split
  · rename_i hbuf
    have hne : rs ≠ [] := by
      obtain ⟨w, rfl, -, -⟩ := h.split
      simp [hbuf]
    rw [if_neg hne, h.read_sync_self]
  · rename_i hbuf
    obtain ⟨w, rfl, hw, hread⟩ := h.split
    rw [not_not.mp hbuf, List.append_nil, hread]
    by_cases hnil : w = []
    · rw [if_pos hnil, if_neg (by rw [hw]; exact fun hne => hne hnil)]
    · rw [if_neg hnil, if_pos (hw.mpr hnil)]

end Added

/-! ### Several recorders -/

section DestroyAll

variable {ι : Type*} {size : ι → ℕ} (rs : (i : ι) → Recorder (size i))

lemma read_foldl_destroy {name : String} {is : List ι} (h : ∀ i ∈ is, name ≠ (rs i).name)
    (d : Directory) : (is.foldl (fun d i => (rs i).destroy d) d).read name = d.read name := by
  induction is generalizing d with
  | nil => rfl
  | cons i is ih =>
    rw [List.foldl_cons, ih fun j hj => h j (List.mem_cons_of_mem _ hj)]
    exact read_destroy _ _ (h i (List.mem_cons_self ..))

/-- After the destructors of several recorders, with distinct names, each file holds all that was
added to its recorder. -/
theorem Added.foldl_destroy (hname : Function.Injective fun i => (rs i).name) {is : List ι}
    (hn : is.Nodup) {i : ι} (hi : i ∈ is) {d : Directory} {before : Option Bytes}
    {s : List (Raw (size i))} (h : (rs i).Added d before s) :
    (is.foldl (fun d i => (rs i).destroy d) d).read (rs i).name =
      if s = [] then before else some (joinRecords s) := by
  obtain ⟨js, js', rfl⟩ := List.append_of_mem hi
  obtain ⟨-, hn', hdisj⟩ := List.nodup_append.mp hn
  have hbefore : ∀ j ∈ js, (rs i).name ≠ (rs j).name := by
    intro j hj e
    exact hdisj j hj i (List.mem_cons_self ..) (hname e).symm
  have hafter : ∀ j ∈ js', (rs i).name ≠ (rs j).name := by
    intro j hj e
    exact (List.nodup_cons.mp hn').1 (hname e ▸ hj)
  rw [List.foldl_append, List.foldl_cons, read_foldl_destroy rs hafter]
  exact (h.congr (read_foldl_destroy rs hbefore d)).destroy

end DestroyAll

/-- The life of a recorder: records are added, and it is destroyed. -/
def session (limit : ℕ+) (name : String) (d : Directory) (rs : List (Raw size)) : Directory :=
  let last := rs.foldl (fun s r => s.2.add s.1 r) (d, create size limit name)
  last.2.destroy last.1

lemma foldl_add_name (rs : List (Raw size)) (s : Directory × Recorder size) :
    (rs.foldl (fun s r => s.2.add s.1 r) s).2.name = s.2.name := by
  induction rs generalizing s with
  | nil => rfl
  | cons r rs ih => rw [List.foldl_cons, ih, add_name]

lemma Added.foldl_add {r : Recorder size} {d : Directory} {before : Option Bytes}
    {rs : List (Raw size)} (h : r.Added d before rs) (rs' : List (Raw size)) :
    (rs'.foldl (fun s r => s.2.add s.1 r) (d, r)).2.Added
      (rs'.foldl (fun s r => s.2.add s.1 r) (d, r)).1 before (rs ++ rs') := by
  induction rs' generalizing r d rs with
  | nil =>
    rw [List.append_nil]
    exact h
  | cons x rs' ih =>
    have hadd := ih (h.add x)
    rw [List.append_assoc] at hadd
    exact hadd

/-- **A recorder writes its records in their order**, whatever the size of its buffer. -/
theorem read_session (limit : ℕ+) (name : String) (d : Directory) (rs : List (Raw size)) :
    (session limit name d rs).read name =
      if rs = [] then d.read name else some (joinRecords rs) := by
  have h := ((added_create limit name d).foldl_add rs).destroy
  rw [foldl_add_name, create_name, List.nil_append] at h
  exact h

end Recorder

end Cinst.Record
