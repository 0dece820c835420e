import Cinst.Record.Recorder

/-!
The class `Recorder` with its array: `_buffer` has `_limit` entries, of which those before `_pos` are
in use, and what stands behind them is old.

An access outside the array has no result here (`none`). `Represents` connects this to the recorder
with a list of records, and `calls_lossless` says what a sequence of calls of `add` and `sync` leaves.
-/

namespace Cinst.Record

open Cinst.Lib

variable {size : ℕ}

/-! ### The file and the buffer -/

namespace Recorder

variable {r : Recorder size} {d : Directory} {before : Option Bytes} {w : List (Raw size)}

/-- The records `w` were written to the stream. Before it was opened the file was `before`. -/
structure Written (r : Recorder size) (d : Directory) (before : Option Bytes)
    (w : List (Raw size)) : Prop where
  read : d.read r.name = if r.fout then some (joinRecords w) else before
  closed : r.fout = false → w = []

lemma written_create (limit : ℕ+) (name : String) (d : Directory) :
    (create size limit name).Written d (d.read name) [] :=
  ⟨rfl, fun _ => rfl⟩

lemma Written.sync (h : r.Written d before w) :
    (r.sync d).2.Written (r.sync d).1 before (w ++ r.buffer) := by
  refine ⟨?_, fun hf => by cases hf⟩
  show ((if r.fout then d else d.write r.name []).append r.name (joinRecords r.buffer)).read r.name =
    some (joinRecords (w ++ r.buffer))
  rw [Directory.read_append_self, joinRecords_append]
  cases hf : r.fout with
  | true => rw [if_pos rfl, h.read, hf, if_pos rfl, Option.map_some]
  | false => rw [if_neg (by simp), Directory.read_write_self, h.closed hf, Option.map_some,
      joinRecords_nil, List.nil_append]

lemma Written.add (h : r.Written d before w) (x : Raw size) :
    ∃ w', (r.add d x).2.Written (r.add d x).1 before w' ∧
      w' ++ (r.add d x).2.buffer = w ++ r.buffer ++ [x] := by
  unfold Recorder.add
  split
  · exact ⟨w ++ r.buffer, ⟨h.sync.read, fun hf => by cases hf⟩, rfl⟩
  · exact ⟨w, ⟨h.read, h.closed⟩, (List.append_assoc ..).symm⟩

/-- After the destructor the file is all that was written or in the buffer; a file that was never
opened is as before. -/
lemma Written.destroy (h : r.Written d before w) :
    (r.destroy d).read r.name =
      if r.fout = false ∧ r.buffer = [] then before else some (joinRecords (w ++ r.buffer)) := by
  unfold Recorder.destroy
  split
  · rename_i hbuf
    rw [if_neg fun hnil => hbuf hnil.2]
    exact h.sync.read
  · rename_i hbuf
    rw [not_not.mp hbuf, List.append_nil, h.read]
    cases r.fout <;> simp

end Recorder

/-! ### The array -/

/-- A `Recorder` with its members. -/
structure ArrayRecorder (size : ℕ) where
  limit : ℕ
  name : String
  pos : ℕ
  buffer : List (Raw size)
  fout : Bool

/-- A call from outside. -/
inductive RecorderCall (size : ℕ) where
  | add (x : Raw size)
  | sync

/-- The records that are added by the calls. -/
def added (calls : List (RecorderCall size)) : List (Raw size) :=
  calls.filterMap fun
    | .add x => some x
    | .sync => none

namespace ArrayRecorder

/-- The constructor; `new Record[_limit]` leaves the entries as they are in memory. -/
def create (limit : ℕ+) (mem : Fin limit → Raw size) (name : String) : ArrayRecorder size :=
  ⟨limit, name, 0, List.ofFn mem, false⟩

/-- `sync_bin`, which reads the entries before `_pos`. -/
def sync (r : ArrayRecorder size) (d : Directory) : Option (Directory × ArrayRecorder size) :=
  if r.pos ≤ r.buffer.length then
    let opened := if r.fout then d else d.write r.name []
    some (opened.append r.name (joinRecords (r.buffer.take r.pos)),
      { r with pos := 0, fout := true })
  else none

/-- `_buffer[_pos++] = r`. -/
def store (r : ArrayRecorder size) (x : Raw size) : Option (ArrayRecorder size) :=
  if r.pos < r.buffer.length then
    some { r with buffer := r.buffer.set r.pos x, pos := r.pos + 1 }
  else none

/-- `add`. -/
def add (r : ArrayRecorder size) (d : Directory) (x : Raw size) :
    Option (Directory × ArrayRecorder size) :=
  (if r.pos ≥ r.limit then r.sync d else some (d, r)).bind fun s =>
    (s.2.store x).map fun r' => (s.1, r')

/-- The destructor. -/
def destroy (r : ArrayRecorder size) (d : Directory) : Option Directory :=
  if r.pos ≠ 0 then (r.sync d).map Prod.fst else some d

/-- A call. -/
def step (s : Directory × ArrayRecorder size) :
    RecorderCall size → Option (Directory × ArrayRecorder size)
  | .add x => s.2.add s.1 x
  | .sync => s.2.sync s.1

/-- A sequence of calls. -/
def run (s : Directory × ArrayRecorder size) (calls : List (RecorderCall size)) :
    Option (Directory × ArrayRecorder size) :=
  calls.foldlM step s

/-! ### The array stands for a list -/

/-- The entries before `_pos` are the buffer of the recorder `a`. -/
structure Represents (r : ArrayRecorder size) (a : Recorder size) : Prop where
  limit : r.limit = a.limit
  name : r.name = a.name
  length : r.buffer.length = r.limit
  pos : r.pos = a.buffer.length
  buffer : r.buffer.take r.pos = a.buffer
  fout : r.fout = a.fout

variable {r : ArrayRecorder size} {a : Recorder size}

lemma represents_create (limit : ℕ+) (mem : Fin limit → Raw size) (name : String) :
    (create limit mem name).Represents (Recorder.create size limit name) :=
  ⟨rfl, rfl, List.length_ofFn, rfl, rfl, rfl⟩

namespace Represents

lemma pos_le (h : r.Represents a) : r.pos ≤ r.limit := by
  rw [h.pos, h.limit]
  exact a.le_limit

lemma sync (h : r.Represents a) (d : Directory) :
    ∃ r', r.sync d = some ((a.sync d).1, r') ∧ r'.Represents (a.sync d).2 := by
  have hle : r.pos ≤ r.buffer.length := by
    rw [h.length]
    exact h.pos_le
  refine ⟨{ r with pos := 0, fout := true }, ?_, h.limit, h.name, h.length, rfl, rfl, rfl⟩
  rw [ArrayRecorder.sync, if_pos hle, h.buffer, h.fout, h.name]
  rfl

lemma store (h : r.Represents a) {b : Recorder size} {x : Raw size} (hlt : r.pos < r.limit)
    (hlimit : b.limit = a.limit) (hname : b.name = a.name) (hbuffer : b.buffer = a.buffer ++ [x])
    (hfout : b.fout = a.fout) : ∃ r', r.store x = some r' ∧ r'.Represents b := by
  have hpos : r.pos < r.buffer.length := by rwa [h.length]
  refine ⟨{ r with buffer := r.buffer.set r.pos x, pos := r.pos + 1 }, ?_, ?_⟩
  · rw [ArrayRecorder.store, if_pos hpos]
  · refine ⟨h.limit.trans hlimit.symm, h.name.trans hname.symm, ?_, ?_, ?_, h.fout.trans hfout.symm⟩
    · exact (List.length_set ..).trans h.length
    · rw [hbuffer, List.length_append, List.length_singleton, ← h.pos]
    · rw [hbuffer, ← h.buffer]
      dsimp only
      rw [List.take_add_one, List.take_set_of_le (le_refl _), List.getElem?_set_self hpos]
      rfl

lemma add (h : r.Represents a) (d : Directory) (x : Raw size) :
    ∃ r', r.add d x = some ((a.add d x).1, r') ∧ r'.Represents (a.add d x).2 := by
  rw [ArrayRecorder.add, Recorder.add]
  by_cases hfull : r.pos ≥ r.limit
  · -- the buffer is written, and the record is stored at its beginning
    have hfull' : a.limit ≤ a.buffer.length := by
      rw [← h.limit, ← h.pos]
      exact hfull
    obtain ⟨r', hsync, hr'⟩ := h.sync d
    have hpos : r'.pos < r'.limit := by
      rw [hr'.pos, hr'.limit]
      exact a.limit_pos
    obtain ⟨r'', hstore, hr''⟩ := hr'.store (x := x)
      (b := ⟨a.limit, a.name, [x], true, a.limit_pos, a.limit_pos⟩) hpos rfl rfl rfl rfl
    rw [if_pos hfull, dif_pos hfull', hsync, Option.bind_some, hstore]
    exact ⟨r'', rfl, hr''⟩
  · have hfull' : ¬ a.limit ≤ a.buffer.length := by
      rw [← h.limit, ← h.pos]
      exact hfull
    rw [if_neg hfull, dif_neg hfull', Option.bind_some]
    obtain ⟨r', hstore, hr'⟩ := h.store (x := x)
      (b := ⟨a.limit, a.name, a.buffer ++ [x], a.fout, a.limit_pos, by simp; omega⟩)
      (not_le.mp hfull) rfl rfl rfl rfl
    rw [hstore]
    exact ⟨r', rfl, hr'⟩

lemma destroy (h : r.Represents a) (d : Directory) : r.destroy d = some (a.destroy d) := by
  obtain ⟨r', hsync, -⟩ := h.sync d
  have hiff : r.pos ≠ 0 ↔ a.buffer ≠ [] := by
    rw [h.pos, Ne, List.length_eq_zero_iff]
  rw [ArrayRecorder.destroy, Recorder.destroy, hsync]
  by_cases hbuf : a.buffer = []
  · rw [if_neg (by rw [hiff]; exact not_not.mpr hbuf), if_neg (not_not.mpr hbuf)]
  · rw [if_pos (hiff.mpr hbuf), if_pos hbuf]
    rfl

end Represents

/-! ### Sequences of calls -/

/-- The recorder `r` with the directory `d`, after the records `rs` were added: it stands for the
recorder `a`, and `w` was written to the stream. -/
structure Keeps (d : Directory) (r : ArrayRecorder size) (before : Option Bytes)
    (rs : List (Raw size)) (a : Recorder size) (w : List (Raw size)) : Prop where
  represents : r.Represents a
  written : a.Written d before w
  all : w ++ a.buffer = rs

variable {d : Directory} {before : Option Bytes} {rs w : List (Raw size)}

/-- **One call.** The last part is what is left of a call: the stream is open, or there is a record
in the buffer. -/
lemma Keeps.step (h : Keeps d r before rs a w) (c : RecorderCall size) :
    ∃ d' r' a' w', ArrayRecorder.step (d, r) c = some (d', r') ∧
      Keeps d' r' before (rs ++ added [c]) a' w' ∧ a'.limit = a.limit ∧ a'.name = a.name ∧
      ¬ (a'.fout = false ∧ a'.buffer = []) := by
  cases c with
  | add x =>
    obtain ⟨r', hadd, hr'⟩ := h.represents.add d x
    obtain ⟨w', hw', hall⟩ := h.written.add x
    refine ⟨_, r', _, w', hadd, ⟨hr', hw', ?_⟩, ?_, a.add_name d x, ?_⟩
    · rw [hall, h.all]
      rfl
    · unfold Recorder.add
      split <;> rfl
    · unfold Recorder.add
      split <;> simp
  | sync =>
    obtain ⟨r', hsync, hr'⟩ := h.represents.sync d
    refine ⟨_, r', _, w ++ a.buffer, hsync, ⟨hr', h.written.sync, ?_⟩, rfl, rfl, ?_⟩
    · rw [h.all]
      rfl
    · rintro ⟨hf, -⟩
      cases hf

/-- **A sequence of calls.** -/
theorem Keeps.run (h : Keeps d r before rs a w) (calls : List (RecorderCall size)) :
    ∃ d' r' a' w', ArrayRecorder.run (d, r) calls = some (d', r') ∧
      Keeps d' r' before (rs ++ added calls) a' w' ∧ a'.limit = a.limit ∧ a'.name = a.name ∧
      (a'.fout = false ∧ a'.buffer = [] → calls = [] ∧ a.fout = false ∧ a.buffer = []) := by
  induction calls generalizing d r rs a w with
  | nil => exact ⟨d, r, a, w, rfl, by simpa [added] using h, rfl, rfl, fun hnil => ⟨rfl, hnil⟩⟩
  | cons c calls ih =>
    obtain ⟨d', r', a', w', hstep, hk, hlimit, hname, hopen⟩ := h.step c
    obtain ⟨d'', r'', a'', w'', hrun, hk', hlimit', hname', hopen'⟩ := ih hk
    refine ⟨d'', r'', a'', w'', ?_, ?_, hlimit'.trans hlimit, hname'.trans hname, ?_⟩
    · rw [ArrayRecorder.run, List.foldlM_cons, hstep]
      exact hrun
    · rw [List.append_assoc, added, added, ← List.filterMap_append] at hk'
      exact hk'
    · intro hnil
      exact absurd (hopen' hnil).2 hopen

/-- **A recorder loses no record and writes none twice.** After any calls of `add` and `sync` all
accesses were inside the array; the records `w` in the stream and those in the buffer are the ones
that were added, in their order, and at most `limit` of them are not in the stream. After the
destructor the file is all of them; it is not opened when there was no call. -/
theorem calls_lossless (limit : ℕ+) (mem : Fin limit → Raw size) (name : String) (d : Directory)
    (calls : List (RecorderCall size)) :
    ∃ d' r w, run (d, create limit mem name) calls = some (d', r) ∧
      r.limit = limit ∧ r.pos ≤ limit ∧
      w ++ r.buffer.take r.pos = added calls ∧
      d'.read name = (if r.fout then some (joinRecords w) else d.read name) ∧
      (r.fout = false → w = []) ∧
      w <+: added calls ∧ (added calls).length ≤ w.length + limit ∧
      ∃ d'', r.destroy d' = some d'' ∧
        d''.read name = if calls = [] then d.read name else some (joinRecords (added calls)) := by
  have hinit : Keeps d (create limit mem name) (d.read name) [] (Recorder.create size limit name) [] :=
    ⟨represents_create limit mem name, Recorder.written_create limit name d, rfl⟩
  obtain ⟨d', r, a, w, hrun, hk, hlimit, hname, hopen⟩ := hinit.run calls
  have hall : w ++ a.buffer = added calls := hk.all
  have hlimit : a.limit = limit := hlimit
  have hname : a.name = name := hname
  have hrlimit : r.limit = limit := hk.represents.limit.trans hlimit
  have hle := hk.represents.pos_le
  refine ⟨d', r, w, hrun, hrlimit, hrlimit ▸ hle, ?_, ?_, ?_, ⟨a.buffer, hall⟩, ?_, _,
    hk.represents.destroy d', ?_⟩
  · rw [hk.represents.buffer, hall]
  · rw [hk.represents.fout, ← hk.written.read, hname]
  · rw [hk.represents.fout]
    exact hk.written.closed
  · rw [← hall, List.length_append, ← hlimit]
    exact Nat.add_le_add_left a.le_limit _
  · have hread := hk.written.destroy
    rw [hname, hall] at hread
    rw [hread]
    by_cases hcalls : calls = []
    · subst hcalls
      cases hrun
      rw [if_pos rfl, if_pos]
      have hpos := hk.represents.pos
      exact ⟨hk.represents.fout.symm, List.length_eq_zero_iff.mp hpos.symm⟩
    · rw [if_neg fun hnil => hcalls (hopen hnil).1, if_neg hcalls]

end ArrayRecorder

end Cinst.Record
