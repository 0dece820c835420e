import Cinst.Native.Container
import Cinst.Script.Decode

/-!
Container operations are attributed to their own call sites: from the calls on a thread, through the
three files of its records, to the rows of the table `CONTAINERS`.

A line record is written only when the last container call has made a record, and nothing is written
between the two, so every line record stands directly behind its operation (`paired_emissions`).
-/

namespace Cinst.Script

open Cinst.Lib Cinst.Record Cinst.Native

/-! ### The records that the calls add -/

section Emissions

variable {Obj : Type*} [DecidableEq Obj]

/-- The records that a call adds. -/
def emitted (s : Thread Obj) : ThreadCall Obj → List (Entry ⊕ ContainerLineInfoRecord)
  | .container call amb => (call.op.record amb s).toList.map .inl
  | .lineInfo line classNameId amb =>
    if s.enable ∧ s.isSampledContainer then [.inr (lineRecord line classNameId amb.nanotime)] else []
  | .enableRecord | .disableRecord | .retag .. => []

/-- The records that a sequence of calls adds, in the order in which they are added. -/
def emissions (s : Thread Obj) : List (ThreadCall Obj) → List (Entry ⊕ ContainerLineInfoRecord)
  | [] => []
  | c :: calls => emitted s c ++ emissions (s.step c) calls

/-- The recorders hold the records `es`, each the ones of its type. -/
structure Holds (s : Thread Obj) (es : List (Entry ⊕ ContainerLineInfoRecord)) : Prop where
  list : s.listAndSetRecord.map (fun r => Entry.listAndSet (readListAndSet r)) =
    (containers es).filter fun c => c.struct = .listAndSet
  map : s.mapRecord.map (fun r => Entry.map (readMap r)) =
    (containers es).filter fun c => c.struct = .map
  line : s.containerLineInfoRecorder.map readLineInfo = lines es

lemma containers_append (es es' : List (Entry ⊕ ContainerLineInfoRecord)) :
    containers (es ++ es') = containers es ++ containers es' :=
  List.filterMap_append ..

lemma lines_append (es es' : List (Entry ⊕ ContainerLineInfoRecord)) :
    lines (es ++ es') = lines es ++ lines es' :=
  List.filterMap_append ..

omit [DecidableEq Obj] in
lemma Holds.add {s : Thread Obj} {es : List (Entry ⊕ ContainerLineInfoRecord)} (h : Holds s es)
    (amb : Ambient) (c : Entry) : Holds (s.add amb c) (es ++ [.inl c]) := by
  cases c with
  | listAndSet r =>
    refine ⟨?_, ?_, ?_⟩
    · rw [Thread.add, List.map_append, h.list, containers_append, List.filter_append,
        List.map_singleton, readListAndSet_toRaw]
      rfl
    · rw [Thread.add, h.map, containers_append, List.filter_append]
      simp [containers, Entry.struct]
    · rw [Thread.add, h.line, lines_append]
      simp [lines]
  | map r =>
    refine ⟨?_, ?_, ?_⟩
    · rw [Thread.add, h.list, containers_append, List.filter_append]
      simp [containers, Entry.struct]
    · rw [Thread.add, List.map_append, h.map, containers_append, List.filter_append,
        List.map_singleton, readMap_toRaw]
      rfl
    · rw [Thread.add, h.line, lines_append]
      simp [lines]

theorem Holds.step {s : Thread Obj} {es : List (Entry ⊕ ContainerLineInfoRecord)} (h : Holds s es)
    (c : ThreadCall Obj) : Holds (s.step c) (es ++ emitted s c) := by
  cases c with
  | container call amb =>
    obtain ⟨env, hrun⟩ := run_container s amb call.op
    rw [Thread.step, hrun, emitted]
    cases call.op.record amb s with
    | none => simpa using ⟨h.list, h.map, h.line⟩
    | some c =>
      have hs : Holds { s with localEnv := env, isSampledContainer := true } es :=
        ⟨h.list, h.map, h.line⟩
      exact hs.add amb c
  | lineInfo line classNameId amb =>
    rw [Thread.step, addContainerLineInfoRecord, emitted]
    by_cases hon : s.enable ∧ s.isSampledContainer
    · rw [if_pos hon, if_neg (by simp [hon])]
      refine ⟨?_, ?_, ?_⟩
      · rw [h.list, containers_append]
        simp [containers]
      · rw [h.map, containers_append]
        simp [containers]
      · rw [List.map_append, h.line, lines_append, List.map_singleton, readLineInfo_toRaw]
        rfl
    · rw [if_neg hon, if_pos (by simpa [imp_iff_not_or] using hon), List.append_nil]
      exact h
  | enableRecord => simpa [emitted] using ⟨h.list, h.map, h.line⟩
  | disableRecord => simpa [emitted] using ⟨h.list, h.map, h.line⟩
  | retag localEnv jvmtiEnv => simpa [emitted] using ⟨h.list, h.map, h.line⟩

/-- **The recorders hold what the calls add.** -/
theorem Holds.run {s : Thread Obj} {es : List (Entry ⊕ ContainerLineInfoRecord)} (h : Holds s es)
    (calls : List (ThreadCall Obj)) : Holds (s.run calls) (es ++ emissions s calls) := by
  induction calls generalizing s es with
  | nil =>
    rw [emissions, List.append_nil]
    exact h
  | cons c calls ih =>
    rw [emissions, ← List.append_assoc]
    exact ih (h.step c)

/-! ### Lines stand behind their operations -/

lemma record_time {s : Thread Obj} {call : ContainerCall Obj} {amb : Ambient} {c : Entry}
    (h : call.op.record amb s = some c) : c.br.time = amb.nanotime := by
  unfold ContainerOp.record at h
  dsimp only at h
  split at h
  · cases h
    cases call <;> rfl
  · cases h

lemma emitted_sublist (s : Thread Obj) (c : ThreadCall Obj) :
    ((emitted s c).map stamp).Sublist (c.nanotime?.toList.map fun t => (t.toNat : ℤ)) := by
  cases c with
  | container call amb =>
    rw [emitted]
    cases hrec : call.op.record amb s with
    | none => simp
    | some c => simp [stamp, Entry.time, record_time hrec, ThreadCall.nanotime?]
  | lineInfo line classNameId amb =>
    rw [emitted]
    split
    · simp [stamp, lineTime, lineRecord, ThreadCall.nanotime?]
    · simp
  | enableRecord => simp [emitted]
  | disableRecord => simp [emitted]
  | retag localEnv jvmtiEnv => simp [emitted]

lemma emissions_sublist (s : Thread Obj) (calls : List (ThreadCall Obj)) :
    ((emissions s calls).map stamp).Sublist
      ((calls.filterMap ThreadCall.nanotime?).map fun t => (t.toNat : ℤ)) := by
  induction calls generalizing s with
  | nil => exact List.Sublist.refl _
  | cons c calls ih =>
    have hcons : (c :: calls).filterMap ThreadCall.nanotime? =
        c.nanotime?.toList ++ calls.filterMap ThreadCall.nanotime? := by
      cases hc : c.nanotime? <;> simp [hc]
    rw [emissions, hcons, List.map_append, List.map_append]
    exact (emitted_sublist s c).append (ih _)

/-- What the last container call was does not matter when there has to be another one before the
next line call. -/
lemma attributed_eq_none {calls : List (ThreadCall Obj)} {s : Thread Obj} {enable : Bool}
    (h : Disciplined enable none calls) (last : Option Entry) :
    attributed s last calls = attributed s none calls := by
  induction calls generalizing s enable with
  | nil => rfl
  | cons c calls ih =>
    cases c with
    | container call amb => rfl
    | lineInfo line classNameId amb => cases h.1
    | enableRecord => exact ih h
    | disableRecord => exact ih h
    | retag localEnv jvmtiEnv => exact ih h

/-- The record of the last container call since the last line call, where `last` is the value of
`enable` at that call: `is_sampled_container` says whether there is one. -/
def Pending (s : Thread Obj) (last : Option Bool) (record : Option Entry) : Prop :=
  if last = some true then s.isSampledContainer = record.isSome else record = none

lemma step_container (s : Thread Obj) (call : ContainerCall Obj) (amb : Ambient) :
    (s.step (.container call amb)).enable = s.enable ∧
      Pending (s.step (.container call amb)) (some s.enable) (call.op.record amb s) := by
  obtain ⟨env, hrun⟩ := run_container s amb call.op
  rw [Thread.step, hrun]
  cases hrec : call.op.record amb s with
  | none =>
    refine ⟨rfl, ?_⟩
    rw [Pending]
    split
    · rename_i he
      simp [Option.some.inj he]
    · rfl
  | some c =>
    have he : s.enable = true := by
      unfold ContainerOp.record at hrec
      dsimp only at hrec
      split at hrec
      · rename_i h
        exact h.1
      · cases hrec
    cases c with
    | listAndSet r => exact ⟨rfl, by rw [he]; rfl⟩
    | map r => exact ⟨rfl, by rw [he]; rfl⟩

/-- **Every line record stands directly behind the record of its operation.** -/
theorem paired_emissions {calls : List (ThreadCall Obj)} {s : Thread Obj} {last : Option Bool}
    {record : Option Entry} (hd : Disciplined s.enable last calls) (hp : Pending s last record) :
    Paired (record.toList.map .inl ++ emissions s calls) (attributed s record calls) := by
  induction calls generalizing s last record with
  | nil => exact Paired.nil.pending record
  | cons c calls ih =>
    rw [emissions]
    cases c with
    | container call amb =>
      obtain ⟨henable, hpend⟩ := step_container s call amb
      have hd : Disciplined (s.step (.container call amb)).enable (some s.enable) calls := by
        rw [henable]
        exact hd
      exact (ih hd hpend).pending record
    | lineInfo line classNameId amb =>
      obtain ⟨hlast, hd⟩ := hd
      have hd' : Disciplined (s.step (.lineInfo line classNameId amb)).enable none calls := by
        rw [Thread.step, addContainerLineInfoRecord]
        split <;> exact hd
      have hrest := ih hd' (show Pending _ none none from rfl)
      rw [attributed, attributed_eq_none hd, emitted]
      -- the line is recorded if and only if the operation is
      have hiff : s.enable = true ∧ s.isSampledContainer = true ↔ record.isSome := by
        rw [hlast, Pending] at hp
        cases he : s.enable with
        | false =>
          rw [he, if_neg (by simp)] at hp
          simp [hp]
        | true =>
          rw [he, if_pos rfl] at hp
          simp [hp]
      cases record with
      | none =>
        rw [if_neg (fun h => by simpa using hiff.mp h)]
        exact hrest
      | some c =>
        rw [if_pos (hiff.mpr rfl)]
        exact .pair c _ hrest
    | enableRecord => exact ih (s := s.step .enableRecord) hd hp
    | disableRecord => exact ih (s := s.step .disableRecord) hd hp
    | retag localEnv jvmtiEnv => exact ih (s := s.step (.retag localEnv jvmtiEnv)) hd hp

/-! ### From the calls to the rows -/

/-- The file of a recorder; a recorder without records writes none. -/
def FileOf {size : ℕ} (rs : List (Raw size)) (buf : Option Bytes) : Prop :=
  buf = some (joinRecords rs) ∨ buf = none ∧ rs = []

lemma FileOf.reads {s : Struct} {rs : List (Raw s.size)} {buf : Option Bytes} (h : FileOf rs buf) :
    Reads s buf (rs.map s.decode) := by
  rcases h with rfl | ⟨rfl, rfl⟩
  · exact Or.inl ⟨_, rfl, by rw [records_joinRecords s.size_pos]⟩
  · exact Or.inr ⟨rfl, rfl⟩

omit [DecidableEq Obj] in
lemma holds_init (localEnv jvmtiEnv : Obj → Int64) :
    Holds (Thread.init localEnv jvmtiEnv) [] :=
  ⟨rfl, rfl, rfl⟩

/-- **Container operations are attributed to their own call sites.** The rows that the script makes
from the files of a thread are those of the line calls whose last container call was made while
recording was enabled, on a sampled container, in the order of the calls: each has the record of that
container call and the line and the class of the line call. -/
theorem rows_attributed (localEnv jvmtiEnv : Obj → Int64) (calls : List (ThreadCall Obj))
    (htime : (calls.filterMap ThreadCall.nanotime?).Pairwise (· < ·)) (hd : Disciplined true none calls)
    (listAndSetBuf mapBuf : Option Bytes)
    (hlist : FileOf ((Thread.init localEnv jvmtiEnv).run calls).listAndSetRecord listAndSetBuf)
    (hmap : FileOf ((Thread.init localEnv jvmtiEnv).run calls).mapRecord mapBuf) :
    records (joinRecords ((Thread.init localEnv jvmtiEnv).run calls).containerLineInfoRecorder)
        listAndSetBuf mapBuf =
      (attributed (Thread.init localEnv jvmtiEnv) none calls).map fun p => row p.1 p.2 := by
  have hholds := (holds_init localEnv jvmtiEnv).run calls
  rw [List.nil_append] at hholds
  have hd : Disciplined (Thread.init localEnv jvmtiEnv).enable none calls := hd
  have hpaired : Paired (emissions (Thread.init localEnv jvmtiEnv) calls) _ :=
    paired_emissions hd (show Pending _ none none from rfl)
  have hstamps : ((emissions (Thread.init localEnv jvmtiEnv) calls).map stamp).Pairwise (· < ·) := by
    refine List.Pairwise.sublist (emissions_sublist _ calls) (List.pairwise_map.mpr ?_)
    exact htime.imp fun h => by exact_mod_cast h
  have hlist : Reads .listAndSet listAndSetBuf
      (((Thread.init localEnv jvmtiEnv).run calls).listAndSetRecord.map
        fun r => Entry.listAndSet (readListAndSet r)) := FileOf.reads (s := .listAndSet) hlist
  have hmap : Reads .map mapBuf (((Thread.init localEnv jvmtiEnv).run calls).mapRecord.map
      fun r => Entry.map (readMap r)) := FileOf.reads (s := .map) hmap
  have hcut := records_joinRecords (Kind.size_pos .containerLineInfo)
    ((Thread.init localEnv jvmtiEnv).run calls).containerLineInfoRecorder
  rw [hholds.list] at hlist
  rw [hholds.map] at hmap
  exact records_paired hpaired hstamps
    ((congrArg (List.map readLineInfo) hcut).trans hholds.line) hlist hmap

end Emissions

/-- Two operations on a sampled list, of which the first is nested and has no line of its own, an
operation on a map that is not sampled, and one on a sampled map. -/
def sampleCalls : List (ThreadCall ℕ) :=
  let amb (t : Time) : Ambient := ⟨t, fun _ => 77, []⟩
  [ .container (.list4 (some 1) 5 1 2) (amb 10),
    .container (.list5 1 (some 1) none 6 1 3) (amb 20),
    .lineInfo 100 7 (amb 30),
    .disableRecord,
    .container (.map4 (some 2) 5 4 5) (amb 40),
    .lineInfo 101 7 (amb 50),
    .enableRecord,
    .container (.map4 (some 3) 5 4 5) (amb 60),
    .lineInfo 102 7 (amb 70),
    .container (.map5 (some 2) (some 3) 8 4 6) (amb 80),
    .lineInfo 103 8 (amb 90) ]

/-- The tags of the objects `1` and `2`. -/
def sampleTags : ℕ → Int64 := fun o => if o = 1 then 10 else if o = 2 then 11 else 0

theorem rows_attributed_sample :
    records
        (joinRecords ((Thread.init sampleTags sampleTags).run sampleCalls).containerLineInfoRecorder)
        (some (joinRecords ((Thread.init sampleTags sampleTags).run sampleCalls).listAndSetRecord))
        (some (joinRecords ((Thread.init sampleTags sampleTags).run sampleCalls).mapRecord)) =
      [[10, 77, 1, 3, 20, 6, 1, -1, 100, 7], [11, 4294967295, 4, 6, 80, 8, 0, 0, 103, 8]] :=
  (rows_attributed sampleTags sampleTags sampleCalls (by decide) (by simp [sampleCalls, Disciplined])
    _ _ (Or.inl rfl) (Or.inl rfl)).trans (by decide)

end Cinst.Script
