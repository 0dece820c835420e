import Cinst.Addr.Replay

/-!
Raw-address mode: allocations and uses are recorded by the native library with the monotonic clock,
moves by the `memmove` hook of the preloaded library with the realtime clock.

A process is a heap together with the records of its threads. Its calls are a history of the heap
(`heapEvents`), with the times that the records carry, so what `addr2id` makes of the records is
said by the replay of that history. Uses resolve to the right object when the two clocks order the
records that concern one address as the process did (`InOrder`).
-/

namespace Cinst.Native

open Cinst.Lib Cinst.Record Cinst.Addr

/-! ### What the calls record -/

/-- `CLOCK_MONOTONIC` and `CLOCK_REALTIME` at a call, in nanoseconds. -/
structure Clock where
  monotonic : Time
  realtime : Time
  deriving DecidableEq, Repr

/-- `nanotime`. -/
def nanotime (c : Clock) : Time := c.monotonic

/-- `addr>>3`, cut to an `addr_t`. -/
def shifted (addr : UInt64) : Addr := (addr >>> 3).toUInt32

/-- `addNewRecord`. -/
def addNewRecord (c : Clock) (addr : UInt64) (objTypeid line classNameId : Int32)
    (objSize : Int64) : NewRecord where
  line := line.toUInt32.toUInt16
  classNameId := classNameId.toUInt32.toUInt16
  objTypeid := objTypeid
  objSize := objSize.toUInt64.toUInt32
  addr := shifted addr
  time := nanotime c

/-- `addUseRecord`. -/
def addUseRecord (c : Clock) (type : Int32) (addr : UInt64) (line classNameId : Int32) :
    UseRecord where
  type := type.toUInt32.toUInt16
  line := line.toUInt32.toUInt16
  classNameId := classNameId.toUInt32.toUInt16
  addr := shifted addr
  time := nanotime c

/-- The record that the hook of `memmove` adds, if any. -/
def memmove (gcStart : Bool) (c : Clock) (dest src : UInt64) : Option GCRecord :=
  if gcStart then
    if src &&& 7 = 0 then some ⟨shifted src, shifted dest, c.realtime⟩ else none
  else none

/-- The calls of a process that are recorded or change what lives where. The object of an
allocation is not an argument of the source; `collect` is the silent death of an object. -/
inductive Call (Obj : Type*) where
  | addNewRecord (tid : ℕ) (o : Obj) (addr : UInt64) (objTypeid line classNameId : Int32)
      (objSize : Int64)
  | setGcStart (v : Bool)
  | memmove (tid : ℕ) (dest src : UInt64)
  | collect (addr : UInt64)
  | addUseRecord (tid : ℕ) (type : Int32) (addr : UInt64) (line classNameId : Int32)

/-- The heap, the flag `_gc_start`, and the NEW and gc records with the threads that added them. -/
structure Process (Obj : Type*) where
  heap : Heap UInt64 Obj
  gcStart : Bool
  news : List (ℕ × NewRecord)
  gcs : List (ℕ × GCRecord)

/-- The records of the threads `tids`, one file for each thread. -/
def files {ρ : Type*} (tids : List ℕ) (log : List (ℕ × ρ)) : List (List ρ) :=
  tids.map fun tid => (log.filter fun r => r.1 = tid).map Prod.snd

section RawMode

variable {Obj : Type*}

/-- What a call does to the heap, with the time that its record carries. -/
def heapEvent : Clock × Call Obj → Option (HeapEvent UInt64 Obj)
  | (c, .addNewRecord _ o addr _ _ _ _) => some (.new o addr (nanotime c))
  | (_, .setGcStart _) => none
  | (c, .memmove _ dest src) => some (.move src dest c.realtime)
  | (_, .collect addr) => some (.die addr)
  | (c, .addUseRecord _ _ addr _ _) => some (.use addr (nanotime c))

/-- The NEW record of a call and its thread. -/
def newOf : Clock × Call Obj → Option (ℕ × NewRecord)
  | (c, .addNewRecord tid _ addr objTypeid line classNameId objSize) =>
    some (tid, Native.addNewRecord c addr objTypeid line classNameId objSize)
  | _ => none

/-- The gc record of a call and its thread. -/
def gcOf : Clock × Call Obj → Option (ℕ × GCRecord)
  | (c, .memmove tid dest src) => some (tid, ⟨shifted src, shifted dest, c.realtime⟩)
  | _ => none

namespace Process

variable [DecidableEq Obj]

/-- A process before its first call. -/
def init : Process Obj := ⟨Heap.empty, false, [], []⟩

/-- One call. Objects are moved only while the hook records them. -/
def step (p : Process Obj) (x : Clock × Call Obj) : Option (Process Obj) :=
  match x.2 with
  | .addNewRecord tid o addr objTypeid line classNameId objSize =>
    (p.heap.step (.new o addr (nanotime x.1))).map fun heap =>
      { p with
        heap := heap
        news := p.news ++
          [(tid, Native.addNewRecord x.1 addr objTypeid line classNameId objSize)] }
  | .setGcStart v => some { p with gcStart := v }
  | .memmove tid dest src =>
    (Native.memmove p.gcStart x.1 dest src).bind fun r =>
      (p.heap.step (.move src dest x.1.realtime)).map fun heap =>
        { p with heap := heap, gcs := p.gcs ++ [(tid, r)] }
  | .collect addr => (p.heap.step (.die addr)).map fun heap => { p with heap := heap }
  | .addUseRecord _ _ addr _ _ =>
    (p.heap.step (.use addr (nanotime x.1))).map fun heap => { p with heap := heap }

end Process

/-! ### The property and the condition -/

/-- Both clocks go forward, and their difference does not change. -/
structure ClocksTick (calls : List (Clock × Call Obj)) : Prop where
  monotonic : calls.Pairwise fun x y => x.1.monotonic < y.1.monotonic
  realtime : calls.Pairwise fun x y => x.1.realtime < y.1.realtime
  offset : ∃ d : ℤ, ∀ x ∈ calls, (x.1.realtime.toNat : ℤ) = x.1.monotonic.toNat + d

/-- Every use of an object after its last move resolves to the id of the NEW record of the
object. -/
def UsesResolve [DecidableEq Obj] (calls : List (Clock × Call Obj))
    (newFiles : List (List NewRecord)) (gcFiles : List (List GCRecord)) : Prop :=
  ∀ pre c tid type addr line classNameId post p o,
    calls = pre ++ (c, .addUseRecord tid type addr line classNameId) :: post →
    run Process.step Process.init pre = some p → p.heap.live addr = some o →
    (∀ l c' tid' dest src post' p', post = l ++ (c', .memmove tid' dest src) :: post' →
      run Process.step p l = some p' → p'.heap.live src ≠ some o) →
    ∃ c₀ tid₀ addr₀ objTypeid line₀ classNameId₀ objSize,
      (c₀, .addNewRecord tid₀ o addr₀ objTypeid line₀ classNameId₀ objSize) ∈ pre ∧
      ∃ (k : ℕ) (l : AddrIdLine),
        newFiles.flatten[k]? =
          some (addNewRecord c₀ addr₀ objTypeid line₀ classNameId₀ objSize) ∧
        (AddrMap.buildAddrMap newFiles gcFiles).2[k]? = some l ∧
        (AddrMap.buildAddrMap newFiles gcFiles).1.query
          (addUseRecord c type addr line classNameId).addr
          (addUseRecord c type addr line classNameId).time = l.id

/-- A move and an allocation or a use that concern one address carry times in the order of the two
calls, the first call given first. -/
def SameOrder : Clock × Call Obj → Clock × Call Obj → Prop
  | (c, .addNewRecord _ _ addr _ _ _ _), (c', .memmove _ dest src) =>
    addr = dest ∨ addr = src → c.monotonic < c'.realtime
  | (c, .memmove _ dest src), (c', .addNewRecord _ _ addr _ _ _ _) =>
    addr = dest ∨ addr = src → c.realtime < c'.monotonic
  | (c, .memmove _ dest _), (c', .addUseRecord _ _ addr _ _) =>
    addr = dest → c.realtime ≤ c'.monotonic
  | (c, .addUseRecord _ _ addr _ _), (c', .memmove _ dest _) =>
    addr = dest → c.monotonic < c'.realtime
  | _, _ => True

/-- The records are in order for `addr2id`, with the gc files listed by the threads `gcTids`. A move
that takes its object from where another move put it is read after that one, so the file of the
other one is the same or listed earlier. -/
structure InOrder (calls : List (Clock × Call Obj)) (gcTids : List ℕ) : Prop where
  clocks : calls.Pairwise SameOrder
  chains : ∀ p c₁ i src a q c₂ j dest r,
    calls = p ++ (c₁, .memmove i a src) :: q ++ (c₂, .memmove j dest a) :: r →
    (∀ x ∈ q, ∀ e, heapEvent x = some e → ∀ t, e.writes ≠ some (a, t)) →
    gcTids.idxOf i ≤ gcTids.idxOf j
  distinct : ∀ a ∈ (calls.filterMap heapEvent).flatMap HeapEvent.addrs,
    ∀ b ∈ (calls.filterMap heapEvent).flatMap HeapEvent.addrs, shifted a = shifted b → a = b
  null : ∀ w ∈ (calls.filterMap heapEvent).filterMap HeapEvent.writes, shifted w.1 = 0 → 0 < w.2
  few : (calls.filterMap newOf).length < 2 ^ 31 - 1

/-! ### A process is a history of its heap -/

lemma files_perm {ρ : Type*} {tids : List ℕ} (hn : tids.Nodup) {log : List (ℕ × ρ)}
    (hall : ∀ r ∈ log, r.1 ∈ tids) : (files tids log).flatten.Perm (log.map Prod.snd) := by
  have : files tids log = (tids.map fun tid => log.filter fun r => r.1 = tid).map
      (List.map Prod.snd) := by
    rw [files, List.map_map]
    rfl
  rw [this, ← List.map_flatten]
  exact (flatten_map_filter_perm Prod.fst hn hall).map _

lemma newKeys_heapEvents (calls : List (Clock × Call Obj)) :
    newKeys shifted (calls.filterMap heapEvent) =
      ((calls.filterMap newOf).map Prod.snd).map fun r => (r.addr, r.time) := by
  rw [newKeys, List.filterMap_filterMap, List.map_filterMap, List.map_filterMap]
  congr 1
  funext ⟨c, call⟩
  cases call <;> rfl

/-- The two clocks order the records of one address as the history does. -/
lemma ordered_heapEvents {calls : List (Clock × Call Obj)} (ht : ClocksTick calls)
    (hord : calls.Pairwise SameOrder) :
    (calls.filterMap heapEvent).Pairwise Ordered := by
  rw [List.pairwise_filterMap]
  refine (ht.monotonic.and (ht.realtime.and hord)).imp ?_
  rintro ⟨c, call⟩ ⟨c', call'⟩ ⟨hm, hr, ho⟩ e he e' he' a t t'
  cases call <;> cases call' <;> cases he <;> cases he' <;>
    simp_all [HeapEvent.writes, HeapEvent.moves, SameOrder, nanotime] <;> grind

section Runs

variable [DecidableEq Obj] {p p' : Process Obj} {x : Clock × Call Obj}
  {calls : List (Clock × Call Obj)}

/-- **Inversion of a call.** -/
theorem step_cases (hs : Process.step p x = some p') :
    (heapEvent x = none → p'.heap = p.heap) ∧
    (∀ e, heapEvent x = some e → p.heap.step e = some p'.heap) ∧
    p'.news = p.news ++ (newOf x).toList ∧ p'.gcs = p.gcs ++ (gcOf x).toList := by
  obtain ⟨c, call⟩ := x
  cases call with
  | setGcStart v =>
    cases hs
    simp [heapEvent, newOf, gcOf]
  | addNewRecord tid o addr objTypeid line classNameId objSize =>
    obtain ⟨heap, hh, rfl⟩ := Option.map_eq_some_iff.mp hs
    simp [heapEvent, newOf, gcOf, hh]
  | memmove tid dest src =>
    obtain ⟨r, hr, hs⟩ := Option.bind_eq_some_iff.mp hs
    obtain ⟨heap, hh, rfl⟩ := Option.map_eq_some_iff.mp hs
    unfold Native.memmove at hr
    split_ifs at hr
    cases hr
    simp [heapEvent, newOf, gcOf, hh]
  | collect addr =>
    cases hs
    simp [heapEvent, newOf, gcOf, Heap.step]
  | addUseRecord tid type addr line classNameId =>
    obtain ⟨heap, hh, rfl⟩ := Option.map_eq_some_iff.mp hs
    simp [heapEvent, newOf, gcOf, hh]

lemma run_heap (h : run Process.step Process.init calls = some p) :
    run Heap.step Heap.empty (calls.filterMap heapEvent) = some p.heap :=
  run_simulation Process.heap heapEvent (fun _ _ _ hs => (step_cases hs).1)
    (fun _ _ _ b hs => (step_cases hs).2.1 b) h

lemma run_logs (h : run Process.step Process.init calls = some p) :
    p.news = calls.filterMap newOf ∧ p.gcs = calls.filterMap gcOf := by
  refine run_invariant (fun calls p => p.news = calls.filterMap newOf ∧
    p.gcs = calls.filterMap gcOf) ⟨rfl, rfl⟩ (fun calls p x p' _ ih hs => ?_) h
  obtain ⟨-, -, hn, hg⟩ := step_cases hs
  rw [hn, hg, ih.1, ih.2, List.filterMap_append, List.filterMap_append]
  cases hx : newOf x <;> cases hy : gcOf x <;> simp [hx, hy]

lemma recorded_calls (h : run Process.step Process.init calls = some p) (ht : ClocksTick calls)
    {gcTids newTids : List ℕ} (ho : InOrder calls gcTids) (hn : newTids.Nodup)
    (hall : ∀ r ∈ p.news, r.1 ∈ newTids) :
    Recorded shifted (calls.filterMap heapEvent) (files newTids p.news).flatten where
  valid := ⟨_, run_heap h⟩
  perm := by
    rw [newKeys_heapEvents, ← (run_logs h).1]
    exact (files_perm hn hall).map _
  ordered := ordered_heapEvents ht ho.clocks
  pos e he a t hw := ho.null (a, t) (List.mem_filterMap.mpr ⟨e, he, hw⟩)
  inj e he e' he' a ha b hb :=
    ho.distinct a (List.mem_flatMap.mpr ⟨e, he, ha⟩) b (List.mem_flatMap.mpr ⟨e', he', hb⟩)
  count := by
    rw [(files_perm hn hall).length_eq, List.length_map, (run_logs h).1]
    exact ho.few

/-- The gc record of a call of the thread `j`. -/
def gcIn (j : ℕ) (x : Clock × Call Obj) : Option GCRecord :=
  (gcOf x).bind fun r => if r.1 = j then some r.2 else none

omit [DecidableEq Obj] in
lemma file_eq (calls : List (Clock × Call Obj)) (j : ℕ) :
    ((calls.filterMap gcOf).filter fun r => r.1 = j).map Prod.snd = calls.filterMap (gcIn j) := by
  rw [← List.filterMap_eq_filter, List.filterMap_filterMap, List.map_filterMap]
  congr 1
  funext x
  unfold gcIn
  cases gcOf x with
  | none => rfl
  | some r => by_cases h : r.1 = j <;> simp [Option.guard, h]

omit [DecidableEq Obj] in
lemma gcIn_memmove (c : Clock) (tid : ℕ) (dest src : UInt64) :
    gcIn tid (c, (.memmove tid dest src : Call Obj)) =
      some ⟨shifted src, shifted dest, c.realtime⟩ := by
  simp [gcIn, gcOf]

omit [DecidableEq Obj] in
/-- A gc record that is read: its thread `j`, the call that added it, and what is read before it. -/
lemma exists_memmove {tids : List ℕ} {pre post : List GCRecord} {r : GCRecord}
    (hsplit : (files tids (calls.filterMap gcOf)).flatten = pre ++ r :: post) :
    ∃ ts j ts' l c dest src q, tids = ts ++ j :: ts' ∧
      calls = l ++ (c, .memmove j dest src) :: q ∧ r = ⟨shifted src, shifted dest, c.realtime⟩ ∧
      pre = (files ts (calls.filterMap gcOf)).flatten ++ l.filterMap (gcIn j) := by
  obtain ⟨as, b, c, ds, hfiles, rfl⟩ := flatten_split hsplit
  obtain ⟨ts, js, htids, rfl, hjs⟩ := List.map_eq_append_iff.mp hfiles
  obtain ⟨j, ts', rfl, hj, -⟩ := List.map_eq_cons_iff.mp hjs
  rw [file_eq] at hj
  obtain ⟨l₁, l₂, hcalls, hb, hl₂⟩ := List.filterMap_eq_append_iff.mp hj
  obtain ⟨l₃, ⟨c₂, call⟩, q, rfl, hl₃, hr, -⟩ := List.filterMap_eq_cons_iff.mp hl₂
  cases call with
  | memmove tid dest src =>
    obtain ⟨rfl, rfl⟩ : tid = j ∧ ⟨shifted src, shifted dest, c₂.realtime⟩ = r := by
      simpa [gcIn, gcOf] using hr
    refine ⟨ts, tid, ts', l₁ ++ l₃, c₂, dest, src, q, htids, ?_, rfl, ?_⟩
    · rw [hcalls, List.append_assoc]
    · rw [List.filterMap_append, hb, List.filterMap_eq_nil_iff.mpr hl₃, List.append_nil, files]
  | _ => cases hr

omit [DecidableEq Obj] in
lemma mem_read_before {ts ts' : List ℕ} {i j : ℕ} (hn : (ts ++ j :: ts').Nodup)
    (hle : (ts ++ j :: ts').idxOf i ≤ (ts ++ j :: ts').idxOf j) {l q : List (Clock × Call Obj)}
    {c : Clock} {dest src : UInt64} (hmem : (c, .memmove i dest src) ∈ l) :
    ⟨shifted src, shifted dest, c.realtime⟩ ∈
      (files ts ((l ++ q).filterMap gcOf)).flatten ++ l.filterMap (gcIn j) := by
  rcases mem_or_eq_of_idxOf_le hn hle with hi | rfl
  · refine List.mem_append_left _ (List.mem_flatten.mpr
      ⟨_, List.mem_map.mpr ⟨i, hi, rfl⟩, ?_⟩)
    rw [file_eq]
    exact List.mem_filterMap.mpr ⟨_, List.mem_append_left q hmem, gcIn_memmove ..⟩
  · exact List.mem_append_right _ (List.mem_filterMap.mpr ⟨_, hmem, gcIn_memmove ..⟩)

lemma replays_calls (h : run Process.step Process.init calls = some p) {gcTids : List ℕ}
    (ho : InOrder calls gcTids) (hn : gcTids.Nodup) (hall : ∀ r ∈ p.gcs, r.1 ∈ gcTids) :
    Replays shifted (calls.filterMap heapEvent) (files gcTids p.gcs).flatten := by
  have hlog := (run_logs h).2
  refine ⟨fun a b t hm => ?_, fun pre r post hsplit => ?_⟩
  · obtain ⟨⟨c, call⟩, hx, hxe⟩ := List.mem_filterMap.mp hm
    cases call with
    | memmove tid dest src =>
      cases hxe
      have hadded : (tid, ⟨shifted a, shifted b, c.realtime⟩) ∈ p.gcs := by
        rw [hlog]
        exact List.mem_filterMap.mpr ⟨_, hx, rfl⟩
      exact (files_perm hn hall).mem_iff.mpr (List.mem_map.mpr ⟨_, hadded, rfl⟩)
    | _ => cases hxe
  · rw [hlog] at hsplit
    obtain ⟨ts, j, ts', l, c, dest, src, q, rfl, rfl, rfl, rfl⟩ := exists_memmove hsplit
    refine ⟨l.filterMap heapEvent, src, dest, c.realtime, q.filterMap heapEvent, ?_, rfl,
      fun p' a s q' hp hquiet => ?_⟩
    · rw [List.filterMap_append]
      rfl
    · -- the earlier move, of the thread `i`
      obtain ⟨m₁, m₂, rfl, -, hm₂⟩ := List.filterMap_eq_append_iff.mp hp
      obtain ⟨m₃, ⟨c₁, call⟩, m₄, rfl, -, hx, hq'⟩ := List.filterMap_eq_cons_iff.mp hm₂
      cases call with
      | memmove i dest' src' =>
        cases hx
        have hle := ho.chains (m₁ ++ m₃) c₁ i a src m₄ c j dest q (by simp) (fun x hx e he t =>
          hquiet e (by rw [← hq']; exact List.mem_filterMap.mpr ⟨x, hx, he⟩) t)
        exact mem_read_before hn hle (by simp)
      | _ => cases hx

omit [DecidableEq Obj] in
lemma use_between (ht : ClocksTick calls) (hord : calls.Pairwise SameOrder)
    {pre post : List (Clock × Call Obj)} {c : Clock} {tid : ℕ} {type : Int32} {addr : UInt64}
    {line classNameId : Int32}
    (hcalls : calls = pre ++ (c, .addUseRecord tid type addr line classNameId) :: post) :
    (∀ e ∈ pre.filterMap heapEvent, ∀ t, e.writes = some (addr, t) → t ≤ nanotime c) ∧
    ∀ e ∈ post.filterMap heapEvent, ∀ t, e.writes = some (addr, t) → nanotime c < t := by
  have hpw := ht.monotonic.and hord
  rw [hcalls] at hpw
  obtain ⟨-, hpost, hcross⟩ := List.pairwise_append.mp hpw
  constructor
  · intro e he t hw
    obtain ⟨⟨c', call⟩, hx, hxe⟩ := List.mem_filterMap.mp he
    obtain ⟨hm, hs⟩ := hcross _ hx _ (List.mem_cons_self ..)
    cases call with
    | addNewRecord =>
      cases hxe
      cases hw
      exact hm.le
    | memmove =>
      cases hxe
      cases hw
      exact hs rfl
    | setGcStart => cases hxe
    | collect | addUseRecord =>
      cases hxe
      cases hw
  · intro e he t hw
    obtain ⟨⟨c', call⟩, hx, hxe⟩ := List.mem_filterMap.mp he
    obtain ⟨hm, hs⟩ := (List.pairwise_cons.mp hpost).1 _ hx
    cases call with
    | addNewRecord =>
      cases hxe
      cases hw
      exact hm
    | memmove =>
      cases hxe
      cases hw
      exact hs rfl
    | setGcStart => cases hxe
    | collect | addUseRecord =>
      cases hxe
      cases hw

/-- **Identity survives recorded moves** in every execution whose records are in order. -/
theorem uses_resolve (calls : List (Clock × Call Obj)) (p : Process Obj) (newTids gcTids : List ℕ)
    (hrun : run Process.step Process.init calls = some p) (ht : ClocksTick calls)
    (hnew : newTids.Nodup) (hnews : ∀ r ∈ p.news, r.1 ∈ newTids) (hgc : gcTids.Nodup)
    (hgcs : ∀ r ∈ p.gcs, r.1 ∈ gcTids) (ho : InOrder calls gcTids) :
    UsesResolve calls (files newTids p.news) (files gcTids p.gcs) := by
  intro pre c tid type addr line classNameId post p₁ o hcalls hpre ha _
  have hrec := recorded_calls hrun ht ho hnew hnews
  have hevs : calls.filterMap heapEvent =
      pre.filterMap heapEvent ++ .use addr (nanotime c) :: post.filterMap heapEvent := by
    rw [hcalls, List.filterMap_append]
    rfl
  obtain ⟨hbefore, hafter⟩ := use_between ht ho.clocks hcalls
  obtain ⟨b, t, hborn⟩ := Heap.exists_new (run_heap hpre) ha
  obtain ⟨⟨c₀, call⟩, hx, hxe⟩ := List.mem_filterMap.mp hborn
  cases call with
  | addNewRecord tid₀ o' addr₀ objTypeid line₀ classNameId₀ objSize =>
    cases hxe
    refine ⟨c₀, tid₀, b, objTypeid, line₀, classNameId₀, objSize, hx, ?_⟩
    have hin : addNewRecord c₀ b objTypeid line₀ classNameId₀ objSize ∈
        (files newTids p.news).flatten := by
      refine (files_perm hnew hnews).mem_iff.mpr (List.mem_map.mpr ⟨(tid₀, _), ?_, rfl⟩)
      rw [(run_logs hrun).1]
      exact List.mem_filterMap.mpr ⟨_, by rw [hcalls]; exact List.mem_append_left _ hx, rfl⟩
    obtain ⟨k, hk⟩ := List.mem_iff_getElem?.mp hin
    refine ⟨k, lineOf (newId k) (addNewRecord c₀ b objTypeid line₀ classNameId₀ objSize), hk, ?_, ?_⟩
    · rw [buildAddrMap_snd, List.getElem?_mapIdx, hk]
      rfl
    · have hborn' : HeapEvent.new o b (nanotime c₀) ∈ calls.filterMap heapEvent := by
        rw [hevs]
        exact List.mem_append_left _ hborn
      rw [query_buildAddrMap]
      exact (query_use hrec (replays_calls hrun ho hgc hgcs) hevs (run_heap hpre) ha hbefore
        hafter).trans (hrec.idOf_eq hborn' hk rfl rfl)
  | _ => cases hxe

end Runs

end RawMode

/-! ### An address that held an earlier object -/

/-- The second object moves to the address of the first one, which is dead by then, and is used
there; the realtime clock is `d` ahead. -/
def reuse (d : Time) : List (Clock × Call ℕ) :=
  [(⟨10, 10 + d⟩, .addNewRecord 1 0 0x80 3 12 5 24), (⟨20, 20 + d⟩, .collect 0x80),
    (⟨30, 30 + d⟩, .addNewRecord 1 1 0x40 3 13 5 24), (⟨40, 40 + d⟩, .setGcStart true),
    (⟨50, 50 + d⟩, .memmove 7 0x80 0x40), (⟨60, 60 + d⟩, .setGcStart false),
    (⟨70, 70 + d⟩, .addUseRecord 1 0 0x80 14 5)]

/-- A realtime clock that is a little ahead does no harm. -/
theorem uses_resolve_reuse : ∃ p, run Process.step Process.init (reuse 3) = some p ∧
    UsesResolve (reuse 3) (files [1] p.news) (files [7] p.gcs) := by
  refine ⟨(run Process.step Process.init (reuse 3)).get (by decide), by simp, ?_⟩
  refine uses_resolve _ _ _ _ (by simp) ⟨by decide, by decide, 3, by decide⟩ (by decide)
    (by decide) (by decide) (by decide) ⟨?_, ?_, ?_, ?_, by decide⟩
  · simp only [reuse, List.pairwise_cons, ← List.forall_iff_forall_mem, List.Forall, SameOrder,
      List.Pairwise.nil]
    decide
  · intro p c₁ i src a q c₂ j dest r h _
    have hi : (c₁, .memmove i a src) ∈ reuse 3 := by rw [h]; simp
    have hj : (c₂, .memmove j dest a) ∈ reuse 3 := by rw [h]; simp
    simp [reuse] at hi hj
    rw [hi.2.1, hj.2.1]
  · refine List.forall_iff_forall_mem.mp ?_
    simp only [← List.forall_iff_forall_mem]
    decide
  · exact List.forall_iff_forall_mem.mp (by decide)

/-- With a realtime clock that counts from an earlier origin, the move seems to come after the
use, and the use resolves to the dead object. -/
theorem not_uses_resolve_reuse : ∃ p, run Process.step Process.init (reuse 1000) = some p ∧
    ClocksTick (reuse 1000) ∧
    ¬ UsesResolve (reuse 1000) (files [1] p.news) (files [7] p.gcs) := by
  refine ⟨(run Process.step Process.init (reuse 1000)).get (by decide), by simp,
    ⟨by decide, by decide, 1000, by decide⟩, fun h => ?_⟩
  obtain ⟨c₀, tid₀, addr₀, objTypeid, line₀, classNameId₀, objSize, hmem, k, l, hk, hl, hq⟩ :=
    h ((reuse 1000).take 6) ⟨70, 1070⟩ 1 0 0x80 14 5 []
      ((run Process.step Process.init ((reuse 1000).take 6)).get (by decide)) 1 rfl (by simp)
      (by decide) (by simp)
  simp [reuse] at hmem
  obtain ⟨rfl, rfl, rfl, rfl, rfl, rfl, rfl⟩ := hmem
  -- the use answers the id of the first NEW record; the object has the second one
  rw [query_buildAddrMap] at hq
  rw [buildAddrMap_snd, List.getElem?_mapIdx, hk, Option.map_some, Option.some.injEq] at hl
  rw [← hl] at hq
  match k, hk, hq with
  | 0, hk, _ => exact absurd hk (by decide)
  | 1, _, hq => exact absurd hq (by decide)
  | k + 2, hk, _ => cases hk

end Cinst.Native
