import Cinst.Native.TagFiles
import Cinst.Native.TagIdentity
import Cinst.Trace.NewIds
import Cinst.Trace.TagMode

/-!
From the calls of a program in tag mode to the data base that the queries read: the threads of the
process run in any interleaving, the recorders save their records, `addr2id` replaces the tags by ids,
and `build_container_db.py` loads the tables.

An id is the place of the NEW record with the tag, so the data base is known from the records of the
process, up to the order of the threads (`database_contents`), and every operation is joined with the
allocation of its container and with no other (`holders_join`).
-/

namespace Cinst.Script

open Cinst.Lib Cinst.Record Cinst.Native Cinst.Trace
open Cinst.Addr (ObjId Store allocated allocTimes eventsAt lineOf newEvents newId notFound resolve)
open Cinst.Lib.Sql (FitsInteger)

/-! ### Tags and ids -/

section Ids

/-- The id of a tag: `0` is the built-in one of the null reference, and a tag without a NEW record is
not found. -/
def idOfTag (news : List NewRecord) (a : Addr) : ObjId :=
  if a = 0 then 0 else (news.findIdx? fun r => r.addr = a).elim notFound newId

variable {news : List NewRecord}

lemma findIdx?_addr (hn : (news.map NewRecord.addr).Nodup) {i : ℕ} {r : NewRecord}
    (hr : news[i]? = some r) : (news.findIdx? fun r' => r'.addr = r.addr) = some i := by
  obtain ⟨hi, hri⟩ := List.getElem?_eq_some_iff.mp hr
  refine List.findIdx?_eq_some_iff_getElem.mpr ⟨hi, by simp [hri], fun j hj hsame => ?_⟩
  have hne := List.pairwise_iff_getElem.mp (List.pairwise_map.mp hn) j i (hj.trans hi) hi hj
  rw [hri] at hne
  exact hne (of_decide_eq_true hsame)

/-- **In tag mode the time of a query does not matter.** -/
theorem query_tags (hn : (news.map NewRecord.addr).Nodup) (hzero : ∀ r ∈ news, r.addr ≠ 0) (a : Addr)
    (t : Time) : (Store.build news []).query a t = idOfTag news a := by
  have hone := allocTimes_length_le_one hn hzero a
  have htimes := Addr.map_fst_eventsAt_allocated news a
  show resolve (eventsAt (allocated news).events a) t = idOfTag news a
  have hsingle : ∀ p ∈ eventsAt (allocated news).events a,
      resolve (eventsAt (allocated news).events a) t = p.2 := by
    intro p hp
    rw [← htimes, List.length_map] at hone
    obtain ⟨q, hq⟩ := List.length_eq_one_iff.mp (le_antisymm hone (List.length_pos_of_mem hp))
    rw [hq] at hp ⊢
    rw [List.mem_singleton.mp hp]
    rfl
  unfold idOfTag
  split_ifs with ha
  · refine hsingle (0, 0) (Addr.mem_eventsAt.mpr ?_)
    rw [allocated, Addr.foldl_addNew_init, ha]
    exact List.mem_cons_self
  · cases hfind : news.findIdx? fun r => r.addr = a with
    | none =>
      have hnone : allocTimes news a = [] := by
        rw [List.findIdx?_eq_none_iff] at hfind
        simpa [allocTimes, ha] using hfind
      rw [hnone, List.map_eq_nil_iff] at htimes
      rw [htimes]
      rfl
    | some i =>
      obtain ⟨hi, haddr, -⟩ := List.findIdx?_eq_some_iff_getElem.mp hfind
      refine hsingle (news[i].time, newId i) (Addr.mem_eventsAt.mpr ?_)
      rw [allocated, Addr.foldl_addNew_init]
      refine List.mem_cons_of_mem _ (Addr.mem_newEvents.mpr ⟨i, news[i], ?_, ?_⟩)
      · exact List.getElem?_eq_getElem hi
      · rw [of_decide_eq_true haddr]
        rfl

end Ids

/-! ### The NEW records of a process -/

section News

variable {Tid Obj : Type*}

/-- The NEW records among the records that were added. -/
def newsIn (log : List (Added Tid Obj)) : List NewRecord := log.filterMap fun a => a.record.newRecord?

variable {s : TagProcess Tid Obj} {log : List (Added Tid Obj)}

lemma addr_of_isNew (h : TagInv s) (hcount : s.issued.length < 2 ^ 32 - 11) {a : Added Tid Obj}
    (ha : a ∈ s.added) {r : NewRecord} (hr : a.record = .new r) :
    ∃ (k : ℕ) (obj : Option Obj), s.issued[k]? = some (a.tid, obj) ∧ a.found = [(obj, nthTag k)] ∧
      r.addr.toNat = 10 + k := by
  obtain ⟨k, obj, hk, hfound⟩ := h.news a ha (by rw [hr]; rfl)
  have hlt := (List.getElem?_eq_some_iff.mp hk).1
  have haddr := (h.sound a ha).filled.address (p := (obj, nthTag k)) (by rw [hfound]; rfl)
  rw [hr, TagRecord.address] at haddr
  exact ⟨k, obj, hk, hfound, by rw [haddr, addrOfTag_nthTag (by omega)]⟩

lemma mem_newsIn {r : NewRecord} : r ∈ newsIn log ↔ ∃ a ∈ log, a.record = .new r := by
  have hiff : ∀ record : TagRecord, record.newRecord? = some r ↔ record = .new r := by
    intro record
    cases record <;> simp [TagRecord.newRecord?]
  simp [newsIn, hiff]

lemma nodup_addr_newsIn (h : TagInv s) (hcount : s.issued.length < 2 ^ 32 - 11) :
    ((newsIn s.added).map NewRecord.addr).Nodup := by
  have htags := h.distinct (by omega)
  have hmap : ∀ {l : List (Added Tid Obj)}, (∀ a ∈ l, a ∈ s.added) →
      (newsIn l).map NewRecord.addr = (l.filterMap Added.newTag?).map addrOfTag := by
    intro l hl
    induction l with
    | nil => rfl
    | cons a l ih =>
      have ih := ih fun b hb => hl b (List.mem_cons_of_mem _ hb)
      cases hrecord : a.record with
      | new r =>
        obtain ⟨k, obj, -, hfound, -⟩ := addr_of_isNew h hcount (hl a List.mem_cons_self) hrecord
        have haddr := (h.sound a (hl a List.mem_cons_self)).filled.address (p := (obj, nthTag k))
          (by rw [hfound]; rfl)
        rw [hrecord, TagRecord.address] at haddr
        have hnews : newsIn (a :: l) = r :: newsIn l := by simp [newsIn, hrecord, TagRecord.newRecord?]
        have htag : (a :: l).filterMap Added.newTag? = nthTag k :: l.filterMap Added.newTag? := by
          simp [Added.newTag?, hrecord, TagRecord.isNew, hfound]
        rw [hnews, htag, List.map_cons, List.map_cons, ih, haddr]
      | _ =>
        have hnews : newsIn (a :: l) = newsIn l := by simp [newsIn, hrecord, TagRecord.newRecord?]
        have htag : (a :: l).filterMap Added.newTag? = l.filterMap Added.newTag? := by
          simp [Added.newTag?, hrecord, TagRecord.isNew]
        rw [hnews, htag, ih]
  rw [hmap fun _ ha => ha]
  have hissued : ∀ tag ∈ s.added.filterMap Added.newTag?,
      ∃ k : ℕ, tag = nthTag k ∧ k < s.issued.length := by
    intro tag htag
    obtain ⟨a, ha, hnew⟩ := List.mem_filterMap.mp htag
    unfold Added.newTag? at hnew
    split at hnew
    · rename_i hisNew
      obtain ⟨k, obj, hk, hfound⟩ := h.news a ha hisNew
      rw [hfound] at hnew
      cases hnew
      exact ⟨k, rfl, (List.getElem?_eq_some_iff.mp hk).1⟩
    · cases hnew
  refine List.Nodup.map_on (fun tag htag tag' htag' heq => ?_) htags
  obtain ⟨k, rfl, hk⟩ := hissued tag htag
  obtain ⟨k', rfl, hk'⟩ := hissued tag' htag'
  have hval := congrArg UInt32.toNat heq
  rw [addrOfTag_nthTag (by omega), addrOfTag_nthTag (by omega)] at hval
  rw [Nat.add_left_cancel hval]

lemma newsIn_ne_zero (h : TagInv s) (hcount : s.issued.length < 2 ^ 32 - 11) :
    ∀ r ∈ newsIn s.added, r.addr ≠ 0 := by
  intro r hr h0
  obtain ⟨a, ha, hrecord⟩ := mem_newsIn.mp hr
  obtain ⟨k, -, -, -, haddr⟩ := addr_of_isNew h hcount ha hrecord
  rw [h0, show (0 : Addr).toNat = 0 from rfl] at haddr
  omega

lemma newsIn_perm {log' : List (Added Tid Obj)} (h : log.Perm log') : (newsIn log).Perm (newsIn log') :=
  h.filterMap _

/-- The id of a tag that was issued does not depend on the times of the queries. -/
lemma query_newsIn (h : TagInv s) (hcount : s.issued.length < 2 ^ 32 - 11) (hlog : log.Perm s.added)
    (a : Addr) (t : Time) : (Store.build (newsIn log) []).query a t = idOfTag (newsIn log) a := by
  have hperm := newsIn_perm hlog
  refine query_tags ?_ (fun r hr => ?_) a t
  · exact (hperm.map _).nodup_iff.mpr (nodup_addr_newsIn h hcount)
  · exact newsIn_ne_zero h hcount r (hperm.subset hr)

variable [DecidableEq Tid] {tid : Tid → ℕ} {pid : ℤ} {d : Directory}

lemma newRecords_saved (hinj : Function.Injective tid) (h : Saved tid pid s d) :
    ∃ log : List (Added Tid Obj), log.Perm s.added ∧ newRecords d = newsIn log := by
  let threads := (s.added.map Added.tid).dedup
  have hfile : ∀ t, newFile d (dataName .new (tid t) pid) = newsOf t s := by
    intro t
    obtain ⟨rs, hrs, hfile⟩ := h.news t
    unfold newFile
    rcases hfile with hread | ⟨hread, rfl⟩
    · rw [hread, Option.getD_some, records_joinRecords (Kind.size_pos .new), hrs]
    · rw [hread, Option.getD_none, ← hrs]
      rfl
  have hnames : (threads.map fun t => dataName .new (tid t) pid).Nodup :=
    (List.nodup_dedup _).map fun t t' e => hinj (Int.ofNat_inj.mp (dataName_inj e).2)
  have hflat : ∃ order : List Tid, order.Perm threads ∧
      (filesStartWith d "NEW").flatMap (newFile d) = order.flatMap fun t => newsOf t s := by
    refine exists_perm_flatMap (d.nodup.filter _) hnames (fun name hname => ?_)
      (fun t _ _ => hfile t) fun t _ hnot => ?_
    · obtain ⟨a, ha, hname⟩ := h.newNames name hname
      exact ⟨a.tid, List.mem_dedup.mpr (List.mem_map_of_mem ha), hname⟩
    · rw [← hfile t, newFile]
      have hread : d.read (dataName .new (tid t) pid) = none := by
        by_contra hsome
        obtain ⟨bs, hbs⟩ := Option.ne_none_iff_exists'.mp hsome
        have hmem : dataName .new (tid t) pid ∈ d.names :=
          List.mem_map_of_mem (Directory.read_eq_some_iff.mp hbs)
        exact hnot (List.mem_filter.mpr ⟨hmem, startsWith_dataName .new (tid t) pid⟩)
      rw [hread]
      rfl
  obtain ⟨order, hperm, hflat⟩ := hflat
  refine ⟨order.flatMap fun t => s.added.filter fun a => a.tid = t, ?_, ?_⟩
  · rw [List.flatMap_def]
    refine flatten_map_filter_perm Added.tid (hperm.nodup_iff.mpr (List.nodup_dedup _)) fun a ha => ?_
    exact hperm.symm.subset (List.mem_dedup.mpr (List.mem_map_of_mem ha))
  · rw [newRecords, ← List.flatMap_def, hflat, newsIn, List.filterMap_flatMap]
    rfl

end News

/-! ### The data base of a process -/

section Database

variable {Tid Obj : Type*}

/-- The tables of a process: for each thread, the operations at the sites of its calls, where the tags
are replaced by ids; the NEW records with their places; and the operations with their names. -/
def tablesOf (order : List Tid) (ps : Tid → List (Entry × Int32 × Int32)) (news : List NewRecord)
    (ops : List (ℤ × List Char)) : ContainerDb where
  containers := order.flatMap fun t =>
    (ps t).map fun p => siteRow (translateEntry (fun a _ => idOfTag news a) p.1, p.2)
  allocations := news.mapIdx fun i r => lineNums (lineOf (newId i) r)
  containerOp := ops

variable [DecidableEq Tid] [DecidableEq Obj]

/-- The calls of a thread, in their order. -/
def callsOf (as : List (ThreadAct Tid (TagCall Obj × (ℕ → Int64)) Time)) (t : Tid) :
    List (TagCall Obj) :=
  (as.filterMap fun a => a.callOf t).map Prod.fst

/-- A process in tag mode from its start to its end, and the directory in which it leaves its files.
The threads are between two calls, and each has made its calls as the instrumented code does; no two
of its container and line records have the same time. Every record has gone to its recorder, and the
recorders have been destroyed. -/
structure Traced (tid : Tid → ℕ) (pid : ℤ)
    (as : List (ThreadAct Tid (TagCall Obj × (ℕ → Int64)) Time)) (s : TagThreads Tid Obj)
    (d : Directory) : Prop where
  ran : run TagThreads.step (Threads.start TagProcess.init) as = some s
  idle : ∀ t, s.prog t = none
  disciplined : ∀ t, TagCall.Disciplined true none (callsOf as t)
  stamps : ∀ t, ((viewOf t s.shared).records.map stamp).Nodup
  times : ∀ a ∈ s.shared.added, a.record.time.toNat < 2 ^ 63
  tags : s.shared.issued.length < 2 ^ 32 - 11
  tids : Function.Injective tid
  recorders : ∃ (limit : Kind → ℕ+) (acts : List LifeAct) (p : Lives),
    run (Lives.step pid limit) Lives.init acts = some p ∧ (∀ tid, p.live tid = none) ∧
      OneWriter acts ∧ List.Forall₂ (Writes tid) s.shared.added (acts.filter LifeAct.isAdd) ∧
        HoldsFiles pid p.files d

variable {tid : Tid → ℕ} {pid : ℤ} {as : List (ThreadAct Tid (TagCall Obj × (ℕ → Int64)) Time)}
  {s : TagThreads Tid Obj} {d : Directory}

namespace Traced

lemma reached (h : Traced tid pid as s d) : Reached s := ⟨as, h.ran⟩

lemma saved (h : Traced tid pid as s d) : Saved tid pid s.shared d := by
  obtain ⟨limit, acts, p, hrun, hexit, hone, hwrites, hd⟩ := h.recorders
  exact saved_of_run h.tids hrun hexit hone hwrites hd

lemma attributed (h : Traced tid pid as s d) (t : Tid) :
    ∃ ps, Attributed t s.shared (callsOf as t) ps :=
  ((ok_of_run h.ran).idle t (h.idle t)).attributed (h.disciplined t) (h.stamps t)

end Traced

omit [DecidableEq Obj] in
lemma exists_trace (n : ℕ) {t : Tid} {s : TagProcess Tid Obj} {cs : List (TagCall Obj)}
    {ps : List (Entry × Int32 × Int32)} (h : Attributed t s cs ps) :
    ∃ trace : ThreadTrace, trace.tid = n ∧ trace.records = (viewOf t s).records ∧
      List.Forall₂ AtSite trace.pairs ps := by
  obtain ⟨ps', hpaired, hsites⟩ := h.paired
  exact ⟨⟨n, _, ps', hpaired, h.increasing⟩, rfl, rfl, hsites⟩

omit [DecidableEq Obj] in
lemma exists_added_of_mem {t : Tid} {s : TagProcess Tid Obj} {e : Entry}
    (h : Sum.inl e ∈ (viewOf t s).records) : ∃ a ∈ s.added, a.tid = t ∧ a.record = .container e := by
  obtain ⟨a, ha, hlogged⟩ := List.mem_filterMap.mp h
  obtain ⟨ha, ht⟩ := List.mem_filter.mp ha
  refine ⟨a, ha, of_decide_eq_true ht, ?_⟩
  cases hrecord : a.record <;> simp [TagRecord.logged?, hrecord] at hlogged
  rw [hlogged]

omit [DecidableEq Obj] in
lemma holdsThreads_of_saved {s : TagProcess Tid Obj} (hinj : Function.Injective tid)
    (h : Saved tid pid s d) {trace : Tid → ThreadTrace} (htid : ∀ t, (trace t).tid = tid t)
    (hrecords : ∀ t, (trace t).records = (viewOf t s).records) :
    HoldsThreads trace (s.added.map Added.tid).dedup pid d where
  distinct := by
    simp only [htid]
    exact (List.nodup_dedup _).map hinj
  files t _ := by
    constructor
    · intro st
      rw [htid, hrecords]
      exact h.entries t st
    · rw [htid, hrecords]
      exact h.lines t
  only name hname := by
    obtain ⟨a, ha, hdata⟩ := h.lineNames name hname
    refine ⟨a.tid, List.mem_dedup.mpr (List.mem_map_of_mem ha), ?_⟩
    rw [htid]
    exact hdata

lemma rows_translateEntry (q : Addr → Time → ObjId) {ps : List (Entry × ContainerLineInfoRecord)}
    {qs : List (Entry × Int32 × Int32)} (h : List.Forall₂ AtSite ps qs) :
    (ps.map fun p => row (translateEntry q p.1) p.2) =
      qs.map fun p => siteRow (translateEntry q p.1, p.2) := by
  induction h with
  | nil => rfl
  | cons hsite _ ih =>
    rw [List.map_cons, List.map_cons, ih, siteRow, row, row, hsite.entry, hsite.line]

lemma Paired.mem {es : List (Entry ⊕ ContainerLineInfoRecord)}
    {ps : List (Entry × ContainerLineInfoRecord)} (h : Paired es ps) :
    ∀ p ∈ ps, Sum.inl p.1 ∈ es := by
  induction h with
  | nil => simp
  | container c _ ih => exact fun p hp => List.mem_cons_of_mem _ (ih p hp)
  | pair c r2 _ ih =>
    intro p hp
    rcases List.mem_cons.mp hp with rfl | hp
    · exact List.mem_cons_self
    · exact List.mem_cons_of_mem _ (List.mem_cons_of_mem _ (ih p hp))

/-- **The data base of a process**, whatever the order of the steps of its threads and of the files in
the directory. -/
theorem database_contents (h : Traced tid pid as s d) {ops : List (ℤ × List Char)}
    (hops : loadOps d = some ops) (hfits : ∀ op ∈ ops, FitsInteger op.1) (db : ContainerDb) :
    ∃ (order : List Tid) (ps : Tid → List (Entry × Int32 × Int32)) (log : List (Added Tid Obj)),
      order.Nodup ∧ (∀ t, t ∈ order ↔ ∃ a ∈ s.shared.added, a.tid = t) ∧
      (∀ t, Attributed t s.shared (callsOf as t) (ps t)) ∧ log.Perm s.shared.added ∧
      buildContainerDb (main d) (toString pid) db =
        some (db.append (tablesOf order ps (newsIn log) ops)) := by
  have hsaved := h.saved
  choose ps hps using h.attributed
  choose trace htid hrecords hpairs using fun t => exists_trace (tid t) (hps t)
  obtain ⟨log, hlog, hnews⟩ := newRecords_saved h.tids hsaved
  have htimes : ∀ t ∈ (s.shared.added.map Added.tid).dedup, ∀ p ∈ (trace t).pairs,
      p.1.br.time.toNat < 2 ^ 63 := by
    intro t _ p hp
    have hmem := (trace t).paired.mem p hp
    rw [hrecords] at hmem
    obtain ⟨a, ha, -, hrecord⟩ := exists_added_of_mem hmem
    have htime := h.times a ha
    rwa [hrecord] at htime
  obtain ⟨order, hperm, hbuild⟩ := buildContainerDb_main
    (holdsThreads_of_saved h.tids hsaved htid hrecords) htimes hops hfits db
  refine ⟨order, ps, log, hperm.nodup_iff.mpr (List.nodup_dedup _), fun t => ?_, hps, hlog, ?_⟩
  · rw [hperm.mem_iff, List.mem_dedup, List.mem_map]
  · have hquery : ∀ a t, (buildAddrMap d).1.query a t = idOfTag (newsIn log) a := by
      intro a t
      have hgc : gcRecords d = [] := by
        rw [gcRecords, hsaved.gcNames]
        rfl
      rw [query_buildAddrMap, hnews, hgc]
      exact query_newsIn h.reached.inv h.tags hlog a t
    have hrows : ∀ t, (trace t).rows d =
        (ps t).map fun p => siteRow (translateEntry (fun a _ => idOfTag (newsIn log) a) p.1, p.2) := by
      intro t
      rw [ThreadTrace.rows, funext₂ hquery]
      exact rows_translateEntry _ (hpairs t)
    have halloc : (buildAddrMap d).2.map lineNums =
        (newsIn log).mapIdx fun i r => lineNums (lineOf (newId i) r) := by
      rw [buildAddrMap_lines, hnews]
      refine List.ext_getElem (by simp) fun i _ _ => ?_
      simp [newId]
    rw [hbuild, funext hrows, halloc]
    rfl

/-- The steps of two threads: the first one allocates an object, and the second one operates on it. -/
def twoThreads : List (ThreadAct (Fin 2) (TagCall ℕ × (ℕ → Int64)) Time) :=
  .call 0 (.new false (some 5) 3 12 0 24, fun _ => 0) :: (Threads.stepsOf 0 3087 ++
    .env 7 :: .call 1 (.container (.list4 (some 5) 1 2 3), fun _ => 0) :: (Threads.stepsOf 1 13 ++
      .env 9 :: .call 1 (.lineInfo 30 1, fun _ => 0) :: Threads.stepsOf 1 5))

lemma twoThreads_run : (run TagThreads.step (Threads.start TagProcess.init) twoThreads).isSome := by
  decide +kernel

/-- The process after them. -/
def afterThreads : TagThreads (Fin 2) ℕ :=
  (run TagThreads.step (Threads.start TagProcess.init) twoThreads).get twoThreads_run

/-- Their records. -/
def threadRecords : List (Added (Fin 2) ℕ) :=
  [ ⟨0, .new ⟨12, 0, 3, 24, 10, 0⟩, [(some 5, 10)]⟩,
    ⟨1, .container (.listAndSet ⟨⟨10, 0, 2, 3, 7, 1⟩, 0⟩), [(some 5, 10)]⟩,
    ⟨1, .lineInfo ⟨30, 1, 9⟩, []⟩ ]

lemma afterThreads_eq : afterThreads.shared.added = threadRecords ∧
    afterThreads.shared.issued = [(0, some 5)] ∧ ∀ t, (afterThreads.prog t).isNone := by
  decide +kernel

/-- What the recorders are given, under the tids `7` and `8`. -/
def threadLives : List LifeAct :=
  [ .start 7, .start 8,
    .add 7 .new (NewRecord.toRaw (Raw.ofBytes _ []) ⟨12, 0, 3, 24, 10, 0⟩),
    .add 8 .listAndSet (ListAndSetRecord.toRaw (Raw.ofBytes _ []) ⟨⟨10, 0, 2, 3, 7, 1⟩, 0⟩),
    .add 8 .containerLineInfo (ContainerLineInfoRecord.toRaw (Raw.ofBytes _ []) ⟨30, 1, 9⟩),
    .exit 7, .exit 8 ]

/-- The recorders after that. -/
def afterThreadLives : Lives :=
  (run (Lives.step 1 fun _ => ⟨1, Nat.one_pos⟩) Lives.init threadLives).getD Lives.init

lemma run_threadLives :
    run (Lives.step 1 fun _ => ⟨1, Nat.one_pos⟩) Lives.init threadLives = some afterThreadLives := rfl

lemma traced_twoThreads : Traced (fun t : Fin 2 => 7 + t.val) 1 twoThreads afterThreads
    afterThreadLives.files where
  ran := (Option.some_get twoThreads_run).symm
  idle t := Option.isNone_iff_eq_none.mp (afterThreads_eq.2.2 t)
  disciplined := by decide +kernel
  stamps := by
    simp only [viewOf, afterThreads_eq.1]
    decide
  times := by
    rw [afterThreads_eq.1]
    decide
  tags := by
    rw [afterThreads_eq.2.1]
    decide
  tids t t' h := Fin.ext (Nat.add_left_cancel h)
  recorders := by
    refine ⟨fun _ => ⟨1, Nat.one_pos⟩, threadLives, afterThreadLives, run_threadLives, fun tid => ?_,
      oneWriter_of_nodup (by decide), ?_, ?_⟩
    · by_cases h7 : tid = 7
      · subst h7
        rfl
      · by_cases h8 : tid = 8
        · subst h8
          rfl
        · exact live_of_not_started run_threadLives (by simp [threadLives, h7, h8])
    · rw [afterThreads_eq.1]
      refine .cons ⟨rfl, .new _ _⟩ (.cons ⟨rfl, .listAndSet _ _⟩ (.cons ⟨rfl, .lineInfo _ _⟩ .nil))
    · refine ⟨fun _ _ => rfl, fun name hname _ => ?_⟩
      have hnames : afterThreadLives.files.names =
          [dataName .new 7 1, dataName .containerLineInfo 8 1, dataName .listAndSet 8 1] := by
        decide +kernel
      rw [hnames] at hname
      simp only [List.mem_cons, List.not_mem_nil, or_false] at hname
      rcases hname with rfl | rfl | rfl
      · exact ⟨_, _, rfl⟩
      · exact ⟨_, _, rfl⟩
      · exact ⟨_, _, rfl⟩

lemma loadOps_threadLives : loadOps afterThreadLives.files = some [] := by
  decide +kernel

theorem database_contents_two : ∃ order ps log, order.Nodup ∧
    (∀ t, t ∈ order ↔ ∃ a ∈ afterThreads.shared.added, a.tid = t) ∧
    (∀ t, Attributed t afterThreads.shared (callsOf twoThreads t) (ps t)) ∧
    log.Perm afterThreads.shared.added ∧
    buildContainerDb (main afterThreadLives.files) (toString (1 : ℤ)) ⟨[], [], []⟩ =
      some (ContainerDb.append ⟨[], [], []⟩ (tablesOf order ps (newsIn log) [])) :=
  database_contents traced_twoThreads loadOps_threadLives (by simp) ⟨[], [], []⟩

/-! ### Operations and the allocations of their containers -/

lemma idOfTag_eq {news : List NewRecord} (hn : (news.map NewRecord.addr).Nodup) {i : ℕ} {r : NewRecord}
    (hr : news[i]? = some r) (h0 : r.addr ≠ 0) : idOfTag news r.addr = newId i := by
  rw [idOfTag, if_neg h0, findIdx?_addr hn hr, Option.elim_some]

lemma filter_allocations {news : List NewRecord} (hcount : news.length < 2 ^ 31) {i : ℕ}
    {r : NewRecord} (hr : news[i]? = some r) :
    ((news.mapIdx fun i r => lineNums (lineOf (newId i) r)).filter fun row =>
      row.head? = some ((newId i).toNat : ℤ)) = [lineNums (lineOf (newId i) r)] := by
  have hi := (List.getElem?_eq_some_iff.mp hr).1
  have hsplit : (news.mapIdx fun i r => lineNums (lineOf (newId i) r)) =
      (news.mapIdx fun i r => (i, r)).map fun p => lineNums (lineOf (newId p.1) p.2) := by
    refine List.ext_getElem (by simp) fun j _ _ => ?_
    simp
  rw [hsplit, List.filter_map]
  have hplace : (news.mapIdx fun i r => (i, r)).filter
      ((fun row : List ℤ => decide (row.head? = some ((newId i).toNat : ℤ))) ∘
        fun p => lineNums (lineOf (newId p.1) p.2)) =
      (news.mapIdx fun i r => (i, r)).filter fun p => p.1 = i := by
    refine List.filter_congr fun p hp => ?_
    obtain ⟨j, hj, rfl⟩ := List.mem_mapIdx.mp hp
    have hid : (newId j).toNat = j + 1 := Addr.newId_toNat (by omega)
    have hid' : (newId i).toNat = i + 1 := Addr.newId_toNat (by omega)
    have hlt : (newId j).toNat < 2 ^ 31 := by omega
    have hcol : (lineNums (lineOf (newId j) news[j])).head? = some ((newId j).toNat : ℤ) :=
      congrArg some (toInt_toInt32 hlt)
    simp only [Function.comp_apply, hcol, hid, hid', Option.some_inj, Nat.cast_inj,
      Nat.add_right_cancel_iff]
  rw [hplace, filter_mapIdx_fst (fun r => r), hr]
  rfl

variable {news : List NewRecord}

/-- The row of a container record, with the ids of its tags and at some site. -/
def RowOf (news : List NewRecord) (row : List ℤ) (a : Added Tid Obj) : Prop :=
  ∃ (e : Entry) (site : Int32 × Int32), a.record = .container e ∧
    row = siteRow (translateEntry (fun v _ => idOfTag news v) e, site)

omit [DecidableEq Tid] [DecidableEq Obj] in
lemma RowOf.head? {row : List ℤ} {a : Added Tid Obj} (h : RowOf news row a) :
    row.head? = some ((idOfTag news a.record.address).toNat : ℤ) := by
  obtain ⟨e, site, hrecord, rfl⟩ := h
  rw [hrecord]
  cases e <;> rfl

omit [DecidableEq Tid] [DecidableEq Obj] in
lemma RowOf.isNew {row : List ℤ} {a : Added Tid Obj} (h : RowOf news row a) :
    a.record.isNew = false := by
  obtain ⟨e, site, hrecord, -⟩ := h
  rw [hrecord]
  rfl

lemma exists_new (h : Reached s) (hcount : s.shared.issued.length < 2 ^ 32 - 11)
    {log : List (Added Tid Obj)} (hlog : log.Perm s.shared.added) {a : Added Tid Obj}
    (ha : a ∈ s.shared.added) {o : Obj} (hnew : a.record.isNew = false) (habout : a.About o) :
    ∃ n ∈ s.shared.added, ∃ (tag : Int64) (r : NewRecord) (i : ℕ), n.IsNew o tag ∧
      n.record = .new r ∧ (newsIn log)[i]? = some r ∧ r.addr = a.record.address ∧
        idOfTag (newsIn log) a.record.address = newId i := by
  have hsound := process_sound s h
  obtain ⟨p, hp, ho⟩ := habout
  obtain ⟨n, hn, hisNew, -⟩ := hsound.allocated a ha hnew p hp o ho
  obtain ⟨hfound, r, hr⟩ := hisNew
  have haddr : r.addr = a.record.address := by
    have hn' := (hsound.filled n hn).address (p := (some o, p.2)) (by rw [hfound]; rfl)
    rw [hr] at hn'
    rw [(hsound.filled a ha).address hp]
    exact hn'
  have hmem : r ∈ newsIn log := mem_newsIn.mpr ⟨n, hlog.symm.subset hn, hr⟩
  obtain ⟨i, hi⟩ := List.mem_iff_getElem?.mp hmem
  refine ⟨n, hn, p.2, r, i, ⟨hfound, r, hr⟩, hr, hi, haddr, ?_⟩
  have hperm := newsIn_perm hlog
  rw [← haddr]
  refine idOfTag_eq ?_ hi ?_
  · exact (hperm.map _).nodup_iff.mpr (nodup_addr_newsIn h.inv hcount)
  · exact newsIn_ne_zero h.inv hcount r (hperm.subset hmem)

omit [DecidableEq Tid] [DecidableEq Obj] in
lemma length_newsIn_le (h : TagInv s.shared) (hcount : s.shared.issued.length < 2 ^ 32 - 11) :
    (newsIn s.shared.added).length ≤ s.shared.issued.length := by
  have hsub : (newsIn s.shared.added).map NewRecord.addr ⊆
      (List.range s.shared.issued.length).map fun k => UInt32.ofNat (10 + k) := by
    intro v hv
    obtain ⟨r, hr, rfl⟩ := List.mem_map.mp hv
    obtain ⟨a, ha, hrecord⟩ := mem_newsIn.mp hr
    obtain ⟨k, obj, hk, -, haddr⟩ := addr_of_isNew h hcount ha hrecord
    refine List.mem_map.mpr ⟨k, List.mem_range.mpr (List.getElem?_eq_some_iff.mp hk).1, ?_⟩
    rw [← haddr, UInt32.ofNat_toNat]
  have hle := ((nodup_addr_newsIn h hcount).subperm hsub).length_le
  rwa [List.length_map, List.length_map, List.length_range] at hle

/-- What the tables say of the operations: their rows are those of operations that were recorded, the
column `HOLDER_ID` tells their containers apart, and exactly one row of `ALLOCATIONS` has it as `ID`:
that of the NEW record of the container. -/
structure HoldersJoin (s : TagProcess Tid Obj) (db : ContainerDb)
    (rows : List (List ℤ × Added Tid Obj)) : Prop where
  containers : db.containers = rows.map Prod.fst
  operations : ∀ p ∈ rows, p.2 ∈ s.added ∧ ∃ news, RowOf news p.1 p.2
  same : ∀ p ∈ rows, ∀ q ∈ rows, ∀ o o', p.2.About o → q.2.About o' →
    (p.1.head? = q.1.head? ↔ o = o')
  allocated : ∀ p ∈ rows, ∀ o, p.2.About o → ∃ n ∈ s.added, ∃ tag r j, n.IsNew o tag ∧
    n.record = .new r ∧
      (db.allocations.filter fun row => row.head? = p.1.head?) = [lineNums (lineOf (newId j) r)]

/-- **Every operation is joined with the allocation of its container**, and with no other one, when the
data base is new, no object is tagged by two calls, and there are fewer than `2 ^ 31` tags. -/
theorem holders_join (h : Traced tid pid as s d) (hcount : s.shared.issued.length < 2 ^ 31)
    (honce : (s.shared.issued.filterMap Prod.snd).Nodup) {ops : List (ℤ × List Char)}
    (hops : loadOps d = some ops) (hfits : ∀ op ∈ ops, FitsInteger op.1) :
    ∃ db rows, buildContainerDb (main d) (toString pid) ⟨[], [], []⟩ = some db ∧
      HoldersJoin s.shared db rows := by
  obtain ⟨order, ps, log, -, -, hps, hlog, hbuild⟩ := database_contents h hops hfits ⟨[], [], []⟩
  have hidentify := addresses_identify s h.reached h.tags honce
  have hrow : ∀ row ∈ (tablesOf order ps (newsIn log) ops).containers,
      ∃ a ∈ s.shared.added, RowOf (newsIn log) row a := by
    intro row hrow
    obtain ⟨t, -, hrow⟩ := List.mem_flatMap.mp hrow
    obtain ⟨p, hp, rfl⟩ := List.mem_map.mp hrow
    obtain ⟨ps', hpaired, hsites⟩ := (hps t).paired
    obtain ⟨i, hi⟩ := List.mem_iff_getElem?.mp hp
    obtain ⟨p', hp', hsite⟩ := forall₂_getElem? (List.Forall₂.flip (R := flip AtSite) hsites) hi
    have hmem := hpaired.mem p' (List.mem_of_getElem? hp')
    obtain ⟨a, ha, -, hrecord⟩ := exists_added_of_mem hmem
    exact ⟨a, ha, p.1, p.2, by rw [hrecord, hsite.entry], rfl⟩
  obtain ⟨rows, hcontainers, hrows⟩ := exists_pairs hrow
  refine ⟨_, rows, hbuild, ?_⟩
  have hnew : ∀ p ∈ rows, ∀ o, p.2.About o → _ := fun p hp o =>
    exists_new h.reached h.tags hlog (hrows p hp).1 (hrows p hp).2.isNew
  have hlen : (newsIn log).length < 2 ^ 31 := by
    rw [(newsIn_perm hlog).length_eq]
    exact (length_newsIn_le h.reached.inv h.tags).trans_lt hcount
  have hplace : ∀ {i : ℕ} {r : NewRecord}, (newsIn log)[i]? = some r → i + 1 < 2 ^ 32 := fun hi => by
    have := (List.getElem?_eq_some_iff.mp hi).1
    omega
  refine ⟨hcontainers, fun p hp => ⟨(hrows p hp).1, _, (hrows p hp).2⟩, ?_, ?_⟩
  · intro p hp q hq o o' ho ho'
    obtain ⟨-, -, -, r, i, -, -, hi, haddr, hid⟩ := hnew p hp o ho
    obtain ⟨-, -, -, r', i', -, -, hi', haddr', hid'⟩ := hnew q hq o' ho'
    rw [(hrows p hp).2.head?, (hrows q hq).2.head?, hid, hid', ← (hidentify _ (hrows p hp).1 _
      (hrows q hq).1 o o' ho ho').1, ← haddr, ← haddr', Option.some_inj, Nat.cast_inj]
    constructor
    · intro hsame
      obtain rfl := Addr.newId_inj (hplace hi) (hplace hi') (UInt32.toNat_inj.mp hsame)
      rw [hi] at hi'
      rw [Option.some.inj hi']
    · intro hsame
      rw [haddr, haddr'] at hsame
      rw [← hid, ← hid', hsame]
  · intro p hp o ho
    obtain ⟨n, hn, tag, r, i, hisNew, hr, hi, -, hid⟩ := hnew p hp o ho
    refine ⟨n, hn, tag, r, i, hisNew, hr, ?_⟩
    rw [(hrows p hp).2.head?, hid]
    exact filter_allocations hlen hi

theorem holders_join_two : ∃ db rows,
    buildContainerDb (main afterThreadLives.files) (toString (1 : ℤ)) ⟨[], [], []⟩ = some db ∧
      HoldersJoin afterThreads.shared db rows :=
  holders_join traced_twoThreads (by rw [afterThreads_eq.2.1]; decide)
    (by rw [afterThreads_eq.2.1]; decide) loadOps_threadLives (by simp)

end Database

end Cinst.Script
