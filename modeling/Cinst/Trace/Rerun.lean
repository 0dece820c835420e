import Cinst.Addr.Rename
import Cinst.Trace.Translate

/-!
A second run of `addr2id` changes nothing when there are no gc files.

The second run reads NEW records whose addresses are ids. An event of its store is an event of the
first one with its address replaced by what the first store answers for it (`readdress`), so an id
holds the events that had one address and one time, and the first of them is the object that the
first run answered with (`resolve_readdress`).
-/

namespace Cinst.Trace

open Cinst.Lib Cinst.Record Cinst.Addr

/-! ### A log whose addresses are its own answers -/

/-- The event with its address replaced by what the log answers for it. -/
def readdress (es : List Event) (e : Event) : Event :=
  ⟨resolve (eventsAt es e.addr) e.time, e.time, e.id⟩

section Readdress

variable {es : List Event} {e : Event} {l : List (Time × ObjId)} {a : Addr} {s t : Time} {i : ObjId}

lemma eventsAt_eq (es : List Event) (a : Addr) :
    eventsAt es a = (es.filter fun e => e.addr = a).map fun e => (e.time, e.id) := by
  induction es with
  | nil => rfl
  | cons e es ih =>
    rw [eventsAt_cons, ih, List.filter_cons]
    split <;> simp_all

lemma lookup_eventsAt (es : List Event) (a : Addr) (s : Time) :
    (eventsAt es a).lookup s =
      ((es.filter fun e => e.addr = a ∧ e.time = s).map Event.id).head? := by
  induction es with
  | nil => rfl
  | cons e es ih =>
    rw [eventsAt_cons, List.lookup_append, ih, List.filter_cons]
    by_cases ha : e.addr = a
    · by_cases hs : e.time = s
      · simp [ha, hs]
      · have : (s == e.time) = false := by simpa using Ne.symm hs
        simp [ha, hs, List.lookup_cons, this]
    · simp [ha]

lemma mem_of_resolve_own (he : e ∈ es) :
    ⟨e.addr, e.time, resolve (eventsAt es e.addr) e.time⟩ ∈ es := by
  have hmem : (e.time, e.id) ∈ eventsAt es e.addr := mem_eventsAt.mpr he
  cases hl : (eventsAt es e.addr).lookup e.time with
  | none => simpa using List.lookup_eq_none_iff.mp hl _ hmem
  | some i =>
    rw [resolve_eq_lookup hl le_rfl fun _ _ h => h]
    exact mem_eventsAt.mp (OrdMap.mem_of_lookup hl)

/-- Events that all have one time answer with the first of them, if that time is not after the one
asked for or the event is the only one. -/
lemma resolve_of_time_eq (hhead : (l.map Prod.snd).head? = some i) (htime : ∀ p ∈ l, p.1 = s)
    (hle : 2 ≤ l.length → s ≤ t) : resolve l t = i := by
  match l, hhead, hle with
  | [p], hhead, _ => exact Option.some.inj hhead
  | p :: q :: l, hhead, hle =>
    have hl : (p :: q :: l).lookup s = some i := by
      rw [lookup_cons_ite, if_pos (htime p (by simp)).symm]
      exact hhead
    exact resolve_eq_lookup hl (hle (by simp)) fun p hp _ => (htime p hp).le

lemma eq_of_id_eq {e' : Event} (hid : es.Pairwise fun e e' => e.id ≠ e'.id) (he : e ∈ es)
    (he' : e' ∈ es) (h : e.id = e'.id) : e = e' := by
  by_contra hne
  have hsymm : Std.Symm fun e e' : Event => e.id ≠ e'.id := ⟨fun _ _ h => Ne.symm h⟩
  exact hid.forall he he' hne h

/-- **Asking the log of answers for an answer gives the answer back.** -/
theorem resolve_readdress (hid : es.Pairwise fun e e' => e.id ≠ e'.id)
    (hfound : ∀ e ∈ es, e.id ≠ notFound) (a : Addr) (t : Time) :
    resolve (eventsAt (es.map (readdress es)) (resolve (eventsAt es a) t)) t =
      resolve (eventsAt es a) t := by
  set i := resolve (eventsAt es a) t with hi
  by_cases hnf : i = notFound
  · -- no event of the log answers with `notFound` for itself
    have hnone : eventsAt (es.map (readdress es)) notFound = [] := by
      rw [eventsAt_eq, List.map_eq_nil_iff, List.filter_eq_nil_iff]
      intro e' he' hnf
      obtain ⟨e, he, rfl⟩ := List.mem_map.mp he'
      exact hfound _ (mem_of_resolve_own he) (of_decide_eq_true hnf)
    rw [hnf, hnone]
    rfl
  · obtain ⟨s, hl, hlatest⟩ := exists_of_resolve hi.symm hnf
    have hfirst : ⟨a, s, i⟩ ∈ es := mem_eventsAt.mp (OrdMap.mem_of_lookup hl)
    -- the events that answer with `i` for themselves are those at `a` and `s`
    have hiff : ∀ e ∈ es, (readdress es e).addr = i ↔ e.addr = a ∧ e.time = s := by
      intro e he
      constructor
      · intro h
        have hown := mem_of_resolve_own he
        have := eq_of_id_eq hid hown hfirst h
        injection this with ha hs
        exact ⟨ha, hs⟩
      · rintro ⟨ha, hs⟩
        rw [readdress, ha, hs]
        exact resolve_eq_lookup hl le_rfl fun _ _ h => h
    have hevents : eventsAt (es.map (readdress es)) i =
        (es.filter fun e => e.addr = a ∧ e.time = s).map fun e => (e.time, e.id) := by
      rw [eventsAt_eq, List.filter_map, List.map_map]
      congr 1
      exact List.filter_congr fun e he => decide_eq_decide.mpr (hiff e he)
    rw [hevents]
    refine resolve_of_time_eq (s := s) ?_ ?_ ?_
    · rw [List.map_map, ← hl, lookup_eventsAt]
      rfl
    · intro p hp
      obtain ⟨e, he, rfl⟩ := List.mem_map.mp hp
      exact (of_decide_eq_true (List.mem_filter.mp he).2).2
    · intro hlen
      refine (hlatest (hlen.trans ?_)).1
      rw [List.length_map, eventsAt_eq, List.length_map]
      refine (List.monotone_filter_right es ?_).length_le
      intro e he
      simpa using (of_decide_eq_true he).1

end Readdress

/-! ### The store of the second run -/

/-- A NEW record with its address replaced by what the store of the allocations answers. -/
def rerunRecord (news : List NewRecord) (r : NewRecord) : NewRecord :=
  { r with addr := (Store.build news []).query r.addr r.time }

section Store

variable {news : List NewRecord}

lemma build_events (news : List NewRecord) :
    (Store.build news []).events = ⟨0, 0, 0⟩ :: newEvents 1 news :=
  congrArg Store.events (foldl_addNew_init news)

lemma build_ids (h : news.length < 2 ^ 31 - 1) :
    (Store.build news []).events.Pairwise (fun e e' => e.id ≠ e'.id) ∧
      ∀ e ∈ (Store.build news []).events, e.id ≠ notFound := by
  rw [build_events]
  have hid : ∀ e ∈ newEvents 1 news, ∃ i < news.length, e.id = newId i := by
    intro e he
    obtain ⟨i, r, hr, rfl⟩ := mem_newEvents.mp he
    exact ⟨i, (List.getElem?_eq_some_iff.mp hr).1, rfl⟩
  have hbound : ∀ i < news.length, (newId i).toNat = i + 1 := fun i hi => newId_toNat (by omega)
  refine ⟨List.pairwise_cons.mpr ⟨?_, ?_⟩, ?_⟩
  · intro e he heq
    obtain ⟨i, hi, hei⟩ := hid e he
    have := congrArg UInt32.toNat (heq.trans hei)
    rw [hbound i hi] at this
    exact absurd this (by simp)
  · rw [newEvents, List.pairwise_iff_getElem]
    intro i j hi hj hij heq
    rw [List.length_mapIdx] at hi hj
    rw [List.getElem_mapIdx, List.getElem_mapIdx] at heq
    have := newId_inj (by omega) (by omega) heq
    omega
  · intro e he
    rcases List.mem_cons.mp he with rfl | he
    · decide
    · obtain ⟨i, hi, hei⟩ := hid e he
      intro hnf
      have := congrArg UInt32.toNat (hei.symm.trans hnf)
      rw [hbound i hi, show notFound.toNat = 2 ^ 32 - 1 from rfl] at this
      omega

lemma build_rerun (news : List NewRecord) :
    (Store.build (news.map (rerunRecord news)) []).events =
      (Store.build news []).events.map (readdress (Store.build news []).events) := by
  have hzero : readdress (Store.build news []).events ⟨0, 0, 0⟩ = ⟨0, 0, 0⟩ := by
    have hl : (eventsAt (⟨0, 0, 0⟩ :: newEvents 1 news) 0).lookup 0 = some 0 := by
      rw [eventsAt_cons]
      rfl
    rw [readdress, build_events, Event.mk.injEq]
    exact ⟨resolve_eq_lookup hl le_rfl fun _ _ h => h, rfl, rfl⟩
  rw [build_events (news.map _)]
  conv_rhs => rw [build_events, List.map_cons, ← build_events, hzero]
  congr 1
  refine List.ext_getElem (by simp [newEvents]) fun i _ _ => ?_
  simp only [newEvents, List.getElem_mapIdx, List.getElem_map]
  rfl

/-- **The second run answers an id with itself.** -/
theorem query_rerun (h : news.length < 2 ^ 31 - 1) (a : Addr) (t : Time) :
    (Store.build (news.map (rerunRecord news)) []).query ((Store.build news []).query a t) t =
      (Store.build news []).query a t := by
  obtain ⟨hid, hfound⟩ := build_ids h
  unfold Store.query
  rw [build_rerun]
  exact resolve_readdress hid hfound a t

end Store

/-! ### The directory -/

section Directory

variable {d : Directory}

/-- The pass over the NEW files. -/
def newPass : Pass := processAllDataFile .new [.top .addr]

lemma newPass_mem : newPass ∈ passes := by decide

lemma NewRecord.ofRaw_translate {q : Addr → Time → ObjId} (r : Raw Kind.new.size) :
    NewRecord.ofRaw (translate .new q newPass.funcs r) =
      { NewRecord.ofRaw r with addr := q (NewRecord.ofRaw r).addr (NewRecord.ofRaw r).time } := by
  have hs : Separate .new newPass.funcs := passes_separate _ newPass_mem
  have hline := getWord_translate (q := q) hs (Kind.new.offset (.top .line)) 2 (by decide) r
  have hclass := getWord_translate (q := q) hs (Kind.new.offset (.top .classNameId)) 2
    (by decide) r
  have htype := getWord_translate (q := q) hs (Kind.new.offset (.top .objTypeid)) 4 (by decide) r
  have hsize := getWord_translate (q := q) hs (Kind.new.offset (.top .objSize)) 4 (by decide) r
  have haddr := getAddr_translate (q := q) hs (p := .top .addr) (by decide) r
  have htime := value_translate (q := q) hs r
  simp only [NewRecord.ofRaw, hline, hclass, htype, hsize, haddr, htime]

lemma filesStartWith_main {sub : String} (h : startsWith "addr-id.dat" sub = false) :
    filesStartWith (main d) sub = filesStartWith d sub := by
  rw [main_eq, filesStartWith, Directory.names_mapFiles]
  exact Directory.names_write_filter h

/-- All NEW files hold whole records. -/
def NewWhole (d : Directory) : Prop :=
  ∀ f ∈ d.files, startsWith f.1 Kind.new.filePrefix → Kind.new.size ∣ f.2.length

instance (d : Directory) : Decidable (NewWhole d) := inferInstanceAs (Decidable (∀ f ∈ d.files, _))

lemma newRecords_main (hd : NewWhole d) : newRecords (main d) =
    (newRecords d).map fun r => { r with addr := (buildAddrMap d).1.query r.addr r.time } := by
  rw [newRecords, newRecords, filesStartWith_main (by decide), List.map_flatten, List.map_map]
  congr 1
  refine List.map_congr_left fun path hpath => ?_
  obtain ⟨hmem, hname⟩ := List.mem_filter.mp hpath
  obtain ⟨⟨_, bs⟩, hfile, rfl⟩ := List.mem_map.mp hmem
  have hread := Directory.read_eq_some_iff.mpr hfile
  have hwhole := hd _ hfile hname
  rw [Function.comp_apply, newFile, newFile, hread, read_main_of_startsWith (k := .new) hname hread]
  simp only [Option.getD_some]
  rw [rewriteFile_eq newPass_mem hname hwhole]
  have hcut := records_joinRecords (Kind.size_pos .new)
    ((records Kind.new.size bs).map (translate .new (buildAddrMap d).1.query newPass.funcs))
  refine (congrArg (List.map NewRecord.ofRaw) hcut).trans ?_
  rw [List.map_map, List.map_map]
  exact List.map_congr_left fun r _ => NewRecord.ofRaw_translate r

lemma translate_eq_self {k : Kind} {q : Addr → Time → ObjId} {ps : List Path}
    (hin : ∀ p ∈ ps, k.offset p + 4 ≤ k.size) {r : Raw k.size}
    (h : ∀ p ∈ ps, q (k.getAddr p r) (k.value r) = k.getAddr p r) : translate k q ps r = r := by
  induction ps with
  | nil => rfl
  | cons p ps ih =>
    rw [translate, List.foldl_cons, h p (by simp),
      show k.setAddr p (k.getAddr p r) r = r from setAddr_getAddr (hin p (by simp)) r]
    exact ih (fun p' hp' => hin p' (List.mem_cons_of_mem _ hp'))
      fun p' hp' => h p' (List.mem_cons_of_mem _ hp')

/-- A rewritten file is not changed by a map that answers the ids of the first one with
themselves. -/
lemma rewriteFile_rewriteFile {am am' : AddrMap} {name : String} {bs : Bytes}
    (h : ∀ a t, am'.query (am.query a t) t = am.query a t)
    (hbs : ∀ k, translatedKind k → startsWith name k.filePrefix → k.size ∣ bs.length) :
    rewriteFile am' name (rewriteFile am name bs) = rewriteFile am name bs := by
  by_cases hpass : ∃ p ∈ passes, startsWith name p.kind.filePrefix
  · obtain ⟨p, hp, hname⟩ := hpass
    have hs := passes_separate p hp
    rw [rewriteFile_eq hp hname (hbs p.kind (passes_translated p hp) hname)]
    rw [rewriteFile_eq hp hname (by rw [length_joinRecords]; exact Nat.dvd_mul_left ..),
      records_joinRecords (Kind.size_pos p.kind), List.map_map]
    congr 1
    refine List.map_congr_left fun r _ => translate_eq_self hs.inside fun f hf => ?_
    rw [getAddr_translate hs hf, value_translate hs, h]
  · have hnone : ∀ p ∈ passes, ¬ startsWith name p.kind.filePrefix := fun p hp h => hpass ⟨p, hp, h⟩
    rw [rewriteFile_of_not hnone, rewriteFile_of_not hnone]

/-- **Running `addr2id` again changes nothing** when there are no gc files. -/
theorem main_main (d : Directory) (hgc : filesStartWith d "gc" = []) (hd : Whole d)
    (hcount : (newRecords d).length < 2 ^ 31 - 1) : main (main d) = main d := by
  have hgcs : gcRecords d = [] := by rw [gcRecords, hgc]; rfl
  have hgcs' : gcRecords (main d) = [] := by
    rw [gcRecords, filesStartWith_main (by decide), hgc]
    rfl
  have hnews : newRecords (main d) = (newRecords d).map (rerunRecord (newRecords d)) := by
    rw [newRecords_main fun f hf => hd f hf .new rfl]
    refine List.map_congr_left fun r _ => ?_
    rw [rerunRecord, query_buildAddrMap, hgcs]
  have hquery : ∀ a t, (buildAddrMap (main d)).1.query ((buildAddrMap d).1.query a t) t =
      (buildAddrMap d).1.query a t := by
    intro a t
    rw [query_buildAddrMap, query_buildAddrMap, hgcs', hnews, hgcs]
    exact query_rerun hcount a t
  have hlines : (buildAddrMap (main d)).2 = (buildAddrMap d).2 := by
    rw [buildAddrMap_lines, buildAddrMap_lines, hnews]
    refine List.ext_getElem (by simp) fun i _ _ => ?_
    simp only [List.getElem_mapIdx, List.getElem_map]
    rfl
  rw [main_eq (main d), hlines, Directory.write_eq_self (read_main_addrId d)]
  refine Directory.mapFiles_eq_self fun f hf => ?_
  rw [main_eq] at hf
  obtain ⟨⟨name, bs⟩, hfile, rfl⟩ := List.mem_map.mp hf
  refine rewriteFile_rewriteFile hquery fun k hk hname => ?_
  have hread := Directory.read_eq_some_iff.mpr hfile
  rw [Directory.read_write_ne (ne_addrId hname)] at hread
  exact hd _ (Directory.read_eq_some_iff.mp hread) k hk hname

theorem main_main_use : main (main useTrace) = main useTrace :=
  main_main useTrace (by decide) (by decide) (by decide)

end Directory

end Cinst.Trace
