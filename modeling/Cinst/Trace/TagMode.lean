import Cinst.Addr.GcOrder
import Cinst.Trace.Translate

/-!
Traces in tag mode with gc files beside them.

The address map has one key space. In tag mode the NEW records store tags in it, and the gc records
that the `memmove` hook writes store truncated raw addresses: a relocation to a number that is also
a tag adds an event to that tag. An address field is `Undisturbed` when no such event decides its
query. Then the gc files do not matter (`query_undisturbed`); when no relocation takes its object
from a tag, every other field is answered differently (`undisturbed_of_query`).
-/

namespace Cinst.Trace

open Cinst.Lib Cinst.Record Cinst.Addr

/-! ### Queries with and without gc records -/

/-- The relocations to `v` do not decide a query of `v` at time `t`: there are none, or they are not
between the allocation and `t`, or nothing is allocated at `v` and they are several, all later than
`t`. -/
def Undisturbed (news : List NewRecord) (gcs : List GCRecord) (v : Addr) (t : Time) : Prop :=
  moveTimes gcs v = [] ∨
  (∃ s ∈ allocTimes news v, s ≤ t ∧ ∀ g ∈ moveTimes gcs v, g ≤ t → g ≤ s) ∨
  allocTimes news v = [] ∧ 2 ≤ (moveTimes gcs v).length ∧ ∀ g ∈ moveTimes gcs v, t < g

instance (news : List NewRecord) (gcs : List GCRecord) (v : Addr) (t : Time) :
    Decidable (Undisturbed news gcs v t) :=
  inferInstanceAs (Decidable (_ ∨ _ ∨ _))

section Query

variable {news : List NewRecord} {gcs : List GCRecord} {v : Addr} {t : Time}

/-- **Relocations that do not decide a query do not matter.** -/
theorem query_undisturbed (h : Undisturbed news gcs v t) :
    (Store.build news gcs).query v t = (Store.build news []).query v t := by
  obtain ⟨l, hl, hmoves⟩ := eventsAt_foldl_addMove (allocated news) gcs v
  have halloc := map_fst_eventsAt_allocated news v
  show resolve (eventsAt (gcs.foldl Store.addMove (allocated news)).events v) t =
    resolve (eventsAt (allocated news).events v) t
  rw [hl]
  rcases h with hnone | ⟨s, hs, hst, hlatest⟩ | ⟨hnone, htwo, hlater⟩
  · rw [hnone, List.map_eq_nil_iff] at hmoves
    rw [hmoves, List.append_nil]
  · -- the latest allocation at or before `t` answers in both stores
    obtain ⟨i, hi⟩ := mem_allocTimes.mp hs
    obtain ⟨m, j, hm, hmt, hmax⟩ := exists_latest hi hst
    rw [resolve_eq_lookup hm hmt hmax]
    refine resolve_eq_lookup (by rw [List.lookup_append, hm]; rfl) hmt fun p hp hpt => ?_
    rcases List.mem_append.mp hp with hp | hp
    · exact hmax p hp hpt
    · have hp' : p.1 ∈ moveTimes gcs v := hmoves ▸ List.mem_map_of_mem hp
      exact (hlatest p.1 hp' hpt).trans (hmax _ hi hst)
  · rw [hnone, List.map_eq_nil_iff] at halloc
    rw [← hmoves, List.length_map] at htwo
    rw [halloc, List.nil_append]
    refine resolve_eq_notFound (by omega) fun p hp => hlater p.1 ?_
    rw [← hmoves]
    exact List.mem_map_of_mem hp

/-- When no relocation takes its object from an address with an allocation, all of them store
masked ids. -/
lemma events_masked (hcount : news.length + gcs.length < 2 ^ 31 - 1)
    (horg : ∀ g ∈ gcs, allocTimes news g.orgAddr = []) :
    ∃ es, (gcs.foldl Store.addMove (allocated news)).events = (allocated news).events ++ es ∧
      ∀ e ∈ es, e.id &&& gcMask ≠ 0 ∧ e.id ≠ notFound := by
  induction gcs using List.reverseRecOn with
  | nil => exact ⟨[], by simp, by simp⟩
  | append_singleton gcs r ih =>
    rw [List.length_append, List.length_singleton] at hcount
    obtain ⟨es, hes, hmasked⟩ := ih (by omega) fun g hg => horg g (List.mem_append_left _ hg)
    refine ⟨es ++ [⟨r.newAddr, r.time, (gcs.foldl Store.addMove (allocated news)).moveId r⟩], ?_, ?_⟩
    · rw [List.foldl_append, List.foldl_cons, List.foldl_nil, Store.addMove_events, hes,
        List.append_assoc]
    · intro e he
      rcases List.mem_append.mp he with he | he
      · exact hmasked e he
      rw [List.mem_singleton.mp he, Store.moveId]
      split
      · have hcur := allocated_curId news (by omega)
        have hle := (curId_foldl_addMove (allocated news) gcs (by omega)).2
        refine ⟨or_gcMask_and _, fun heq => ?_⟩
        have hval := congrArg UInt32.toNat heq
        rw [or_gcMask_toNat (by omega), show notFound.toNat = 2 ^ 32 - 1 from rfl] at hval
        omega
      · rename_i hfound
        -- what is found at the old address was stored by an earlier relocation
        obtain ⟨p, hp, hid⟩ := resolve_mem.resolve_left hfound
        have hnone := map_fst_eventsAt_allocated news r.orgAddr
        rw [horg r (by simp), List.map_eq_nil_iff] at hnone
        rw [hes, eventsAt_append, hnone, List.nil_append, mem_eventsAt] at hp
        have := hmasked _ hp
        rw [hid] at this
        exact this

lemma allocTimes_length_le_one (hn : (news.map NewRecord.addr).Nodup)
    (hzero : ∀ r ∈ news, r.addr ≠ 0) (v : Addr) : (allocTimes news v).length ≤ 1 := by
  by_cases hv : v = 0
  · subst hv
    have hnone : (news.filter fun r => r.addr = 0) = [] :=
      List.filter_eq_nil_iff.mpr fun r hr h => hzero r hr (by simpa using h)
    simp [allocTimes, hnone]
  · have hcount := List.nodup_iff_count_le_one.mp hn v
    rw [List.count, List.countP_map, List.countP_eq_length_filter] at hcount
    simp only [allocTimes, hv, if_false, List.nil_append, List.length_map]
    rw [List.filter_congr (q := (· == v) ∘ NewRecord.addr) fun r _ => by simp [beq_eq_decide]]
    exact hcount

/-- **A query that a relocation decides is answered differently** when no relocation takes its
object from an address with an allocation. -/
theorem undisturbed_of_query (hn : (news.map NewRecord.addr).Nodup)
    (hzero : ∀ r ∈ news, r.addr ≠ 0) (hcount : news.length + gcs.length < 2 ^ 31 - 1)
    (horg : ∀ g ∈ gcs, allocTimes news g.orgAddr = [])
    (h : (Store.build news gcs).query v t = (Store.build news []).query v t) :
    Undisturbed news gcs v t := by
  have halloc := map_fst_eventsAt_allocated news v
  have hone := allocTimes_length_le_one hn hzero v
  obtain ⟨es, hes, hmasked⟩ := events_masked hcount horg
  obtain ⟨l, hl, hmoves⟩ := eventsAt_foldl_addMove (allocated news) gcs v
  rw [hes, eventsAt_append, List.append_cancel_left_eq] at hl
  have hid : ∀ p ∈ eventsAt es v, p.2 &&& gcMask ≠ 0 ∧ p.2 ≠ notFound :=
    fun p hp => hmasked _ (mem_eventsAt.mp hp)
  change resolve (eventsAt (gcs.foldl Store.addMove (allocated news)).events v) t =
    resolve (eventsAt (allocated news).events v) t at h
  rw [hes, eventsAt_append] at h
  rw [← hl] at hmoves
  by_cases hnone : moveTimes gcs v = []
  · exact Or.inl hnone
  have hlen : 0 < (eventsAt es v).length := by
    rw [← hmoves] at hnone
    exact List.length_pos_iff.mpr fun e => hnone (by rw [e]; rfl)
  match hbase : eventsAt (allocated news).events v with
  | [] =>
    rw [hbase, List.nil_append] at h
    rw [hbase] at halloc
    have hlater := lt_of_resolve_eq_notFound (fun p hp => (hid p hp).2) h
    refine Or.inr (Or.inr ⟨halloc.symm, ?_, ?_⟩)
    · rw [← hmoves, List.length_map]
      by_contra hlt
      obtain ⟨p, hp⟩ := List.length_eq_one_iff.mp (show (eventsAt es v).length = 1 by omega)
      rw [hp] at h
      exact (hid p (by rw [hp]; simp)).2 h
    · intro g hg
      rw [← hmoves] at hg
      obtain ⟨p, hp, rfl⟩ := List.mem_map.mp hg
      exact hlater p hp
  | [p] =>
    have hp : p ∈ eventsAt (allocated news).events v := by rw [hbase]; simp
    have hunmasked := allocated_unmasked (by omega) hp
    have hfound : p.2 ≠ notFound := by
      rintro heq
      rw [heq] at hunmasked
      exact absurd hunmasked (by decide)
    rw [hbase] at h halloc
    obtain ⟨s, hs, hlatest⟩ := exists_of_resolve h hfound
    obtain ⟨hst, hmax⟩ := hlatest (by rw [List.length_append]; simp; omega)
    refine Or.inr (Or.inl ⟨s, ?_, hst, ?_⟩)
    · -- a masked id is not the one of the allocation
      rcases List.mem_append.mp (OrdMap.mem_of_lookup hs) with hp | hp
      · rw [← halloc]
        exact List.mem_map_of_mem hp
      · exact absurd hunmasked (hid _ hp).1
    · intro g hg hgt
      rw [← hmoves] at hg
      obtain ⟨q, hq, rfl⟩ := List.mem_map.mp hg
      exact hmax q (List.mem_append_right _ hq) hgt
  | p :: q :: l' =>
    rw [← halloc, hbase] at hone
    simp at hone

end Query

/-! ### The directory with and without its gc files -/

/-- The directory without its gc files. -/
def withoutGc (d : Directory) : Directory := d.filter fun name => !startsWith name "gc"

/-- The program leaves the same in all files that are not gc files. -/
def SameFiles (d : Directory) : Prop :=
  ∀ name, ¬ startsWith name "gc" → (main d).read name = (main (withoutGc d)).read name

/-- What holds of the value and the time of every address field that a pass replaces. -/
def ForFields (d : Directory) (P : Addr → Time → Prop) : Prop :=
  ∀ f ∈ d.files, ∀ k, translatedKind k → startsWith f.1 k.filePrefix →
    ∀ r ∈ records k.size f.2, ∀ p ∈ k.addrFields, P (k.getAddr p r) (k.value r)

instance (d : Directory) (P : Addr → Time → Prop) [∀ v t, Decidable (P v t)] :
    Decidable (ForFields d P) :=
  inferInstanceAs (Decidable (∀ f ∈ d.files, _))

/-- A trace in tag mode: the NEW records have distinct tags, which are counted from `10` on, and the
records refer to objects by tags, by `0` or by `-1`. -/
structure TagMode (d : Directory) : Prop where
  distinct : ((newRecords d).map NewRecord.addr).Nodup
  issued : ∀ r ∈ newRecords d, 10 ≤ r.addr ∧ r.addr ≠ notFound
  carried : ForFields d fun v _ => v = 0 ∨ v = notFound ∨ 10 ≤ v

section Directory

variable {d : Directory}

lemma not_gc {name : String} {k : Kind} (hk : translatedKind k)
    (h : startsWith name k.filePrefix) : ¬ startsWith name "gc" := by
  intro hgc
  rw [kind_unique h (show startsWith name Kind.gc.filePrefix from hgc)] at hk
  cases hk

lemma read_withoutGc {name : String} (h : ¬ startsWith name "gc") :
    (withoutGc d).read name = d.read name :=
  Directory.read_filter (by simpa using h)

lemma filesStartWith_withoutGc (d : Directory) (sub : String) :
    filesStartWith (withoutGc d) sub =
      (filesStartWith d sub).filter fun name => !startsWith name "gc" := by
  rw [filesStartWith, withoutGc, Directory.names_filter, filesStartWith, List.filter_comm]

lemma newRecords_withoutGc (d : Directory) : newRecords (withoutGc d) = newRecords d := by
  have hgc : ∀ path ∈ filesStartWith d "NEW", ¬ startsWith path "gc" :=
    fun path hpath => not_gc (k := .new) rfl (List.mem_filter.mp hpath).2
  have hfiles : filesStartWith (withoutGc d) "NEW" = filesStartWith d "NEW" := by
    rw [filesStartWith_withoutGc, List.filter_eq_self]
    exact fun path hpath => by simpa using hgc path hpath
  rw [newRecords, newRecords, hfiles]
  congr 1
  refine List.map_congr_left fun path hpath => ?_
  rw [newFile, newFile, read_withoutGc (hgc path hpath)]

lemma gcRecords_withoutGc (d : Directory) : gcRecords (withoutGc d) = [] := by
  have hfiles : filesStartWith (withoutGc d) "gc" = [] := by
    rw [filesStartWith_withoutGc, List.filter_eq_nil_iff]
    exact fun path hpath => by simpa using (List.mem_filter.mp hpath).2
  rw [gcRecords, hfiles]
  rfl

lemma query_withoutGc (d : Directory) (v : Addr) (t : Time) :
    (buildAddrMap (withoutGc d)).1.query v t = (Store.build (newRecords d) []).query v t := by
  rw [query_buildAddrMap, newRecords_withoutGc, gcRecords_withoutGc]

lemma lines_withoutGc (d : Directory) : (buildAddrMap (withoutGc d)).2 = (buildAddrMap d).2 := by
  rw [buildAddrMap_lines, buildAddrMap_lines, newRecords_withoutGc]

/-- The table of the allocations does not depend on the gc files, so all is decided by what the
passes do to the other files. -/
lemma sameFiles_iff : SameFiles d ↔ ∀ f ∈ d.files, ¬ startsWith f.1 "gc" → f.1 ≠ "addr-id.dat" →
    rewriteFile (buildAddrMap d).1 f.1 f.2 = rewriteFile (buildAddrMap (withoutGc d)).1 f.1 f.2 := by
  constructor
  · intro h f hf hgc hne
    have hread := Directory.read_eq_some_iff.mpr hf
    have hsame := h f.1 hgc
    rw [read_main_of_ne hne, read_main_of_ne hne, read_withoutGc hgc, hread] at hsame
    exact Option.some.inj hsame
  · intro h name hgc
    by_cases hne : name = "addr-id.dat"
    · rw [hne, read_main_addrId, read_main_addrId, lines_withoutGc]
    · rw [read_main_of_ne hne, read_main_of_ne hne, read_withoutGc hgc]
      exact Option.map_congr fun bs hread =>
        h (name, bs) (Directory.read_eq_some_iff.mp hread) hgc hne

lemma rewriteFile_congr {am am' : AddrMap} {name : String} {bs : Bytes}
    (h : ∀ k, translatedKind k → startsWith name k.filePrefix → ∀ r ∈ records k.size bs,
      ∀ p ∈ k.addrFields,
        am.query (k.getAddr p r) (k.value r) = am'.query (k.getAddr p r) (k.value r)) :
    rewriteFile am name bs = rewriteFile am' name bs := by
  by_cases hpass : ∃ p ∈ passes, startsWith name p.kind.filePrefix
  · obtain ⟨p, hp, hname⟩ := hpass
    have hs := passes_separate p hp
    rw [rewriteFile_of_mem hp hname, rewriteFile_of_mem hp hname, transformLocal, transformLocal]
    refine congrArg Stream.bytes (Stream.rewrite_congr _ fun r hr => ?_)
    rw [foldl_transformer hp, foldl_transformer hp, translate_eq hs, translate_eq hs]
    congr 1
    refine List.map_congr_left fun f hf => ?_
    rw [h p.kind (passes_translated p hp) hname r (by simpa using hr) f
      ((passes_funcs p hp f).mp hf)]
  · have hnone : ∀ p ∈ passes, ¬ startsWith name p.kind.filePrefix := fun p hp h => hpass ⟨p, hp, h⟩
    rw [rewriteFile_of_not hnone, rewriteFile_of_not hnone]

lemma query_eq_of_rewriteFile {am am' : AddrMap} {name : String} {bs : Bytes} {k : Kind}
    (hk : translatedKind k) (hname : startsWith name k.filePrefix) (hbs : k.size ∣ bs.length)
    (h : rewriteFile am name bs = rewriteFile am' name bs) {r : Raw k.size}
    (hr : r ∈ records k.size bs) {p : Path} (hp : p ∈ k.addrFields) :
    am.query (k.getAddr p r) (k.value r) = am'.query (k.getAddr p r) (k.value r) := by
  obtain ⟨pass, hpass, rfl⟩ := exists_pass k hk
  have hs := passes_separate pass hpass
  have hp := (passes_funcs pass hpass p).mpr hp
  rw [rewriteFile_eq hpass hname hbs, rewriteFile_eq hpass hname hbs] at h
  have hmap := congrArg (records pass.kind.size) h
  rw [records_joinRecords (Kind.size_pos _), records_joinRecords (Kind.size_pos _),
    List.map_inj_left] at hmap
  rw [← getAddr_translate (q := am.query) hs hp, hmap r hr, getAddr_translate hs hp]

/-- **The gc files of a trace in tag mode.** When no relocation decides the query of an address
field, `addr2id` rewrites all other files as it does without the gc files. When no relocation takes
its object from a tag or from `0`, it does so in no other case. -/
theorem gc_noninterference (d : Directory) :
    (ForFields d (Undisturbed (newRecords d) (gcRecords d)) → SameFiles d) ∧
    (TagMode d → Whole d → (newRecords d).length + (gcRecords d).length < 2 ^ 31 - 1 →
      (∀ g ∈ gcRecords d, g.orgAddr ≠ 0 ∧ ∀ r ∈ newRecords d, r.addr ≠ g.orgAddr) →
      SameFiles d → ForFields d (Undisturbed (newRecords d) (gcRecords d))) := by
  constructor
  · intro h
    refine sameFiles_iff.mpr fun f hf _ _ => rewriteFile_congr fun k hk hname r hr p hp => ?_
    rw [query_buildAddrMap, query_withoutGc]
    exact query_undisturbed (h f hf k hk hname r hr p hp)
  · intro htag hwhole hcount horg hsame f hf k hk hname r hr p hp
    have hfile := sameFiles_iff.mp hsame f hf (not_gc hk hname) (ne_addrId hname)
    have hquery := query_eq_of_rewriteFile hk hname (hwhole f hf k hk hname) hfile hr hp
    rw [query_buildAddrMap, query_withoutGc] at hquery
    refine undisturbed_of_query htag.distinct (fun r hr hzero => ?_) hcount (fun g hg => ?_) hquery
    · have := (htag.issued r hr).1
      rw [hzero] at this
      exact absurd this (by decide)
    · obtain ⟨hzero, hnew⟩ := horg g hg
      rw [allocTimes, if_neg hzero, List.nil_append, List.map_eq_nil_iff, List.filter_eq_nil_iff]
      exact fun r hr => by simpa using hnew r hr

end Directory

/-- A trace in tag mode: the object with the tag `10` is allocated at time `1` and used at time `3`,
and at time `2` the hook sees an object move from `64` to `newAddr`. -/
def tagTrace (newAddr : UInt8) : Directory where
  files :=
    [ ("NEW-1-2", [5, 0, 0, 0, 7, 0, 0, 0, 16, 0, 0, 0, 10, 0, 0, 0, 1, 0, 0, 0, 0, 0, 0, 0]),
      ("Use-1-2", [0, 0, 6, 0, 0, 0, 0, 0, 10, 0, 0, 0, 0, 0, 0, 0, 3, 0, 0, 0, 0, 0, 0, 0]),
      ("gc-3-2", [64, 0, 0, 0, newAddr, 0, 0, 0, 2, 0, 0, 0, 0, 0, 0, 0]) ]
  nodup := show ["NEW-1-2", "Use-1-2", "gc-3-2"].Nodup by decide

theorem gc_noninterference_tag :
    SameFiles (tagTrace 80) ∧
      ForFields (tagTrace 80)
        (Undisturbed (newRecords (tagTrace 80)) (gcRecords (tagTrace 80))) := by
  have hsame := (gc_noninterference (tagTrace 80)).1 (by decide)
  exact ⟨hsame, (gc_noninterference (tagTrace 80)).2 ⟨by decide, by decide, by decide⟩ (by decide)
    (by decide) (by decide) hsame⟩

/-- A relocation to a number that is a tag: the use is taken for the use of another object. -/
theorem not_sameFiles_tag : ¬ ∀ d, TagMode d → SameFiles d := by
  intro h
  have hsame := h (tagTrace 10) ⟨by decide, by decide, by decide⟩
  let bs : Bytes := [0, 0, 6, 0, 0, 0, 0, 0, 10, 0, 0, 0, 0, 0, 0, 0, 3, 0, 0, 0, 0, 0, 0, 0]
  have hfile := sameFiles_iff.mp hsame ("Use-1-2", bs) (by decide) (by decide) (by decide)
  have hquery := query_eq_of_rewriteFile (k := .use) rfl (by decide) (by decide) hfile
    (r := ⟨bs, by decide⟩) (by decide) (p := .top .addr) (by decide)
  rw [query_buildAddrMap, query_withoutGc] at hquery
  revert hquery
  decide

end Cinst.Trace
