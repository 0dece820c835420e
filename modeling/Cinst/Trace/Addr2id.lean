import Cinst.Addr.Store
import Cinst.Lib.Directory
import Cinst.Record.Layout

/-!
The program `addr2id`: it builds the address map from the NEW and gc files of the working
directory, and then makes one pass for each of fifteen record types over the files of that type,
which are found by the prefix of their name, and replaces the addresses in place.

`main_eq` says what the fifteen passes do to a directory: no prefix of a pass begins with another
one's, so a file is changed by one pass at most.
-/

namespace Cinst.Trace

open Cinst.Lib Cinst.Record Cinst.Addr

/-! ### Files by name -/

/-- `std::string::find`: the first position at which `sub` occurs. -/
def find (s sub : String) : Option ℕ := s.toList.tails.findIdx? fun l => sub.toList.isPrefixOf l

/-- `startsWith` of `fs_util.h`. -/
def startsWith (s sub : String) : Bool := find s sub == some 0

/-- `filesStartWith`. -/
def filesStartWith (d : Directory) (sub : String) : List String :=
  d.names.filter fun name => startsWith name sub

lemma startsWith_iff {s sub : String} : startsWith s sub ↔ sub.toList <+: s.toList := by
  have htails : s.toList.tails = s.toList :: s.toList.tails.tail := by
    cases s.toList <;> simp
  rw [← List.isPrefixOf_iff_prefix, startsWith, find, htails, List.findIdx?_cons]
  cases sub.toList.isPrefixOf s.toList with
  | true => simp
  | false => simp

/-- The data file of a `Recorder`. -/
def dataName (k : Kind) (tid pid : ℤ) : String :=
  k.filePrefix ++ "-" ++ toString tid ++ "-" ++ toString pid

/-- The file that `Recorder::addString` writes. -/
def stringName (k : Kind) (tid pid : ℤ) : String :=
  k.filePrefix ++ "-" ++ "string-" ++ toString tid ++ "-" ++ toString pid

/-! ### The program -/

/-- The arguments of `process_all_data_file` and of `process_all_field_data_file`: the record type,
the time that a record is asked for, and the accessors. -/
structure Pass where
  kind : Kind
  time : Path
  funcs : List Path
  deriving DecidableEq

/-- `process_all_data_file<T>(funcs)`: the time is `value(val)`. -/
def processAllDataFile (kind : Kind) (funcs : List Path) : Pass := ⟨kind, kind.timePath, funcs⟩

/-- `process_all_field_data_file<T>(funcs)`: the time is `val.time`. -/
def processAllFieldDataFile (kind : Kind) (funcs : List Path) : Pass := ⟨kind, .top .time, funcs⟩

/-- The passes of `main`. -/
def passes : List Pass :=
  [ processAllDataFile .listAndSet [.inBr .holderAddr, .inBr .refAddr],
    processAllDataFile .map
      [.top .keyAddr, .top .valueAddr, .inBr .holderAddr, .inBr .refAddr],
    processAllFieldDataFile (.fieldValue false false false) [.top .addr],
    processAllFieldDataFile (.fieldValue false false true) [.top .addr],
    processAllFieldDataFile (.fieldValue false true false) [.top .addr],
    processAllFieldDataFile (.fieldValue false true true) [.top .addr],
    processAllFieldDataFile (.fieldValue true false false) [.top .addr],
    processAllFieldDataFile (.fieldValue true false true) [.top .addr],
    processAllFieldDataFile (.fieldValue true true false) [.top .addr],
    processAllFieldDataFile (.fieldValue true true true) [.top .addr],
    processAllDataFile .putField [.top .holderAddr, .top .refAddr],
    processAllDataFile .construct [.top .addr],
    processAllDataFile .aaStore [.top .holderAddr, .top .refAddr],
    processAllDataFile .use [.top .addr],
    processAllDataFile .new [.top .addr] ]

/-- `buffer_size` of `RecordReader`. -/
def bufferSize : ℕ := 1 <<< 10

/-- `RecordReader<T>::transform_local` on a file, with the transformers in the order they were
registered. -/
def transformLocal (k : Kind) (transformers : List (Raw k.size → Raw k.size)) (bs : Bytes) :
    Bytes :=
  (Stream.rewrite k.size bufferSize (Nat.mul_pos (Kind.size_pos k) (by decide))
    (fun r => transformers.foldl (fun r func => func r) r) ⟨bs, 0⟩).bytes

/-- The transformer of an accessor: `func(val) = am.query(func(val), value(val))`. -/
def Pass.transformer (am : AddrMap) (p : Pass) (func : Path) (r : Raw p.kind.size) :
    Raw p.kind.size :=
  p.kind.setAddr func (am.query (p.kind.getAddr func r) (getTime (p.kind.offset p.time) r)) r

/-- A pass over all files of the record type. -/
def Pass.run (am : AddrMap) (d : Directory) (p : Pass) : Directory :=
  (filesStartWith d p.kind.filePrefix).foldl
    (fun d path => d.modify path (transformLocal p.kind (p.funcs.map (p.transformer am)))) d

/-- The records of a NEW file. -/
def newFile (d : Directory) (path : String) : List NewRecord :=
  (records Kind.new.size ((d.read path).getD [])).map NewRecord.ofRaw

/-- The records of a gc file. -/
def gcFile (d : Directory) (path : String) : List GCRecord :=
  (records Kind.gc.size ((d.read path).getD [])).map GCRecord.ofRaw

/-- `build_addr_map` in a directory. -/
def buildAddrMap (d : Directory) : AddrMap × List AddrIdLine :=
  AddrMap.buildAddrMap ((filesStartWith d "NEW").map (newFile d))
    ((filesStartWith d "gc").map (gcFile d))

/-- All NEW records of a directory, in the order they are read. -/
def newRecords (d : Directory) : List NewRecord := ((filesStartWith d "NEW").map (newFile d)).flatten

/-- All gc records of a directory, in the order they are read. -/
def gcRecords (d : Directory) : List GCRecord := ((filesStartWith d "gc").map (gcFile d)).flatten

/-- The map of a directory answers as the store of its records does. -/
lemma query_buildAddrMap (d : Directory) (a : Addr) (t : Time) :
    (buildAddrMap d).1.query a t = (Store.build (newRecords d) (gcRecords d)).query a t :=
  Addr.query_buildAddrMap _ _ a t

lemma buildAddrMap_lines (d : Directory) :
    (buildAddrMap d).2 = (newRecords d).mapIdx fun i r => lineOf (1 + UInt32.ofNat i) r :=
  buildAddrMap_snd _ _

/-- The text of `addr-id.dat`. -/
def renderLines (lines : List AddrIdLine) : Bytes :=
  (lines.map fun l => l.render.toUTF8.toList).flatten

/-- `main` of `addr2id.cpp`. -/
def main (d : Directory) : Directory :=
  let opened := d.write "addr-id.dat" []
  let built := buildAddrMap opened
  passes.foldl (Pass.run built.1) (opened.write "addr-id.dat" (renderLines built.2))

/-! ### What the passes do -/

/-- A file of the record type, with the addresses replaced. -/
def Pass.rewriteFile (am : AddrMap) (p : Pass) (name : String) (bs : Bytes) : Bytes :=
  if startsWith name p.kind.filePrefix then
    transformLocal p.kind (p.funcs.map (p.transformer am)) bs
  else bs

lemma Pass.run_eq (am : AddrMap) (d : Directory) (p : Pass) :
    p.run am d = d.mapFiles (p.rewriteFile am) :=
  Directory.foldl_modify_filter d _ _

/-- A file after all passes. -/
def rewriteFile (am : AddrMap) (name : String) (bs : Bytes) : Bytes :=
  passes.foldl (fun bs p => p.rewriteFile am name bs) bs

lemma foldl_run (am : AddrMap) (ps : List Pass) (d : Directory) :
    ps.foldl (Pass.run am) d =
      d.mapFiles fun name bs => ps.foldl (fun bs p => p.rewriteFile am name bs) bs := by
  induction ps generalizing d with
  | nil => exact (Directory.mapFiles_eq_self fun _ _ => rfl).symm
  | cons p ps ih => rw [List.foldl_cons, Pass.run_eq, ih, Directory.mapFiles_mapFiles]; rfl

lemma filePrefix_prefixFree :
    ∀ k k' : Kind, k.filePrefix.toList <+: k'.filePrefix.toList → k = k' := by
  decide

lemma kind_unique {name : String} {k k' : Kind} (h : startsWith name k.filePrefix)
    (h' : startsWith name k'.filePrefix) : k = k' := by
  rw [startsWith_iff] at h h'
  rcases List.prefix_or_prefix_of_prefix h h' with hk | hk
  · exact filePrefix_prefixFree k k' hk
  · exact (filePrefix_prefixFree k' k hk).symm

lemma startsWith_append (s sub : String) : startsWith (sub ++ s) sub := by
  rw [startsWith_iff, String.toList_append]
  exact List.prefix_append ..

lemma startsWith_dataName (k : Kind) (tid pid : ℤ) :
    startsWith (dataName k tid pid) k.filePrefix := by
  simp only [dataName, String.append_assoc]
  exact startsWith_append ..

lemma startsWith_stringName (k : Kind) (tid pid : ℤ) :
    startsWith (stringName k tid pid) k.filePrefix := by
  simp only [stringName, String.append_assoc]
  exact startsWith_append ..

lemma passes_nodup : (passes.map Pass.kind).Nodup := by decide

section Main

variable {am : AddrMap} {name : String} {bs : Bytes}

lemma rewriteFile_of_mem {p : Pass} (hp : p ∈ passes) (h : startsWith name p.kind.filePrefix) :
    rewriteFile am name bs = transformLocal p.kind (p.funcs.map (p.transformer am)) bs := by
  have hn : passes.Nodup := List.Nodup.of_map _ passes_nodup
  refine foldl_ite_of_unique hn hp h (fun q hq hname => ?_) bs
  exact List.inj_on_of_nodup_map passes_nodup hq hp (kind_unique hname h)

lemma rewriteFile_of_not (h : ∀ p ∈ passes, ¬ startsWith name p.kind.filePrefix) :
    rewriteFile am name bs = bs :=
  foldl_ite_of_not (fun p hp => by simpa using h p hp) bs

lemma buildAddrMap_write (d : Directory) : buildAddrMap (d.write "addr-id.dat" bs) = buildAddrMap d := by
  have hread : ∀ sub, startsWith "addr-id.dat" sub = false → ∀ path ∈ filesStartWith d sub,
      (d.write "addr-id.dat" bs).read path = d.read path := by
    intro sub hsub path hpath
    refine Directory.read_write_ne ?_
    rintro rfl
    rw [filesStartWith, List.mem_filter, hsub] at hpath
    exact absurd hpath.2 (by simp)
  have hfiles : ∀ sub, startsWith "addr-id.dat" sub = false →
      filesStartWith (d.write "addr-id.dat" bs) sub = filesStartWith d sub :=
    fun sub hsub => Directory.names_write_filter hsub
  unfold buildAddrMap
  rw [hfiles "NEW" (by decide), hfiles "gc" (by decide)]
  congr 1
  · refine List.map_congr_left fun path hpath => ?_
    rw [newFile, newFile, hread "NEW" (by decide) path hpath]
  · refine List.map_congr_left fun path hpath => ?_
    rw [gcFile, gcFile, hread "gc" (by decide) path hpath]

/-- **The program in one step**: the table of the allocations is written, and every file is
rewritten by the pass of its record type. -/
theorem main_eq (d : Directory) :
    main d = (d.write "addr-id.dat" (renderLines (buildAddrMap d).2)).mapFiles
      (rewriteFile (buildAddrMap d).1) := by
  rw [main, buildAddrMap_write, Directory.write_write]
  exact foldl_run _ _ _

end Main

end Cinst.Trace
