import Cinst.Trace.Addr2id

/-!
What `addr2id` does to the files of a trace: in a file of one of the fifteen record types every
address field of every record becomes the id that the finished map has for it at the record's own
time, and nothing else changes.

The accessors of a pass change one record one after the other, and each of them reads the time of
the record again. The address fields and the time do not overlap, so the accessors do not see each
other (`translate_eq`).
-/

namespace Cinst.Trace

open Cinst.Lib Cinst.Record Cinst.Addr

/-! ### One record -/

/-- A record with several address fields overwritten. -/
def setAddrs (k : Kind) (r : Raw k.size) (vals : List (Path × Addr)) : Raw k.size :=
  vals.foldl (fun r v => k.setAddr v.1 v.2 r) r

/-- A record after the accessors of a pass, for a map that answers with `q`. -/
def translate (k : Kind) (q : Addr → Time → ObjId) (funcs : List Path) (r : Raw k.size) :
    Raw k.size :=
  funcs.foldl (fun r func => k.setAddr func (q (k.getAddr func r) (k.value r)) r) r

/-- The address fields of a list lie inside the record and overlap neither the time nor each
other. -/
structure Separate (k : Kind) (ps : List Path) : Prop where
  inside : ∀ p ∈ ps, k.offset p + 4 ≤ k.size
  time : ∀ p ∈ ps, Apart (k.offset k.timePath) 8 (k.offset p) 4
  apart : ps.Pairwise fun p p' => Apart (k.offset p) 4 (k.offset p') 4

lemma Separate.tail {k : Kind} {p : Path} {ps : List Path} (h : Separate k (p :: ps)) :
    Separate k ps :=
  ⟨fun q hq => h.inside q (List.mem_cons_of_mem _ hq),
    fun q hq => h.time q (List.mem_cons_of_mem _ hq), (List.pairwise_cons.mp h.apart).2⟩

section Record

variable {k : Kind} {q q' : Addr → Time → ObjId} {ps : List Path}
  {vals : List (Path × Addr)}

lemma getWord_setAddrs {off n : ℕ} (hin : ∀ v ∈ vals, k.offset v.1 + 4 ≤ k.size)
    (h : ∀ v ∈ vals, Apart off n (k.offset v.1) 4) (r : Raw k.size) :
    getWord off n (setAddrs k r vals) = getWord off n r := by
  induction vals generalizing r with
  | nil => rfl
  | cons v vals ih =>
    rw [setAddrs, List.foldl_cons]
    refine (ih (fun w hw => hin w (List.mem_cons_of_mem _ hw))
      (fun w hw => h w (List.mem_cons_of_mem _ hw)) _).trans ?_
    exact getWord_setAddr (hin v (by simp)) (h v (by simp)) _ _

lemma getElem?_setAddrs {i : ℕ} (hin : ∀ v ∈ vals, k.offset v.1 + 4 ≤ k.size)
    (h : ∀ v ∈ vals, i < k.offset v.1 ∨ k.offset v.1 + 4 ≤ i) (r : Raw k.size) :
    (setAddrs k r vals).bytes[i]? = r.bytes[i]? := by
  induction vals generalizing r with
  | nil => rfl
  | cons v vals ih =>
    rw [setAddrs, List.foldl_cons]
    refine (ih (fun w hw => hin w (List.mem_cons_of_mem _ hw))
      (fun w hw => h w (List.mem_cons_of_mem _ hw)) _).trans ?_
    exact getElem?_setAddr (hin v (by simp)) (h v (by simp)) _ _

/-- The values that the accessors store. -/
def answers (k : Kind) (q : Addr → Time → ObjId) (ps : List Path) (r : Raw k.size) :
    List (Path × Addr) :=
  ps.map fun p => (p, q (k.getAddr p r) (k.value r))

lemma Separate.value_setAddr {p : Path} (hs : Separate k (p :: ps)) (a : Addr) (r : Raw k.size) :
    k.value (k.setAddr p a r) = k.value r :=
  congrArg UInt64.ofNat (getWord_setAddr (hs.inside p (by simp)) (hs.time p (by simp)) a r)

lemma Separate.getAddr_setAddr {p p' : Path} (hs : Separate k (p :: ps)) (hp' : p' ∈ ps) (a : Addr)
    (r : Raw k.size) : k.getAddr p' (k.setAddr p a r) = k.getAddr p' r :=
  congrArg UInt32.ofNat (getWord_setAddr (hs.inside p (by simp))
    ((List.pairwise_cons.mp hs.apart).1 p' hp').symm a r)

/-- **The accessors do not see each other**: all of them read the original record. -/
theorem translate_eq (hs : Separate k ps) (r : Raw k.size) :
    translate k q ps r = setAddrs k r (answers k q ps r) := by
  induction ps generalizing r with
  | nil => rfl
  | cons p ps ih =>
    rw [translate, List.foldl_cons]
    refine (ih hs.tail _).trans ?_
    rw [setAddrs, setAddrs, answers, answers, List.map_cons, List.foldl_cons]
    congr 1
    refine List.map_congr_left fun p' hp' => ?_
    rw [hs.value_setAddr, hs.getAddr_setAddr hp']

lemma Separate.inside_answers (hs : Separate k ps) (r : Raw k.size) :
    ∀ v ∈ answers k q ps r, k.offset v.1 + 4 ≤ k.size := by
  intro v hv
  obtain ⟨p, hp, rfl⟩ := List.mem_map.mp hv
  exact hs.inside p hp

lemma getElem?_translate (hs : Separate k ps) {i : ℕ}
    (h : ∀ p ∈ ps, i < k.offset p ∨ k.offset p + 4 ≤ i) (r : Raw k.size) :
    (translate k q ps r).bytes[i]? = r.bytes[i]? := by
  rw [translate_eq hs]
  refine getElem?_setAddrs (hs.inside_answers r) ?_ r
  intro v hv
  obtain ⟨p, hp, rfl⟩ := List.mem_map.mp hv
  exact h p hp

lemma getWord_translate (hs : Separate k ps) (off n : ℕ)
    (h : ∀ p ∈ ps, Apart off n (k.offset p) 4) (r : Raw k.size) :
    getWord off n (translate k q ps r) = getWord off n r := by
  rw [translate_eq hs]
  refine getWord_setAddrs (hs.inside_answers r) ?_ r
  intro v hv
  obtain ⟨p, hp, rfl⟩ := List.mem_map.mp hv
  exact h p hp

lemma value_translate (hs : Separate k ps) (r : Raw k.size) :
    k.value (translate k q ps r) = k.value r :=
  congrArg UInt64.ofNat (getWord_translate hs _ _ hs.time r)

/-- **Every address field is replaced once.** -/
theorem getAddr_translate (hs : Separate k ps) {p : Path} (hp : p ∈ ps) (r : Raw k.size) :
    k.getAddr p (translate k q ps r) = q (k.getAddr p r) (k.value r) := by
  induction ps generalizing r with
  | nil => simp at hp
  | cons p₀ ps ih =>
    rw [translate, List.foldl_cons]
    rcases List.mem_cons.mp hp with rfl | hp
    · have hkept := getWord_translate (q := q) hs.tail _ _ (List.pairwise_cons.mp hs.apart).1
        (k.setAddr p (q (k.getAddr p r) (k.value r)) r)
      exact (congrArg UInt32.ofNat hkept).trans (getAddr_setAddr (hs.inside p (by simp)) _ _)
    · refine (ih hs.tail hp _).trans ?_
      rw [hs.value_setAddr, hs.getAddr_setAddr hp]

end Record

/-! ### The passes of the program -/

lemma passes_separate : ∀ p ∈ passes, Separate p.kind p.funcs := by
  have hin : ∀ p ∈ passes, ∀ f ∈ p.funcs, p.kind.offset f + 4 ≤ p.kind.size := by decide
  have htime : ∀ p ∈ passes, ∀ f ∈ p.funcs,
      Apart (p.kind.offset p.kind.timePath) 8 (p.kind.offset f) 4 := by decide
  have hapart : ∀ p ∈ passes,
      p.funcs.Pairwise fun f f' => Apart (p.kind.offset f) 4 (p.kind.offset f') 4 := by decide
  exact fun p hp => ⟨hin p hp, htime p hp, hapart p hp⟩

lemma passes_time : ∀ p ∈ passes, p.time = p.kind.timePath := by decide

lemma passes_funcs : ∀ p ∈ passes, ∀ f, f ∈ p.funcs ↔ f ∈ p.kind.addrFields := by
  have h : ∀ p ∈ passes, p.funcs ⊆ p.kind.addrFields ∧ p.kind.addrFields ⊆ p.funcs := by decide
  exact fun p hp f => ⟨fun hf => (h p hp).1 hf, fun hf => (h p hp).2 hf⟩

/-- The record types that have a pass. -/
def translatedKind : Kind → Bool
  | .listAndSet | .map | .fieldValue .. | .putField | .construct | .aaStore | .use | .new => true
  | .gc | .staticFieldValue .. | .stringFieldValue _ | .staticStringFieldValue _
  | .containerLineInfo | .free | .event => false

lemma exists_pass : ∀ k, translatedKind k → ∃ p ∈ passes, p.kind = k := by decide

lemma passes_translated : ∀ p ∈ passes, translatedKind p.kind := by decide

lemma foldl_transformer {p : Pass} (hp : p ∈ passes) (am : AddrMap) (r : Raw p.kind.size) :
    (p.funcs.map (p.transformer am)).foldl (fun r func => func r) r =
      translate p.kind am.query p.funcs r := by
  rw [List.foldl_map, translate]
  simp only [Pass.transformer, passes_time p hp]
  rfl

/-- A file of whole records after its pass. -/
theorem rewriteFile_eq {am : AddrMap} {name : String} {bs : Bytes} {p : Pass} (hp : p ∈ passes)
    (h : startsWith name p.kind.filePrefix) (hbs : p.kind.size ∣ bs.length) :
    rewriteFile am name bs =
      joinRecords ((records p.kind.size bs).map (translate p.kind am.query p.funcs)) := by
  have hat : Stream.At ⟨bs, 0⟩ [] (records p.kind.size bs) :=
    ⟨(joinRecords_records hbs).symm, rfl⟩
  rw [rewriteFile_of_mem hp h, transformLocal, Stream.rewrite_whole _ hat, List.nil_append]
  congr 2
  funext r
  exact foldl_transformer hp am r

lemma records_rewriteFile (am : AddrMap) {name : String} {p : Pass} (hp : p ∈ passes)
    (h : startsWith name p.kind.filePrefix) (rs : List (Raw p.kind.size)) :
    records p.kind.size (rewriteFile am name (joinRecords rs)) =
      rs.map (translate p.kind am.query p.funcs) := by
  have hwhole : p.kind.size ∣ (joinRecords rs).length := by
    rw [length_joinRecords]
    exact Nat.dvd_mul_left ..
  rw [rewriteFile_eq hp h hwhole, records_joinRecords (Kind.size_pos _),
    records_joinRecords (Kind.size_pos _)]

/-! ### The files of a trace -/

/-- The address fields of a record are replaced by what `q` answers for them at the record's time,
and no other byte changes. -/
structure RecordTranslated (q : Addr → Time → ObjId) (k : Kind) (r r' : Raw k.size) : Prop where
  addr : ∀ p ∈ k.addrFields, k.getAddr p r' = q (k.getAddr p r) (k.value r)
  other : ∀ i, (∀ p ∈ k.addrFields, i < k.offset p ∨ k.offset p + 4 ≤ i) →
    r'.bytes[i]? = r.bytes[i]?

/-- A file of whole records whose records are those of another file, in the same order, each with
the addresses replaced. -/
structure FileTranslated (q : Addr → Time → ObjId) (k : Kind) (bs bs' : Bytes) : Prop where
  whole : k.size ∣ bs'.length
  records : List.Forall₂ (RecordTranslated q k) (records k.size bs) (records k.size bs')

/-- A directory in which all files that a pass takes for its own hold whole records. -/
def Whole (d : Directory) : Prop :=
  ∀ f ∈ d.files, ∀ k, translatedKind k → startsWith f.1 k.filePrefix → k.size ∣ f.2.length

instance (d : Directory) : Decidable (Whole d) := inferInstanceAs (Decidable (∀ f ∈ d.files, _))

theorem fileTranslated_rewriteFile {am : AddrMap} {name : String} {bs : Bytes} {k : Kind}
    (hk : translatedKind k) (h : startsWith name k.filePrefix) (hbs : k.size ∣ bs.length) :
    FileTranslated am.query k bs (rewriteFile am name bs) := by
  obtain ⟨p, hp, rfl⟩ := exists_pass k hk
  have hs := passes_separate p hp
  rw [rewriteFile_eq hp h hbs]
  constructor
  · rw [length_joinRecords]
    exact Nat.dvd_mul_left ..
  · rw [records_joinRecords (Kind.size_pos p.kind), List.forall₂_map_right_iff, List.forall₂_same]
    intro r _
    constructor
    · intro f hf
      exact getAddr_translate hs ((passes_funcs p hp f).mpr hf) r
    · intro i hi
      exact getElem?_translate hs (fun f hf => hi f ((passes_funcs p hp f).mp hf)) r

lemma rewriteFile_of_not_translated {am : AddrMap} {name : String} {bs : Bytes} {k : Kind}
    (hk : translatedKind k = false) (h : startsWith name k.filePrefix) :
    rewriteFile am name bs = bs := by
  refine rewriteFile_of_not fun p hp h' => ?_
  have hkind := passes_translated p hp
  rw [kind_unique h' h, hk] at hkind
  cases hkind

lemma not_startsWith_addrId : ∀ k : Kind, ¬ startsWith "addr-id.dat" k.filePrefix := by decide

lemma ne_addrId {name : String} {k : Kind} (h : startsWith name k.filePrefix) :
    name ≠ "addr-id.dat" :=
  fun e => not_startsWith_addrId k (e ▸ h)

lemma read_main_of_ne {d : Directory} {name : String} (h : name ≠ "addr-id.dat") :
    (main d).read name = (d.read name).map (rewriteFile (buildAddrMap d).1 name) := by
  rw [main_eq, Directory.read_mapFiles, Directory.read_write_ne h]

lemma read_main_addrId (d : Directory) :
    (main d).read "addr-id.dat" = some (renderLines (buildAddrMap d).2) := by
  rw [main_eq, Directory.read_mapFiles, Directory.read_write_self, Option.map_some,
    rewriteFile_of_not fun p _ => not_startsWith_addrId p.kind]

lemma read_main_of_startsWith {d : Directory} {name : String} {bs : Bytes} {k : Kind}
    (h : startsWith name k.filePrefix) (hread : d.read name = some bs) :
    (main d).read name = some (rewriteFile (buildAddrMap d).1 name bs) := by
  rw [read_main_of_ne (ne_addrId h), hread]
  rfl

/-- **Addresses are replaced once, and nothing else changes.** In any directory, a data file of
whole records has its address fields replaced by the ids that the finished map has for them at the
time of their record, when its record type is one of the fifteen, and stays as it is otherwise. A
string table of a record type that has no pass stays as it is. -/
theorem main_translates (d : Directory) (k : Kind) (tid pid : ℤ) (bs : Bytes) :
    (k.size ∣ bs.length → d.read (dataName k tid pid) = some bs →
      ∃ bs', (main d).read (dataName k tid pid) = some bs' ∧
        if translatedKind k then FileTranslated (buildAddrMap d).1.query k bs bs' else bs' = bs) ∧
    (translatedKind k = false → d.read (stringName k tid pid) = some bs →
      (main d).read (stringName k tid pid) = some bs) := by
  constructor
  · intro hbs hread
    have hname := startsWith_dataName k tid pid
    refine ⟨_, read_main_of_startsWith hname hread, ?_⟩
    split
    · rename_i hk
      exact fileTranslated_rewriteFile hk hname hbs
    · rename_i hk
      exact rewriteFile_of_not_translated (by simpa using hk) hname
  · intro hk hread
    have hname := startsWith_stringName k tid pid
    rw [read_main_of_startsWith hname hread, rewriteFile_of_not_translated hk hname]

/-- A trace with one allocation at `8`, one use of it, and a string table. -/
def useTrace : Directory where
  files :=
    [ ("NEW-1-2", [5, 0, 0, 0, 7, 0, 0, 0, 16, 0, 0, 0, 8, 0, 0, 0, 1, 0, 0, 0, 0, 0, 0, 0]),
      ("Use-1-2", [0, 0, 6, 0, 0, 0, 0, 0, 8, 0, 0, 0, 0, 0, 0, 0, 2, 0, 0, 0, 0, 0, 0, 0]),
      ("PutStringField-string-1-2", [48, 44, 97, 10]) ]
  nodup := by decide

theorem main_translates_use :
    (∃ bs', (main useTrace).read "Use-1-2" = some bs' ∧
      FileTranslated (buildAddrMap useTrace).1.query .use
        [0, 0, 6, 0, 0, 0, 0, 0, 8, 0, 0, 0, 0, 0, 0, 0, 2, 0, 0, 0, 0, 0, 0, 0] bs') ∧
    (main useTrace).read "PutStringField-string-1-2" = some [48, 44, 97, 10] :=
  ⟨(main_translates useTrace .use 1 2 _).1 (by decide) (by decide),
    (main_translates useTrace (.stringFieldValue true) 1 2 _).2 (by decide) (by decide)⟩

/-- A `Recorder` of any type can be given strings, but the table of a type that has a pass is taken
for a data file. -/
theorem not_strings_unchanged :
    ¬ ∀ d : Directory,
      (∀ f ∈ d.files, (∃ k tid pid, f.1 = dataName k tid pid ∧ k.size ∣ f.2.length) ∨
        ∃ k tid pid, f.1 = stringName k tid pid) →
      ∀ k tid pid bs, d.read (stringName k tid pid) = some bs →
        (main d).read (stringName k tid pid) = some bs := by
  intro h
  let bs : Bytes := List.replicate 24 97
  let d : Directory := ⟨[(stringName .use 1 2, bs)], by decide⟩
  have hread : d.read (stringName .use 1 2) = some bs := by decide
  have hname := startsWith_stringName .use 1 2
  have hsame := h d (by intro f hf; exact Or.inr ⟨.use, 1, 2, by rw [List.mem_singleton.mp hf]⟩)
    .use 1 2 bs hread
  rw [read_main_of_startsWith hname hread, Option.some.injEq] at hsame
  have hfile : FileTranslated (buildAddrMap d).1.query .use bs _ :=
    fileTranslated_rewriteFile rfl hname (by decide)
  rw [hsame] at hfile
  have hrec : records Kind.use.size bs = [⟨bs, by decide⟩] := by decide
  have hr := hfile.records
  rw [hrec, List.forall₂_cons] at hr
  have haddr := hr.1.addr (.top .addr) (by decide)
  have hquery : ∀ a t, a ≠ 0 → (buildAddrMap d).1.query a t = notFound := by
    intro a t ha
    have hnews : newRecords d = [] := by decide
    have hgcs : gcRecords d = [] := by decide
    rw [query_buildAddrMap, hnews, hgcs]
    show resolve (eventsAt [⟨0, 0, 0⟩] a) t = notFound
    rw [eventsAt_cons_ne _ ha.symm]
    rfl
  rw [hquery _ _ (by decide)] at haddr
  revert haddr
  decide

end Cinst.Trace
