import Cinst.Addr.Zero
import Cinst.Trace.Translate

/-!
Which ids stand in the address fields of a trace after `addr2id`.

The fields of the fifteen record types with a pass hold answers of the map, which are ids that it
has handed out (`query_handedOut`). The string fields of objects and the Free records have no pass:
their addresses stay, so they do no harm when they name no object (`oneIdSpace_iff`). Any other one
agrees with the ids only when it happens to be a number that is also an id.
-/

namespace Cinst.Trace

open Cinst.Lib Cinst.Record Cinst.Addr

/-! ### The ids of the map -/

/-- The ids that `insert_gc` hands out, one for each relocation of an object that is not known. -/
def gcIds (am : AddrMap) : List GCRecord → List ObjId
  | [] => []
  | r :: gcs =>
    (if am.query r.orgAddr r.time = notFound then [am.curId ||| gcMask] else []) ++
      gcIds (am.insertGcRecord r) gcs

/-- All events of a store have the id `0` or one of the given ones. -/
def Known (s : Store) (ids : List ObjId) : Prop := ∀ e ∈ s.events, e.id = 0 ∨ e.id ∈ ids

lemma Known.query {s : Store} {ids : List ObjId} (h : Known s ids) (a : Addr) (t : Time) :
    s.query a t = notFound ∨ s.query a t = 0 ∨ s.query a t ∈ ids := by
  rcases resolve_mem (l := eventsAt s.events a) (t := t) with hq | ⟨p, hp, hq⟩
  · exact Or.inl hq
  · right
    unfold Store.query
    rw [← hq]
    exact h _ (mem_eventsAt.mp hp)

lemma Known.addMove {am : AddrMap} {s : Store} {ids : List ObjId} (hr : Refines am s)
    (h : Known s ids) (r : GCRecord) :
    Known (s.addMove r)
      (ids ++ if am.query r.orgAddr r.time = notFound then [am.curId ||| gcMask] else []) := by
  intro e he
  rw [Store.addMove_events, List.mem_append, List.mem_singleton] at he
  rw [hr.query, hr.curId, List.mem_append]
  rcases he with he | rfl
  · rcases h e he with h0 | hmem
    · exact Or.inl h0
    · exact Or.inr (Or.inl hmem)
  · show s.moveId r = 0 ∨ s.moveId r ∈ ids ∨ s.moveId r ∈ _
    unfold Store.moveId
    split_ifs with hq
    · exact Or.inr (Or.inr (List.mem_singleton_self _))
    · rcases h.query r.orgAddr r.time with hnot | h0 | hmem
      · exact absurd hnot hq
      · exact Or.inl h0
      · exact Or.inr (Or.inl hmem)

lemma Known.foldl_addMove {am : AddrMap} {s : Store} {ids : List ObjId} (hr : Refines am s)
    (h : Known s ids) (gcs : List GCRecord) :
    Known (gcs.foldl Store.addMove s) (ids ++ gcIds am gcs) := by
  induction gcs generalizing am s ids with
  | nil =>
    rw [gcIds, List.append_nil]
    exact h
  | cons r gcs ih =>
    rw [gcIds, ← List.append_assoc]
    exact ih (hr.insertGcRecord r) (h.addMove hr r)

/-- A place for an address: a field of the `nth` record of a data file. -/
structure Place where
  kind : Kind
  tid : ℤ
  pid : ℤ
  nth : ℕ
  path : Path

/-- The record of a place. -/
def recordAt (d : Directory) (p : Place) : Option (Raw p.kind.size) :=
  (d.read (dataName p.kind p.tid p.pid)).bind fun bs => (records p.kind.size bs)[p.nth]?

/-- At the place `p` of a file other than a gc file there is an address field, which holds `a` in a
record of the time `t`. -/
structure Reference (d : Directory) (p : Place) (a : Addr) (t : Time) : Prop where
  kind : p.kind ≠ .gc
  path : p.path ∈ p.kind.addrFields
  holds : ∃ r, recordAt d p = some r ∧ p.kind.getAddr p.path r = a ∧ p.kind.value r = t

/-- The data files hold whole records. -/
def WholeData (d : Directory) : Prop :=
  ∀ k tid pid bs, d.read (dataName k tid pid) = some bs → k.size ∣ bs.length

/-- The record types that hold the address of an object and have no pass. -/
def unpassed : List Kind := [.stringFieldValue false, .stringFieldValue true, .free]

/-- No record of the trace puts an object at the address. -/
def NeverNamed (d : Directory) (a : Addr) : Prop :=
  (∀ r ∈ newRecords d, r.addr ≠ a) ∧ ∀ g ∈ gcRecords d, g.newAddr ≠ a

/-- The data files hold whole records, and the addresses in the files without a pass name no object:
each is `0`, and no record has put an object there by then, or it is `notFound`, and no record puts an
object there. -/
structure NamesNoObject (d : Directory) : Prop where
  whole : WholeData d
  addrs : ∀ p a t, Reference d p a t → p.kind ∈ unpassed →
    a = 0 ∧ ZeroKept (newRecords d) (gcRecords d) t ∨ a = notFound ∧ NeverNamed d notFound

/-- An address that names no object is the answer of the map for it, unless the map has none. -/
lemma NamesNoObject.query {d : Directory} (h : NamesNoObject d) {p : Place} {a : Addr} {t : Time}
    (hp : Reference d p a t) (hk : p.kind ∈ unpassed) : (buildAddrMap d).1.query a t = a := by
  rw [query_buildAddrMap]
  rcases h.addrs p a t hp hk with ⟨rfl, hkept⟩ | ⟨rfl, hnews, hgcs⟩
  · exact query_zero hkept
  · exact query_eq_notFound (by decide) hnews hgcs t

end Cinst.Trace
