import Cinst.Addr.Heap
import Cinst.Addr.Rename

/-!
Replaying the records of a heap history.

All allocations are stored first, in any order, and then the moves, in any order in which a move
that took its object from where another move had put it comes after that one (`Replays`). All the
time the store holds events of the history only, and those of the allocations and of the moves
replayed so far (`Replayed`). An address is then resolved to the object that lives there as soon as
the records that touch the address carry times in the order of the history (`resolve_live`).
-/

namespace Cinst.Addr

open Cinst.Lib Cinst.Record

section Replay

variable {α Obj : Type*} (key : α → Addr)

/-- The gc records of a history: one for each move, with the address `key a` recorded for `a`. -/
def gcRecords (evs : List (HeapEvent α Obj)) : List GCRecord :=
  evs.filterMap fun e => match e with
    | .move a b t => some ⟨key a, key b, t⟩
    | _ => none

/-- Address and time of the NEW records of a history. -/
def newKeys (evs : List (HeapEvent α Obj)) : List (Addr × Time) :=
  evs.filterMap fun e => match e with
    | .new _ a t => some (key a, t)
    | _ => none

variable {key} in
lemma mem_newKeys {evs : List (HeapEvent α Obj)} {a : Addr} {t : Time} :
    (a, t) ∈ newKeys key evs ↔ ∃ o b, HeapEvent.new o b t ∈ evs ∧ key b = a := by
  unfold newKeys
  rw [List.mem_filterMap]
  constructor
  · rintro ⟨e, he, h⟩
    cases e with
    | new o b t' =>
      cases h
      exact ⟨o, b, he, rfl⟩
    | _ => cases h
  · rintro ⟨o, b, he, rfl⟩
    exact ⟨_, he, rfl⟩

/-- Records of a later event are later when one of the two events puts an object at an address
that the other one puts an object at or moves it from. -/
def Ordered (e e' : HeapEvent α Obj) : Prop :=
  ∀ a t t',
    (e.writes = some (a, t) → e'.writes = some (a, t') ∨ e'.moves = some (a, t') → t < t') ∧
    (e.moves = some (a, t) → e'.writes = some (a, t') → t < t')

variable [DecidableEq α] [DecidableEq Obj]

/-- A history and the NEW records of its allocations, in any order. The times of records that
touch one address are in the order of the history, and different addresses of the history are
recorded differently. -/
structure Recorded (evs : List (HeapEvent α Obj)) (news : List NewRecord) : Prop where
  valid : ∃ h, run Heap.step Heap.empty evs = some h
  perm : (news.map fun r => (r.addr, r.time)).Perm (newKeys key evs)
  ordered : evs.Pairwise Ordered
  pos : ∀ e ∈ evs, ∀ a t, e.writes = some (a, t) → key a = 0 → 0 < t
  inj : ∀ e ∈ evs, ∀ e' ∈ evs, ∀ a ∈ e.addrs, ∀ b ∈ e'.addrs, key a = key b → a = b
  count : news.length < 2 ^ 31 - 1

/-- The id that the NEW record of `o` gets. -/
def IdOf (evs : List (HeapEvent α Obj)) (news : List NewRecord) (o : Obj) (i : ObjId) : Prop :=
  ∃ a t k r, HeapEvent.new o a t ∈ evs ∧ news[k]? = some r ∧ r.addr = key a ∧ r.time = t ∧
    i = newId k

/-- The id of an object of the history. -/
noncomputable def idOf (evs : List (HeapEvent α Obj)) (news : List NewRecord) (o : Obj) : ObjId :=
  Classical.epsilon (IdOf key evs news o)

variable {key} {evs : List (HeapEvent α Obj)} {news : List NewRecord}

namespace Recorded

lemma nodup_keys (h : Recorded key evs news) : (news.map fun r => (r.addr, r.time)).Nodup := by
  refine h.perm.nodup_iff.mpr ?_
  have hpw := h.ordered.and (List.pairwise_of_forall_mem_list
    (r := fun e e' => ∀ a ∈ e.addrs, ∀ b ∈ e'.addrs, key a = key b → a = b)
    fun e he e' he' => h.inj e he e' he')
  refine List.Pairwise.filterMap _ (fun e e' ⟨hord, hinj⟩ k hk k' hk' heq => ?_) hpw
  cases e with
  | new o a t =>
    cases e' with
    | new o' b t' =>
      cases hk
      cases hk'
      simp only [Prod.mk.injEq] at heq
      have hab := hinj a (by simp [HeapEvent.addrs]) b (by simp [HeapEvent.addrs]) heq.1
      subst hab
      exact (((hord a t t').1 rfl (Or.inl rfl)).ne) heq.2
    | _ => cases hk'
  | _ => cases hk

lemma index_unique (h : Recorded key evs news) {k k' : ℕ} {r r' : NewRecord}
    (hk : news[k]? = some r) (hk' : news[k']? = some r')
    (heq : (r.addr, r.time) = (r'.addr, r'.time)) : k = k' := by
  have e : ∀ (k : ℕ) (r : NewRecord), news[k]? = some r →
      (news.map fun r => (r.addr, r.time))[k]? = some (r.addr, r.time) := by
    intro k r hk
    rw [List.getElem?_map, hk]
    rfl
  have h1 := e k r hk
  have h2 := e k' r' hk'
  rw [heq] at h1
  have hlt := (List.getElem?_eq_some_iff.mp h1).1
  exact (List.getElem?_inj hlt h.nodup_keys).mp (h1.trans h2.symm)

lemma exists_record (h : Recorded key evs news) {o : Obj} {a : α} {t : Time}
    (hm : HeapEvent.new o a t ∈ evs) :
    ∃ (k : ℕ) (r : NewRecord), news[k]? = some r ∧ r.addr = key a ∧ r.time = t := by
  have hkey : (key a, t) ∈ news.map fun r => (r.addr, r.time) :=
    h.perm.mem_iff.mpr (mem_newKeys.mpr ⟨o, a, hm, rfl⟩)
  obtain ⟨r, hr, heq⟩ := List.mem_map.mp hkey
  obtain ⟨k, hk⟩ := List.mem_iff_getElem?.mp hr
  simp only [Prod.mk.injEq] at heq
  exact ⟨k, r, hk, heq.1, heq.2⟩

/-- The id of an object is the one its NEW record gets. -/
theorem idOf_eq (h : Recorded key evs news) {o : Obj} {a : α} {t : Time} {k : ℕ} {r : NewRecord}
    (hm : HeapEvent.new o a t ∈ evs) (hk : news[k]? = some r) (ha : r.addr = key a)
    (ht : r.time = t) : idOf key evs news o = newId k := by
  have hex : ∃ i, IdOf key evs news o i := ⟨_, a, t, k, r, hm, hk, ha, ht, rfl⟩
  obtain ⟨b, s, k', r', hm', hk', ha', ht', hi⟩ := Classical.epsilon_spec hex
  obtain ⟨heap, hrun⟩ := h.valid
  obtain ⟨rfl, rfl⟩ := Heap.new_unique hrun hm hm'
  rw [idOf, hi, h.index_unique hk' hk (by rw [ha', ht', ha, ht])]

end Recorded

/-! ### What the store holds during the replay -/

variable (key) (news)

/-- The event `ev` records that some event of `evs` put an object somewhere. -/
def Placed (evs : List (HeapEvent α Obj)) (ev : Event) : Prop :=
  ∃ p e q h a t o, evs = p ++ e :: q ∧ run Heap.step Heap.empty p = some h ∧
    e.writes = some (a, t) ∧ h.placed e = some o ∧ ev = ⟨key a, t, idOf key evs news o⟩

/-- The records `gcs` replay the moves of `evs`. A move that takes its object from where another
move put it comes after that one. -/
structure Replays (evs : List (HeapEvent α Obj)) (gcs : List GCRecord) : Prop where
  complete : ∀ a b t, HeapEvent.move a b t ∈ evs → ⟨key a, key b, t⟩ ∈ gcs
  ordered : ∀ pre r post, gcs = pre ++ r :: post →
    ∃ p a b t q, evs = p ++ .move a b t :: q ∧ r = ⟨key a, key b, t⟩ ∧
      ∀ p' c s q', p = p' ++ .move c a s :: q' → (∀ e ∈ q', ∀ t', e.writes ≠ some (a, t')) →
        ⟨key c, key a, s⟩ ∈ pre

/-- The log `es` after the records `done`: it holds events of the history and the built-in one
only, and the events of all allocations and of the moves of `done`. -/
structure Replayed (evs : List (HeapEvent α Obj)) (done : List GCRecord) (es : List Event) :
    Prop where
  sound : ∀ ev ∈ es, ev = ⟨0, 0, 0⟩ ∨ Placed key news evs ev
  allocs : ∀ o a t, HeapEvent.new o a t ∈ evs → ⟨key a, t, idOf key evs news o⟩ ∈ es
  moves : ∀ p a b t q h o, evs = p ++ .move a b t :: q → ⟨key a, key b, t⟩ ∈ done →
    run Heap.step Heap.empty p = some h → h.live a = some o →
    ⟨key b, t, idOf key evs news o⟩ ∈ es

variable {key} {news}

/-- **An address resolves to the object that lives there** before an event `x`. The move that put
the object there, if it was a move, is replayed, and the records that put objects at the address
before and after are in order with the query. -/
theorem resolve_live (hrec : Recorded key evs news) {done : List GCRecord} {es : List Event}
    (hes : Replayed key news evs done es) {pre post : List (HeapEvent α Obj)} {x : HeapEvent α Obj}
    (hevs : evs = pre ++ x :: post) {h : Heap α Obj}
    (hrun : run Heap.step Heap.empty pre = some h) {a : α} {o : Obj} (ha : h.live a = some o)
    (hx : ∀ t', x.writes = some (a, t') → h.placed x = some o) {t : Time}
    (hdone : ∀ p c s q, pre = p ++ .move c a s :: q →
      (∀ e ∈ q, ∀ t', e.writes ≠ some (a, t')) → ⟨key c, key a, s⟩ ∈ done)
    (hbefore : ∀ e ∈ pre, ∀ t', e.writes = some (a, t') → t' ≤ t)
    (hafter : ∀ e ∈ post, ∀ t', e.writes = some (a, t') → t < t') :
    resolve (eventsAt es (key a)) t = idOf key evs news o := by
  obtain ⟨p, e, q, te, hpl⟩ := Heap.exists_placement hrun ha
  obtain ⟨h₀, hrun₀, hp₀⟩ := hpl.placed
  have hepre : e ∈ pre := by simp [hpl.split]
  have heevs : e ∈ evs := by rw [hevs]; exact List.mem_append_left _ hepre
  have hsplit : evs = p ++ e :: (q ++ x :: post) := by rw [hevs, hpl.split]; simp
  have hmem : (⟨key a, te, idOf key evs news o⟩ : Event) ∈ es := by
    cases e with
    | new o' b s =>
      cases hpl.writes
      cases hp₀
      exact hes.allocs o a te heevs
    | move c b s =>
      cases hpl.writes
      exact hes.moves p c a te _ h₀ o hsplit (hdone p c te q hpl.split hpl.quiet) hrun₀ hp₀
    | die b => cases hp₀
    | use b s => cases hp₀
  refine resolve_eq (mem_eventsAt.mpr hmem) (hbefore e hepre te hpl.writes) ?_
  rintro ⟨t', i⟩ hp hle hge
  rcases hes.sound _ (mem_eventsAt.mp hp) with hbuiltin | hplaced
  · simp only [Event.mk.injEq] at hbuiltin
    rw [hbuiltin.2.1] at hle
    exact absurd hle (not_le.mpr (hrec.pos e heevs a te hpl.writes hbuiltin.1))
  · obtain ⟨p', e', q', h', b, s, o', hsplit', hrun', hw', hp', hev⟩ := hplaced
    simp only [Event.mk.injEq] at hev
    obtain ⟨hkey, rfl, rfl⟩ := hev
    have he'evs : e' ∈ evs := by rw [hsplit']; simp
    obtain rfl : a = b := hrec.inj e heevs e' he'evs a (HeapEvent.mem_addrs_of_writes hpl.writes) b
      (HeapEvent.mem_addrs_of_writes hw') hkey
    -- the other placement comes before `x`, is `x`, or comes after it
    rcases split_cases (hevs.symm.trans hsplit') with ⟨rfl, rfl, rfl⟩ | ⟨q₁, hpre, -⟩ | ⟨q₁, -, hin⟩
    · rw [hrun] at hrun'
      cases hrun'
      rw [hx t' hw'] at hp'
      cases hp'
      rfl
    · -- it is the last one before `x`, or an earlier one
      rcases split_cases (hpl.split.symm.trans hpre) with
        ⟨rfl, rfl, rfl⟩ | ⟨q₂, hin, -⟩ | ⟨q₂, -, hin⟩
      · rw [hrun₀] at hrun'
        cases hrun'
        rw [hp₀] at hp'
        cases hp'
        rfl
      · have hord := hrec.ordered
        rw [hsplit] at hord
        have hlt := ((List.pairwise_append.mp hord).2.2 e' (by simp [hin]) e (by simp) a t' te).1
          hw' (Or.inl hpl.writes)
        exact absurd hle (not_le.mpr hlt)
      · exact absurd hw' (hpl.quiet e' (by simp [hin]) t')
    · exact absurd hge (not_le.mpr (hafter e' (by simp [hin]) t' hw'))

/-! ### The replay -/

lemma replayed_news (hrec : Recorded key evs news) :
    Replayed key news evs [] (news.foldl Store.addNew Store.init).events := by
  rw [foldl_addNew_init]
  refine ⟨fun ev hev => ?_, fun o a t hm => ?_, fun p a b t q h o _ hd => absurd hd (by simp)⟩
  · rcases List.mem_cons.mp hev with hev | hev
    · exact Or.inl hev
    · obtain ⟨k, r, hk, rfl⟩ := mem_newEvents.mp hev
      have hkey : (r.addr, r.time) ∈ newKeys key evs :=
        hrec.perm.mem_iff.mp (List.mem_map.mpr ⟨r, List.mem_of_getElem? hk, rfl⟩)
      obtain ⟨o, a, hm, ha⟩ := mem_newKeys.mp hkey
      obtain ⟨hend, hvalid⟩ := hrec.valid
      obtain ⟨p, q, hsplit⟩ := List.append_of_mem hm
      rw [hsplit] at hvalid
      obtain ⟨h, hrun, -⟩ := exists_of_run_append hvalid
      refine Or.inr ⟨p, _, q, h, a, r.time, o, hsplit, hrun, rfl, rfl, ?_⟩
      rw [hrec.idOf_eq hm hk ha.symm rfl, ha]
      rfl
  · obtain ⟨k, r, hk, ha, rfl⟩ := hrec.exists_record hm
    refine List.mem_cons_of_mem _ (mem_newEvents.mpr ⟨k, r, hk, ?_⟩)
    rw [hrec.idOf_eq hm hk ha rfl, ha]
    rfl

lemma idOf_ne_notFound (hrec : Recorded key evs news) {o : Obj} {a : α} {t : Time}
    (hm : HeapEvent.new o a t ∈ evs) : idOf key evs news o ≠ notFound := by
  obtain ⟨k, r, hk, ha, ht⟩ := hrec.exists_record hm
  have hlt := (List.getElem?_eq_some_iff.mp hk).1
  have hcount := hrec.count
  rw [hrec.idOf_eq hm hk ha ht]
  intro heq
  have := congrArg UInt32.toNat heq
  rw [newId_toNat (by omega), show notFound.toNat = 2 ^ 32 - 1 from rfl] at this
  omega

lemma exists_moved (hrec : Recorded key evs news) {p q : List (HeapEvent α Obj)} {a b : α}
    {t : Time} (hevs : evs = p ++ .move a b t :: q) :
    ∃ h o, run Heap.step Heap.empty p = some h ∧ h.live a = some o := by
  obtain ⟨hend, hvalid⟩ := hrec.valid
  rw [hevs] at hvalid
  obtain ⟨h, hrun, hrest⟩ := exists_of_run_append hvalid
  obtain ⟨h', hs, -⟩ := Option.bind_eq_some_iff.mp hrest
  simp only [Heap.step] at hs
  split at hs
  · rename_i hc
    obtain ⟨o, ho⟩ := Option.ne_none_iff_exists'.mp hc.1
    exact ⟨h, o, hrun, ho⟩
  · cases hs

lemma move_unique (hrec : Recorded key evs news) {p p' q q' : List (HeapEvent α Obj)}
    {a b a' b' : α} {t t' : Time} (h : evs = p ++ .move a b t :: q)
    (h' : evs = p' ++ .move a' b' t' :: q')
    (heq : (⟨key a, key b, t⟩ : GCRecord) = ⟨key a', key b', t'⟩) : p = p' ∧ a = a' ∧ b = b' := by
  simp only [GCRecord.mk.injEq] at heq
  obtain ⟨-, hb, rfl⟩ := heq
  have hmem : HeapEvent.move a b t ∈ evs := by rw [h]; simp
  have hmem' : HeapEvent.move a' b' t ∈ evs := by rw [h']; simp
  obtain rfl : b = b' := hrec.inj _ hmem _ hmem' b (by simp [HeapEvent.addrs]) b'
    (by simp [HeapEvent.addrs]) hb
  have hord := hrec.ordered
  rw [h] at hord
  obtain ⟨-, hq, hcross⟩ := List.pairwise_append.mp hord
  rcases split_cases (h.symm.trans h') with ⟨rfl, he, -⟩ | ⟨l, hin, -⟩ | ⟨l, -, hin⟩
  · cases he
    exact ⟨rfl, rfl, rfl⟩
  · have hlt := hcross (.move a' b t) (by simp [hin]) _ (List.mem_cons_self ..) b t t
    exact absurd (hlt.1 rfl (Or.inl rfl)) (lt_irrefl t)
  · have hlt := (List.pairwise_cons.mp hq).1 (.move a' b t) (by simp [hin]) b t t
    exact absurd (hlt.1 rfl (Or.inl rfl)) (lt_irrefl t)

/-- **One move is replayed.** -/
theorem replayed_addMove (hrec : Recorded key evs news) {gcs done rest : List GCRecord}
    {r : GCRecord} (hgcs : Replays key evs gcs) (hsplit : gcs = done ++ r :: rest) {s : Store}
    (hs : Replayed key news evs done s.events) :
    Replayed key news evs (done ++ [r]) (s.addMove r).events := by
  obtain ⟨p, a, b, t, q, hevs, rfl, hdone⟩ := hgcs.ordered done r rest hsplit
  obtain ⟨h, o, hrun, ha⟩ := exists_moved hrec hevs
  obtain ⟨c, t', hborn⟩ := Heap.exists_new hrun ha
  have hne : idOf key evs news o ≠ notFound :=
    idOf_ne_notFound hrec (a := c) (t := t') (by rw [hevs]; simp [hborn])
  have hord := hrec.ordered
  rw [hevs] at hord
  obtain ⟨-, hpost, hcross⟩ := List.pairwise_append.mp hord
  -- what is put at the old address before the move is earlier, and later what comes after it
  have hquery : s.query (key a) t = idOf key evs news o := by
    refine resolve_live hrec hs hevs hrun ha (fun _ _ => ha) hdone (fun e he t' hw => ?_)
      (fun e he t' hw => ?_)
    · exact (((hcross e he _ (List.mem_cons_self ..)) a t' t).1 hw (Or.inr rfl)).le
    · exact (((List.pairwise_cons.mp hpost).1 e he) a t t').2 rfl hw
  have hevents : (s.addMove ⟨key a, key b, t⟩).events =
      s.events ++ [⟨key b, t, idOf key evs news o⟩] := by
    rw [Store.addMove, if_neg (by rw [hquery]; exact hne)]
    dsimp only
    rw [hquery]
  rw [hevents]
  refine ⟨fun ev hev => ?_, fun o a t hm => List.mem_append_left _ (hs.allocs o a t hm), ?_⟩
  · rcases List.mem_append.mp hev with hev | hev
    · exact hs.sound ev hev
    · rw [List.mem_singleton] at hev
      exact Or.inr ⟨p, _, q, h, b, t, o, hevs, hrun, rfl, ha, hev⟩
  · intro p' a' b' t' q' h' o' hevs' hd hrun' ha'
    rcases List.mem_append.mp hd with hd | hd
    · exact List.mem_append_left _ (hs.moves p' a' b' t' q' h' o' hevs' hd hrun' ha')
    · rw [List.mem_singleton] at hd
      obtain ⟨rfl, rfl, rfl⟩ := move_unique hrec hevs' hevs hd
      rw [hrun] at hrun'
      cases hrun'
      rw [ha] at ha'
      cases ha'
      simp only [GCRecord.mk.injEq] at hd
      simp [hd.2.2]

/-- **All moves are replayed.** -/
theorem replayed_foldl_addMove (hrec : Recorded key evs news) {gcs : List GCRecord}
    (hgcs : Replays key evs gcs) {done rest : List GCRecord} (hsplit : gcs = done ++ rest) :
    Replayed key news evs done
      (done.foldl Store.addMove (news.foldl Store.addNew Store.init)).events := by
  induction done using List.reverseRecOn generalizing rest with
  | nil => exact replayed_news hrec
  | append_singleton done r ih =>
    have hsplit' : gcs = done ++ r :: rest := by rw [hsplit]; simp
    rw [List.foldl_append]
    exact replayed_addMove hrec hgcs hsplit' (ih hsplit')

omit [DecidableEq α] [DecidableEq Obj] in
lemma mem_gcRecords {a b : α} {t : Time} (h : HeapEvent.move a b t ∈ evs) :
    ⟨key a, key b, t⟩ ∈ gcRecords key evs :=
  List.mem_filterMap.mpr ⟨_, h, rfl⟩

omit [DecidableEq α] [DecidableEq Obj] in
lemma replays_gcRecords : Replays key evs (gcRecords key evs) := by
  refine ⟨fun a b t => mem_gcRecords, fun pre r post hsplit => ?_⟩
  obtain ⟨l₁, l₂, rfl, hpre, hl₂⟩ := List.filterMap_eq_append_iff.mp hsplit
  obtain ⟨l, e, q, rfl, hl, he, -⟩ := List.filterMap_eq_cons_iff.mp hl₂
  cases e with
  | move a b t =>
    cases he
    refine ⟨l₁ ++ l, a, b, t, q, by simp, rfl, fun p' c s q' hp _ => ?_⟩
    have hmem : HeapEvent.move c a s ∈ l₁ ++ l := by rw [hp]; simp
    rcases List.mem_append.mp hmem with hmem | hmem
    · rw [← hpre]
      exact mem_gcRecords hmem
    · exact absurd (hl _ hmem) (by simp)
  | _ => cases he

/-- **A use resolves to the object that is used**, on the store of the whole history, when the
records that put an object at the address are in order with the use. -/
theorem query_use (hrec : Recorded key evs news) {gcs : List GCRecord}
    (hgcs : Replays key evs gcs) {pre post : List (HeapEvent α Obj)} {a : α}
    {t : Time} (hevs : evs = pre ++ .use a t :: post) {h : Heap α Obj}
    (hrun : run Heap.step Heap.empty pre = some h) {o : Obj} (ha : h.live a = some o)
    (hbefore : ∀ e ∈ pre, ∀ t', e.writes = some (a, t') → t' ≤ t)
    (hafter : ∀ e ∈ post, ∀ t', e.writes = some (a, t') → t < t') :
    (Store.build news gcs).query (key a) t = idOf key evs news o := by
  have hall := replayed_foldl_addMove hrec hgcs (List.append_nil gcs).symm
  refine resolve_live hrec hall hevs hrun ha (fun t' hw => ?_) (fun p c s q hpre _ => ?_) hbefore
    hafter
  · cases hw
  · exact hgcs.complete c a s (by rw [hevs, hpre]; simp)

end Replay

end Cinst.Addr
