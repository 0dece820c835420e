import Cinst.Lib.Lists
import Cinst.Lib.Stream

/-!
A directory of regular files, in the order in which it is listed.

Files are changed by name. Changing all files whose name satisfies a condition, one after the
other, changes each of them once (`foldl_modify_filter`).
-/

namespace Cinst.Lib

/-- The regular files of a directory, in the order of the listing. -/
@[ext] structure Directory where
  files : List (String × Bytes)
  nodup : (files.map Prod.fst).Nodup

namespace Directory

/-- The names in the order of the listing. -/
def names (d : Directory) : List String := d.files.map Prod.fst

/-- The contents of a file. -/
def read (d : Directory) (name : String) : Option Bytes := d.files.lookup name

/-- Every file with its contents changed. -/
def mapFiles (d : Directory) (f : String → Bytes → Bytes) : Directory where
  files := d.files.map fun p => (p.1, f p.1 p.2)
  nodup := by
    rw [List.map_map]
    exact d.nodup

/-- One file with its contents changed. -/
def modify (d : Directory) (name : String) (f : Bytes → Bytes) : Directory :=
  d.mapFiles fun n bs => if n = name then f bs else bs

/-- `fopen(name, "w")` and what is written then: a file that is not there yet is listed last. -/
def write (d : Directory) (name : String) (bs : Bytes) : Directory :=
  if h : name ∈ d.names then d.modify name fun _ => bs
  else
    { files := d.files ++ [(name, bs)]
      nodup := by
        rw [List.map_append, List.nodup_append]
        refine ⟨d.nodup, List.nodup_singleton _, ?_⟩
        rintro n hn m hm rfl
        rw [List.mem_singleton.mp hm] at hn
        exact h hn }

/-- Bytes written at the end of a file that is open. -/
def append (d : Directory) (name : String) (bs : Bytes) : Directory := d.modify name (· ++ bs)

/-- A directory without files. -/
def empty : Directory := ⟨[], List.nodup_nil⟩

/-- The files whose names satisfy a condition. -/
def filter (d : Directory) (p : String → Bool) : Directory where
  files := d.files.filter fun f => p f.1
  nodup := d.nodup.sublist (List.filter_sublist.map _)

lemma names_filter (d : Directory) (p : String → Bool) :
    (d.filter p).names = d.names.filter p := by
  rw [names, names, filter, List.filter_map]
  rfl

section MapFiles

variable (d : Directory) (f g : String → Bytes → Bytes)

@[simp] lemma names_mapFiles : (d.mapFiles f).names = d.names := by
  simp [names, mapFiles]

lemma mapFiles_mapFiles :
    (d.mapFiles f).mapFiles g = d.mapFiles fun n bs => g n (f n bs) := by
  ext1
  simp [mapFiles]

lemma lookup_mapFiles (l : List (String × Bytes)) (name : String) :
    (l.map fun p => (p.1, f p.1 p.2)).lookup name = (l.lookup name).map (f name) := by
  induction l with
  | nil => rfl
  | cons p l ih =>
    rw [List.map_cons, List.lookup_cons, List.lookup_cons]
    by_cases h : name = p.1
    · subst h
      simp
    · simp [show (name == p.1) = false by simpa using h, ih]

lemma read_mapFiles (name : String) : (d.mapFiles f).read name = (d.read name).map (f name) :=
  lookup_mapFiles f d.files name

variable {d f g}

lemma mapFiles_congr (h : ∀ p ∈ d.files, f p.1 p.2 = g p.1 p.2) : d.mapFiles f = d.mapFiles g := by
  ext1
  exact List.map_congr_left fun p hp => by rw [h p hp]

lemma mapFiles_eq_self (h : ∀ p ∈ d.files, f p.1 p.2 = p.2) : d.mapFiles f = d := by
  ext1
  conv_rhs => rw [← List.map_id d.files]
  exact List.map_congr_left fun p hp => by rw [h p hp, id]

lemma foldl_modify {f : Bytes → Bytes} {ns : List String} (hn : ns.Nodup) (d : Directory) :
    ns.foldl (fun d n => d.modify n f) d = d.mapFiles fun n bs => if n ∈ ns then f bs else bs := by
  induction ns generalizing d with
  | nil => exact (mapFiles_eq_self fun p _ => by simp).symm
  | cons n ns ih =>
    obtain ⟨hns, hn⟩ := List.nodup_cons.mp hn
    rw [List.foldl_cons, ih hn, modify, mapFiles_mapFiles]
    refine mapFiles_congr fun p _ => ?_
    by_cases hp : p.1 = n
    · simp [hp, hns]
    · simp [hp]

/-- **All files with names of one kind, changed one after the other, are changed once each.** -/
theorem foldl_modify_filter (d : Directory) (p : String → Bool) (f : Bytes → Bytes) :
    (d.names.filter p).foldl (fun d n => d.modify n f) d =
      d.mapFiles fun n bs => if p n then f bs else bs := by
  rw [foldl_modify (List.Nodup.filter p d.nodup : (d.names.filter p).Nodup)]
  refine mapFiles_congr fun q hq => ?_
  have hmem : q.1 ∈ d.names := List.mem_map_of_mem hq
  simp [List.mem_filter, hmem]

end MapFiles

section Read

variable {d : Directory} {name other : String} {bs : Bytes}

lemma read_eq_some_iff : d.read name = some bs ↔ (name, bs) ∈ d.files :=
  lookup_eq_some_iff_mem (List.pairwise_map.mp d.nodup)

lemma read_filter {p : String → Bool} (h : p name) : (d.filter p).read name = d.read name := by
  ext bs
  rw [read_eq_some_iff, read_eq_some_iff, filter, List.mem_filter]
  simp [h]

lemma files_write_of_not (h : name ∉ d.names) :
    (d.write name bs).files = d.files ++ [(name, bs)] := by
  rw [write, dif_neg h]

lemma read_write_ne (h : other ≠ name) : (d.write name bs).read other = d.read other := by
  unfold write
  split
  · rw [modify, read_mapFiles]
    simp [h]
  · have hne : (other == name) = false := by simpa using h
    simp [read, List.lookup_append, List.lookup_cons, hne]

lemma read_write_self : (d.write name bs).read name = some bs := by
  unfold write
  split
  · rename_i hmem
    obtain ⟨p, hp, rfl⟩ := List.mem_map.mp hmem
    rw [modify, read_mapFiles, read_eq_some_iff.mpr hp]
    simp
  · rename_i hmem
    rw [read_eq_some_iff]
    simp

lemma read_append_ne (h : other ≠ name) : (d.append name bs).read other = d.read other := by
  rw [append, modify, read_mapFiles]
  simp [h]

lemma read_append_self : (d.append name bs).read name = (d.read name).map (· ++ bs) := by
  rw [append, modify, read_mapFiles]
  simp

lemma names_write_filter {p : String → Bool} (h : p name = false) :
    (d.write name bs).names.filter p = d.names.filter p := by
  unfold write
  split
  · rw [modify, names_mapFiles]
  · simp [names, h]

lemma write_write (bs' : Bytes) : (d.write name bs).write name bs' = d.write name bs' := by
  by_cases hmem : name ∈ d.names
  · have hmem' : name ∈ (d.modify name fun _ => bs).names := by
      rw [modify, names_mapFiles]
      exact hmem
    rw [write, write, write, dif_pos hmem, dif_pos hmem', dif_pos hmem, modify, modify, modify,
      mapFiles_mapFiles]
    exact mapFiles_congr fun p _ => by split <;> rfl
  · have hmem' : name ∈ (d.write name bs).names :=
      List.mem_map_of_mem (read_eq_some_iff.mp (read_write_self (d := d)))
    have hother : d.files.map (fun p => (p.1, if p.1 = name then bs' else p.2)) = d.files := by
      conv_rhs => rw [← List.map_id d.files]
      refine List.map_congr_left fun p hp => ?_
      have : p.1 ≠ name := fun e => hmem (e ▸ List.mem_map_of_mem hp)
      simp [this]
    ext1
    rw [files_write_of_not hmem, write, dif_pos hmem', modify]
    show (d.write name bs).files.map _ = _
    rw [files_write_of_not hmem, List.map_append, hother]
    simp

lemma write_eq_self (h : d.read name = some bs) : d.write name bs = d := by
  have hmem : name ∈ d.names := List.mem_map_of_mem (read_eq_some_iff.mp h)
  rw [write, dif_pos hmem]
  refine mapFiles_eq_self fun p hp => ?_
  split
  · rename_i hn
    have hread := read_eq_some_iff.mpr hp
    rw [hn, h] at hread
    exact Option.some.inj hread
  · rfl

end Read

end Directory

end Cinst.Lib
