import Mathlib.Data.List.TakeWhile
import ModuleSystem.FileSystem.Memory
import ModuleSystem.Proofs.PathStyle
import ModuleSystem.Proofs.Text.Lists

/-!
# Files in memory — what directories list

The directories of files in memory are made out of the paths of the files, and a path may be asked for
with dividers at its end.  What remains of this is that a directory lists the files that lie in it.

* `mem_list`: the entries of a directory that lead to files.
* `read_of_mem`: every file can be read.
* `Canonical`: the paths of all files are absolute and clean.  Then a file lies below the names of its path
  (`list_absolute`, `Canonical.absolute_of_list`).
-/

namespace ModuleSystem

namespace Path

variable {p : Text}

/-- The last segment of a path has no slash, unless the path is nothing but slashes. -/
theorem base_eq_or (p : Text) : base p = Text.ofString "/" ∨ 47 ∉ base p := by
  unfold base
  split
  · exact .inr (by simp [Text.ofString, String.utf8EncodeChar])
  · split
    · exact .inl rfl
    · exact .inr fun h => by simpa using List.mem_takeWhile_imp (List.mem_reverse.1 h)

/-- A byte of a base is one of the path. -/
theorem mem_of_mem_base {b : UInt8} (hb : b ≠ 46) (hb' : b ≠ 47) (h : b ∈ base p) : b ∈ p := by
  unfold base at h
  split at h
  · simp [Text.ofString, String.utf8EncodeChar, hb] at h
  · split at h
    · simp [Text.ofString, String.utf8EncodeChar, hb'] at h
    · have hname := (List.takeWhile_sublist _).subset (List.mem_reverse.1 h)
      exact List.mem_reverse.1 ((List.dropWhile_sublist _).subset hname)

end Path

namespace Memory

variable {m : Memory} {p q dir name : Text} {es : List Entry} {e : Entry} {f : Text × Text}

/-! ### Entries -/

/-- A path is one of its own chain, unless it is a root. -/
theorem self_mem_chain : p ∈ chain p ↔ Path.dir p ≠ p := by
  unfold chain upward
  split
  · rename_i htop
    simp [htop]
  · rename_i htop
    simp [htop]

/-- A file has one entry, in its directory. -/
theorem mem_entriesFor (hfile : e.kind = .file) :
    (dir, e) ∈ entriesFor p ↔ Path.dir p ≠ p ∧ dir = Path.dir p ∧ e = ⟨Path.base p, .file, none⟩ := by
  rw [entriesFor, List.mem_map, ← self_mem_chain]
  constructor
  · rintro ⟨q, hq, heq⟩
    obtain ⟨rfl, rfl⟩ := Prod.mk.inj heq
    have hself : q = p := by
      by_contra hne
      simp [hne] at hfile
    subst hself
    exact ⟨hq, rfl, by simp⟩
  · rintro ⟨hmem, rfl, rfl⟩
    exact ⟨p, hmem, by simp⟩

/-- A file of a directory in slash form. -/
structure LiesIn (m : Memory) (f : Text × Text) (dir : Text) (e : Entry) : Prop where
  mem : f ∈ m.files
  below : Path.dir f.1 ≠ f.1
  dir : m.style.ofSlash (Path.dir f.1) = dir
  entry : e = ⟨Path.base f.1, .file, none⟩

/-- The files of a directory are those that lie in it. -/
theorem mem_entries (hfile : e.kind = .file) : e ∈ m.entries dir ↔ ∃ f, LiesIn m f (m.style.ofSlash dir) e := by
  let es := (m.files.flatMap fun f => entriesFor f.1).filterMap fun p =>
    if m.style.ofSlash p.1 = m.style.ofSlash dir then some p.2 else none
  -- the entries before names are made unique: a name can belong to a directory and to a file
  have hes : ∀ {e : Entry}, e.kind = .file → (e ∈ es ↔ ∃ f, LiesIn m f (m.style.ofSlash dir) e) := by
    intro e hfile
    simp only [es, List.mem_filterMap, List.mem_flatMap, Prod.exists]
    constructor
    · rintro ⟨d, e', ⟨p, contents, hf, hmem⟩, heq⟩
      split at heq
      · rename_i hd
        obtain rfl := Option.some.inj heq
        obtain ⟨hbelow, rfl, hentry⟩ := (mem_entriesFor hfile).1 hmem
        exact ⟨p, contents, hf, hbelow, hd, hentry⟩
      · cases heq
    · rintro ⟨p, contents, hf, hbelow, hd, hentry⟩
      exact ⟨Path.dir p, e, ⟨p, contents, hf, (mem_entriesFor hfile).2 ⟨hbelow, rfl, hentry⟩⟩, if_pos hd⟩
  have hentries : m.entries dir = (Text.sort (es.map (·.name)).eraseDups).map (entryNamed es) := rfl
  rw [hentries, List.mem_map]
  constructor
  · rintro ⟨name, -, rfl⟩
    have hany : (es.any fun e => e.name = name && e.kind = .file) = true := by
      by_contra hnone
      simp [entryNamed, hnone] at hfile
    obtain ⟨e, he, hmatch⟩ := List.any_eq_true.1 hany
    simp only [Bool.and_eq_true, decide_eq_true_eq] at hmatch
    obtain ⟨f, hf⟩ := (hes hmatch.2).1 he
    refine ⟨f, { hf with entry := ?_ }⟩
    rw [entryNamed, if_pos hany, ← hmatch.1, hf.entry]
  · rintro ⟨f, hf⟩
    have hmem := (hes hfile).2 ⟨f, hf⟩
    refine ⟨e.name, Text.mem_sort.2 (List.mem_eraseDups.2 (List.mem_map_of_mem hmem)), ?_⟩
    have hany : (es.any fun e' => e'.name = e.name && e'.kind = .file) = true :=
      List.any_eq_true.2 ⟨e, hmem, by simp [hfile]⟩
    rw [entryNamed, if_pos hany]
    simp only [hf.entry]

/-! ### Directories -/

/-- Only dividers are taken from the end of a path. -/
theorem exists_trailing (separator : UInt8) (p : Text) :
    ∃ k, p = withoutTrailing separator p ++ List.replicate k separator := by
  let body := (p.reverse.dropWhile (· = separator)).reverse
  let trailing := (p.reverse.takeWhile (· = separator)).reverse
  have hsplit : p = body ++ trailing := by
    rw [← List.reverse_append, List.takeWhile_append_dropWhile, List.reverse_reverse]
  have htrailing : trailing = List.replicate trailing.length separator :=
    List.eq_replicate_of_mem fun b hb => by simpa using List.mem_takeWhile_imp (List.mem_reverse.1 hb)
  have hdrop : p.drop body.length = trailing := by
    rw [hsplit, List.drop_left]
  have hwithout : withoutTrailing separator p =
      if body.elem separator then body else body ++ (p.drop body.length).take 1 := rfl
  rw [hwithout, hdrop]
  split
  · exact ⟨trailing.length, by rw [← htrailing]; exact hsplit⟩
  · refine ⟨trailing.length - 1, ?_⟩
    rw [← List.drop_replicate, ← htrailing, List.append_assoc, List.take_append_drop]
    exact hsplit

/-- A directory that is there has the entries that belong to it. -/
theorem lookup_directories (h : m.directories.lookup q = some es) : ∃ d, q = m.style.ofSlash d ∧ es = m.entries d := by
  obtain ⟨before, after, heq, -⟩ := List.lookup_eq_some_iff.1 h
  have hmem : (q, es) ∈ m.directories := by simp [heq]
  rw [directories, List.mem_map] at hmem
  obtain ⟨d, -, hd⟩ := hmem
  exact ⟨d, (Prod.mk.inj hd).1.symm, (Prod.mk.inj hd).2.symm⟩

/-- A directory is listed by its path without a separator at the end. -/
theorem list_eq_ok : m.fileSystem.list q = .ok es ↔
    m.directories.lookup (withoutTrailing m.style.separator (m.style.divide q)) = some es := by
  cases hlookup : m.directories.lookup (withoutTrailing m.style.separator (m.style.divide q)) <;>
    simp [fileSystem, hlookup]

/-- **A directory lists the files that lie in it.** -/
theorem mem_list (hfile : e.kind = .file) : (∃ es, m.fileSystem.list q = .ok es ∧ e ∈ es) ↔
    ∃ f, LiesIn m f (withoutTrailing m.style.separator (m.style.divide q)) e := by
  simp only [list_eq_ok]
  generalize withoutTrailing m.style.separator (m.style.divide q) = q
  constructor
  · rintro ⟨es, hlookup, he⟩
    obtain ⟨d, rfl, rfl⟩ := lookup_directories hlookup
    exact (mem_entries hfile).1 he
  · rintro ⟨f, hf⟩
    have hdirectory : (m.style.ofSlash (Path.dir f.1), m.entries (Path.dir f.1)) ∈ m.directories := by
      rw [directories, List.mem_map]
      refine ⟨Path.dir f.1, List.mem_eraseDups.2 (List.mem_flatMap.2 ⟨f, hf.mem, ?_⟩), rfl⟩
      exact List.mem_append_left _ (List.mem_map_of_mem (self_mem_chain.2 hf.below))
    cases hlookup : m.directories.lookup q with
    | none => simpa [hf.dir] using List.lookup_eq_none_iff.1 hlookup _ hdirectory
    | some es =>
        obtain ⟨d, rfl, rfl⟩ := lookup_directories hlookup
        exact ⟨_, rfl, (mem_entries hfile).2 ⟨f, hf⟩⟩

/-- Listed files are no links, and their names are those of files. -/
theorem entry_of_list (hes : m.fileSystem.list q = .ok es) (he : e ∈ es) (hfile : e.kind = .file) :
    e.target = none ∧ ∃ f ∈ m.files, e.name = Path.base f.1 := by
  obtain ⟨f, hf⟩ := (mem_list hfile).1 ⟨es, hes, he⟩
  exact ⟨by rw [hf.entry], f, hf.mem, by rw [hf.entry]⟩

/-- **Every file can be read.** -/
theorem read_of_mem (hf : f ∈ m.files) : ∃ contents, m.fileSystem.read (m.style.ofSlash f.1) = .ok contents := by
  let files := m.files.map fun p => (m.style.ofSlash p.1, p.2)
  have hread : ∀ {contents}, files.lookup (m.style.ofSlash f.1) = some contents →
      m.fileSystem.read (m.style.ofSlash f.1) = .ok contents := by
    intro contents hlookup
    simp only [fileSystem, PathStyle.divide_ofSlash]
    rw [show (m.files.map fun p => (m.style.ofSlash p.1, p.2)).lookup _ = some contents from hlookup]
  cases hlookup : files.lookup (m.style.ofSlash f.1) with
  | some contents => exact ⟨contents, hread hlookup⟩
  | none =>
      have hmem : (m.style.ofSlash f.1, f.2) ∈ files := List.mem_map.2 ⟨f, hf, rfl⟩
      simpa using List.lookup_eq_none_iff.1 hlookup _ hmem

/-! ### Absolute and clean paths -/

/-- A path that ends with a name has no separator at the end. -/
theorem withoutTrailing_of_name {separator : UInt8} {s : Text} (hs : s ≠ []) (hseparator : separator ∉ s) (p : Text) :
    withoutTrailing separator (p ++ separator :: s) = p ++ separator :: s := by
  have hdrop : (p ++ separator :: s).reverse.dropWhile (· = separator) = (p ++ separator :: s).reverse := by
    obtain ⟨t, b, rfl⟩ := (List.eq_nil_or_concat s).resolve_left hs
    have hb : b ≠ separator := fun heq => hseparator (by simp [heq])
    simp [hb]
  have hwithout : withoutTrailing separator (p ++ separator :: s) =
      let body := ((p ++ separator :: s).reverse.dropWhile (· = separator)).reverse
      if body.elem separator then body else body ++ ((p ++ separator :: s).drop body.length).take 1 := rfl
  rw [hwithout, hdrop, List.reverse_reverse]
  exact if_pos (List.elem_eq_true_of_mem (by simp))

variable {ns : List Text} {s : Text}

/-- Nor has an absolute path of names, but for the root. -/
theorem withoutTrailing_absolute (h : ∀ s ∈ ns, m.style.IsName s) :
    withoutTrailing m.style.separator (m.style.absolute ns) = m.style.absolute ns := by
  obtain rfl | ⟨ms, s, rfl⟩ := List.eq_nil_or_concat ns
  · cases m.style <;> decide
  · rw [List.concat_eq_append] at h ⊢
    have hs := h s (by simp)
    obtain ⟨q, hq⟩ := PathStyle.exists_absolute_concat hs ms
    rw [hq, withoutTrailing_of_name hs.1.ne_nil hs.2]

/-- A path that is asked for has the names of the directory that it leads to. -/
theorem names_of_withoutTrailing (h : ∀ s ∈ ns, m.style.IsName s) (hq : m.style.divide q = q)
    (heq : withoutTrailing m.style.separator (m.style.divide q) = m.style.absolute ns) :
    Path.isRooted (m.style.toSlash q) = true ∧ m.style.names q = ns := by
  obtain ⟨k, hk⟩ := exists_trailing m.style.separator (m.style.divide q)
  rw [heq, hq] at hk
  have hslash := PathStyle.toSlash_absolute_trailing h k
  rw [← hk] at hslash
  have hrooted := Path.isRooted_append (Path.isRooted_ofSegments ns) (List.replicate k 47)
  rw [PathStyle.names, hslash]
  refine ⟨hrooted, ?_⟩
  clear hk hslash
  induction k with
  | zero => simpa using Path.segments_ofSegments fun s hs => (h s hs).1
  | succ k ih =>
      have hbefore := Path.isRooted_append (Path.isRooted_ofSegments ns) (List.replicate k 47)
      rw [List.replicate_succ', ← List.append_assoc, Path.segments_append_slash hbefore, ih hbefore]

/-- The directory above a file lists the file. -/
theorem list_absolute (hf : f ∈ m.files) (hns : ∀ t ∈ ns ++ [s], m.style.IsName t)
    (hpath : f.1 = Path.ofSegments true (ns ++ [s])) :
    ∃ es, m.fileSystem.list (m.style.absolute ns) = .ok es ∧ ⟨s, .file, none⟩ ∈ es := by
  have hns' : ∀ t ∈ ns, m.style.IsName t := fun t ht => hns t (by simp [ht])
  have hs := hns s (by simp)
  have hdir : Path.dir f.1 = Path.ofSegments true ns := by
    rw [hpath, Path.dir_ofSegments (fun t ht => (hns' t ht).1) hs.1.no_slash]
  refine (mem_list rfl).2 ⟨f, hf, ?_, ?_, ?_⟩
  · rw [hdir, hpath]
    intro heq
    have := congrArg List.length (Path.ofSegments_inj (fun t ht => (hns' t ht).1) (fun t ht => (hns t ht).1) heq)
    simp at this
  · rw [hdir, PathStyle.absolute, PathStyle.divide_ofSlash]
    exact (withoutTrailing_absolute hns').symm
  · rw [hpath, Path.base_ofSegments hs.1.ne_nil hs.1.no_slash]

/-- The paths of all files are absolute and clean, and their names have no dividers. -/
structure Canonical (m : Memory) : Prop where
  rooted : ∀ f ∈ m.files, Path.isRooted f.1 = true
  clean : ∀ f ∈ m.files, Path.clean f.1 = f.1
  undivided : m.style = .windows → ∀ f ∈ m.files, 92 ∉ f.1

variable (hm : m.Canonical)
include hm

/-- A file lies below the names of its path. -/
theorem Canonical.exists_names (hf : f ∈ m.files) :
    ∃ ns, (∀ s ∈ ns, m.style.IsName s) ∧ f.1 = Path.ofSegments true ns := by
  have hrooted := hm.rooted f hf
  refine ⟨Path.segments f.1, fun s hs => ⟨Path.isName_of_mem_segments hrooted hs, ?_⟩, ?_⟩
  · rw [Path.segments_of_isRooted hrooted] at hs
    exact Path.descend_induct (P := fun s => m.style.separator ∉ s) (by simp)
      (fun s hs _ _ _ => PathStyle.separator_notMem_piece (fun hw => hm.undivided hw f hf) hs) s hs
  · rw [← Path.clean_of_isRooted hrooted, hm.clean f hf]

/-- A listed file is the one that the directory and the name of the entry lead to. -/
theorem Canonical.absolute_of_list (hq : m.style.divide q = q) (hes : m.fileSystem.list q = .ok es) (he : e ∈ es)
    (hfile : e.kind = .file) :
    ∃ f ∈ m.files, ∃ ns s, (∀ t ∈ ns ++ [s], m.style.IsName t) ∧ f.1 = Path.ofSegments true (ns ++ [s]) ∧
      e = ⟨s, .file, none⟩ ∧ m.style.join [q, s] = m.style.absolute (ns ++ [s]) := by
  obtain ⟨f, hf⟩ := (mem_list hfile).1 ⟨es, hes, he⟩
  obtain ⟨ms, hms, hpath⟩ := hm.exists_names hf.mem
  obtain rfl | ⟨ns, s, rfl⟩ := List.eq_nil_or_concat ms
  · exact absurd (by rw [hpath, Path.dir_root]) hf.below
  · rw [List.concat_eq_append] at hms hpath
    have hns : ∀ t ∈ ns, m.style.IsName t := fun t ht => hms t (by simp [ht])
    have hs := hms s (by simp)
    have hdir := hf.dir
    rw [hpath, Path.dir_ofSegments (fun t ht => (hns t ht).1) hs.1.no_slash] at hdir
    obtain ⟨hrooted, hnames⟩ := names_of_withoutTrailing hns hq hdir.symm
    refine ⟨f, hf.mem, ns, s, hms, hpath, ?_, ?_⟩
    · rw [hf.entry, hpath, Path.base_ofSegments hs.1.ne_nil hs.1.no_slash]
    · have hpieces : [s].flatMap m.style.pieces = [s] := by simp [PathStyle.pieces_name hs]
      rw [PathStyle.join_eq hrooted, hnames, hpieces, Path.descend_names (by simpa using hs.1)]

end Memory

end ModuleSystem
