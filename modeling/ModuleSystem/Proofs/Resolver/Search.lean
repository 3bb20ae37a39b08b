import ModuleSystem.Proofs.PathStyle
import ModuleSystem.Proofs.Resolver.Recall

/-!
# What a search finds and asks for

The steps of an attempt are for its trace.  What it finds is an `Option`, and the ways to put attempts
together are the operations of `Option`.  A file is found only where a directory lists it:

* `Scope.Lists`: a directory lists a file, and this is the path of it.
* `Scope.NamesFile`, `Scope.NamesIndex`: a path names a file, perhaps without its extension, or a directory
  with an index.
* `Scope.found_asFileOrDirectory`: what is found names the path, or what a main field adds to it.
* `Scope.exists_lists`: every file that is found is listed by a directory.

A search looks at directories one after the other, and its steps say at which.  What the others hold does
not matter: where two file systems hold the same of every directory that a search asks for, the search goes
the same way in both.

* `Attempt.Asks`: an attempt asks for a directory.
* `Attempt.Local`: an attempt is the same with other directories, unless one that it asks for has changed.
  Every way to put attempts together keeps this.
* `Scope.find_congr`: a search depends on the directories that it asks for, and on no other.
-/

namespace ModuleSystem.Resolver

namespace Attempt

variable {a b : Attempt} {attempt : α → Attempt} {xs : List α} {directories : Text → Option Directory}
  {path text : Text} {f : Directory → Attempt}

@[simp]
theorem found_empty : ({} : Attempt).found = none := rfl

@[simp]
theorem found_note : (note text).found = none := rfl

@[simp]
theorem found_hit : (hit path text).found = some path := rfl

/-- Of two attempts the first that finds counts. -/
@[simp]
theorem found_orElse : (a <|> b).found = a.found.or b.found := by
  change (orElse a fun _ => b).found = _
  unfold orElse
  cases h : a.found with
  | none => rfl
  | some path => exact h

@[simp]
theorem found_under : (under text a).found = a.found := rfl

/-- Of many attempts the first that finds counts. -/
@[simp]
theorem found_firstOf : (firstOf attempt xs).found = xs.findSome? fun x => (attempt x).found := by
  induction xs with
  | nil => rfl
  | cons x xs ih =>
      rw [firstOf, found_orElse, ih, List.findSome?_cons]
      cases (attempt x).found <;> rfl

/-- An attempt within a directory finds nothing if there is none. -/
@[simp]
theorem found_within : (within directories path f).found = (directories path).bind fun d => (f d).found := by
  unfold within
  cases directories path <;> rfl

end Attempt

namespace Scope

variable {s : Scope} {d : Directory} {path name id : Text}

/-- A directory lists a file, and this is the path of it. -/
def Lists (s : Scope) (dir name id : Text) : Prop :=
  ∃ d e, s.directories dir = some d ∧ d.file? name = some e ∧ id = s.pathOf d.path e

/-- The path names a file, perhaps without its extension. -/
def NamesFile (s : Scope) (path id : Text) : Prop :=
  ∃ name, s.Lists (s.style.dir path) name id ∧
    (name = s.style.base path ∨ ∃ extension ∈ s.extensions, name = s.style.base path ++ extension)

/-- The path names a directory with an index. -/
def NamesIndex (s : Scope) (path id : Text) : Prop :=
  ∃ extension ∈ s.extensions, s.Lists path ("index" ++ extension) id

/-- The path names a directory whose manifest leads on to another path. -/
def LeadsOn (s : Scope) (path target : Text) : Prop :=
  ∃ d m field value, s.directories path = some d ∧ d.manifest = some m ∧ field ∈ s.mainFields ∧
    m.mainFields.lookup field = some value ∧ target = s.style.join [d.path, value]

/-- A file is found by its name in a directory. -/
theorem found_named : (s.named d name).found = (d.file? name).map (s.pathOf d.path) := by
  rw [named, Attempt.found_orElse, Attempt.found_note, Option.none_or]
  cases d.file? name <;> rfl

/-- A file that a directory lists is found. -/
theorem Lists.asFile (h : s.Lists (s.style.dir path) (s.style.base path) id) : (s.asFile path).found = some id := by
  obtain ⟨d, e, hd, he, rfl⟩ := h
  simp [Scope.asFile, hd, found_named, he]

/-- Whatever is found as a file is named by the path. -/
theorem found_asFile (h : (s.asFile path).found = some id) : s.NamesFile path id := by
  simp only [asFile, Attempt.found_under, Attempt.found_within, Attempt.found_orElse, Attempt.found_firstOf,
    Attempt.found_note, Option.or_none, Option.bind_eq_some_iff] at h
  obtain ⟨d, hd, h⟩ := h
  obtain ⟨name, hname, hfound⟩ := List.exists_of_findSome?_eq_some h
  rw [found_named, Option.map_eq_some_iff] at hfound
  obtain ⟨e, he, rfl⟩ := hfound
  refine ⟨name, ⟨d, e, hd, he, rfl⟩, ?_⟩
  obtain rfl | hmem := List.mem_cons.1 hname
  · exact .inl rfl
  · obtain ⟨extension, hextension, rfl⟩ := List.mem_map.1 hmem
    exact .inr ⟨extension, hextension, rfl⟩

/-- Whatever is found as an index is named by the path. -/
theorem found_asIndex (hd : s.directories path = some d) (h : (s.asIndex d).found = some id) :
    s.NamesIndex path id := by
  rw [asIndex, Attempt.found_firstOf] at h
  obtain ⟨extension, hextension, hfound⟩ := List.exists_of_findSome?_eq_some h
  cases he : d.file? ("index" ++ extension) with
  | none => simp [he] at hfound
  | some e =>
      simp only [he, Attempt.found_hit, Option.some.injEq] at hfound
      exact ⟨extension, hextension, d, e, hd, he, hfound.symm⟩

/-- Whatever is found by a main field is named by what the field adds to the path. -/
theorem found_asMainField (hd : s.directories path = some d) (h : (s.asMainField d).found = some id) :
    ∃ target, s.LeadsOn path target ∧ (s.NamesFile target id ∨ s.NamesIndex target id) := by
  unfold asMainField at h
  split at h
  · cases h
  · rename_i m hm
    simp only [Attempt.found_under, Attempt.found_firstOf] at h
    obtain ⟨field, hfield, hfound⟩ := List.exists_of_findSome?_eq_some h
    split at hfound
    · cases hfound
    · rename_i value hvalue
      refine ⟨_, ⟨d, m, field, value, hd, hm, hfield, hvalue, rfl⟩, ?_⟩
      simp only [Attempt.found_orElse, Attempt.found_note, Option.none_or, Option.or_eq_some_iff,
        Attempt.found_within, Option.bind_eq_some_iff] at hfound
      obtain hfile | ⟨-, d', hd', hindex⟩ := hfound
      · exact .inl (found_asFile hfile)
      · exact .inr (found_asIndex hd' hindex)

/-- **What is found is named by the path**, or by what a main field adds to the path. -/
theorem found_asFileOrDirectory (h : (s.asFileOrDirectory path).found = some id) :
    s.NamesFile path id ∨ s.NamesIndex path id ∨
      ∃ target, s.LeadsOn path target ∧ (s.NamesFile target id ∨ s.NamesIndex target id) := by
  simp only [asFileOrDirectory, Attempt.found_orElse, Attempt.found_under, Attempt.found_within,
    Option.or_eq_some_iff, Option.bind_eq_some_iff] at h
  obtain hfile | ⟨-, d, hd, hmain | ⟨-, hindex⟩⟩ := h
  · exact .inl (found_asFile hfile)
  · exact .inr (.inr (found_asMainField hd hmain))
  · exact .inr (.inl (found_asIndex hd hindex))

/-! ### All ways to search -/

/-- What decoded segments name is named by a path. -/
theorem found_below {decoded : Except Text (List Text)} {place : List Text → Text × List Text}
    (h : (s.below decoded place).found = some id) :
    ∃ ps, (s.asFileOrDirectory (s.style.join ps)).found = some id := by
  unfold below at h
  split at h
  · cases h
  · exact ⟨_, h⟩

/-- Whatever is found is named by a joined path. -/
theorem found_find {sourceDir specifier : Text} (h : (s.find sourceDir specifier).found = some id) :
    ∃ ps, (s.asFileOrDirectory (s.style.join ps)).found = some id := by
  unfold find at h
  split at h
  · cases h
  split at h
  · unfold asUrl at h
    split at h
    · cases h
    · exact found_below h
  split at h
  · exact found_below h
  split at h
  · exact ⟨_, h⟩
  split at h
  · cases h
  unfold asPackage at h
  split at h
  · cases h
  simp only [Attempt.found_under, Attempt.found_orElse, Attempt.found_firstOf, Attempt.found_note,
    Option.or_none] at h
  obtain ⟨root, -, hroot⟩ := List.exists_of_findSome?_eq_some h
  split at hroot
  · cases hroot
  · exact ⟨_, hroot⟩

/-- **A file is found only where a directory lists it.** -/
theorem exists_lists {sourceDir specifier : Text} (h : (s.find sourceDir specifier).found = some id) :
    ∃ dir name, s.style.divide dir = dir ∧ s.Lists dir name id := by
  obtain ⟨ps, hfound⟩ := found_find h
  have hfile : ∀ {path}, s.NamesFile path id → ∃ dir name, s.style.divide dir = dir ∧ s.Lists dir name id :=
    fun ⟨name, hlists, _⟩ => ⟨_, name, PathStyle.divide_ofSlash _ _, hlists⟩
  have hindex : ∀ {ps}, s.NamesIndex (s.style.join ps) id →
      ∃ dir name, s.style.divide dir = dir ∧ s.Lists dir name id :=
    fun ⟨_, _, hlists⟩ => ⟨_, _, PathStyle.divide_ofSlash _ _, hlists⟩
  obtain h | h | ⟨target, ⟨d, m, field, value, -, -, -, -, rfl⟩, h | h⟩ := found_asFileOrDirectory hfound
  · exact hfile h
  · exact hindex h
  · exact hfile h
  · exact hindex h

end Scope

/-! ### Directories of a file system -/

variable {fs : FileSystem} {mainFields : List Text} {path : Text} {d : Directory} {es : List Entry}

/-- A directory that can be listed is there, with its entries. -/
theorem directoryAt_of_list (mainFields : List Text) (h : fs.list path = .ok es) :
    ∃ d, directoryAt fs mainFields path = some d ∧ d.path = path ∧ d.entries = es := by
  unfold directoryAt Reading.ofPath
  rw [h]
  dsimp only
  split <;> exact ⟨_, rfl, rfl, rfl⟩

/-- A directory that is there can be listed. -/
theorem list_of_directoryAt (h : directoryAt fs mainFields path = some d) :
    d.path = path ∧ fs.list path = .ok d.entries := by
  cases hlist : fs.list path with
  | error e =>
      unfold directoryAt Reading.ofPath at h
      simp [hlist] at h
  | ok es =>
      obtain ⟨d', hd, hpath, hentries⟩ := directoryAt_of_list mainFields hlist
      obtain rfl := Option.some.inj (hd.symm.trans h)
      exact ⟨hpath, by rw [hentries]⟩

/-- A file of a directory is one of its entries. -/
theorem mem_of_file? {name : Text} {e : Entry} (h : d.file? name = some e) :
    e ∈ d.entries ∧ e.name = name ∧ e.kind = .file := by
  have hmatch := List.find?_some h
  simp only [Bool.and_eq_true, decide_eq_true_eq] at hmatch
  exact ⟨List.mem_of_find?_eq_some h, hmatch⟩

/-! ### What a search asks for -/

namespace Attempt

variable {a a' b b' : Attempt} {p path text : Text} {directories directories' : Text → Option Directory}
  {f f' : Directory → Attempt}

/-- The attempt asks for a directory. -/
def Asks (a : Attempt) (p : Text) : Prop := ∃ depth, .visit depth p ∈ a.steps

/-- The first of two attempts is made. -/
theorem Asks.orElse_left (h : a.Asks p) (b : Attempt) : (a <|> b).Asks p := by
  change (orElse a fun _ => b).Asks p
  obtain ⟨depth, hmem⟩ := h
  unfold orElse
  split
  · exact ⟨depth, hmem⟩
  · exact ⟨depth, List.mem_append_left _ hmem⟩

/-- The second is made when the first finds nothing. -/
theorem Asks.orElse_right (hnone : a.found = none) (h : b.Asks p) : (a <|> b).Asks p := by
  change (orElse a fun _ => b).Asks p
  obtain ⟨depth, hmem⟩ := h
  unfold orElse
  rw [hnone]
  exact ⟨depth, List.mem_append_right _ hmem⟩

theorem Asks.under (h : a.Asks p) (text : Text) : (under text a).Asks p := by
  obtain ⟨depth, hmem⟩ := h
  exact ⟨depth + 1, List.mem_cons_of_mem _ (List.mem_map.2 ⟨_, hmem, rfl⟩)⟩

/-- An attempt within a directory asks for the directory. -/
theorem asks_within (directories : Text → Option Directory) (path : Text) (f : Directory → Attempt) :
    (within directories path f).Asks path := by
  unfold within
  split <;> exact ⟨0, List.mem_cons_self⟩

/-- It asks for what is asked for within. -/
theorem Asks.within {d : Directory} (hd : directories path = some d) (h : (f d).Asks p) :
    (within directories path f).Asks p := by
  obtain ⟨depth, hmem⟩ := h
  unfold Attempt.within
  rw [hd]
  exact ⟨depth, List.mem_cons_of_mem _ hmem⟩

/-- The attempt `a'` is the attempt `a` again, with other directories, unless one has changed that `a` asks
for. -/
def Local (directories directories' : Text → Option Directory) (a' a : Attempt) : Prop :=
  (∀ p, a.Asks p → directories' p = directories p) → a' = a

theorem Local.refl (a : Attempt) : Local directories directories' a a := fun _ => rfl

/-- Two attempts are local when both are. -/
theorem Local.orElse (ha : Local directories directories' a' a) (hb : Local directories directories' b' b) :
    Local directories directories' (a' <|> b') (a <|> b) := by
  intro h
  rw [ha fun p hp => h p (hp.orElse_left b)]
  -- where the first attempt finds a file, the second is not made
  cases hfound : a.found with
  | some path =>
      change Attempt.orElse a (fun _ => b') = Attempt.orElse a fun _ => b
      rw [Attempt.orElse, Attempt.orElse, hfound]
  | none => rw [hb fun p hp => h p (hp.orElse_right hfound)]

/-- An attempt stays local under a text. -/
theorem Local.under (ha : Local directories directories' a' a) (text : Text) :
    Local directories directories' (under text a') (under text a) := by
  intro h
  rw [ha fun p hp => h p (hp.under text)]

/-- An attempt within a directory is local when it is so in each. -/
theorem Local.within (hf : ∀ d, Local directories directories' (f' d) (f d)) :
    Local directories directories' (within directories' path f') (within directories path f) := by
  intro h
  have hpath := h path (asks_within directories path f)
  unfold Attempt.within
  rw [hpath]
  cases hd : directories path with
  | none => rfl
  | some d => dsimp only; rw [hf d fun p hp => h p (hp.within hd)]

/-- An attempt of two is local when both are. -/
theorem Local.ite {c : Prop} [Decidable c] (ha : Local directories directories' a' a)
    (hb : Local directories directories' b' b) :
    Local directories directories' (if c then a' else b') (if c then a else b) := by
  split
  · exact ha
  · exact hb

/-- Many attempts are local when each is. -/
theorem Local.firstOf {α : Type} {g g' : α → Attempt} (hg : ∀ x, Local directories directories' (g' x) (g x))
    (xs : List α) : Local directories directories' (firstOf g' xs) (firstOf g xs) := by
  induction xs with
  | nil => exact .refl _
  | cons x xs ih => exact (hg x).orElse ih

end Attempt

namespace Scope

variable {s : Scope} {directories : Text → Option Directory} {path sourceDir specifier : Text} {d : Directory}

/-- The scope with other directories. -/
def withDirectories (s : Scope) (directories : Text → Option Directory) : Scope := { s with directories }

/-- Looking for a file depends on its directory only. -/
theorem local_asFile :
    Attempt.Local s.directories directories ((s.withDirectories directories).asFile path) (s.asFile path) :=
  .under (.within fun _ => .refl _) _

/-- So does looking for the main file of a package. -/
theorem local_asMainField :
    Attempt.Local s.directories directories ((s.withDirectories directories).asMainField d) (s.asMainField d) := by
  unfold asMainField
  cases d.manifest with
  | none => exact .refl _
  | some m =>
      refine .under (.firstOf (fun field => ?_) _) _
      cases m.mainFields.lookup field with
      | none => exact .refl _
      | some value => exact (Attempt.Local.refl _).orElse (local_asFile.orElse (.within fun _ => .refl _))

/-- So does looking for a file or a directory. -/
theorem local_asFileOrDirectory :
    Attempt.Local s.directories directories ((s.withDirectories directories).asFileOrDirectory path)
      (s.asFileOrDirectory path) :=
  .orElse local_asFile (.under (.within fun _ => .orElse local_asMainField (.refl _)) _)

/-- So does looking for something below a place. -/
theorem local_below {decoded : Except Text (List Text)} {place : List Text → Text × List Text} :
    Attempt.Local s.directories directories ((s.withDirectories directories).below decoded place)
      (s.below decoded place) := by
  unfold below
  cases decoded with
  | error why => exact .refl _
  | ok segments => exact local_asFileOrDirectory

theorem decodeSegments_withDirectories (ps : List Text) :
    (s.withDirectories directories).decodeSegments ps = s.decodeSegments ps := by
  induction ps with
  | nil => rfl
  | cons p ps ih => rw [decodeSegments, decodeSegments, ih]; rfl

/-- So does looking for what a reference stands for. -/
theorem local_asReference :
    Attempt.Local s.directories directories ((s.withDirectories directories).asReference sourceDir specifier)
      (s.asReference sourceDir specifier) := by
  unfold asReference
  rw [decodeSegments_withDirectories]
  exact local_below

/-- So does looking for what a URL stands for. -/
theorem local_asUrl {rest : Text} :
    Attempt.Local s.directories directories ((s.withDirectories directories).asUrl sourceDir rest)
      (s.asUrl sourceDir rest) := by
  unfold asUrl
  cases urlPath rest with
  | error notes => exact .refl _
  | ok path =>
      dsimp only
      rw [decodeSegments_withDirectories]
      exact local_below

/-- So does looking for a package. -/
theorem local_asPackage :
    Attempt.Local s.directories directories ((s.withDirectories directories).asPackage specifier)
      (s.asPackage specifier) := by
  unfold asPackage
  exact .ite (.refl _)
    (.under (.orElse (.firstOf (fun _ => .ite (.refl _) local_asFileOrDirectory) _) (.refl _)) _)

/-- A search depends on the directories that it asks for only. -/
theorem local_find :
    Attempt.Local s.directories directories ((s.withDirectories directories).find sourceDir specifier)
      (s.find sourceDir specifier) := by
  unfold find
  refine .ite (.refl _) ?_
  cases Text.dropStart? "file:" specifier with
  | some rest => exact local_asUrl
  | none => exact .ite local_asReference (.ite local_asFileOrDirectory (.ite (.refl _) local_asPackage))

/-- **A search depends on the directories that it asks for**, and on no other. -/
theorem find_congr (h : ∀ p, (s.find sourceDir specifier).Asks p → directories p = s.directories p) :
    (s.withDirectories directories).find sourceDir specifier = s.find sourceDir specifier :=
  local_find h

end Scope

end ModuleSystem.Resolver
