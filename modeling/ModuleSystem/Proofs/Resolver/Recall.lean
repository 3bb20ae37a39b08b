import ModuleSystem.Resolver

/-!
# What a resolver recalls

A resolver keeps the contents of manifests, the directories it has read and the files it has found, and
asks nothing twice.  As long as the files stay what they are, nothing of this shows in an answer.

* `FileCache.Agrees`: what the cache of files holds is what is read.
* `Recalls`: every directory and every answer that a resolver keeps is what it would find out again.  No
  query spoils this (`Recalls.resolve`), so it holds after any number of them (`recalls_after`).
* `answers_like_new`: whatever was asked before, a resolver answers like one that has read nothing.
-/

namespace ModuleSystem

namespace FileCache

variable {c : FileCache} {fs : FileSystem}

/-- Whatever the cache holds is what would be read. -/
def Agrees (c : FileCache) (fs : FileSystem) : Prop :=
  ∀ e ∈ c.entries, fs.read e.1 = .ok e.2.contents

theorem agrees_empty (fs : FileSystem) : ({} : FileCache).Agrees fs := by simp [Agrees]

/-- A hit of a cache that agrees is what would be read. -/
theorem Agrees.hit? (h : c.Agrees fs) {path contents : Text} {key : Except FileError ModKey}
    (hit : c.hit? path key = some contents) : fs.read path = .ok contents := by
  unfold FileCache.hit? at hit
  split at hit
  · rename_i file _ hfile
    obtain ⟨before, after, hentries, -⟩ := List.lookup_eq_some_iff.1 hfile
    have hread := h (path, file) (by simp [hentries])
    split at hit
    · rw [hread, Option.some.inj hit]
    · cases hit
  · cases hit

/-- A cache agrees when what was read is stored. -/
theorem Agrees.store (h : c.Agrees fs) {path contents : Text} (hread : fs.read path = .ok contents)
    (key : Except FileError ModKey) : (c.store path contents key).Agrees fs :=
  List.forall_mem_cons.2 ⟨hread, fun e he => h e (List.mem_filter.1 he).1⟩

/-- Reading through the cache is reading. -/
theorem Agrees.read (h : c.Agrees fs) (path : Text) :
    (c.read fs path).1.Agrees fs ∧ (c.read fs path).2 = fs.read path := by
  unfold FileCache.read
  dsimp only
  split
  · rename_i contents hit
    exact ⟨h, (h.hit? hit).symm⟩
  · split
    · rename_i contents hread
      exact ⟨h.store hread _, hread.symm⟩
    · rename_i e hread
      exact ⟨h, hread.symm⟩

end FileCache

namespace Resolver

variable {fs : FileSystem} {files : FileCache} {mainFields : List Text} {path : Text}

/-- A manifest is the same however it is read. -/
theorem Manifest.read_agrees (mainFields : List Text) (path : Text) (h : files.Agrees fs) :
    (Manifest.read fs files mainFields path).1 = (Manifest.read fs {} mainFields path).1 ∧
      (Manifest.read fs files mainFields path).2.2.2.Agrees fs := by
  have hread := h.read (fs.style.join [path, "package.json"])
  have hfresh := (FileCache.agrees_empty fs).read (fs.style.join [path, "package.json"])
  unfold Manifest.read
  dsimp only
  generalize files.read fs _ = cached at hread
  generalize ({} : FileCache).read fs _ = fresh at hfresh
  obtain ⟨files', result⟩ := cached
  obtain ⟨files'', result'⟩ := fresh
  obtain rfl : result = result' := hread.2.trans hfresh.2.symm
  cases result with
  | error e => exact ⟨rfl, hread.1⟩
  | ok contents =>
      dsimp only
      split
      · split
        · exact ⟨rfl, hread.1⟩
        · exact ⟨rfl, hread.1⟩
      · exact ⟨rfl, hread.1⟩

/-- A directory as it is, read with nothing in the cache. -/
def directoryAt (fs : FileSystem) (mainFields : List Text) (path : Text) : Option Directory :=
  (Reading.ofPath fs {} mainFields path).directory

/-- A directory is the same however its manifest is read. -/
theorem Reading.ofPath_agrees (mainFields : List Text) (path : Text) (h : files.Agrees fs) :
    (Reading.ofPath fs files mainFields path).directory = directoryAt fs mainFields path ∧
      (Reading.ofPath fs files mainFields path).files.Agrees fs := by
  have hmanifest := Manifest.read_agrees mainFields path h
  unfold directoryAt Reading.ofPath
  cases fs.list path with
  | error e => exact ⟨rfl, h⟩
  | ok entries =>
      dsimp only
      split
      · exact ⟨by rw [hmanifest.1], hmanifest.2⟩
      · exact ⟨rfl, h⟩

/-- The scope of a search that remembers nothing. -/
def bareScope (r : Resolver) (fs : FileSystem) : Scope :=
  { r.scope fs with directories := directoryAt fs r.options.mainFields }

/-- Everything that a resolver keeps is what it would find out again. -/
structure Recalls (fs : FileSystem) (r : Resolver) : Prop where
  files : r.files.Agrees fs
  directories : ∀ e ∈ r.directories, e.2 = directoryAt fs r.options.mainFields e.1
  results : ∀ e ∈ r.results, ((r.bareScope fs).find e.1.1 e.1.2).found = some e.2

/-- Two resolvers search in the same places. -/
structure SearchesLike (r r' : Resolver) : Prop where
  options : r.options = r'.options
  roots : r.roots = r'.roots

variable {r r' r'' : Resolver}

theorem SearchesLike.refl (r : Resolver) : SearchesLike r r := ⟨rfl, rfl⟩

theorem SearchesLike.trans (h : SearchesLike r r') (h' : SearchesLike r' r'') : SearchesLike r r'' :=
  ⟨h.options.trans h'.options, h.roots.trans h'.roots⟩

theorem SearchesLike.bareScope (h : SearchesLike r r') : r.bareScope fs = r'.bareScope fs := by
  simp only [Resolver.bareScope, scope, h.options, h.roots]

/-- Resolvers that search alike start from the same directory. -/
theorem SearchesLike.sourceDir (h : SearchesLike r r') (referer : Text) :
    r.sourceDir fs referer = r'.sourceDir fs referer := by
  simp only [Resolver.sourceDir, h.options]

/-- A new resolver recalls nothing wrong. -/
theorem recalls_new (fs : FileSystem) (options : Options) : Recalls fs (new fs options) where
  files := FileCache.agrees_empty fs
  directories := by simp [new]
  results := by simp [new]

/-- What is recalled of a directory is how it is. -/
theorem Recalls.lookup (h : Recalls fs r) : r.lookup fs = directoryAt fs r.options.mainFields := by
  funext path
  unfold Resolver.lookup
  split
  · rename_i known hknown
    obtain ⟨before, after, hdirectories, -⟩ := List.lookup_eq_some_iff.1 hknown
    exact h.directories (path, known) (by simp [hdirectories])
  · exact (Reading.ofPath_agrees _ _ h.files).1

/-- A resolver that recalls only what is there searches as if it recalled nothing. -/
theorem Recalls.scope (h : Recalls fs r) : r.scope fs = r.bareScope fs := by
  rw [Resolver.bareScope, ← h.lookup]
  rfl

/-- Taking note of directories changes neither what is recalled nor where it is looked for. -/
theorem Recalls.record (h : Recalls fs r) (steps : List Step) :
    Recalls fs (r.record fs steps).1 ∧ SearchesLike (r.record fs steps).1 r ∧
      (r.record fs steps).1.results = r.results := by
  induction steps generalizing r with
  | nil => exact ⟨h, .refl r, rfl⟩
  | cons step steps ih =>
      cases step with
      | note depth text => exact ih h
      | visit depth path =>
          unfold Resolver.record
          split
          · exact ih h
          · have hreading := Reading.ofPath_agrees r.options.mainFields path h.files
            let reading := Reading.ofPath fs r.files r.options.mainFields path
            let next : Resolver :=
              { r with directories := (path, reading.directory) :: r.directories, files := reading.files }
            have hnext : Recalls fs next :=
              { files := hreading.2
                directories := List.forall_mem_cons.2 ⟨hreading.1, h.directories⟩
                results := h.results }
            obtain ⟨hrecalls, hlike, hresults⟩ := ih hnext
            exact ⟨hrecalls, hlike.trans ⟨rfl, rfl⟩, hresults⟩

/-- The answer to a query, given what a search has found. -/
def answer (specifier referer : Text) : Option Text → Except NotFound Text
  | some path => .ok path
  | none => .error ⟨specifier, referer⟩

/-- A query is answered by a search that remembers nothing, and what is kept of it is right. -/
theorem Recalls.resolve (h : Recalls fs r) (specifier referer : Text) :
    (r.resolve fs specifier referer).2.result =
        answer specifier referer ((r.bareScope fs).find (r.sourceDir fs referer) specifier).found ∧
      Recalls fs (r.resolve fs specifier referer).1 ∧
      SearchesLike (r.resolve fs specifier referer).1 r := by
  unfold Resolver.resolve
  dsimp only
  split
  · rename_i path hpath
    obtain ⟨before, after, hresults, -⟩ := List.lookup_eq_some_iff.1 hpath
    have hfound := h.results ((r.sourceDir fs referer, specifier), path) (by simp [hresults])
    exact ⟨by rw [hfound]; rfl, h, .refl r⟩
  · rw [h.scope]
    obtain ⟨hrecalls, hlike, hresults⟩ :=
      h.record ((r.bareScope fs).find (r.sourceDir fs referer) specifier).steps
    split
    · rename_i path hpath
      refine ⟨by rw [hpath]; rfl, ?_, hlike.options, hlike.roots⟩
      refine { hrecalls with results := List.forall_mem_cons.2 ⟨?_, ?_⟩ }
      · exact (congrArg (fun s => (Scope.find s _ _).found) hlike.bareScope).trans hpath
      · exact hrecalls.results
    · rename_i hnone
      exact ⟨by rw [hnone]; rfl, hrecalls, hlike⟩

/-- The resolver after some queries, each a specifier and the file that imports it. -/
def after (fs : FileSystem) (r : Resolver) (queries : List (Text × Text)) : Resolver :=
  queries.foldl (fun r q => (r.resolve fs q.1 q.2).1) r

/-- However often a resolver is asked, what it keeps is right, and it looks in the same places. -/
theorem recalls_after (h : Recalls fs r) (queries : List (Text × Text)) :
    Recalls fs (r.after fs queries) ∧ SearchesLike (r.after fs queries) r := by
  induction queries generalizing r with
  | nil => exact ⟨h, .refl r⟩
  | cons q queries ih =>
      obtain ⟨-, hnext, hlike⟩ := h.resolve q.1 q.2
      obtain ⟨hafter, hlike'⟩ := ih hnext
      exact ⟨hafter, hlike'.trans hlike⟩

/-- After any queries, a resolver answers what a search finds that remembers nothing. -/
theorem resolve_after (fs : FileSystem) (options : Options) (queries : List (Text × Text))
    (specifier referer : Text) :
    (((new fs options).after fs queries).resolve fs specifier referer).2.result =
      answer specifier referer (((new fs options).bareScope fs).find
        ((new fs options).sourceDir fs referer) specifier).found := by
  obtain ⟨hrecalls, hlike⟩ := recalls_after (recalls_new fs options) queries
  rw [(hrecalls.resolve specifier referer).1, hlike.bareScope, hlike.sourceDir]

/-- **Nothing that a resolver recalls shows.**  As long as the files stay what they are, a resolver
answers every query like one that has read nothing: with the same path, or with the same error. -/
theorem answers_like_new (fs : FileSystem) (options : Options) (queries : List (Text × Text))
    (specifier referer : Text) :
    (((new fs options).after fs queries).resolve fs specifier referer).2.result =
      ((new fs options).resolve fs specifier referer).2.result := by
  rw [resolve_after]
  exact (resolve_after fs options [] specifier referer).symm

end Resolver

end ModuleSystem
