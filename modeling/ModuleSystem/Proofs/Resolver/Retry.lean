import ModuleSystem.FileSystem.Memory
import ModuleSystem.Proofs.Resolver.Search

/-!
# Asking again after files were added

A resolver keeps no failures, so that a query that failed can be asked again.  It keeps every directory that
it has read, though, as it was then, and a search looks at nothing else.

* `FileSystem.Extends`: files were added, and nothing else has changed.
* `knows_of_asks`: a resolver that has searched knows every directory that the search asked for.
* `Concurs`: two resolvers hold the same of every directory that both have read.
* `retry_follows_directories`: after files were added, a failed query is answered like by a resolver that has
  read nothing, if the two concur; a resolver that has been asked before fails again.
-/

namespace ModuleSystem

/-- Files were added at most: paths mean what they meant, and what could be read reads the same. -/
structure FileSystem.Extends (fs' fs : FileSystem) : Prop where
  style : fs'.style = fs.style
  cwd : fs'.cwd = fs.cwd
  rel? : fs'.rel? = fs.rel?
  read : ∀ {path contents}, fs.read path = .ok contents → fs'.read path = .ok contents

/-- A cache that agrees does so when files are added. -/
theorem FileCache.Agrees.extends {c : FileCache} {fs fs' : FileSystem} (h : c.Agrees fs) (hext : fs'.Extends fs) :
    c.Agrees fs' :=
  fun e he => hext.read (h e he)

/-- Files that are added to a memory extend its file system. -/
theorem Memory.extends_append (m : Memory) (files : List (Text × Text)) :
    (fileSystem { m with files := m.files ++ files }).Extends m.fileSystem where
  style := rfl
  cwd := rfl
  rel? := rfl
  read := by
    intro path contents h
    simp only [Memory.fileSystem, List.map_append, List.lookup_append] at h ⊢
    generalize List.lookup (m.style.divide path) (m.files.map _) = found at h ⊢
    cases found with
    | none => cases h
    | some text => exact h

/-- A file that was removed and is written again extends the file system. -/
theorem FileSystem.extends_rewritten (fs : FileSystem) (path contents : Text) :
    (fs.edited [(path, some contents), (path, none)]).Extends (fs.edited [(path, none)]) where
  style := rfl
  cwd := rfl
  rel? := rfl
  read := by
    intro p text h
    simp only [FileSystem.edited, List.lookup_cons, List.lookup_nil] at h ⊢
    cases hp : p == path with
    | true => simp [hp] at h
    | false => simpa [hp] using h

namespace Resolver

variable {fs fs' : FileSystem} {options : Options} {r r' : Resolver} {steps : List Step} {p specifier referer : Text}
  {queries : List (Text × Text)} {e : NotFound}

/-! ### Directories that are known -/

/-- The resolver has read the directory, or has tried to. -/
def Knows (r : Resolver) (p : Text) : Prop := ∃ d, r.directories.lookup p = some d

/-- A resolver keeps whatever another keeps of directories. -/
def Remembers (r' r : Resolver) : Prop :=
  ∀ p d, r.directories.lookup p = some d → r'.directories.lookup p = some d

theorem Remembers.refl (r : Resolver) : r.Remembers r := fun _ _ h => h

theorem Remembers.trans {r'' : Resolver} (h : r''.Remembers r') (h' : r'.Remembers r) : r''.Remembers r :=
  fun p d hd => h p d (h' p d hd)

theorem Remembers.knows (h : r'.Remembers r) : r.Knows p → r'.Knows p :=
  fun ⟨d, hd⟩ => ⟨d, h p d hd⟩

/-- Taking note of a visit makes the directory known and forgets none. -/
theorem record_visit (fs : FileSystem) (r : Resolver) (depth : Nat) (p : Text) (steps : List Step) :
    ∃ r' : Resolver, (r.record fs (.visit depth p :: steps)).1 = (r'.record fs steps).1 ∧ r'.Remembers r ∧
      r'.Knows p := by
  rw [record]
  cases hlookup : r.directories.lookup p with
  | some known => exact ⟨r, rfl, .refl r, known, hlookup⟩
  | none =>
      let reading := Reading.ofPath fs r.files r.options.mainFields p
      refine ⟨{ r with directories := (p, reading.directory) :: r.directories, files := reading.files },
        rfl, fun q d hd => ?_, reading.directory, by simp⟩
      have hne : q ≠ p := fun heq => by rw [heq, hlookup] at hd; cases hd
      rwa [List.lookup_cons, beq_false_of_ne hne]

/-- Recording a search forgets nothing. -/
theorem remembers_record (fs : FileSystem) (r : Resolver) (steps : List Step) : (r.record fs steps).1.Remembers r := by
  induction steps generalizing r with
  | nil => exact .refl r
  | cons step steps ih =>
      cases step with
      | note depth text => exact ih r
      | visit depth path =>
          obtain ⟨r', hrecord, hremembers, -⟩ := record_visit fs r depth path steps
          rw [hrecord]
          exact (ih r').trans hremembers

/-- Every directory that was visited is known afterwards. -/
theorem knows_record (fs : FileSystem) (r : Resolver) {depth : Nat} (h : .visit depth p ∈ steps) :
    (r.record fs steps).1.Knows p := by
  induction steps generalizing r with
  | nil => cases h
  | cons step steps ih =>
      cases step with
      | note d text => exact ih r ((List.mem_cons.1 h).resolve_left nofun)
      | visit d path =>
          obtain ⟨r', hrecord, -, hknows⟩ := record_visit fs r d path steps
          rw [hrecord]
          obtain heq | hrest := List.mem_cons.1 h
          · obtain ⟨-, rfl⟩ := Step.visit.inj heq
            exact (remembers_record fs r' steps).knows hknows
          · exact ih r' hrest

/-- A query whose answer is not kept is answered by a search, which is taken note of. -/
theorem resolve_of_lookup_results (h : r.results.lookup (r.sourceDir fs referer, specifier) = none) :
    (r.resolve fs specifier referer).2.result =
        answer specifier referer ((r.scope fs).find (r.sourceDir fs referer) specifier).found ∧
      (r.resolve fs specifier referer).1.directories =
        (r.record fs ((r.scope fs).find (r.sourceDir fs referer) specifier).steps).1.directories := by
  unfold resolve
  dsimp only
  rw [h]
  dsimp only
  cases ((r.scope fs).find (r.sourceDir fs referer) specifier).found <;> exact ⟨rfl, rfl⟩

/-- Answering a query forgets no directory. -/
theorem remembers_resolve (fs : FileSystem) (r : Resolver) (specifier referer : Text) :
    (r.resolve fs specifier referer).1.Remembers r := by
  cases h : r.results.lookup (r.sourceDir fs referer, specifier) with
  | some path =>
      unfold resolve
      dsimp only
      rw [h]
      exact .refl r
  | none =>
      intro p d hd
      rw [(resolve_of_lookup_results h).2]
      exact remembers_record fs r _ p d hd

/-- Queries forget nothing. -/
theorem remembers_after (fs : FileSystem) (r : Resolver) (queries : List (Text × Text)) :
    (r.after fs queries).Remembers r := by
  induction queries generalizing r with
  | nil => exact .refl r
  | cons q queries ih => exact (ih _).trans (remembers_resolve fs r q.1 q.2)

/-- What a search that remembers nothing does not find is not among the answers that are kept. -/
theorem Recalls.lookup_results (h : Recalls fs r)
    (hfailed : ((r.bareScope fs).find (r.sourceDir fs referer) specifier).found = none) :
    r.results.lookup (r.sourceDir fs referer, specifier) = none := by
  cases hlookup : r.results.lookup (r.sourceDir fs referer, specifier) with
  | none => rfl
  | some path =>
      obtain ⟨before, after, hresults, -⟩ := List.lookup_eq_some_iff.1 hlookup
      have hfound := h.results ((r.sourceDir fs referer, specifier), path) (by simp [hresults])
      cases hfailed.symm.trans hfound

/-- **A resolver that has searched knows every directory that the search asked for.** -/
theorem knows_of_asks (h : Recalls fs r) (hnew : r.results.lookup (r.sourceDir fs referer, specifier) = none)
    (hasks : ((r.bareScope fs).find (r.sourceDir fs referer) specifier).Asks p) :
    (r.resolve fs specifier referer).1.Knows p := by
  obtain ⟨depth, hmem⟩ := hasks
  rw [Knows, (resolve_of_lookup_results hnew).2, h.scope]
  exact knows_record fs r hmem

/-- A failed query has left its directories behind, whatever was asked before and after it. -/
theorem knows_of_mem_queries (h : Recalls fs r) (hmem : (specifier, referer) ∈ queries)
    (hfailed : ((r.bareScope fs).find (r.sourceDir fs referer) specifier).found = none)
    (hasks : ((r.bareScope fs).find (r.sourceDir fs referer) specifier).Asks p) : (r.after fs queries).Knows p := by
  induction queries generalizing r with
  | nil => cases hmem
  | cons q queries ih =>
      obtain ⟨-, hnext, hlike⟩ := h.resolve q.1 q.2
      obtain rfl | hrest := List.mem_cons.1 hmem
      · exact (remembers_after fs _ queries).knows (knows_of_asks h (h.lookup_results hfailed) hasks)
      · rw [← hlike.bareScope, ← hlike.sourceDir] at hfailed hasks
        exact ih hnext hrest hfailed hasks

/-! ### The same query against more files -/

/-- The two resolvers hold the same of every directory that both have read. -/
def Concurs (r r' : Resolver) : Prop := ∀ e ∈ r.directories, ∀ e' ∈ r'.directories, e.1 = e'.1 → e.2 = e'.2

instance (r r' : Resolver) : Decidable (r.Concurs r') :=
  inferInstanceAs (Decidable (∀ e ∈ r.directories, ∀ e' ∈ r'.directories, e.1 = e'.1 → e.2 = e'.2))

/-- What is known of a directory is how it was. -/
theorem Recalls.directory_of_lookup (h : Recalls fs r) {d : Option Directory}
    (hlookup : r.directories.lookup p = some d) : d = directoryAt fs r.options.mainFields p := by
  obtain ⟨before, after, hdirectories, -⟩ := List.lookup_eq_some_iff.1 hlookup
  exact h.directories (p, d) (by simp [hdirectories])

theorem lookup_of_knows {d : Option Directory} (h : r.directories.lookup p = some d) : r.lookup fs p = d := by
  rw [Resolver.lookup, h]

/-- A directory that is not known is read as it is now. -/
theorem Recalls.lookup_of_new (h : Recalls fs r) (hext : fs'.Extends fs) (hnew : r.directories.lookup p = none) :
    r.lookup fs' p = directoryAt fs' r.options.mainFields p := by
  rw [Resolver.lookup, hnew]
  exact (Reading.ofPath_agrees _ _ (h.files.extends hext)).1

/-- Resolvers that search alike differ in the directories that they know. -/
theorem SearchesLike.scope (h : SearchesLike r r') (fs : FileSystem) :
    r.scope fs = (r'.bareScope fs).withDirectories (r.lookup fs) := by
  simp only [Resolver.scope, Resolver.bareScope, Scope.withDirectories, h.options, h.roots]

/-- With the directories given, more files change nothing of a scope. -/
theorem FileSystem.Extends.withDirectories (h : fs'.Extends fs) (r : Resolver)
    (directories : Text → Option Directory) :
    (r.bareScope fs').withDirectories directories = (r.bareScope fs).withDirectories directories := by
  simp only [Resolver.bareScope, Resolver.scope, Scope.withDirectories, h.style, h.rel?]

theorem new_extends (h : fs'.Extends fs) (options : Options) : new fs' options = new fs options := by
  simp only [new, h.style, h.cwd]

/-- The directory of a module is the same when files are added. -/
theorem sourceDir_extends (h : fs'.Extends fs) (r : Resolver) (referer : Text) :
    r.sourceDir fs' referer = r.sourceDir fs referer := by
  rw [Resolver.sourceDir, Resolver.sourceDir, h.style]

/-- A resolver that does not keep the answer searches in the directories that it knows, and in the others as
they are now. -/
theorem Recalls.resolve_extends (h : Recalls fs r) (hlike : SearchesLike r r') (hext : fs'.Extends fs)
    (hfailed : ((r'.bareScope fs).find (r'.sourceDir fs referer) specifier).found = none) :
    (r.resolve fs' specifier referer).2.result = answer specifier referer
      (((r'.bareScope fs').withDirectories (r.lookup fs')).find (r'.sourceDir fs' referer) specifier).found := by
  rw [← hlike.bareScope, ← hlike.sourceDir] at hfailed
  have hnew := h.lookup_results hfailed
  rw [← sourceDir_extends hext] at hnew
  rw [(resolve_of_lookup_results hnew).1, hlike.scope, hlike.sourceDir]

/-- A query that fails has found nothing. -/
theorem found_of_result (h : ((new fs options).resolve fs specifier referer).2.result = .error e) :
    (((new fs options).bareScope fs).find ((new fs options).sourceDir fs referer) specifier).found = none := by
  rw [((recalls_new fs options).resolve specifier referer).1] at h
  generalize (Scope.find _ _ _).found = found at h
  cases found with
  | none => rfl
  | some path => cases h

/-- A resolver answers like one that has read nothing, if the two concur. -/
theorem result_of_concurs (queries : List (Text × Text)) (hext : fs'.Extends fs)
    (hfailed : (((new fs options).bareScope fs).find ((new fs options).sourceDir fs referer) specifier).found = none)
    (hconcurs : ((new fs options).after fs queries).Concurs ((new fs' options).resolve fs' specifier referer).1) :
    (((new fs options).after fs queries).resolve fs' specifier referer).2.result =
      ((new fs' options).resolve fs' specifier referer).2.result := by
  obtain ⟨hrecalls, hlike⟩ := recalls_after (recalls_new fs options) queries
  have hnew := recalls_new fs' options
  rw [new_extends hext] at hnew hconcurs ⊢
  obtain ⟨hresult, hfresh, hlike'⟩ := hnew.resolve specifier referer
  rw [hrecalls.resolve_extends hlike hext hfailed, hresult, Scope.find_congr]
  -- the search of the new resolver is followed: afterwards it knows all that the search has asked for
  intro p hasks
  change _ = directoryAt fs' _ p
  obtain ⟨d', hd'⟩ := knows_of_asks hnew rfl hasks
  cases hlookup : ((new fs options).after fs queries).directories.lookup p with
  | none => rw [hrecalls.lookup_of_new hext hlookup, hlike.options]
  | some d =>
      have hsame : d = d' := by
        obtain ⟨before, after, hold, -⟩ := List.lookup_eq_some_iff.1 hlookup
        obtain ⟨before', after', hnew, -⟩ := List.lookup_eq_some_iff.1 hd'
        exact hconcurs (p, d) (by simp [hold]) (p, d') (by simp [hnew]) rfl
      rw [lookup_of_knows hlookup, hsame, hfresh.directory_of_lookup hd', hlike'.options]

/-- A query that has failed fails again, whatever files were added. -/
theorem fails_again (hext : fs'.Extends fs) (hmem : (specifier, referer) ∈ queries)
    (hfailed : (((new fs options).bareScope fs).find ((new fs options).sourceDir fs referer) specifier).found = none) :
    (((new fs options).after fs queries).resolve fs' specifier referer).2.result = .error ⟨specifier, referer⟩ := by
  obtain ⟨hrecalls, hlike⟩ := recalls_after (recalls_new fs options) queries
  rw [hrecalls.resolve_extends hlike hext hfailed, FileSystem.Extends.withDirectories hext, sourceDir_extends hext,
    Scope.find_congr, hfailed]
  · rfl
  -- the failed search is followed: all that it asked for is known, as it was
  intro p hasks
  obtain ⟨d, hd⟩ := knows_of_mem_queries (recalls_new fs options) hmem hfailed hasks
  rw [lookup_of_knows hd, hrecalls.directory_of_lookup hd, hlike.options]
  rfl

/-- **What counts when a query is asked again are the directories.**  A query fails; then files are added.
A resolver that was asked other things before now answers like one that has read nothing, if the two concur
in every directory that both have read.  A resolver that was asked the same before fails again, whatever
files were added. -/
theorem retry_follows_directories (queries : List (Text × Text)) (hext : fs'.Extends fs)
    (hfailed : ((new fs options).resolve fs specifier referer).2.result = .error e) :
    (((new fs options).after fs queries).Concurs ((new fs' options).resolve fs' specifier referer).1 →
      (((new fs options).after fs queries).resolve fs' specifier referer).2.result =
        ((new fs' options).resolve fs' specifier referer).2.result) ∧
    ((specifier, referer) ∈ queries →
      (((new fs options).after fs queries).resolve fs' specifier referer).2.result = .error ⟨specifier, referer⟩) :=
  ⟨result_of_concurs queries hext (found_of_result hfailed),
    fun hmem => fails_again hext hmem (found_of_result hfailed)⟩

/-- Nothing was read of a directory before it came to be: what is added there is found. -/
theorem retry_follows_directories_new :
    let m : Memory := ⟨.unix, "/", [("/lib/a.js", "")]⟩
    let fs := m.fileSystem
    let fs' := Memory.fileSystem { m with files := m.files ++ [(Text.ofString "/new/x.js", Text.ofString "")] }
    let queries := [(Text.ofString "./a", Text.ofString "/lib/b.js")]
    fs'.Extends fs ∧ ((new fs {}).resolve fs "../new/x" "/lib/b.js").2.result = .error ⟨"../new/x", "/lib/b.js"⟩ ∧
      ((new fs {}).after fs queries).Concurs ((new fs' {}).resolve fs' "../new/x" "/lib/b.js").1 ∧
      (((new fs {}).after fs queries).resolve fs' "../new/x" "/lib/b.js").2.result =
        .ok (Text.ofString "/new/x.js") := by
  intro m fs fs' queries
  have hext : fs'.Extends fs := m.extends_append _
  have hfailed : ((new fs {}).resolve fs "../new/x" "/lib/b.js").2.result = .error ⟨"../new/x", "/lib/b.js"⟩ := by
    decide +kernel
  have hconcurs : ((new fs {}).after fs queries).Concurs ((new fs' {}).resolve fs' "../new/x" "/lib/b.js").1 := by
    decide +kernel
  have hnew : ((new fs' {}).resolve fs' "../new/x" "/lib/b.js").2.result = .ok (Text.ofString "/new/x.js") := by
    decide +kernel
  exact ⟨hext, hfailed, hconcurs, ((retry_follows_directories queries hext hfailed).1 hconcurs).trans hnew⟩

/-- A resolver that has looked for a package does not find it once its files are there, nor once its manifest
can be read. -/
theorem added_package_stays_missing :
    (let m : Memory := ⟨.unix, "/", [("/main.js", "")]⟩
     let fs := m.fileSystem
     let files := [(Text.ofString "/node_modules/pkg/index.js", Text.ofString "")]
     let fs' := Memory.fileSystem { m with files := m.files ++ files }
     let old := (new fs {}).after fs [(Text.ofString "pkg", Text.ofString "")]
     fs'.Extends fs ∧ ((new fs {}).resolve fs "pkg" "").2.result = .error ⟨"pkg", ""⟩ ∧
       ((new fs' {}).resolve fs' "pkg" "").2.result = .ok (Text.ofString "/node_modules/pkg/index.js") ∧
       (old.resolve fs' "pkg" "").2.result = .error ⟨"pkg", ""⟩) ∧
    (let m : Memory := ⟨.unix, "/", [("/node_modules/pkg/package.json", ""), ("/lib/x.js", "")]⟩
     let manifest := Text.ofString "/node_modules/pkg/package.json"
     let fs := m.fileSystem.edited [(manifest, none)]
     let fs' := m.fileSystem.edited [(manifest, some "\x7b\"main\":\"../../lib/x.js\"\x7d"), (manifest, none)]
     let old := (new fs {}).after fs [(Text.ofString "pkg", Text.ofString "")]
     fs'.Extends fs ∧ ((new fs {}).resolve fs "pkg" "").2.result = .error ⟨"pkg", ""⟩ ∧
       ((new fs' {}).resolve fs' "pkg" "").2.result = .ok (Text.ofString "/lib/x.js") ∧
       (old.resolve fs' "pkg" "").2.result = .error ⟨"pkg", ""⟩) := by
  constructor
  · intro m fs files fs' old
    exact ⟨m.extends_append files, by decide +kernel, by decide +kernel, by decide +kernel⟩
  · intro m manifest fs fs' old
    exact ⟨m.fileSystem.extends_rewritten manifest _, by decide +kernel, by decide +kernel, by decide +kernel⟩

end Resolver

end ModuleSystem
