import Mathlib.Data.List.Basic
import ModuleSystem.Proofs.FileSystem.Memory
import ModuleSystem.Proofs.Resolver.Search
import ModuleSystem.Proofs.Specifier

/-!
# The identity of a module

A module is known by the path of its file, and there are many ways to write a path: as a `file:` URL, or as
a reference from the root or from the importing file, with every byte encoded that a URL cannot hold.  All
of them lead to the one path, from wherever they are read.

* `LeadsTo`: what a specifier leads to.
* `found_of_mem`: the path of a file names the file.
* `find_fileUrl`, `find_fromRoot`, `find_fromSource`: what the spellings of a path lead to.
* `spellings_agree`: all spellings of a path lead to it, and whatever is found is a file whose URL leads back
  to it.
-/

namespace ModuleSystem.Resolver

open PathStyle (IsName absolute names)
open Specifier (percentEncode)

/-- A specifier leads from a file to a path, whatever was asked before. -/
def LeadsTo (fs : FileSystem) (options : Options) (queries : List (Text × Text))
    (specifier referer id : Text) : Prop :=
  (((new fs options).after fs queries).resolve fs specifier referer).2.result = .ok id

/-- A place that specifiers can be read from: an absolute path, or an absolute working directory. -/
def Placed (fs : FileSystem) (options : Options) (referer : Text) : Prop :=
  fs.style.isAbs referer = true ∨ referer = [] ∧ fs.style.isAbs (new fs options).options.cwd = true

variable {m : Memory} {options : Options} {queries : List (Text × Text)} {ns : List Text} {s : Text}
  {f : Text × Text} {p q specifier referer sourceDir id : Text}

/-- Where a specifier leads is what the search without caches finds. -/
theorem leadsTo_iff {fs : FileSystem} : LeadsTo fs options queries specifier referer id ↔
    (((new fs options).bareScope fs).find ((new fs options).sourceDir fs referer) specifier).found = some id := by
  rw [LeadsTo, resolve_after]
  generalize (Scope.find _ _ _).found = found
  cases found <;> simp [answer]

/-- The directory of a placed module is rooted. -/
theorem Placed.isRooted_sourceDir {fs : FileSystem} (h : Placed fs options referer) :
    Path.isRooted (fs.style.toSlash ((new fs options).sourceDir fs referer)) = true := by
  obtain h | ⟨rfl, h⟩ := h
  · have hne : referer.isEmpty = false := by
      cases referer with
      | nil => cases hstyle : fs.style <;> rw [hstyle] at h <;> cases h
      | cons b t => rfl
    obtain ⟨ns, hns, hdir, -⟩ := PathStyle.dir_of_isRooted (PathStyle.isRooted_toSlash h)
    rw [sourceDir, hne, if_neg (by decide), hdir]
    exact PathStyle.isRooted_absolute hns
  · exact PathStyle.isRooted_toSlash h

/-! ### Files -/

/-- The search in a file system in memory. -/
def searchIn (m : Memory) (options : Options) : Scope := (new m.fileSystem options).bareScope m.fileSystem

/-- **The path of a file names the file.** -/
theorem found_of_mem (options : Options) (hf : f ∈ m.files) (hns : ∀ t ∈ ns ++ [s], m.style.IsName t)
    (hpath : f.1 = Path.ofSegments true (ns ++ [s])) :
    ((searchIn m options).asFileOrDirectory (m.style.absolute (ns ++ [s]))).found =
      some (m.style.absolute (ns ++ [s])) := by
  obtain ⟨es, hes, he⟩ := Memory.list_absolute hf hns hpath
  obtain ⟨d, hd, hdpath, rfl⟩ := directoryAt_of_list options.mainFields hes
  have hns' : ∀ t ∈ ns, m.style.IsName t := fun t ht => hns t (by simp [ht])
  have hlists : (searchIn m options).Lists ((searchIn m options).style.dir (m.style.absolute (ns ++ [s])))
      ((searchIn m options).style.base (m.style.absolute (ns ++ [s]))) (m.style.absolute (ns ++ [s])) := by
    have hstyle : (searchIn m options).style = m.style := rfl
    rw [hstyle, PathStyle.dir_absolute hns, PathStyle.base_absolute hns]
    cases hfile : d.file? s with
    | none => exact absurd (List.find?_eq_none.1 hfile _ he) (by simp)
    | some e =>
        obtain ⟨hmem, hname, hkind⟩ := mem_of_file? hfile
        obtain ⟨htarget, -⟩ := Memory.entry_of_list hes hmem hkind
        refine ⟨d, e, hd, hfile, ?_⟩
        rw [Scope.pathOf, htarget, hdpath, hname]
        exact (PathStyle.join_name hns' (hns s (by simp))).symm
  rw [Scope.asFileOrDirectory, Attempt.found_orElse, hlists.asFile]
  rfl

/-! ### Spellings -/

/-- Encoded segments are decoded. -/
theorem decodeSegments_percentEncode {scope : Scope} {ps : List Text}
    (h : ∀ t ∈ ps, 47 ∉ t ∧ (scope.style = .windows → 92 ∉ t)) :
    scope.decodeSegments (ps.map percentEncode) = .ok ps := by
  have hidden : ∀ t ∈ ps, scope.hidesSeparator (percentEncode t) = false := by
    intro t ht
    obtain ⟨hslash, hback⟩ := h t ht
    rw [Scope.hidesSeparator, Bool.or_eq_false_iff, Bool.and_eq_false_imp]
    constructor
    · exact Bool.eq_false_iff.2 fun hmem =>
        hslash (Specifier.contains_percentEncode (x := 2) (y := 15) (by decide) (by decide) hmem)
    · exact fun hstyle => Bool.eq_false_iff.2 fun hmem =>
        hback (by simpa using hstyle)
          (Specifier.contains_percentEncode (x := 5) (y := 12) (by decide) (by decide) hmem)
  induction ps with
  | nil => rfl
  | cons t ps ih =>
      have hrest := ih (fun u hu => h u (by simp [hu])) (fun u hu => hidden u (by simp [hu]))
      rw [List.map_cons, Scope.decodeSegments, hrest]
      split
      · rename_i hplain
        have hsame := Specifier.percentEncode_of_notMem (p := t) (by simpa using hplain)
        rw [hsame]
        rfl
      · rw [hidden t (by simp), if_neg (by decide), Specifier.percentDecode_percentEncode]
        rfl

/-- The pieces of a path are its segments. -/
theorem decodeSegments_splitOn {scope : Scope} (h : scope.style = .windows → 92 ∉ p) :
    scope.decodeSegments ((percentEncode p).splitOn 47) = .ok (p.splitOn 47) := by
  rw [Specifier.splitOn_percentEncode]
  refine decodeSegments_percentEncode fun t ht => ⟨Path.no_slash_of_mem_splitOn ht, fun hstyle => ?_⟩
  have hpiece : PathStyle.windows.separator ∉ t := PathStyle.separator_notMem_piece (fun _ => h hstyle) ht
  exact hpiece

theorem withoutQuery_percentEncode (p : Text) : Specifier.withoutQuery (percentEncode p) = percentEncode p :=
  Specifier.withoutQuery_append_percentEncode (t := []) (by simp) p

theorem percentEncode_cons_slash (p : Text) : percentEncode (47 :: p) = 47 :: percentEncode p :=
  Specifier.percentEncode_cons 47 p

variable {scope : Scope}

theorem flatMap_pieces_splitOn (p : Text) : (p.splitOn 47).flatMap PathStyle.unix.pieces = p.splitOn 47 := by
  refine (List.flatMap_congr fun t ht => ?_).trans (List.flatMap_singleton' _)
  exact Path.splitOn_of_no_slash (Path.no_slash_of_mem_splitOn ht)

/-- Names that are joined from the root make an absolute path. -/
theorem join_names (hns : ∀ t ∈ ns, scope.style.IsName t) :
    scope.style.join (scope.style.absolute [] :: ns) = scope.style.absolute ns := by
  have hpieces : ns.flatMap scope.style.pieces = ns :=
    (List.flatMap_congr fun t ht => PathStyle.pieces_name (hns t ht)).trans (List.flatMap_singleton' _)
  rw [PathStyle.join_absolute (by simp), hpieces, Path.descend_names fun t ht => (hns t ht).1, List.nil_append]

/-- An encoded path that is read from the root. -/
theorem find_fromRoot (scope : Scope) (hstyle : scope.style = .unix) (hsource : Path.isRooted (scope.style.toSlash sourceDir) = true)
    (hp : Path.isRooted p = true) :
    scope.find sourceDir (percentEncode p) =
      scope.asFileOrDirectory (scope.style.absolute (Path.segments p)) := by
  obtain ⟨t, rfl⟩ := Path.exists_cons_of_isRooted hp
  have hdecoded : scope.decodeSegments ((percentEncode (47 :: t)).splitOn 47) = .ok ((47 :: t).splitOn 47) :=
    decodeSegments_splitOn (by simp [hstyle])
  have hfirst : ((47 :: t).splitOn 47).headD [] = [] := by
    rw [← List.nil_append (47 :: t), Path.splitOn_append_slash]
    simp
  have hpath : scope.style.join (scope.style.absolute [] :: (47 :: t).splitOn 47) =
      scope.style.absolute (Path.segments (47 :: t)) := by
    rw [PathStyle.join_absolute (by simp), hstyle, flatMap_pieces_splitOn, Path.segments_of_isRooted hp]
  have hreference : scope.asReference sourceDir (percentEncode (47 :: t)) =
      scope.asFileOrDirectory (scope.style.absolute (Path.segments (47 :: t))) := by
    rw [Scope.asReference, withoutQuery_percentEncode, hdecoded]
    simp only [Scope.below, hfirst, if_true, PathStyle.root_eq hsource, hpath]
  rw [Scope.find, ← hreference, percentEncode_cons_slash]
  simp [Text.dropStart?, Text.startsWith, Text.ofString, String.utf8EncodeChar, Path.isRooted]

/-- An encoded path that is read from the importing directory. -/
theorem find_fromSource (scope : Scope) (hstyle : scope.style = .unix) (hsource : Path.isRooted (scope.style.toSlash sourceDir) = true)
    (way : Text) :
    scope.find sourceDir ("./" ++ percentEncode way) =
      scope.asFileOrDirectory (scope.style.absolute (Path.descend (scope.style.names sourceDir) (way.splitOn 47))) := by
  have hspecifier : Text.ofString "./" ++ percentEncode way = percentEncode (46 :: 47 :: way) := by
    rw [Specifier.percentEncode_cons, Specifier.percentEncode_cons]
    rfl
  have hsplit : (46 :: 47 :: way).splitOn 47 = [46] :: way.splitOn 47 :=
    (Path.splitOn_append_slash [46] way).trans (by rw [Path.splitOn_of_no_slash (by decide)]; rfl)
  have hdecoded : scope.decodeSegments ((percentEncode (46 :: 47 :: way)).splitOn 47) =
      .ok ([46] :: way.splitOn 47) := by
    rw [decodeSegments_splitOn (by simp [hstyle]), hsplit]
  have hpath : scope.style.join (sourceDir :: [46] :: way.splitOn 47) =
      scope.style.absolute (Path.descend (scope.style.names sourceDir) (way.splitOn 47)) := by
    rw [PathStyle.join_eq hsource, ← hsplit, hstyle, flatMap_pieces_splitOn, hsplit]
    rfl
  have hreference : scope.asReference sourceDir (percentEncode (46 :: 47 :: way)) =
      scope.asFileOrDirectory
        (scope.style.absolute (Path.descend (scope.style.names sourceDir) (way.splitOn 47))) := by
    rw [Scope.asReference, withoutQuery_percentEncode, hdecoded]
    simp [Scope.below, hpath]
  rw [hspecifier, ← hreference, Scope.find, ← hspecifier]
  simp [Text.dropStart?, Text.startsWith, Text.ofString, String.utf8EncodeChar, Specifier.isRelative]

/-! ### File URLs -/

/-- The path of a URL for the path of some names. -/
def urlForm : PathStyle → List Text → Text
  | .unix, ns => Path.ofSegments true ns
  | .windows, ns => "/C:" ++ Path.ofSegments true ns

/-- The URL of an absolute path is its encoded form. -/
theorem fileUrl_absolute {style : PathStyle} (hns : ∀ t ∈ ns, style.IsName t) :
    Specifier.fileUrl style.separator (style.absolute ns) = "file://" ++ percentEncode (urlForm style ns) := by
  cases style with
  | unix =>
      have hpath : PathStyle.unix.absolute ns = 47 :: Text.joinWith "/" ns := rfl
      rw [Specifier.fileUrl, hpath]
      simp [PathStyle.separator, Text.ofString, String.utf8EncodeChar, urlForm, Path.ofSegments]
  | windows =>
      have hback := PathStyle.map_map_slash (PathStyle.notMem_ofSegments hns rfl)
      have hpath : (47 :: (PathStyle.windows.absolute ns).map fun b => if b = 92 then 47 else b) =
          urlForm .windows ns := by
        calc (47 :: (PathStyle.windows.absolute ns).map fun b => if b = 92 then 47 else b)
          _ = Text.ofString "/C:" ++ ((Path.ofSegments true ns).map fun b => if b = 47 then 92 else b).map
                fun b => if b = 92 then 47 else b := rfl
          _ = urlForm .windows ns := by rw [hback]; rfl
      rw [Specifier.fileUrl, PathStyle.separator, if_pos rfl, hpath]
      simp [Text.ofString, String.utf8EncodeChar, urlForm]

/-- A `file:` URL with an encoded path has that path. -/
theorem urlPath_percentEncode (p : Text) :
    Scope.urlPath (Text.ofString "//" ++ percentEncode (47 :: p)) = .ok (percentEncode (47 :: p)) := by
  have hquery : Specifier.withoutQuery (Text.ofString "//" ++ percentEncode (47 :: p)) =
      Text.ofString "//" ++ percentEncode (47 :: p) :=
    Specifier.withoutQuery_append_percentEncode (by decide) _
  rw [Scope.urlPath, hquery, percentEncode_cons_slash]
  simp [Text.dropStart?, Text.startsWith, Text.ofString, String.utf8EncodeChar, List.idxOf?_cons, Except.bind,
    Path.isRooted]

/-- The encoded form has the names for its pieces. -/
theorem splitOn_urlForm {style : PathStyle} (hns : ∀ t ∈ ns, style.IsName t) (hne : ns ≠ []) :
    (urlForm style ns).splitOn 47 = [] :: (match style with | .unix => ns | .windows => "C:" :: ns) := by
  have hnames : (Text.joinWith "/" ns).splitOn 47 = ns :=
    Path.splitOn_joinWith (fun t ht => (hns t ht).1.no_slash) hne
  have hroot : ∀ p : Text, (47 :: p).splitOn 47 = [] :: p.splitOn 47 := fun p =>
    (Path.splitOn_append_slash [] p).trans (by simp)
  cases style with
  | unix => exact (hroot _).trans (by rw [hnames])
  | windows =>
      have hdrive : (Text.ofString "C:").splitOn 47 = [Text.ofString "C:"] := Path.splitOn_of_no_slash (by decide)
      calc (urlForm .windows ns).splitOn 47
        _ = [] :: (Text.ofString "C:" ++ 47 :: Text.joinWith "/" ns).splitOn 47 := hroot _
        _ = [] :: Text.ofString "C:" :: ns := by rw [Path.splitOn_append_slash, hdrive, hnames]; rfl

/-- **The URL of a path is read as the path.** -/
theorem find_fileUrl (scope : Scope) (hsource : Path.isRooted (scope.style.toSlash sourceDir) = true)
    (hns : ∀ t ∈ ns, scope.style.IsName t) (hne : ns ≠ []) :
    scope.find sourceDir (Specifier.fileUrl scope.style.separator (scope.style.absolute ns)) =
      scope.asFileOrDirectory (scope.style.absolute ns) := by
  obtain ⟨u, hu⟩ : ∃ u, urlForm scope.style ns = 47 :: u := by
    cases scope.style <;> exact ⟨_, rfl⟩
  -- the names hold no backslash, so the slashes of the URL are all that divides it
  have hback : scope.style = .windows → 92 ∉ urlForm scope.style ns := by
    intro hstyle
    have hnames := PathStyle.notMem_ofSegments hns hstyle
    rw [hstyle]
    simpa [urlForm, Text.ofString, String.utf8EncodeChar] using hnames
  have hurl : scope.asUrl sourceDir (Text.ofString "//" ++ percentEncode (47 :: u)) =
      scope.asFileOrDirectory (scope.style.absolute ns) := by
    rw [Scope.asUrl, urlPath_percentEncode, ← hu]
    dsimp only
    rw [decodeSegments_splitOn hback, splitOn_urlForm hns hne, Scope.below]
    obtain ⟨t, ts, rfl⟩ := List.exists_cons_of_ne_nil hne
    cases hstyle : scope.style with
    | unix =>
        rw [← hstyle, ← join_names hns, PathStyle.root_eq hsource]
        simp [hstyle]
    | windows =>
        have hdrive : Specifier.isDrive (Text.ofString "C:") = true := by decide
        have hroot : Text.ofString "C:" ++ Text.ofString "\\" = PathStyle.windows.absolute [] := by decide
        rw [← hstyle, ← join_names hns]
        simp only [hstyle, List.drop_succ_cons, List.drop_zero, decide_true, Bool.true_and, hdrive, if_true, hroot]
  rw [fileUrl_absolute hns, hu, ← hurl, Scope.find]
  simp [Text.dropStart?, Text.startsWith, Text.ofString, String.utf8EncodeChar]

/-! ### All spellings -/

variable (hm : m.Canonical)
include hm

/-- A file is at the path of some names, unless it is at the root. -/
theorem exists_absolute (hf : f ∈ m.files) (hroot : f.1 ≠ Text.ofString "/") :
    ∃ ns s, (∀ t ∈ ns ++ [s], m.style.IsName t) ∧ f.1 = Path.ofSegments true (ns ++ [s]) := by
  obtain ⟨ms, hms, hpath⟩ := hm.exists_names hf
  obtain rfl | ⟨ns, s, rfl⟩ := List.eq_nil_or_concat ms
  · exact absurd hpath hroot
  · rw [List.concat_eq_append] at hms hpath
    exact ⟨ns, s, hms, hpath⟩

/-- Whatever is found is a file. -/
theorem LeadsTo.exists_file (h : LeadsTo m.fileSystem options queries specifier referer id) :
    ∃ f ∈ m.files, f.1 ≠ Text.ofString "/" ∧ id = m.style.ofSlash f.1 := by
  obtain ⟨dir, name, hdir, d, e, hd, he, rfl⟩ := Scope.exists_lists (leadsTo_iff.1 h)
  obtain ⟨hpath, hlist⟩ := list_of_directoryAt hd
  obtain ⟨hmem, -, hkind⟩ := mem_of_file? he
  obtain ⟨f, hf, ns, s, hns, hfile, rfl, hjoin⟩ := hm.absolute_of_list hdir hlist hmem hkind
  refine ⟨f, hf, fun hroot => ?_, ?_⟩
  · have htop : f.1 = Path.ofSegments true [] := hroot
    have hnil := Path.ofSegments_inj (fun t ht => (hns t ht).1) (by simp) (hfile.symm.trans htop)
    simp at hnil
  · rw [hfile, hpath]
    exact hjoin

/-- The URL of a file leads to the file. -/
theorem leadsTo_fileUrl (hf : f ∈ m.files) (hroot : f.1 ≠ Text.ofString "/")
    (hreferer : Placed m.fileSystem options referer) :
    LeadsTo m.fileSystem options queries (Specifier.fileUrl m.style.separator (m.style.ofSlash f.1)) referer
      (m.style.ofSlash f.1) := by
  obtain ⟨ns, s, hns, hpath⟩ := exists_absolute hm hf hroot
  have hfind := find_fileUrl (searchIn m options) hreferer.isRooted_sourceDir hns (by simp)
  rw [leadsTo_iff, hpath]
  exact (congrArg Attempt.found hfind).trans (found_of_mem options hf hns hpath)

/-- **All spellings of a path lead to it.**  The URL of a file leads to the file from wherever it is read,
and so do its encoded path from the root and its encoded path from the importing file.  Whatever is found is
a file, and the URL of what is found leads back to it. -/
theorem spellings_agree (options : Options) (queries queries' : List (Text × Text)) :
    (∀ f ∈ m.files, f.1 ≠ Text.ofString "/" → ∀ referer, Placed m.fileSystem options referer →
      let id := m.style.ofSlash f.1
      LeadsTo m.fileSystem options queries (Specifier.fileUrl m.style.separator id) referer id ∧
      (m.style = .unix →
        LeadsTo m.fileSystem options queries (percentEncode id) referer id ∧
        ∃ way, m.fileSystem.rel? ((new m.fileSystem options).sourceDir m.fileSystem referer) id = some way ∧
          LeadsTo m.fileSystem options queries ("./" ++ percentEncode way) referer id)) ∧
    ∀ specifier referer id, LeadsTo m.fileSystem options queries specifier referer id →
      (∃ contents, m.fileSystem.read id = .ok contents) ∧
      ∀ referer', Placed m.fileSystem options referer' →
        LeadsTo m.fileSystem options queries' (Specifier.fileUrl m.style.separator id) referer' id := by
  constructor
  · intro f hf hroot referer hreferer
    refine ⟨leadsTo_fileUrl hm hf hroot hreferer, fun hstyle => ?_⟩
    obtain ⟨ns, s, hns, hpath⟩ := exists_absolute hm hf hroot
    have hsource := hreferer.isRooted_sourceDir
    have hrooted := Path.isRooted_ofSegments (ns ++ [s])
    have hsegments := Path.segments_ofSegments fun t ht => (hns t ht).1
    have hid : m.style.ofSlash f.1 = Path.ofSegments true (ns ++ [s]) := by rw [hpath, hstyle]; rfl
    -- the names of the file are found; what is left is that both spellings come to these names
    have hfound := found_of_mem options hf hns hpath
    have habsolute : m.style.absolute (ns ++ [s]) = Path.ofSegments true (ns ++ [s]) := by rw [hstyle]; rfl
    rw [hid, leadsTo_iff]
    constructor
    · have hfind := find_fromRoot (searchIn m options) hstyle hsource hrooted
      rw [hsegments] at hfind
      exact (congrArg Attempt.found hfind).trans (hfound.trans (by rw [habsolute]))
    · have hsource' : Path.isRooted ((new m.fileSystem options).sourceDir m.fileSystem referer) = true := by
        have hslash : m.fileSystem.style = .unix := hstyle
        rwa [hslash] at hsource
      obtain ⟨way, hway, hdescend⟩ := Path.rel?_spec hsource' hrooted
      have hnames : PathStyle.names .unix = Path.segments := rfl
      have hfind := find_fromSource (searchIn m options) hstyle hsource way
      have hstyle' : (searchIn m options).style = .unix := hstyle
      rw [hstyle', hnames, hdescend, hsegments, ← hstyle'] at hfind
      refine ⟨way, ?_, leadsTo_iff.2 ((congrArg Attempt.found hfind).trans (hfound.trans (by rw [habsolute])))⟩
      have hrel : m.fileSystem.rel? = m.style.rel? := rfl
      rw [hrel, hstyle, PathStyle.rel?]
      simpa [PathStyle.toSlash, PathStyle.ofSlash] using hway
  · intro specifier referer id h
    obtain ⟨f, hf, hroot, rfl⟩ := h.exists_file hm
    exact ⟨Memory.read_of_mem hf, fun referer' hreferer => leadsTo_fileUrl hm hf hroot hreferer⟩

omit hm in
/-- A name with a space and a percent sign is found again by its URL. -/
theorem spellings_agree_escaped :
    let m : Memory := ⟨.unix, "/", [("/a b/%.mjs", "")]⟩
    m.Canonical ∧ Placed m.fileSystem {} "/src/entry.mjs" ∧
      LeadsTo m.fileSystem {} [] "file:///a%20b/%25.mjs" "/src/entry.mjs" "/a b/%.mjs" := by
  have canonical : (⟨.unix, "/", [("/a b/%.mjs", "")]⟩ : Memory).Canonical :=
    ⟨by decide, by decide, by decide⟩
  refine ⟨canonical, .inl (by decide), ?_⟩
  exact ((spellings_agree canonical {} [] []).1 _ List.mem_cons_self (by decide) "/src/entry.mjs"
    (.inl (by decide))).1

omit hm in
/-- A file at the root has no directory that would list it, and where paths are not absolute or not clean,
the URL of a file does not lead to it. -/
theorem root_url_leads_nowhere :
    (let m : Memory := ⟨.unix, "/", [("/", "")]⟩
     m.Canonical ∧ ¬ LeadsTo m.fileSystem {} [] (Specifier.fileUrl 47 "/") "/entry.mjs" "/") ∧
    (let m : Memory := ⟨.windows, "/", [("a", "")]⟩
     ¬ LeadsTo m.fileSystem {} [] (Specifier.fileUrl 92 (m.style.ofSlash "a")) "C:\\entry.mjs" (m.style.ofSlash "a")) ∧
    (let m : Memory := ⟨.windows, "/", [("/a//b", "")]⟩
     ¬ LeadsTo m.fileSystem {} [] (Specifier.fileUrl 92 (m.style.ofSlash "/a//b")) "C:\\entry.mjs"
       (m.style.ofSlash "/a//b")) := by
  exact ⟨⟨⟨by decide, by decide, by decide⟩, fun h => absurd (leadsTo_iff.1 h) (by decide +kernel)⟩,
    fun h => absurd (leadsTo_iff.1 h) (by decide +kernel), fun h => absurd (leadsTo_iff.1 h) (by decide +kernel)⟩

end ModuleSystem.Resolver
