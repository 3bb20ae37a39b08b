import ModuleSystem.Proofs.Resolver.Identity

/-!
# Bare specifiers stay in the module roots

A bare specifier is looked up below the module roots.  Nothing that is added to a path on the way — an
extension, the name of an index — leads out of the directory that it is added to.  Two things do: where the
specifier leads back to a root itself, the root may be taken for a file without its extension, and a main
field may hold any path.

* `IsBare`: specifiers that name packages.  `Below`: the paths strictly inside a directory.
* `Scope.NamesFile.below`, `Scope.NamesIndex.below`: what a path below a root names is below the root.
* `confined_or_led_out`: a bare specifier leads to a file below a module root, unless it leads to the root
  itself or a main field leads out of the root.
-/

namespace ModuleSystem.Resolver

open PathStyle (IsName absolute names)

/-- The specifier is neither relative nor absolute, and no URL. -/
structure IsBare (style : PathStyle) (specifier : Text) : Prop where
  notRelative : Specifier.isRelative specifier = false
  notRooted : Path.isRooted specifier = false
  notOnDrive : style = .windows → Specifier.isOnDrive specifier = false
  noScheme : Specifier.hasScheme specifier = false

/-- A path strictly inside a directory. -/
def Below (style : PathStyle) (root p : Text) : Prop :=
  ∃ ms, ms ≠ [] ∧ (∀ t ∈ ms, style.IsName t) ∧ p = style.absolute (style.names root ++ ms)

variable {m : Memory} {options : Options} {queries : List (Text × Text)} {ns : List Text} {s t : Text}
  {name path root specifier referer sourceDir id : Text} {scope : Scope}

/-! ### Names of files -/

/-- What is added to a name does not make it another kind of segment. -/
theorem isName_append (hs : Path.IsName s) (h : s ++ t = Text.ofString "/" ∨ 47 ∉ s ++ t) : Path.IsName (s ++ t) := by
  obtain ⟨b, s, rfl⟩ := List.exists_cons_of_ne_nil hs.ne_nil
  have hdot : Text.ofString "." = [46] := by decide
  have hdots : Text.ofString ".." = [46, 46] := by decide
  have hslash : Text.ofString "/" = [47] := by decide
  refine ⟨by simp, fun heq => ?_, fun heq => ?_, ?_⟩
  · rw [hdot] at heq
    obtain ⟨rfl, hnil⟩ := List.cons_eq_cons.1 heq
    exact hs.ne_dot (by rw [(List.append_eq_nil_iff.1 hnil).1, hdot])
  · rw [hdots] at heq
    obtain ⟨rfl, hrest⟩ := List.cons_eq_cons.1 heq
    cases s with
    | nil => exact hs.ne_dot hdot.symm
    | cons c s =>
        obtain ⟨rfl, hnil⟩ := List.cons_eq_cons.1 hrest
        exact hs.ne_dots (by rw [(List.append_eq_nil_iff.1 hnil).1, hdots])
  · obtain heq | hmem := h
    · rw [hslash] at heq
      obtain ⟨rfl, -⟩ := List.cons_eq_cons.1 heq
      exact absurd List.mem_cons_self hs.no_slash
    · exact hmem

variable (hm : m.style = .windows → ∀ f ∈ m.files, 92 ∉ f.1)
include hm

/-- A listed file lies in the directory that lists it. -/
theorem lists_absolute (hns : ∀ u ∈ ns, m.style.IsName u) (hs : Path.IsName s)
    (h : (searchIn m options).Lists (m.style.absolute ns) (s ++ t) id) :
    m.style.IsName (s ++ t) ∧ id = m.style.absolute (ns ++ [s ++ t]) := by
  obtain ⟨d, e, hd, he, rfl⟩ := h
  obtain ⟨hpath, hlist⟩ := list_of_directoryAt hd
  obtain ⟨hmem, hname, hkind⟩ := mem_of_file? he
  obtain ⟨htarget, f, hf, hbase⟩ := Memory.entry_of_list hlist hmem hkind
  have hst : m.style.IsName (s ++ t) := by
    have hname' : s ++ t = Path.base f.1 := hname.symm.trans hbase
    have hst := isName_append hs (hname' ▸ Path.base_eq_or f.1)
    refine ⟨hst, ?_⟩
    cases hstyle : m.style with
    | unix => exact hst.no_slash
    | windows => exact fun hback => hm hstyle f hf (Path.mem_of_mem_base (by decide) (by decide) (hname' ▸ hback))
  refine ⟨hst, ?_⟩
  rw [Scope.pathOf, htarget, hpath, hname]
  exact PathStyle.join_name hns hst

/-- **What a path below a root names as a file is below the root.** -/
theorem Scope.NamesFile.below (hroot : Path.isRooted (m.style.toSlash root) = true) (hpath : Below m.style root path)
    (h : (searchIn m options).NamesFile path id) : Below m.style root id := by
  obtain ⟨ms, hne, hms, rfl⟩ := hpath
  obtain ⟨ms, s, rfl⟩ := (List.eq_nil_or_concat ms).resolve_left hne
  rw [List.concat_eq_append] at hms h
  have hnames : ∀ u ∈ (m.style.names root ++ ms) ++ [s], m.style.IsName u := by
    intro u hu
    rw [List.append_assoc, List.mem_append] at hu
    exact hu.elim (PathStyle.isName_of_mem_names hroot) (hms u)
  have hstyle : (searchIn m options).style = m.style := rfl
  obtain ⟨name, hlists, hname⟩ := h
  rw [hstyle, ← List.append_assoc, PathStyle.base_absolute hnames] at hname
  rw [hstyle, ← List.append_assoc, PathStyle.dir_absolute hnames] at hlists
  obtain ⟨t, rfl⟩ : ∃ t, name = s ++ t := by
    obtain rfl | ⟨extension, -, rfl⟩ := hname
    · exact ⟨[], by simp⟩
    · exact ⟨extension, rfl⟩
  obtain ⟨hst, rfl⟩ := lists_absolute hm (fun u hu => hnames u (List.mem_append_left _ hu)) (hnames s (by simp)).1 hlists
  refine ⟨ms ++ [s ++ t], by simp, fun u hu => ?_, by rw [List.append_assoc]⟩
  obtain hu | hu := List.mem_append.1 hu
  · exact hms u (by simp [hu])
  · rwa [List.mem_singleton.1 hu]

/-- **What a path below a root names as an index is below the root.** -/
theorem Scope.NamesIndex.below (hroot : Path.isRooted (m.style.toSlash root) = true) (hpath : Below m.style root path)
    (h : (searchIn m options).NamesIndex path id) : Below m.style root id := by
  obtain ⟨ms, -, hms, rfl⟩ := hpath
  obtain ⟨extension, -, hlists⟩ := h
  have hnames : ∀ u ∈ m.style.names root ++ ms, m.style.IsName u := fun u hu =>
    (List.mem_append.1 hu).elim (PathStyle.isName_of_mem_names hroot) (hms u)
  have hindex : Path.IsName (Text.ofString "index") := ⟨by decide, by decide, by decide, by decide⟩
  obtain ⟨hst, rfl⟩ := lists_absolute hm hnames hindex hlists
  refine ⟨ms ++ [Text.ofString "index" ++ extension], by simp, fun u hu => ?_, by rw [List.append_assoc]⟩
  obtain hu | hu := List.mem_append.1 hu
  · exact hms u hu
  · rwa [List.mem_singleton.1 hu]

/-! ### Roots -/

omit hm in
/-- A path that does not escape a root leads down from it. -/
theorem exists_names_of_not_escapes (hroot : Path.isRooted (m.style.toSlash root) = true)
    (hns : ∀ u ∈ ns, m.style.IsName u)
    (h : (searchIn m options).escapes root (m.style.absolute ns) = false) : ∃ ms, ns = m.style.names root ++ ms := by
  by_contra hnot
  obtain ⟨r, hr, hleaves⟩ := PathStyle.rel?_leaves hroot hns fun ⟨ms, heq⟩ => hnot ⟨ms, heq.symm⟩
  have hrel : (searchIn m options).rel? = m.style.rel? := rfl
  have hstyle : (searchIn m options).style = m.style := rfl
  rw [Scope.escapes, hrel, hr] at h
  simp only [Bool.or_eq_false_iff, decide_eq_false_iff_not, hstyle] at h
  obtain rfl | ⟨rest, rfl⟩ := hleaves
  · exact h.1 rfl
  · refine absurd h.2 ?_
    rw [Bool.not_eq_false, Text.startsWith, List.isPrefixOf_iff_prefix]
    exact ⟨rest, by simp⟩

omit hm in
/-- The roots of a resolver are rooted. -/
theorem isRooted_root (hcwd : m.style.isAbs (new m.fileSystem options).options.cwd = true)
    (h : root ∈ (new m.fileSystem options).roots) : Path.isRooted (m.style.toSlash root) = true := by
  obtain ⟨given, -, rfl⟩ := List.mem_map.1 h
  have hstyle : m.fileSystem.style = m.style := rfl
  rw [hstyle]
  split
  · exact PathStyle.isRooted_toSlash ‹_›
  · have hrooted := PathStyle.isRooted_toSlash hcwd
    have hnames := PathStyle.isName_descend (fun _ => PathStyle.isName_of_mem_names hrooted) [given]
    refine Eq.trans (congrArg (fun p => Path.isRooted (m.style.toSlash p)) (PathStyle.join_eq hrooted [given])) ?_
    exact PathStyle.isRooted_absolute hnames

omit hm in
/-- A bare specifier is looked up below the roots. -/
theorem find_of_isBare (hbare : IsBare scope.style specifier)
    (h : (scope.find sourceDir specifier).found = some id) :
    ∃ root ∈ scope.roots, scope.escapes root (scope.style.join (root :: specifier.splitOn 47)) = false ∧
      (scope.asFileOrDirectory (scope.style.join (root :: specifier.splitOn 47))).found = some id := by
  -- without a scheme it is no URL of a file
  have hfile : Text.dropStart? "file:" specifier = none := by
    have hstart : specifier.startsWith (Text.ofString "file:") = false := by
      refine Bool.eq_false_iff.2 fun hstart => ?_
      obtain ⟨rest, rfl⟩ := List.isPrefixOf_iff_prefix.1 hstart
      have hscheme := hbare.noScheme
      simp [Specifier.hasScheme, Text.ofString, String.utf8EncodeChar, List.idxOf?_cons, Ascii.isLetter,
        Specifier.isSchemeByte] at hscheme
    rw [Text.dropStart?, if_neg (by rw [hstart]; decide)]
  unfold Scope.find at h
  split at h
  · cases h
  rw [hfile] at h
  dsimp only at h
  rw [hbare.notRelative, hbare.notRooted, hbare.noScheme, if_neg (by decide)] at h
  split at h
  · rename_i hdrive
    simp only [Bool.and_eq_true, decide_eq_true_eq] at hdrive
    exact absurd hdrive.2 (by rw [hbare.notOnDrive hdrive.1]; decide)
  rw [if_neg (by decide), Scope.asPackage] at h
  split at h
  · cases h
  simp only [Attempt.found_under, Attempt.found_orElse, Attempt.found_firstOf, Attempt.found_note,
    Option.or_none] at h
  obtain ⟨root, hmem, hroot⟩ := List.exists_of_findSome?_eq_some h
  split at hroot
  · cases hroot
  · exact ⟨root, hmem, Bool.eq_false_iff.2 ‹_›, hroot⟩

/-- **Bare specifiers are confined to the module roots**, but for two ways out: where a bare specifier leads
to a file, the file lies strictly inside a module root, or the specifier leads to the root itself, or a main
field leads to a path that is not inside the root. -/
theorem confined_or_led_out (hcwd : m.style.isAbs (new m.fileSystem options).options.cwd = true)
    (hbare : IsBare m.style specifier)
    (h : LeadsTo m.fileSystem options queries specifier referer id) :
    ∃ root ∈ (new m.fileSystem options).roots,
      let path := m.style.join (root :: specifier.splitOn 47)
      Below m.style root id ∨
      path = m.style.absolute (m.style.names root) ∨
      ∃ target, (searchIn m options).LeadsOn path target ∧ ¬ Below m.style root target := by
  obtain ⟨root, hmem, hescapes, hfound⟩ := find_of_isBare hbare (leadsTo_iff.1 h)
  have hroot := isRooted_root hcwd hmem
  have hjoin := PathStyle.join_eq hroot (specifier.splitOn 47)
  have hnames := PathStyle.isName_descend (fun _ => PathStyle.isName_of_mem_names hroot) (specifier.splitOn 47)
  obtain ⟨ms, hms⟩ := exists_names_of_not_escapes hroot hnames (hjoin ▸ hescapes)
  rw [hms] at hjoin hnames
  refine ⟨root, hmem, ?_⟩
  dsimp only
  by_cases hnil : ms = []
  · exact .inr (.inl (by rw [hjoin, hnil, List.append_nil]))
  have hbelow : Below m.style root (m.style.join (root :: specifier.splitOn 47)) :=
    ⟨ms, hnil, fun u hu => hnames u (List.mem_append_right _ hu), hjoin⟩
  obtain hfile | hindex | ⟨target, hleads, htarget⟩ := Scope.found_asFileOrDirectory hfound
  · exact .inl (hfile.below hm hroot hbelow)
  · exact .inl (hindex.below hm hroot hbelow)
  · by_cases hinside : Below m.style root target
    · exact .inl (htarget.elim (·.below hm hroot hinside) (·.below hm hroot hinside))
    · exact .inr (.inr ⟨target, hleads, hinside⟩)

omit hm in
/-- A file of a package is found below the root. -/
theorem confined_or_led_out_package :
    let m : Memory := ⟨.unix, "/repo", [("/repo/node_modules/pkg/a.js", "")]⟩
    let path := Text.ofString "/repo/node_modules/pkg/a.js"
    IsBare m.style "pkg/a" ∧ LeadsTo m.fileSystem {} [] "pkg/a" "/repo/b.js" path ∧
      ∃ root ∈ (new m.fileSystem {}).roots,
        Below m.style root path ∨
        m.style.join (root :: (Text.ofString "pkg/a").splitOn 47) = m.style.absolute (m.style.names root) ∨
        ∃ target, (searchIn m {}).LeadsOn (m.style.join (root :: (Text.ofString "pkg/a").splitOn 47)) target ∧
          ¬ Below m.style root target := by
  intro m path
  have hbare : IsBare m.style "pkg/a" := ⟨by decide, by decide, by decide, by decide⟩
  have hfound : LeadsTo m.fileSystem {} [] "pkg/a" "/repo/b.js" path := leadsTo_iff.2 (by decide +kernel)
  exact ⟨hbare, hfound, confined_or_led_out (m := m) (by decide) (by decide) hbare hfound⟩

omit hm in
/-- What lies below a root begins with its names. -/
theorem Below.isPrefix {style : PathStyle} {p : Text} (hroot : Path.isRooted (style.toSlash root) = true)
    (h : Below style root p) : style.names root <+: style.names p := by
  obtain ⟨ms, -, hms, rfl⟩ := h
  refine ⟨ms, (PathStyle.names_absolute fun u hu => ?_).symm⟩
  exact (List.mem_append.1 hu).elim (PathStyle.isName_of_mem_names hroot) (hms u)

omit hm in
/-- A main field leads out of the root, and so does a specifier that leads to the root itself. -/
theorem field_or_root_leads_out :
    (let m : Memory := ⟨.unix, "/", [("/other/secret.js", ""),
       ("/node_modules/pkg/package.json", "\x7b\"main\":\"../../other/secret.js\"\x7d")]⟩
     IsBare m.style "pkg" ∧ LeadsTo m.fileSystem {} [] "pkg" "" "/other/secret.js" ∧
       ∀ root ∈ (new m.fileSystem {}).roots, ¬ Below m.style root "/other/secret.js") ∧
    (let m : Memory := ⟨.unix, "/", [("/node_modules.js", "")]⟩
     IsBare m.style "pkg/.." ∧ LeadsTo m.fileSystem {} [] "pkg/.." "" "/node_modules.js" ∧
       ∀ root ∈ (new m.fileSystem {}).roots, ¬ Below m.style root "/node_modules.js") := by
  refine ⟨⟨⟨by decide, by decide, by decide, by decide⟩, leadsTo_iff.2 (by decide +kernel), fun root hroot hbelow => ?_⟩,
    ⟨by decide, by decide, by decide, by decide⟩, leadsTo_iff.2 (by decide +kernel), fun root hroot hbelow => ?_⟩
  · have hnames := hbelow.isPrefix (isRooted_root (by decide) hroot)
    obtain rfl := List.mem_singleton.1 hroot
    exact absurd hnames (by decide +kernel)
  · have hnames := hbelow.isPrefix (isRooted_root (by decide) hroot)
    obtain rfl := List.mem_singleton.1 hroot
    exact absurd hnames (by decide +kernel)

end ModuleSystem.Resolver
