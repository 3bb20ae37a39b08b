import ModuleSystem.Proofs.Resolver.Identity

/-!
# Queries and fragments

A reference may end in a query or a fragment, which never changes the file that it names.  What comes after
the first mark is not looked at, whatever slashes, colons, percent signs or dots it holds; only the two
references that are all dots are no longer taken for references once something follows.

* `IsReference`: specifiers that are read as URL references.  `IsSuffix`: queries and fragments.
* `Scope.find_append`: the search is the same with a suffix and without, step by step.
* `Scope.found_append_of_isDots`: dots with a suffix lead nowhere.
* `suffix_ignored_unless_dots`: what a reference with a suffix leads to.
-/

namespace ModuleSystem

namespace Specifier

variable {s t : Text} {b : UInt8}

/-- A query or a fragment, with its mark. -/
inductive IsSuffix : Text → Prop where
  | query (t : Text) : IsSuffix (63 :: t)
  | fragment (t : Text) : IsSuffix (35 :: t)

/-- The specifier is read as a URL reference. -/
def IsReference (s : Text) : Prop :=
  isRelative s = true ∨ Path.isRooted s = true ∨ s.startsWith "file:" = true

/-- The specifier is one dot or two. -/
def IsDots (s : Text) : Prop := s = Text.ofString "." ∨ s = Text.ofString ".."

instance (s : Text) : Decidable (IsDots s) := inferInstanceAs (Decidable (_ ∨ _))

theorem IsSuffix.withoutQuery (ht : IsSuffix t) : withoutQuery t = [] := by
  cases ht <;> rfl

/-- Nothing of a suffix is left. -/
theorem IsSuffix.withoutQuery_append (ht : IsSuffix t) (s : Text) :
    Specifier.withoutQuery (s ++ t) = Specifier.withoutQuery s := by
  induction s with
  | nil => exact ht.withoutQuery
  | cons b s ih =>
      unfold Specifier.withoutQuery at ih ⊢
      rw [List.cons_append, List.takeWhile_cons, List.takeWhile_cons, ih]

theorem startsWith_append {p : Text} (h : s.startsWith p = true) (t : Text) : (s ++ t).startsWith p = true :=
  List.isPrefixOf_iff_prefix.2 ((List.isPrefixOf_iff_prefix.1 h).trans (List.prefix_append s t))

/-- A relative specifier stays relative when something follows, unless it is all dots. -/
theorem isRelative_append (h : isRelative s = true) (hdots : ¬ IsDots s) (t : Text) : isRelative (s ++ t) = true := by
  simp only [isRelative, Bool.or_eq_true, beq_iff_eq] at h ⊢
  obtain ((h | h) | h) | h := h
  · exact .inl (.inl (.inl (startsWith_append h t)))
  · exact .inl (.inl (.inr (startsWith_append h t)))
  · exact absurd (.inl h) hdots
  · exact absurd (.inr h) hdots

/-- Relative specifiers start with a dot. -/
theorem exists_cons_of_isRelative (h : isRelative s = true) : ∃ t, s = 46 :: t := by
  have hdot : Text.ofString "." = [46] := by decide
  have hdots : Text.ofString ".." = [46, 46] := by decide
  have hslash : Text.ofString "./" = [46, 47] := by decide
  have hslashes : Text.ofString "../" = [46, 46, 47] := by decide
  simp only [isRelative, Bool.or_eq_true, beq_iff_eq, Text.startsWith, List.isPrefixOf_iff_prefix] at h
  obtain ((⟨t, rfl⟩ | ⟨t, rfl⟩) | rfl) | rfl := h
  · exact ⟨47 :: t, by simp [hslash]⟩
  · exact ⟨46 :: 47 :: t, by simp [hslashes]⟩
  · exact ⟨[], hdot⟩
  · exact ⟨[46], hdots⟩

end Specifier

namespace Resolver

open Specifier (IsSuffix IsReference IsDots)

namespace Scope

variable {scope : Scope} {dir s t : Text} {b : UInt8}

/-- Where the first byte is a dot or a slash, there is no scheme. -/
theorem dropStart?_file (hb : b ≠ 102) (s : Text) : Text.dropStart? "file:" (b :: s) = none := by
  have hfile : Text.ofString "file:" = [102, 105, 108, 101, 58] := by decide
  rw [Text.dropStart?, if_neg]
  rw [Text.startsWith, hfile, List.isPrefixOf_cons_cons]
  simp [Ne.symm hb]

/-- References without a scheme are read from the importing directory. -/
theorem find_eq_asReference (h : Specifier.isRelative s = true ∨ Path.isRooted s = true) :
    scope.find dir s = scope.asReference dir s := by
  have hfirst : ∃ b u, s = b :: u ∧ b ≠ 102 := by
    obtain h | h := h
    · obtain ⟨u, rfl⟩ := Specifier.exists_cons_of_isRelative h
      exact ⟨46, u, rfl, by decide⟩
    · obtain ⟨u, rfl⟩ := Path.exists_cons_of_isRooted h
      exact ⟨47, u, rfl, by decide⟩
  obtain ⟨b, u, rfl, hb⟩ := hfirst
  rw [Scope.find, List.isEmpty_cons, if_neg (by decide), dropStart?_file hb]
  exact if_pos (by simpa using h)

/-- What follows the mark of a query or a fragment is not looked at. -/
theorem asReference_append (ht : IsSuffix t) (s : Text) :
    scope.asReference dir (s ++ t) = scope.asReference dir s := by
  rw [asReference, asReference, ht.withoutQuery_append]

theorem asUrl_append (ht : IsSuffix t) (rest : Text) : scope.asUrl dir (rest ++ t) = scope.asUrl dir rest := by
  rw [asUrl, asUrl, urlPath, urlPath, ht.withoutQuery_append]

/-- A URL of a file is looked for as such. -/
theorem find_of_file {rest : Text} (h : Text.dropStart? "file:" s = some rest) :
    scope.find dir s = scope.asUrl dir rest := by
  cases s with
  | nil => cases h
  | cons b s => rw [Scope.find, List.isEmpty_cons, if_neg (by decide), h]

/-- **A search does not look at queries and fragments**: it takes the same steps and finds the same. -/
theorem find_append (hs : IsReference s) (hdots : ¬ IsDots s) (ht : IsSuffix t) :
    scope.find dir (s ++ t) = scope.find dir s := by
  obtain h | h | h := hs
  · rw [find_eq_asReference (.inl h), find_eq_asReference (.inl (Specifier.isRelative_append h hdots t)),
      asReference_append ht]
  · rw [find_eq_asReference (.inr h), find_eq_asReference (.inr (Path.isRooted_append h t)), asReference_append ht]
  · obtain ⟨rest, rfl⟩ := List.isPrefixOf_iff_prefix.1 h
    have hdrop (u : Text) : Text.dropStart? "file:" (Text.ofString "file:" ++ u) = some u := by
      have hstart : Text.startsWith (Text.ofString "file:" ++ u) "file:" = true :=
        List.isPrefixOf_iff_prefix.2 ⟨u, rfl⟩
      rw [Text.dropStart?, if_pos hstart, List.drop_left]
    rw [find_of_file (hdrop rest), List.append_assoc, find_of_file (hdrop (rest ++ t)), asUrl_append ht]

/-- A dot begins neither a drive nor a scheme nor the name of a package. -/
theorem found_of_dot (hrelative : Specifier.isRelative (46 :: s) = false) :
    (scope.find dir (46 :: s)).found = none := by
  have hrooted : Path.isRooted (46 :: s) = false := rfl
  have hdrive : Specifier.isOnDrive (46 :: s) = false := by
    rw [Specifier.isOnDrive, Bool.and_eq_false_imp]
    intro h
    cases s <;> simp [Specifier.isDrive, Ascii.isLetter] at h
  have hscheme : Specifier.hasScheme (46 :: s) = false := by
    rw [Specifier.hasScheme, List.idxOf?_cons]
    cases s.idxOf? 58 <;> simp [Ascii.isLetter]
  have hpackage : Specifier.isPackagePath (46 :: s) = false := rfl
  simp [Scope.find, dropStart?_file, hrelative, hrooted, hdrive, hscheme, asPackage, hpackage]

/-- **Dots that are followed by a query or a fragment lead nowhere.** -/
theorem found_append_of_isDots (hs : IsDots s) (ht : IsSuffix t) : (scope.find dir (s ++ t)).found = none := by
  obtain rfl | rfl := hs <;> cases ht <;> exact found_of_dot rfl

end Scope

variable {fs : FileSystem} {options : Options} {s t referer : Text}

/-- **Queries and fragments never matter**, but for references that are all dots: whatever was asked before,
a reference with a query or a fragment leads where it leads without, and dots that are followed by one lead
nowhere. -/
theorem suffix_ignored_unless_dots (fs : FileSystem) (options : Options) (queries queries' : List (Text × Text))
    (referer : Text) (hs : IsReference s) (ht : IsSuffix t) :
    (¬ IsDots s → ∀ id, LeadsTo fs options queries (s ++ t) referer id ↔ LeadsTo fs options queries' s referer id) ∧
      (IsDots s → ∀ id, ¬ LeadsTo fs options queries (s ++ t) referer id) := by
  refine ⟨fun hdots id => ?_, fun hdots id => ?_⟩
  · rw [leadsTo_iff, leadsTo_iff, Scope.find_append hs hdots ht]
  · rw [leadsTo_iff, Scope.found_append_of_isDots hdots ht]
    exact nofun

/-- A relative path and the URL of a file, each with a suffix that looks like more of the path. -/
theorem suffix_ignored_unless_dots_path :
    let m : Memory := ⟨.unix, "/", [("/a/b.js", "")]⟩
    let path := Text.ofString "/a/b.js"
    (IsReference "./b" ∧ IsSuffix "?x=../c:%2F#d" ∧ ¬ IsDots "./b" ∧
      LeadsTo m.fileSystem {} [] (Text.ofString "./b" ++ "?x=../c:%2F#d") "/a/c.js" path) ∧
    (IsReference "file:///a/b.js" ∧ IsSuffix "#/%zz" ∧ ¬ IsDots "file:///a/b.js" ∧
      LeadsTo m.fileSystem {} [] (Text.ofString "file:///a/b.js" ++ "#/%zz") "/a/c.js" path) := by
  intro m path
  have hquery : IsSuffix "?x=../c:%2F#d" := .query _
  have hfragment : IsSuffix "#/%zz" := .fragment _
  have hpath : LeadsTo m.fileSystem {} [] "./b" "/a/c.js" path := leadsTo_iff.2 (by decide +kernel)
  have hurl : LeadsTo m.fileSystem {} [] "file:///a/b.js" "/a/c.js" path := leadsTo_iff.2 (by decide +kernel)
  have hdots : ¬ IsDots "./b" := by decide
  have hdots' : ¬ IsDots "file:///a/b.js" := by decide
  have href : IsReference "./b" := .inl rfl
  have href' : IsReference "file:///a/b.js" := .inr (.inr rfl)
  exact ⟨⟨href, hquery, hdots, ((suffix_ignored_unless_dots _ _ _ [] _ href hquery).1 hdots path).2 hpath⟩,
    href', hfragment, hdots', ((suffix_ignored_unless_dots _ _ _ [] _ href' hfragment).1 hdots' path).2 hurl⟩

/-- One dot leads to the index of the importing directory, and with a query it leads nowhere. -/
theorem dot_with_query_leads_nowhere :
    let m : Memory := ⟨.unix, "/", [("/index.js", "")]⟩
    IsReference "." ∧ IsSuffix "?a" ∧ LeadsTo m.fileSystem {} [] "." "" "/index.js" ∧
      ∀ id, ¬ LeadsTo m.fileSystem {} [] (Text.ofString "." ++ "?a") "" id :=
  ⟨.inl rfl, .query _, leadsTo_iff.2 (by decide +kernel), fun _ h =>
    nomatch (Scope.found_append_of_isDots (.inl rfl) (.query _)).symm.trans (leadsTo_iff.1 h)⟩

end Resolver

end ModuleSystem
