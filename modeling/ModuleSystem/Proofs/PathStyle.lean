import ModuleSystem.Proofs.Path

/-!
# Paths of a style as lists of names

In either style an absolute path leads from the root of a file system down some names, none of which
holds a divider.  `absolute style ns` is the path of the names `ns`, `style.names p` are the names of a path
`p`, and the operations of the style do to paths what they mean for names.

* `join_eq`, `dir_absolute`, `base_absolute`: joining, going up, and the last name.
* `root_eq`: above every absolute path is the root.
* `rel?_leaves`: the way to a path that does not lie below starts by going up.
-/

namespace ModuleSystem.PathStyle

open ModuleSystem.Path (ofSegments descend isRooted)

/-- A name without dividers. -/
def IsName (style : PathStyle) (s : Text) : Prop := Path.IsName s ∧ style.separator ∉ s

/-- The path that leads from the root down some names. -/
def absolute (style : PathStyle) (ns : List Text) : Text := style.ofSlash (ofSegments true ns)

/-- The names of a path. -/
def names (style : PathStyle) (p : Text) : List Text := Path.segments (style.toSlash p)

/-- The pieces that a path adds to one that it is joined to. -/
def pieces (style : PathStyle) (p : Text) : List Text := (style.toSlash p).splitOn 47

variable {style : PathStyle} {p q s : Text} {ns ps : List Text}

/-! ### Slash forms -/

/-- A path in slash form has no separator of Windows. -/
theorem separator_notMem_toSlash (style : PathStyle) (p : Text) :
    style = .windows → 92 ∉ style.toSlash p := by
  rintro rfl hmem
  obtain ⟨b, -, hb⟩ := List.mem_map.1 hmem
  split at hb
  · cases hb
  · exact absurd hb ‹_›

/-- Nor have its pieces. -/
theorem separator_notMem_piece (h : style = .windows → 92 ∉ p) (hs : s ∈ p.splitOn 47) : style.separator ∉ s := by
  cases style with
  | unix => exact Path.no_slash_of_mem_splitOn hs
  | windows =>
      intro hmem
      refine h rfl ?_
      have hp : [47].intercalate (p.splitOn 47) = p := List.intercalate_splitOn 47
      rw [← hp, List.intercalate]
      refine List.mem_flatten.2 ⟨s, ?_, hmem⟩
      have hsub : p.splitOn 47 ⊆ (p.splitOn 47).intersperse [47] := by
        generalize p.splitOn 47 = l
        induction l with
        | nil => simp
        | cons a l ih =>
            cases l with
            | nil => simp
            | cons b l =>
                rw [List.intersperse_cons_cons]
                exact List.cons_subset_cons _ (List.subset_cons_of_subset _ ih)
      exact hsub hs

/-- An absolute path is rooted in slash form. -/
theorem isRooted_toSlash (h : style.isAbs p = true) : isRooted (style.toSlash p) = true := by
  cases style with
  | unix => exact h
  | windows =>
      have hdrive : onDrive p = true := h
      simp only [toSlash, hdrive, if_true]
      simp only [onDrive, Bool.or_eq_true, Text.startsWith, List.isPrefixOf_iff_prefix] at hdrive
      obtain ⟨t, rfl⟩ | ⟨t, rfl⟩ := hdrive <;> rfl

/-- The names of a rooted path have no slash and no separator. -/
theorem isName_of_mem_names (h : isRooted (style.toSlash p) = true) (hs : s ∈ style.names p) : style.IsName s := by
  refine ⟨Path.isName_of_mem_segments h hs, ?_⟩
  rw [names, Path.segments_of_isRooted h] at hs
  exact Path.descend_induct (P := fun s => style.separator ∉ s) (by simp)
    (fun s hs _ _ _ => separator_notMem_piece (separator_notMem_toSlash style p) hs) s hs

/-- Joining names adds no byte but slashes. -/
theorem joinWith_notMem {b : UInt8} (hb : b ≠ 47) (h : ∀ s ∈ ns, b ∉ s) : b ∉ Text.joinWith "/" ns := by
  induction ns with
  | nil => exact List.not_mem_nil
  | cons s ns ih =>
      have hs := h s (by simp)
      rcases eq_or_ne ns [] with rfl | hne
      · rwa [Path.joinWith_singleton]
      · have hrest := ih fun u hu => h u (by simp [hu])
        rw [Path.joinWith_cons s hne]
        simp [hs, hb, hrest]

/-- Slashes that become separators become slashes again. -/
theorem map_map_slash (h : 92 ∉ p) :
    (p.map fun b => if b = 47 then 92 else b).map (fun b => if b = 92 then 47 else b) = p := by
  rw [List.map_map]
  refine (List.map_congr_left fun b hb => ?_).trans (List.map_id p)
  by_cases hslash : b = 47
  · simp [hslash]
  · have hback : b ≠ 92 := fun heq => h (heq ▸ hb)
    simp [hslash, hback]

/-- A rooted path of names has no separator of Windows. -/
theorem notMem_ofSegments (h : ∀ s ∈ ns, style.IsName s) : style = .windows → 92 ∉ ofSegments true ns := by
  rintro rfl
  have hjoin := joinWith_notMem (b := 92) (by decide) fun s hs => (h s hs).2
  simpa [ofSegments] using hjoin

/-- The slash form of a written path. -/
theorem toSlash_ofSlash (hrooted : isRooted p = true) (h : style = .windows → 92 ∉ p) :
    style.toSlash (style.ofSlash p) = p := by
  cases style with
  | unix => rfl
  | windows =>
      obtain ⟨q, rfl⟩ := Path.exists_cons_of_isRooted hrooted
      exact map_map_slash (h rfl)

theorem toSlash_absolute (h : ∀ s ∈ ns, style.IsName s) : style.toSlash (style.absolute ns) = ofSegments true ns :=
  toSlash_ofSlash (Path.isRooted_ofSegments ns) (notMem_ofSegments h)

theorem names_absolute (h : ∀ s ∈ ns, style.IsName s) : style.names (style.absolute ns) = ns := by
  rw [names, toSlash_absolute h, Path.segments_ofSegments fun s hs => (h s hs).1]

/-- Dividers at the end of a path stay at its end. -/
theorem toSlash_absolute_trailing (h : ∀ s ∈ ns, style.IsName s) (k : Nat) :
    style.toSlash (style.absolute ns ++ List.replicate k style.separator) =
      ofSegments true ns ++ List.replicate k 47 := by
  cases style with
  | unix => rfl
  | windows =>
      have hback := map_map_slash (notMem_ofSegments h rfl)
      have htrailing : (List.replicate k (92 : UInt8)).map (fun b => if b = 92 then 47 else b) = List.replicate k 47 := by
        simp
      calc windows.toSlash (windows.absolute ns ++ List.replicate k 92)
        _ = ((ofSegments true ns).map (fun b => if b = 47 then 92 else b) ++ List.replicate k 92).map
              (fun b => if b = 92 then 47 else b) := rfl
        _ = ofSegments true ns ++ List.replicate k 47 := by rw [List.map_append, hback, htrailing]

/-- An absolute path of names is rooted in slash form. -/
theorem isRooted_absolute (h : ∀ s ∈ ns, style.IsName s) :
    isRooted (style.toSlash (style.absolute ns)) = true := by
  rw [toSlash_absolute h, Path.isRooted_ofSegments]

/-- Different names make different absolute paths. -/
theorem absolute_inj {ms : List Text} (hns : ∀ s ∈ ns, style.IsName s) (hms : ∀ s ∈ ms, style.IsName s)
    (h : style.absolute ns = style.absolute ms) : ns = ms := by
  rw [← names_absolute hns, h, names_absolute hms]

/-- A path that is divided by slashes is divided already. -/
@[simp]
theorem divide_divide (style : PathStyle) (p : Text) : style.divide (style.divide p) = style.divide p := by
  cases style with
  | unix => rfl
  | windows =>
      simp only [divide, List.map_map]
      refine List.map_congr_left fun b _ => ?_
      by_cases hslash : b = 47 <;> simp [hslash]

theorem divide_append (style : PathStyle) (p q : Text) : style.divide (p ++ q) = style.divide p ++ style.divide q := by
  cases style with
  | unix => rfl
  | windows => exact List.map_append

/-- Dividers in place of slashes are in place. -/
theorem divide_ofSlash (style : PathStyle) (p : Text) : style.divide (style.ofSlash p) = style.ofSlash p := by
  cases style with
  | unix => rfl
  | windows =>
      by_cases hroot : (windows.divide p).startsWith (Text.ofString "\\") = true
      · rw [ofSlash, if_pos hroot, divide_append, divide_divide]
        rfl
      · rw [ofSlash, if_neg hroot, divide_divide]

/-- A text without a slash is not divided. -/
theorem divide_of_no_slash (style : PathStyle) (h : 47 ∉ s) : style.divide s = s := by
  cases style with
  | unix => rfl
  | windows =>
      refine (List.map_congr_left fun b hb => ?_).trans (List.map_id s)
      exact if_neg fun heq : b = 47 => h (heq ▸ hb)

/-- A written path ends in its last name, after a divider. -/
theorem exists_absolute_concat (h : style.IsName s) (ns : List Text) :
    ∃ q, style.absolute (ns ++ [s]) = q ++ style.separator :: s := by
  obtain ⟨q, hq, -⟩ := Path.ofSegments_concat ns s
  rw [absolute, hq]
  cases style with
  | unix => exact ⟨q, rfl⟩
  | windows =>
      have hs := divide_of_no_slash .windows h.1.no_slash
      have hdivide : windows.divide (q ++ 47 :: s) = windows.divide q ++ 92 :: s :=
        (divide_append .windows q (47 :: s)).trans (congrArg (fun t => windows.divide q ++ 92 :: t) hs)
      rw [ofSlash, hdivide]
      by_cases hroot : (windows.divide q ++ 92 :: s).startsWith (Text.ofString "\\") = true
      · rw [if_pos hroot, ← List.append_assoc]
        exact ⟨_, rfl⟩
      · rw [if_neg hroot]
        exact ⟨_, rfl⟩

theorem toSlash_of_notMem (h : style.separator ∉ s) : style.toSlash s = s := by
  cases style with
  | unix => rfl
  | windows =>
      have hback : 92 ∉ s := h
      have hdrive : onDrive s = false := by
        rw [← Bool.not_eq_true]
        intro hdrive
        simp only [onDrive, Bool.or_eq_true, Text.startsWith, List.isPrefixOf_iff_prefix] at hdrive
        obtain ⟨t, rfl⟩ | ⟨t, rfl⟩ := hdrive <;> exact hback (by simp [Text.ofString, String.utf8EncodeChar])
      simp only [toSlash, hdrive, Bool.false_eq_true, if_false]
      refine (List.map_congr_left fun b hb => ?_).trans (List.map_id s)
      exact if_neg fun heq : b = 92 => hback (heq ▸ hb)

theorem pieces_name (h : style.IsName s) : style.pieces s = [s] := by
  rw [pieces, toSlash_of_notMem h.2, Path.splitOn_of_no_slash h.1.no_slash]

/-! ### Operations -/

/-- Where pieces lead are names without dividers. -/
theorem isName_descend (hns : ∀ s ∈ ns, style.IsName s) (ps : List Text) :
    ∀ s ∈ descend ns (ps.flatMap style.pieces), style.IsName s := by
  refine Path.descend_induct hns fun s hs h₁ h₂ h₃ => ?_
  obtain ⟨q, -, hs⟩ := List.mem_flatMap.1 hs
  exact ⟨⟨h₁, h₂, h₃, Path.no_slash_of_mem_splitOn hs⟩,
    separator_notMem_piece (separator_notMem_toSlash style q) hs⟩

/-- A joined path leads down from its first part. -/
theorem join_eq (h : isRooted (style.toSlash p) = true) (ps : List Text) :
    style.join (p :: ps) = style.absolute (descend (style.names p) (ps.flatMap style.pieces)) := by
  rw [join, List.map_cons, Path.join_eq h, List.flatMap_map]
  rfl

/-- Joining texts to an absolute path walks down their pieces from it. -/
theorem join_absolute (hns : ∀ s ∈ ns, style.IsName s) (ps : List Text) :
    style.join (style.absolute ns :: ps) = style.absolute (descend ns (ps.flatMap style.pieces)) := by
  rw [join_eq (isRooted_absolute hns), names_absolute hns]

/-- Joining a name to an absolute path adds the name. -/
theorem join_name (hns : ∀ s ∈ ns, style.IsName s) (hs : style.IsName s) :
    style.join [style.absolute ns, s] = style.absolute (ns ++ [s]) := by
  have hpieces : [s].flatMap style.pieces = [s] := by simp [pieces_name hs]
  rw [join_absolute hns, hpieces, Path.descend_names (by simpa using hs.1)]

/-- The directory of an absolute path has all names but the last. -/
theorem dir_absolute (h : ∀ t ∈ ns ++ [s], style.IsName t) :
    style.dir (style.absolute (ns ++ [s])) = style.absolute ns := by
  rw [dir, toSlash_absolute h, Path.dir_ofSegments (fun t ht => (h t (by simp [ht])).1) (h s (by simp)).1.no_slash]
  rfl

/-- The root is its own directory. -/
theorem dir_absolute_nil (style : PathStyle) : style.dir (style.absolute []) = style.absolute [] := by
  rw [dir, toSlash_absolute (by simp), Path.dir_root]
  rfl

/-- The base of an absolute path is its last name. -/
theorem base_absolute (h : ∀ t ∈ ns ++ [s], style.IsName t) : style.base (style.absolute (ns ++ [s])) = s := by
  have hs := (h s (by simp)).1
  rw [base, toSlash_absolute h, Path.base_ofSegments hs.ne_nil hs.no_slash, divide_of_no_slash _ hs.no_slash]

/-- The directory of an absolute path is absolute. -/
theorem dir_of_isRooted (h : isRooted (style.toSlash p) = true) :
    ∃ ns, (∀ s ∈ ns, style.IsName s) ∧ style.dir p = style.absolute ns ∧ ns.length ≤ p.length + 1 := by
  obtain ⟨u, hu, hrooted, hdir⟩ := Path.dir_of_isRooted h
  have hlength := Path.length_segments_le hrooted
  have hle : (style.toSlash p).length ≤ p.length := by
    cases style with
    | unix => exact Nat.le_refl _
    | windows =>
        simp only [toSlash, List.length_map]
        split
        · simp
        · exact Nat.le_refl _
  refine ⟨Path.segments u, fun s hs => ⟨Path.isName_of_mem_segments hrooted hs, ?_⟩, ?_, ?_⟩
  · rw [Path.segments_of_isRooted hrooted] at hs
    refine Path.descend_induct (P := fun s => style.separator ∉ s) (by simp) (fun s hs _ _ _ => ?_) s hs
    exact separator_notMem_piece (fun hw hmem => separator_notMem_toSlash style p hw (hu.subset hmem)) hs
  · rw [dir, hdir, Path.clean_of_isRooted hrooted]
    rfl
  · have := hu.length_le
    omega

/-- Climbing ends at the root. -/
theorem climb_absolute (h : ∀ s ∈ ns, style.IsName s) {fuel : Nat} (hfuel : ns.length ≤ fuel) :
    style.climb (style.absolute ns) fuel = style.absolute [] := by
  induction fuel generalizing ns with
  | zero => rw [List.eq_nil_of_length_eq_zero (Nat.le_zero.1 hfuel), climb]
  | succ fuel ih =>
      rw [climb]
      split
      · rename_i htop
        obtain rfl | ⟨ms, s, rfl⟩ := List.eq_nil_or_concat ns
        · rfl
        · rw [List.concat_eq_append] at h htop
          have hms : ∀ t ∈ ms, style.IsName t := fun t ht => h t (by simp [ht])
          rw [dir_absolute h] at htop
          have := congrArg List.length (absolute_inj hms h htop)
          simp at this
      · obtain rfl | ⟨ms, s, rfl⟩ := List.eq_nil_or_concat ns
        · rw [dir_absolute_nil]
          exact ih (by simp) (by simp)
        · rw [List.concat_eq_append] at h hfuel ⊢
          rw [dir_absolute h]
          refine ih (fun t ht => h t (by simp [ht])) ?_
          simp only [List.length_append, List.length_singleton] at hfuel
          omega

/-- **Above every absolute path is the root.** -/
theorem root_eq (h : isRooted (style.toSlash p) = true) : style.root p = style.absolute [] := by
  obtain ⟨ns, hns, hdir, hlength⟩ := dir_of_isRooted h
  rw [root, climb]
  split
  · rename_i htop
    rw [← htop, hdir]
    rw [hdir] at htop
    obtain rfl | ⟨ms, s, rfl⟩ := List.eq_nil_or_concat ns
    · rfl
    · rw [List.concat_eq_append] at hns hdir htop
      rw [← htop, dir_absolute hns] at hdir
      have := congrArg List.length (absolute_inj (fun t ht => hns t (by simp [ht])) hns hdir)
      simp at this
  · rw [hdir]
    exact climb_absolute hns (by omega)

/-- The way to a path that does not lie below starts by going up. -/
theorem rel?_leaves (hp : isRooted (style.toSlash p) = true) (hns : ∀ s ∈ ns, style.IsName s)
    (h : ¬ style.names p <+: ns) :
    ∃ r, style.rel? p (style.absolute ns) = some r ∧
      (r = Text.ofString ".." ∨ ∃ rest, r = Text.ofString ".." ++ style.separator :: rest) := by
  have hnames := names_absolute hns
  obtain ⟨r, hr, hleaves⟩ := Path.rel?_leaves hp (isRooted_absolute hns) (by rw [← hnames] at h; exact h)
  refine ⟨style.ofSlash r, by rw [rel?, hr]; rfl, ?_⟩
  obtain rfl | ⟨rest, rfl⟩ := hleaves
  · exact .inl (by cases style <;> rfl)
  · refine .inr ⟨style.divide rest, ?_⟩
    cases style <;> rfl

end ModuleSystem.PathStyle
