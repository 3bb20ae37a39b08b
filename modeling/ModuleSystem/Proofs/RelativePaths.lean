import ModuleSystem.Proofs.FileSystem.Memory

/-!
# Relative paths

`Path.rel?` looks at the names of two paths.  The way from one path to the other can also be found from the
cleaned texts alone: as long as the pieces before their first slashes are the same, both pieces are taken off
(`Strips`), and what is left of the base is counted (`wayAfter`).  A text that has come to its end goes on with
empty pieces, and no piece of a cleaned path is empty, so the pieces differ before both texts have ended.

`Path.Encloses` tells by the texts too whether a path lies inside a directory.

* `Path.rel?_finds`: the search by texts ends, and finds what the names tell.
* `Path.encloses_iff`: inside a directory are the paths whose names go on from those of the directory.
* `Memory.way_between`: the relative path leads to the target, is a dot only if there is nowhere to go, and goes up
  first only if the target is not inside the base.
* `Memory.shown_relative_unless_dotted`: messages show a path relative to the working directory if it lies inside,
  unless two dots begin the way down to it.
-/

namespace ModuleSystem

namespace Path

variable {p q s b t b' t' : Text} {ns ms bs ts : List Text}

/-! ### Texts of names -/

/-- Only no names make an empty text. -/
theorem joinWith_eq_nil_iff (h : ∀ s ∈ ns, s ≠ []) : Text.joinWith "/" ns = [] ↔ ns = [] := by
  constructor
  · intro hnil
    cases ns with
    | nil => rfl
    | cons s ns =>
        have hs := h s List.mem_cons_self
        by_cases hns : ns = []
        · rw [hns, joinWith_singleton] at hnil
          exact absurd hnil hs
        · rw [joinWith_cons s hns] at hnil
          exact absurd (List.append_eq_nil_iff.1 hnil).1 hs
  · rintro rfl
    rfl

/-- Between names there is one slash less than there are names. -/
theorem count_joinWith (h : ∀ s ∈ ns, 47 ∉ s) (hne : ns ≠ []) :
    (Text.joinWith "/" ns).count 47 + 1 = ns.length := by
  induction ns with
  | nil => exact absurd rfl hne
  | cons s ns ih =>
      obtain ⟨hs, hns⟩ := List.forall_mem_cons.1 h
      by_cases hnil : ns = []
      · rw [hnil, joinWith_singleton, List.count_eq_zero.2 hs]
        rfl
      · rw [joinWith_cons s hnil, List.count_append, List.count_eq_zero.2 hs, List.count_cons_self, Nat.zero_add,
          ih hns hnil, List.length_cons]

/-- A text is that of its pieces. -/
theorem joinWith_splitOn (p : Text) : Text.joinWith "/" (p.splitOn 47) = p := List.intercalate_splitOn 47

/-! ### The way found by texts -/

/-- A text cut at its first slash; behind a text without slashes nothing is left. -/
def cut (p : Text) : Text × Text := (p.takeWhile (· ≠ 47), (p.dropWhile (· ≠ 47)).drop 1)

/-- A path is cut at its first slash. -/
theorem cut_append (hs : 47 ∉ s) (p : Text) : cut (s ++ 47 :: p) = (s, p) := by
  have hall : ∀ b ∈ s, decide (b ≠ 47) = true := fun b hb => decide_eq_true fun heq : b = 47 => hs (heq ▸ hb)
  rw [cut, List.takeWhile_append_of_pos hall, List.dropWhile_append_of_pos hall]
  simp

/-- A text without a slash is cut at its end. -/
theorem cut_of_no_slash (hs : 47 ∉ s) : cut s = (s, []) := by
  have hall : ∀ b ∈ s, decide (b ≠ 47) = true := fun b hb => decide_eq_true fun heq : b = 47 => hs (heq ▸ hb)
  rw [cut, List.takeWhile_eq_self_iff.2 hall, List.dropWhile_eq_nil_iff.2 hall]
  rfl

/-- A path of names is cut behind its first name. -/
theorem cut_joinWith (hs : 47 ∉ s) : cut (Text.joinWith "/" (s :: ns)) = (s, Text.joinWith "/" ns) := by
  by_cases hns : ns = []
  · rw [hns, joinWith_singleton, cut_of_no_slash hs]
    rfl
  · rw [joinWith_cons s hns, cut_append hs]

/-- `b'` and `t'` are left of `b` and `t` when the pieces that both begin with are taken off, one after the other,
up to the first that differ. -/
inductive Strips : Text → Text → Text → Text → Prop where
  | stop {b t : Text} (h : (cut b).1 ≠ (cut t).1) : Strips b t b t
  | next {b t b' t' : Text} (h : (cut b).1 = (cut t).1) (hrest : Strips (cut b).2 (cut t).2 b' t') : Strips b t b' t'

/-- There is one way to strip what two paths begin with alike. -/
theorem Strips.unique {b₁ t₁ b₂ t₂ : Text} (h₁ : Strips b t b₁ t₁) (h₂ : Strips b t b₂ t₂) : b₁ = b₂ ∧ t₁ = t₂ := by
  induction h₁ with
  | stop hne =>
      cases h₂ with
      | stop => exact ⟨rfl, rfl⟩
      | next heq => exact absurd heq hne
  | next heq _ ih =>
      cases h₂ with
      | stop hne => exact absurd heq hne
      | next _ hrest => exact ih hrest

/-- The texts of different names are stripped of the names that they share. -/
theorem strips_joinWith (hbs : ∀ s ∈ bs, IsName s) (hts : ∀ s ∈ ts, IsName s) (hne : bs ≠ ts) :
    Strips (Text.joinWith "/" bs) (Text.joinWith "/" ts)
      (Text.joinWith "/" (afterCommon bs ts).1) (Text.joinWith "/" (afterCommon bs ts).2) := by
  have hnil : cut (Text.joinWith "/" []) = ([], []) := rfl
  fun_induction afterCommon bs ts with
  | case1 bs s ts ih =>
      have hs := (hbs s List.mem_cons_self).no_slash
      refine .next (by rw [cut_joinWith hs, cut_joinWith hs]) ?_
      rw [cut_joinWith hs, cut_joinWith hs]
      exact ih (fun u hu => hbs u (List.mem_cons_of_mem _ hu)) (fun u hu => hts u (List.mem_cons_of_mem _ hu))
        fun heq => hne (by rw [heq])
  | case2 b bs t ts hdiffer =>
      refine .stop ?_
      rwa [cut_joinWith (hbs b List.mem_cons_self).no_slash, cut_joinWith (hts t List.mem_cons_self).no_slash]
  | case3 bs ts hends =>
      -- one of the texts has ended, and the next piece of the other is a name
      refine .stop ?_
      cases bs with
      | nil =>
          obtain ⟨t, ts, rfl⟩ := List.exists_cons_of_ne_nil hne.symm
          rw [hnil, cut_joinWith (hts t List.mem_cons_self).no_slash]
          exact (hts t List.mem_cons_self).ne_nil.symm
      | cons b bs =>
          cases ts with
          | nil =>
              rw [hnil, cut_joinWith (hbs b List.mem_cons_self).no_slash]
              exact (hbs b List.mem_cons_self).ne_nil
          | cons t ts => exact absurd rfl (hends b bs t ts rfl)

/-- The way up from all that is left of the base, and down what is left of the target. -/
def wayAfter (b t : Text) : Text :=
  if b = [] then t
  else
    let up : Text := (List.replicate (b.count 47 + 1) (Text.ofString "../")).flatten
    if t = [] then up.dropLast else up ++ t

/-- Going up is written as often as it is done, before the names. -/
theorem joinWith_replicate (n : Nat) (hns : ns ≠ []) :
    Text.joinWith "/" (List.replicate n (Text.ofString "..") ++ ns) =
      (List.replicate n (Text.ofString "../")).flatten ++ Text.joinWith "/" ns := by
  induction n with
  | zero => rfl
  | succ n ih =>
      rw [List.replicate_succ, List.cons_append, joinWith_cons _ (by simp [hns]), ih, List.replicate_succ,
        List.flatten_cons, List.append_assoc]
      rfl

/-- The way between two texts of names goes up from the one and down to the other. -/
theorem wayAfter_joinWith (hbs : ∀ s ∈ bs, IsName s) (hts : ∀ s ∈ ts, IsName s) :
    wayAfter (Text.joinWith "/" bs) (Text.joinWith "/" ts) = upAndDown bs ts := by
  have hup : bs.map (fun _ => Text.ofString "..") = List.replicate bs.length (Text.ofString "..") :=
    List.map_const'
  have hbnil := joinWith_eq_nil_iff fun s hs => (hbs s hs).ne_nil
  have htnil := joinWith_eq_nil_iff fun s hs => (hts s hs).ne_nil
  unfold wayAfter upAndDown
  rw [hup]
  by_cases hb : bs = []
  · rw [if_pos (hbnil.2 hb), hb]
    rfl
  rw [if_neg (mt hbnil.1 hb), count_joinWith (fun s hs => (hbs s hs).no_slash) hb]
  by_cases ht : ts = []
  · obtain ⟨n, hn⟩ := Nat.exists_eq_add_one_of_ne_zero (mt List.eq_nil_of_length_eq_zero hb)
    rw [if_pos (htnil.2 ht), ht, List.append_nil, hn, List.replicate_succ', List.replicate_succ',
      joinWith_replicate n (by simp), joinWith_singleton, List.flatten_concat,
      show Text.ofString "../" = Text.ofString ".." ++ [47] from by decide, ← List.append_assoc, List.dropLast_concat]
  · rw [if_neg (mt htnil.1 ht), joinWith_replicate _ ht]

/-- `r` is the way from one rooted path to another that is found from the cleaned texts. -/
inductive Finds (base target : Text) : Text → Prop where
  | here (h : clean base = clean target) : Finds base target "."
  | apart {b t : Text} (h : clean base ≠ clean target) (hstrips : Strips (clean base) (clean target) b t) :
      Finds base target (wayAfter b t)

/-- The search finds one way at most. -/
theorem Finds.unique {r₁ r₂ : Text} (h₁ : Finds p q r₁) (h₂ : Finds p q r₂) : r₁ = r₂ := by
  cases h₁ with
  | here heq =>
      cases h₂ with
      | here => rfl
      | apart hne => exact absurd heq hne
  | apart hne hstrips =>
      cases h₂ with
      | here heq => exact absurd heq hne
      | apart _ hstrips' =>
          obtain ⟨rfl, rfl⟩ := hstrips.unique hstrips'
          rfl

/-- Rooted paths are cleaned to the same path when their segments are the same. -/
theorem clean_eq_iff (hp : isRooted p = true) (hq : isRooted q = true) :
    clean p = clean q ↔ segments p = segments q := by
  rw [clean_of_isRooted hp, clean_of_isRooted hq]
  exact ⟨ofSegments_inj (fun _ => isName_of_mem_segments hp) fun _ => isName_of_mem_segments hq, congrArg _⟩

/-- What is left of two lists is part of them. -/
theorem mem_of_afterCommon :
    (∀ s ∈ (afterCommon bs ts).1, s ∈ bs) ∧ ∀ s ∈ (afterCommon bs ts).2, s ∈ ts := by
  obtain ⟨cs, hb, ht⟩ := afterCommon_spec bs ts
  constructor
  · intro s hs
    rw [hb]
    exact List.mem_append_right _ hs
  · intro s hs
    rw [ht]
    exact List.mem_append_right _ hs

/-- **The search by texts ends, and finds what the names of the paths tell.** -/
theorem rel?_finds (hp : isRooted p = true) (hq : isRooted q = true) : ∃ r, rel? p q = some r ∧ Finds p q r := by
  have hpname : ∀ s ∈ segments p, IsName s := fun _ => isName_of_mem_segments hp
  have hqname : ∀ s ∈ segments q, IsName s := fun _ => isName_of_mem_segments hq
  by_cases hne : clean p = clean q
  · exact ⟨_, if_pos hne, .here hne⟩
  · refine ⟨_, rel?_of_ne hp hq hne, ?_⟩
    rw [← wayAfter_joinWith (fun s hs => hpname s (mem_of_afterCommon.1 s hs))
      fun s hs => hqname s (mem_of_afterCommon.2 s hs)]
    refine .apart hne ?_
    rw [clean_of_isRooted hp, clean_of_isRooted hq, ofSegments, ofSegments, if_pos rfl, if_pos rfl]
    -- the piece before the first slash is empty in both
    have hcut : ∀ t : Text, cut (47 :: t) = ([], t) := fun t => cut_append (s := []) (by simp) t
    refine .next (by rw [hcut, hcut]) ?_
    rw [hcut, hcut]
    exact strips_joinWith hpname hqname (mt (clean_eq_iff hp hq).2 hne)

/-! ### Inside a directory -/

/-- What the paths below a cleaned directory begin with. -/
def below (dir : Text) : Text := if dir = Text.ofString "/" then dir else dir ++ Text.ofString "/"

/-- The target is the base or lies below it, when both are cleaned. -/
def Encloses (base target : Text) : Prop := clean target = clean base ∨ below (clean base) <+: clean target

instance (base target : Text) : Decidable (Encloses base target) :=
  inferInstanceAs (Decidable (clean target = clean base ∨ below (clean base) <+: clean target))

/-- The texts below a directory, by the names that lead down to them. -/
theorem ofSegments_append (hns : ∀ s ∈ ns, IsName s) (hms : ms ≠ []) :
    ofSegments true (ns ++ ms) = below (ofSegments true ns) ++ Text.joinWith "/" ms := by
  unfold below
  by_cases hnil : ns = []
  · rw [hnil, if_pos (by decide)]
    rfl
  · have hroot : ofSegments true ns ≠ Text.ofString "/" := fun heq =>
      hnil (ofSegments_inj hns (by simp) (heq.trans (by decide : Text.ofString "/" = ofSegments true [])))
    rw [if_neg hroot, ofSegments, ofSegments, if_pos rfl, if_pos rfl, joinWith_append hnil hms, List.append_assoc]
    rfl

/-- A path with more names lies below the path without them. -/
theorem clean_of_append (hp : isRooted p = true) (hq : isRooted q = true) (hms : ms ≠ [])
    (h : segments q = segments p ++ ms) : clean q = below (clean p) ++ Text.joinWith "/" ms := by
  rw [clean_of_isRooted hp, clean_of_isRooted hq, h, ofSegments_append (fun _ => isName_of_mem_segments hp) hms]

/-- A directory is shorter than what lies below it. -/
theorem length_lt_below (dir : Text) : dir.length < (below dir ++ Text.ofString "..").length := by
  have hdots : (Text.ofString "..").length = 2 := by decide
  unfold below
  split <;> simp only [List.length_append, hdots] <;> omega

/-- A text that begins like the paths below a directory has the names of the directory first. -/
theorem segments_prefix_of_below (hp : isRooted p = true) (hq : isRooted q = true)
    (h : below (clean p) <+: clean q) : segments p <+: segments q := by
  have hpname : ∀ s ∈ segments p, IsName s := fun _ => isName_of_mem_segments hp
  have hqname : ∀ s ∈ segments q, IsName s := fun _ => isName_of_mem_segments hq
  obtain ⟨rest, hrest⟩ := h
  by_cases hnil : segments p = []
  · rw [hnil]
    exact List.nil_prefix
  -- the pieces of the texts are the names, and `rest` begins behind a slash
  rw [clean_of_isRooted hp, clean_of_isRooted hq] at hrest
  have hpieces : rest.splitOn 47 ≠ [] := List.splitOnP_ne_nil _ rest
  have htext := ofSegments_append hpname hpieces
  rw [joinWith_splitOn, hrest, ofSegments, ofSegments, if_pos rfl, if_pos rfl, List.cons_inj_right] at htext
  have hne : segments q ≠ [] := by
    intro hq
    rw [hq, joinWith_append hnil hpieces] at htext
    simp [Text.joinWith] at htext
  have hslash : ∀ s ∈ segments p ++ rest.splitOn 47, 47 ∉ s := fun s hs =>
    (List.mem_append.1 hs).elim (fun hs => (hpname s hs).no_slash) no_slash_of_mem_splitOn
  have hsplit := congrArg (List.splitOn 47) htext
  rw [splitOn_joinWith (fun s hs => (hqname s hs).no_slash) hne, splitOn_joinWith hslash (by simp [hnil])] at hsplit
  exact ⟨_, hsplit⟩

/-- **Inside a directory are the paths whose names go on from those of the directory.** -/
theorem encloses_iff (hp : isRooted p = true) (hq : isRooted q = true) :
    Encloses p q ↔ segments p <+: segments q := by
  constructor
  · rintro (heq | hbelow)
    · exact (clean_eq_iff hq hp).1 heq ▸ List.prefix_rfl
    · exact segments_prefix_of_below hp hq hbelow
  · rintro ⟨ms, hms⟩
    by_cases hnil : ms = []
    · rw [hnil, List.append_nil] at hms
      exact .inl ((clean_eq_iff hq hp).2 hms.symm)
    · exact .inr ⟨_, (clean_of_append hp hq hnil hms.symm).symm⟩

/-- Nothing is left of a list that another one begins with. -/
theorem afterCommon_append (ns ms : List Text) : afterCommon ns (ns ++ ms) = ([], ms) := by
  induction ns with
  | nil => cases ms <;> rfl
  | cons s ns ih => rw [List.cons_append, afterCommon, if_pos rfl, ih]

/-- The way to a path inside is the names that lead down to it. -/
theorem rel?_of_append (hp : isRooted p = true) (hq : isRooted q = true) (h : segments q = segments p ++ ms) :
    rel? p q = some (if ms = [] then Text.ofString "." else Text.joinWith "/" ms) := by
  by_cases hnil : ms = []
  · rw [hnil, List.append_nil] at h
    rw [if_pos hnil, rel?, if_pos ((clean_eq_iff hp hq).2 h.symm)]
  · have hne : clean p ≠ clean q := fun heq => by
      have hsegments := (clean_eq_iff hp hq).1 heq
      rw [h, List.self_eq_append_right] at hsegments
      exact hnil hsegments
    rw [rel?_of_ne hp hq hne, h, afterCommon_append, if_neg hnil]
    rfl

/-- The path leads up before anything else. -/
def GoesUp (r : Text) : Prop := r = Text.ofString ".." ∨ Text.ofString "../" <+: r

instance (r : Text) : Decidable (GoesUp r) :=
  inferInstanceAs (Decidable (r = Text.ofString ".." ∨ Text.ofString "../" <+: r))

/-- A way that goes up has two dots for its first piece. -/
theorem head_of_goesUp {r : Text} (h : GoesUp r) : (r.splitOn 47).head? = some (Text.ofString "..") := by
  obtain rfl | ⟨rest, rfl⟩ := h
  · decide
  · have hslash : Text.ofString "../" ++ rest = Text.ofString ".." ++ 47 :: rest := rfl
    rw [hslash, splitOn_append_slash, splitOn_of_no_slash (by decide)]
    rfl

/-- A way down some names is no dot, and does not go up. -/
theorem joinWith_names (hms : ∀ s ∈ ms, IsName s) (hne : ms ≠ []) :
    Text.joinWith "/" ms ≠ Text.ofString "." ∧ ¬ GoesUp (Text.joinWith "/" ms) := by
  have hsplit := splitOn_joinWith (fun s hs => (hms s hs).no_slash) hne
  obtain ⟨s, ms, rfl⟩ := List.exists_cons_of_ne_nil hne
  have hs := hms s List.mem_cons_self
  constructor
  · intro hdot
    rw [hdot, splitOn_of_no_slash (by decide)] at hsplit
    exact hs.ne_dot (List.cons_eq_cons.1 hsplit).1.symm
  · intro hup
    have hhead := head_of_goesUp hup
    rw [hsplit] at hhead
    exact hs.ne_dots (Option.some.inj hhead)

/-- The way down to a path inside, and the way to any other. -/
theorem rel?_cases (hp : isRooted p = true) (hq : isRooted q = true) :
    (∃ ms, segments q = segments p ++ ms ∧ (∀ s ∈ ms, IsName s) ∧
      rel? p q = some (if ms = [] then Text.ofString "." else Text.joinWith "/" ms)) ∨
    ¬ segments p <+: segments q ∧ ∃ r, rel? p q = some r ∧ GoesUp r := by
  by_cases hinside : segments p <+: segments q
  · obtain ⟨ms, hms⟩ := hinside
    refine .inl ⟨ms, hms.symm, fun s hs => isName_of_mem_segments hq ?_, rel?_of_append hp hq hms.symm⟩
    rw [← hms]
    exact List.mem_append_right _ hs
  · obtain ⟨r, hr, hleaves⟩ := rel?_leaves hp hq hinside
    refine .inr ⟨hinside, r, hr, hleaves.imp_right ?_⟩
    rintro ⟨rest, rfl⟩
    exact ⟨rest, rfl⟩

/-- Two dots begin the way down from a directory to a path. -/
def Dotted (dir p : Text) : Prop := below (clean dir) ++ Text.ofString ".." <+: clean p

instance (dir p : Text) : Decidable (Dotted dir p) :=
  inferInstanceAs (Decidable (below (clean dir) ++ Text.ofString ".." <+: clean p))

theorem Dotted.encloses (h : Dotted p q) : Encloses p q := .inr ((List.prefix_append _ _).trans h)

/-- The way to a path inside tells whether the path is dotted. -/
theorem dotted_iff (hp : isRooted p = true) (hq : isRooted q = true) (h : segments q = segments p ++ ms) :
    Dotted p q ↔ Text.startsWith (if ms = [] then Text.ofString "." else Text.joinWith "/" ms) ".." = true := by
  by_cases hnil : ms = []
  · rw [hnil, List.append_nil] at h
    rw [if_pos hnil]
    refine iff_of_false (fun hdotted => ?_) (by decide)
    have hlength := hdotted.length_le
    rw [(clean_eq_iff hq hp).2 h] at hlength
    exact absurd (length_lt_below (clean p)) (Nat.not_lt.2 hlength)
  · rw [if_neg hnil, Dotted, clean_of_append hp hq hnil h, List.prefix_append_right_inj, Text.startsWith,
      List.isPrefixOf_iff_prefix]

/-- A way that goes up begins with two dots. -/
theorem GoesUp.startsWith {r : Text} (h : GoesUp r) : r.startsWith ".." = true := by
  obtain rfl | ⟨rest, rfl⟩ := h
  · decide
  · exact List.isPrefixOf_iff_prefix.2 ⟨47 :: rest, rfl⟩

/-- A way that goes up is no rooted path. -/
theorem GoesUp.not_isRooted {r : Text} (h : GoesUp r) : ¬ isRooted r = true := by
  intro hrooted
  obtain ⟨q, rfl⟩ := exists_cons_of_isRooted hrooted
  obtain ⟨q', hq'⟩ := List.isPrefixOf_iff_prefix.1 h.startsWith
  cases hq'

/-! ### Paths that are not rooted -/

/-- A piece that is kept was there, or is the new one. -/
theorem mem_push {rooted : Bool} {above : List Text} (h : s ∈ push rooted above t) : s ∈ above ∨ s = t ∧ t ≠ [] := by
  unfold push at h
  split at h
  · exact .inl h
  · rename_i hblank
    have hne : t ≠ [] := fun heq => hblank (by simp [heq])
    split at h
    · split at h
      · split at h
        · cases h
        · exact .inr ⟨List.mem_singleton.1 h, hne⟩
      · split at h
        · exact (List.mem_cons.1 h).elim (fun heq => .inr ⟨heq, hne⟩) .inl
        · exact .inl (List.mem_cons_of_mem _ h)
    · exact (List.mem_cons.1 h).elim (fun heq => .inr ⟨heq, hne⟩) .inl

/-- No segment of a path is empty or has a slash. -/
theorem segment_of_mem_segments (h : s ∈ segments p) : s ≠ [] ∧ 47 ∉ s := by
  have hfold : ∀ (pieces above : List Text), (∀ s ∈ above, s ≠ [] ∧ 47 ∉ s) → (∀ s ∈ pieces, 47 ∉ s) →
      ∀ s ∈ pieces.foldl (push (isRooted p)) above, s ≠ [] ∧ 47 ∉ s := by
    intro pieces
    induction pieces with
    | nil => exact fun above habove _ => habove
    | cons t pieces ih =>
        intro above habove hpieces
        obtain ⟨ht, hpieces⟩ := List.forall_mem_cons.1 hpieces
        refine ih _ (fun s hs => ?_) hpieces
        obtain hs | ⟨rfl, hne⟩ := mem_push hs
        · exact habove s hs
        · exact ⟨hne, ht⟩
  exact hfold _ [] (by simp) (fun _ => no_slash_of_mem_splitOn) s (List.mem_reverse.1 h)

/-- Cleaning a path that is not rooted leaves a first byte, which is no slash. -/
theorem clean_of_not_isRooted (h : isRooted p = false) : ∃ b q, clean p = b :: q ∧ b ≠ 47 := by
  unfold clean ofSegments
  rw [h, if_neg (by decide)]
  cases hp : segments p with
  | nil => exact ⟨46, [], rfl, by decide⟩
  | cons s ns =>
      obtain ⟨hne, hslash⟩ := segment_of_mem_segments (hp ▸ List.mem_cons_self)
      obtain ⟨b, s, rfl⟩ := List.exists_cons_of_ne_nil hne
      refine ⟨b, ?_⟩
      have hb : b ≠ 47 := fun heq => hslash (heq ▸ List.mem_cons_self)
      rw [List.isEmpty_cons, if_neg (by decide)]
      by_cases hns : ns = []
      · exact ⟨s, by rw [hns, joinWith_singleton], hb⟩
      · exact ⟨s ++ 47 :: Text.joinWith "/" ns, joinWith_cons _ hns, hb⟩

/-- No rooted path lies inside a directory whose path is not rooted, and no way leads to it from there. -/
theorem not_encloses_of_not_isRooted (hp : isRooted p = false) (hq : isRooted q = true) :
    ¬ Encloses p q ∧ rel? p q = none := by
  obtain ⟨b, rest, hclean, hb⟩ := clean_of_not_isRooted hp
  obtain ⟨q', hq'⟩ := exists_cons_of_isRooted (clean_of_isRooted hq ▸ isRooted_ofSegments (segments q))
  have hne : clean p ≠ clean q := fun heq => by
    rw [hclean, hq'] at heq
    exact hb (List.cons_eq_cons.1 heq).1
  constructor
  · rintro (heq | hbelow)
    · exact hne heq.symm
    · rw [hclean, hq'] at hbelow
      unfold below at hbelow
      split at hbelow
      · exact hb (List.cons_prefix_cons.1 hbelow).1
      · exact hb (List.cons_prefix_cons.1 hbelow).1
  · rw [rel?, if_neg hne, if_pos (by rw [hp, hq]; decide)]

end Path

/-! ### Files in memory -/

namespace Memory

variable {m : Memory} {base target p : Text}

open ModuleSystem.Path

/-- On Unix the way between two paths is found as it is. -/
theorem rel?_unix (hm : m.style = .unix) (p q : Text) : m.fileSystem.rel? p q = rel? p q := by
  obtain ⟨style, cwd, files⟩ := m
  obtain rfl : style = .unix := hm
  exact congrFun Option.map_id (rel? p q)

theorem isRooted_of_isAbs (hm : m.style = .unix) (h : m.style.isAbs p = true) : isRooted p = true := by
  rwa [hm] at h

/-- **The relative path between two absolute paths.**  The search by texts ends with it and with nothing else.  It
leads from the one path to the other; it is a dot if and only if both are the same, and it goes up if and only if
the target does not lie inside the base. -/
theorem way_between (hm : m.style = .unix) (hbase : m.style.isAbs base = true) (htarget : m.style.isAbs target = true) :
    ∃ r, m.fileSystem.rel? base target = some r ∧ (∀ r', Finds base target r' ↔ r' = r) ∧
      m.style.join [base, r] = clean target ∧
      (r = Text.ofString "." ↔ clean base = clean target) ∧ (GoesUp r ↔ ¬ Encloses base target) := by
  have hp := isRooted_of_isAbs hm hbase
  have hq := isRooted_of_isAbs hm htarget
  obtain ⟨r, hr, hfinds⟩ := rel?_finds hp hq
  have hjoin : m.style.join [base, r] = clean target := by
    obtain ⟨r', hr', hdescend⟩ := rel?_spec hp hq
    obtain rfl : r = r' := Option.some.inj (hr.symm.trans hr')
    rw [hm]
    refine (join_eq hp [r]).trans ?_
    rw [List.flatMap_singleton, hdescend, clean_of_isRooted hq]
  have hfound : ∀ r', Finds base target r' ↔ r' = r := fun r' => ⟨fun h => h.unique hfinds, fun h => h ▸ hfinds⟩
  refine ⟨r, (rel?_unix hm base target).trans hr, hfound, hjoin, ?_⟩
  rw [clean_eq_iff hp hq, encloses_iff hp hq]
  obtain ⟨ms, hms, hnames, hway⟩ | ⟨houtside, r', hr', hup⟩ := rel?_cases hp hq
  · obtain rfl := Option.some.inj (hr.symm.trans hway)
    rw [hms, List.self_eq_append_right]
    by_cases hnil : ms = []
    · rw [if_pos hnil]
      exact ⟨iff_of_true rfl hnil, iff_of_false (by decide) (not_not.2 (List.prefix_append _ _))⟩
    · obtain ⟨hdot, hgoes⟩ := joinWith_names hnames hnil
      rw [if_neg hnil]
      exact ⟨iff_of_false hdot hnil, iff_of_false hgoes (not_not.2 (List.prefix_append _ _))⟩
  · obtain rfl := Option.some.inj (hr.symm.trans hr')
    refine ⟨iff_of_false ?_ fun heq => houtside (heq ▸ List.prefix_rfl), iff_of_true hup houtside⟩
    rintro rfl
    exact absurd hup (by decide)

/-- Two paths that are not clean, with a name that begins with the name of the directory. -/
theorem way_between_neighbours :
    let m : Memory := ⟨.unix, "/", []⟩
    m.style.isAbs "/a//x/../b" = true ∧ m.style.isAbs "/a/./bc/d" = true ∧
      m.fileSystem.rel? "/a//x/../b" "/a/./bc/d" = some (Text.ofString "../bc/d") ∧
      m.style.join ["/a//x/../b", "../bc/d"] = clean "/a/./bc/d" ∧ ¬ Encloses "/a//x/../b" "/a/./bc/d" := by
  intro m
  have hway : m.fileSystem.rel? "/a//x/../b" "/a/./bc/d" = some (Text.ofString "../bc/d") := by decide
  have hbase : m.style.isAbs "/a//x/../b" = true := by decide
  have htarget : m.style.isAbs "/a/./bc/d" = true := by decide
  obtain ⟨r, hr, -, hjoin, -, hup⟩ := way_between rfl hbase htarget
  obtain rfl := Option.some.inj (hway.symm.trans hr)
  exact ⟨hbase, htarget, hway, hjoin, hup.1 (by decide)⟩

/-! ### Paths in messages -/

/-- On Unix a path is shown as the way from the working directory, unless the way begins with two dots. -/
theorem prettyPath_unix (hm : m.style = .unix) (p : Text) :
    m.fileSystem.prettyPath p = match m.fileSystem.rel? m.fileSystem.cwd p with
      | some r => if r.startsWith ".." then p else r
      | none => p := by
  obtain ⟨style, cwd, files⟩ := m
  obtain rfl : style = .unix := hm
  rfl

/-- **How messages show an absolute path.**  Unless two dots begin the way down to it, it is shown relative to the
working directory if it lies inside, and only then; it is shown as it is given otherwise.  With two dots at the
beginning of the way down it is shown as it is given, although it lies inside. -/
theorem shown_relative_unless_dotted (hm : m.style = .unix) (hp : m.style.isAbs p = true) :
    let fs := m.fileSystem
    (¬ Dotted fs.cwd p → (fs.rel? fs.cwd p = some (fs.prettyPath p) ↔ Encloses fs.cwd p) ∧
      (¬ Encloses fs.cwd p → fs.prettyPath p = p)) ∧
    (Dotted fs.cwd p → Encloses fs.cwd p ∧ fs.prettyPath p = p) := by
  intro fs
  have hq := isRooted_of_isAbs hm hp
  have hrel : fs.rel? fs.cwd p = rel? fs.cwd p := rel?_unix hm fs.cwd p
  have hshown : fs.prettyPath p = _ := prettyPath_unix hm p
  cases hcwd : isRooted fs.cwd with
  | false =>
      obtain ⟨houtside, hnone⟩ := not_encloses_of_not_isRooted hcwd hq
      rw [hnone] at hrel
      rw [hrel] at hshown
      exact ⟨fun _ => ⟨iff_of_false (by rw [hrel]; simp) houtside, fun _ => hshown⟩,
        fun hdotted => absurd hdotted.encloses houtside⟩
  | true =>
      obtain ⟨ms, hms, -, hway⟩ | ⟨houtside, r, hr, hup⟩ := rel?_cases hcwd hq
      · have hinside := (encloses_iff hcwd hq).2 (hms ▸ List.prefix_append _ _)
        rw [hway] at hrel
        rw [hrel] at hshown
        dsimp only at hshown
        have hdots := dotted_iff hcwd hq hms
        refine ⟨fun hdotted => ⟨iff_of_true ?_ hinside, (absurd hinside ·)⟩, fun hdotted => ⟨hinside, ?_⟩⟩
        · rw [hrel, hshown, if_neg (mt hdots.2 hdotted)]
        · rw [hshown, if_pos (hdots.1 hdotted)]
      · rw [← encloses_iff hcwd hq] at houtside
        rw [hr] at hrel
        rw [hrel] at hshown
        dsimp only at hshown
        rw [if_pos hup.startsWith] at hshown
        have hne : r ≠ p := fun heq => hup.not_isRooted (heq ▸ hq)
        exact ⟨fun _ => ⟨iff_of_false (by rw [hrel, hshown]; simpa using hne) houtside, fun _ => hshown⟩,
          fun hdotted => absurd hdotted.encloses houtside⟩

/-- A hidden file below a working directory that is not given clean. -/
theorem shown_relative_unless_dotted_hidden :
    let fs := (⟨.unix, "/a/x/..", []⟩ : Memory).fileSystem
    PathStyle.unix.isAbs "/a//.b/..c" = true ∧ ¬ Dotted fs.cwd "/a//.b/..c" ∧ Encloses fs.cwd "/a//.b/..c" ∧
      fs.rel? fs.cwd "/a//.b/..c" = some (fs.prettyPath "/a//.b/..c") ∧
      fs.prettyPath "/a//.b/..c" = Text.ofString ".b/..c" := by
  intro fs
  have hdotted : ¬ Dotted fs.cwd "/a//.b/..c" := by decide
  have hinside : Encloses fs.cwd "/a//.b/..c" := by decide
  have hshown := (shown_relative_unless_dotted (m := ⟨.unix, "/a/x/..", []⟩) (p := "/a//.b/..c") rfl (by decide)).1
  exact ⟨by decide, hdotted, hinside, (hshown hdotted).1.2 hinside, by decide⟩

/-- A name that begins with two dots leads down and not up, but the path is not shown relative. -/
theorem dotted_name_shown_in_full :
    let fs := (⟨.unix, "/a", []⟩ : Memory).fileSystem
    PathStyle.unix.isAbs "/a/..b" = true ∧ Encloses fs.cwd "/a/..b" ∧
      fs.rel? fs.cwd "/a/..b" = some (Text.ofString "..b") ∧ fs.prettyPath "/a/..b" = Text.ofString "/a/..b" := by
  decide

end Memory

end ModuleSystem
