import Mathlib.Data.List.Induction
import ModuleSystem.Path
import ModuleSystem.Proofs.Text.Lists

/-!
# Paths as lists of names

A rooted path leads from the root down some names: `Path.ofSegments true` writes the names, and
`Path.segments` reads them again (`segments_ofSegments`), whatever empty segments and dots stand between
them.  `descend ns ps` is where some pieces lead from the names `ns`, and the operations on paths are this
and nothing else: `join_eq`, `dir_ofSegments`, `base_ofSegments`.

* `rel?_spec`: the path from one place to another leads there.
* `rel?_leaves`: the path to a place that is not below starts by going up.
-/

namespace ModuleSystem.Path

/-- A segment that names an entry of a directory. -/
structure IsName (s : Text) : Prop where
  ne_nil : s ≠ []
  ne_dot : s ≠ Text.ofString "."
  ne_dots : s ≠ Text.ofString ".."
  no_slash : 47 ∉ s

variable {p q s : Text} {ns ms ps above : List Text} {rooted : Bool}

/-! ### Pieces between slashes -/

theorem splitOn_append_slash (p q : Text) : (p ++ 47 :: q).splitOn 47 = p.splitOn 47 ++ q.splitOn 47 :=
  List.splitOnP_append_cons p q (by simp)

/-- A text without a slash is one piece. -/
theorem splitOn_of_no_slash (h : 47 ∉ p) : p.splitOn 47 = [p] :=
  List.splitOnP_eq_singleton fun b hb => by
    simpa using fun heq : b = 47 => h (heq ▸ hb)

theorem splitOn_joinWith (h : ∀ s ∈ ns, 47 ∉ s) (hne : ns ≠ []) : (Text.joinWith "/" ns).splitOn 47 = ns :=
  List.splitOn_intercalate 47 h hne

theorem joinWith_singleton (s : Text) : Text.joinWith "/" [s] = s := by simp [Text.joinWith]

/-- The first name stands before a slash and the other names. -/
theorem joinWith_cons (s : Text) (hne : ns ≠ []) : Text.joinWith "/" (s :: ns) = s ++ 47 :: Text.joinWith "/" ns := by
  obtain ⟨t, ns, rfl⟩ := List.exists_cons_of_ne_nil hne
  rw [Text.joinWith, List.intercalate_cons_cons, List.append_assoc]
  rfl

/-- Two lists of names have a slash between them. -/
theorem joinWith_append (hns : ns ≠ []) (hms : ms ≠ []) :
    Text.joinWith "/" (ns ++ ms) = Text.joinWith "/" ns ++ 47 :: Text.joinWith "/" ms := by
  induction ns with
  | nil => exact absurd rfl hns
  | cons s ns ih =>
      cases ns with
      | nil => rw [List.singleton_append, joinWith_cons s hms, joinWith_singleton]
      | cons t ns =>
          rw [List.cons_append, joinWith_cons s (by simp), ih (by simp), joinWith_cons s (by simp),
            List.append_assoc, List.cons_append]

/-- Paths that are joined with slashes are split into the pieces of each. -/
theorem splitOn_joinWith_flatMap (hne : ns ≠ []) :
    (Text.joinWith "/" ns).splitOn 47 = ns.flatMap (·.splitOn 47) := by
  induction ns with
  | nil => exact absurd rfl hne
  | cons p ps ih =>
      cases ps with
      | nil => rw [joinWith_singleton, List.flatMap_singleton]
      | cons q ps =>
          rw [joinWith_cons p (by simp), splitOn_append_slash, ih (by simp)]
          rfl

theorem no_slash_of_mem_splitOn (h : s ∈ p.splitOn 47) : 47 ∉ s := Text.notMem_of_mem_splitOn h

/-- A path has one piece more than bytes at most. -/
theorem length_splitOn_le (p : Text) : (p.splitOn 47).length ≤ p.length + 1 := by
  induction p with
  | nil => simp
  | cons b p ih =>
      rw [List.splitOn, List.splitOnP_cons_eq_if_modifyHead]
      rw [List.splitOn] at ih
      split <;> simp <;> omega

/-! ### Walking down -/

/-- Where pieces lead from the names of a directory. -/
def descend (ns ps : List Text) : List Text := (ps.foldl (push true) ns.reverse).reverse

@[simp] theorem descend_nil (ns : List Text) : descend ns [] = ns := by simp [descend]

theorem descend_append (ns ps qs : List Text) : descend ns (ps ++ qs) = descend (descend ns ps) qs := by
  simp [descend]

theorem push_name (h : IsName s) : push rooted above s = s :: above := by
  simp [push, h.ne_nil, h.ne_dot, h.ne_dots]

/-- An empty piece leads nowhere. -/
@[simp] theorem push_nil (above : List Text) : push rooted above [] = above := by simp [push]

/-- Names are gone into one after the other. -/
theorem descend_names (h : ∀ s ∈ ms, IsName s) (ns : List Text) : descend ns ms = ns ++ ms := by
  induction ms generalizing ns with
  | nil => simp
  | cons s ms ih =>
      have hs : descend ns [s] = ns ++ [s] := by simp [descend, push_name (h s (by simp))]
      rw [← List.singleton_append, descend_append, hs, ih fun t ht => h t (by simp [ht]), List.append_assoc]

/-- A dot leads nowhere. -/
@[simp] theorem descend_dot (ns : List Text) : descend ns [Text.ofString "."] = ns := by simp [descend, push]

/-- Going up leaves the last name. -/
theorem descend_dots (ns : List Text) (hns : ∀ s ∈ ns, IsName s) :
    descend ns [Text.ofString ".."] = ns.dropLast := by
  have hdots : push true ns.reverse (Text.ofString "..") = ns.reverse.tail := by
    cases hr : ns.reverse with
    | nil => rfl
    | cons s rest =>
        have hs : s ≠ Text.ofString ".." := (hns s (List.mem_reverse.1 (by simp [hr]))).ne_dots
        have hne : Text.ofString ".." ≠ [] ∧ Text.ofString ".." ≠ Text.ofString "." := by decide
        simp [push, hs, hne.1, hne.2]
  simp [descend, hdots, List.tail_reverse]

/-- Pieces lead to names of a kind if they are names of that kind, or mean nothing. -/
theorem descend_induct {P : Text → Prop} (hns : ∀ s ∈ ns, P s)
    (hps : ∀ s ∈ ps, s ≠ [] → s ≠ Text.ofString "." → s ≠ Text.ofString ".." → P s) :
    ∀ s ∈ descend ns ps, P s := by
  induction ps generalizing ns with
  | nil => simpa using hns
  | cons t ps ih =>
      rw [← List.singleton_append, descend_append]
      refine ih (fun s hs => ?_) fun s hs => hps s (by simp [hs])
      -- a piece adds itself or takes a name away, and two dots stay only above other dots
      have hpush : ∀ s ∈ push true ns.reverse t, P s := by
        intro s hs
        unfold push at hs
        split at hs
        · exact hns s (by simpa using hs)
        · rename_i hblank
          simp only [Bool.or_eq_true, decide_eq_true_eq, not_or] at hblank
          split at hs
          · rename_i hup
            split at hs
            · simp at hs
            · rename_i hr
              split at hs
              · rename_i hdots
                obtain rfl | hs := List.mem_cons.1 hs
                · exact hns _ (List.mem_reverse.1 (by simp [hr, hdots, hup]))
                · exact hns s (by simpa using hs)
              · exact hns s (List.mem_reverse.1 (by simp [hr, hs]))
          · rename_i hdots
            obtain rfl | hs := List.mem_cons.1 hs
            · exact hps s (by simp) hblank.1 hblank.2 hdots
            · exact hns s (by simpa using hs)
      exact hpush s (by simpa [descend] using hs)

/-- Whatever is walked down, one comes to names. -/
theorem descend_isName (hns : ∀ s ∈ ns, IsName s) (hps : ∀ s ∈ ps, 47 ∉ s) :
    ∀ s ∈ descend ns ps, IsName s :=
  descend_induct hns fun s hs h₁ h₂ h₃ => ⟨h₁, h₂, h₃, hps s hs⟩

/-- One does not come deeper than there are pieces. -/
theorem length_descend_le (ns ps : List Text) : (descend ns ps).length ≤ ns.length + ps.length := by
  induction ps generalizing ns with
  | nil => simp
  | cons t ps ih =>
      have hone : (descend ns [t]).length ≤ ns.length + 1 := by
        simp only [descend, List.foldl_cons, List.foldl_nil, List.length_reverse, push]
        rw [← show ns.reverse.length = ns.length from List.length_reverse]
        split
        · omega
        · split
          · split
            · simp
            · rename_i hr
              split
              · simp [hr]
              · simp [hr]
                omega
          · simp
      rw [← List.singleton_append, descend_append]
      have := ih (descend ns [t])
      simp only [List.singleton_append, List.length_cons]
      omega

/-! ### Rooted paths -/

theorem segments_of_isRooted (h : isRooted p = true) : segments p = descend [] (p.splitOn 47) := by
  simp [segments, descend, h]

/-- The segments of a rooted path are names. -/
theorem isName_of_mem_segments (h : isRooted p = true) (hs : s ∈ segments p) : IsName s := by
  rw [segments_of_isRooted h] at hs
  exact descend_isName (by simp) (fun _ => no_slash_of_mem_splitOn) s hs

/-- A rooted path has no more segments than bytes, and one. -/
theorem length_segments_le (h : isRooted p = true) : (segments p).length ≤ p.length + 1 := by
  rw [segments_of_isRooted h]
  have := length_descend_le [] (p.splitOn 47)
  have := length_splitOn_le p
  simp only [List.length_nil] at *
  omega

@[simp] theorem isRooted_cons_slash (p : Text) : isRooted (47 :: p) = true := by
  simp [isRooted, Text.startsWith, Text.ofString, String.utf8EncodeChar]

@[simp] theorem isRooted_ofSegments (ns : List Text) : isRooted (ofSegments true ns) = true := by
  simp [ofSegments]

/-- A rooted path starts with a slash. -/
theorem exists_cons_of_isRooted (h : isRooted p = true) : ∃ q, p = 47 :: q := by
  obtain ⟨q, hq⟩ := List.isPrefixOf_iff_prefix.1 h
  exact ⟨q, hq.symm⟩

/-- A rooted path stays rooted with anything behind it. -/
theorem isRooted_append (h : isRooted p = true) (q : Text) : isRooted (p ++ q) = true := by
  obtain ⟨p, rfl⟩ := exists_cons_of_isRooted h
  simp

/-- What is written is read. -/
theorem segments_ofSegments (h : ∀ s ∈ ns, IsName s) : segments (ofSegments true ns) = ns := by
  rw [segments_of_isRooted (isRooted_ofSegments ns)]
  have hsplit : (ofSegments true ns).splitOn 47 = [] :: (Text.joinWith "/" ns).splitOn 47 := by
    simp only [ofSegments, if_true]
    exact splitOn_append_slash [] _
  rw [hsplit]
  cases ns with
  | nil => simp [descend, Text.joinWith]
  | cons s ns =>
      rw [splitOn_joinWith (fun t ht => (h t ht).no_slash) (by simp)]
      exact (descend_append [] [[]] _).trans (descend_names h _)

/-- Different names make different rooted paths. -/
theorem ofSegments_inj (hns : ∀ s ∈ ns, IsName s) (hms : ∀ s ∈ ms, IsName s)
    (h : ofSegments true ns = ofSegments true ms) : ns = ms := by
  rw [← segments_ofSegments hns, h, segments_ofSegments hms]

theorem clean_of_isRooted (h : isRooted p = true) : clean p = ofSegments true (segments p) := by
  rw [clean, h]

theorem segments_clean (h : isRooted p = true) : segments (clean p) = segments p := by
  rw [clean_of_isRooted h, segments_ofSegments fun _ => isName_of_mem_segments h]

/-- A joined path leads down from its first part. -/
theorem join_eq (h : isRooted p = true) (ps : List Text) :
    join (p :: ps) = ofSegments true (descend (segments p) (ps.flatMap (·.splitOn 47))) := by
  have hp : p ≠ [] := by
    rintro rfl
    cases h
  -- pieces of parts that are left out lead nowhere
  have hfilter : ∀ (ps : List Text) (above : List Text),
      ((ps.filter fun p => !p.isEmpty).flatMap (·.splitOn 47)).foldl (push true) above =
        (ps.flatMap (·.splitOn 47)).foldl (push true) above := by
    intro ps
    induction ps with
    | nil => simp
    | cons q ps ih =>
        intro above
        cases q with
        | nil => simp [ih]
        | cons b q => simp [ih]
  have hrooted : isRooted (Text.joinWith "/" (p :: ps.filter fun p => !p.isEmpty)) = true := by
    cases hps : ps.filter fun p => !p.isEmpty with
    | nil => rwa [joinWith_singleton]
    | cons q qs =>
        rw [joinWith_cons p (by simp)]
        exact isRooted_append h _
  rw [join, List.filter_cons_of_pos (by simpa using hp), clean_of_isRooted hrooted,
    segments_of_isRooted hrooted, splitOn_joinWith_flatMap (by simp), List.flatMap_cons, descend_append,
    ← segments_of_isRooted h, descend, hfilter]
  rfl

/-! ### Directories and last names -/

/-- A path with a last name is a path, a slash and the name. -/
theorem ofSegments_concat (ns : List Text) (s : Text) :
    ∃ q, ofSegments true (ns ++ [s]) = q ++ 47 :: s ∧
      q ++ [47] = (if ns = [] then [47] else ofSegments true ns ++ [47]) := by
  cases ns with
  | nil => exact ⟨[], by simp [ofSegments, Text.joinWith], rfl⟩
  | cons t ns =>
      refine ⟨ofSegments true (t :: ns), ?_, by simp⟩
      simp only [ofSegments, if_true]
      rw [joinWith_append (by simp) (by simp), joinWith_singleton, List.cons_append]

/-- The last slash is the one before the last name. -/
theorem lastIdxOf?_slash (hs : 47 ∉ s) (q : Text) : Text.lastIdxOf? 47 (q ++ 47 :: s) = some q.length := by
  have hidx : ∀ t : Text, 47 ∉ t → ∀ u : Text, (t ++ 47 :: u).idxOf? 47 = some t.length := by
    intro t
    induction t with
    | nil => simp [List.idxOf?_cons]
    | cons b t ih =>
        intro ht u
        have hb : b ≠ 47 := fun heq => ht (by simp [heq])
        rw [List.cons_append, List.idxOf?_cons, if_neg (by simpa using hb), ih (fun h => ht (by simp [h]))]
        rfl
  have hrev := hidx s.reverse (by simpa using hs) q.reverse
  simp only [Text.lastIdxOf?, List.reverse_append, List.reverse_cons, List.append_assoc, List.singleton_append,
    hrev, Option.map_some, List.length_append, List.length_cons, List.length_reverse]
  congr 1
  omega

/-- The directory of a path is what stands before its last slash. -/
theorem dir_append_slash (hs : 47 ∉ s) (q : Text) : dir (q ++ 47 :: s) = clean (q ++ [47]) := by
  rw [dir, lastIdxOf?_slash hs]
  have htake : (q ++ 47 :: s).take (q.length + 1) = q ++ [47] := by
    rw [List.take_append, List.take_of_length_le (by omega)]
    simp
  simp only [htake]

/-- A slash at the end adds no segment. -/
theorem segments_append_slash (h : isRooted p = true) : segments (p ++ [47]) = segments p := by
  have hempty : ([] : Text).splitOn 47 = [[]] := by simp
  rw [segments_of_isRooted (isRooted_append h _), splitOn_append_slash, descend_append, hempty,
    segments_of_isRooted h]
  simp [descend]

/-- The directory of a rooted path has all names but the last. -/
theorem dir_ofSegments (hns : ∀ t ∈ ns, IsName t) (hs : 47 ∉ s) :
    dir (ofSegments true (ns ++ [s])) = ofSegments true ns := by
  obtain ⟨q, hq, hdir⟩ := ofSegments_concat ns s
  rw [hq, dir_append_slash hs, hdir]
  split
  · subst_vars
    rfl
  · rw [clean_of_isRooted (isRooted_append (isRooted_ofSegments ns) _),
      segments_append_slash (isRooted_ofSegments ns), segments_ofSegments hns]

theorem dir_root : dir (ofSegments true []) = ofSegments true [] := rfl

/-- The base of a rooted path is its last name. -/
theorem base_ofSegments (hne : s ≠ []) (hs : 47 ∉ s) : base (ofSegments true (ns ++ [s])) = s := by
  obtain ⟨q, hq, -⟩ := ofSegments_concat ns s
  have hlast : ∀ b ∈ s.reverse, b ≠ 47 := fun b hb heq => hs (List.mem_reverse.1 (heq ▸ hb))
  have hdrop : (s.reverse ++ 47 :: q.reverse).dropWhile (· = 47) = s.reverse ++ 47 :: q.reverse := by
    cases hr : s.reverse with
    | nil => exact absurd (List.reverse_eq_nil_iff.1 hr) hne
    | cons b rest =>
        rw [List.cons_append, List.dropWhile_cons_of_neg (by simpa using hlast b (by simp [hr]))]
  have htake : (s.reverse ++ 47 :: q.reverse).takeWhile (· ≠ 47) = s.reverse := by
    rw [List.takeWhile_append_of_pos fun b hb => decide_eq_true (hlast b hb)]
    simp
  rw [hq, base, if_neg (by simp)]
  simp only [List.reverse_append, List.reverse_cons, List.append_assoc, List.singleton_append, hdrop, htake]
  split
  · rename_i hnil
    exact absurd (List.reverse_eq_nil_iff.1 hnil) hne
  · exact List.reverse_reverse s

/-- The directory of a rooted path is a beginning of the path, cleaned. -/
theorem dir_of_isRooted (h : isRooted p = true) : ∃ u, u <+: p ∧ isRooted u = true ∧ dir p = clean u := by
  obtain ⟨q, rfl⟩ := exists_cons_of_isRooted h
  obtain ⟨i, hi⟩ : ∃ i, Text.lastIdxOf? 47 (47 :: q) = some i := by
    cases hidx : ((47 :: q : Text).reverse).idxOf? 47 with
    | none => simp [List.idxOf?_eq_none_iff] at hidx
    | some i => exact ⟨_, by rw [Text.lastIdxOf?, hidx]; rfl⟩
  exact ⟨(47 :: q).take (i + 1), List.take_prefix _ _, by simp, by rw [dir, hi]⟩

/-! ### The way from one place to another -/

/-- What two lists begin with alike is left out of both. -/
theorem afterCommon_spec (bs ts : List Text) :
    ∃ cs, bs = cs ++ (afterCommon bs ts).1 ∧ ts = cs ++ (afterCommon bs ts).2 := by
  fun_induction afterCommon bs ts with
  | case1 bs t ts ih =>
      obtain ⟨cs, h₁, h₂⟩ := ih
      exact ⟨t :: cs, by rw [List.cons_append, ← h₁], by rw [List.cons_append, ← h₂]⟩
  | case2 b bs t ts hne => exact ⟨[], rfl, rfl⟩
  | case3 bs ts _ => exact ⟨[], rfl, rfl⟩

/-- Up from all of the names `bs`, and down the names `ts`. -/
theorem descend_upAndDown (hns : ∀ s ∈ ns, IsName s) (hbs : ∀ s ∈ ms, IsName s) (hts : ∀ s ∈ ps, IsName s) :
    descend (ns ++ ms) (ms.map (fun _ => Text.ofString "..") ++ ps) = ns ++ ps := by
  induction ms using List.reverseRecOn with
  | nil => simpa using descend_names hts ns
  | append_singleton ms s ih =>
      have hms : ∀ t ∈ ms, IsName t := fun t ht => hbs t (by simp [ht])
      have hall : ∀ t ∈ ns ++ (ms ++ [s]), IsName t := by
        intro t ht
        obtain ht | ht := List.mem_append.1 ht
        · exact hns t ht
        · exact hbs t ht
      have hcomm : (ms ++ [s]).map (fun _ => Text.ofString "..") =
          [Text.ofString ".."] ++ ms.map (fun _ => Text.ofString "..") := by
        simp [List.map_const', ← List.replicate_succ', List.replicate_succ]
      rw [hcomm, List.append_assoc, descend_append, descend_dots _ hall, ← List.append_assoc,
        List.dropLast_concat, ih hms]

/-- The way between different places goes up and down, from names to names. -/
theorem rel?_of_ne (hp : isRooted p = true) (hq : isRooted q = true) (hne : clean p ≠ clean q) :
    rel? p q = some (upAndDown (afterCommon (segments p) (segments q)).1 (afterCommon (segments p) (segments q)).2) := by
  rw [rel?, if_neg hne, if_neg (by rw [hp, hq]; simp), show written q = segments q by simp [written, hq]]

/-- **The relative path leads from one place to the other.** -/
theorem rel?_spec (hp : isRooted p = true) (hq : isRooted q = true) :
    ∃ r, rel? p q = some r ∧ descend (segments p) (r.splitOn 47) = segments q := by
  by_cases heq : clean p = clean q
  · refine ⟨_, if_pos heq, ?_⟩
    have hsplit : (Text.ofString ".").splitOn 47 = [Text.ofString "."] := by decide
    rw [hsplit, descend_dot, ← segments_clean hp, heq, segments_clean hq]
  · rw [rel?_of_ne hp hq heq]
    obtain ⟨cs, hbs, hts⟩ := afterCommon_spec (segments p) (segments q)
    generalize afterCommon (segments p) (segments q) = rest at hbs hts
    obtain ⟨bs, ts⟩ := rest
    dsimp only at hbs hts ⊢
    refine ⟨_, rfl, ?_⟩
    have hpname : ∀ s ∈ segments p, IsName s := fun _ => isName_of_mem_segments hp
    have hqname : ∀ s ∈ segments q, IsName s := fun _ => isName_of_mem_segments hq
    rw [hbs] at hpname
    rw [hts] at hqname
    have hpieces : ∀ s ∈ bs.map (fun _ => Text.ofString "..") ++ ts, 47 ∉ s := by
      intro s hs
      obtain hs | hs := List.mem_append.1 hs
      · obtain ⟨_, -, rfl⟩ := List.mem_map.1 hs
        decide
      · exact (hqname s (by simp [hs])).no_slash
    -- the paths differ, so the way between them has a piece
    have hnonempty : bs.map (fun _ => Text.ofString "..") ++ ts ≠ [] := by
      intro hnil
      obtain ⟨hbs', rfl⟩ := List.append_eq_nil_iff.1 hnil
      obtain rfl := List.map_eq_nil_iff.1 hbs'
      exact heq (by rw [clean_of_isRooted hp, clean_of_isRooted hq, hbs, hts])
    rw [upAndDown, splitOn_joinWith hpieces hnonempty, hbs, hts]
    exact descend_upAndDown (fun s hs => hpname s (by simp [hs])) (fun s hs => hpname s (by simp [hs]))
      fun s hs => hqname s (by simp [hs])

/-- The way to a place that does not lie below starts by going up. -/
theorem rel?_leaves (hp : isRooted p = true) (hq : isRooted q = true) (h : ¬ segments p <+: segments q) :
    ∃ r, rel? p q = some r ∧ (r = Text.ofString ".." ∨ ∃ rest, r = Text.ofString ".." ++ 47 :: rest) := by
  have hne : clean p ≠ clean q := by
    intro heq
    have hsegments := congrArg segments heq
    rw [segments_clean hp, segments_clean hq] at hsegments
    exact h (hsegments ▸ List.prefix_rfl)
  rw [rel?_of_ne hp hq hne]
  obtain ⟨cs, hbs, hts⟩ := afterCommon_spec (segments p) (segments q)
  generalize afterCommon (segments p) (segments q) = rest at hbs hts
  obtain ⟨bs, ts⟩ := rest
  refine ⟨_, rfl, ?_⟩
  cases bs with
  | nil =>
      rw [List.append_nil] at hbs
      exact absurd ⟨ts, by rw [hts, hbs]⟩ h
  | cons b bs =>
      simp only [upAndDown, List.map_cons, List.cons_append]
      cases hrest : bs.map (fun _ => Text.ofString "..") ++ ts with
      | nil => exact .inl (joinWith_singleton _)
      | cons t ts => exact .inr ⟨Text.joinWith "/" (t :: ts), joinWith_cons _ (by simp)⟩

end ModuleSystem.Path
