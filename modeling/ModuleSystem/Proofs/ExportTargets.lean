import Mathlib.Data.Set.Subsingleton
import ModuleSystem.Graph.Export

/-!
# What an exported name stands for, without the search

`Graph.resolve` searches, and cuts a way short when it comes back to a place it has been.  Here the
meaning of a name is a set: the least set that contains what a module gives for the name itself, and
whatever the names stand for that it passes the question on to (`Graph.targets`).

* `follow_describes`: a search that has to keep off the places of `way` finds the targets that can
  be reached without them.
* `foundOff_iff`: keeping off the place one starts from loses no target.  A way that comes back to
  that place can as well begin at its last visit there.
* `resolve_targets`: the search finds a target exactly when it is the only one, misses exactly when
  there is none, and calls the name ambiguous exactly when there are several, in every graph.
-/

namespace ModuleSystem

namespace Graph

/-- A module itself says what a name stands for: it exports a variable under that name or, when it
does not, the first export it passes on under that name is the namespace of another module. -/
inductive Gives (g : Graph) : ModuleId × Text → Target → Prop where
  | slot {m : ModuleId} {name : Text} (h : g.exportsLocally m name) :
      Gives g (m, name) (.slot m name)
  | whole {m : ModuleId} {name : Text} {e : ReExport} (h : ¬ g.exportsLocally m name)
      (he : g.reExport? m name = some e) (hs : e.importName = Interface.star) :
      Gives g (m, name) (.whole (g.dep m e.record))

/-- A module passes the question for a name on: to the module and the name of the first export it
passes on under that name or, when it has none, to every module of which it passes all exports on.
Star exports provide no default export. -/
inductive Passes (g : Graph) : ModuleId × Text → ModuleId × Text → Prop where
  | reExport {m : ModuleId} {name : Text} {e : ReExport} (h : ¬ g.exportsLocally m name)
      (he : g.reExport? m name = some e) (hs : e.importName ≠ Interface.star) :
      Passes g (m, name) (g.dep m e.record, e.importName)
  | star {m d : ModuleId} {name : Text} (h : ¬ g.exportsLocally m name)
      (he : g.reExport? m name = none) (hn : name ≠ Interface.defaultName) (hd : d ∈ g.stars m) :
      Passes g (m, name) (d, name)

/-- A name asked of a module stands for a target. -/
inductive StandsFor (g : Graph) : ModuleId × Text → Target → Prop where
  | here {p : ModuleId × Text} {t : Target} (h : g.Gives p t) : StandsFor g p t
  | onward {p q : ModuleId × Text} {t : Target} (h : g.Passes p q) (ht : StandsFor g q t) :
      StandsFor g p t

/-- Everything that a name exported by a module stands for. -/
def targets (g : Graph) (m : ModuleId) (name : Text) : Set Target := { t | g.StandsFor (m, name) t }

/-! ### Keeping off the places of a way -/

/-- A name stands for a target by a chain of questions that comes to no place of `way`. -/
inductive FoundOff (g : Graph) (way : List (ModuleId × Text)) : ModuleId × Text → Target → Prop where
  | here {p : ModuleId × Text} {t : Target} (hp : p ∉ way) (h : g.Gives p t) : FoundOff g way p t
  | onward {p q : ModuleId × Text} {t : Target} (hp : p ∉ way) (h : g.Passes p q)
      (ht : FoundOff g way q t) : FoundOff g way p t

variable {g : Graph} {way : List (ModuleId × Text)} {p q : ModuleId × Text} {t : Target}

/-- What is found off a way starts off it. -/
theorem FoundOff.notMem (h : g.FoundOff way p t) : p ∉ way := by
  cases h with
  | here hp _ => exact hp
  | onward hp _ _ => exact hp

/-- What is found off a longer way is found off a part of it. -/
theorem FoundOff.of_cons (h : g.FoundOff (p :: way) q t) : g.FoundOff way q t := by
  induction h with
  | here hp h => exact .here (fun hw => hp (List.mem_cons_of_mem _ hw)) h
  | onward hp h _ ih => exact .onward (fun hw => hp (List.mem_cons_of_mem _ hw)) h ih

/-- A chain that keeps off `way` keeps off `p` too, or else its part after the last visit to `p`
does. -/
theorem FoundOff.off_or_from (p : ModuleId × Text) (h : g.FoundOff way q t) :
    g.FoundOff (p :: way) q t ∨ g.Gives p t ∨ ∃ r, g.Passes p r ∧ g.FoundOff (p :: way) r t := by
  have off : ∀ {r : ModuleId × Text}, r ∉ way → r ≠ p → r ∉ p :: way := fun hw hne hr =>
    (List.mem_cons.1 hr).elim hne hw
  induction h with
  | @here r _ hp h =>
      by_cases hr : r = p
      · exact .inr (.inl (hr ▸ h))
      · exact .inl (.here (off hp hr) h)
  | @onward r s _ hp h _ ih =>
      -- if the rest keeps off `p`, the last visit to `p` is here or there is none
      rcases ih with hs | hp'
      · by_cases hr : r = p
        · exact .inr (.inr ⟨s, hr ▸ h, hs⟩)
        · exact .inl (.onward (off hp hr) h hs)
      · exact .inr hp'

/-- **Cutting a cycle loses nothing and invents nothing.**  What is found from a place is what is
given there, or found from a next place on a way that does not come back. -/
theorem foundOff_iff (hp : p ∉ way) :
    g.FoundOff way p t ↔ g.Gives p t ∨ ∃ q, g.Passes p q ∧ g.FoundOff (p :: way) q t := by
  constructor
  · intro h
    rcases h.off_or_from p with hoff | h
    · exact absurd List.mem_cons_self hoff.notMem
    · exact h
  · rintro (h | ⟨q, h, ht⟩)
    · exact .here hp h
    · exact .onward hp h ht.of_cons

/-- Off no way, what is found is what a name stands for. -/
theorem foundOff_nil_iff : g.FoundOff [] p t ↔ g.StandsFor p t := by
  constructor
  · intro h
    induction h with
    | here _ h => exact .here h
    | onward _ h _ ih => exact .onward h ih
  · intro h
    induction h with
    | here h => exact .here List.not_mem_nil h
    | onward h _ ih => exact .onward List.not_mem_nil h ih

/-! ### The four kinds of places -/

variable {m : ModuleId} {name : Text} {e : ReExport}

/-- A variable of the module is found by itself. -/
theorem foundOff_of_exportsLocally (hp : (m, name) ∉ way) (hl : g.exportsLocally m name) :
    g.FoundOff way (m, name) t ↔ t = .slot m name := by
  rw [foundOff_iff hp]
  constructor
  · rintro (h | ⟨q, h, -⟩)
    · cases h with
      | slot => rfl
      | whole h => exact absurd hl h
    · cases h with
      | reExport h => exact absurd hl h
      | star h => exact absurd hl h
  · rintro rfl
    exact .inl (.slot hl)

/-- A namespace that is passed on is found by itself. -/
theorem foundOff_of_whole (hp : (m, name) ∉ way) (hl : ¬ g.exportsLocally m name)
    (he : g.reExport? m name = some e) (hs : e.importName = Interface.star) :
    g.FoundOff way (m, name) t ↔ t = .whole (g.dep m e.record) := by
  rw [foundOff_iff hp]
  constructor
  · rintro (h | ⟨q, h, -⟩)
    · cases h with
      | slot h => exact absurd h hl
      | whole _ he' => rw [he] at he'; cases he'; rfl
    · cases h with
      | reExport _ he' hs' => rw [he] at he'; cases he'; exact absurd hs hs'
      | star _ he' => rw [he] at he'; cases he'
  · rintro rfl
    exact .inl (.whole hl he hs)

/-- A name that is passed on is found where it comes from. -/
theorem foundOff_of_reExport (hp : (m, name) ∉ way) (hl : ¬ g.exportsLocally m name)
    (he : g.reExport? m name = some e) (hs : e.importName ≠ Interface.star) :
    g.FoundOff way (m, name) t ↔
      g.FoundOff ((m, name) :: way) (g.dep m e.record, e.importName) t := by
  rw [foundOff_iff hp]
  constructor
  · rintro (h | ⟨q, h, ht⟩)
    · cases h with
      | slot h => exact absurd h hl
      | whole _ he' hs' => rw [he] at he'; cases he'; exact absurd hs' hs
    · cases h with
      | reExport _ he' => rw [he] at he'; cases he'; exact ht
      | star _ he' => rw [he] at he'; cases he'
  · intro ht
    exact .inr ⟨_, .reExport hl he hs, ht⟩

/-- Any other name is found where star exports come from. -/
theorem foundOff_of_stars (hp : (m, name) ∉ way) (hl : ¬ g.exportsLocally m name)
    (he : g.reExport? m name = none) :
    g.FoundOff way (m, name) t ↔
      name ≠ Interface.defaultName ∧ ∃ d ∈ g.stars m, g.FoundOff ((m, name) :: way) (d, name) t := by
  rw [foundOff_iff hp]
  constructor
  · rintro (h | ⟨q, h, ht⟩)
    · cases h with
      | slot h => exact absurd h hl
      | whole _ he' => rw [he] at he'; cases he'
    · cases h with
      | reExport _ he' => rw [he] at he'; cases he'
      | star _ _ hn hd => exact ⟨hn, _, hd, ht⟩
  · rintro ⟨hn, d, hd, ht⟩
    exact .inr ⟨_, .star hl he hn hd, ht⟩

end Graph

/-! ### The search -/

namespace Lookup

/-- What came of a search says how many targets a set has. -/
def Describes (S : Set Target) : Lookup → Prop
  | .found t => S = {t}
  | .missing => S = ∅
  | .ambiguous => S.Nontrivial

/-- If every answer describes the targets of its own question, what they agree on describes the
targets of all of them together, with the one found before. -/
theorem agree_describes {α : Type} {look : α → Lookup} {S : α → Set Target}
    (before : Option Target) (xs : List α) (h : ∀ x ∈ xs, (look x).Describes (S x)) :
    (agree look before xs).Describes { t | before = some t ∨ ∃ x ∈ xs, t ∈ S x } := by
  fun_induction agree look before xs with
  | case1 t => simp [Describes]
  | case2 => simp [Describes]
  | case3 before x xs hl =>
      have hx : (S x).Nontrivial := by simpa [hl, Describes] using h x List.mem_cons_self
      exact hx.mono fun t ht => .inr ⟨x, List.mem_cons_self, ht⟩
  | case4 before x xs hl ih =>
      have hx : S x = ∅ := by simpa [hl, Describes] using h x List.mem_cons_self
      simpa [hx] using ih fun y hy => h y (List.mem_cons_of_mem _ hy)
  | case5 x xs t hl ih | case6 x xs t hl ih =>
      have hx : S x = {t} := by simpa [hl, Describes] using h x List.mem_cons_self
      simpa [hx, eq_comm] using ih fun y hy => h y (List.mem_cons_of_mem _ hy)
  | case7 x xs t hl t' ht =>
      -- the search stops here, and two targets are enough whatever the rest provides
      have hx : S x = {t} := by simpa [hl, Describes] using h x List.mem_cons_self
      exact ⟨t', .inl rfl, t, .inr ⟨x, List.mem_cons_self, hx ▸ rfl⟩, ht⟩

end Lookup

namespace Graph

/-- **A search finds what can be found off its way.** -/
theorem follow_describes (g : Graph) (way : List (ModuleId × Text)) (m : ModuleId) (name : Text) :
    (g.follow way m name).Describes { t | g.FoundOff way (m, name) t } := by
  fun_induction follow g way m name with
  | case1 way m name hway =>
      -- the way has come back: nothing can be found off it from here
      refine Set.eq_empty_of_forall_notMem fun t ht => ht.notMem ?_
      simpa using hway
  | case2 way m name hway hl =>
      exact Set.ext fun t => foundOff_of_exportsLocally (by simpa using hway) hl
  | case3 way m name hway hl e he d hs =>
      exact Set.ext fun t => foundOff_of_whole (by simpa using hway) hl he hs
  | case4 way m name hway hl e he d hs ih =>
      simpa only [foundOff_of_reExport (by simpa using hway) hl he hs] using ih
  | case5 way m hway hl he =>
      refine Set.eq_empty_of_forall_notMem fun t ht => ?_
      exact ((foundOff_of_stars (by simpa using hway) hl he).1 ht).1 rfl
  | case6 way m name hway hl he hn ih =>
      have := Lookup.agree_describes none (g.stars m).attach fun d _ => ih d
      simpa [foundOff_of_stars (by simpa using hway) hl he, hn] using this

/-- The search describes the targets of a name. -/
theorem resolve_describes (g : Graph) (m : ModuleId) (name : Text) :
    (g.resolve m name).Describes (g.targets m name) := by
  simpa only [foundOff_nil_iff, resolve, targets] using g.follow_describes [] m name

end Graph

namespace Lookup

variable {S : Set Target} {l : Lookup}

/-- One target is found when it is the only one. -/
theorem Describes.eq_found_iff (h : l.Describes S) (t : Target) : l = .found t ↔ S = {t} := by
  cases l with
  | found t' =>
      have hS : S = {t'} := h
      simp [hS]
  | missing =>
      have hS : S = ∅ := h
      simp [hS]
  | ambiguous =>
      have hS : S.Nontrivial := h
      simp only [reduceCtorEq, false_iff]
      rintro rfl
      exact Set.not_nontrivial_singleton hS

/-- None is found when there is none. -/
theorem Describes.eq_missing_iff (h : l.Describes S) : l = .missing ↔ S = ∅ := by
  cases l with
  | found t =>
      have hS : S = {t} := h
      simp [hS]
  | missing => exact iff_of_true rfl h
  | ambiguous =>
      have hS : S.Nontrivial := h
      simp only [reduceCtorEq, false_iff]
      rintro rfl
      exact Set.not_nontrivial_empty hS

/-- The search is ambiguous when there is more than one. -/
theorem Describes.eq_ambiguous_iff (h : l.Describes S) : l = .ambiguous ↔ S.Nontrivial := by
  cases l with
  | found t =>
      have hS : S = {t} := h
      simp [hS]
  | missing =>
      have hS : S = ∅ := h
      simp [hS]
  | ambiguous => exact iff_of_true rfl h

end Lookup

namespace Graph

variable {g : Graph} {m : ModuleId} {name : Text} {t : Target}

theorem resolve_eq_found_iff : g.resolve m name = .found t ↔ g.targets m name = {t} :=
  (g.resolve_describes m name).eq_found_iff t

/-- A name stands for what it resolves to. -/
theorem standsFor_of_resolve (h : g.resolve m name = .found t) : g.StandsFor (m, name) t := by
  have ht : t ∈ g.targets m name := by
    rw [resolve_eq_found_iff.1 h]
    exact rfl
  exact ht

end Graph

/-- **Resolving a name finds out how many targets it has.**  In every graph, cycles of re-exports
and of star exports included, a name resolves to the target that is its only one; it is missing if
it has no target, and ambiguous if it has at least two. -/
theorem resolve_targets (g : Graph) (m : ModuleId) (name : Text) :
    (∀ t, g.resolve m name = .found t ↔ g.targets m name = {t}) ∧
    (g.resolve m name = .missing ↔ g.targets m name = ∅) ∧
    (g.resolve m name = .ambiguous ↔ (g.targets m name).Nontrivial) := by
  have h := g.resolve_describes m name
  exact ⟨h.eq_found_iff, h.eq_missing_iff, h.eq_ambiguous_iff⟩

end ModuleSystem
