import Mathlib.Data.List.GetD
import Mathlib.Data.Set.Image
import ModuleSystem.Proofs.ExportTargets
import ModuleSystem.Registry.Link

/-!
# What names stand for in a graph that grows

What a name stands for depends only on the modules that can be reached from it.  So it stays the same
when modules are added to a graph, or contents are attached to modules that were not reached.

A record of a module that has none stands for the place behind the graph (`Graph.dep`), and that place
moves when the graph grows.  Therefore the two graphs are compared along a map `f` of places: a graph
*shows* a set of modules that was closed in another one, if the module at `f x` is what `x` was, and
imports from the images of what `x` imported from (`Graph.Shows`).

* `Shows.targets`: a name stands for the images of what it stood for.
* `Shows.linkError?`: where all imports of a module resolved, they resolve again.
-/

namespace ModuleSystem

/-- The target, with its module moved to another place. -/
def Target.map (f : ModuleId → ModuleId) : Target → Target
  | .slot owner name => .slot (f owner) name
  | .whole owner => .whole (f owner)

namespace Graph

/-- A record of a module stands for the dependency at its place. -/
theorem getElem?_deps {g : Graph} {m : ModuleId} {record : Nat} (h : record < (g.deps m).length) :
    (g.deps m)[record]? = some (g.dep m record) := by
  rw [dep, List.getD_eq_getElem _ _ h, List.getElem?_eq_getElem h]

/-- A record stands for a dependency, or for the place behind the graph. -/
theorem dep_mem_deps_or (g : Graph) (m : ModuleId) (record : Nat) :
    g.dep m record ∈ g.deps m ∨ g.dep m record = g.length := by
  by_cases h : record < (g.deps m).length
  · rw [dep, List.getD_eq_getElem _ _ h]
    exact .inl (List.getElem_mem h)
  · exact .inr (List.getD_eq_default _ _ (Nat.le_of_not_lt h))

/-- The place behind the graph imports from itself only. -/
theorem dep_length (g : Graph) (record : Nat) : g.dep g.length record = g.length := by
  simp [dep, deps, node]

/-- `g'` shows the modules of `S`, each module `x` at `f x`. -/
structure Shows (g : Graph) (S : Set ModuleId) (f : ModuleId → ModuleId) (g' : Graph) : Prop where
  closed : ∀ x ∈ S, ∀ record, g.dep x record ∈ S
  interface : ∀ x ∈ S, g'.interface (f x) = g.interface x
  dep : ∀ x ∈ S, ∀ record, g'.dep (f x) record = f (g.dep x record)

variable {g g' : Graph} {S : Set ModuleId} {f : ModuleId → ModuleId} {x : ModuleId} {name : Text}
  {p q : ModuleId × Text} {t : Target}

namespace Shows

/-- An image exports variables under the same names. -/
theorem exportsLocally (h : g.Shows S f g') (hx : x ∈ S) :
    g'.exportsLocally (f x) name = g.exportsLocally x name := by
  rw [Graph.exportsLocally, Graph.exportsLocally, h.interface x hx]

/-- An image passes on the same names. -/
theorem reExport? (h : g.Shows S f g') (hx : x ∈ S) :
    g'.reExport? (f x) name = g.reExport? x name := by
  rw [Graph.reExport?, Graph.reExport?, h.interface x hx]

/-- An image passes on all names of the images. -/
theorem stars (h : g.Shows S f g') (hx : x ∈ S) : g'.stars (f x) = (g.stars x).map f := by
  rw [Graph.stars, Graph.stars, h.interface x hx, List.map_map]
  exact List.map_congr_left fun record _ => h.dep x hx record

/-- A module whose names are all passed on is one of those that are shown. -/
theorem mem_of_mem_stars (h : g.Shows S f g') (hx : x ∈ S) {d : ModuleId} (hd : d ∈ g.stars x) :
    d ∈ S := by
  obtain ⟨record, -, rfl⟩ := List.mem_map.1 hd
  exact h.closed x hx record

/-! ### One question -/

/-- A target that is given is given by the image. -/
theorem gives (h : g.Shows S f g') (hp : p.1 ∈ S) (ht : g.Gives p t) :
    g'.Gives (f p.1, p.2) (t.map f) := by
  cases ht with
  | slot hl => exact .slot (by rwa [h.exportsLocally hp])
  | whole hl he hs =>
      have image := Gives.whole (g := g') (by rwa [h.exportsLocally hp])
        ((h.reExport? hp).trans he) hs
      rwa [h.dep _ hp] at image

/-- What the image gives was given. -/
theorem gives_inv (h : g.Shows S f g') (hx : x ∈ S) (ht : g'.Gives (f x, name) t) :
    ∃ t₀, g.Gives (x, name) t₀ ∧ t = t₀.map f := by
  cases ht with
  | slot hl => exact ⟨.slot x name, .slot (by rwa [h.exportsLocally hx] at hl), rfl⟩
  | whole hl he hs =>
      rw [h.exportsLocally hx] at hl
      rw [h.reExport? hx] at he
      exact ⟨_, .whole hl he hs, congrArg Target.whole (h.dep x hx _)⟩

/-- A question that is passed on is passed on by the image. -/
theorem passes (h : g.Shows S f g') (hp : p.1 ∈ S) (hq : g.Passes p q) :
    q.1 ∈ S ∧ g'.Passes (f p.1, p.2) (f q.1, q.2) := by
  cases hq with
  | reExport hl he hs =>
      have image := Passes.reExport (g := g') (by rwa [h.exportsLocally hp])
        ((h.reExport? hp).trans he) hs
      rw [h.dep _ hp] at image
      exact ⟨h.closed _ hp _, image⟩
  | star hl he hn hd =>
      refine ⟨h.mem_of_mem_stars hp hd, .star (by rwa [h.exportsLocally hp])
        ((h.reExport? hp).trans he) hn ?_⟩
      rw [h.stars hp]
      exact List.mem_map_of_mem hd

/-- What the image passes on was passed on. -/
theorem passes_inv (h : g.Shows S f g') (hx : x ∈ S) (hq : g'.Passes (f x, name) q) :
    ∃ y ∈ S, q = (f y, q.2) ∧ g.Passes (x, name) (y, q.2) := by
  cases hq with
  | reExport hl he hs =>
      rw [h.exportsLocally hx] at hl
      rw [h.reExport? hx] at he
      exact ⟨_, h.closed x hx _, by rw [h.dep x hx], .reExport hl he hs⟩
  | star hl he hn hd =>
      rw [h.exportsLocally hx] at hl
      rw [h.reExport? hx] at he
      rw [h.stars hx] at hd
      obtain ⟨d, hd', rfl⟩ := List.mem_map.1 hd
      exact ⟨d, h.mem_of_mem_stars hx hd', rfl, .star hl he hn hd'⟩

/-! ### Chains of questions -/

/-- What a name stands for it stands for at the image. -/
theorem standsFor (h : g.Shows S f g') (ht : g.StandsFor p t) (hp : p.1 ∈ S) :
    g'.StandsFor (f p.1, p.2) (t.map f) := by
  induction ht with
  | here ht => exact .here (h.gives hp ht)
  | onward hq _ ih =>
      obtain ⟨hS, hq'⟩ := h.passes hp hq
      exact .onward hq' (ih hS)

/-- What it stands for at the image it stood for. -/
theorem standsFor_inv (h : g.Shows S f g') (ht : g'.StandsFor p t) (hx : x ∈ S)
    (hp : p = (f x, name)) : ∃ t₀, g.StandsFor (x, name) t₀ ∧ t = t₀.map f := by
  induction ht generalizing x name with
  | here ht =>
      obtain ⟨t₀, ht₀, e⟩ := h.gives_inv hx (hp ▸ ht)
      exact ⟨t₀, .here ht₀, e⟩
  | onward hq _ ih =>
      obtain ⟨y, hy, e, hq'⟩ := h.passes_inv hx (hp ▸ hq)
      obtain ⟨t₀, ht₀, e'⟩ := ih hy e
      exact ⟨t₀, .onward hq' ht₀, e'⟩

/-- **A name stands for the images of what it stood for.** -/
theorem targets (h : g.Shows S f g') (hx : x ∈ S) (name : Text) :
    g'.targets (f x) name = Target.map f '' g.targets x name := by
  ext t
  constructor
  · intro ht
    obtain ⟨t₀, ht₀, rfl⟩ := h.standsFor_inv ht hx rfl
    exact ⟨t₀, ht₀, rfl⟩
  · rintro ⟨t₀, ht₀, rfl⟩
    exact h.standsFor ht₀ hx

/-- A name that resolves does so at the image. -/
theorem resolve (h : g.Shows S f g') (hx : x ∈ S) (hr : g.resolve x name = .found t) :
    g'.resolve (f x) name = .found (t.map f) := by
  rw [resolve_eq_found_iff, h.targets hx, resolve_eq_found_iff.1 hr, Set.image_singleton]

end Shows

/-! ### The imports of a module -/

/-- What a module imports under a name from one of its records stands for exactly one thing, unless it
is the namespace. -/
def Resolves (g : Graph) (m : ModuleId) (record : Nat) (name : Text) : Prop :=
  name ≠ Interface.star → ∃ t, g.resolve (g.dep m record) name = .found t

/-- An import is no error when its name resolves. -/
theorem importError?_eq_none_iff {m : ModuleId} {record start : Nat} :
    g.importError? m record name start = none ↔ g.Resolves m record name := by
  rw [importError?, Resolves]
  by_cases hs : name = Interface.star
  · simp [hs]
  · cases hr : g.resolve (g.dep m record) name <;> simp [hs]

/-- A module can be linked if all its imports resolve, and so does everything that it passes on. -/
theorem linkError?_eq_none_iff {m : ModuleId} :
    g.linkError? m = none ↔
      (∀ n ∈ (g.interface m).namedImports, g.Resolves m n.record n.importName) ∧
      ∀ e ∈ (g.interface m).reExports, g.Resolves m e.record e.importName := by
  simp only [linkError?, Option.orElse_eq_orElse, Option.orElse_eq_or, Option.or_eq_none_iff,
    List.findSome?_eq_none_iff, importError?_eq_none_iff]

/-- An import that resolves does so at the image. -/
theorem Shows.resolves (h : g.Shows S f g') (hx : x ∈ S) {record : Nat}
    (hr : g.Resolves x record name) : g'.Resolves (f x) record name := by
  intro hs
  obtain ⟨t, ht⟩ := hr hs
  rw [h.dep x hx]
  exact ⟨_, h.resolve (h.closed x hx record) ht⟩

/-- An image of a module without errors has none. -/
theorem Shows.linkError? (h : g.Shows S f g') (hx : x ∈ S) (hl : g.linkError? x = none) :
    g'.linkError? (f x) = none := by
  rw [linkError?_eq_none_iff] at hl ⊢
  rw [h.interface x hx]
  exact ⟨fun n hn => h.resolves hx (hl.1 n hn), fun e he => h.resolves hx (hl.2 e he)⟩

end Graph

end ModuleSystem
