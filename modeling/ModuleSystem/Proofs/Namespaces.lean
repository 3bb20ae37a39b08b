import ModuleSystem.Proofs.Bindings
import ModuleSystem.Proofs.ExportedNames
import ModuleSystem.Proofs.Registry.Usage
import ModuleSystem.Proofs.Registry.Host
import ModuleSystem.Proofs.Text.Lists

/-!
# Live bindings — a namespace has the names that resolve

The namespace of a module is made out of its exported names, of which those are left out that do not
resolve.  It has exactly the names that resolve, in ascending order (`Namespace.pairwise_keys`,
`Namespace.mem_keys`, `Namespace.found_iff`), and it is never made again.

* `Bindings.Op`: what can be done with bindings, and `Bindings.Makes`: what becomes of namespaces.
* `Host.UsesBindings`: a host that does only this with the bindings in its world.  Scripted modules do
  so (`Stage.host_usesBindings`).
* `namespace_exports`: the namespace that a module gets, whenever it is asked for.
-/

namespace ModuleSystem

/-! ### The names of a namespace -/

namespace Namespace

variable {g g' : Graph} {m : ModuleId} {n : Text} {t : Target}

/-- The targets of a namespace are what the names stand for. -/
theorem mem_targets : (n, t) ∈ (make g m).targets ↔ g.resolve m n = .found t := by
  have pair_iff : ∀ {name : Text}, (g.resolve m name).target?.map (fun t => (name, t)) = some (n, t) ↔
      name = n ∧ g.resolve m name = .found t := by
    intro name
    cases g.resolve m name <;> simp [Lookup.target?]
  rw [make, List.mem_filterMap]
  constructor
  · rintro ⟨name, -, h⟩
    obtain ⟨rfl, hr⟩ := pair_iff.1 h
    exact hr
  · intro hr
    exact ⟨n, Graph.mem_exportedNames hr, pair_iff.2 ⟨rfl, hr⟩⟩

/-- What a name of a namespace stands for is what the name resolves to. -/
theorem lookup_targets : (make g m).targets.lookup n = some t ↔ g.resolve m n = .found t := by
  have mem : ∀ {t'}, (make g m).targets.lookup n = some t' → g.resolve m n = .found t' := by
    intro t' h
    obtain ⟨before, after, e, -⟩ := List.lookup_eq_some_iff.1 h
    exact mem_targets.1 (e ▸ List.mem_append_right _ List.mem_cons_self)
  refine ⟨mem, fun hr => ?_⟩
  cases hl : (make g m).targets.lookup n with
  | none => simpa using List.lookup_eq_none_iff.1 hl _ (mem_targets.2 hr)
  | some t' =>
      cases (mem hl).symm.trans hr
      rfl

/-- **A namespace has exactly the names that resolve.** -/
theorem mem_keys : n ∈ (make g m).keys ↔ ∃ t, g.resolve m n = .found t := by
  have keys : (make g m).keys = Text.sort ((make g m).targets.map (·.1)) := rfl
  rw [keys, (Text.perm_sort _).mem_iff, List.mem_map]
  constructor
  · rintro ⟨⟨name, t⟩, hp, rfl⟩
    exact ⟨t, mem_targets.1 hp⟩
  · rintro ⟨t, ht⟩
    exact ⟨(n, t), mem_targets.2 ht, rfl⟩

/-- **Reading a name of a namespace finds something exactly if the name resolves**, be it only that
there is no value yet. -/
theorem found_iff {b : Bindings} :
    (b.get g' (make g m) n).2 ≠ .ok none ↔ ∃ t, g.resolve m n = .found t := by
  simp only [← lookup_targets, Bindings.get]
  cases (make g m).targets.lookup n with
  | none => simp
  | some t => cases h : (b.read g' t).2 <;> simp [h, Except.map]

/-- **The names of a namespace are in strictly ascending order.** -/
theorem pairwise_keys (h : g.NamesDiffer) : (make g m).keys.Pairwise (· < ·) := by
  refine Text.pairwise_sort ?_
  have sub : ((make g m).targets.map (·.1)).Sublist (g.exportedNames m) := by
    have map_filterMap : ∀ names : List Text,
        ((names.filterMap fun name => (g.resolve m name).target?.map fun t => (name, t)).map
          (·.1)).Sublist names := by
      intro names
      induction names with
      | nil => exact List.Sublist.refl _
      | cons name names ih =>
          cases hr : (g.resolve m name).target? with
          | none => simpa [hr] using ih.cons name
          | some t => simpa [hr] using ih
    exact map_filterMap _
  exact sub.nodup (Graph.nodup_exportedNames h m)

end Namespace

/-! ### What is done with bindings -/

namespace Bindings

variable {b b' b'' : Bindings} {g : Graph} {m : ModuleId}

/-- What can be done with bindings for the modules of a graph.  What the variables hold is up to the
modules. -/
inductive Op (g : Graph) : Bindings → Bindings → Prop where
  | instantiate (b : Bindings) (m : ModuleId) (locals : List (Text × Value)) :
      Op g b (b.instantiate m locals)
  | setVariables (b : Bindings) (instances : List (ModuleId × Instance)) : Op g b { b with instances }
  | bindExports (b : Bindings) (m : ModuleId) (getters : List (Text × Getter)) :
      Op g b (b.bindExports g m getters).1
  | watch (b : Bindings) (importer : ModuleId) (record : Nat) (importName localName : Text) :
      Op g b (b.watch g importer record importName localName).1
  | pushAll (b : Bindings) (m : ModuleId) : Op g b (b.pushAll g m)
  | namespaceOf (b : Bindings) (m : ModuleId) : Op g b (b.namespaceOf g m).1
  | read (b : Bindings) (t : Target) : Op g b (b.read g t).1
  | get (b : Bindings) (ns : Namespace) (name : Text) : Op g b (b.get g ns name).1

/-- What can be done with bindings, over time. -/
abbrev Ops (g : Graph) : Bindings → Bindings → Prop := Relation.ReflTransGen (Op g)

/-- A module has the namespace that it had or, when it had none, the one that is made for the graph at
hand. -/
def Makes (g : Graph) (b b' : Bindings) : Prop :=
  ∀ m, b'.namespaces.lookup m = b.namespaces.lookup m ∨
    b.namespaces.lookup m = none ∧ b'.namespaces.lookup m = some (Namespace.make g m)

theorem Makes.of_eq (h : b'.namespaces = b.namespaces) : Makes g b b' := fun _ => .inl (by rw [h])

/-- Namespaces that are made one after the other. -/
theorem Makes.trans (h : Makes g b b') (h' : Makes g b' b'') : Makes g b b'' := by
  intro m
  rcases h m with e | ⟨none, e⟩
  · rcases h' m with e' | ⟨none', e'⟩
    · exact .inl (e'.trans e)
    · exact .inr ⟨e ▸ none', e'⟩
  · rcases h' m with e' | ⟨none', -⟩
    · exact .inr ⟨none, e'.trans e⟩
    · rw [e] at none'
      cases none'

/-- Whatever namespace a module has, it keeps. -/
theorem Makes.lookup (h : Makes g b b') {ns : Namespace} (hm : b.namespaces.lookup m = some ns) :
    b'.namespaces.lookup m = some ns := by
  rcases h m with e | ⟨none, -⟩
  · rwa [e]
  · rw [hm] at none
    cases none

/-- A namespace that is asked for is made for its module, unless it is there. -/
theorem makes_namespaceOf (b : Bindings) (g : Graph) (m : ModuleId) :
    Makes g b (b.namespaceOf g m).1 := by
  cases hm : b.namespaces.lookup m with
  | some ns =>
      rw [namespaceOf, hm]
      exact .of_eq rfl
  | none =>
      rw [namespaceOf, hm]
      intro x
      rw [List.lookup_append]
      by_cases hx : x = m
      · subst hx
        exact .inr ⟨hm, by simp [hm]⟩
      · exact .inl (by simp [List.lookup_cons, beq_false_of_ne hx])

/-- Connecting an import may make the namespace that it stands for. -/
theorem makes_watch (importer : ModuleId) (record : Nat) (importName localName : Text) :
    Makes g b (b.watch g importer record importName localName).1 := by
  have whole : ∀ d w v, Makes g b (deliver (b.namespaceOf g d).1 w v) :=
    fun d _ _ => b.makes_namespaceOf g d
  simp only [watch]
  split
  · exact .of_eq rfl
  · split
    · exact whole _ _ _
    · split
      · exact .of_eq rfl
      · exact .of_eq rfl
      · exact whole _ _ _
      · split
        · split <;> exact .of_eq rfl
        · exact .of_eq rfl

/-- So may reading a target. -/
theorem makes_read (t : Target) : Makes g b (b.read g t).1 := by
  cases t with
  | whole m => exact b.makes_namespaceOf g m
  | slot => exact .of_eq rfl

/-- **Whatever is done with bindings**, a namespace is made once, and as it should be. -/
theorem Op.makes (h : Op g b b') : Makes g b b' := by
  cases h with
  | instantiate | setVariables => exact .of_eq rfl
  | bindExports m getters => exact .of_eq (namespaces_bindExports getters)
  | watch importer record importName localName =>
      exact makes_watch importer record importName localName
  | pushAll m => exact .of_eq namespaces_pushAll
  | namespaceOf m => exact b.makes_namespaceOf g m
  | read t => exact makes_read t
  | get ns name =>
      rw [Bindings.get]
      split
      · exact .of_eq rfl
      · exact makes_read _

/-- So may anything that is done with bindings. -/
theorem Ops.makes (h : Ops g b b') : Makes g b b' := by
  induction h with
  | refl => exact .of_eq rfl
  | tail _ op ih => exact ih.trans op.makes

/-- Connecting the imports of a module is done with watches only. -/
theorem ops_watchAll (b : Bindings) (g : Graph) (m : ModuleId) (imports : List NamedImport) :
    Ops g b (b.watchAll g m imports).1 := by
  induction imports generalizing b with
  | nil => exact .refl
  | cons n ns ih =>
      have first : Op g b (b.watch g m n.record n.importName n.localName).1 := .watch b m _ _ _
      rw [watchAll]
      split <;> rename_i hw <;> rw [hw] at first
      · exact .single first
      · exact .head first (ih _)

/-- The namespace that a module gets, if none has been made for it on another graph. -/
theorem namespaceOf_of_makes (h : Makes g b b') (hm : b.namespaces.lookup m = none) :
    (b'.namespaceOf g m).2 = Namespace.make g m := by
  rw [namespaceOf]
  rcases h m with e | ⟨-, e⟩
  · rw [e, hm]
  · rw [e]

/-- A namespace that is there is given. -/
theorem namespaceOf_of_lookup {ns : Namespace} (hm : b.namespaces.lookup m = some ns) :
    (b.namespaceOf g m).2 = ns := by
  rw [namespaceOf, hm]

end Bindings

/-- A host that does with the bindings in its world what can be done with them, and gets namespaces
there. -/
structure Host.UsesBindings {σ : Type} (host : Host σ) (bindings : σ → Bindings) : Prop where
  instantiate : ∀ g m world, Bindings.Ops g (bindings world) (bindings (host.instantiate g m world).1)
  evaluate : ∀ g m world, Bindings.Ops g (bindings world) (bindings (host.evaluate g m world).1)
  publish : ∀ g m world, Bindings.Ops g (bindings world) (bindings (host.publish g m world))
  namespaceOf : ∀ g m world,
    (bindings (host.namespaceOf g m world).1, (host.namespaceOf g m world).2) =
      (bindings world).namespaceOf g m

/-- Between requests, too, the world goes on by what can be done with its bindings. -/
abbrev bindingMoves {σ : Type} (bindings : σ → Bindings) (g : Graph) (world world' : σ) : Prop :=
  Bindings.Ops g (bindings world) (bindings world')

/-- A host that uses bindings moves them in these ways only. -/
theorem Host.UsesBindings.follows {σ : Type} {host : Host σ} {bindings : σ → Bindings}
    (h : host.UsesBindings bindings) : host.Follows (bindingMoves bindings) where
  refl _ _ := .refl
  trans h h' := h.trans h'
  instantiate := h.instantiate
  evaluate := h.evaluate
  publish := h.publish

namespace Stage

/-- A scripted module is instantiated in these ways only. -/
theorem ops_instantiate (g : Graph) (m : ModuleId) (s : Stage) :
    Bindings.Ops g s.bindings (s.instantiate g m).1.bindings := by
  rw [instantiate]
  dsimp only
  generalize hb : Bindings.instantiate _ m _ = b
  have fresh : Bindings.Op g s.bindings b := hb ▸ .instantiate _ m _
  have bound : Bindings.Op g b (b.bindExports g m (getters g m)).1 := .bindExports b m _
  split <;> rename_i h <;> rw [h] at bound
  · exact (Relation.ReflTransGen.single fresh).tail bound
  · rename_i b'
    have watched := b'.ops_watchAll g m (g.interface m).namedImports
    split <;> rename_i hw <;> rw [hw] at watched <;>
      exact ((Relation.ReflTransGen.single fresh).tail bound).trans watched

/-- A script runs in these ways only. -/
theorem ops_run (g : Graph) (m : ModuleId) (steps : List ScriptStep) (s : Stage) :
    Bindings.Ops g s.bindings (run g m steps s).1.bindings := by
  induction steps generalizing s with
  | nil => exact .refl
  | cons step steps ih =>
      cases step with
      | set var value =>
          have assigned : Bindings.Op g s.bindings (s.bindings.assign m var (.text value)) :=
            .setVariables _ _
          have pushed := Bindings.Op.pushAll (g := g) (s.bindings.assign m var (.text value)) m
          exact .head assigned (.head pushed (ih (s.assign g m var value)))
      | throw message => exact .refl
      | log var => exact ih (s.say (.imported var (s.imported? m var)))
      | read var name =>
          simp only [run]
          split
          · rename_i d _ _
            have asked : Bindings.Op g s.bindings (s.bindings.namespaceOf g d).1 := .namespaceOf _ d
            have read := Bindings.Op.get (g := g) (s.bindings.namespaceOf g d).1
              (s.bindings.namespaceOf g d).2 name
            exact .head asked (.head read (ih (say { s with bindings := _ } _)))
          · exact ih (s.say (.notNamespace var))

/-- **Scripted modules do with bindings what can be done with them.** -/
theorem host_usesBindings : Host.UsesBindings host bindings where
  instantiate := ops_instantiate
  evaluate g m s := ops_run g m (s.script g m).steps (s.say (.evaluate (g.path m)))
  publish _ m s := .single (.pushAll s.bindings m)
  namespaceOf _ _ _ := rfl

end Stage

/-! ### While a registry is used -/

namespace Registry

variable {σ : Type} {host : Host σ} {bindings : σ → Bindings} {moves : Graph → σ → σ → Prop}
  {r r' r'' : Registry σ}

/-- A use of the registry moves the world as its host does. -/
theorem moves_step (hf : host.Follows moves) (s : Step host moves r r') :
    moves r.graph r.world r'.world := by
  cases s with
  | create path =>
      rw [world_getOrCreate]
      exact hf.refl _ _
  | attach _ _ ha =>
      rw [world_attach ha]
      exact hf.refl _ _
  | request q _ => exact moves_handle hf r q
  | act h => exact h

/-- The use of a registry over a time in which its graph stays as it is. -/
abbrev StaticRun (host : Host σ) (moves : Graph → σ → σ → Prop) : Registry σ → Registry σ → Prop :=
  Relation.ReflTransGen fun r r' => Step host moves r r' ∧ r'.graph = r.graph

/-- While the graph stays, the world moves as the host does. -/
theorem moves_staticRun (hf : host.Follows moves) (run : StaticRun host moves r r') :
    r'.graph = r.graph ∧ moves r.graph r.world r'.world := by
  induction run with
  | refl => exact ⟨rfl, hf.refl _ _⟩
  | tail _ s ih => exact ⟨s.2.trans ih.1, hf.trans ih.2 (ih.1 ▸ moves_step hf s.1)⟩

/-- A namespace that was made is kept, also when the graph grows. -/
theorem lookup_run (law : host.UsesBindings bindings) {m : ModuleId} {ns : Namespace}
    (run : Run host (bindingMoves bindings) r r')
    (hm : (bindings r.world).namespaces.lookup m = some ns) :
    (bindings r'.world).namespaces.lookup m = some ns := by
  induction run with
  | refl => exact hm
  | tail _ s ih => exact (moves_step law.follows s).makes.lookup ih

/-- Module `0` passes on all that `1` and `2` export, and `1` passes on all that `0` exports. -/
def diamond : Registry Stage where
  graph :=
    [{ path := [48]
       deps := [1, 2]
       compiled := some
         { source := { contents := [] }
           code := []
           interface :=
             { localExports := [{ name := [97], localName := [97], start := 0 }]
               exportStars := [0, 1] } } },
      { path := [49]
        deps := [0]
        compiled := some
          { source := { contents := [] }
            code := []
            interface :=
              { localExports := [{ name := [98], localName := [98], start := 0 }]
                exportStars := [0] } } },
      { path := [50]
        compiled := some
          { source := { contents := [] }
            code := []
            interface :=
              { localExports :=
                  [{ name := [99], localName := [99], start := 0 },
                    { name := [98], localName := [98], start := 0 }] } } }]
  progress := List.replicate 3 { state := .unlinked }
  world := {}

/-- **A namespace has the names that resolve, and stays as it is.**  Let no module of a graph export a
name of its own twice, and let a module have no namespace yet, while others may have theirs, also from
before the graph grew.  Let requests be made and bindings be used in any way before the namespace of the
module is asked for.  Its names are in strictly ascending order; they are exactly the names that
resolve, and exactly those for which a reader finds something; and whatever happens afterwards, also
when modules are added to the graph, the module has this namespace. -/
theorem namespace_exports (law : host.UsesBindings bindings) (differ : r.graph.NamesDiffer) (m : ModuleId)
    (unmade : (bindings r.world).namespaces.lookup m = none)
    (before : StaticRun host (bindingMoves bindings) r r')
    (later : Run host (bindingMoves bindings)
      (r'.withWorld (host.namespaceOf r'.graph m r'.world).1) r'') :
    let ns := (host.namespaceOf r'.graph m r'.world).2
    ns.keys.Pairwise (· < ·) ∧
    (∀ n, n ∈ ns.keys ↔ ∃ t, r.graph.resolve m n = .found t) ∧
    (∀ n g b, (Bindings.get g b ns n).2 ≠ .ok none ↔ ∃ t, r.graph.resolve m n = .found t) ∧
    (host.namespaceOf r''.graph m r''.world).2 = ns := by
  intro ns
  obtain ⟨graph, ops⟩ := moves_staticRun law.follows before
  have asked := law.namespaceOf r'.graph m r'.world
  have hns : ns = Namespace.make r.graph m := by
    refine (congrArg Prod.snd asked).trans ?_
    rw [graph]
    exact Bindings.namespaceOf_of_makes ops.makes unmade
  have kept : (bindings r''.world).namespaces.lookup m = some ns := by
    refine lookup_run law later ?_
    have found := (bindings r'.world).lookup_namespaceOf r'.graph m
    rwa [← asked] at found
  refine ⟨hns ▸ Namespace.pairwise_keys differ, fun n => hns ▸ Namespace.mem_keys,
    fun n g b => hns ▸ Namespace.found_iff, ?_⟩
  have again := law.namespaceOf r''.graph m r''.world
  exact (congrArg Prod.snd again).trans (Bindings.namespaceOf_of_lookup kept)

/-- Two modules provide the name `98`, so it is left out, while `99` is there. -/
theorem namespace_exports_diamond :
    let ns := (Stage.host.namespaceOf diamond.graph 0 diamond.world).2
    [99] ∈ ns.keys ∧ [98] ∉ ns.keys ∧ ns.keys.Pairwise (· < ·) := by
  intro ns
  have found : diamond.graph.resolve 0 [99] = .found (.slot 2 [99]) := by decide +kernel
  have ambiguous : diamond.graph.resolve 0 [98] = .ambiguous := by decide +kernel
  obtain ⟨ascending, mem, -⟩ :=
    namespace_exports Stage.host_usesBindings (r := diamond) (by decide) 0 rfl .refl .refl
  refine ⟨(mem [99]).2 ⟨_, found⟩, fun h => ?_, ascending⟩
  obtain ⟨t, ht⟩ := (mem [98]).1 h
  cases ambiguous.symm.trans ht

end Registry

end ModuleSystem
