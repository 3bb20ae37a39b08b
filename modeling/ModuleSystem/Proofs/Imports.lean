import ModuleSystem.Bindings
import ModuleSystem.Proofs.Registry.Usage

/-!
# What linked modules import is there

A link checks the imports of the modules that it comes to, one module at a time and in the midst of
cycles, and it passes over modules that were linked before.  Nevertheless the imports of every linked
module resolve, and go on to do so (`Registry.checked_of_run`).  So a module that connects its imports
comes upon no name that is missing, and nobody asks a module for the slot of a name that it does not
declare.

* `Target.Present`: a slot is one that its module declares.  This is so for whatever a name stands for
  (`StandsFor.present`), and stays so while a registry is used (`Target.Present.preserved`).
* `Bindings.Answers`: reading ends with a value, or the variable has none yet.
* `linked_imports_resolve`: what a link that is well guarantees from then on.
-/

namespace ModuleSystem

variable {g : Graph} {t : Target} {m : ModuleId} {name : Text}

/-- A slot that its module declares, or a namespace. -/
def Target.Present (g : Graph) : Target → Prop
  | .slot owner name => g.exportsLocally owner name = true
  | .whole _ => True

namespace Graph

/-- Whatever a name stands for is there. -/
theorem StandsFor.present {p : ModuleId × Text} (h : g.StandsFor p t) : t.Present g := by
  induction h with
  | here h =>
      cases h with
      | slot hl => exact hl
      | whole => trivial
  | onward _ _ ih => exact ih

theorem present_of_resolve (h : g.resolve m name = .found t) : t.Present g :=
  (standsFor_of_resolve h).present

/-- What a module imports under a name from one of its records stands for exactly one thing, and that
is there, unless it is the namespace. -/
def BindsOnce (g : Graph) (m : ModuleId) (record : Nat) (name : Text) : Prop :=
  name ≠ Interface.star → ∃ t, g.targets (g.dep m record) name = {t} ∧
    g.resolve (g.dep m record) name = .found t ∧ t.Present g

/-- A name that resolves binds one target. -/
theorem Resolves.bindsOnce {record : Nat} (h : g.Resolves m record name) :
    g.BindsOnce m record name := by
  intro hs
  obtain ⟨t, ht⟩ := h hs
  exact ⟨t, resolve_eq_found_iff.1 ht, ht, present_of_resolve ht⟩

end Graph

namespace Bindings

variable {b : Bindings}

/-- Reading ends with a value, or the variable has none yet. -/
def Answers {α : Type} (res : Except ModuleError α) : Prop :=
  (∃ v, res = .ok v) ∨ ∃ name, res = .error (.uninitialized name)

/-- A slot answers with a value, or says that it has none yet. -/
theorem answers_valueOf (b : Bindings) (m : ModuleId) (name : Text) : Answers (b.valueOf m name) := by
  rw [valueOf]
  split
  · exact .inr ⟨_, rfl⟩
  · exact .inl ⟨_, rfl⟩
  · split
    · exact .inl ⟨_, rfl⟩
    · exact .inr ⟨_, rfl⟩

/-- A target that is there answers. -/
theorem answers_read (h : t.Present g) : Answers (b.read g t).2 := by
  cases t with
  | whole m => exact .inl ⟨_, rfl⟩
  | slot m name =>
      have declared : g.exportsLocally m name = true := h
      simp only [read, declared, if_true]
      exact b.answers_valueOf m name

/-- Reading a name of a namespace looks for no slot that is missing, if the namespace stands for what
is there. -/
theorem answers_get {ns : Namespace} (h : ∀ p ∈ ns.targets, p.2.Present g) :
    Answers (b.get g ns name).2 := by
  rw [get]
  split
  · exact .inl ⟨_, rfl⟩
  · rename_i t ht
    have present : t.Present g := by
      obtain ⟨before, after, e, -⟩ := List.lookup_eq_some_iff.1 ht
      exact h (name, t) (by simp [e])
    rcases answers_read (b := b) present with ⟨v, hv⟩ | ⟨x, hx⟩
    · exact .inl ⟨some v, by simp [hv, Except.map]⟩
    · exact .inr ⟨x, by simp [hx, Except.map]⟩

section Watch
variable {record : Nat} {importName localName : Text}

/-- Connecting a variable is well if what it imports resolves. -/
theorem watch_of_resolves (hr : record < (g.deps m).length) (h : g.Resolves m record importName) :
    (b.watch g m record importName localName).2 = .ok () := by
  simp only [watch, Graph.getElem?_deps hr]
  by_cases hs : importName = Interface.star
  · rw [if_pos hs]
  · rw [if_neg hs]
    obtain ⟨t, ht⟩ := h hs
    rw [ht]
    cases t with
    | whole d => rfl
    | slot d name =>
        have present : g.exportsLocally d name = true := Graph.present_of_resolve ht
        simp only [present, if_true]
        split <;> rfl

/-- Whatever is connected, no slot is looked for that is missing. -/
theorem watch_ne_noExport {owner name : Text} :
    (b.watch g m record importName localName).2 ≠ .error (.noExport owner name) := by
  simp only [watch]
  split
  · simp
  · split
    · simp
    · split
      · simp
      · simp
      · simp
      · rename_i d n hr
        have present : g.exportsLocally d n = true := Graph.present_of_resolve hr
        simp only [present, if_true]
        split <;> simp

end Watch

end Bindings

/-- A namespace stands for what is there. -/
theorem Namespace.present_of_make {p : Text × Target} (h : p ∈ (Namespace.make g m).targets) :
    p.2.Present g := by
  obtain ⟨n, -, hn⟩ := List.mem_filterMap.1 h
  cases hr : g.resolve m n <;> simp [hr, Lookup.target?] at hn
  subst hn
  exact Graph.present_of_resolve hr

namespace Registry

variable {σ : Type} {host : Host σ} {moves : Graph → σ → σ → Prop} {r r' : Registry σ}
  {root : ModuleId}

/-- What is there stays there while a registry is used. -/
theorem Preserves.present (keeps : Preserves r r') (hr : r.Growing host) (h : t.Present r.graph) :
    t.Present r'.graph := by
  cases t with
  | whole m => trivial
  | slot m name =>
      have declared : r.graph.exportsLocally m name = true := h
      -- a module without contents exports nothing
      have hm : r.state m ≠ .new := by
        rw [← hr.contents m]
        by_contra none
        rw [Option.not_isSome_iff_eq_none] at none
        simp [Graph.exportsLocally, Graph.interface, Node.interface, none] at declared
      rw [Target.Present, Graph.exportsLocally, Graph.interface, keeps.node m hm]
      exact declared

/-- What a link guarantees of a module: everything it imports or passes on under a name stands for
exactly one thing, which is there, and connecting its imports is well, but for the namespace of a
record that the module does not have. -/
structure Connectable (g : Graph) (m : ModuleId) : Prop where
  imports : ∀ n ∈ (g.interface m).namedImports, g.BindsOnce m n.record n.importName
  passedOn : ∀ e ∈ (g.interface m).reExports, g.BindsOnce m e.record e.importName
  watch : ∀ n ∈ (g.interface m).namedImports, ∀ b : Bindings,
    (b.watch g m n.record n.importName n.localName).2 = .ok () ∨
      (g.deps m).length ≤ n.record ∧
        (b.watch g m n.record n.importName n.localName).2 = .error (.noRecord (g.path m) n.record)

/-- A module without link errors can be connected. -/
theorem connectable_of_linkError? (h : g.linkError? m = none) : Connectable g m := by
  obtain ⟨imports, passedOn⟩ := Graph.linkError?_eq_none_iff.1 h
  refine ⟨fun n hn => (imports n hn).bindsOnce, fun e he => (passedOn e he).bindsOnce,
    fun n hn b => ?_⟩
  by_cases hr : n.record < (g.deps m).length
  · exact .inl (Bindings.watch_of_resolves hr (imports n hn))
  · have out := Nat.le_of_not_lt hr
    exact .inr ⟨out, by simp only [Bindings.watch, List.getElem?_eq_none out]⟩

/-- A module that imports a variable. -/
def importing : Compiled where
  source := { contents := [] }
  code := []
  interface :=
    { records := [{ path := [98], range := {} }]
      namedImports := [{ importName := [120], localName := [121], start := 0, record := 0 }] }

/-- A module that exports a variable. -/
def exporting : Compiled where
  source := { contents := [] }
  code := []
  interface := { localExports := [{ name := [120], localName := [122], start := 0 }] }

/-- Module `0` imports a variable of module `1`. -/
def pair : Registry Unit where
  graph :=
    [{ path := [97], compiled := some importing, deps := [1] },
      { path := [98], compiled := some exporting }]
  progress := List.replicate 2 { state := .unlinked }
  world := ()
  history := [.moved 1 .new .unlinked, .moved 0 .new .unlinked]

/-- The records are created first, and then the contents are attached. -/
theorem run_pair (host : Host Unit) (moves : Graph → Unit → Unit → Prop) :
    Run host moves { world := () } pair := by
  have created : Run host moves { world := () }
      { graph := [{ path := [97] }, { path := [98] }], progress := [{}, {}], world := () } :=
    (Relation.ReflTransGen.single (.create [97])).tail (.create [98])
  have exports := created.tail (@Step.attach _ _ _ _ _ 1 exporting [] (by decide) (by decide) rfl)
  exact exports.tail (@Step.attach _ _ _ _ _ 0 importing [1] (by decide) (by decide) rfl)

/-- **What linked modules import is there.**  Let a registry be used in any way, and a link be well at
some moment.  Then at every later moment the imports of every module that its root reaches can be
connected, and stand for what they stood for when the link was over; connecting whatever else asks for
no slot that is missing; and whoever reads what a name stands for, or a name of a namespace however old,
gets a value or learns that there is none yet. -/
theorem linked_imports_resolve {world : σ} (before : Run host moves { world } r)
    (ok : (r.link host root).2 = .ok ()) (later : Run host moves (r.link host root).1 r') :
    let r₁ := (r.link host root).1
    let g := r'.graph
    (∀ m, g.Reaches root m → Connectable g m) ∧
    (∀ m, r₁.graph.Reaches root m → ∀ record name t,
      r₁.graph.resolve (r₁.graph.dep m record) name = .found t →
        g.resolve (g.dep m record) name = .found (t.map (moved r₁ r'))) ∧
    (∀ m record importName localName owner name, ∀ b : Bindings,
      (b.watch g m record importName localName).2 ≠ .error (.noExport owner name)) ∧
    (∀ m name t, g.resolve m name = .found t → ∀ b : Bindings, Bindings.Answers (b.read g t).2) ∧
    ∀ r₂, Run host moves { world } r₂ → Run host moves r₂ r' → ∀ m name, ∀ b : Bindings,
      Bindings.Answers (b.get g (Namespace.make r₂.graph m) name).2 := by
  intro r₁ g
  -- what is linked passed the check of its imports, and later uses of the registry keep that
  have growing := (Growing.empty host world).run before
  have linked : Step host moves r r₁ := .request (.link root) (by simp [handle, ok])
  have growing₁ : r₁.Growing host := (growing.step linked).1
  have growing' := growing₁.run later
  have keeps := growing₁.preserves later
  have checked : r'.Checked := checked_of_run ((before.tail linked).trans later)
  have hroot : (r₁.state root).isLinked = true := growing.isLinked_link ok
  refine ⟨fun m hm => ?_, fun m hm record name t ht => ?_, fun m record importName localName owner
    name b => Bindings.watch_ne_noExport, fun m name t ht b => ?_, fun r₂ run₂ run' m name b => ?_⟩
  · exact connectable_of_linkError?
      (checked m (growing'.isLinked_of_reaches hm (keeps.linked root hroot)))
  · have hm' := growing₁.isLinked_of_reaches hm hroot
    have shows := keeps.shows growing₁.toIdle
    have shown := shows.resolve (shows.closed m (.inl hm') record) ht
    rwa [← shows.dep m (.inl hm'), growing₁.moved_of_isLinked hm'] at shown
  · exact Bindings.answers_read (Graph.present_of_resolve ht)
  · have growing₂ := (Growing.empty host world).run run₂
    refine Bindings.answers_get fun p hp => ?_
    exact (growing₂.preserves run').present growing₂ (Namespace.present_of_make hp)

/-- After a link of `0`, its import stands for the variable that `1` exports. -/
theorem linked_imports_resolve_pair :
    (pair.link (throwing 2) 0).2 = .ok () ∧
    (pair.link (throwing 2) 0).1.graph.BindsOnce 0 0 [120] := by
  have ok : (pair.link (throwing 2) 0).2 = .ok () := by decide +kernel
  have graph : (pair.link (throwing 2) 0).1.graph.interface 0 = pair.graph.interface 0 := by
    decide +kernel
  obtain ⟨connectable, -⟩ :=
    linked_imports_resolve (run_pair (throwing 2) fun _ _ _ => True) ok .refl
  refine ⟨ok, (connectable 0 (.refl 0)).imports ⟨[120], [121], 0, 0⟩ ?_⟩
  rw [graph]
  decide

end Registry

end ModuleSystem
