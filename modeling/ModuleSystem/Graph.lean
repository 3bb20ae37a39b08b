import ModuleSystem.Compile

/-!
# Module graphs

Modules and the modules that they import from.  A module is known by its place in the graph; it may
be known before its contents are, because another module imports from it.
-/

namespace ModuleSystem

/-- The place of a module in a graph. -/
abbrev ModuleId := Nat

/-- A module of a graph. -/
structure Node where
  /-- The path that identifies the module. -/
  path : Text
  /-- The compiled module, once it is loaded. -/
  compiled : Option Compiled := none
  /-- The modules of the import records, in their order. -/
  deps : List ModuleId := []
deriving Repr

/-- What the module imports and exports; nothing before it is loaded. -/
def Node.interface (n : Node) : Interface := (n.compiled.map (·.interface)).getD {}

/-- A module graph. -/
abbrev Graph := List Node

namespace Graph

/-- The module at a place. -/
def node (g : Graph) (m : ModuleId) : Node := g[m]?.getD { path := [] }

/-- The path of a module. -/
def path (g : Graph) (m : ModuleId) : Text := (g.node m).path

/-- The interface of a module. -/
def interface (g : Graph) (m : ModuleId) : Interface := (g.node m).interface

/-- The modules that a module imports from. -/
def deps (g : Graph) (m : ModuleId) : List ModuleId := (g.node m).deps

/-- The module of an import record. -/
def dep (g : Graph) (m : ModuleId) (record : Nat) : ModuleId := (g.deps m).getD record g.length

/-- The place of the module with a path. -/
def find? (g : Graph) (path : Text) : Option ModuleId := List.findIdx? (fun n => n.path = path) g

/-- The module exports a variable of its own under a name. -/
def exportsLocally (g : Graph) (m : ModuleId) (name : Text) : Bool :=
  (g.interface m).localExports.any fun e => e.name = name

/-- A module can be reached from another one by following imports. -/
inductive Reaches (g : Graph) : ModuleId → ModuleId → Prop where
  | refl (m : ModuleId) : Reaches g m m
  | step {m d n : ModuleId} (h : d ∈ g.deps m) (t : Reaches g d n) : Reaches g m n

theorem Reaches.dep {g : Graph} {m d : ModuleId} (h : d ∈ g.deps m) : g.Reaches m d :=
  .step h (.refl d)

theorem Reaches.trans {g : Graph} {m n o : ModuleId} (h : g.Reaches m n) (h' : g.Reaches n o) :
    g.Reaches m o := by
  induction h with
  | refl => exact h'
  | step hd _ ih => exact .step hd (ih h')

end Graph

end ModuleSystem
