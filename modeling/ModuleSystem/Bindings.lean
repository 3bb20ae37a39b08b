import ModuleSystem.Graph.Export
import ModuleSystem.ModuleError

/-!
# Live bindings

The variables of modules and the connections between them.  An exporting module offers a getter for
each variable it exports; an importing module has a variable of its own for each import, and a
watcher that receives every value the exporting module hands on.  A namespace reads through to the
getters whenever it is asked.
-/

namespace ModuleSystem

/-- What a variable holds. -/
inductive Value where
  | text (t : Text)
  /-- The namespace of a module. -/
  | whole (m : ModuleId)
deriving DecidableEq, Repr

/-- How the value of an export is found. -/
inductive Getter where
  /-- It is the value of a variable of the exporting module. -/
  | variableNamed (name : Text)
  | constant (v : Value)
deriving DecidableEq, Repr

/-- A variable of an importing module that receives the values of an export. -/
structure Watcher where
  importer : ModuleId
  localName : Text
deriving DecidableEq, Repr

/-- An exported binding. -/
structure Slot where
  getter : Option Getter := none
  watchers : List Watcher := []
deriving DecidableEq, Repr

/-- A variable that holds an import: its value, and how often it was assigned. -/
structure Imported where
  value : Value
  pushes : Nat
deriving DecidableEq, Repr

/-- The variables of an instantiated module. -/
structure Instance where
  locals : List (Text × Value) := []
  imports : List (Text × Imported) := []
deriving DecidableEq, Repr

/-- The view of a module as a whole. Its keys are fixed when it is made. -/
structure Namespace where
  owner : ModuleId
  /-- The exported names that stand for exactly one thing, in ascending order. -/
  keys : List Text
  targets : List (Text × Target)
deriving DecidableEq, Repr

/-- The variables of all modules, and the connections between them. -/
structure Bindings where
  /-- By the exporting module and the exported name. -/
  slots : List ((ModuleId × Text) × Slot) := []
  instances : List (ModuleId × Instance) := []
  namespaces : List (ModuleId × Namespace) := []
deriving DecidableEq, Repr

/-- The namespace that a module gets: the exported names that stand for exactly one thing. -/
def Namespace.make (g : Graph) (m : ModuleId) : Namespace :=
  let targets := (g.exportedNames m).filterMap fun name =>
    (g.resolve m name).target?.map fun t => (name, t)
  { owner := m, keys := Text.sort (targets.map (·.1)), targets }

namespace Bindings

/-- The slot of an export. -/
def slot (b : Bindings) (m : ModuleId) (name : Text) : Slot := (b.slots.lookup (m, name)).getD {}

/-- The variables of a module; none before it is instantiated. -/
def instance? (b : Bindings) (m : ModuleId) : Option Instance := b.instances.lookup m

/-- Changes a slot. -/
def updateSlot (b : Bindings) (m : ModuleId) (name : Text) (f : Slot → Slot) : Bindings :=
  { b with slots := Table.alter (m, name) (fun s => f (s.getD {})) b.slots }

/-- Changes the variables of a module. -/
def updateInstance (b : Bindings) (m : ModuleId) (f : Instance → Instance) : Bindings :=
  { b with instances := Table.alter m (fun i => f (i.getD {})) b.instances }

/-- Gives a module new variables. Watchers of old ones have nothing left to assign to. -/
def instantiate (b : Bindings) (m : ModuleId) (locals : List (Text × Value)) : Bindings :=
  { b with
    slots := b.slots.map fun (k, s) =>
      (k, { s with watchers := s.watchers.filter fun w => w.importer ≠ m })
    instances := Table.set m { locals } b.instances }

/-- Assigns to a variable of a module. -/
def assign (b : Bindings) (m : ModuleId) (name : Text) (v : Value) : Bindings :=
  b.updateInstance m fun i => { i with locals := Table.set name v i.locals }

/-- Hands a value to a watcher. -/
def deliver (b : Bindings) (w : Watcher) (v : Value) : Bindings :=
  let next (before : Option Imported) : Imported := ⟨v, (before.map (·.pushes)).getD 0 + 1⟩
  b.updateInstance w.importer fun i => { i with imports := Table.alter w.localName next i.imports }

/-- The value of an export, by the name it is exported under. -/
def valueOf (b : Bindings) (m : ModuleId) (name : Text) : Except ModuleError Value :=
  match (b.slot m name).getter with
  | none => .error (.uninitialized name)
  | some (.constant v) => .ok v
  | some (.variableNamed var) =>
    match (b.instance? m).bind (·.locals.lookup var) with
    | some v => .ok v
    | none => .error (.uninitialized var)

/-- Hands the value of an export to everyone who watches it, if it has one. -/
def push (b : Bindings) (m : ModuleId) (name : Text) : Bindings :=
  match b.valueOf m name with
  | .ok v => (b.slot m name).watchers.foldl (fun b w => b.deliver w v) b
  | .error _ => b

/-- Hands on the values of all exports of a module. -/
def pushAll (g : Graph) (m : ModuleId) (b : Bindings) : Bindings :=
  (g.interface m).localExports.foldl (fun b e => b.push m e.name) b

/-- Gives getters to exports of a module. -/
def setGetters (g : Graph) (m : ModuleId) :
    List (Text × Getter) → Bindings → Bindings × Except ModuleError Unit
  | [], b => (b, .ok ())
  | (name, getter) :: rest, b =>
    if g.exportsLocally m name then
      setGetters g m rest (b.updateSlot m name fun s => { s with getter := some getter })
    else (b, .error (.noExport (g.path m) name))

/-- Gives getters to exports of a module, and hands on what they find at once: this is what makes
values of an early module visible across a cycle. -/
def bindExports (g : Graph) (m : ModuleId) (getters : List (Text × Getter)) (b : Bindings) :
    Bindings × Except ModuleError Unit :=
  match setGetters g m getters b with
  | (b, .ok ()) => (b.pushAll g m, .ok ())
  | (b, .error e) => (b, .error e)

/-- The namespace of a module, made the first time it is asked for. -/
def namespaceOf (g : Graph) (b : Bindings) (m : ModuleId) : Bindings × Namespace :=
  match b.namespaces.lookup m with
  | some ns => (b, ns)
  | none =>
    let ns := Namespace.make g m
    ({ b with namespaces := b.namespaces ++ [(m, ns)] }, ns)

/-- The value of what an exported name stands for. A name that the module does not declare has no slot
to read from. -/
def read (g : Graph) (b : Bindings) : Target → Bindings × Except ModuleError Value
  | .whole m => ((b.namespaceOf g m).1, .ok (.whole m))
  | .slot m name =>
    (b, if g.exportsLocally m name then b.valueOf m name else .error (.noExport (g.path m) name))

/-- The value of a name in a namespace; none for a name that is not in it. -/
def get (g : Graph) (b : Bindings) (ns : Namespace) (name : Text) :
    Bindings × Except ModuleError (Option Value) :=
  match ns.targets.lookup name with
  | none => (b, .ok none)
  | some t =>
    let (b, v) := b.read g t
    (b, v.map some)

/-- Connects a variable of a module to what it imports. The variable gets the present value at
once, if there is one. -/
def watch (g : Graph) (importer : ModuleId) (record : Nat) (importName localName : Text)
    (b : Bindings) :
    Bindings × Except ModuleError Unit :=
  let watcher : Watcher := ⟨importer, localName⟩
  let whole (m : ModuleId) : Bindings × Except ModuleError Unit :=
    (deliver (b.namespaceOf g m).1 watcher (.whole m), .ok ())
  let failed (ambiguous : Bool) : Bindings × Except ModuleError Unit :=
    let specifier := (g.interface importer).specifiers.getD record []
    (b, .error (.link { importer := g.path importer, specifier, name := importName, ambiguous }))
  match (g.deps importer)[record]? with
  | none => (b, .error (.noRecord (g.path importer) record))
  | some d =>
    if importName = Interface.star then whole d
    else match g.resolve d importName with
      | .missing => failed false
      | .ambiguous => failed true
      | .found (.whole m) => whole m
      | .found (.slot m name) =>
        if g.exportsLocally m name then
          let b := b.updateSlot m name fun s => { s with watchers := s.watchers ++ [watcher] }
          match b.valueOf m name with
          | .ok v => (b.deliver watcher v, .ok ())
          | .error _ => (b, .ok ())
        else (b, .error (.noExport (g.path m) name))

/-- Connects variables of a module to its imports. -/
def watchAll (g : Graph) (importer : ModuleId) :
    List NamedImport → Bindings → Bindings × Except ModuleError Unit
  | [], b => (b, .ok ())
  | n :: ns, b =>
    match b.watch g importer n.record n.importName n.localName with
    | (b, .error e) => (b, .error e)
    | (b, .ok ()) => watchAll g importer ns b

end Bindings

end ModuleSystem
