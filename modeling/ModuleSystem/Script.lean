import ModuleSystem.Bindings
import ModuleSystem.Registry.Link

/-!
# Scripts

A host for modules whose behaviour is written down as a script: the variables that have a value
from the start, and the assignments and reads that the body makes.  Every assignment is handed on
to the modules that import the variable.
-/

namespace ModuleSystem

/-- A step of the body of a module. -/
inductive ScriptStep where
  | set (var : Text) (value : Text)
  | throw (message : Text)
  /-- Logs the variable of an import. -/
  | log (var : Text)
  /-- Logs a name of an imported namespace. -/
  | read (var name : Text)
deriving DecidableEq, Repr

/-- What a module does. -/
structure Script where
  /-- The variables that have a value before the body runs. -/
  hoisted : List (Text × Text) := []
  /-- Instantiation fails with this message. -/
  failure : Option Text := none
  steps : List ScriptStep := []
deriving DecidableEq, Repr

/-- A line of the log of a host. -/
inductive LogLine where
  | instantiate (path : Text)
  | evaluate (path : Text)
  | imported (var : Text) (value : Option Imported)
  | found (var name : Text) (value : Except ModuleError (Option Value))
  | notNamespace (var : Text)

/-- The world of scripted modules. -/
structure Stage where
  /-- The scripts by the paths of the modules; a module without one does nothing. -/
  scripts : List (Text × Script) := []
  bindings : Bindings := {}
  log : List LogLine := []

namespace Stage

/-- The script of a module. -/
def script (s : Stage) (g : Graph) (m : ModuleId) : Script := (s.scripts.lookup (g.path m)).getD {}

/-- Adds a line to the log. -/
def say (s : Stage) (line : LogLine) : Stage := { s with log := s.log ++ [line] }

/-- The getters of the exports of a module: each reads the variable that is exported. -/
def getters (g : Graph) (m : ModuleId) : List (Text × Getter) :=
  (g.interface m).localExports.map fun e => (e.name, .variableNamed e.localName)

/-- Gives a module its variables and connects it with the others. -/
def instantiate (g : Graph) (m : ModuleId) (s : Stage) : Stage × Except ModuleError Unit :=
  let script := s.script g m
  let s := s.say (.instantiate (g.path m))
  let b := s.bindings.instantiate m (script.hoisted.map fun (k, v) => (k, .text v))
  match b.bindExports g m (getters g m) with
  | (b, .error e) => ({ s with bindings := b }, .error e)
  | (b, .ok ()) =>
    match b.watchAll g m (g.interface m).namedImports with
    | (b, .error e) => ({ s with bindings := b }, .error e)
    | (b, .ok ()) =>
      ({ s with bindings := b }, match script.failure with
        | some message => .error (.thrown message)
        | none => .ok ())

/-- Assigns to a variable of a module and hands its exports on. -/
def assign (g : Graph) (m : ModuleId) (s : Stage) (var value : Text) : Stage :=
  { s with bindings := (s.bindings.assign m var (.text value)).pushAll g m }

/-- The import that a variable of a module holds. -/
def imported? (m : ModuleId) (s : Stage) (var : Text) : Option Imported :=
  (s.bindings.instance? m).bind (·.imports.lookup var)

/-- Runs steps up to the first that throws. -/
def run (g : Graph) (m : ModuleId) : List ScriptStep → Stage → Stage × Except ModuleError Unit
  | [], s => (s, .ok ())
  | .set var value :: steps, s => run g m steps (s.assign g m var value)
  | .throw message :: _, s => (s, .error (.thrown message))
  | .log var :: steps, s =>
    run g m steps (s.say (.imported var (s.imported? m var)))
  | .read var name :: steps, s =>
    match s.imported? m var with
    | some ⟨.whole d, _⟩ =>
      let (b, ns) := s.bindings.namespaceOf g d
      let (b, value) := b.get g ns name
      run g m steps (say { s with bindings := b } (.found var name value))
    | _ => run g m steps (s.say (.notNamespace var))

/-- Runs the body of a module. -/
def evaluate (g : Graph) (m : ModuleId) (s : Stage) : Stage × Except ModuleError Unit :=
  run g m (s.script g m).steps (s.say (.evaluate (g.path m)))

/-- The host of scripted modules. -/
def host : Host Stage :=
  { instantiate
    evaluate
    publish := fun g m s => { s with bindings := s.bindings.pushAll g m }
    namespaceOf := fun g m s =>
      let (bindings, ns) := s.bindings.namespaceOf g m
      ({ s with bindings }, ns) }

end Stage

end ModuleSystem
