import ModuleSystem.Bindings
import ModuleSystem.Registry.Walk

/-!
# Linking and evaluating

Linking checks that every import matches exactly one export and has every module instantiated.
Evaluation runs the bodies of modules, dependencies first and each of them once; a module that
fails keeps failing with the same error, and so does every module that depends on it.
-/

namespace ModuleSystem

/-- What runs modules. -/
structure Host (σ : Type) where
  /-- Prepares the module: its exports can be read and its imports are connected. -/
  instantiate : Graph → ModuleId → σ → σ × Except ModuleError Unit
  /-- Runs the body of the module. -/
  evaluate : Graph → ModuleId → σ → σ × Except ModuleError Unit
  /-- Hands the values of the exports of the module to those who import them. -/
  publish : Graph → ModuleId → σ → σ
  /-- The namespace of the module, the same one whenever it is asked for. -/
  namespaceOf : Graph → ModuleId → σ → σ × Namespace

namespace Graph

/-- The error of an import that does not resolve. The name is marked where it is spelled out at
the given place of the source. -/
def importError? (g : Graph) (m : ModuleId) (record : Nat) (name : Text) (start : Nat) :
    Option LinkError :=
  if name = Interface.star then none
  else
    let error (ambiguous : Bool) : LinkError :=
      let source := ((g.node m).compiled.map (·.source)).getD { contents := [] }
      let spelled := Text.startsWith (source.contents.drop start) name
      { importer := g.path m
        specifier := ((g.interface m).specifiers.getD record [])
        name, ambiguous
        location := source.locate start (if spelled then name.length else 0) }
    match g.resolve (g.dep m record) name with
    | .found _ => none
    | .missing => some (error false)
    | .ambiguous => some (error true)

/-- The first import or passed-on export of a module that does not resolve. -/
def linkError? (g : Graph) (m : ModuleId) : Option LinkError :=
  let i := g.interface m
  (i.namedImports.findSome? fun n => g.importError? m n.record n.importName n.start) <|>
    i.reExports.findSome? fun e => g.importError? m e.record e.importName e.start

end Graph

namespace Registry

variable {σ : Type}

/-- Has the host instantiate a module, once. -/
def instantiate (host : Host σ) (m : ModuleId) (r : Registry σ) :
    Registry σ × Except ModuleError Unit :=
  if (r.progressOf m).instantiated then (r, .ok ())
  else
    let r := r.update m fun p => { p with instantiated := true }
    match host.instantiate r.graph m r.world with
    | (world, .ok ()) => (note { r with world } (.instantiated m none), .ok ())
    | (world, .error e) => (note { r with world } (.instantiated m (some e)), .error e)

/-- Has the host run a module, and then hand on what it exports. -/
def runBody (host : Host σ) (m : ModuleId) (r : Registry σ) :
    Registry σ × Except ModuleError Unit :=
  match host.evaluate r.graph m r.world with
  | (world, .ok ()) =>
    (note { r with world := host.publish r.graph m world } (.ran m none), .ok ())
  | (world, .error e) => (note { r with world } (.ran m (some e)), .error e)

/-- The walk that links modules. -/
def linkPhase (host : Host σ) : Phase σ :=
  { arrival := fun
      | .new => .misuse
      | .unlinked => .enter
      | _ => .pass
    active := .linking
    done := .linked
    body := fun m r =>
      match r.graph.linkError? m with
      | some e => (r, .error (.link e))
      | none => instantiate host m r }

/-- The walk that evaluates modules. -/
def evaluatePhase (host : Host σ) : Phase σ :=
  { arrival := fun
      | .evaluating | .evaluated => .pass
      | .errored e => .fail e
      | .linked => .enter
      | _ => .misuse
    active := .evaluating
    done := .evaluated
    body := runBody host }

/-- Moves modules to a state, one after the other. -/
def moveAll (r : Registry σ) (ms : List ModuleId) (s : ModuleState) : Registry σ :=
  ms.foldl (fun r m => r.move m s) r

/-- Links a module and everything it imports from. After an error the modules that were being
linked are unlinked again. -/
def link (host : Host σ) (r : Registry σ) (root : ModuleId) : Registry σ × Except Stop Unit :=
  match Walk.run (linkPhase host) r root with
  | (w, .ok ()) => (w.registry, .ok ())
  | (w, .error .misuse) => (w.registry, .error .misuse)
  | (w, .error (.error e)) => (w.registry.moveAll w.stack.reverse .unlinked, .error (.error e))

/-- Evaluates a module and everything it imports from. After an error the modules that were being
evaluated have failed with it. -/
def evaluate (host : Host σ) (r : Registry σ) (root : ModuleId) : Registry σ × Except Stop Unit :=
  match Walk.run (evaluatePhase host) r root with
  | (w, .ok ()) => (w.registry, .ok ())
  | (w, .error .misuse) => (w.registry, .error .misuse)
  | (w, .error (.error e)) =>
    ((w.registry.moveAll w.stack.reverse (.errored e)).note (.failed root), .error (.error e))

end Registry

end ModuleSystem
