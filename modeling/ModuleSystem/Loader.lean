import ModuleSystem.Bindings
import ModuleSystem.Future
import ModuleSystem.Loader.Load
import ModuleSystem.Registry.Link

/-!
# Importing modules

An import has two parts.  Loading resolves, reads and compiles every module reachable from the
imported one that the registry does not have yet.  Then, as a task of the event loop, the new
modules are added to the registry, the imported module is linked and evaluated, and the future of
the import is settled.  A failed load adds nothing, so that a later import starts afresh.
-/

namespace ModuleSystem

/-- What came of an import: the namespace of the module, or an error. -/
abbrev ImportResult := Except Stop Namespace

/-- The second part of an import. -/
structure ImportTask where
  /-- The number of the future to settle. -/
  future : Nat
  /-- The module to import and the modules that are new, or why loading failed. -/
  loaded : Except ModuleError (Text × List Loaded)

/-- The state of importing. -/
structure Loader (σ : Type) where
  options : Options
  resolver : Resolver
  registry : Registry σ
  loop : EventLoop ImportTask := {}
  futures : List (Future ImportResult) := []

namespace Loader

variable {σ : Type}

/-- A loader with an empty registry. -/
def new (fs : FileSystem) (options : Options) (world : σ) : Loader σ :=
  { options, resolver := Resolver.new fs options, registry := { world } }

/-- Resolves the import records of a module. A module imported as JSON must be a JSON file. -/
def resolveAll (options : Options) (fs : FileSystem) (path : Text) :
    List ImportRecord → Resolver → Resolver × Except ModuleError (List Text)
  | [], r => (r, .ok [])
  | record :: records, r =>
    match r.resolve fs record.path path with
    | (r, ⟨.error e, _⟩) => (r, .error (.notFound e))
    | (r, ⟨.ok dep, _⟩) =>
      if record.json && options.formatOf dep ≠ some .json then
        (r, .error (.notJson record.path path))
      else match resolveAll options fs path records r with
        | (r, .ok deps) => (r, .ok (dep :: deps))
        | (r, .error e) => (r, .error e)

/-- Reads and compiles a module and resolves its imports. -/
def loadModule (options : Options) (fs : FileSystem) (path : Text) (r : Resolver) :
    Resolver × Except ModuleError Loaded :=
  match r.files.read fs path with
  | (files, .error _) => ({ r with files }, .error (.notFound ⟨path, []⟩))
  | (files, .ok contents) =>
    let r := { r with files }
    let source : Source := { key := path, name := fs.prettyPath path, contents }
    match compile source (options.formatOf path) with
    | .error e => (r, .error (.compile e))
    | .ok compiled =>
      match resolveAll options fs path compiled.interface.records r with
      | (r, .error e) => (r, .error e)
      | (r, .ok deps) => (r, .ok { path, compiled, deps })

/-- Has the workers of a load do what is left, the first of them always first, in at most `fuel`
steps. -/
def loadPending (options : Options) (fs : FileSystem) (isKnown : Text → Bool) :
    Nat → Load → Resolver → Load × Resolver
  | 0, l, r => (l, r)
  | fuel + 1, l, r =>
    match l.workers with
    | [] => (l, r)
    | .loading path :: _ =>
      let (r, result) := loadModule options fs path r
      loadPending options fs isKnown fuel (l.advance isKnown (fun _ => result) 0) r
    | _ :: _ =>
      let load (path : Text) := (loadModule options fs path r).2
      loadPending options fs isKnown fuel (l.advance isKnown load 0) r

/-- Loads everything reachable from a specifier, in at most `fuel` steps; nothing if this is not
enough. -/
def load (l : Loader σ) (fs : FileSystem) (fuel : Nat) (specifier referer : Text) :
    Resolver × Option (Except ModuleError (Text × List Loaded)) :=
  match l.resolver.resolve fs specifier referer with
  | (r, ⟨.error e, _⟩) => (r, some (.error (.notFound e)))
  | (r, ⟨.ok root, _⟩) =>
    let isKnown (path : Text) : Bool := (l.registry.get? path).isSome
    let (search, r) := loadPending l.options fs isKnown fuel (Load.visit isKnown {} root) r
    (r, if search.workers.isEmpty then some (search.result root) else none)

/-- Begins an import: loads the modules and queues the rest of the work. An import that takes too
long to load keeps its ticket. The result is the number of the future. -/
def start (l : Loader σ) (fs : FileSystem) (fuel : Nat) (specifier referer : Text) :
    Loader σ × Nat :=
  let future := l.futures.length
  let futures := l.futures ++ [{}]
  let (loop, ticket) := l.loop.reserve
  match l.load fs fuel specifier referer with
  | (resolver, none) => ({ l with loop, resolver, futures }, future)
  | (resolver, some loaded) =>
    let loop := ((loop.release ticket (some { future, loaded })).getD loop).signal
    ({ l with loop, resolver, futures }, future)

/-- Adds a loaded module to the registry, unless another import has added it meanwhile. -/
def add (r : Registry σ) (m : Loaded) : Except Misuse (Registry σ) :=
  let (r, id, _) := r.getOrCreate m.path
  if r.state id ≠ .new then .ok r
  else
    let (r, deps) := r.getOrCreateAll m.deps
    r.attach id m.compiled deps

/-- Adds loaded modules to the registry. -/
def addAll (r : Registry σ) : List Loaded → Except Misuse (Registry σ)
  | [] => .ok r
  | m :: ms =>
    match add r m with
    | .ok r => addAll r ms
    | .error e => .error e

/-- Adds new modules, then links and evaluates the imported one. -/
def instantiate (host : Host σ) (r : Registry σ) (root : Text) (modules : List Loaded) :
    Registry σ × ImportResult :=
  match addAll r modules with
  | .error _ => (r, .error .misuse)
  | .ok r =>
    match r.get? root with
    | none => (r, .error .misuse)
    | some m =>
      match r.link host m with
      | (r, .error s) => (r, .error s)
      | (r, .ok ()) =>
        match r.evaluate host m with
        | (r, .error s) => (r, .error s)
        | (r, .ok ()) =>
          let (world, ns) := host.namespaceOf r.graph m r.world
          ({ r with world }, .ok ns)

/-- Runs the second part of an import. -/
def perform (host : Host σ) (l : Loader σ) (task : ImportTask) : Loader σ :=
  let (registry, result) := match task.loaded with
    | .error e => (l.registry, .error (.error e))
    | .ok (root, modules) => instantiate host l.registry root modules
  { l with
    registry
    futures := l.futures.modify task.future fun f => (f.settle result).getD f }

/-- Runs the tasks that are queued, one after the other. -/
def runTasks (host : Host σ) : List ImportTask → Loader σ → Loader σ
  | [], l => l
  | t :: ts, l => runTasks host ts (l.perform host t)

/-- Runs the tasks of the event loop until none is left. -/
def run (host : Host σ) (l : Loader σ) : Loader σ :=
  runTasks host l.loop.queue { l with loop := { l.loop with queue := [] } }

/-- The result of an import that is over. -/
def result? (l : Loader σ) (future : Nat) : Option ImportResult :=
  (l.futures[future]?).bind (·.result)

end Loader

end ModuleSystem
