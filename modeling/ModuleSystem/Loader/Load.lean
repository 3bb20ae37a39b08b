import ModuleSystem.Registry
import ModuleSystem.Resolver

/-!
# Loading a module graph

Before modules can be linked, everything reachable from the imported module is read and compiled.
`Load` is the state of one such search.  Every module that is asked for has a worker of its own, and
the workers take their steps in any order (`Load.advance`): a worker looks whether the load has been
given up, waits for its module, and then asks for the dependencies of the module.  The first error is
kept.  After that the load is given up, and workers that have not begun to load fail at once.
-/

namespace ModuleSystem

/-- A module that is compiled but not part of the registry yet. -/
structure Loaded where
  path : Text
  compiled : Compiled
  /-- The paths of the modules of its import records. -/
  deps : List Text
deriving Repr

/-- Why a worker of a load fails. -/
inductive LoadError where
  /-- Its module cannot be loaded. -/
  | module (e : ModuleError)
  /-- The load has been given up. -/
  | canceled
deriving DecidableEq, Repr

/-- The error as others see it. -/
def LoadError.cause : LoadError → ModuleError
  | .module e => e
  | .canceled => .canceled

/-- Where a worker of a load stands. -/
inductive Worker where
  /-- About to look whether the load has been given up. -/
  | ready (path : Text)
  /-- Waiting for its module. -/
  | loading (path : Text)
  /-- Has its module, and is still to ask for these dependencies. -/
  | visiting (deps : List Text)
  /-- Has reported the first error, and is about to give the load up. -/
  | stopping
deriving DecidableEq, Repr

/-- The state of loading a module graph. -/
structure Load where
  /-- The modules that were asked for. -/
  visited : List Text := []
  /-- The workers that have something left to do. -/
  workers : List Worker := []
  loaded : List Loaded := []
  /-- The first error. -/
  error : Option LoadError := none
  /-- The load has been given up. -/
  canceled : Bool := false
deriving Repr

namespace Load

/-- Asks for a module, unless it was asked for before or is known already. -/
def visit (isKnown : Text → Bool) (l : Load) (path : Text) : Load :=
  if l.visited.contains path then l
  else
    let l := { l with visited := path :: l.visited }
    if isKnown path then l else { l with workers := l.workers ++ [.ready path] }

/-- A worker gets to another place. -/
def place (l : Load) (i : Nat) (w : Worker) : Load := { l with workers := l.workers.set i w }

/-- A worker has nothing left to do. -/
def leave (l : Load) (i : Nat) : Load := { l with workers := l.workers.eraseIdx i }

/-- A worker fails. The first error is kept, and whoever reports it gives the load up. -/
def fail (l : Load) (i : Nat) (e : LoadError) : Load :=
  match l.error with
  | none => { l.place i .stopping with error := some e }
  | some _ => l.leave i

/-- A step of a worker. `load` says what becomes of the modules that workers wait for. -/
def advance (isKnown : Text → Bool) (load : Text → Except ModuleError Loaded) (l : Load) (i : Nat) :
    Load :=
  match l.workers[i]? with
  | none => l
  | some (.ready path) => if l.canceled then l.fail i .canceled else l.place i (.loading path)
  | some (.loading path) =>
    match load path with
    | .ok m => { l.place i (.visiting m.deps) with loaded := l.loaded ++ [m] }
    | .error e => l.fail i (.module e)
  | some (.visiting (dep :: deps)) => (l.place i (.visiting deps)).visit isKnown dep
  | some (.visiting []) => l.leave i
  | some .stopping => { l.leave i with canceled := true }

/-- What a load has come to when its workers have nothing left to do. -/
def result (l : Load) (root : Text) : Except ModuleError (Text × List Loaded) :=
  match l.error with
  | some e => .error e.cause
  | none => .ok (root, l.loaded)

end Load

end ModuleSystem
