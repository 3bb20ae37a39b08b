import ModuleSystem.Event
import ModuleSystem.Graph.Export
import ModuleSystem.ModuleError

/-!
# The registry

The registry holds one record for each module and knows how far each of them has come:

    new → unlinked → linking → linked → evaluating → evaluated
                                                   ↘ errored

A module is `new` until its contents are attached.  A link that fails takes the modules it was
linking back to `unlinked`, so that a later import reports the problem again.  What modules do when
they are instantiated and evaluated is up to a host, which works on a world of its own.
-/

namespace ModuleSystem

/-- How far a module has come. -/
inductive ModuleState where
  | new
  | unlinked
  | linking
  | linked
  | evaluating
  | evaluated
  | errored (e : ModuleError)
deriving DecidableEq, Repr

/-- The word for a state. -/
def ModuleState.word : ModuleState → Text
  | .new => "new"
  | .unlinked => "unlinked"
  | .linking => "linking"
  | .linked => "linked"
  | .evaluating => "evaluating"
  | .evaluated => "evaluated"
  | .errored _ => "errored"

/-- What the registry knows of a module besides its place in the graph. -/
structure Progress where
  state : ModuleState := .new
  /-- The host was asked to instantiate the module. -/
  instantiated : Bool := false
  /-- The number of the module in the last walk that entered it. -/
  index : Nat := 0
  /-- The lowest number of a module that the last walk knew to be reachable. -/
  ancestor : Nat := 0
deriving DecidableEq, Repr

/-- Something that happened to a module. -/
inductive Happening where
  | moved (m : ModuleId) (source target : ModuleState)
  | instantiated (m : ModuleId) (error : Option ModuleError)
  | ran (m : ModuleId) (error : Option ModuleError)
  /-- The evaluation that started at the module failed. -/
  | failed (m : ModuleId)
deriving DecidableEq, Repr

/-- The modules, how far they have come, and the world of the host. -/
structure Registry (σ : Type) where
  graph : Graph := []
  /-- The progress of the modules, in the order of the graph. -/
  progress : List Progress := []
  world : σ
  /-- Everything that happened, the latest last. -/
  history : List Happening := []

/-- An operation was asked for that the state of a module does not allow. -/
structure Misuse where
deriving DecidableEq, Repr

namespace Registry

variable {σ : Type}

/-- The progress of a module. -/
def progressOf (r : Registry σ) (m : ModuleId) : Progress := r.progress[m]?.getD {}

/-- The state of a module. -/
def state (r : Registry σ) (m : ModuleId) : ModuleState := (r.progressOf m).state

/-- Changes the progress of a module. -/
def update (r : Registry σ) (m : ModuleId) (f : Progress → Progress) : Registry σ :=
  { r with progress := r.progress.modify m f }

/-- Takes note of something. -/
def note (r : Registry σ) (h : Happening) : Registry σ := { r with history := r.history ++ [h] }

/-- Moves a module to a state. -/
def move (r : Registry σ) (m : ModuleId) (s : ModuleState) : Registry σ :=
  (r.update m fun p => { p with state := s }).note (.moved m (r.state m) s)

/-- The module with a path, and whether it was created just now. -/
def getOrCreate (r : Registry σ) (path : Text) : Registry σ × ModuleId × Bool :=
  match r.graph.find? path with
  | some m => (r, m, false)
  | none =>
    ({ r with graph := r.graph ++ [{ path }], progress := r.progress ++ [{}] },
      r.graph.length, true)

/-- The modules with some paths, in their order. -/
def getOrCreateAll (r : Registry σ) : List Text → Registry σ × List ModuleId
  | [] => (r, [])
  | path :: paths =>
    let (r, m, _) := r.getOrCreate path
    let (r, ms) := r.getOrCreateAll paths
    (r, m :: ms)

/-- The module with a path, if its contents are attached. -/
def get? (r : Registry σ) (path : Text) : Option ModuleId :=
  match r.graph.find? path with
  | some m => if (r.graph.node m).compiled.isSome then some m else none
  | none => none

/-- The number of modules. -/
def size (r : Registry σ) : Nat := r.graph.length

/-- Attaches the contents of a new module and the modules of its import records. -/
def attach (r : Registry σ) (m : ModuleId) (c : Compiled) (deps : List ModuleId) :
    Except Misuse (Registry σ) :=
  if r.state m ≠ .new || deps.length ≠ c.interface.records.length then .error {}
  else
    let graph := r.graph.modify m fun n => { n with compiled := some c, deps }
    .ok (move { r with graph } m .unlinked)

/-- What happened as events for operators. -/
def events (r : Registry σ) (hs : List Happening) : List Event :=
  hs.filterMap fun
    | .moved m source target =>
      some { level := .debug, message := "module state"
             fields := [("id", .text (r.graph.path m)), ("from", .text source.word),
               ("to", .text target.word)] }
    | .failed m =>
      some { level := .info, message := "module evaluation failed"
             fields := [("id", .text (r.graph.path m))] }
    | _ => none

end Registry

end ModuleSystem
