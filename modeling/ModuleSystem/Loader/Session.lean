import ModuleSystem.Loader

/-!
# Sessions

Imports that are under way beside each other, and beside the event loop that runs their tasks.  A
session moves by actions of those who take part in it (`Session.act`), in any order: callers begin
imports and add callbacks, workers load modules, the loop runs one task after the other, and a task
adds its modules to the registry one by one, so that workers see them come.  Each action is what one of
them does without being disturbed.

Files may change at any time, and so may the caches of those who read them; an action that reads files
says what it finds.
-/

namespace ModuleSystem

/-- How far the first part of an import has come. -/
inductive ImportPhase where
  /-- Its specifier is still to be resolved. -/
  | resolving
  /-- Its specifier leads to no file. -/
  | refused (e : NotFound)
  /-- The modules that it needs are being loaded. -/
  | loading (root : Text) (l : Load)
  /-- The event loop has got what came of it. -/
  | ended (loaded : Except ModuleError (Text × List Loaded))

/-- What came of the first part of an import, when it has ended and the event loop is still to get
it. -/
def ImportPhase.outcome? : ImportPhase → Option (Except ModuleError (Text × List Loaded))
  | .refused e => some (.error (.notFound e))
  | .loading root l => if l.workers.isEmpty then some (l.result root) else none
  | _ => none

/-- An import. -/
structure Import where
  specifier : Text
  referer : Text
  /-- The right to queue the task of the import. -/
  ticket : Ticket
  phase : ImportPhase := .resolving

/-- How far the task of an import has come. -/
inductive TaskStage where
  /-- Some modules are still to be added to the registry, in any order. -/
  | adding (root : Text) (rest : List Loaded)
  /-- The module `m` is new and has its place; its dependencies get theirs, one after the other. -/
  | connecting (root : Text) (rest : List Loaded) (place : ModuleId) (m : Loaded)
      (deps : List ModuleId)
  | linking (root : ModuleId)
  | evaluating (root : ModuleId)
  /-- The future is to be settled. -/
  | settling (result : ImportResult)
  /-- The callbacks are running that have waited for the future. -/
  | calling

namespace TaskStage

/-- The first stage of a task, given what the import has loaded. -/
def first : Except ModuleError (Text × List Loaded) → TaskStage
  | .error e => .settling (.error (.error e))
  | .ok (root, modules) => .adding root modules

/-- A step of a task on the registry. Of the modules that are still to be added, `pick` says which is
next. -/
def advance {σ : Type} (host : Host σ) (pick : Nat) (r : Registry σ) :
    TaskStage → Option (Registry σ × TaskStage)
  | .adding root [] =>
    match r.get? root with
    | some m => some (r, .linking m)
    | none => some (r, .settling (.error .misuse))
  | .adding root rest =>
    match rest[pick]? with
    | none => none
    | some m =>
      let (r, place, _) := r.getOrCreate m.path
      let rest := rest.eraseIdx pick
      some (r, if r.state place = .new then .connecting root rest place m [] else .adding root rest)
  | .connecting root rest place m deps =>
    match m.deps[deps.length]? with
    | some path =>
      let (r, d, _) := r.getOrCreate path
      some (r, .connecting root rest place m (deps ++ [d]))
    | none =>
      match r.attach place m.compiled deps with
      | .ok r => some (r, .adding root rest)
      | .error _ => some (r, .settling (.error .misuse))
  | .linking m =>
    match r.link host m with
    | (r, .ok ()) => some (r, .evaluating m)
    | (r, .error s) => some (r, .settling (.error s))
  | .evaluating m =>
    match r.evaluate host m with
    | (r, .ok ()) =>
      let (world, ns) := host.namespaceOf r.graph m r.world
      some ({ r with world }, .settling (.ok ns))
    | (r, .error s) => some (r, .settling (.error s))
  | .settling _ | .calling => none

end TaskStage

/-- Imports and the event loop. -/
structure Session (σ : Type) where
  options : Options
  registry : Registry σ
  loop : EventLoop ImportTask := {}
  futures : List (Future ImportResult) := []
  /-- The imports, in the order of their futures. -/
  imports : List Import := []
  /-- Where the run of the loop stands. -/
  position : EventLoop.Position ImportTask := .returned none
  /-- How far the running task has come. -/
  stage : TaskStage := .calling

/-- What can happen in a session. -/
inductive Action (σ : Type) where
  /-- Someone begins an import. -/
  | start (specifier referer : Text)
  /-- The specifier of an import is resolved. -/
  | resolve (i : Nat) (fs : FileSystem) (caches : Resolver)
  /-- A worker of an import takes a step. -/
  | work (i worker : Nat) (fs : FileSystem) (caches : Resolver)
  /-- The first part of an import has ended, and the event loop gets what came of it. -/
  | handOver (i : Nat)
  /-- Someone runs the loop. -/
  | run
  /-- The loop takes a step between two tasks. -/
  | turn (interrupted : Option Interruption)
  /-- The running task takes a step. -/
  | proceed (pick : Nat)
  /-- Someone adds a callback to the future of an import. -/
  | andThen (i : Nat) (c : Callback)
  /-- The next callback of a lot runs. -/
  | call (i lot : Nat)
  /-- The host does something of its own. -/
  | play (f : σ → σ)

namespace Session

variable {σ : Type}

/-- A session in which nothing has happened. -/
def new (options : Options) (world : σ) : Session σ := { options, registry := { world } }

/-- The registry has the module with a path. -/
def isKnown (s : Session σ) (path : Text) : Bool := (s.registry.get? path).isSome

/-- An import gets to another phase. -/
def setPhase (s : Session σ) (i : Nat) (phase : ImportPhase) : Session σ :=
  { s with imports := s.imports.modify i fun x => { x with phase } }

/-- Whoever has settled the future of an import has run all the callbacks that had waited for it. -/
def hasTold (s : Session σ) (i : Nat) : Bool :=
  ((s.futures[i]?).bind (·.due.head?)).all (·.rest.isEmpty)

/-- The loop can take a step, if it may have been interrupted. -/
def mayTurn (s : Session σ) (interrupted : Option Interruption) : Bool :=
  match s.position, s.stage with
  | .running t, .calling => s.hasTold t.future
  | .running _, _ => false
  | .waiting, _ => s.loop.signalled || interrupted.isSome
  | .returned _, _ => false
  | _, _ => true

/-- The running task takes a step. -/
def proceed (host : Host σ) (s : Session σ) (t : ImportTask) (pick : Nat) : Option (Session σ) :=
  match s.stage with
  | .settling result =>
    match (s.futures[t.future]?).bind (·.fulfil result) with
    | some f => some { s with futures := s.futures.set t.future f, stage := .calling }
    | none => none
  | stage =>
    match stage.advance host pick s.registry with
    | some (registry, stage) => some { s with registry, stage }
    | none => none

/-- The session after an action; nothing if it cannot happen now. -/
def act (host : Host σ) (s : Session σ) : Action σ → Option (Session σ)
  | .start specifier referer =>
    let (loop, ticket) := s.loop.reserve
    some { s with
      loop
      futures := s.futures ++ [{}]
      imports := s.imports ++ [{ specifier, referer, ticket }] }
  | .resolve i fs caches =>
    match s.imports[i]? with
    | some ⟨specifier, referer, _, .resolving⟩ =>
      some <| s.setPhase i <| match (caches.resolve fs specifier referer).2.result with
        | .error e => .refused e
        | .ok root => .loading root (Load.visit s.isKnown {} root)
    | _ => none
  | .work i worker fs caches =>
    match s.imports[i]? with
    | some ⟨_, _, _, .loading root l⟩ =>
      if worker < l.workers.length then
        let load (path : Text) := (Loader.loadModule s.options fs path caches).2
        some (s.setPhase i (.loading root (l.advance s.isKnown load worker)))
      else none
    | _ => none
  | .handOver i =>
    match s.imports[i]? with
    | some x =>
      match x.phase.outcome? with
      | some loaded =>
        match s.loop.release x.ticket (some { future := i, loaded }) with
        | some loop => some (setPhase { s with loop := loop.signal } i (.ended loaded))
        | none => none
      | none => none
    | none => none
  | .run =>
    match s.position with
    | .returned _ => some { s with position := .ready }
    | _ => none
  | .turn interrupted =>
    if s.mayTurn interrupted then
      let (loop, position) := s.loop.advance interrupted s.position
      let stage := match position with
        | .running t => TaskStage.first t.loaded
        | _ => .calling
      some { s with loop, position, stage }
    else none
  | .proceed pick =>
    match s.position with
    | .running t => s.proceed host t pick
    | _ => none
  | .andThen i c =>
    match s.futures[i]? with
    | some f => some { s with futures := s.futures.set i (f.add c) }
    | none => none
  | .call i lot =>
    match s.futures[i]? with
    | some f =>
      match (f.due[lot]?).map (·.rest) with
      | some (_ :: _) => some { s with futures := s.futures.set i (f.call lot) }
      | _ => none
    | none => none
  | .play f => some { s with registry := { s.registry with world := f s.registry.world } }

/-- The session after a schedule of actions; nothing if one of them cannot happen when it is due. -/
def run (host : Host σ) (s : Session σ) : List (Action σ) → Option (Session σ)
  | [] => some s
  | a :: schedule => (s.act host a).bind fun s => s.run host schedule

end Session

end ModuleSystem
