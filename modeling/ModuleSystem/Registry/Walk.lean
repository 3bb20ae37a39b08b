import ModuleSystem.Registry

/-!
# Walking the graph by components

Linking and evaluation walk the graph depth first, dependencies before the modules that import
them.  Modules that import each other in a cycle change their state together: each module has the
number at which the walk entered it, and knows the lowest number it can reach among the modules
still open; a module that reaches no lower one than its own closes itself and everything entered
after it.
-/

namespace ModuleSystem

/-- What a walk does with a module that it comes to. -/
inductive Arrival where
  | enter
  | pass
  | fail (e : ModuleError)
  | misuse
deriving DecidableEq, Repr

/-- Why a walk ends early. -/
inductive Stop where
  | error (e : ModuleError)
  | misuse
deriving DecidableEq, Repr

/-- A kind of walk. -/
structure Phase (σ : Type) where
  arrival : ModuleState → Arrival
  /-- The state of the modules that are entered and not yet closed. -/
  active : ModuleState
  /-- The state of the modules that are closed. -/
  done : ModuleState
  /-- What is done for a module when all its dependencies have been visited. -/
  body : ModuleId → Registry σ → Registry σ × Except ModuleError Unit

/-- A walk under way. -/
structure Walk (σ : Type) where
  registry : Registry σ
  /-- The modules that are entered and not yet closed, the latest first. -/
  stack : List ModuleId := []
  /-- The number of the next module to enter. -/
  next : Nat := 0

namespace Walk

variable {σ : Type}

/-- Enters a module. -/
def enter (w : Walk σ) (active : ModuleState) (m : ModuleId) : Walk σ :=
  { registry := (w.registry.move m active).update m fun p =>
      { p with index := w.next, ancestor := w.next }
    stack := m :: w.stack
    next := w.next + 1 }

/-- A module reaches whatever a dependency that is still open reaches. -/
def inherit (w : Walk σ) (active : ModuleState) (m d : ModuleId) : Walk σ :=
  let low := (w.registry.progressOf d).ancestor
  if w.registry.state d = active && low < (w.registry.progressOf m).ancestor then
    { w with registry := w.registry.update m fun p => { p with ancestor := low } }
  else w

/-- Visits the dependencies of a module one after the other. -/
def visitAll (visit : ModuleId → Walk σ → Walk σ × Except Stop Unit) (active : ModuleState)
    (m : ModuleId) : List ModuleId → Walk σ → Walk σ × Except Stop Unit
  | [], w => (w, .ok ())
  | d :: ds, w =>
    match visit d w with
    | (w, .error s) => (w, .error s)
    | (w, .ok ()) => visitAll visit active m ds (w.inherit active m d)

/-- Closes the component of a module if the module is the first of it that was entered. -/
def close (w : Walk σ) (done : ModuleState) (m : ModuleId) : Walk σ :=
  let p := w.registry.progressOf m
  if p.ancestor = p.index then
    let component := w.stack.takeWhile (· ≠ m) ++ [m]
    { w with
      registry := component.foldl (fun r x => r.move x done) w.registry
      stack := (w.stack.dropWhile (· ≠ m)).drop 1 }
  else w

/-- Visits a module and what it imports from, at most `fuel` modules deep. -/
def visit (phase : Phase σ) : Nat → ModuleId → Walk σ → Walk σ × Except Stop Unit
  | 0, _, w => (w, .error .misuse)
  | fuel + 1, m, w =>
    match phase.arrival (w.registry.state m) with
    | .pass => (w, .ok ())
    | .fail e => (w, .error (.error e))
    | .misuse => (w, .error .misuse)
    | .enter =>
      let deps := w.registry.graph.deps m
      match visitAll (visit phase fuel) phase.active m deps (w.enter phase.active m) with
      | (w, .error s) => (w, .error s)
      | (w, .ok ()) =>
        match phase.body m w.registry with
        | (registry, .error e) => ({ w with registry }, .error (.error e))
        | (registry, .ok ()) => (close { w with registry } phase.done m, .ok ())

/-- Walks from a module. A path through open modules repeats none of them, so the size of the
graph bounds its length. -/
def run (phase : Phase σ) (r : Registry σ) (root : ModuleId) : Walk σ × Except Stop Unit :=
  visit phase (r.size + 2) root { registry := r }

end Walk

end ModuleSystem
