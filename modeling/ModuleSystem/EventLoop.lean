/-!
# The event loop

Tasks are run one at a time, in the order in which they were queued.  Work that is done elsewhere
holds a ticket: the loop does not end before every ticket has been handed back, and handing one
back may queue a task.  `EventLoop.advance` is one step of the running loop; between any two of its
steps others may reserve tickets, hand them back and signal.
-/

namespace ModuleSystem

/-- The right to queue one task. -/
abbrev Ticket := Nat

/-- Why a run of the loop ended early. -/
inductive Interruption where
  | canceled
  | deadline
deriving DecidableEq, Repr

/-- An event loop. -/
structure EventLoop (τ : Type) where
  /-- The tasks that are still to be run, the next one first. -/
  queue : List τ := []
  /-- The tickets that have not been handed back. -/
  reserved : List Ticket := []
  /-- The number of tickets given out so far. -/
  issued : Nat := 0
  /-- A waiting loop is to look at the queue again. -/
  signalled : Bool := false
deriving Repr

namespace EventLoop

variable {τ : Type}

/-- Gives out a ticket. -/
def reserve (l : EventLoop τ) : EventLoop τ × Ticket :=
  ({ l with reserved := l.reserved ++ [l.issued], issued := l.issued + 1 }, l.issued)

/-- Takes a ticket back and queues its task, if there is one. A ticket can be handed back once. -/
def release (l : EventLoop τ) (ticket : Ticket) (task : Option τ) : Option (EventLoop τ) :=
  if l.reserved.contains ticket then
    some { l with reserved := l.reserved.erase ticket, queue := l.queue ++ task.toList }
  else none

/-- Wakes the loop. -/
def signal (l : EventLoop τ) : EventLoop τ := { l with signalled := true }

/-- Where a run of the loop stands. -/
inductive Position (τ : Type) where
  /-- About to ask whether it may go on. -/
  | ready
  /-- About to look at the queue. -/
  | looking
  /-- Waiting for a signal. -/
  | waiting
  /-- Running a task. -/
  | running (task : τ)
  /-- Over, early or because nothing was left to do. -/
  | returned (early : Option Interruption)
deriving DecidableEq, Repr

/-- One step of a run, given whether it has been interrupted. A run that waits for a signal that
has not come stays where it is. -/
def advance (interrupted : Option Interruption) (l : EventLoop τ) :
    Position τ → EventLoop τ × Position τ
  | .ready =>
    match interrupted with
    | some i => (l, .returned (some i))
    | none => (l, .looking)
  | .looking =>
    match l.queue with
    | task :: rest => ({ l with queue := rest }, .running task)
    | [] => (l, if l.reserved.isEmpty then .returned none else .waiting)
  | .waiting =>
    if l.signalled then ({ l with signalled := false }, .ready)
    else match interrupted with
      | some i => (l, .returned (some i))
      | none => (l, .waiting)
  | .running _ => (l, .ready)
  | .returned early => (l, .returned early)

end EventLoop

end ModuleSystem
