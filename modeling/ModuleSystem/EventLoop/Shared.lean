import ModuleSystem.EventLoop

/-!
# A shared event loop

An event loop, someone who runs it, and others who reserve tickets, hand them back and signal, all beside each
other.  A mutex guards the queue and the reservations.  What is done under it is done at once, except by the run,
which takes the mutex, looks, and gives it back in steps of their own: whoever needs the mutex meanwhile has to
wait.  A call that hands a ticket back signals after it has given the mutex back, so that there is a moment in
between.  Each step of the running loop (`EventLoop.advance`) is some of these steps.
-/

namespace ModuleSystem

/-- Where the run of a shared loop stands. -/
inductive RunStage (τ : Type) where
  /-- Nobody has run the loop yet. -/
  | unstarted
  /-- About to ask whether the context has ended. -/
  | ready
  /-- About to take the mutex. -/
  | locking
  /-- Has the mutex, and is about to look at the queue. -/
  | locked
  /-- Has the mutex, and the first task of the queue. -/
  | popped (task : τ)
  /-- Has given the mutex back, and is about to run the task. -/
  | due (task : τ)
  | running (task : τ)
  /-- Has the mutex; there are no tasks, and so many tickets have not been handed back. -/
  | noted (reserved : Nat)
  /-- Has given the mutex back, and goes by what it has noted. -/
  | unlocked (reserved : Nat)
  /-- Waiting for a signal, or for the end of the context. -/
  | waiting
  | returned (early : Option Interruption)
deriving DecidableEq, Repr

/-- Whether the run has the mutex. -/
def RunStage.hasMutex {τ : Type} : RunStage τ → Bool
  | .locked | .popped _ | .noted _ => true
  | _ => false

/-- A task that has left the queue and has not begun. -/
def RunStage.taken? {τ : Type} : RunStage τ → Option τ
  | .popped task | .due task => some task
  | _ => none

/-- An event loop and those who use it. A task is told from others by the ticket that it was queued with. -/
structure SharedLoop (τ : Type) where
  loop : EventLoop (Ticket × τ) := {}
  stage : RunStage (Ticket × τ) := .unstarted
  /-- Why the context of the run has ended. -/
  interrupted : Option Interruption := none
  /-- The tickets that have been handed back by calls which are still to signal. -/
  signalling : List Ticket := []
  /-- The tasks that have been queued, in the order of the queue. -/
  queued : List (Ticket × τ) := []
  /-- The tasks that have begun, in the order in which they did. -/
  executed : List (Ticket × τ) := []

/-- What can happen to a shared loop. The task that is running may do whatever others do. -/
inductive LoopAction (τ : Type) where
  | reserve
  /-- Someone hands a ticket back, with a task or without. -/
  | handBack (ticket : Ticket) (task : Option τ)
  /-- A call that has handed a ticket back signals. -/
  | signal (ticket : Ticket)
  /-- Someone runs the loop, in a context that may have ended already. -/
  | run (interrupted : Option Interruption)
  /-- The context of the run ends. -/
  | interrupt (i : Interruption)
  /-- The run takes a step. -/
  | turn
  /-- The run no longer waits, for its context has ended. -/
  | giveUp
deriving DecidableEq

namespace SharedLoop

variable {τ : Type}

/-- A step of the run; nothing if it has to wait, or if there is no run. -/
def turn (s : SharedLoop τ) : Option (SharedLoop τ) :=
  match s.stage with
  | .unstarted | .returned _ => none
  | .ready =>
    some { s with stage := match s.interrupted with | some i => .returned (some i) | none => .locking }
  | .locking => some { s with stage := .locked }
  | .locked =>
    match s.loop.queue with
    | task :: rest => some { s with loop := { s.loop with queue := rest }, stage := .popped task }
    | [] => some { s with stage := .noted s.loop.reserved.length }
  | .popped task => some { s with stage := .due task }
  | .due task => some { s with stage := .running task, executed := s.executed ++ [task] }
  | .running _ => some { s with stage := .ready }
  | .noted reserved => some { s with stage := .unlocked reserved }
  | .unlocked reserved => some { s with stage := if reserved = 0 then .returned none else .waiting }
  | .waiting =>
    if s.loop.signalled then some { s with loop := { s.loop with signalled := false }, stage := .ready } else none

/-- What an action leads to; nothing if it cannot happen now. To hand a ticket back for the second time is
refused, and changes nothing. -/
def act (s : SharedLoop τ) : LoopAction τ → Option (SharedLoop τ)
  | .reserve => if s.stage.hasMutex then none else some { s with loop := s.loop.reserve.1 }
  | .handBack ticket task =>
    if s.stage.hasMutex ∨ s.loop.issued ≤ ticket then none
    else
      let task := task.map fun task => (ticket, task)
      match s.loop.release ticket task with
      | none => some s
      | some loop =>
        some { s with loop, signalling := s.signalling ++ [ticket], queued := s.queued ++ task.toList }
  | .signal ticket =>
    if ticket ∈ s.signalling then
      some { s with loop := s.loop.signal, signalling := s.signalling.erase ticket }
    else none
  | .run interrupted =>
    match s.stage with
    | .unstarted | .returned _ => some { s with stage := .ready, interrupted }
    | _ => none
  | .interrupt i => some { s with interrupted := s.interrupted <|> some i }
  | .turn => s.turn
  | .giveUp =>
    match s.stage, s.interrupted with
    | .waiting, some i => some { s with stage := .returned (some i) }
    | _, _ => none

/-- The shared loop after a schedule of actions; nothing if one of them cannot happen when it is due. -/
def after (s : SharedLoop τ) (schedule : List (LoopAction τ)) : Option (SharedLoop τ) := schedule.foldlM act s

end SharedLoop

end ModuleSystem
