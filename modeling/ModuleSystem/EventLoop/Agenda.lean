import ModuleSystem.EventLoop
import ModuleSystem.Text

/-!
# Agendas

A program for an event loop: orders to reserve tickets under names, to hand them back with tasks, to
run the loop and to interrupt it.  Tasks are lists of orders again.
-/

namespace ModuleSystem

/-- How a run of the loop may end early. -/
inductive RunMode where
  /-- When it is canceled. -/
  | free
  /-- At once, for it is canceled from the start. -/
  | canceled
  /-- When there is nothing to do but to wait, for it has little time. -/
  | timed
deriving DecidableEq, Repr

/-- An order. -/
inductive Order where
  /-- Reserve a ticket and remember it under a name. -/
  | reserve (name : Text)
  /-- Hand the ticket of a name back, with a task that has a label. -/
  | release (name : Text) (task : Option (Text × List Order))
  /-- Cancel the latest run. -/
  | cancel
  | run (mode : RunMode)
deriving Inhabited

/-- What came of an order. -/
inductive Report where
  | nothing
  | misuse
  /-- The tasks that a run has finished, and why it ended early. -/
  | ran (tasks : List (Text × List Report)) (early : Option Interruption)

mutual

/-- The number of orders in an order. -/
def Order.size : Order → Nat
  | .release _ (some (_, orders)) => 1 + Order.sizeAll orders
  | _ => 1

/-- The number of orders in a list. -/
def Order.sizeAll : List Order → Nat
  | [] => 0
  | o :: os => o.size + Order.sizeAll os

end

/-- The work on an agenda. -/
structure Agenda where
  loop : EventLoop (Text × List Order) := {}
  /-- The tickets by name, the latest first. -/
  tickets : List (Text × Ticket) := []
  /-- Whether each run so far has been interrupted. -/
  runs : List (Option Interruption) := []
  /-- The finished tasks. -/
  finished : List (Text × List Report) := []

namespace Agenda

/-- Hands a ticket back and wakes the loop. -/
def release (a : Agenda) (name : Text) (task : Option (Text × List Order)) : Agenda × Report :=
  match (a.tickets.lookup name).bind fun t => a.loop.release t task with
  | some loop => ({ a with loop := loop.signal }, .nothing)
  | none => (a, .misuse)

/-- Interrupts a run, unless it is interrupted already. -/
def interrupt (a : Agenda) (run : Nat) (i : Interruption) : Agenda :=
  { a with runs := a.runs.modify run fun before => before <|> some i }

mutual

/-- Carries out an order. -/
def order : Nat → Order → Agenda → Agenda × Report
  | 0, _, a => (a, .misuse)
  | fuel + 1, o, a =>
    match o with
    | .reserve name =>
      let (loop, t) := a.loop.reserve
      ({ a with loop, tickets := (name, t) :: a.tickets }, .nothing)
    | .release name task => a.release name task
    | .cancel => (a.interrupt (a.runs.length - 1) .canceled, .nothing)
    | .run mode =>
      let run := a.runs.length
      let before := a.finished.length
      let interrupted := if mode = .canceled then some .canceled else none
      let (a, early) := proceed fuel mode run .ready { a with runs := a.runs ++ [interrupted] }
      (a, .ran (a.finished.drop before) early)

/-- Carries out orders one after the other. -/
def orders : Nat → List Order → Agenda → Agenda × List Report
  | 0, _, a => (a, [])
  | _, [], a => (a, [])
  | fuel + 1, o :: os, a =>
    let (a, r) := order fuel o a
    let (a, rs) := orders fuel os a
    (a, r :: rs)

/-- Goes on with a run of the loop. A timed run that could only wait ends by its deadline. -/
def proceed : Nat → RunMode → Nat → EventLoop.Position (Text × List Order) → Agenda →
    Agenda × Option Interruption
  | 0, _, _, _, a => (a, none)
  | fuel + 1, mode, run, position, a =>
    let interrupted := a.runs.getD run none
    match position with
    | .returned early => (a, early)
    | .running (label, os) =>
      let (a, reports) := orders fuel os a
      proceed fuel mode run .ready { a with finished := a.finished ++ [(label, reports)] }
    | .waiting =>
      let a := if mode = .timed && !a.loop.signalled then a.interrupt run .deadline else a
      let (loop, position) := a.loop.advance (a.runs.getD run none) .waiting
      proceed fuel mode run position { a with loop }
    | position =>
      let (loop, position) := a.loop.advance interrupted position
      proceed fuel mode run position { a with loop }

end

/-- Carries out a whole agenda. Each order takes a bounded number of steps of the loop. -/
def carryOut (os : List Order) : List Report := (orders (8 * Order.sizeAll os + 8) os {}).2

end Agenda

end ModuleSystem
