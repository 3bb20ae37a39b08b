import ModuleSystem.EventLoop
import ModuleSystem.Text

/-!
# Futures

A future is a result that comes later.  It is settled once; callbacks that were added before run
then, in their order, and callbacks that are added afterwards run at once.

Adding a callback and settling the future decide which callbacks are due and who runs them: the one
who settles runs those that have waited, and the one who adds a callback to a settled future runs it.
They run their callbacks one after the other, while others go on (`Future.call`).
-/

namespace ModuleSystem

/-- A callback: its label, and the callbacks that it adds to the same future when it runs. -/
inductive Callback where
  | mk (label : Text) (adds : List Callback)

mutual

/-- The labels of the callbacks that run when a callback runs on a settled future, in order. -/
def Callback.labels : Callback → List Text
  | .mk label adds => label :: Callback.labelsAll adds

/-- The labels for a list of callbacks. -/
def Callback.labelsAll : List Callback → List Text
  | [] => []
  | c :: cs => c.labels ++ Callback.labelsAll cs

end

/-- Callbacks that someone runs one after the other. -/
structure Lot (α : Type) where
  /-- What the callbacks are told. -/
  result : α
  /-- The callbacks that have not run yet. -/
  rest : List Callback

/-- A future. -/
structure Future (α : Type) where
  result : Option α := none
  /-- The callbacks that wait for the result. -/
  callbacks : List Callback := []
  /-- The callbacks that are due, by those who run them. The first lot is that of the one who has
  settled the future. -/
  due : List (Lot α) := []
  /-- The callbacks that have run and what they were told, the latest last. -/
  calls : List (Text × α) := []

namespace Future

variable {α : Type}

/-- The labels of the callbacks that have run, the latest last. -/
def ran (f : Future α) : List Text := f.calls.map (·.1)

/-- Adds a callback: it waits for the result, or is due at once. -/
def add (f : Future α) (c : Callback) : Future α :=
  match f.result with
  | none => { f with callbacks := f.callbacks ++ [c] }
  | some a => { f with due := f.due ++ [⟨a, [c]⟩] }

/-- Settles a future that is not settled yet: the callbacks that wait are due. -/
def fulfil (f : Future α) (a : α) : Option (Future α) :=
  match f.result with
  | none => some { f with result := some a, callbacks := [], due := f.due ++ [⟨a, f.callbacks⟩] }
  | some _ => none

/-- The next callback of a lot runs. What it adds to the future, which is settled, runs before
everything else in the lot. -/
def call (f : Future α) (i : Nat) : Future α :=
  match f.due[i]? with
  | some ⟨a, .mk label adds :: rest⟩ =>
    { f with due := f.due.set i ⟨a, adds ++ rest⟩, calls := f.calls ++ [(label, a)] }
  | _ => f

/-- The callbacks that are due run, each lot as a whole. -/
def callAll (f : Future α) : Future α :=
  { f with
    due := f.due.map fun lot => { lot with rest := [] }
    calls := f.calls ++ f.due.flatMap fun lot =>
      (Callback.labelsAll lot.rest).map fun label => (label, lot.result) }

/-- Adds a callback, and runs it if it is due. -/
def andThen (f : Future α) (c : Callback) : Future α := (f.add c).callAll

/-- Settles a future that is not settled yet, and runs the callbacks that have waited. -/
def settle (f : Future α) (a : α) : Option (Future α) := (f.fulfil a).map callAll

/-- What someone sees who waits for the result and may be interrupted; nothing while there is no
reason to stop waiting. -/
def wait (f : Future α) (interrupted : Option Interruption) : Option (Except Interruption α) :=
  match f.result with
  | some a => some (.ok a)
  | none => interrupted.map .error

end Future

end ModuleSystem
