import ModuleSystem.Diagnostic

/-!
# Events

What the system says about its own work: which module changed its state, how a specifier was
resolved.  Events are for operators; what is wrong with a source is a diagnostic.
-/

namespace ModuleSystem

/-- How much an event matters. -/
inductive EventLevel where
  | debug
  | info
  | warn
  | error
deriving DecidableEq, Repr

/-- The name of a level. -/
def EventLevel.word : EventLevel → Text
  | .debug => "debug"
  | .info => "info"
  | .warn => "warn"
  | .error => "error"

/-- What a field of an event holds. -/
inductive FieldValue where
  | text (value : Text)
  | texts (values : List Text)
  | number (value : Int)
deriving DecidableEq, Repr

/-- An event. -/
structure Event where
  level : EventLevel
  message : Text
  fields : List (Text × FieldValue) := []
deriving DecidableEq, Repr

/-- The fields that describe a diagnostic. -/
def Diagnostic.eventFields (d : Diagnostic) : List (Text × FieldValue) :=
  let place : List (Text × FieldValue) := match d.location with
    | none => []
    | some l => [("file", .text l.file), ("line", .number l.line), ("column", .number l.column)]
  ("kind", .text d.severity.word) :: ("text", .text d.text) :: place

end ModuleSystem
