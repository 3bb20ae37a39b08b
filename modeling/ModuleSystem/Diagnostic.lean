import ModuleSystem.Source

/-!
# Diagnostics

An error or a warning, with the place it is about.  A location carries the text of its line, so a
diagnostic can be shown without the file.

A deferred log collects diagnostics, to be shown later or not at all.  Several writers may share it; each
diagnostic is added in one step.
-/

namespace ModuleSystem

/-- How grave a diagnostic is. -/
inductive Severity where
  | error
  | warning
deriving DecidableEq, Repr

/-- The word for a severity. -/
def Severity.word : Severity → Text
  | .error => "error"
  | .warning => "warning"

/-- A place in a file. -/
structure Location where
  file : Text
  /-- Counted from one. -/
  line : Int
  /-- The number of bytes before it on its line. -/
  column : Int
  /-- The number of bytes it covers. -/
  length : Int
  lineText : Text
deriving DecidableEq, Repr

/-- The location of `length` bytes from an offset of a source. An offset beyond the end means the
end. -/
def Source.locate (s : Source) (offset : Nat) (length : Int) : Location :=
  let offset := min offset s.contents.length
  let line := Line.containing s.contents offset
  { file := s.name
    line := line.number + 1
    column := offset - line.start
    length
    lineText := s.contents.slice line.start line.stop }

/-- An error or a warning. -/
structure Diagnostic where
  severity : Severity
  text : Text
  location : Option Location
deriving DecidableEq, Repr

namespace Diagnostic

/-- An error about a single place of a source. -/
def errorAt (s : Source) (offset : Nat) (text : Text) : Diagnostic :=
  ⟨.error, text, s.locate offset 0⟩

/-- An error about a range of a source. -/
def errorOver (s : Source) (r : Range) (text : Text) : Diagnostic :=
  ⟨.error, text, s.locate r.start r.len⟩

/-- A warning about a range of a source. -/
def warningOver (s : Source) (r : Range) (text : Text) : Diagnostic :=
  ⟨.warning, text, s.locate r.start r.len⟩

/-- The diagnostic is an error. -/
def isError (d : Diagnostic) : Bool := d.severity == .error

/-- Errors come before warnings. -/
def severityRank : Severity → Nat
  | .error => 0
  | .warning => 1

/-- The order of two coordinates. It is the sign of their difference as a number of 64 bits, so of
two coordinates that lie 2^63 or more apart the smaller one comes last. -/
def compareCoordinates (a b : Int) : Ordering := compare (Int.bmod (a - b) (Nat.pow 2 64)) 0

/-- The order of reports: diagnostics without a location first, then by file, line, column and
severity. -/
def order (a b : Diagnostic) : Ordering :=
  match a.location, b.location with
  | none, none => .eq
  | none, some _ => .lt
  | some _, none => .gt
  | some la, some lb =>
    (compare la.file lb.file).then <| (compareCoordinates la.line lb.line).then <|
      (compareCoordinates la.column lb.column).then <|
        compare (severityRank a.severity) (severityRank b.severity)

/-- A diagnostic put into a list that runs backwards, at the first place where it need not come
before what follows. -/
def insertLate (d : Diagnostic) : List Diagnostic → List Diagnostic
  | [] => [d]
  | e :: es => if order d e = .lt then e :: insertLate d es else d :: e :: es

/-- The diagnostics in the order of reports; equal ones keep their order. -/
def sort (ds : List Diagnostic) : List Diagnostic :=
  (ds.foldl (fun sorted d => insertLate d sorted) []).reverse

/-- Some diagnostic is an error. -/
def anyError (ds : List Diagnostic) : Bool := ds.any isError

/-- A log that records each diagnostic behind the others records a list of them in its order. -/
theorem recorded_foldl {Log : Type} (recorded : Log → List Diagnostic) {add : Log → Diagnostic → Log}
    (h : ∀ l d, recorded (add l d) = recorded l ++ [d]) (l : Log) (ds : List Diagnostic) :
    recorded (ds.foldl add l) = recorded l ++ ds := by
  induction ds generalizing l with
  | nil => exact (List.append_nil _).symm
  | cons d ds ih => rw [List.foldl_cons, ih, h, List.append_assoc, List.singleton_append]

/-- A log that shows nothing. -/
structure Deferred where
  /-- Everything recorded, in the order it came. -/
  recorded : List Diagnostic := []
  /-- An error was recorded. -/
  failed : Bool := false
deriving DecidableEq, Repr

namespace Deferred

/-- Records a diagnostic. -/
def add (l : Deferred) (d : Diagnostic) : Deferred :=
  { recorded := l.recorded ++ [d], failed := l.failed || d.isError }

/-- Some recorded diagnostic is an error. -/
def hasErrors (l : Deferred) : Bool := l.failed

/-- The recorded diagnostics in the order of reports. -/
def messages (l : Deferred) : List Diagnostic := sort l.recorded

@[simp] theorem messages_foldl (ds : List Diagnostic) : (ds.foldl add {}).messages = sort ds := by
  rw [messages, recorded_foldl recorded fun _ _ => rfl, List.nil_append]

theorem hasErrors_foldl (l : Deferred) (ds : List Diagnostic) :
    (ds.foldl add l).hasErrors = (l.hasErrors || anyError ds) := by
  induction ds generalizing l with
  | nil => exact (Bool.or_false _).symm
  | cons d ds ih => rw [List.foldl_cons, ih, anyError, anyError, List.any_cons, ← Bool.or_assoc]; rfl

end Deferred

end Diagnostic

end ModuleSystem
