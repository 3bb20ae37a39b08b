import ModuleSystem.Compile.Print
import ModuleSystem.Diagnostic.Render
import ModuleSystem.Json.Check
import ModuleSystem.Outline.Scan

/-!
# Compiling a module

Compilation turns the contents of one file into code that a host can run, together with the
interface that linking needs.  It looks at nothing but the source and its format.
-/

namespace ModuleSystem

/-- What the contents of a file are. -/
inductive Format where
  | script
  | json
deriving DecidableEq, Repr

/-- A compiled module. -/
structure Compiled where
  source : Source
  code : Text
  interface : Interface
  /-- Diagnostics that do not prevent compilation. -/
  warnings : List Diagnostic := []
deriving Repr

/-- Why a source cannot be compiled: its diagnostics in the order of reports, warnings included. -/
structure CompileError where
  diagnostics : List Diagnostic
deriving DecidableEq, Repr

namespace CompileError

/-- The diagnostics that are errors. -/
def errors (e : CompileError) : List Diagnostic := e.diagnostics.filter (·.isError)

/-- The first error. -/
def first (e : CompileError) : Diagnostic :=
  e.errors.headD ⟨.error, "syntax error", none⟩

/-- The first error in one line, with the number of those that follow it. -/
def message (e : CompileError) : Text :=
  match e.errors with
  | [] => "syntax error"
  | d :: ds =>
    let line := Diagnostic.render {} d
    let line := (Text.dropEnd? "\n" line).getD line
    let line := (Text.dropStart? "error: " line).getD line
    if ds.isEmpty then line else line ++ " (and " ++ Text.ofNat ds.length ++ " more)"

/-- The diagnostics of faults. -/
def ofFaults (s : Source) (fs : List Fault) : CompileError :=
  ⟨Diagnostic.sort (fs.map (·.diagnostic s))⟩

end CompileError

/-- Compiles a source. A file without a format cannot be compiled. -/
def compile (s : Source) : Option Format → Except CompileError Compiled
  | some .script =>
    match Outline.read s with
    | .error fs => .error (.ofFaults s fs)
    | .ok o =>
      let (code, interface) := Print.module s o
      .ok { source := s, code, interface }
  | some .json =>
    let fs := Json.check s
    if Json.accepts s then
      let (code, interface) := Print.json s
      .ok { source := s, code, interface, warnings := (CompileError.ofFaults s fs).diagnostics }
    else .error (.ofFaults s fs)
  | none =>
    .error ⟨[⟨.error, "No loader is configured for " ++ Quoted.display s.name ++ " files", none⟩]⟩

end ModuleSystem
