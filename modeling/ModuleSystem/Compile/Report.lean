import ModuleSystem.Compile
import ModuleSystem.Diagnostic.Console
import ModuleSystem.Event

/-!
# Compile reports

The result of compiling one source for a caller who is shown the diagnostics on a console, and what
operators are told about the compilation.
-/

namespace ModuleSystem

/-- What compiling a source leads to. Without errors the report holds the code, the specifiers that
it imports from and the names that it exports. -/
structure CompileReport where
  errors : List Diagnostic := []
  warnings : List Diagnostic := []
  code : Text := []
  imports : List Text := []
  exports : List Text := []
  /-- What was printed on the console. -/
  printed : Text := []
deriving Repr

namespace CompileReport

/-- The diagnostics in the order of reports, and what is printed about them. A silent log only collects. -/
def logged (options : Diagnostic.ConsoleOptions) (ds : List Diagnostic) : List Diagnostic × Text :=
  if options.level = .silent then ((ds.foldl Diagnostic.Deferred.add {}).messages, [])
  else
    let console := (ds.foldl Diagnostic.Console.add { options }).finish
    (console.messages, console.printed)

/-- Compiles a source and reports its diagnostics. -/
def ofSource (options : Diagnostic.ConsoleOptions) (s : Source) (format : Option Format) : CompileReport :=
  let result := compile s format
  let ds := match result with
    | .ok c => c.warnings
    | .error e => e.diagnostics
  let (messages, printed) := logged options ds
  let report : CompileReport :=
    { errors := messages.filter (·.isError)
      warnings := messages.filter (!·.isError)
      printed }
  match result with
  | .ok c =>
    if report.errors.isEmpty then
      { report with
        code := c.code
        imports := c.interface.specifiers
        exports := c.interface.explicitExportNames }
    else report
  | .error _ => report

end CompileReport

/-- The events of a compilation that gave the result. A file without a format is not compiled. -/
def compileEvents (s : Source) (format : Option Format) : Except CompileError Compiled → List Event
  | .ok c => c.warnings.map fun d =>
    { level := .debug, message := "compile warning", fields := d.eventFields }
  | .error _ =>
    if format.isNone then []
    else [{ level := .debug, message := "compile failed", fields := [("path", .text s.key)] }]

end ModuleSystem
