import ModuleSystem.Diagnostic.Render

/-!
# The console log

Diagnostics as they are streamed to a terminal.  The log prints what its level lets through, stops
printing at the error limit, and ends with a summary.  What it prints never changes what it
records.
-/

namespace ModuleSystem.Diagnostic

/-- What a log prints: a level prints its own kind and all graver ones. -/
inductive Level where
  | none
  | info
  | warning
  | error
  | silent
deriving DecidableEq, Repr

/-- Levels in the order in which they print less and less. -/
def Level.rank : Level → Nat
  | .none => 0
  | .info => 1
  | .warning => 2
  | .error => 3
  | .silent => 4

/-- When colors are used. -/
inductive ColorChoice where
  | ifTerminal
  | never
  | always
deriving DecidableEq, Repr

/-- How a console log behaves. The log does not write to a terminal, so colors are used only when
they always are. -/
structure ConsoleOptions where
  excerpt : Bool := false
  /-- The number of errors after which nothing more is printed; zero for no limit. -/
  errorLimit : Int := 0
  color : ColorChoice := .ifTerminal
  level : Level := .none
deriving DecidableEq, Repr

/-- The style in which a log shows diagnostics. -/
def ConsoleOptions.style (o : ConsoleOptions) : Style :=
  { excerpt := o.excerpt, color := o.color == .always }

/-- A count with its noun. -/
def plural (noun : Text) (count : Nat) : Text :=
  Text.ofNat count ++ " " ++ noun ++ (if count = 1 then [] else Text.ofString "s")

/-- The counts of a report in words. -/
def summary (errors warnings : Nat) : Text :=
  if errors = 0 then plural "warning" warnings
  else if warnings = 0 then plural "error" errors
  else plural "warning" warnings ++ " and " ++ plural "error" errors

/-- A log that prints diagnostics as they come. -/
structure Console where
  options : ConsoleOptions
  /-- Everything recorded, in the order it came. -/
  recorded : List Diagnostic := []
  errors : Nat := 0
  warnings : Nat := 0
  limitReached : Bool := false
  /-- Everything printed. -/
  printed : Text := []
deriving Repr

namespace Console

/-- The level lets diagnostics of the severity through. -/
def lets (o : ConsoleOptions) : Severity → Bool
  | .error => o.level.rank ≤ Level.error.rank
  | .warning => o.level.rank ≤ Level.warning.rank

/-- Records a diagnostic, and prints it unless the limit was reached before. -/
def add (c : Console) (d : Diagnostic) : Console :=
  let c := { c with recorded := c.recorded ++ [d] }
  if c.limitReached then c
  else
    let errors := if d.isError then c.errors + 1 else c.errors
    let warnings := if d.isError then c.warnings else c.warnings + 1
    let shown := if lets c.options d.severity then render c.options.style d else []
    let limitReached := c.options.errorLimit ≠ 0 && c.options.errorLimit ≤ errors
    let notice :=
      if limitReached && lets c.options .error then
        summary errors warnings ++ " reached (disable error limit with --error-limit=0)\n"
      else []
    { c with errors, warnings, limitReached, printed := c.printed ++ shown ++ notice }

/-- Some recorded diagnostic is an error. -/
def hasErrors (c : Console) : Bool := 0 < c.errors

/-- Prints the summary. -/
def finish (c : Console) : Console :=
  if !c.limitReached && c.options.level.rank ≤ Level.info.rank
      && (c.warnings ≠ 0 || c.errors ≠ 0) then
    { c with printed := c.printed ++ summary c.errors c.warnings ++ "\n" }
  else c

/-- The recorded diagnostics in the order of reports. -/
def messages (c : Console) : List Diagnostic := sort c.recorded

end Console

end ModuleSystem.Diagnostic
