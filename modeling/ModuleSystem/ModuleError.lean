import ModuleSystem.Compile
import ModuleSystem.Text.Utf8

/-!
# Errors of modules

Why a module could not be imported.  Whatever a running module throws is passed on as it is.
-/

namespace ModuleSystem

/-- No file could be found for a specifier. -/
structure NotFound where
  specifier : Text
  /-- The importing file; empty for an entry point. -/
  referer : Text
deriving DecidableEq, Repr

/-- The wording of the error. -/
def NotFound.message (e : NotFound) : Text :=
  let found := "Cannot find module " ++ Quoted.display e.specifier
  if e.referer.isEmpty then found
  else found ++ Text.ofString " imported from " ++ Quoted.display e.referer

/-- An import that does not match exactly one export. -/
structure LinkError where
  importer : Text
  specifier : Text
  name : Text
  /-- Star exports provide the name more than once; otherwise nothing provides it. -/
  ambiguous : Bool
  /-- The imported name in the importing module. -/
  location : Option Location := none
deriving DecidableEq, Repr

namespace LinkError

/-- What is wrong. -/
def text (e : LinkError) : Text :=
  let subject := "The requested module " ++ Quoted.display e.specifier
  if e.ambiguous then
    subject ++ Text.ofString " contains conflicting star exports for name " ++ Quoted.display e.name
  else subject ++ Text.ofString " does not provide an export named " ++ Quoted.display e.name

/-- The error as a diagnostic. -/
def diagnostic (e : LinkError) : Diagnostic := ⟨.error, e.text, e.location⟩

/-- What is wrong, and where. -/
def message (e : LinkError) : Text :=
  match e.location with
  | none => e.text
  | some l =>
    l.file ++ Text.ofString ":" ++ Text.ofInt l.line ++ Text.ofString ":" ++ Text.ofInt l.column
      ++ Text.ofString ": error: " ++ e.text

end LinkError

/-- Why a module could not be imported. -/
inductive ModuleError where
  | notFound (e : NotFound)
  /-- A module imported as JSON is not a JSON file. -/
  | notJson (specifier importer : Text)
  | compile (e : CompileError)
  | link (e : LinkError)
  /-- A variable was read before its module had given it a value. -/
  | uninitialized (name : Text)
  /-- The importing module has no such import record. -/
  | noRecord (importer : Text) (index : Nat)
  /-- A module was asked for the slot of a name that it does not declare. -/
  | noExport (owner name : Text)
  | thrown (message : Text)
  /-- The work was given up because something else had failed. -/
  | canceled
deriving DecidableEq, Repr

namespace ModuleError

/-- The wording of an error. -/
def message : ModuleError → Text
  | notFound e => e.message
  | notJson specifier importer =>
    "Module " ++ Quoted.display specifier ++ Text.ofString " imported from "
      ++ Quoted.display importer ++ Text.ofString " is not of type \"json\""
  | compile e => e.message
  | link e => e.message
  | uninitialized name =>
    "Cannot access " ++ Quoted.display name ++ Text.ofString " before initialization"
  | noRecord importer index =>
    "Module " ++ Quoted.display importer ++ Text.ofString " has no import record "
      ++ Text.ofNat index
  | noExport owner name =>
    "Module " ++ Quoted.display owner ++ Text.ofString " does not declare an export named "
      ++ Quoted.display name
  | thrown message => message
  | canceled => "context canceled"

/-- The error as diagnostics. What is wrong with a source is told with its places. -/
def diagnostics : ModuleError → List Diagnostic
  | compile e => e.errors
  | link e => [e.diagnostic]
  | e => [⟨.error, e.message.trim, none⟩]

end ModuleError

end ModuleSystem
