import ModuleSystem.Compile
import ModuleSystem.Diagnostic.Console
import ModuleSystem.Path

/-!
# Options

The settings that decide how specifiers are resolved, how files are read and what is printed, and
the words that users write them with.
-/

namespace ModuleSystem

/-- The word for a format. -/
def Format.word : Format → Text
  | .script => "js"
  | .json => "json"

/-- Settings. -/
structure Options where
  /-- The working directory; empty for that of the file system. -/
  cwd : Text := []
  /-- The endings tried in order for a file named without one, and after `index` in a directory. -/
  extensions : List Text := [".mjs", ".js", ".json"]
  /-- The directories searched in order for bare specifiers; nothing outside them is. -/
  roots : List Text := ["node_modules"]
  /-- The fields of a manifest consulted in order when a specifier names a directory. -/
  mainFields : List Text := ["module", "main"]
  /-- The format of the files with an extension, each extension once. -/
  loaders : List (Text × Format) := [(".mjs", .script), (".js", .script), (".json", .json)]
  logLevel : Diagnostic.Level := .info
  color : Diagnostic.ColorChoice := .ifTerminal
  verbose : Bool := false
deriving DecidableEq, Repr

/-- What is wrong with a setting. -/
inductive OptionsError where
  | unknownFormat (word : Text) (meant : Option Format)
  | formatOf (extension : Text) (cause : OptionsError)
  | badExtension (extension : Text)
  | badLoaderKey (extension : Text)
  | emptyRoot
  | noMainFields
  | unknownLevel (word : Text)
  | unknownColor (word : Text)
  | relativeCwd (path : Text)
deriving DecidableEq, Repr

namespace OptionsError

/-- The wording of an error. -/
def message : OptionsError → Text
  | unknownFormat word (some meant) =>
    "invalid loader " ++ Quoted.display word ++ " (did you mean " ++ Quoted.display meant.word
      ++ "?)"
  | unknownFormat word none =>
    "invalid loader " ++ Quoted.display word ++ Text.ofString " (valid: \"js\", \"json\")"
  | formatOf extension cause =>
    "invalid loaders entry for " ++ Quoted.display extension ++ ": " ++ cause.message
  | badExtension extension =>
    "invalid resolve-extensions entry " ++ Quoted.display extension
      ++ Text.ofString ": must start with \".\""
  | badLoaderKey extension =>
    "invalid loaders key " ++ Quoted.display extension ++ Text.ofString ": must start with \".\""
  | emptyRoot => "invalid module-roots entry: must not be empty"
  | noMainFields => "main-fields must not be empty"
  | unknownLevel word =>
    "invalid log-level " ++ Quoted.display word
      ++ Text.ofString " (valid: \"info\", \"warning\", \"error\", \"silent\")"
  | unknownColor word =>
    "invalid color " ++ Quoted.display word
      ++ Text.ofString " (valid: \"auto\", \"always\", \"never\")"
  | relativeCwd path =>
    "The working directory " ++ Quoted.display path ++ Text.ofString " is not an absolute path"

end OptionsError

/-- Leaving one byte out of `long` gives `short`. -/
def isOneByteLonger (long short : Text) : Bool :=
  (List.range long.length).any fun i => long.eraseIdx i = short

namespace Format

/-- The format that a word names. A word one byte away from a long name is taken for a slip. -/
def parse (word : Text) : Except OptionsError Format :=
  if word = Format.script.word then .ok .script
  else if word = Format.json.word then .ok .json
  else if isOneByteLonger word Format.json.word || isOneByteLonger Format.json.word word then
    .error (.unknownFormat word (some .json))
  else .error (.unknownFormat word none)

end Format

namespace Diagnostic

/-- The level that a word names. -/
def Level.parse (word : Text) : Except OptionsError Level :=
  let names : List (Text × Level) :=
    [("info", .info), ("warning", .warning), ("error", .error), ("silent", .silent)]
  match names.lookup word with
  | .some level => .ok level
  | .none => .error (.unknownLevel word)

/-- The use of colors that a word names. -/
def ColorChoice.parse (word : Text) : Except OptionsError ColorChoice :=
  let names : List (Text × ColorChoice) :=
    [("auto", .ifTerminal), ("true", .always), ("always", .always), ("false", .never),
      ("never", .never)]
  match names.lookup word with
  | some choice => .ok choice
  | none => .error (.unknownColor word)

end Diagnostic

namespace Options

/-- The settings with another format for an extension, or with none. -/
def setLoader (o : Options) (extension : Text) (format : Option Format) : Options :=
  let others := o.loaders.filter fun l => l.1 ≠ extension
  { o with loaders := others ++ (format.toList.map fun f => (extension, f)) }

/-- The endings of a name that start with a dot, the longest first. -/
def endings : Text → List Text
  | [] => []
  | b :: t => if b = 46 then (b :: t) :: endings t else endings t

/-- The format of a file, by the longest ending of its name that has one. -/
def formatOf (o : Options) (path : Text) : Option Format :=
  (endings (Path.base path)).findSome? fun e => o.loaders.lookup e

/-- A dot with something after it. -/
def isExtension (e : Text) : Bool := e.startsWith "." && 2 ≤ e.length

/-- The settings, if every one of them can be used. -/
def validate (o : Options) : Except OptionsError Options :=
  match o.extensions.find? fun e => !isExtension e with
  | some e => .error (.badExtension e)
  | none =>
    match (Text.sort (o.loaders.map (·.1))).find? fun e => !isExtension e with
    | some e => .error (.badLoaderKey e)
    | none =>
      if o.roots.any (·.isEmpty) then .error .emptyRoot
      else if o.mainFields.isEmpty then .error .noMainFields
      else .ok o

end Options

end ModuleSystem
