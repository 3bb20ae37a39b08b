import ModuleSystem.Config.Dotenv
import ModuleSystem.Path
import ModuleSystem.Toml.Document
import ModuleSystem.Yaml.Document

/-!
# Formats of configuration files

The ending of the name of a file tells its format.  There are more endings that are known than
formats that can be read.
-/

namespace ModuleSystem

/-- The formats of configuration files. -/
inductive ConfigFormat where
  | toml
  | json
  | yaml
  | dotenv
  /-- A format that is known and cannot be read. -/
  | other
deriving DecidableEq, Repr

/-- What is wrong with a configuration file. -/
inductive ConfigFault where
  | toml (e : TomlError)
  | json (e : JsonFault)
  /-- A JSON value of some kind is no table. -/
  | jsonKind (kind : Text)
  /-- A number of a JSON text is too large. -/
  | jsonNumber (spelling : Text)
  | yaml (e : YamlError)
  | dotenv (e : DotenvError)
  | noReader
deriving DecidableEq, Repr

/-- The wording of a fault. -/
def ConfigFault.message : ConfigFault → Text
  | toml e => e.message
  | json e => e.message
  | jsonKind kind =>
    "json: cannot unmarshal " ++ kind
      ++ Text.ofString " into Go value of type map[string]interface \x7b\x7d"
  | jsonNumber spelling =>
    "json: cannot unmarshal number " ++ spelling ++ Text.ofString " into Go value of type float64"
  | yaml e => e.message
  | dotenv e => e.message
  | noReader => "decoder not found for this format"

namespace JsonValue

mutual

/-- The first number that is too large. -/
def tooLarge? : JsonValue → Option Text
  | number spelling => if (Decimal.readFinite? spelling).isNone then some spelling else none
  | array elements => tooLargeElement? elements
  | object members => tooLargeMember? members
  | _ => none

/-- The first number of some elements that is too large. -/
def tooLargeElement? : List JsonValue → Option Text
  | [] => none
  | v :: vs => v.tooLarge? <|> tooLargeElement? vs

/-- The first number of some members that is too large. -/
def tooLargeMember? : List (Text × JsonValue) → Option Text
  | [] => none
  | (_, v) :: ms => v.tooLarge? <|> tooLargeMember? ms

end

/-- The settings of a JSON value, which has to be an object or null. -/
def settings : JsonValue → Except ConfigFault (List (Text × ConfigValue))
  | null => .ok []
  | bool _ => .error (.jsonKind "bool")
  | number _ => .error (.jsonKind "number")
  | string _ => .error (.jsonKind "string")
  | array _ => .error (.jsonKind "array")
  | object members =>
    match tooLargeMember? members with
    | some spelling => .error (.jsonNumber spelling)
    | none => .ok (ConfigValue.ofMembers members [])

end JsonValue

namespace ConfigFormat

/-- The endings of names and their formats. -/
def endings : List (Text × ConfigFormat) :=
  [("json", .json), ("toml", .toml), ("yaml", .yaml), ("yml", .yaml), ("dotenv", .dotenv),
    ("env", .dotenv), ("properties", .other), ("props", .other), ("prop", .other),
    ("hcl", .other), ("tfvars", .other), ("ini", .other)]

/-- The format of a file, by the ending of its name. The ending of TOML may be in capitals. -/
def ofPath? (path : Text) : Option ConfigFormat :=
  let ending := (Path.ext path).drop 1
  if ending.map Ascii.toLower = Text.ofString "toml" then some .toml else endings.lookup ending

/-- The table that a text in the format holds. Variables of the environment may stand in some
formats. -/
def read (environment : List (Text × Text)) :
    ConfigFormat → Text → Except ConfigFault (List (Text × ConfigValue))
  | .toml, t => (Toml.read t).mapError .toml
  | .yaml, t => (Yaml.read t).mapError .yaml
  | .json, t => do (← (Json.read t).mapError .json).settings
  | .dotenv, t => do
    let es ← (Dotenv.read environment t).mapError .dotenv
    return es.map fun (k, v) => (k, .text v)
  | .other, _ => .error .noReader

end ConfigFormat

end ModuleSystem
