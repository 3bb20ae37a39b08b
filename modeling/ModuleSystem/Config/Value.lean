import ModuleSystem.Json.Value
import ModuleSystem.Number.Decimal
import ModuleSystem.Text.Utf8
import ModuleSystem.Unicode.Lowercase

/-!
# Values of settings

A setting may stand in a file, in the environment or on a command line, and not all of these can
tell a list from a word.  So a value keeps the form it was written in, and is read as whatever the
setting needs: as a text, as a list, as a switch or as a table.
-/

namespace ModuleSystem

/-- A value as it was written. -/
inductive ConfigValue where
  | null
  | flag (value : Bool)
  /-- A number in decimal notation. -/
  | number (spelling : Text)
  /-- A date or a time. -/
  | moment (spelling : Text)
  | text (value : Text)
  | list (elements : List ConfigValue)
  | table (entries : List (Text × ConfigValue))
deriving Repr, Inhabited

namespace ConfigValue

/-- The value of a decimal: the floating point number nearest to it. -/
def ofNumber (spelling : Text) : ConfigValue :=
  .number (((Decimal.read? spelling).map (·.text)).getD spelling)

mutual

/-- The value that a JSON value stands for. -/
def ofJson : JsonValue → ConfigValue
  | .null => .null
  | .bool b => .flag b
  | .number spelling => ofNumber spelling
  | .string t => .text t
  | .array elements => .list (ofElements elements)
  | .object members => .table (ofMembers members [])

/-- The values of the elements of an array. -/
def ofElements : List JsonValue → List ConfigValue
  | [] => []
  | v :: vs => ofJson v :: ofElements vs

/-- The members of an object put into a table, where the last of each key stays. -/
def ofMembers : List (Text × JsonValue) → List (Text × ConfigValue) → List (Text × ConfigValue)
  | [], done => done
  | (key, v) :: ms, done => ofMembers ms (Table.set key (ofJson v) done)

end

mutual

/-- The value with the keys of all tables in small letters. -/
def lowerKeys : ConfigValue → ConfigValue
  | .list elements => .list (lowerElements elements)
  | .table entries => .table (lowerEntries entries [])
  | v => v

/-- The elements of a list with their keys in small letters. -/
def lowerElements : List ConfigValue → List ConfigValue
  | [] => []
  | v :: vs => v.lowerKeys :: lowerElements vs

/-- The entries of a table put into another with their keys in small letters. -/
def lowerEntries : List (Text × ConfigValue) → List (Text × ConfigValue) →
    List (Text × ConfigValue)
  | [], done => done
  | (key, v) :: es, done => lowerEntries es (Table.set key.toLower v.lowerKeys done)

end

/-- The text of a single value. Lists and tables have none. -/
def text? : ConfigValue → Option Text
  | .null => some []
  | .flag true => some "true"
  | .flag false => some "false"
  | .number spelling => some spelling
  | .moment spelling => some spelling
  | .text t => some t
  | .list _ => none
  | .table _ => none

/-- The value as a text. -/
def asText (v : ConfigValue) : Text := v.text?.getD []

/-- The value as a list of texts. A text is divided into words, and what cannot be a list is an
empty one. -/
def asTexts : ConfigValue → List Text
  | .null => []
  | .text t => t.words
  | .list elements => (elements.mapM text?).getD []
  | v => v.text?.toList

/-- The words that mean yes. -/
def yesWords : List Text := ["1", "t", "T", "TRUE", "true", "True"]

/-- The words that mean no. -/
def noWords : List Text := ["0", "f", "F", "FALSE", "false", "False"]

/-- The switch that a word turns on or off. -/
def switch? (word : Text) : Option Bool :=
  if yesWords.contains word then some true
  else if noWords.contains word then some false
  else none

/-- The value as a switch. A number is on unless it is zero, and what cannot be a switch is off. -/
def asSwitch : ConfigValue → Bool
  | .flag b => b
  | .text t => (switch? t).getD false
  | .number spelling => spelling.any fun b => (49 ≤ b && b ≤ 57) || Ascii.isLetter b
  | _ => false

/-- The value as a table of texts. A text may hold one as a JSON object. -/
def asEntries : ConfigValue → List (Text × Text)
  | .table entries => entries.map fun (key, v) => (key, v.asText)
  | .text t =>
    match Json.read? t with
    | some (.object members) =>
      members.foldl (fun done (key, v) => Table.set key (v.text?.getD []) done) []
    | _ => []
  | _ => []

/-- A table with a value at the end of a path of keys. Tables on the way are made where there are
none. -/
def insert : List Text → ConfigValue → List (Text × ConfigValue) → List (Text × ConfigValue)
  | [], _, entries => entries
  | [key], v, entries => Table.set key v entries
  | key :: path, v, entries =>
    Table.alter key (fun
      | some (.table inner) => .table (insert path v inner)
      | _ => .table (insert path v [])) entries

end ConfigValue

end ModuleSystem
