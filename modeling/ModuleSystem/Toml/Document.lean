import ModuleSystem.Config.Value
import ModuleSystem.Toml.Seen

/-!
# Documents of TOML

The table that a document holds.  Expressions are taken one at a time: read, checked against the
keys before it, and turned into values, so the first expression with a fault is the one that is told
of.
-/

namespace ModuleSystem

/-- Why a text is no document. -/
inductive TomlError where
  | syntaxError (e : TomlSyntaxError)
  | key (e : TomlKeyError)
  | number (e : TomlNumberError)
  | moment (e : TomlMomentError)
deriving DecidableEq, Repr

/-- The wording of an error. -/
def TomlError.message (e : TomlError) : Text :=
  "toml: " ++ match e with
    | .syntaxError e => e.message
    | .key e => e.message
    | .number e => e.message
    | .moment e => e.message

namespace Toml

/-- A table of settings. -/
abbrev Entries := List (Text × ConfigValue)

/-- The table with the value at a path changed by `f`, which gets nothing when there is none. Of a
list of tables the last one is meant. -/
def alterAt (f : Option ConfigValue → ConfigValue) : List Text → Entries → Entries
  | [], es => es
  | [key], es => Table.alter key f es
  | key :: path, es =>
    Table.alter key (fun
      | some (.table inner) => .table (alterAt f path inner)
      | some (.list elements) =>
        match elements.getLast? with
        | some (.table inner) => .list (elements.dropLast ++ [.table (alterAt f path inner)])
        | _ => .list elements
      | _ => .table (alterAt f path [])) es

mutual

/-- The setting that a value stands for. -/
def setting : TomlValue → Except TomlError ConfigValue
  | .string t => .ok (.text t)
  | .bool b => .ok (.flag b)
  | .integer word =>
    match integer word with
    | .ok n => .ok (.number (Text.ofInt n))
    | .error e => .error (.number e)
  | .float word =>
    match float word with
    | .ok v => .ok (.number v.text)
    | .error e => .error (.number e)
  | .moment kind word =>
    match momentText kind word with
    | .ok t => .ok (.moment t)
    | .error e => .error (.moment e)
  | .array elements => (settings elements).map .list
  | .table entries => (settingsIn [] entries).map .table

/-- The settings of some values. -/
def settings : List TomlValue → Except TomlError (List ConfigValue)
  | [] => .ok []
  | v :: vs => do
    let v ← setting v
    return v :: (← settings vs)

/-- The settings of an inline table, added to those before them. -/
def settingsIn (done : Entries) : List (List Text × TomlValue) → Except TomlError Entries
  | [] => .ok done
  | (path, v) :: es => do
    let v ← setting v
    settingsIn (alterAt (fun _ => v) path done) es

end

/-- What has been read of a document. -/
structure Document where
  seen : SeenDocument := {}
  entries : Entries := []

namespace Document

/-- The document with one more expression. -/
def add (d : Document) (e : TomlExpression) : Except TomlError Document := do
  let seen ← match d.seen.add e with
    | .ok seen => .ok seen
    | .error e => .error (.key e)
  match e with
  | .header path => return { seen, entries := alterAt (·.getD (.table [])) path d.entries }
  | .listHeader path =>
    let push : Option ConfigValue → ConfigValue
      | some (.list elements) => .list (elements ++ [.table []])
      | _ => .list [.table []]
    return { seen, entries := alterAt push path d.entries }
  | .entry path v =>
    let v ← setting v
    return { seen, entries := alterAt (fun _ => v) (seen.here ++ path) d.entries }

end Document

/-- The result of a step of reading. -/
def ofSyntax (r : Except TomlSyntaxError α) : Except TomlError α :=
  match r with
  | .ok a => .ok a
  | .error e => .error (.syntaxError e)

/-- Reads at most `fuel` lines. -/
def lines : Nat → Document → Text → Except TomlError Document
  | 0, d, _ => .ok d
  | fuel + 1, d, t => do
    let (e, rest) ← ofSyntax (expression t)
    let d ← match e with
      | some e => d.add e
      | none => .ok d
    if rest.isEmpty then return d
    else
      let rest ← ofSyntax (lineEnd rest)
      if rest.isEmpty then return d else lines fuel d rest

/-- The table of a document. -/
def read (t : Text) : Except TomlError Entries :=
  if t.isEmpty then .ok [] else (lines (t.length + 1) {} t).map (·.entries)

end Toml

end ModuleSystem
