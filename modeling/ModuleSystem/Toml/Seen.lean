import ModuleSystem.Toml.Expression

/-!
# Keys that have been seen

A key of TOML is given a value once, and a header stands once.  A tree of the keys so far tells what
may still be added where: a table that a header names belongs to that header, one that only the
entries of a section mention is closed with the section, and the tables of a list start afresh.
-/

namespace ModuleSystem

/-- What a key has been used for. -/
inductive KeyUse where
  | value
  | table
  | tables
deriving DecidableEq, Repr

/-- The word for a use. -/
def KeyUse.word : KeyUse → Text
  | value => "value"
  | table => "table"
  | tables => "array table"

/-- What is wrong with a key. -/
inductive TomlKeyError where
  | defined (key : Text)
  | notTable (key : Text) (use : KeyUse)
  | headerOfOther (key : Text) (use : KeyUse)
  | tableExists (key : Text)
  | tableClosed (key : Text)
  | notList (key : Text) (use : KeyUse)
deriving DecidableEq, Repr

/-- The wording of an error. -/
def TomlKeyError.message : TomlKeyError → Text
  | defined key => "key " ++ key ++ Text.ofString " is already defined"
  | notTable key use =>
    "expected " ++ key ++ Text.ofString " to be a table, not a " ++ use.word
  | headerOfOther key use =>
    "key " ++ key ++ Text.ofString " should be a table, not a " ++ use.word
  | tableExists key => "table " ++ key ++ Text.ofString " already exists"
  | tableClosed key =>
    "cannot redefine table " ++ key ++ Text.ofString " that has already been explicitly defined"
  | notList key use =>
    "key " ++ use.word ++ Text.ofString " already exists as a " ++ key
      ++ Text.ofString ",  but should be an array table"

/-- The keys that have been seen in a table. -/
inductive SeenKeys where
  | node (use : KeyUse) (isClosed : Bool) (fromEntry : Bool) (inside : List (Text × SeenKeys))
deriving Repr

namespace SeenKeys

/-- A table without keys. -/
def empty : SeenKeys := .node .table false false []

/-- The keys inside. -/
def inside : SeenKeys → List (Text × SeenKeys)
  | .node _ _ _ inside => inside

/-- The same key with other keys inside. -/
def withInside (s : SeenKeys) (inside : List (Text × SeenKeys)) : SeenKeys :=
  match s with
  | .node use isClosed fromEntry _ => .node use isClosed fromEntry inside

mutual

/-- The key after its section: the tables inside that entries mentioned are closed. -/
def closeInside : SeenKeys → SeenKeys
  | .node use isClosed fromEntry inside => .node use isClosed fromEntry (closeAll inside)

/-- The keys after their section. -/
def closeAll : List (Text × SeenKeys) → List (Text × SeenKeys)
  | [] => []
  | (key, .node use isClosed fromEntry inside) :: rest =>
    (key, .node use (isClosed || fromEntry) false (closeAll inside)) :: closeAll rest

end

/-- The tree after a change at a path of keys. -/
def alterAt (f : SeenKeys → SeenKeys) : List Text → SeenKeys → SeenKeys
  | [], s => f s
  | key :: path, s =>
    s.withInside (Table.alter key (fun found => alterAt f path (found.getD empty)) s.inside)

/-- The tree after a header. The function says what happens to the last key. -/
def addHeader (last : Text → Option SeenKeys → Except TomlKeyError SeenKeys) :
    List Text → SeenKeys → Except TomlKeyError SeenKeys
  | [], s => .ok s
  | [key], s => do
    let found := s.inside.lookup key
    return s.withInside (Table.set key (← last key found) s.inside)
  | key :: path, s => do
    let inner := (s.inside.lookup key).getD empty
    match inner with
    | .node .value _ _ _ => .error (.notTable key .value)
    | inner => return s.withInside (Table.set key (← addHeader last path inner) s.inside)

/-- The table of a header. -/
def asTable (key : Text) : Option SeenKeys → Except TomlKeyError SeenKeys
  | none => .ok (.node .table true false [])
  | some (.node use isClosed fromEntry inside) =>
    if use ≠ .table then .error (.headerOfOther key use)
    else if isClosed then .error (.tableExists key)
    else .ok (.node use true fromEntry inside)

/-- The list of a header, with a new table at its end. -/
def asList (key : Text) : Option SeenKeys → Except TomlKeyError SeenKeys
  | none => .ok (.node .tables true false [])
  | some (.node use isClosed fromEntry _) =>
    if use ≠ .tables then .error (.notList key use) else .ok (.node use isClosed fromEntry [])

/-- The tree after an entry. -/
def addEntry : List Text → SeenKeys → Except TomlKeyError SeenKeys
  | [], s => .ok s
  | [key], s =>
    if (s.inside.lookup key).isSome then .error (.defined key)
    else .ok (s.withInside (Table.set key (.node .value false true []) s.inside))
  | key :: path, s => do
    let inner := (s.inside.lookup key).getD (.node .table false true [])
    match inner with
    | .node use isClosed _ _ =>
      if use ≠ .table then .error (.notTable key use)
      else if isClosed then .error (.tableClosed key)
      else return s.withInside (Table.set key (← addEntry path inner) s.inside)

mutual

/-- What is wrong with the keys of the inline tables in a value. -/
def faultIn? : TomlValue → Option TomlKeyError
  | .array elements => faultInElements? elements
  | .table entries => faultInEntries? empty entries
  | _ => none

/-- What is wrong with the keys of the inline tables in an array. -/
def faultInElements? : List TomlValue → Option TomlKeyError
  | [] => none
  | v :: vs => faultIn? v <|> faultInElements? vs

/-- What is wrong with the keys of an inline table, of which some are already in the tree. -/
def faultInEntries? (s : SeenKeys) : List (List Text × TomlValue) → Option TomlKeyError
  | [] => none
  | (path, v) :: rest =>
    match addEntry path s with
    | .error e => some e
    | .ok s => faultIn? v <|> faultInEntries? s rest

end

end SeenKeys

/-- The keys of a document so far, and the section that entries now belong to. -/
structure SeenDocument where
  keys : SeenKeys := .empty
  here : List Text := []

namespace SeenDocument

/-- The keys at the end of the section. -/
def close (s : SeenDocument) : SeenKeys := s.keys.alterAt SeenKeys.closeInside s.here

/-- The subtree at a path changed by a function that may fail. -/
def alterHere (f : SeenKeys → Except TomlKeyError SeenKeys) :
    List Text → SeenKeys → Except TomlKeyError SeenKeys
  | [], s => f s
  | key :: path, s => do
    let inner ← alterHere f path ((s.inside.lookup key).getD .empty)
    return s.withInside (Table.set key inner s.inside)

/-- The document with one more expression. -/
def add (s : SeenDocument) : TomlExpression → Except TomlKeyError SeenDocument
  | .header path => do
    return { keys := ← SeenKeys.addHeader SeenKeys.asTable path s.close, here := path }
  | .listHeader path => do
    return { keys := ← SeenKeys.addHeader SeenKeys.asList path s.close, here := path }
  | .entry path v => do
    let keys ← alterHere (SeenKeys.addEntry path) s.here s.keys
    match SeenKeys.faultIn? v with
    | some e => .error e
    | none => return { s with keys }

end SeenDocument

end ModuleSystem
