import ModuleSystem.Event
import ModuleSystem.FileCache
import ModuleSystem.Json.Value
import ModuleSystem.Options

/-!
# Directories as the resolver sees them

A directory is its entries and, where it holds a `package.json`, the main fields of that manifest.
Reading a directory also says what was wrong with the manifest.
-/

namespace ModuleSystem.Resolver

/-- What matters of a `package.json`: the paths that its main fields hold. -/
structure Manifest where
  mainFields : List (Text × Text)
deriving DecidableEq, Repr

/-- A directory. -/
structure Directory where
  path : Text
  entries : List Entry
  manifest : Option Manifest := none
deriving DecidableEq, Repr

namespace Directory

/-- The entry of a name that leads to a file. -/
def file? (d : Directory) (name : Text) : Option Entry :=
  d.entries.find? fun e => e.name = name && e.kind = .file

end Directory

/-- What came of reading a directory: nothing when it cannot be read. -/
structure Reading where
  directory : Option Directory
  /-- Remarks for the trace of the resolution. -/
  notes : List Text := []
  events : List Event := []
  files : FileCache
deriving Repr

namespace Manifest

/-- The main fields of an object, with a note for each that holds no text. -/
def ofFields (mainFields : List Text) (fields : List (Text × JsonValue)) : Manifest × List Text :=
  mainFields.foldl (fun (m, notes) name =>
    match fields.lookup name with
    | none => (m, notes)
    | some v =>
      match v.text? with
      | some path => (⟨m.mainFields ++ [(name, path)]⟩, notes)
      | none =>
        (m, notes ++ ["Ignoring main field " ++ Quoted.display name
          ++ Text.ofString " since it is not a string"])) (⟨[]⟩, [])

/-- An event about a manifest. -/
def warning (message : Text) (fields : List (Text × FieldValue)) : Event :=
  { level := .warn, message, fields }

/-- Reads the manifest of a directory. A text is first checked, which says where it is wrong, and
then read by the stricter rules of the format. -/
def read (fs : FileSystem) (files : FileCache) (mainFields : List Text) (dir : Text) :
    Option Manifest × List Text × List Event × FileCache :=
  let path := fs.style.join [dir, "package.json"]
  let name := fs.prettyPath path
  match files.read fs path with
  | (files, .error _) =>
    (none, [], [warning "cannot read package.json" [("path", .text name)]], files)
  | (files, .ok contents) =>
    let source : Source := { key := path, name, contents }
    let found := (CompileError.ofFaults source (Json.check source)).diagnostics.map fun d =>
      warning "invalid package.json" d.eventFields
    if Json.accepts source then
      match (Json.read? contents).bind (·.fields?) with
      | none =>
        (none, [], found ++ [warning "invalid package.json" [("path", .text name)]], files)
      | some fields =>
        let (m, notes) := ofFields mainFields fields
        (some m, notes, found, files)
    else (none, [], found, files)

end Manifest

namespace Reading

/-- Reads a directory. -/
def ofPath (fs : FileSystem) (files : FileCache) (mainFields : List Text) (path : Text) : Reading :=
  match fs.list path with
  | .error _ => { directory := none, files }
  | .ok entries =>
    let d : Directory := { path, entries }
    if (d.file? "package.json").isSome then
      let (manifest, notes, events, files) := Manifest.read fs files mainFields path
      { directory := some { d with manifest }, notes, events, files }
    else { directory := some d, files }

end Reading

end ModuleSystem.Resolver
