import ModuleSystem.Path

/-!
# File systems

A file system is a value that answers questions about directories and files.  Everything that
reads files takes one as an argument, so what a program does is a function of what it finds.
-/

namespace ModuleSystem

/-- Why a question about a path has no answer. -/
inductive FileError where
  | missing
  | notDirectory
  | isDirectory
  | linkLoop
  /-- The path holds a null character. -/
  | badPath
  | nameTooLong
  | notListable (path : Text)
  | removed
  | keyUnavailable
  | keyUnusable
deriving DecidableEq, Repr

namespace FileError

/-- The wording of an error. -/
def message : FileError → Text
  | missing => "no such file or directory"
  | notDirectory => "not a directory"
  | isDirectory => "is a directory"
  | linkLoop => "too many levels of symbolic links"
  | badPath => "invalid argument"
  | nameTooLong => "file name too long"
  | notListable path => "readdirent " ++ path ++ Text.ofString ": not a directory"
  | removed => "removed"
  | keyUnavailable => "This is not available during tests"
  | keyUnusable => "The modification key is unusable"

end FileError

/-- A file could not be used. -/
structure AccessError where
  /-- The step that failed. -/
  step : Text
  path : Text
  cause : FileError
deriving DecidableEq, Repr

/-- The wording of the error. -/
def AccessError.message (e : AccessError) : Text :=
  e.step ++ Text.ofString " " ++ e.path ++ Text.ofString ": " ++ e.cause.message

/-- What an entry of a directory leads to. -/
inductive EntryKind where
  | file
  | directory
deriving DecidableEq, Repr

/-- An entry of a directory. -/
structure Entry where
  name : Text
  kind : EntryKind
  /-- The path that a symbolic link leads to. -/
  target : Option Text := none
deriving DecidableEq, Repr

/-- A key that differs before and after a file is edited. -/
structure ModKey where
  file : Nat
  modified : Nat
deriving DecidableEq, Repr

/-- A file system. -/
structure FileSystem where
  style : PathStyle
  /-- The working directory. -/
  cwd : Text
  /-- The entries of a directory, each name once and in ascending order. -/
  list : Text → Except FileError (List Entry)
  read : Text → Except FileError Text
  modKey : Text → Except FileError ModKey
  /-- The absolute form of a path. -/
  abs : Text → Text
  /-- The path that leads from a directory to a target, where there is one. -/
  rel? : Text → Text → Option Text

namespace FileSystem

/-- The name of a path in messages: relative to the working directory unless that would lead out
of it, and written with slashes. -/
def prettyPath (fs : FileSystem) (path : Text) : Text :=
  let shown := match fs.rel? fs.cwd path with
    | some r => if r.startsWith ".." then path else r
    | none => path
  match fs.style with
  | .unix => shown
  | .windows => shown.map fun b => if b = 92 then 47 else b

/-- The same files after edits: the newest edit of a path decides what is read there, and one that
holds no contents has removed the file. Directories list what they listed before. -/
def edited (fs : FileSystem) (edits : List (Text × Option Text)) : FileSystem :=
  { fs with
    read := fun path =>
      match edits.lookup path with
      | some (some contents) => .ok contents
      | some none => .error .removed
      | none => fs.read path }

/-- The same files, with one modification key for all of them. -/
def withKey (fs : FileSystem) (key : ModKey) : FileSystem := { fs with modKey := fun _ => .ok key }

end FileSystem

end ModuleSystem
