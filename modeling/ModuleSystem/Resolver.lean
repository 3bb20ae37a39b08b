import ModuleSystem.ModuleError
import ModuleSystem.Resolver.Search

/-!
# Resolving specifiers

A resolver turns specifiers into the paths of files.  It remembers the directories it has read and
the answers it has found; failed searches are run again.
-/

namespace ModuleSystem

/-- A resolver. -/
structure Resolver where
  options : Options
  /-- The module roots as absolute paths. -/
  roots : List Text
  /-- The directories read so far, those that could not be read among them. -/
  directories : List (Text × Option Resolver.Directory) := []
  /-- The files found so far, by the importing directory and the specifier. -/
  results : List ((Text × Text) × Text) := []
  files : FileCache := {}
deriving Repr

namespace Resolver

/-- A resolver that has read nothing. -/
def new (fs : FileSystem) (options : Options) : Resolver :=
  let cwd := if options.cwd.isEmpty then fs.cwd else options.cwd
  { options := { options with cwd }
    roots := options.roots.map fun root =>
      if fs.style.isAbs root then root else fs.style.join [cwd, root] }

/-- What a directory holds: as it was read before, or else as it is. -/
def lookup (r : Resolver) (fs : FileSystem) (path : Text) : Option Directory :=
  match r.directories.lookup path with
  | some known => known
  | none => (Reading.ofPath fs r.files r.options.mainFields path).directory

/-- The scope of a search. -/
def scope (r : Resolver) (fs : FileSystem) : Scope :=
  { style := fs.style, rel? := fs.rel?, extensions := r.options.extensions
    mainFields := r.options.mainFields, roots := r.roots, directories := r.lookup fs }

/-- A line of a trace. -/
def traceLine (depth : Nat) (text : Text) : Text := Text.filled (2 * depth) 32 ++ text

/-- The line that tells of a directory. -/
def visitLine (path : Text) : Option Directory → Text
  | none => "Failed to read directory " ++ Quoted.display path
  | some d =>
    "Read " ++ Text.ofNat d.entries.length
      ++ Text.ofString (if d.entries.length = 1 then " entry" else " entries")
      ++ Text.ofString " for directory " ++ Quoted.display path

/-- Remembers the directories that a search asked for, and tells its steps. A directory that was
not known before is read now. -/
def record (fs : FileSystem) (r : Resolver) : List Step → Resolver × List Text × List Event
  | [] => (r, [], [])
  | .note depth text :: steps =>
    let (r, lines, events) := record fs r steps
    (r, traceLine depth text :: lines, events)
  | .visit depth path :: steps =>
    match r.directories.lookup path with
    | some known =>
      let (r, lines, events) := record fs r steps
      (r, traceLine depth (visitLine path known) :: lines, events)
    | none =>
      let reading := Reading.ofPath fs r.files r.options.mainFields path
      let r := { r with directories := (path, reading.directory) :: r.directories
                        files := reading.files }
      let (r, lines, events) := record fs r steps
      let visit := traceLine depth (visitLine path reading.directory)
      (r, reading.notes.map (traceLine depth) ++ visit :: lines, reading.events ++ events)

/-- What came of a query. -/
structure Resolution where
  result : Except NotFound Text
  events : List Event := []

/-- The directory that specifiers of a file are read from; an empty name means the working
directory. -/
def sourceDir (r : Resolver) (fs : FileSystem) (referer : Text) : Text :=
  if referer.isEmpty then r.options.cwd else fs.style.dir referer

/-- The path of the file that a specifier names when the file `referer` imports it. -/
def resolve (r : Resolver) (fs : FileSystem) (specifier referer : Text) : Resolver × Resolution :=
  let dir := r.sourceDir fs referer
  match r.results.lookup (dir, specifier) with
  | some path => (r, { result := .ok path })
  | none =>
    let attempt := (r.scope fs).find dir specifier
    let (r, lines, events) := r.record fs attempt.steps
    let told (outcome : Text) : Event :=
      { level := .debug
        message := "Resolving import " ++ Quoted.display specifier ++ Text.ofString " in directory "
          ++ Quoted.display dir
        fields := [("outcome", .text outcome), ("trace", .texts lines)] }
    match attempt.found with
    | some path =>
      ({ r with results := ((dir, specifier), path) :: r.results },
        { result := .ok path, events := events ++ [told "resolved"] })
    | none =>
      (r, { result := .error ⟨specifier, referer⟩, events := events ++ [told "not found"] })

end Resolver

end ModuleSystem
