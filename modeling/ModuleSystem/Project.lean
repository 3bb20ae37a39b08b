import ModuleSystem.FileSystem.Disk
import ModuleSystem.Loader
import ModuleSystem.Script

/-!
# Projects

A project is a working directory on a disk together with the settings chosen for it.  Specifiers
are resolved and modules imported as if they were written in a file of the working directory.
-/

namespace ModuleSystem

/-- What a caller may choose. Whatever is left open has its default. -/
structure Settings where
  /-- The working directory; empty for that of the process. -/
  cwd : Text := []
  extensions : Option (List Text) := none
  roots : Option (List Text) := none
  mainFields : Option (List Text) := none
  /-- Formats of extensions that differ from the default; none takes a format away. -/
  loaders : List (Text × Option Format) := []
deriving DecidableEq, Repr

namespace Settings

/-- The options that settings amount to on a file system. -/
def options (s : Settings) (fs : FileSystem) : Except OptionsError Options :=
  if !s.cwd.isEmpty && !fs.style.isAbs s.cwd then .error (.relativeCwd s.cwd)
  else
    let base : Options := {}
    let chosen := { base with
      cwd := fs.cwd
      extensions := s.extensions.getD base.extensions
      roots := s.roots.getD base.roots
      mainFields := s.mainFields.getD base.mainFields }
    (s.loaders.foldl (fun o (extension, format) => o.setLoader extension format) chosen).validate

/-- The settings that lead to given options. A list without entries counts as left open. -/
def ofOptions (o : Options) : Settings :=
  let chosen (ts : List Text) : Option (List Text) := if ts.isEmpty then none else some ts
  { cwd := o.cwd
    extensions := chosen o.extensions
    roots := chosen o.roots
    mainFields := chosen o.mainFields
    loaders := o.loaders.map fun (extension, format) => (extension, some format) }

end Settings

/-- A directory in which modules are resolved and imported. -/
structure Project where
  fs : FileSystem
  options : Options

namespace Project

/-- The project of some settings. -/
def ofDisk (d : Disk) (s : Settings) : Except OptionsError Project :=
  let fs := d.fileSystem s.cwd
  match s.options fs with
  | .ok options => .ok { fs, options }
  | .error e => .error e

/-- The path of the file that a specifier names. The importing file is given relative to the
working directory, and an empty one stands for the working directory itself. -/
def resolve (p : Project) (specifier importer : Text) : Except NotFound Text :=
  let importer :=
    if importer.isEmpty || p.fs.style.isAbs importer then importer
    else p.fs.style.join [p.options.cwd, importer]
  ((Resolver.new p.fs p.options).resolve p.fs specifier importer).2.result

/-- The number of steps that loading takes at most. -/
def maxSteps : Nat := 100000000

/-- A loader that has loaded nothing. The bodies of its modules do nothing. -/
def loader (p : Project) : Loader Stage := Loader.new p.fs p.options {}

/-- Imports the module that a specifier names, and waits until nothing is left to do. -/
def importModule (p : Project) (l : Loader Stage) (specifier : Text) :
    Loader Stage × Option ImportResult :=
  let (l, future) := l.start p.fs maxSteps specifier []
  let l := l.run Stage.host
  (l, l.result? future)

end Project

end ModuleSystem
