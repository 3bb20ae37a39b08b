import ModuleSystem.FileSystem

/-!
# The file cache

Contents that were read before are used again while the modification key of the file is the same.
A file without a usable key is read every time.
-/

namespace ModuleSystem

/-- Contents as they were read, with the key that the file had then. -/
structure CachedFile where
  contents : Text
  key : Option ModKey
deriving DecidableEq, Repr

/-- The newest contents read from each path. -/
structure FileCache where
  entries : List (Text × CachedFile) := []
deriving Repr

namespace FileCache

/-- The cached contents of a path that has the given key. -/
def hit? (c : FileCache) (path : Text) (key : Except FileError ModKey) : Option Text :=
  match c.entries.lookup path, key with
  | some file, .ok key => if file.key = some key then some file.contents else none
  | _, _ => none

/-- The cache after contents were read. -/
def store (c : FileCache) (path contents : Text) (key : Except FileError ModKey) : FileCache :=
  ⟨(path, ⟨contents, key.toOption⟩) :: c.entries.filter fun e => e.1 ≠ path⟩

/-- The contents of a path. -/
def read (c : FileCache) (fs : FileSystem) (path : Text) : FileCache × Except FileError Text :=
  let key := fs.modKey path
  match c.hit? path key with
  | some contents => (c, .ok contents)
  | none =>
    match fs.read path with
    | .ok contents => (c.store path contents key, .ok contents)
    | .error e => (c, .error e)

end FileCache

end ModuleSystem
