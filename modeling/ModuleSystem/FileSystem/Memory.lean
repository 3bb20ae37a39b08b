import ModuleSystem.FileSystem

/-!
# Files in memory

A file system made from a list of paths and contents.  Paths are given in their slash form; a
directory exists when a file lies somewhere below it.
-/

namespace ModuleSystem

/-- Files with their contents. -/
structure Memory where
  style : PathStyle
  cwd : Text
  /-- The contents by the slash form of the path, each path once. -/
  files : List (Text × Text)
deriving Repr

namespace Memory

/-- A path and the directories above it, the nearest first; the top is not among them. -/
def upward (p : Text) : Nat → List Text
  | 0 => []
  | fuel + 1 => if Path.dir p = p then [] else p :: upward (Path.dir p) fuel

/-- A path and the directories above it. A directory is never longer than the path it holds by
more than the dot of an empty path. -/
def chain (p : Text) : List Text := upward p (p.length + 2)

/-- The entries that a file adds to the directories above it, each with its directory. -/
def entriesFor (path : Text) : List (Text × Entry) :=
  (chain path).map fun p =>
    (Path.dir p, { name := Path.base p, kind := if p = path then .file else .directory })

/-- The directories that a file lies below. -/
def directoriesFor (path : Text) : List Text :=
  (chain path).map Path.dir ++ (if Path.dir path = path then [path] else [])

/-- The entry of a name: a file wherever one has the name. -/
def entryNamed (es : List Entry) (name : Text) : Entry :=
  { name, kind := if es.any fun e => e.name = name && e.kind = .file then .file else .directory }

/-- The entries of a directory given in slash form. -/
def entries (m : Memory) (dir : Text) : List Entry :=
  let es := (m.files.flatMap fun f => entriesFor f.1).filterMap fun (d, e) =>
    if m.style.ofSlash d = m.style.ofSlash dir then some e else none
  (Text.sort (es.map (·.name)).eraseDups).map (entryNamed es)

/-- Every directory with its entries, by its path. -/
def directories (m : Memory) : List (Text × List Entry) :=
  (m.files.flatMap fun f => directoriesFor f.1).eraseDups.map fun d =>
    (m.style.ofSlash d, m.entries d)

/-- The path without the separators at its end, but with the first separator of all. -/
def withoutTrailing (separator : UInt8) (p : Text) : Text :=
  let body := (p.reverse.dropWhile (· = separator)).reverse
  if body.elem separator then body
  else body ++ (p.drop body.length).take 1

/-- The file system of the files. -/
def fileSystem (m : Memory) : FileSystem :=
  let directories := m.directories
  let files := m.files.map fun (p, contents) => (m.style.ofSlash p, contents)
  { style := m.style
    cwd := m.style.ofSlash m.cwd
    list := fun p =>
      match directories.lookup (withoutTrailing m.style.separator (m.style.divide p)) with
      | some es => .ok es
      | none => .error .missing
    read := fun p =>
      match files.lookup (m.style.divide p) with
      | some contents => .ok contents
      | none => .error .missing
    modKey := fun _ => .error .keyUnavailable
    abs := m.style.fromRoot
    rel? := m.style.rel? }

end Memory

end ModuleSystem
