import ModuleSystem.FileSystem

/-!
# Disks

A file system with symbolic links, as a process with a working directory of its own sees it.
Looking a path up walks it segment by segment; a link on the way is replaced by what it names, at
most `Disk.maxLinks` times.  Names and paths have a greatest length.
-/

namespace ModuleSystem

/-- What a place on a disk holds. -/
inductive DiskNode where
  | file (contents : Text)
  | directory
  | link (target : Text)
deriving DecidableEq, Repr

/-- A disk. -/
structure Disk where
  /-- What stands where, by the segments from the root. -/
  nodes : List (List Text × DiskNode)
  /-- The places whose last edit is long enough ago to be told from a later one. -/
  settled : List (List Text) := []
  /-- The segments of the working directory of the process. -/
  home : List Text := []
deriving Repr

namespace Disk

/-- The number of links that a walk follows when a file is used. -/
def maxLinks : Nat := 40

/-- The number of links that are taken out of a path when it is freed of all of them. -/
def maxResolvedLinks : Nat := 255

/-- The greatest number of bytes of a name. -/
def maxName : Nat := 255

/-- Paths are shorter than this. -/
def pathBound : Nat := 4096

/-- A place, counted from the root or from the working directory of the process. -/
structure Place where
  rooted : Bool
  segments : List Text
deriving DecidableEq, Repr

namespace Place

/-- The place that a path starts from. -/
def start (path : Text) : Place := ⟨Path.isRooted path, []⟩

/-- The place above. -/
def up (p : Place) : Place :=
  { p with segments := (Path.push p.rooted p.segments.reverse "..").reverse }

/-- The place of a name below. -/
def down (p : Place) (name : Text) : Place := { p with segments := p.segments ++ [name] }

/-- The path of a place. -/
def path (p : Place) : Text := Path.ofSegments p.rooted p.segments

end Place

/-- A disk that holds what is listed; a directory exists where something lies below it. -/
def ofNodes (home : List Text) (nodes : List (List Text × DiskNode)) : Disk :=
  let above := (home :: nodes.map fun (p, _) => p.dropLast).flatMap fun p =>
    (List.range (p.length + 1)).map p.take
  { nodes := nodes ++ above.map fun p => (p, .directory), home }

/-- A disk with files and links under one directory. -/
def ofTree (home : List Text) (files : List (Text × Text)) (links : List (Text × Text)) : Disk :=
  let below (p : Text) := home ++ Path.segments p
  ofNodes home (files.map (fun (p, c) => (below p, DiskNode.file c))
    ++ links.map fun (p, t) => (below p, DiskNode.link t))

/-- The segments of a place from the root. -/
def absolute (d : Disk) (p : Place) : List Text :=
  if p.rooted then p.segments
  else (p.segments.foldl (Path.push true) d.home.reverse).reverse

/-- What a place holds. -/
def at? (d : Disk) (p : Place) : Option DiskNode := d.nodes.lookup (d.absolute p)

/-- The place that the segments `rest` lead to from the directory `here`, following at most `links`
links. -/
def follow (d : Disk) (links : Nat) (here : Place) (rest : List Text) :
    Except FileError (Place × DiskNode) :=
  match rest with
  | [] => .ok (here, .directory)
  | s :: rest =>
    if s = [] || s = Text.ofString "." then d.follow links here rest
    else if s = Text.ofString ".." then d.follow links here.up rest
    else if maxName < s.length then .error .nameTooLong
    else
      let there := here.down s
      match d.at? there with
      | none => .error .missing
      | some .directory => d.follow links there rest
      | some (.file contents) =>
        if rest.isEmpty then .ok (there, .file contents) else .error .notDirectory
      | some (.link target) =>
        match links with
        | 0 => .error .linkLoop
        | links + 1 =>
          let here := if Path.isRooted target then Place.start target else here
          d.follow links here (target.splitOn 47 ++ rest)
termination_by (links, rest.length)

/-- Why a path cannot be looked up at all. -/
def refusal? (path : Text) : Option FileError :=
  if List.contains path 0 then some .badPath
  else if path.isEmpty then some .missing
  else if pathBound ≤ path.length then some .nameTooLong
  else none

/-- The place that a path leads to, free of links, and what it holds. -/
def find (d : Disk) (path : Text) : Except FileError (Place × DiskNode) :=
  match refusal? path with
  | some e => .error e
  | none => d.follow maxLinks (Place.start path) (path.splitOn 47)

/-- The path without links that a path stands for, and what it leads to. -/
def resolve? (d : Disk) (path : Text) : Option (Text × DiskNode) :=
  match d.follow maxResolvedLinks (Place.start path) (path.splitOn 47) with
  | .ok (place, node) => some (place.path, node)
  | .error _ => none

/-- What a path names, where a link at its end stands for itself. -/
def named? (d : Disk) (path : Text) : Option DiskNode :=
  match (refusal? path), (path.splitOn 47).getLast? with
  | none, some name =>
    match d.follow maxLinks (Place.start path) (path.splitOn 47).dropLast with
    | .ok (place, .directory) => d.at? (place.down name)
    | _ => none
  | _, _ => none

/-- The entry of a name in a directory; none for a link that leads nowhere. -/
def entry? (d : Disk) (dir name : Text) : Option Entry :=
  let kindOf : DiskNode → EntryKind
    | .directory => .directory
    | _ => .file
  let path := Path.join [dir, name]
  match d.named? path with
  | none => none
  | some (.link _) =>
    (d.resolve? path).map fun (target, node) => { name, kind := kindOf node, target := some target }
  | some node => some { name, kind := kindOf node }

/-- The entries of a directory. -/
def list (d : Disk) (path : Text) : Except FileError (List Entry) :=
  match d.find path with
  | .error .notDirectory => .error .missing
  | .error e => .error e
  | .ok (place, .directory) =>
    let here := d.absolute place
    let names := d.nodes.filterMap fun (p, _) =>
      if p.dropLast = here then p.getLast? else none
    .ok ((Text.sort names.eraseDups).filterMap (d.entry? path))
  | .ok _ => .error (.notListable path)

/-- The contents of a file. -/
def read (d : Disk) (path : Text) : Except FileError Text :=
  match d.find path with
  | .ok (_, .file contents) => .ok contents
  | .ok _ => .error .isDirectory
  | .error .notDirectory => .error .missing
  | .error e => .error e

/-- The contents of a file, for a caller who is told which step failed. -/
def contents (d : Disk) (path : Text) : Except AccessError Text :=
  match d.find path with
  | .ok (_, .file contents) => .ok contents
  | .ok _ => .error ⟨"read", path, .isDirectory⟩
  | .error e => .error ⟨"open", path, e⟩

/-- The place where a file is written that the segments `rest` name from the directory `here`,
following at most `links` links. A file that does not exist needs a directory to stand in, and a
name with a slash after it means a directory. -/
def createAt (d : Disk) (links : Nat) (here : Place) (rest : List Text) :
    Except FileError Place :=
  match rest with
  | [] => .error .isDirectory
  | s :: rest =>
    let last := rest.isEmpty
    if rest.all (·.isEmpty) && (!last || s = [] || s = Text.ofString "." || s = Text.ofString "..")
    then .error .isDirectory
    else if s = [] || s = Text.ofString "." then d.createAt links here rest
    else if s = Text.ofString ".." then d.createAt links here.up rest
    else if maxName < s.length then .error .nameTooLong
    else
      let there := here.down s
      match d.at? there with
      | none => if last then .ok there else .error .missing
      | some .directory => if last then .error .isDirectory else d.createAt links there rest
      | some (.file _) => if last then .ok there else .error .notDirectory
      | some (.link target) =>
        match links with
        | 0 => .error .linkLoop
        | links + 1 =>
          let here := if Path.isRooted target then Place.start target else here
          d.createAt links here (target.splitOn 47 ++ rest)
termination_by (links, rest.length)

/-- The disk with an empty file at a path. -/
def create (d : Disk) (path : Text) : Except AccessError Disk :=
  let place : Except FileError Place := match refusal? path with
    | some e => .error e
    | none => d.createAt maxLinks (Place.start path) (path.splitOn 47)
  match place with
  | .ok place => .ok { d with nodes := (d.absolute place, .file []) :: d.nodes }
  | .error e => .error ⟨"open", path, e⟩

/-- The modification key of a file. -/
def modKey (d : Disk) (path : Text) : Except FileError ModKey :=
  match d.find path with
  | .error e => .error e
  | .ok (place, _) =>
    let p := d.absolute place
    if d.settled.contains p then .ok ⟨d.nodes.findIdx (·.1 = p), 1⟩ else .error .keyUnusable

/-- The path from the root. -/
def abs (d : Disk) (path : Text) : Text :=
  if Path.isRooted path then Path.clean path else Path.join [Path.ofSegments true d.home, path]

/-- The disk as a file system with a working directory, which is freed of links where it exists;
an empty one means that of the process. -/
def fileSystem (d : Disk) (cwd : Text) : FileSystem :=
  let cwd := if cwd.isEmpty then Path.ofSegments true d.home else cwd
  { style := .unix
    cwd := ((d.resolve? cwd).map (·.1)).getD cwd
    list := d.list
    read := d.read
    modKey := d.modKey
    abs := d.abs
    rel? := Path.relLexical? }

end Disk

end ModuleSystem
