import ModuleSystem.Text

/-!
# Paths

A path is a text whose segments are divided by slashes, and it is rooted when it starts with one.
`Path.segments` is the view that every operation is read off: empty segments and `.` mean nothing,
and `..` undoes the segment before it.  A file system writes its paths in one of two styles; in
the Windows style the root is a drive and the divider a backslash, and each operation works on the
slash form of its arguments.
-/

namespace ModuleSystem

namespace Path

/-- The path starts at the root. -/
def isRooted (p : Text) : Bool := p.startsWith "/"

/-- Adds a segment to the segments before it, the nearest first. -/
def push (rooted : Bool) (above : List Text) (segment : Text) : List Text :=
  if segment = [] || segment = Text.ofString "." then above
  else if segment = Text.ofString ".." then
    match above with
    | [] => if rooted then [] else [segment]
    | s :: rest => if s = Text.ofString ".." then segment :: above else rest
  else segment :: above

/-- The segments that remain when `.` and `..` are carried out. -/
def segments (p : Text) : List Text :=
  ((p.splitOn 47).foldl (push (isRooted p)) []).reverse

/-- The path of some segments. -/
def ofSegments (rooted : Bool) (ss : List Text) : Text :=
  if rooted then 47 :: Text.joinWith "/" ss
  else if ss.isEmpty then "." else Text.joinWith "/" ss

/-- The shortest path with the same meaning. -/
def clean (p : Text) : Text := ofSegments (isRooted p) (segments p)

/-- The parts one below the other, empty ones left out. -/
def join (parts : List Text) : Text :=
  clean (Text.joinWith "/" (parts.filter fun p => !p.isEmpty))

/-- The directory that holds a path. -/
def dir (p : Text) : Text :=
  clean (match p.lastIdxOf? 47 with
    | some i => p.take (i + 1)
    | none => [])

/-- The last segment of a path as it is written. -/
def base (p : Text) : Text :=
  if p.isEmpty then "."
  else match (p.reverse.dropWhile (· = 47)).takeWhile (· ≠ 47) with
    | [] => "/"
    | name => name.reverse

/-- The last segment from its last dot on; empty when it has no dot. -/
def ext (p : Text) : Text :=
  let name : Text := (p.reverse.takeWhile (· ≠ 47)).reverse
  match name.lastIdxOf? 46 with
  | some i => name.drop i
  | none => []

/-! ### Relative paths -/

/-- Two lists after the longest beginning that they share. -/
def afterCommon : List Text → List Text → List Text × List Text
  | b :: bs, t :: ts => if b = t then afterCommon bs ts else (b :: bs, t :: ts)
  | bs, ts => (bs, ts)

/-- The path that leads up from every segment of `base` and then down `target`. -/
def upAndDown (base target : List Text) : Text :=
  Text.joinWith "/" (base.map (fun _ => Text.ofString "..") ++ target)

/-- The segments of a cleaned path; the path `.` is a segment of its own. -/
def written (p : Text) : List Text := if segments p = [] && !isRooted p then ["."] else segments p

/-- The path that leads from one directory to a target; none when just one of them is rooted. -/
def rel? (base target : Text) : Option Text :=
  if clean base = clean target then some "."
  else if isRooted base ≠ isRooted target then none
  else
    let (bs, ts) := afterCommon (segments base) (written target)
    some (upAndDown bs ts)

/-- The path that leads from one directory to a target, found without asking where the directory
is: none also when that would take the name of a directory above it. -/
def relLexical? (base target : Text) : Option Text :=
  if clean base = clean target then some "."
  else if isRooted base ≠ isRooted target then none
  else
    let (bs, ts) := afterCommon (segments base) (segments target)
    if bs.head? = some (Text.ofString "..") then none else some (upAndDown bs ts)

end Path

/-- How a file system writes its paths. -/
inductive PathStyle where
  | unix
  | windows
deriving DecidableEq, Repr

namespace PathStyle

/-- The byte that divides segments. -/
def separator : PathStyle → UInt8
  | .unix => 47
  | .windows => 92

/-- The path starts with the drive and a backslash. -/
def onDrive (p : Text) : Bool := p.startsWith "C:\\" || p.startsWith "c:\\"

/-- The slash form of a path. -/
def toSlash (style : PathStyle) (p : Text) : Text :=
  match style with
  | .unix => p
  | .windows => (if onDrive p then p.drop 2 else p).map fun b => if b = 92 then 47 else b

/-- The divider of the style in place of slashes. -/
def divide (style : PathStyle) (p : Text) : Text :=
  match style with
  | .unix => p
  | .windows => p.map fun b => if b = 47 then 92 else b

/-- The path that a slash form stands for. -/
def ofSlash (style : PathStyle) (p : Text) : Text :=
  match style with
  | .unix => p
  | .windows =>
    let q := style.divide p
    if q.startsWith "\\" then "C:" ++ q else q

/-- The path does not depend on a working directory. -/
def isAbs (style : PathStyle) (p : Text) : Bool :=
  match style with
  | .unix => Path.isRooted p
  | .windows => onDrive p

/-- The parts one below the other, empty ones left out. -/
def join (style : PathStyle) (parts : List Text) : Text :=
  style.ofSlash (Path.join (parts.map style.toSlash))

/-- The directory that holds a path. -/
def dir (style : PathStyle) (p : Text) : Text := style.ofSlash (Path.dir (style.toSlash p))

/-- The last segment of a path. -/
def base (style : PathStyle) (p : Text) : Text := style.divide (Path.base (style.toSlash p))

/-- The last segment from its last dot on. -/
def ext (style : PathStyle) (p : Text) : Text := Path.ext (style.toSlash p)

/-- The topmost directory above a path, climbing at most `fuel` times. -/
def climb (style : PathStyle) (p : Text) : Nat → Text
  | 0 => p
  | fuel + 1 => if style.dir p = p then p else style.climb (style.dir p) fuel

/-- The topmost directory above a path. Each directory is shorter than the path it holds, but for
the dot of an empty path and a drive that takes the place of a leading separator. -/
def root (style : PathStyle) (p : Text) : Text := style.climb p (p.length + 4)

/-- The path read from the root. -/
def fromRoot (style : PathStyle) (p : Text) : Text :=
  style.ofSlash (Path.join ["/", style.toSlash p])

/-- The path that leads from one directory to a target. -/
def rel? (style : PathStyle) (base target : Text) : Option Text :=
  (Path.rel? (style.toSlash base) (style.toSlash target)).map style.ofSlash

end PathStyle

end ModuleSystem
