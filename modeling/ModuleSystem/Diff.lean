import ModuleSystem.Diagnostic.Render

/-!
# Line differences

Two texts are compared line by line: around a longest run of lines that they share, the lines
before it and the lines after it are compared in the same way.
-/

namespace ModuleSystem.Diff

/-- A run of equal lines: where it starts in either text, and its length. -/
structure Run where
  old : Nat
  new : Nat
  len : Nat
deriving DecidableEq, Repr

/-- For each line of `new`, the length of the longest run that ends with it and with the line
`line`, where `above` gives the same for the line before `line`. -/
def runsEnding (line : Text) (new : List Text) (above : List Nat) : List Nat :=
  List.zipWith (fun t n => if line = t then n + 1 else 0) new (0 :: above)

/-- The longer of two runs, the first one when they are equal; a run is given by its ends. -/
def longer (best : Run) (i j n : Nat) : Run :=
  if best.len < n then ⟨i + 1 - n, j + 1 - n, n⟩ else best

/-- The first longest run of the lines `old`, which begin at line `i`, with `new`. -/
def longestFrom (new : List Text) : Nat → List Nat → Run → List Text → Run
  | _, _, best, [] => best
  | i, above, best, line :: old =>
    let runs := runsEnding line new above
    let best := runs.zipIdx.foldl (fun b (n, j) => longer b i j n) best
    longestFrom new (i + 1) runs best old

/-- A longest run of lines that two lists share; of several the one that ends first in `old`, then
in `new`. -/
def longestRun (old new : List Text) : Run :=
  longestFrom new 0 (new.map fun _ => 0) ⟨0, 0, 0⟩ old

/-- What became of a line. -/
inductive Mark where
  | kept
  | removed
  | added
deriving DecidableEq, Repr

/-- The marked lines of the difference, found within `fuel` nested runs. -/
def linesWith : Nat → List Text → List Text → List (Mark × Text)
  | 0, old, new => old.map (.removed, ·) ++ new.map (.added, ·)
  | fuel + 1, old, new =>
    let run := longestRun old new
    if run.len = 0 then old.map (.removed, ·) ++ new.map (.added, ·)
    else
      linesWith fuel (old.take run.old) (new.take run.new)
        ++ ((old.drop run.old).take run.len).map (.kept, ·)
        ++ linesWith fuel (old.drop (run.old + run.len)) (new.drop (run.new + run.len))

/-- The marked lines of the difference. -/
def lines (old new : List Text) : List (Mark × Text) := linesWith old.length old new

/-- The character of a mark. -/
def Mark.sign : Mark → Text
  | .kept => " "
  | .removed => "-"
  | .added => "+"

/-- The terminal escape of a mark. -/
def Mark.escape : Mark → Text
  | .kept => "\x1b[37m"
  | .removed => "\x1b[31m"
  | .added => "\x1b[32m"

/-- A marked line as text. -/
def renderLine (color : Bool) : Mark × Text → Text
  | (mark, line) =>
    if color then mark.escape ++ mark.sign ++ line ++ Diagnostic.Escape.reset.text
    else mark.sign ++ line

/-- The difference of two texts, a line for each line of either. -/
def render (old new : Text) (color : Bool) : Text :=
  Text.joinWith "\n" ((lines (old.splitOn 10) (new.splitOn 10)).map (renderLine color))

end ModuleSystem.Diff
