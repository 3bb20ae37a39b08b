import ModuleSystem.Resolver.Directory

/-!
# Attempts

Looking for a file is a sequence of attempts, each of which tells its steps.  An attempt is a pure
function of what the directories hold; the steps say which directories it asked about, in order.
-/

namespace ModuleSystem.Resolver

/-- A step of a search. -/
inductive Step where
  /-- A remark. -/
  | note (depth : Nat) (text : Text)
  /-- A directory was asked for. -/
  | visit (depth : Nat) (path : Text)
deriving DecidableEq, Repr

/-- The same step one level deeper. -/
def Step.deeper : Step → Step
  | .note depth text => .note (depth + 1) text
  | .visit depth path => .visit (depth + 1) path

/-- An attempt: the file that was found, and the steps on the way. -/
structure Attempt where
  found : Option Text := none
  steps : List Step := []
deriving DecidableEq, Repr

namespace Attempt

/-- A remark that finds nothing. -/
def note (text : Text) : Attempt := { steps := [.note 0 text] }

/-- A file, found with a remark. -/
def hit (path text : Text) : Attempt := { found := some path, steps := [.note 0 text] }

/-- A second attempt if the first finds nothing. -/
def orElse (a : Attempt) (b : Unit → Attempt) : Attempt :=
  match a.found with
  | some _ => a
  | none => let b := b (); { found := b.found, steps := a.steps ++ b.steps }

instance : OrElse Attempt := ⟨orElse⟩

/-- The attempt under a heading. -/
def under (heading : Text) (a : Attempt) : Attempt :=
  { a with steps := .note 0 heading :: a.steps.map Step.deeper }

/-- The first of several attempts that finds a file. -/
def firstOf (attempt : α → Attempt) : List α → Attempt
  | [] => {}
  | x :: xs => attempt x <|> firstOf attempt xs

/-- An attempt with a directory, which fails when it cannot be read. -/
def within (directories : Text → Option Directory) (path : Text) (attempt : Directory → Attempt) :
    Attempt :=
  match directories path with
  | none => { steps := [.visit 0 path] }
  | some d => let a := attempt d; { a with steps := .visit 0 path :: a.steps }

end Attempt

end ModuleSystem.Resolver
