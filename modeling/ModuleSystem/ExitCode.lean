import ModuleSystem.ModuleError

/-!
# Exit codes

Errors as a command line sees them, and the code that the process ends with.  An error may carry
others inside; what decides is found by searching it depth first.
-/

namespace ModuleSystem

/-- An error of a command. -/
inductive Failure where
  | plain (text : Text)
  | notFound (e : NotFound)
  | canceled
  | deadline
  /-- A remark in front of an error that is still inside. -/
  | wrapped (text : Text) (inner : Failure)
  /-- A remark in front of the text of an error that is lost. -/
  | summarized (text : Text) (inner : Failure)
  /-- An error for which the exit code is given. -/
  | coded (code : Int) (inner : Failure)
  /-- An error that was shown to the user already. -/
  | reported (inner : Failure)
  | joined (all : List Failure)

namespace Failure

mutual

/-- The text of an error. -/
def message : Failure → Text
  | .plain text => text
  | .notFound e => e.message
  | .canceled => "context canceled"
  | .deadline => "context deadline exceeded"
  | .wrapped text inner => text ++ Text.ofString ": " ++ inner.message
  | .summarized text inner => text ++ Text.ofString ": " ++ inner.message
  | .coded _ inner => inner.message
  | .reported inner => inner.message
  | .joined all => Text.joinWith "\n" (messages all)

/-- The texts of errors. -/
def messages : List Failure → List Text
  | [] => []
  | f :: fs => f.message :: messages fs

end

mutual

/-- An error and what it carries inside, in the order of a search. -/
def chain : Failure → List Failure
  | .wrapped text inner => .wrapped text inner :: inner.chain
  | .coded code inner => .coded code inner :: inner.chain
  | .reported inner => .reported inner :: inner.chain
  | .joined all => .joined all :: chains all
  | f => [f]

/-- Errors and what they carry inside. -/
def chains : List Failure → List Failure
  | [] => []
  | f :: fs => f.chain ++ chains fs

end

/-- The code for failures in modules. -/
def failureCode : Int := 1

/-- The code for wrong flags, arguments and settings. -/
def usageCode : Int := 2

/-- The code for a specifier that leads to no file. -/
def notFoundCode : Int := 3

/-- The code for an interrupted command. -/
def interruptedCode : Int := 130

/-- The exit code of a command: a code that is given comes first, then a missing module, then an
interruption. -/
def exitCode : Option Failure → Int
  | none => 0
  | some f =>
    let given := f.chain.findSome? fun
      | .coded code _ => some code
      | _ => none
    given.getD
      (if f.chain.any fun | .notFound _ => true | _ => false then notFoundCode
       else if f.chain.any fun | .canceled => true | _ => false then interruptedCode
       else failureCode)

end Failure

end ModuleSystem
