import ModuleSystem.Command.Duration
import ModuleSystem.Command.Record
import ModuleSystem.Config.Value
import ModuleSystem.Number.Numeral
import ModuleSystem.Text.Quoted

/-!
# Flags

The flags of a command line.  A flag stands anywhere among the arguments, up to an argument `--`,
and has its value after an equals sign or as the next argument; a switch needs none.  Flags with a
letter may be written together after one dash.
-/

namespace ModuleSystem

/-- What values a flag takes. -/
inductive FlagKind where
  | text
  /-- A text, and with every further use one more. -/
  | texts
  /-- A record of texts, and with every further use more of them. -/
  | record
  | switch
  | integer
  | duration
deriving DecidableEq, Repr

/-- A flag. -/
structure Flag where
  name : Text
  kind : FlagKind
  letter : Option UInt8 := none
deriving DecidableEq, Repr

/-- The value of a flag. -/
inductive FlagValue where
  | text (value : Text)
  | texts (values : List Text)
  | switch (value : Bool)
  | integer (value : Int)
  /-- A duration in nanoseconds. -/
  | duration (value : Int)
deriving DecidableEq, Repr

/-- Why a word is no value. -/
inductive FlagValueError where
  | integer (e : NumeralError)
  | switch
  | duration (e : DurationError)
  | record (e : RecordError)
deriving DecidableEq, Repr

namespace FlagValueError

/-- The wording of an error. -/
def message (word : Text) : FlagValueError → Text
  | integer e => e.message "Int" word
  | switch => NumeralError.malformed.message "Bool" word
  | duration e => e.message word
  | record e => e.message

end FlagValueError

/-- What is wrong with the use of a flag. -/
inductive FlagError where
  | unknown (name : Text)
  | unknownLetter (letter : UInt8) (letters : Text)
  | noValue (name : Text)
  | noValueLetter (letter : UInt8) (letters : Text)
  | malformed (argument : Text)
  | badValue (flag : Flag) (word : Text) (e : FlagValueError)
deriving DecidableEq, Repr

namespace FlagError

/-- A letter between single quotes. One beyond ASCII is shown by the first byte of its UTF-8
form. -/
def quoteLetter (b : UInt8) : Text := Quoted.displayByte ((Utf8.encode b.toNat).headD b)

/-- A flag as it is named in messages. -/
def shown (f : Flag) : Text :=
  match f.letter with
  | some b => [45, b] ++ Text.ofString ", --" ++ f.name
  | none => Text.ofString "--" ++ f.name

/-- The wording of an error. -/
def message : FlagError → Text
  | unknown name => "unknown flag: --" ++ name
  | unknownLetter b letters =>
    "unknown shorthand flag: " ++ quoteLetter b ++ Text.ofString " in -" ++ letters
  | noValue name => "flag needs an argument: --" ++ name
  | noValueLetter b letters =>
    "flag needs an argument: " ++ quoteLetter b ++ Text.ofString " in -" ++ letters
  | malformed argument => "bad flag syntax: " ++ argument
  | badValue f word e =>
    "invalid argument " ++ Quoted.display word ++ Text.ofString " for " ++ Quoted.display (shown f)
      ++ Text.ofString " flag: " ++ e.message word

end FlagError

namespace Flag

/-- The value that a word is for a flag. -/
def read (f : Flag) (word : Text) : Except FlagError FlagValue :=
  let bad (e : FlagValueError) : Except FlagError FlagValue := .error (.badValue f word e)
  match f.kind with
  | .text => .ok (.text word)
  | .texts => .ok (.texts [word])
  | .record =>
    match Record.read word with
    | .ok fields => .ok (.texts fields)
    | .error e => bad (.record e)
  | .switch =>
    match ConfigValue.switch? word with
    | some b => .ok (.switch b)
    | none => bad .switch
  | .integer =>
    match Numeral.read word with
    | .ok n => .ok (.integer n)
    | .error e => bad (.integer e)
  | .duration =>
    match Duration.read word with
    | .ok n => .ok (.duration n)
    | .error e => bad (.duration e)

/-- The flag of a name. -/
def named? (flags : List Flag) (name : Text) : Option Flag := flags.find? (·.name = name)

/-- The flag of a letter. -/
def lettered? (flags : List Flag) (b : UInt8) : Option Flag := flags.find? (·.letter = some b)

/-- The flag can do without a value. -/
def isSwitch (f : Flag) : Bool := f.kind = .switch

end Flag

/-- A command line that has been read: the flags in use, the last one first, and the other
arguments. -/
structure CommandLine where
  given : List (Text × FlagValue) := []
  arguments : List Text := []
deriving DecidableEq, Repr

namespace CommandLine

/-- The argument that holds a flag takes the next argument as its value. -/
def takesNext (flags : List Flag) (s : Text) : Bool :=
  !List.contains s 61 &&
    (match s with
    | 45 :: 45 :: name => !((Flag.named? flags name).any (·.isSwitch))
    | [45, b] => !((Flag.lettered? flags b).any (·.isSwitch))
    | _ => false)

/-- The arguments that are no flags, as far as can be told from some of the flags. -/
def operands (flags : List Flag) : List Text → List Text
  | [] => []
  | [s] => if s.isEmpty || s.startsWith "-" then [] else [s]
  | s :: t :: rest =>
    if s = Text.ofString "--" then []
    else if takesNext flags s then (if rest.isEmpty then [] else operands flags rest)
    else if s.isEmpty || s.startsWith "-" then operands flags (t :: rest)
    else s :: operands flags (t :: rest)

/-- The arguments without the first operand that is `x`. -/
def without (flags : List Flag) (x : Text) : List Text → List Text
  | [] => []
  | [s] => if s = x && !s.startsWith "-" then [] else [s]
  | s :: t :: rest =>
    if s = Text.ofString "--" then s :: t :: rest
    else if takesNext flags s then s :: t :: without flags x rest
    else if s = x && !s.startsWith "-" then t :: rest
    else s :: without flags x (t :: rest)

/-- The command line after one more flag. -/
def give (c : CommandLine) (f : Flag) (word : Text) : Except FlagError CommandLine :=
  match f.read word with
  | .ok v => .ok { c with given := (f.name, v) :: c.given }
  | .error e => .error e

/-- Letters that are left alone: they belong to the tools that test the program. -/
def isForTesting (letters : Text) : Bool := letters.startsWith "test."

/-- Reads flags that are written as letters. The result tells whether the last of them took the
argument that follows. -/
def letters (flags : List Flag) (next : Option Text) :
    CommandLine → Text → Except FlagError (CommandLine × Bool)
  | c, [] => .ok (c, false)
  | c, b :: rest =>
    if isForTesting (b :: rest) then .ok (c, false)
    else
      match Flag.lettered? flags b with
      | none => .error (.unknownLetter b (b :: rest))
      | some f =>
        match rest with
        | 61 :: v :: word => (c.give f (v :: word)).map (·, false)
        | _ =>
          if f.isSwitch then
            match c.give f "true" with
            | .ok c => letters flags next c rest
            | .error e => .error e
          else if rest.isEmpty then
            match next with
            | some word => (c.give f word).map (·, true)
            | none => .error (.noValueLetter b [b])
          else (c.give f rest).map (·, false)

/-- Reads a flag that is written with its name, after the two dashes. The result tells whether it
took the argument that follows. -/
def long (flags : List Flag) (next : Option Text) (c : CommandLine) (s : Text) :
    Except FlagError (CommandLine × Bool) :=
  let (name, rest) := s.span (· ≠ 61)
  if name.isEmpty || name.head? = some 45 then .error (.malformed (Text.ofString "--" ++ s))
  else
    match Flag.named? flags name with
    | none => .error (.unknown name)
    | some f =>
      match rest with
      | _ :: word => (c.give f word).map (·, false)
      | [] =>
        if f.isSwitch then (c.give f "true").map (·, false)
        else
          match next with
          | some word => (c.give f word).map (·, true)
          | none => .error (.noValue name)

/-- Reads one argument. The result tells whether it took the argument that follows. -/
def argument (flags : List Flag) (next : Option Text) (c : CommandLine) :
    Text → Except FlagError (CommandLine × Bool)
  | 45 :: 45 :: s => long flags next c s
  | 45 :: b :: s => letters flags next c (b :: s)
  | s => .ok ({ c with arguments := c.arguments ++ [s] }, false)

/-- Reads arguments, of which the first has been taken already when `taken` says so. -/
def readFrom (flags : List Flag) : Bool → CommandLine → List Text → Except FlagError CommandLine
  | _, c, [] => .ok c
  | true, c, _ :: rest => readFrom flags false c rest
  | false, c, s :: rest =>
    if s = Text.ofString "--" then .ok { c with arguments := c.arguments ++ rest }
    else
      match argument flags rest.head? c s with
      | .ok (c, taken) => readFrom flags taken c rest
      | .error e => .error e

/-- Reads a command line. -/
def read (flags : List Flag) (args : List Text) : Except FlagError CommandLine :=
  readFrom flags false {} args

/-- The value of a flag of one text. -/
def text? (c : CommandLine) (name : Text) : Option Text :=
  match c.given.lookup name with
  | some (.text t) => some t
  | _ => none

/-- The values of a flag of several texts; none when it is not in use. -/
def texts? (c : CommandLine) (name : Text) : Option (List Text) :=
  if (c.given.lookup name).isNone then none
  else some (c.given.reverse.flatMap fun
    | (n, .texts ts) => if n = name then ts else []
    | _ => [])

/-- The value of a switch. -/
def switch? (c : CommandLine) (name : Text) : Option Bool :=
  match c.given.lookup name with
  | some (.switch b) => some b
  | _ => none

/-- The value of a flag of a number. -/
def integer? (c : CommandLine) (name : Text) : Option Int :=
  match c.given.lookup name with
  | some (.integer n) => some n
  | some (.duration n) => some n
  | _ => none

end CommandLine

end ModuleSystem
