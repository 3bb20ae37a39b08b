import ModuleSystem.Text

/-!
# Specifiers

The texts that import statements name modules with, and the URLs of files.
-/

namespace ModuleSystem.Specifier

/-- The specifier is relative to the importing file. -/
def isRelative (s : Text) : Bool :=
  s.startsWith "./" || s.startsWith "../" || s == Text.ofString "." || s == Text.ofString ".."

/-- The specifier names a package, possibly with a scope, and perhaps a path inside it. -/
def isPackagePath (s : Text) : Bool :=
  match s with
  | [] => false
  | b :: _ =>
    if b = 46 || b = 47 || s.elem 92 then false
    else match s.splitOn 47 with
      | scope :: name :: _ => if b = 64 then 1 < scope.length && !name.isEmpty else !scope.isEmpty
      | [name] => b ≠ 64 && !name.isEmpty
      | [] => false

/-- What precedes the query and the fragment. -/
def withoutQuery (s : Text) : Text := s.takeWhile fun b => b ≠ 63 && b ≠ 35

/-- The bytes that a URL path holds as they are. -/
def isUrlByte (b : UInt8) : Bool :=
  Ascii.isLetter b || Ascii.isDigit b || (Text.ofString "-_.~$&+,/:;=@").elem b

/-- The path with every other byte percent-encoded. -/
def percentEncode (path : Text) : Text :=
  path.flatMap fun b =>
    if isUrlByte b then [b] else 37 :: Hex.digits Hex.upperDigit 2 b.toNat

/-- The text with every percent escape decoded; none when a percent sign starts no escape. -/
def percentDecode? : Text → Option Text
  | [] => some []
  | b :: t =>
    if b = 37 then
      match t with
      | h :: l :: t =>
        match Ascii.hexValue? h, Ascii.hexValue? l with
        | some h, some l => (percentDecode? t).map ((h * 16 + l) :: ·)
        | _, _ => none
      | _ => none
    else (percentDecode? t).map (b :: ·)

/-- The URL of a file, given the separator of its path. -/
def fileUrl (separator : UInt8) (path : Text) : Text :=
  let path := if separator = 92 then 47 :: path.map fun b => if b = 92 then 47 else b else path
  if path.isEmpty then "file:"
  else if path = Text.ofString "*" then "file://*"
  else "file://" ++ percentEncode path

/-- A drive letter with its colon. -/
def isDrive (s : Text) : Bool :=
  match s with
  | [letter, colon] => Ascii.isLetter letter && colon = 58
  | _ => false

/-- A path that starts with a drive. -/
def isOnDrive (s : Text) : Bool :=
  isDrive (s.take 2) && (match s.drop 2 with
    | b :: _ => b = 92 || b = 47
    | [] => false)

/-- A byte of a URL scheme after its first letter. -/
def isSchemeByte (b : UInt8) : Bool :=
  Ascii.isLetter b || Ascii.isDigit b || b = 43 || b = 45 || b = 46

/-- The specifier starts with a URL scheme. -/
def hasScheme (s : Text) : Bool :=
  match s.idxOf? 58 with
  | none => false
  | some colon =>
    match s.take colon with
    | [] => false
    | b :: t => Ascii.isLetter b && t.all isSchemeByte

/-- The text with capital letters made small; the long s is a form of the letter s. -/
def foldCase : Text → Text
  | 0xC5 :: 0xBF :: t => 115 :: foldCase t
  | b :: t => Ascii.toLower b :: foldCase t
  | [] => []

/-- The host is this machine. -/
def isLocalhost (host : Text) : Bool := foldCase host = Text.ofString "localhost"

end ModuleSystem.Specifier
