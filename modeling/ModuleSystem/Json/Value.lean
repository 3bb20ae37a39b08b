import ModuleSystem.Json.Fault
import ModuleSystem.Text.Utf16

/-!
# JSON values

Reading a JSON text into the value it stands for, by RFC 8259: no comments, no trailing commas, no
other white space than blanks, tabs and line ends.  Bytes of strings that are not UTF-8, and
surrogates without partner, become U+FFFD.
-/

namespace ModuleSystem

/-- A JSON value. Numbers keep their spelling, and an object its members in the order written. -/
inductive JsonValue where
  | null
  | bool (value : Bool)
  | number (spelling : Text)
  | string (value : Text)
  | array (elements : List JsonValue)
  | object (members : List (Text × JsonValue))
deriving Repr

namespace Json

/-- What follows the white space that a text begins with. -/
def skipSpace (t : Text) : Text := t.dropWhile fun b => b = 32 || b = 9 || b = 10 || b = 13

/-- The code unit that some hexadecimal digits add to those before them. -/
def unitFrom : Nat → Nat → Text → Except JsonFault (Nat × Text)
  | 0, u, t => .ok (u, t)
  | _ + 1, _, [] => .error (.stopped .unicodeEscape [])
  | width + 1, u, b :: t =>
    match Ascii.hexValue? b with
    | some d => unitFrom width (u * 16 + d.toNat) t
    | none => .error (.invalid b .unicodeEscape)

/-- The code unit of four hexadecimal digits. -/
def unit (t : Text) : Except JsonFault (Nat × Text) := unitFrom 4 0 t

/-- The byte that a one-letter escape stands for. -/
def escaped? (letter : UInt8) : Option UInt8 :=
  [(34, 34), (92, 92), (47, 47), (98, 8), (102, 12), (110, 10), (114, 13), (116, 9)].lookup letter

/-- The second half of a surrogate pair at the beginning of a text. -/
def lowHalf? (t : Text) : Option (Nat × Text) :=
  match t with
  | 92 :: 117 :: t =>
    match unit t with
    | .ok (v, t) => if 0xDC00 ≤ v && v ≤ 0xDFFF then some (v, t) else none
    | .error _ => none
  | _ => none

/-- Reads an escape after its backslash. -/
def escape (t : Text) : Except JsonFault (Text × Text) :=
  match t with
  | 117 :: t => do
    let (u, t) ← unit t
    if !Utf8.isSurrogate u then return (Utf8.encode u, t)
    match lowHalf? t with
    | some (v, rest) =>
      if u < 0xDC00 then
        return (Utf8.encode ((u - 0xD800) * 1024 + (v - 0xDC00) + 0x10000), rest)
      return (Utf8.encode Utf8.replacement, t)
    | none => return (Utf8.encode Utf8.replacement, t)
  | [] => .error (.stopped .escape [])
  | letter :: t =>
    match escaped? letter with
    | some b => .ok ([b], t)
    | none => .error (.invalid letter .escape)

/-- Reads the rest of a string after its opening quote, with at most `fuel` characters. -/
def stringBody : Nat → Text → Except JsonFault (Text × Text)
  | 0, _ => .error .ended
  | _, [] => .error .ended
  | fuel + 1, b :: t =>
    if b = 34 then .ok ([], t)
    else if b < 32 then .error (.invalid b .string)
    else if b = 92 then do
      let (piece, t) ← escape t
      let (s, t) ← stringBody fuel t
      return (piece ++ s, t)
    else (stringBody fuel t).map fun (s, t) => (b :: s, t)

/-- Reads a string after its opening quote. -/
def string (t : Text) : Except JsonFault (Text × Text) :=
  (stringBody (t.length + 1) t).map fun (s, t) => (Utf8.repair s, t)

/-- Reads one digit or more, which the context calls for. -/
def digits (context : JsonContext) (t : Text) : Except JsonFault (Text × Text) :=
  let (ds, rest) := t.span Ascii.isDigit
  if ds.isEmpty then .error (.stopped context rest) else .ok (ds, rest)

/-- Reads the fraction of a number, if it has one. -/
def fraction (t : Text) : Except JsonFault (Text × Text) :=
  match t with
  | 46 :: t => (digits .point t).map fun (ds, t) => (46 :: ds, t)
  | t => .ok ([], t)

/-- Reads the exponent of a number, if it has one. -/
def exponent (t : Text) : Except JsonFault (Text × Text) :=
  match t with
  | e :: rest =>
    if e = 69 || e = 101 then
      let (sign, rest) : Text × Text := match rest with
        | 43 :: rest => ([43], rest)
        | 45 :: rest => ([45], rest)
        | rest => ([], rest)
      (digits .exponent rest).map fun (ds, t) => (e :: sign ++ ds, t)
    else .ok ([], t)
  | [] => .ok ([], [])

/-- Reads a number. -/
def number (t : Text) : Except JsonFault (Text × Text) := do
  let (sign, t) : Text × Text := match t with
    | 45 :: t => ([45], t)
    | t => ([], t)
  let (whole, t) ← match t with
    | 48 :: t => .ok ([48], t)
    | t => digits .number t
  let (fraction, t) ← fraction t
  let (exponent, t) ← exponent t
  return (sign ++ whole ++ fraction ++ exponent, t)

/-- Reads what is left of a word. -/
def wordFrom (name : Text) : Text → Text → Except JsonFault Text
  | [], t => .ok t
  | c :: _, [] => .error (.stopped (.word name c) [])
  | c :: left, b :: t => if b = c then wordFrom name left t else .error (.invalid b (.word name c))

/-- Reads a word that stands for a value. -/
def word (v : JsonValue) (name t : Text) : Except JsonFault (JsonValue × Text) :=
  (wordFrom name name t).map (v, ·)

mutual

/-- Reads a value that may be nested `depth` deep, in at most `fuel` steps. -/
def value : Nat → Nat → Text → Except JsonFault (JsonValue × Text)
  | 0, _, _ => .error .ended
  | fuel + 1, depth, t =>
    match skipSpace t with
    | [] => .error .ended
    | 34 :: t => (string t).map fun (s, t) => (.string s, t)
    | 91 :: t =>
      match depth, skipSpace t with
      | 0, _ => .error (.invalid 91 .depth)
      | _, 93 :: t => .ok (.array [], t)
      | depth + 1, t => (elements fuel depth t).map fun (es, t) => (.array es, t)
    | 123 :: t =>
      match depth, skipSpace t with
      | 0, _ => .error (.invalid 123 .depth)
      | _, 125 :: t => .ok (.object [], t)
      | depth + 1, t => (members fuel depth t).map fun (ms, t) => (.object ms, t)
    | b :: t =>
      if Ascii.isDigit b || b = 45 then (number (b :: t)).map fun (n, t) => (.number n, t)
      else if b = 110 then word .null "null" (b :: t)
      else if b = 116 then word (.bool true) "true" (b :: t)
      else if b = 102 then word (.bool false) "false" (b :: t)
      else .error (.invalid b .value)

/-- Reads the elements of an array up to its end. -/
def elements : Nat → Nat → Text → Except JsonFault (List JsonValue × Text)
  | 0, _, _ => .error .ended
  | fuel + 1, depth, t => do
    let (v, t) ← value fuel depth t
    match skipSpace t with
    | 44 :: t => (elements fuel depth t).map fun (vs, t) => (v :: vs, t)
    | 93 :: t => .ok ([v], t)
    | [] => .error .ended
    | b :: _ => .error (.invalid b .afterElement)

/-- Reads the members of an object up to its end. -/
def members : Nat → Nat → Text → Except JsonFault (List (Text × JsonValue) × Text)
  | 0, _, _ => .error .ended
  | fuel + 1, depth, t => do
    let (key, t) ← match skipSpace t with
      | 34 :: t => string t
      | [] => .error .ended
      | b :: _ => .error (.invalid b .key)
    let (v, t) ← match skipSpace t with
      | 58 :: t => value fuel depth t
      | [] => .error .ended
      | b :: _ => .error (.invalid b .afterKey)
    match skipSpace t with
    | 44 :: t => (members fuel depth t).map fun (ms, t) => ((key, v) :: ms, t)
    | 125 :: t => .ok ([(key, v)], t)
    | [] => .error .ended
    | b :: _ => .error (.invalid b .afterMember)

end

/-- The deepest nesting that is read. -/
def maxDepth : Nat := 10000

/-- The value of a JSON text. Every step takes at least one byte, so the length of the text bounds
their number. -/
def read (t : Text) : Except JsonFault JsonValue := do
  let (v, rest) ← value (2 * t.length + 2) maxDepth t
  match skipSpace rest with
  | [] => return v
  | b :: _ => .error (.invalid b .afterTop)

/-- The value of a JSON text, if it has one. -/
def read? (t : Text) : Option JsonValue := (read t).toOption

end Json

namespace JsonValue

/-- The members of an object, the last one of each key; none for `null`. Other values are not
objects. -/
def fields? : JsonValue → Option (List (Text × JsonValue))
  | .null => some []
  | .object members => some members.reverse
  | _ => none

/-- The text of a string; the empty one for `null`. -/
def text? : JsonValue → Option Text
  | .null => some []
  | .string t => some t
  | _ => none

end JsonValue

end ModuleSystem
