/-!
# Text

Text is a sequence of bytes.  Source files need not be valid UTF-8, and every offset, column and
length of the system counts bytes, so nothing is decoded before a question asks for characters.
-/

namespace ModuleSystem

/-- A sequence of bytes. -/
abbrev Text := List UInt8

namespace Text

/-- The UTF-8 bytes of a string. -/
def ofString (s : String) : Text :=
  s.toList.flatMap String.utf8EncodeChar

instance : Coe String Text := ⟨ofString⟩

/-- A text is checked byte by byte, and not by way of all bytes that there are. -/
instance (priority := high) {p : UInt8 → Prop} [DecidablePred p] (t : Text) : Decidable (∀ b ∈ t, p b) :=
  List.decidableBAll p t

/-- The decimal digits of a number. -/
def ofNat (n : Nat) : Text := ofString (toString n)

/-- The decimal digits of a number, after a minus sign when it is negative. -/
def ofInt : Int → Text
  | .ofNat n => ofNat n
  | .negSucc n => 45 :: ofNat (n + 1)

/-- `t` begins with `p`. -/
def startsWith (t p : Text) : Bool := p.isPrefixOf t

/-- `t` ends with `s`. -/
def endsWith (t s : Text) : Bool := s.isSuffixOf t

/-- What follows `p` in a text that begins with `p`. -/
def dropStart? (p t : Text) : Option Text :=
  if t.startsWith p then some (t.drop p.length) else none

/-- What precedes `s` in a text that ends with `s`. -/
def dropEnd? (s t : Text) : Option Text :=
  if t.endsWith s then some (t.take (t.length - s.length)) else none

/-- The bytes from `start` up to `stop`. -/
def slice (t : Text) (start stop : Nat) : Text := (t.drop start).take (stop - start)

/-- The offset of the last occurrence of a byte. -/
def lastIdxOf? (b : UInt8) (t : Text) : Option Nat :=
  (t.reverse.idxOf? b).map fun i => t.length - 1 - i

/-- The offset of the first occurrence of `p`. -/
def find? (p : Text) : Text → Option Nat
  | [] => if p.isEmpty then some 0 else none
  | b :: t => if startsWith (b :: t) p then some 0 else (find? p t).map (· + 1)

/-- `p` occurs in `t`. -/
def contains (t p : Text) : Bool := (find? p t).isSome

/-- One byte, `n` times. -/
def filled (n : Nat) (b : UInt8) : Text := List.replicate n b

/-- The pieces joined by `sep`. -/
def joinWith (sep : Text) (ts : List Text) : Text := List.intercalate sep ts

/-- Texts are ordered byte by byte, a proper beginning coming first. -/
def le (a b : Text) : Bool := (compare a b).isLE

/-- The texts in ascending byte order. -/
def sort (ts : List Text) : List Text := ts.mergeSort le

end Text

/-! Classes of ASCII bytes. -/

namespace Ascii

/-- A decimal digit. -/
def isDigit (b : UInt8) : Bool := 48 ≤ b && b ≤ 57

/-- A letter from `a` to `z` or from `A` to `Z`. -/
def isLetter (b : UInt8) : Bool := (65 ≤ b && b ≤ 90) || (97 ≤ b && b ≤ 122)

/-- The value of a hexadecimal digit. -/
def hexValue? (b : UInt8) : Option UInt8 :=
  if 48 ≤ b && b ≤ 57 then some (b - 48)
  else if 97 ≤ b && b ≤ 102 then some (b - 87)
  else if 65 ≤ b && b ≤ 70 then some (b - 55)
  else none

/-- The small letter of a capital letter; any other byte is itself. -/
def toLower (b : UInt8) : UInt8 := if 65 ≤ b && b ≤ 90 then b + 32 else b

/-- The capital letter of a small letter; any other byte is itself. -/
def toUpper (b : UInt8) : UInt8 := if 97 ≤ b && b ≤ 122 then b - 32 else b

end Ascii

/-! Hexadecimal digits. -/

namespace Hex

/-- The digit of a value below sixteen, in lower case. -/
def lowerDigit (n : Nat) : UInt8 := (if n < 10 then 48 + n else 87 + n).toUInt8

/-- The digit of a value below sixteen, in upper case. -/
def upperDigit (n : Nat) : UInt8 := (if n < 10 then 48 + n else 55 + n).toUInt8

/-- The lowest `width` hexadecimal digits of `n`, the highest of them first. -/
def digits (digit : Nat → UInt8) : Nat → Nat → Text
  | 0, _ => []
  | width + 1, n => digits digit width (n / 16) ++ [digit (n % 16)]

/-- The hexadecimal digits of `n` in lower case, without leading zeros. -/
def lower (n : Nat) : Text :=
  (Nat.toDigits 16 n).map fun c => c.toNat.toUInt8

end Hex

/-! Lists of keys with values, in the order in which the keys came. -/

namespace Table

/-- The table with the value of a key changed by `f`, which gets nothing when the key is new. -/
def alter [BEq α] (k : α) (f : Option β → β) : List (α × β) → List (α × β)
  | [] => [(k, f none)]
  | (a, b) :: t => if a == k then (a, f (some b)) :: t else (a, b) :: alter k f t

/-- The table with a value for a key. -/
def set [BEq α] (k : α) (v : β) (t : List (α × β)) : List (α × β) := alter k (fun _ => v) t

end Table

end ModuleSystem
