import ModuleSystem.Proofs.Json.Letter

/-!
# JSON — the grammar

JSON texts as trees that keep everything that is written: white space, the characters of strings as they are
spelled, and the parts of numbers.  A tree carries the proofs of its own form, so every tree is the tree of a
text, and a text is JSON if it is the text of a tree.

The standard writes a number without anything between its sign and its digits.  `Sign` says what else may
stand there: `Tree Joined` are the trees of the standard, and in `Tree IsSpace` the sign may stand apart.

`Tree.repeats` lists the keys that repeat an earlier key of the same object, as they are reported.
-/

namespace ModuleSystem.Json

/-! ### Texts between and inside values -/

/-- White space between tokens: blanks, tabs and the ends of lines. -/
def IsSpace (t : Text) : Prop := ∀ b ∈ t, b = 32 ∨ b = 9 ∨ b = 10 ∨ b = 13

instance : DecidablePred IsSpace := fun t => inferInstanceAs (Decidable (∀ b ∈ t, b = 32 ∨ b = 9 ∨ b = 10 ∨ b = 13))

abbrev Space := { t : Text // IsSpace t }

/-- Nothing stands there. -/
def Joined (t : Text) : Prop := t = []

instance : DecidablePred Joined := fun t => inferInstanceAs (Decidable (t = []))

/-- Decimal digits, at least one. -/
def AreDigits (t : Text) : Prop := t ≠ [] ∧ ∀ b ∈ t, CodePoint.isDigit b.toNat = true

instance : DecidablePred AreDigits := fun t =>
  inferInstanceAs (Decidable (t ≠ [] ∧ ∀ b ∈ t, CodePoint.isDigit b.toNat = true))

abbrev Digits := { t : Text // AreDigits t }

/-- The exponent of a number. -/
structure Exponent where
  letter : UInt8
  sign : Text
  digits : Digits
  letter_eq : letter = 101 ∨ letter = 69
  sign_eq : sign = [] ∨ sign = [43] ∨ sign = [45]

def Exponent.text (e : Exponent) : Text := e.letter :: e.sign ++ e.digits.1

/-- A number without its sign. Only zero begins with the digit zero. -/
structure Numeral where
  whole : Digits
  fraction : Option Digits
  exponent : Option Exponent
  zero : whole.1.head? = some 48 → whole.1 = [48]

namespace Numeral

/-- The point and the digits after it. -/
def point : Option Digits → Text
  | none => []
  | some digits => 46 :: digits.1

def power : Option Exponent → Text
  | none => []
  | some e => e.text

def text (n : Numeral) : Text := n.whole.1 ++ point n.fraction ++ power n.exponent

end Numeral

/-- The words that are values. -/
def IsConstant (t : Text) : Prop := t = "true" ∨ t = "false" ∨ t = "null"

instance : DecidablePred IsConstant := fun t =>
  inferInstanceAs (Decidable (t = "true" ∨ t = "false" ∨ t = "null"))

/-- The characters of a string. -/
abbrev Letters := { ls : List Letter // ∀ l ∈ ls, l.IsJson }

namespace Letters

def text (ls : Letters) : Text := quoted ls.1

def units (ls : Letters) : List UInt16 := ls.1.flatMap Letter.units

end Letters

/-- A key of an object, and its colon, with the white space around both. -/
structure Key where
  before : Space
  name : Letters
  between : Space
  after : Space

namespace Key

def text (k : Key) : Text := k.before.1 ++ k.name.text ++ k.between.1 ++ 58 :: k.after.1

/-- What is reported about a key at `pos`, when the keys `seen` stand before it in its object. -/
def repeats (seen : List (List UInt16)) (pos : Nat) (k : Key) : List Fault :=
  if k.name.units ∈ seen then
    [.duplicateKey ⟨pos + k.before.1.length, k.name.text.length⟩ (Utf16.toText k.name.units)]
  else []

end Key

/-! ### Values -/

mutual

/-- A value. `Sign` holds of what may stand between the sign of a number and its digits. -/
inductive Tree (Sign : Text → Prop) where
  | constant (word : { t : Text // IsConstant t })
  | number (n : Numeral)
  | negative (sign : { t : Text // Sign t }) (n : Numeral)
  | string (letters : Letters)
  | emptyArray (space : Space)
  | array (items : Items Sign)
  | emptyObject (space : Space)
  | object (members : Members Sign)

/-- The elements of an array, with commas between them. -/
inductive Items (Sign : Text → Prop) where
  | last (before : Space) (item : Tree Sign) (after : Space)
  | more (before : Space) (item : Tree Sign) (after : Space) (items : Items Sign)

/-- The members of an object, with commas between them. -/
inductive Members (Sign : Text → Prop) where
  | last (key : Key) (item : Tree Sign) (after : Space)
  | more (key : Key) (item : Tree Sign) (after : Space) (members : Members Sign)

end

variable {Sign : Text → Prop}

mutual

/-- The text of a value. -/
@[simp] def Tree.text : Tree Sign → Text
  | .constant word => word.1
  | .number n => n.text
  | .negative sign n => 45 :: sign.1 ++ n.text
  | .string letters => letters.text
  | .emptyArray space => 91 :: space.1 ++ [93]
  | .array items => 91 :: items.text ++ [93]
  | .emptyObject space => 123 :: space.1 ++ [125]
  | .object members => 123 :: members.text ++ [125]

@[simp] def Items.text : Items Sign → Text
  | .last before item after => before.1 ++ item.text ++ after.1
  | .more before item after items => before.1 ++ item.text ++ after.1 ++ 44 :: items.text

@[simp] def Members.text : Members Sign → Text
  | .last key item after => key.text ++ item.text ++ after.1
  | .more key item after members => key.text ++ item.text ++ after.1 ++ 44 :: members.text

end

mutual

/-- What is reported about the keys of a value that begins at `pos`, in the order of the text. -/
@[simp] def Tree.repeats (pos : Nat) : Tree Sign → List Fault
  | .array items => items.repeats (pos + 1)
  | .object members => members.repeats [] (pos + 1)
  | _ => []

@[simp] def Items.repeats (pos : Nat) : Items Sign → List Fault
  | .last before item _ => item.repeats (pos + before.1.length)
  | .more before item after items =>
    item.repeats (pos + before.1.length) ++
      items.repeats (pos + before.1.length + item.text.length + after.1.length + 1)

/-- The keys `seen` stand before the members in their object. -/
@[simp] def Members.repeats (seen : List (List UInt16)) (pos : Nat) : Members Sign → List Fault
  | .last key item _ => key.repeats seen pos ++ item.repeats (pos + key.text.length)
  | .more key item after members =>
    key.repeats seen pos ++ item.repeats (pos + key.text.length) ++
      members.repeats (key.name.units :: seen) (pos + key.text.length + item.text.length + after.1.length + 1)

end

/-- A JSON text: a value with white space around it. -/
structure Document (Sign : Text → Prop) where
  before : Space
  item : Tree Sign
  after : Space

namespace Document

def text (doc : Document Sign) : Text := doc.before.1 ++ doc.item.text ++ doc.after.1

/-- What is reported about the keys of a text. -/
def repeats (doc : Document Sign) : List Fault := doc.item.repeats doc.before.1.length

end Document

end ModuleSystem.Json
