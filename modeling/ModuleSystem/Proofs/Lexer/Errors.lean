import ModuleSystem.Proofs.Lexer.Within

/-!
# The lexer — what it objects to is an error

`Fails x P` says that whatever `x` fails with satisfies `P`: the counterpart of `Ensures`, with the same
rules.  The lexer has a few faults of its own, `Fault.IsLexical`, and no part of it fails with another one.
They are errors and no warnings, so a text that the lexer stops at is refused: `next_fails`.
-/

namespace ModuleSystem

/-- Whatever the computation fails with satisfies `P`. -/
def Fails {ε α : Type} (x : Except ε α) (P : ε → Prop) : Prop := ∀ e, x = .error e → P e

namespace Fails

variable {ε α β : Type} {x : Except ε α} {f : α → Except ε β} {P : ε → Prop} {e : ε} {a : α}

theorem ok : Fails (.ok a : Except ε α) P := by
  rintro _ ⟨⟩

/-- A computation that fails at once fails as it says. -/
theorem error (h : P e) : Fails (.error e : Except ε α) P := by
  rintro _ ⟨⟩
  exact h

/-- A failure comes from the first computation, or from the second on the result of the first. -/
theorem bind (h : Fails x P) (h' : ∀ a, x = .ok a → Fails (f a) P) : Fails (x >>= f) P := by
  cases x with
  | error e => exact error (h e rfl)
  | ok a => exact h' a rfl

/-- A condition on which the computation fails before it goes on. -/
theorem forbid {c : Prop} [Decidable c] {k : Unit → Except ε β} (h : P e) (h' : Fails (k ()) P) :
    Fails (if c then throw e >>= k else k ()) P := by
  split
  · exact error h
  · exact h'

/-- A condition without which the computation fails before it goes on. -/
theorem require {c : Prop} [Decidable c] {k : Unit → Except ε β} (h : P e) (h' : Fails (k ()) P) :
    Fails (if c then k () else throw e >>= k) P := by
  split
  · exact h'
  · exact error h

theorem mono {Q : ε → Prop} (h : Fails x P) (h' : ∀ e, P e → Q e) : Fails x Q := fun e he => h' e (h e he)

end Fails

/-- A fault that is no warning. -/
def Fault.IsError (f : Fault) : Prop := f.severity = .error

/-- The lexer itself finds it, in the characters of one token or of a comment. -/
def Fault.isLexical : Fault → Bool
  | .unexpectedCharacter _ | .unterminatedComment _ | .unterminatedString _ | .commentInJson _ | .quoteInJson _
  | .escapeOutOfRange _ | .invalidIdentifier .. => true
  | _ => false

/-- The lexer itself finds it. -/
def Fault.IsLexical (f : Fault) : Prop := f.isLexical = true

theorem Fault.IsLexical.isError {f : Fault} (h : f.IsLexical) : f.IsError := by
  cases f <;> first | rfl | cases h

namespace Lexer

variable {d : Dialect} {pos start : Nat} {gs : List Glyph} {c : Cursor}

/-! ### Gaps -/

/-- A comment fails in JSON only, which has none. -/
theorem endComment_fails {stop : Nat} : Fails (endComment d start stop) Fault.IsLexical := by
  cases d with
  | script => exact .ok
  | json => exact .error rfl

/-- In a gap only a comment can fail: one that does not end, or one in JSON. -/
theorem skipGapFrom_fails {state : GapState} {newline : Bool} :
    Fails (skipGapFrom d state newline pos gs) Fault.IsLexical := by
  fun_induction skipGapFrom d state newline pos gs with
  | case1 | case8 | case9 => exact .ok
  | case2 => exact endComment_fails.bind fun _ _ => .ok
  | case3 => exact .error rfl
  | case10 _ _ _ _ _ _ ih | case12 _ _ _ _ _ _ _ ih => exact endComment_fails.bind fun _ _ => ih
  | _ => assumption

/-! ### Numbers -/

/-- Digits fail at a separator that stands in the wrong place. -/
theorem digitsEnd_fails {base : Nat} {underscore : Bool} :
    Fails (digitsEnd base underscore pos gs) Fault.IsLexical := by
  fun_induction digitsEnd base underscore pos gs with
  | case1 | case3 | case6 => exact .error rfl
  | case2 | case7 => exact .ok
  | _ => assumption

theorem skipDigits_fails {base : Nat} : Fails (skipDigits base c) Fault.IsLexical := digitsEnd_fails

/-- A number in another base fails at its digits. -/
theorem scanBased_fails {base : Nat} : Fails (scanBased base c) Fault.IsLexical := by
  unfold scanBased
  refine .require rfl (skipDigits_fails.bind fun _ _ => ?_)
  split <;> exact .ok

theorem scanFraction_fails : Fails (scanFraction c) Fault.IsLexical := by
  unfold scanFraction
  exact .forbid rfl skipDigits_fails

theorem scanExponent_fails : Fails (scanExponent c) Fault.IsLexical := by
  unfold scanExponent
  exact .require rfl skipDigits_fails

/-- A decimal number fails at its end when it is a big integer with a leading zero. -/
theorem decimalEnd_fails {first : Nat} {p q : Bool} : Fails (decimalEnd start first p q c) Fault.IsLexical := by
  unfold decimalEnd
  split
  · split
    · exact .error rfl
    · exact .ok
  · exact .ok

theorem scanDecimal_fails {first : Nat} : Fails (scanDecimal start first c) Fault.IsLexical := by
  rw [scanDecimal_eq]
  refine skipDigits_fails.bind fun c₁ _ => Fails.bind ?_ fun c₂ _ => Fails.bind ?_ fun c₃ _ => decimalEnd_fails
  · split
    · exact scanFraction_fails
    · exact .ok
  · split
    · exact scanExponent_fails
    · exact .ok

/-- A number of any form fails with a fault of the lexer. -/
theorem scanNumber_fails {first : Nat} : Fails (scanNumber start first c) Fault.IsLexical := by
  rw [scanNumber_eq]
  refine Fails.bind ?_ fun r _ => ?_
  · split
    · exact scanBased_fails
    · exact scanDecimal_fails
  · split
    · exact .error rfl
    · exact .ok

/-! ### Strings and names -/

/-- Digits in braces fail where there are none of them, and at any other character. -/
theorem readBraced_fails {value : Int32} {outside : Bool} {count : Nat} :
    Fails (readBraced pos value outside count gs) Fault.IsLexical := by
  fun_induction readBraced pos value outside count gs with
  | case1 | case4 => exact .error rfl
  | case2 => assumption
  | case3 => exact .ok

/-- An escape of fixed length fails at a character that is no digit. -/
theorem readFixed_fails {value count : Nat} : Fails (readFixed pos value count gs) Fault.IsLexical := by
  fun_induction readFixed pos value count gs with
  | case1 => exact .ok
  | case2 | case4 => exact .error rfl
  | case3 => assumption

/-- What only scripts may use fails in JSON. -/
theorem scriptOnly_fails : Fails (scriptOnly d pos) Fault.IsLexical := by
  cases d with
  | script => exact .ok
  | json => exact .error rfl

/-- An escape fails in the characters behind its backslash. -/
theorem readEscape_fails : Fails (readEscape d pos gs) Fault.IsLexical := by
  fun_cases readEscape d pos gs with
  | case1 | case2 | case11 => exact .ok
  | case8 => exact .error rfl
  | case5 => exact scriptOnly_fails.bind fun _ _ => readFixed_fails.bind fun _ _ => .ok
  | case6 =>
      refine scriptOnly_fails.bind fun _ _ => readBraced_fails.bind fun r _ => ?_
      dsimp only
      split
      · exact .error rfl
      · exact .ok
  | case7 => exact readFixed_fails.bind fun _ _ => .ok
  | _ => exact scriptOnly_fails.bind fun _ _ => .ok

theorem readUnit_fails {g : Glyph} : Fails (readUnit d pos g gs) Fault.IsLexical := by
  unfold readUnit
  split
  · exact readEscape_fails
  · split <;> exact .ok

/-- The value of a string fails where an escape or a line end in it does. -/
theorem decodeFrom_fails {skip : Nat} : Fails (decodeFrom d skip pos gs) Fault.IsLexical := by
  fun_induction decodeFrom d skip pos gs with
  | case1 => exact .ok
  | case2 => assumption
  | case3 pos g gs ih => exact readUnit_fails.bind fun r _ => (ih r.2).bind fun _ _ => .ok

/-- A string fails when it does not end. -/
theorem quotedEnd_fails {quote : Nat} : Fails (quotedEnd d quote pos gs) Fault.IsLexical := by
  fun_induction quotedEnd d quote pos gs
  all_goals first | assumption | exact .ok | exact .error rfl

/-- A string fails where its end or its value is read, and in JSON when it stands in other quotes. -/
theorem scanQuoted_fails {quote : Nat} {resumed : Bool} :
    Fails (scanQuoted d quote resumed start c) Fault.IsLexical := by
  unfold scanQuoted
  exact quotedEnd_fails.bind fun _ _ => decodeFrom_fails.bind fun _ _ => .forbid rfl .ok

/-- A name with escapes fails at a backslash that starts no escape. -/
theorem escapedNameEnd_fails {state : NameState} : Fails (escapedNameEnd state pos gs) Fault.IsLexical := by
  fun_induction escapedNameEnd state pos gs
  all_goals first | assumption | exact .ok | exact .error rfl

/-- A name with escapes fails as well when it spells no identifier. -/
theorem scanEscapedName_fails {sign : Nat} : Fails (scanEscapedName d start sign gs c) Fault.IsLexical := by
  unfold scanEscapedName
  exact escapedNameEnd_fails.bind fun _ _ => decodeFrom_fails.bind fun _ _ => .require rfl .ok

theorem scanName_fails : Fails (scanName d c) Fault.IsLexical := by
  unfold scanName
  extract_lets stop
  split
  · exact scanEscapedName_fails.bind fun _ _ => .ok
  · exact .ok

theorem scanPrivateName_fails : Fails (scanPrivateName d c) Fault.IsLexical := by
  unfold scanPrivateName
  refine .require rfl ?_
  dsimp only
  split
  · exact scanEscapedName_fails.bind fun _ _ => .ok
  · exact .ok

/-! ### Tokens -/

/-- Reading one token fails with a fault of the lexer, whatever the characters are. -/
theorem scanLexeme_fails : Fails (scanLexeme d c) Fault.IsLexical := by
  obtain ⟨pos, rest⟩ := c
  cases rest with
  | nil => exact .ok
  | cons g gs =>
      unfold scanLexeme
      dsimp -zeta only
      extract_lets next
      split
      · split
        · exact .ok
        · exact scanPrivateName_fails.bind fun _ _ => .ok
      split
      · exact scanQuoted_fails.bind fun _ _ => .ok
      split
      · exact scanNumber_fails.bind fun _ _ => .ok
      split
      · exact scanName_fails.bind fun _ _ => .ok
      split <;> exact .ok

/-- So does moving on to the next token, over the gap before it. -/
theorem next_lexical (lx : Lexer) : Fails lx.next Fault.IsLexical := by
  unfold next
  extract_lets prev
  split
  · exact .ok
  · exact skipGapFrom_fails.bind fun _ _ => scanLexeme_fails.bind fun _ _ => .ok

/-- Moving on fails with an error only. -/
theorem next_fails (lx : Lexer) : Fails lx.next Fault.IsError := (next_lexical lx).mono fun _ => Fault.IsLexical.isError

end Lexer

end ModuleSystem
