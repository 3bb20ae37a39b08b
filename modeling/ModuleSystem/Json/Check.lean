import ModuleSystem.Lexer

/-!
# Checking JSON

Whether a source is a single JSON value.  The check reads the tokens of the source and reports
what it objects to; the value itself is not built.
-/

namespace ModuleSystem.Json

/-- A place in the tokens, and the faults found on the way. -/
structure Reader where
  lexer : Lexer
  faults : List Fault := []

namespace Reader

/-- The kind of the current token. -/
def kind (r : Reader) : TokenKind := r.lexer.token.kind

/-- Gives up with a last fault. -/
def fail (r : Reader) (f : Fault) : Except (List Fault) α := .error (r.faults ++ [f])

/-- Moves on by a step of the lexer. -/
def move (r : Reader) (step : Lexer → Except Fault Lexer) : Except (List Fault) Reader :=
  match step r.lexer with
  | .ok lexer => .ok { r with lexer }
  | .error f => r.fail f

/-- Moves on to the next token. -/
def next (r : Reader) : Except (List Fault) Reader := r.move Lexer.next

/-- Moves on from a token of the given kind. -/
def expect (k : TokenKind) (r : Reader) : Except (List Fault) Reader := r.move (·.expect k)

/-- Reports a fault and goes on. -/
def report (r : Reader) (f : Fault) : Reader := { r with faults := r.faults ++ [f] }

/-- Reads the comma before a further element. A comma before the closing token is reported, and
tells that no element follows. -/
def comma (close : TokenKind) (r : Reader) : Except (List Fault) (Bool × Reader) := do
  let range := r.lexer.token.range
  let r ← r.expect .comma
  if r.kind = close then return (false, r.report (.trailingCommaInJson range))
  return (true, r)

/-- Reads a key and its colon. `seen` holds the keys before it. -/
def key (seen : List Text) (r : Reader) : Except (List Fault) (Text × Reader) := do
  let token := r.lexer.token
  let key := Utf16.toText token.units
  let r ← r.expect .string
  let r := if seen.contains key then r.report (.duplicateKey token.range key) else r
  let r ← r.expect .colon
  return (key, r)

mutual

/-- Reads a value, with at most `fuel` nested steps. -/
def value : Nat → Reader → Except (List Fault) Reader
  | 0, r => r.fail (.endless r.lexer.token.start)
  | fuel + 1, r =>
    match r.kind with
    | .kwFalse | .kwTrue | .kwNull | .string | .number => r.next
    | .minus => do (← r.next).expect .number
    | .openBracket => do (← elements fuel true (← r.next)).expect .closeBracket
    | .openBrace => do (← members fuel [] (← r.next)).expect .closeBrace
    | _ => r.fail (.unexpected r.lexer.token)

/-- Reads the elements of an array up to its closing bracket. -/
def elements : Nat → Bool → Reader → Except (List Fault) Reader
  | 0, _, r => r.fail (.endless r.lexer.token.start)
  | fuel + 1, first, r =>
    if r.kind = .closeBracket then .ok r
    else do
      let (more, r) ← if first then pure (true, r) else r.comma .closeBracket
      if more then elements fuel false (← value fuel r) else return r

/-- Reads the members of an object up to its closing brace. -/
def members : Nat → List Text → Reader → Except (List Fault) Reader
  | 0, _, r => r.fail (.endless r.lexer.token.start)
  | fuel + 1, seen, r =>
    if r.kind = .closeBrace then .ok r
    else do
      let (more, r) ← if seen.isEmpty then pure (true, r) else r.comma .closeBrace
      if more then
        let (key, r) ← r.key seen
        members fuel (key :: seen) (← value fuel r)
      else return r

end

end Reader

/-- Everything the check objects to, in the order it was found. The text is refused when one of
the faults is an error. -/
def check (s : Source) : List Fault :=
  match Lexer.start s .json with
  | .error f => [f]
  | .ok lexer =>
    match Reader.value (2 * s.contents.length + 2) { lexer } >>= Reader.expect .endOfFile with
    | .ok r => r.faults
    | .error faults => faults

/-- The check objects to nothing that is an error. -/
def accepts (s : Source) : Bool := (check s).all fun f => f.severity == .warning

end ModuleSystem.Json
