import ModuleSystem.Proofs.Lexer.Spelled
import ModuleSystem.Proofs.Writes.Programs

/-!
# Where assignments start and end

`Expr` are expressions with assignments to variables, written with one blank between any two tokens and
with the parentheses that the precedence of the operators requires (`Expr.pieces`).  `Expr.writes` are
the assignments and updates of an expression: each starts with its first token and ends with its last one.

* `Expr.phrase`: the tokens of an expression make these assignments.
* `writes_of_statements`: so the writes of expression statements are these, and no other ones.
-/

namespace ModuleSystem

open Token (stopOf)
open Piece (extent place)

/-! ### Expressions -/

/-- An identifier that is a variable wherever an expression may start. -/
structure Variable where
  name : Text
  isIdentifier : isIdentifier name = true
  isUnreserved : TokenKind.keywords.lookup name = none
  isPlain : name ∉ Track.reserved

/-- A number, in any notation. -/
structure Numeral where
  text : Text
  isNumber : Piece.isNumber text = true

/-- The equals sign or a compound assignment. -/
structure AssignOp where
  kind : TokenKind
  isAssign : kind.isAssign = true

/-- An increment or a decrement. -/
inductive UpdateOp where
  | increment
  | decrement

/-- Expressions.  A comma also stands between the arguments of a call and between the elements of an
array. -/
inductive Expr where
  | name (x : Variable)
  | number (n : Numeral)
  | assign (x : Variable) (o : AssignOp) (e : Expr)
  | after (x : Variable) (u : UpdateOp)
  | before (u : UpdateOp) (x : Variable)
  | choose (test yes no : Expr)
  | add (l r : Expr)
  | comma (l r : Expr)
  | group (e : Expr)
  | call (f : Variable) (arguments : Expr)
  | callEmpty (f : Variable)
  | member (x y : Variable)
  | index (x : Variable) (e : Expr)
  | array (elements : Expr)
  | arrayEmpty

/-! ### Their text -/

/-- The piece for a mark. -/
def Piece.mark (k : TokenKind) : Piece := { kind := k, text := k.spelling?.getD [] }

def Variable.piece (x : Variable) : Piece := Piece.word x.name

def Numeral.piece (n : Numeral) : Piece := Piece.number n.text

def AssignOp.piece (o : AssignOp) : Piece := Piece.mark o.kind

def UpdateOp.kind : UpdateOp → TokenKind
  | increment => .plusPlus
  | decrement => .minusMinus

def UpdateOp.piece (u : UpdateOp) : Piece := Piece.mark u.kind

namespace Part

/-- An expression that is as tight as `inner`, where one as tight as `part` stands: in parentheses if it is
looser. -/
def fit (part inner : Part) (ss : List Piece) : List Piece :=
  if inner.rank < part.rank then .mark .openParen :: (ss ++ [Piece.mark .closeParen]) else ss

/-- Where the expression itself starts. -/
def inset (part inner : Part) (p : Nat) : Nat :=
  if inner.rank < part.rank then p + extent [Piece.mark .openParen] else p

end Part

namespace Expr

/-- How tight an expression is. -/
def part : Expr → Part
  | comma .. => .elements
  | assign .. => .assignment
  | choose .. => .conditional
  | add .. => .sum
  | number _ | after .. | before .. | array _ | arrayEmpty => .operand
  | name _ | group _ | call .. | callEmpty _ | member .. | index .. => .callee

/-- The tokens of an expression, as they are written. -/
def pieces : Expr → List Piece
  | name x => [x.piece]
  | number n => [n.piece]
  | assign x o e => x.piece :: o.piece :: Part.assignment.fit e.part e.pieces
  | after x u => [x.piece, u.piece]
  | before u x => [u.piece, x.piece]
  | choose test yes no =>
    Part.sum.fit test.part test.pieces ++ .mark .question ::
      (Part.assignment.fit yes.part yes.pieces ++ .mark .colon :: Part.assignment.fit no.part no.pieces)
  | add l r => Part.sum.fit l.part l.pieces ++ .mark .plus :: Part.operand.fit r.part r.pieces
  | comma l r => l.pieces ++ .mark .comma :: Part.assignment.fit r.part r.pieces
  | group e => .mark .openParen :: (e.pieces ++ [Piece.mark .closeParen])
  | call f arguments => f.piece :: .mark .openParen :: (arguments.pieces ++ [Piece.mark .closeParen])
  | callEmpty f => [f.piece, .mark .openParen, .mark .closeParen]
  | member x y => [x.piece, .mark .dot, y.piece]
  | index x e => x.piece :: .mark .openBracket :: (e.pieces ++ [Piece.mark .closeBracket])
  | array elements => .mark .openBracket :: (elements.pieces ++ [Piece.mark .closeBracket])
  | arrayEmpty => [Piece.mark .openBracket, .mark .closeBracket]

/-- The assignment or update of a variable that an expression at `p` is: it starts with the first token of
the expression and ends with the last one.  The variable stands at `q`. -/
def update (e : Expr) (p : Nat) (x : Variable) (q : Nat) : Write := ⟨[⟨x.name, q⟩], p, stopOf (place p e.pieces), false⟩

/-- The assignments and updates of an expression that starts at `p`, in the order in which they start. -/
def writes : Expr → Nat → List Write
  | assign x o e, p =>
    (assign x o e).update p x p :: e.writes (Part.assignment.inset e.part (p + extent [x.piece, o.piece]))
  | after x u, p => [(after x u).update p x p]
  | before u x, p => [(before u x).update p x (p + extent [u.piece])]
  | choose test yes no, p =>
    let p₁ := p + extent (Part.sum.fit test.part test.pieces ++ [Piece.mark .question])
    let p₂ := p₁ + extent (Part.assignment.fit yes.part yes.pieces ++ [Piece.mark .colon])
    test.writes (Part.sum.inset test.part p) ++
      (yes.writes (Part.assignment.inset yes.part p₁) ++ no.writes (Part.assignment.inset no.part p₂))
  | add l r, p =>
    l.writes (Part.sum.inset l.part p) ++
      r.writes (Part.operand.inset r.part (p + extent (Part.sum.fit l.part l.pieces ++ [Piece.mark .plus])))
  | comma l r, p =>
    l.writes p ++ r.writes (Part.assignment.inset r.part (p + extent (l.pieces ++ [Piece.mark .comma])))
  | group e, p => e.writes (p + extent [Piece.mark .openParen])
  | call f arguments, p => arguments.writes (p + extent [f.piece, .mark .openParen])
  | index x e, p => e.writes (p + extent [x.piece, .mark .openBracket])
  | array elements, p => elements.writes (p + extent [Piece.mark .openBracket])
  | name _, _ | number _, _ | callEmpty _, _ | member .., _ | arrayEmpty, _ => []

/-- Statements that consist of an expression and a semicolon. -/
def statements (es : List Expr) : List Piece := es.flatMap fun e => e.pieces ++ [Piece.mark .semicolon]

/-- The assignments and updates of statements that start at `p`. -/
def statementWrites : Nat → List Expr → List Write
  | _, [] => []
  | p, e :: es => e.writes p ++ statementWrites (p + extent (e.pieces ++ [Piece.mark .semicolon])) es

end Expr

/-! ### Their tokens -/

namespace Piece

/-- Pieces that follow others are placed behind them. -/
theorem place_append (p : Nat) (ss us : List Piece) : place p (ss ++ us) = place p ss ++ place (p + extent ss) us := by
  induction ss generalizing p with
  | nil => rfl
  | cons s ss ih =>
      rw [List.cons_append, place, place, ih, extent_cons, List.cons_append, Nat.add_assoc]

/-- The first piece stands at the start, and the others behind it. -/
theorem place_cons (p : Nat) (s : Piece) (ss : List Piece) :
    place p (s :: ss) = s.token p :: place (p + extent [s]) ss := by
  simp [place]

theorem place_pair (p : Nat) (s s' : Piece) (ss : List Piece) :
    place p (s :: s' :: ss) = s.token p :: s'.token (p + extent [s]) :: place (p + extent [s, s']) ss :=
  place_append p [s, s'] ss

/-- Only the first token of a text is the first one of its line. -/
theorem newlineBefore_token {s : Piece} (hs : s.Reads) (ss : List Piece) (s' : Piece) (p : Nat) :
    (s'.token (p + extent (s :: ss))).newlineBefore = false := by
  have hlength := hs.length_pos
  refine decide_eq_false ?_
  rw [extent_cons]
  omega

end Piece

open Piece (place_append place_cons place_pair extent_append)

namespace Variable

variable (x : Variable)

theorem reads : x.piece.Reads := Piece.reads_word x.isIdentifier

/-- The token of a name is a variable. -/
theorem isVariable (p : Nat) : (x.piece.token p).IsVariable where
  kind := by simp [piece, Piece.word, Piece.token, Lexer.nameKind, x.isUnreserved]
  name := x.isPlain

end Variable

namespace UpdateOp

theorem kind_cases (u : UpdateOp) : u.kind = .plusPlus ∨ u.kind = .minusMinus := by
  cases u
  · exact .inl rfl
  · exact .inr rfl

end UpdateOp

theorem Part.rank_le_callee (part : Part) : part.rank ≤ Part.callee.rank := by cases part <;> decide

/-- An expression fits where it is put in parentheses if necessary. -/
theorem Part.phrase_fit (part : Part) {inner : Part} {ss : List Piece} {ws : Nat → List Write}
    (h : ∀ p, ∃ n, Phrase false inner (place p ss) (ws p) n) (p : Nat) :
    ∃ n, Phrase false part (place p (part.fit inner ss)) (ws (part.inset inner p)) n := by
  unfold fit inset
  split
  · obtain ⟨n, hn⟩ := h (p + extent [Piece.mark .openParen])
    rw [place_cons, place_append]
    exact ⟨_, (Phrase.group rfl rfl (hn.loosen (Nat.zero_le _))).loosen (rank_le_callee part)⟩
  · rename_i hrank
    obtain ⟨n, hn⟩ := h p
    exact ⟨n, hn.loosen (Nat.le_of_not_lt hrank)⟩

namespace Expr

/-- The tokens of an expression make its assignments. -/
theorem phrase (e : Expr) (p : Nat) : ∃ n, Phrase false e.part (place p e.pieces) (e.writes p) n := by
  induction e generalizing p with
  | name x => exact ⟨_, .name (x.isVariable p)⟩
  | number n => exact ⟨_, .number rfl⟩
  | assign x o e ih =>
      obtain ⟨n, hn⟩ := Part.assignment.phrase_fit ih (p + extent [x.piece, o.piece])
      have hplace : place p (assign x o e).pieces = x.piece.token p :: o.piece.token (p + extent [x.piece]) ::
          place (p + extent [x.piece, o.piece]) (Part.assignment.fit e.part e.pieces) := place_pair p _ _ _
      -- the assignment ends where its value ends
      have hstop : stopOf (place (p + extent [x.piece, o.piece]) (Part.assignment.fit e.part e.pieces)) =
          stopOf (place p (assign x o e).pieces) := by
        rw [hplace, Token.stopOf_cons _ (List.cons_ne_nil _ _), Token.stopOf_cons _ hn.ne_nil]
      rw [writes, update, ← hstop, hplace]
      exact ⟨n, .assign (x.isVariable p) o.isAssign hn⟩
  | after x u => exact ⟨_, .after (x.isVariable p) u.kind_cases (Piece.newlineBefore_token x.reads [] _ p)⟩
  | before u x => exact ⟨_, .before (u := u.piece.token p) u.kind_cases (x.isVariable (p + extent [u.piece]))⟩
  | choose test yes no iht ihy ihn =>
      -- each part begins where the parts and marks before it end
      obtain ⟨l, ht⟩ := Part.sum.phrase_fit iht p
      obtain ⟨m, hy⟩ := Part.assignment.phrase_fit ihy
        (p + extent (Part.sum.fit test.part test.pieces ++ [Piece.mark .question]))
      obtain ⟨n, hn⟩ := Part.assignment.phrase_fit ihn
        (p + extent (Part.sum.fit test.part test.pieces ++ [Piece.mark .question]) +
          extent (Part.assignment.fit yes.part yes.pieces ++ [Piece.mark .colon]))
      rw [pieces, place_append, place_cons, place_append, place_cons]
      simp only [writes, extent_append, ← Nat.add_assoc] at hy hn ⊢
      exact ⟨n, .choose ht rfl hy rfl hn⟩
  | add l r ihl ihr =>
      obtain ⟨m, hl⟩ := Part.sum.phrase_fit ihl p
      obtain ⟨n, hr⟩ := Part.operand.phrase_fit ihr (p + extent (Part.sum.fit l.part l.pieces ++ [Piece.mark .plus]))
      rw [pieces, writes, place_append, place_cons]
      rw [extent_append, ← Nat.add_assoc] at hr ⊢
      exact ⟨n, .add hl rfl hr⟩
  | comma l r ihl ihr =>
      obtain ⟨m, hl⟩ := ihl p
      obtain ⟨n, hr⟩ := Part.assignment.phrase_fit ihr (p + extent (l.pieces ++ [Piece.mark .comma]))
      rw [pieces, writes, place_append, place_cons]
      rw [extent_append, ← Nat.add_assoc] at hr ⊢
      exact ⟨n, .comma (hl.loosen (Nat.zero_le _)) rfl hr⟩
  | group e ih =>
      obtain ⟨n, hn⟩ := ih (p + extent [Piece.mark .openParen])
      rw [pieces, place_cons, place_append]
      exact ⟨_, .group rfl rfl (hn.loosen (Nat.zero_le _))⟩
  | call f arguments ih =>
      obtain ⟨n, hn⟩ := ih (p + extent [f.piece, .mark .openParen])
      rw [pieces, place_pair, place_append]
      exact ⟨_, .call (.name (f.isVariable p)) rfl rfl (hn.loosen (Nat.zero_le _))⟩
  | callEmpty f => exact ⟨_, .callEmpty (.name (f.isVariable p)) rfl rfl⟩
  | member x y =>
      have hname : (y.piece.token (p + extent [x.piece, .mark .dot])).kind.isName = true := by
        rw [(y.isVariable _).kind]
        rfl
      exact ⟨_, .member (.name (x.isVariable p)) rfl hname (Piece.newlineBefore_token x.reads [Piece.mark .dot] _ p)⟩
  | index x e ih =>
      obtain ⟨n, hn⟩ := ih (p + extent [x.piece, .mark .openBracket])
      rw [pieces, place_pair, place_append]
      exact ⟨_, .index (.name (x.isVariable p)) rfl rfl (hn.loosen (Nat.zero_le _))⟩
  | array elements ih =>
      obtain ⟨n, hn⟩ := ih (p + extent [Piece.mark .openBracket])
      rw [pieces, place_cons, place_append]
      exact ⟨_, .array rfl rfl (hn.loosen (Nat.zero_le _))⟩
  | arrayEmpty => exact ⟨_, .arrayEmpty rfl rfl⟩

/-- The tokens of the statements are a program in which every assignment is kept. -/
theorem program (p : Nat) (es : List Expr) : Program false (place p (statements es)) (statementWrites p es) [] [] := by
  induction es generalizing p with
  | nil => exact .nil
  | cons e es ih =>
      obtain ⟨n, hn⟩ := e.phrase p
      have hrest := ih (p + extent (e.pieces ++ [Piece.mark .semicolon]))
      rw [statements, List.flatMap_cons, List.append_assoc, List.singleton_append, place_append, place_cons]
      rw [extent_append, ← Nat.add_assoc] at hrest
      rw [statementWrites, extent_append, ← Nat.add_assoc]
      exact .semicolon (hn.loosen (Nat.zero_le _)) rfl hrest

/-! ### Reading -/

/-- The marks in expressions and after them. -/
theorem reads_mark {k : TokenKind} (h : k ∈ [.openParen, .closeParen, .openBracket, .closeBracket, .dot, .comma, .plus,
    .question, .colon, .semicolon, .plusPlus, .minusMinus]) : (Piece.mark k).Reads := by
  have hall : ∀ k ∈ ([.openParen, .closeParen, .openBracket, .closeBracket, .dot, .comma, .plus, .question, .colon,
      .semicolon, .plusPlus, .minusMinus] : List TokenKind),
      (k.spelling?.getD [], k) ∈ TokenKind.punctuators ∧ k ≠ .questionDot := by
    decide
  exact Piece.reads_mark (hall k h).1 (hall k h).2

end Expr

namespace Outline

/-- In `x = y ++ ;` the update ends where the assignment ends. -/
example :
    let x : Variable := ⟨[120], by decide, by decide, by decide⟩
    let y : Variable := ⟨[121], by decide, by decide, by decide⟩
    Expr.statementWrites 0 [.assign x ⟨.assign, rfl⟩ (.after y .increment)] =
      [⟨[⟨[120], 0⟩], 0, 8, false⟩, ⟨[⟨[121], 4⟩], 4, 8, false⟩] := by
  decide

end Outline

end ModuleSystem
