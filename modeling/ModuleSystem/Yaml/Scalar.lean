import ModuleSystem.Yaml.Cursor

/-!
# Scalars of YAML

A scalar is a text.  It is written plainly, between quotes, or as a block of lines.  Where a scalar
goes on over several lines a single line end between two of them counts as a blank, and of several
line ends the first does not count; only literal blocks keep every line end.
-/

namespace ModuleSystem

/-- White space between two parts of a scalar. -/
structure YamlGap where
  blanks : Text := []
  /-- A line has ended. -/
  broken : Bool := false
  /-- The first line end. -/
  first : Text := []
  /-- The line ends after the first. -/
  more : Text := []
deriving DecidableEq, Repr

/-- What the white space amounts to. -/
def YamlGap.text (g : YamlGap) : Text :=
  if !g.broken then g.blanks
  else if g.first.head? = some 10 then (if g.more.isEmpty then [32] else g.more)
  else g.first ++ g.more

namespace Yaml

/-- Takes the white space at a cursor, in at most `fuel` steps. In a plain scalar that begins at a
place, no tab may stand before the column that the lines after the first have to reach. -/
def gapFrom (plain : Option (YamlMark × Int)) :
    Nat → YamlGap → YamlCursor → Except YamlError (YamlGap × YamlCursor)
  | 0, g, c => .ok (g, c)
  | fuel + 1, g, c => do
    if isBlank c.char then
      match plain with
      | some (start, indent) =>
        if g.broken && c.mark.column < indent && c.char = 9 then
          .error (.token .tabInPlain start c.mark)
      | none => pure ()
      let g := if g.broken then g else { g with blanks := g.blanks ++ [c.char.toUInt8] }
      gapFrom plain fuel g (← c.step.need 1)
    else if isBreak c.char then
      let (ending, c) := (← c.need 2).line
      let g := if g.broken then { g with more := g.more ++ ending }
        else { broken := true, first := ending }
      gapFrom plain fuel g (← c.need 1)
    else return (g, c)

/-- Takes the white space at a cursor. -/
def gap (c : YamlCursor) (plain : Option (YamlMark × Int) := none) (g : YamlGap := {}) :
    Except YamlError (YamlGap × YamlCursor) :=
  gapFrom plain (c.size + 1) g c

/-! ### Plain scalars -/

/-- The brackets and signs that end a plain scalar inside brackets. -/
def isFlowSign (c : Nat) : Bool :=
  c = 44 || c = 63 || c = 91 || c = 93 || c = 123 || c = 125

/-- The number of characters up to white space or to a sign that ends a plain scalar. -/
def plainLength (flow : Bool) : List Nat → Nat
  | [] => 0
  | b :: t =>
    if isGap b || (b = 58 && isGap (t.headD 0)) || (flow && isFlowSign b) then 0
    else plainLength flow t + 1

/-- What a plain scalar is followed by. -/
structure YamlPlain where
  text : Text := []
  /-- Where the text ends. -/
  stop : YamlMark := {}
  /-- The scalar is followed by the end of a line. -/
  broken : Bool := false
deriving DecidableEq, Repr

/-- Reads on in a plain scalar that begins at a place, after white space; at most `fuel` parts. -/
def plainFrom (start : YamlMark) (indent : Int) (flow : Bool) :
    Nat → YamlGap → YamlPlain → YamlCursor → Except YamlError (YamlPlain × YamlCursor)
  | 0, _, s, c => .ok (s, c)
  | fuel + 1, g, s, c => do
    let c ← c.need 4
    if c.isDocumentMark || c.char = 35 then return ({ s with broken := g.broken }, c)
    let n := plainLength flow c.rest
    let part := textOf (c.rest.take n)
    let c := c.steps n
    let (s, g) : YamlPlain × YamlGap :=
      if n = 0 then (s, g) else ({ s with text := s.text ++ g.text ++ part, stop := c.mark }, {})
    let c ← if n = 0 then pure c else c.need 2
    if !isBlank c.char && !isBreak c.char then return ({ s with broken := g.broken }, c)
    let (g, c) ← gap c (some (start, indent)) g
    if !flow && c.mark.column < indent then return ({ s with broken := g.broken }, c)
    plainFrom start indent flow fuel g s c

/-- Reads a plain scalar. Its lines after the first have to reach beyond the indentation. -/
def plain (indent : Int) (flow : Bool) (c : YamlCursor) :
    Except YamlError (YamlPlain × YamlCursor) :=
  plainFrom c.mark (indent + 1) flow (c.size + 1) {} { stop := c.mark } c

/-! ### Quoted scalars -/

/-- The characters that one-letter escapes stand for. -/
def escapes : List (Nat × Nat) :=
  [(48, 0), (97, 7), (98, 8), (116, 9), (9, 9), (110, 10), (118, 11), (102, 12), (114, 13),
    (101, 27), (32, 32), (34, 34), (39, 39), (92, 92), (78, 0x85), (95, 0xA0), (76, 0x2028),
    (80, 0x2029)]

/-- The number of digits after the letter of an escape for a code point. -/
def escapeWidths : List (Nat × Nat) := [(120, 2), (117, 4), (85, 8)]

/-- The code point of some hexadecimal digits. -/
def hexNumber? (cs : List Nat) : Option Nat :=
  (cs.mapM hexValue?).map fun ds => ds.foldl (fun n d => n * 16 + d) 0

/-- Reads an escape at its backslash. -/
def escape (start : YamlMark) (c : YamlCursor) : Except YamlError (Text × YamlCursor) := do
  let letter := c.peek 1
  match escapes.lookup letter, escapeWidths.lookup letter with
  | some code, _ => return (Utf8.encode code, c.steps 2)
  | none, some width =>
    let c ← (c.steps 2).need width
    let digits := c.rest.take width
    match hexNumber? digits with
    | some code =>
      if digits.length < width then .error (.token .escapeDigits start c.mark)
      else if Utf8.isSurrogate code || 0x10FFFF < code then
        .error (.token .escapedCode start c.mark)
      else return (Utf8.encode code, c.steps width)
    | none => .error (.token .escapeDigits start c.mark)
  | none, none => .error (.token .unknownEscape start c.mark)

/-- A part of a quoted scalar without white space. -/
structure YamlQuotedPart where
  text : Text := []
  /-- A backslash at the end of a line ends the part. -/
  joined : Bool := false
deriving DecidableEq, Repr

/-- Reads a part of a quoted scalar up to white space or the closing quote, in at most `fuel`
steps. -/
def quotedPart (single : Bool) (start : YamlMark) :
    Nat → Text → YamlCursor → Except YamlError (YamlQuotedPart × YamlCursor)
  | 0, done, c => .ok ({ text := done }, c)
  | fuel + 1, done, c => do
    let b := c.char
    if isGap b then return ({ text := done }, c)
    else if single then
      if b = 39 then
        if c.peek 1 = 39 then quotedPart single start fuel (done ++ [39]) (← (c.steps 2).need 2)
        else return ({ text := done }, c)
      else quotedPart single start fuel (done ++ Utf8.encode b) (← c.step.need 2)
    else if b = 34 then return ({ text := done }, c)
    else if b = 92 then
      if isBreak (c.peek 1) then
        let c ← c.need 3
        return ({ text := done, joined := true }, c.step.skipLine)
      else
        let (t, c) ← escape start c
        quotedPart single start fuel (done ++ t) (← c.need 2)
    else quotedPart single start fuel (done ++ Utf8.encode b) (← c.step.need 2)

/-- Reads on in a quoted scalar that begins at a place, in at most `fuel` parts. -/
def quotedFrom (single : Bool) (start : YamlMark) :
    Nat → Text → YamlCursor → Except YamlError (Text × YamlCursor)
  | 0, done, c => .ok (done, c)
  | fuel + 1, done, c => do
    let c ← c.need 4
    if c.isDocumentMark then .error (.token .documentMark start c.mark)
    else if c.char = 0 then .error (.token .openQuote start c.mark)
    else
      let (part, c) ← quotedPart single start (c.size + 1) [] c
      let c ← c.need 1
      let done := done ++ part.text
      if c.char = (if single then 39 else 34) then return (done, c.step)
      else
        let (g, c) ← gap c none { broken := part.joined }
        quotedFrom single start fuel (done ++ g.text) c

/-- Reads a scalar between quotes. -/
def quoted (single : Bool) (c : YamlCursor) : Except YamlError (Text × YamlCursor) :=
  quotedFrom single c.mark (c.size + 1) [] c.step

/-! ### Blocks -/

/-- What becomes of the line ends after a block. -/
inductive Chomping where
  | strip
  | clip
  | keep
deriving DecidableEq, Repr

/-- Reads a sign for the line ends after a block. -/
def chomping (c : YamlCursor) : Option Chomping × YamlCursor :=
  if c.char = 43 then (some .keep, c.step)
  else if c.char = 45 then (some .strip, c.step)
  else (none, c)

/-- Reads a digit for the indentation of a block. -/
def indentDigit (start : YamlMark) (c : YamlCursor) : Except YamlError (Nat × YamlCursor) :=
  if !isDigit c.char then .ok (0, c)
  else if c.char = 48 then .error (.token .zeroIndent start c.mark)
  else .ok (c.char - 48, c.step)

/-- Reads the signs after the indicator of a block, in either order. -/
def blockHeader (start : YamlMark) (c : YamlCursor) :
    Except YamlError ((Chomping × Nat) × YamlCursor) := do
  match chomping (← c.need 1) with
  | (some chomp, c) =>
    let (digit, c) ← indentDigit start (← c.need 1)
    return ((chomp, digit), c)
  | (none, c) =>
    let (digit, c) ← indentDigit start c
    if digit = 0 then return ((.clip, 0), c)
    else
      let (chomp, c) := chomping (← c.need 1)
      return ((chomp.getD .clip, digit), c)

/-- The number of blanks that some characters begin with, up to a bound. -/
def blanksIn : Nat → List Nat → Nat
  | bound + 1, 32 :: t => blanksIn bound t + 1
  | _, _ => 0

/-- Takes the empty lines at a cursor, and the indentation of the line after them; in at most `fuel`
steps. The widest indentation is found too. Nothing is known of the indentation when it is zero. -/
def emptyLines (start : YamlMark) (indent : Nat) :
    Nat → Nat → Text → YamlCursor → Except YamlError ((Nat × Text) × YamlCursor)
  | 0, widest, done, c => .ok ((widest, done), c)
  | fuel + 1, widest, done, c => do
    let room := if indent = 0 then c.size else indent - c.mark.column
    let c ← (c.steps (blanksIn room c.rest)).need 1
    let widest := max widest c.mark.column
    if (indent = 0 || c.mark.column < indent) && c.char = 9 then
      .error (.token .tabInBlock start c.mark)
    else if !isBreak c.char then return ((widest, done), c)
    else
      let (ending, c) := (← c.need 2).line
      emptyLines start indent fuel widest (done ++ ending) c

/-- Takes empty lines, and finds the indentation of a block if it is not known. It is more than that
of what the block stands in. -/
def blockLines (start : YamlMark) (outer : Int) (indent : Nat) (c : YamlCursor) :
    Except YamlError ((Nat × Text) × YamlCursor) := do
  let ((widest, breaks), c) ← emptyLines start indent (c.size + 1) 0 [] c
  let indent := if indent = 0 then max (max widest (outer + 1).toNat) 1 else indent
  return ((indent, breaks), c)

/-- What has been read of a block. -/
structure YamlBlock where
  text : Text := []
  /-- The last line end. -/
  ending : Text := []
  /-- The line ends of the empty lines after it. -/
  breaks : Text := []
  /-- The last line begins with a blank. -/
  blank : Bool := false
deriving DecidableEq, Repr

/-- The block with a line added, which may begin with a blank. Lines that do not are joined in a
folded block. -/
def YamlBlock.add (b : YamlBlock) (literal blank : Bool) (line : Text) : YamlBlock :=
  let joint : Text :=
    if !literal && !b.blank && !blank && b.ending.head? = some 10 then
      (if b.breaks.isEmpty then [32] else [])
    else b.ending
  { text := b.text ++ joint ++ b.breaks ++ line, blank }

/-- Reads the lines of a block, at most `fuel` of them. -/
def blockFrom (literal : Bool) (start : YamlMark) (outer : Int) (indent : Nat) :
    Nat → YamlBlock → YamlCursor → Except YamlError (YamlBlock × YamlCursor)
  | 0, b, c => .ok (b, c)
  | fuel + 1, b, c => do
    if c.mark.column ≠ indent || c.char = 0 then return (b, c)
    let blank := isBlank c.char
    let (cs, c) ← c.span fun x => !isLineEnd x
    let b := b.add literal blank (textOf cs)
    let (ending, c) := (← c.need 2).line
    let ((_, breaks), c) ← blockLines start outer indent c
    blockFrom literal start outer indent fuel { b with ending, breaks } c

/-- Reads a block at its indicator, inside something with an indentation. -/
def block (literal : Bool) (outer : Int) (c : YamlCursor) :
    Except YamlError (Text × YamlCursor) := do
  let start := c.mark
  let ((chomp, digit), c) ← blockHeader start c.step
  let c ← c.skip isBlank
  let c ← if c.char = 35 then c.skip (fun b => !isLineEnd b) else pure c
  if !isLineEnd c.char then .error (.token .noLineEnd start c.mark)
  else
    let c ← c.finishLine
    let known := if digit = 0 then 0 else (max outer 0).toNat + digit
    let ((indent, breaks), c) ← blockLines start outer known c
    let c ← c.need 1
    let (b, c) ← blockFrom literal start outer indent (c.size + 1) { breaks } c
    let ending := if chomp = .strip then [] else b.ending
    let breaks := if chomp = .keep then b.breaks else []
    return (b.text ++ ending ++ breaks, c)

end Yaml

end ModuleSystem
