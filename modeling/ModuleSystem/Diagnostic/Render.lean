import ModuleSystem.Diagnostic

/-!
# Rendering diagnostics

A diagnostic is shown as its place, its severity and its text, and, on demand, an excerpt of the
line with a marker under the place.  Long lines are cut to a window around the marker.
-/

namespace ModuleSystem.Diagnostic

/-- How diagnostics are shown. -/
structure Style where
  /-- Show an excerpt of the line. -/
  excerpt : Bool := false
  /-- Use terminal color escapes. -/
  color : Bool := false
  /-- The width of the terminal; below one it is taken as 80. -/
  width : Int := 0
deriving DecidableEq, Repr

/-- Terminal escapes. -/
inductive Escape where
  | reset
  | red
  | green
  | magenta
  | bold
  | resetBold

/-- The bytes of an escape. -/
def Escape.text : Escape → Text
  | .reset => "\x1b[0m"
  | .red => "\x1b[31m"
  | .green => "\x1b[32m"
  | .magenta => "\x1b[35m"
  | .bold => "\x1b[1m"
  | .resetBold => "\x1b[0;1m"

/-- Writes glyphs with every tab expanded to the next multiple of `stop` characters, from a column
that is `count` characters in. -/
def expandTabsFrom (stop count : Nat) : List Glyph → Text
  | [] => []
  | g :: gs =>
    if g.code = 9 then
      let spaces := stop - count % stop
      Text.filled spaces 32 ++ expandTabsFrom stop (count + spaces) gs
    else Utf8.encode g.code ++ expandTabsFrom stop (count + 1) gs

/-- The text with tabs expanded. A text without tabs is left as it is. -/
def expandTabs (stop : Nat) (t : Text) : Text :=
  if t.contains [9] then expandTabsFrom stop 0 (Utf8.glyphs t) else t

/-- `value` moved into the interval from `low` to `high`; `low` when the interval is empty. -/
def clamp (value low high : Int) : Int := max (min value high) low

/-- An excerpt of a line, and the marker under it. -/
structure Excerpt where
  line : Text
  indent : Nat
  marker : Text
deriving DecidableEq, Repr

/-- The number of columns between two tab stops of an excerpt. -/
def tabStop : Nat := 2

/-- The part of a line around a location that fits into the width, and its marker. -/
def excerpt (loc : Location) (width : Int) : Excerpt :=
  let full := expandTabs tabStop loc.lineText
  let size : Int := full.length
  let before := loc.lineText.take (clamp loc.column 0 loc.lineText.length).toNat
  let column : Int := (expandTabs tabStop before).length
  let length := clamp loc.length 0 (size - column)
  let width := if width < 1 then 80 else width
  let (line, column, length) :=
    if size > width then
      let start := clamp (column - width / 5) 0 (size - width)
      let window := (full.drop start.toNat).take width.toNat
      let window :=
        if start > 0 && window.length > 3 then ("..." : Text) ++ window.drop 3 else window
      (window, column - start, clamp length 0 (window.length - (column - start)))
    else (full, column, length)
  { line
    indent := column.toNat
    marker := if length > 1 then Text.filled length.toNat 126 else "^" }

/-- The color of a severity. -/
def severityEscape : Severity → Escape
  | .error => .red
  | .warning => .magenta

/-- The diagnostic as lines of text. -/
def render (style : Style) (d : Diagnostic) : Text :=
  let esc (e : Escape) : Text := if style.color then e.text else []
  let kind := esc (severityEscape d.severity) ++ d.severity.word ++ ": " ++ esc .resetBold
  match d.location with
  | none => esc .bold ++ kind ++ d.text ++ esc .reset ++ "\n"
  | some loc =>
    let place := loc.file ++ ":" ++ Text.ofInt loc.line ++ ":" ++ Text.ofInt loc.column ++ ": "
    let head := esc .bold ++ place ++ kind ++ d.text
    if style.excerpt then
      let e := excerpt loc style.width
      head ++ "\n" ++ esc .reset ++ e.line ++ "\n" ++ esc .green ++ Text.filled e.indent 32
        ++ e.marker ++ esc .reset ++ "\n"
    else head ++ esc .reset ++ "\n"

end ModuleSystem.Diagnostic
