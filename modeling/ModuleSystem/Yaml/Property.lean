import ModuleSystem.Yaml.Cursor

/-!
# Directives, anchors and tags of YAML

The words that are no content: directives for the whole document, names for nodes to refer to, and
the kinds of nodes.
-/

namespace ModuleSystem

/-- A directive. -/
inductive YamlDirective where
  | version (major minor : Nat)
  /-- A handle stands for the beginning of a tag. -/
  | handle (handle expansion : Text)
deriving DecidableEq, Repr

/-- A tag as it is written: a handle, which may be empty, and the rest. -/
structure YamlTag where
  handle : Text
  suffix : Text
deriving DecidableEq, Repr

namespace Yaml

/-! ### Anchors -/

/-- The signs that may stand right after a name. -/
def endsName (c : Nat) : Bool :=
  isGap c || c = 63 || c = 58 || c = 44 || c = 93 || c = 125 || c = 37 || c = 64 || c = 96

/-- Reads the name after the sign of an anchor. -/
def anchorName (c : YamlCursor) : Except YamlError (Text × YamlCursor) := do
  let start := c.mark
  let (name, c) ← (← c.step.need 1).span isNameChar
  if name.isEmpty || !endsName c.char then .error (.token .anchorName start c.mark)
  else return (textOf name, c)

/-! ### Tags -/

/-- The characters of tags. -/
def isTagChar (c : Nat) : Bool :=
  isNameChar c
    || ([59, 47, 63, 58, 64, 38, 61, 43, 36, 44, 46, 33, 126, 42, 39, 40, 41, 91, 93, 37].elem c)

/-- The byte of an escape in a tag. -/
def tagOctet? (c : YamlCursor) : Option UInt8 :=
  match c.rest with
  | 37 :: a :: b :: _ =>
    match hexValue? a, hexValue? b with
    | some a, some b => some (a * 16 + b).toUInt8
    | _, _ => none
  | _ => none

/-- Reads the escapes for the bytes of a character that come after the first. -/
def tagTrailing (start : YamlMark) :
    Nat → Text → YamlCursor → Except YamlError (Text × YamlCursor)
  | 0, done, c => .ok (done, c)
  | n + 1, done, c => do
    let c ← c.need 3
    match tagOctet? c with
    | none => .error (.token .tagEscape start c.mark)
    | some b =>
      if Utf8.isContinuation b then tagTrailing start n (done ++ [b]) (c.steps 3)
      else .error (.token .tagTrailingByte start c.mark)

/-- Reads the escapes for the bytes of a character. -/
def tagEscape (start : YamlMark) (c : YamlCursor) : Except YamlError (Text × YamlCursor) := do
  let c ← c.need 3
  match tagOctet? c with
  | none => .error (.token .tagEscape start c.mark)
  | some b =>
    match sequenceWidth? b with
    | none => .error (.token .tagLeadingByte start c.mark)
    | some width => tagTrailing start (width - 1) [b] (c.steps 3)

/-- Reads the characters of a tag after those before them, in at most `fuel` steps. -/
def tagFrom (start : YamlMark) : Nat → Text → YamlCursor → Except YamlError (Text × YamlCursor)
  | 0, done, c => .ok (done, c)
  | fuel + 1, done, c => do
    let c ← c.need 1
    if !isTagChar c.char then return (done, c)
    else if c.char = 37 then
      let (t, c) ← tagEscape start c
      tagFrom start fuel (done ++ t) c
    else tagFrom start fuel (done ++ Utf8.encode c.char) c.step

/-- Reads the rest of a tag, which begins with what follows the first character of `head`. -/
def tagRest (start : YamlMark) (head : Text) (c : YamlCursor) :
    Except YamlError (Text × YamlCursor) := do
  let (t, after) ← tagFrom start (c.size + 1) (head.drop 1) c
  if head.isEmpty && after.mark = c.mark then .error (.token .noTag start after.mark)
  else return (t, after)

/-- Reads a handle. Only in a directive it has to be a whole one. -/
def tagHandle (start : YamlMark) (directive : Bool) (c : YamlCursor) :
    Except YamlError (Text × YamlCursor) := do
  let c ← c.need 1
  if c.char ≠ 33 then .error (.token .tagStart start c.mark)
  else
    let (name, c) ← (← c.step.need 1).span isNameChar
    if c.char = 33 then return (33 :: textOf name ++ [33], c.step)
    else if directive && !name.isEmpty then .error (.token .tagStart start c.mark)
    else return (33 :: textOf name, c)

/-- Reads a tag that is written in full between angle brackets. -/
def fullTag (start : YamlMark) (c : YamlCursor) : Except YamlError (YamlTag × YamlCursor) := do
  let (suffix, c) ← tagRest start [] (c.steps 2)
  if c.char = 62 then return (⟨[], suffix⟩, c.step) else .error (.token .tagClose start c.mark)

/-- Reads a tag that may begin with a handle. A lone exclamation mark is a tag of its own. -/
def shortTag (start : YamlMark) (c : YamlCursor) : Except YamlError (YamlTag × YamlCursor) := do
  let (handle, c) ← tagHandle start false c
  if 1 < handle.length && handle.getLast? = some 33 then
    let (suffix, c) ← tagRest start [] c
    return (⟨handle, suffix⟩, c)
  else
    let (suffix, c) ← tagRest start handle c
    return (if suffix.isEmpty then ⟨[], handle⟩ else ⟨[33], suffix⟩, c)

/-- Reads a tag. -/
def tag (c : YamlCursor) : Except YamlError (YamlTag × YamlCursor) := do
  let start := c.mark
  let c ← c.need 2
  let (t, c) ← if c.peek 1 = 60 then fullTag start c else shortTag start c
  let c ← c.need 1
  if isGap c.char then return (t, c) else .error (.token .noSpaceOrEnd start c.mark)

/-! ### Directives -/

/-- Reads a number of at most two digits. -/
def versionNumber (start : YamlMark) (c : YamlCursor) : Except YamlError (Nat × YamlCursor) := do
  let digits := c.rest.takeWhile isDigit
  if 2 < digits.length then .error (.token .longVersion start c.mark)
  else
    let (ds, c) ← c.span isDigit
    if ds.isEmpty then .error (.token .noVersion start c.mark)
    else return (ds.foldl (fun n d => n * 10 + (d - 48)) 0, c)

/-- Reads what follows the name of a directive for the version. -/
def versionDirective (start : YamlMark) (c : YamlCursor) :
    Except YamlError (YamlDirective × YamlCursor) := do
  let (major, c) ← versionNumber start (← c.skip isBlank)
  if c.char ≠ 46 then .error (.token .versionPoint start c.mark)
  else
    let (minor, c) ← versionNumber start (← c.step.need 1)
    return (.version major minor, c)

/-- Reads what follows the name of a directive for a handle. -/
def handleDirective (start : YamlMark) (c : YamlCursor) :
    Except YamlError (YamlDirective × YamlCursor) := do
  let (handle, c) ← tagHandle start true (← c.skip isBlank)
  let c ← c.need 1
  if !isBlank c.char then .error (.token .noSpace start c.mark)
  else
    let (expansion, c) ← tagRest start [] (← c.skip isBlank)
    let c ← c.need 1
    if isGap c.char then return (.handle handle expansion, c)
    else .error (.token .noSpaceOrEnd start c.mark)

/-- Reads a directive with the rest of its line. -/
def directive (c : YamlCursor) : Except YamlError (YamlDirective × YamlCursor) := do
  let start := c.mark
  let (name, c) ← (← c.step.need 1).span isNameChar
  let name := textOf name
  if name.isEmpty then .error (.token .noDirectiveName start c.mark)
  else if !isGap c.char then .error (.token .directiveName start c.mark)
  else
    let (d, c) ←
      if name = Text.ofString "YAML" then versionDirective start c
      else if name = Text.ofString "TAG" then handleDirective start c
      else .error (.token .unknownDirective start c.mark)
    let c ← c.skip isBlank
    let c ← if c.char = 35 then c.skip (fun b => !isLineEnd b) else pure c
    if isLineEnd c.char then return (d, ← c.finishLine)
    else .error (.token .noLineEnd start c.mark)

end Yaml

end ModuleSystem
