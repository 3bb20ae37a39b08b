import ModuleSystem.Yaml.Token

/-!
# Nodes of YAML

The structure of a document: scalars, sequences and mappings, and references to nodes that have been
given a name.  Only the first document of a text is read.
-/

namespace ModuleSystem

/-- A node, with the line it begins on and the tag it is given, which may be empty. -/
inductive YamlNode where
  | scalar (line : Nat) (tag text : Text) (plain : Bool)
  | sequence (line : Nat) (tag : Text) (elements : List YamlNode)
  | mapping (line : Nat) (tag : Text) (entries : List (YamlNode × YamlNode))
  | reference (line : Nat) (name : Text) (target : YamlNode)
  /-- A sequence or a mapping that is referred to inside itself. -/
  | unfinished (isMapping : Bool) (tag : Text)
deriving Repr, Inhabited

/-- What has been read of a document. -/
structure YamlReader where
  tokens : YamlTokens
  /-- The beginnings of tags that handles stand for. -/
  handles : List (Text × Text) := []
  /-- The nodes with names, the latest first. -/
  anchors : List (Text × YamlNode) := []

/-- A step in reading a document. -/
abbrev YamlReading := StateT YamlReader (Except YamlError)

namespace YamlReading

/-- The next token. -/
def peek : YamlReading YamlToken := do
  let r ← get
  let (token, tokens) ← (r.tokens.peek : Except YamlError _)
  set { r with tokens }
  return token

/-- Leaves out a token. -/
def skip : YamlReading Unit := modify fun r => { r with tokens := r.tokens.next }

/-- A fault in what begins at one place, noticed at another. -/
def fail (fault : YamlStructureFault) (start here : YamlMark) : YamlReading α :=
  throw (.structural fault start here)

/-- The node where there is none. -/
def empty (mark : YamlMark) : YamlNode := .scalar (mark.line + 1) [] [] true

/-! ### Names and tags -/

/-- The short form of a tag of the standard kinds. -/
def shorten (tag : Text) : Text :=
  match Text.dropStart? "tag:yaml.org,2002:" tag with
  | some kind => "!!" ++ kind
  | none => tag

/-- The handles that every document has. -/
def standardHandles : List (Text × Text) := [("!", "!"), ("!!", "tag:yaml.org,2002:")]

/-- What may stand before the content of a node. -/
structure Properties where
  start : YamlMark
  anchor : Option Text := none
  /-- The tag in full. -/
  tag : Text := []

/-- The tag that a node is given. A lone exclamation mark gives none. -/
def Properties.given (p : Properties) : Text := if p.tag = [33] then [] else shorten p.tag

/-- Reads a tag, if there is one. -/
def tag? : YamlReading (Option (YamlTag × YamlMark)) := do
  let token ← peek
  match token.kind with
  | .tag t =>
    skip
    return some (t, token.start)
  | _ => return none

/-- Reads an anchor, if there is one. -/
def anchor? : YamlReading (Option Text) := do
  match (← peek).kind with
  | .anchor name =>
    skip
    return some name
  | _ => return none

/-- Reads the properties of a node: an anchor and a tag in either order. -/
def properties : YamlReading Properties := do
  let start := (← peek).start
  let anchor ← anchor?
  let tag ← tag?
  let anchor ← match anchor, tag with
    | none, some _ => anchor?
    | anchor, _ => pure anchor
  let _ ← peek
  match tag with
  | none => return { start, anchor }
  | some (t, mark) =>
    if t.handle.isEmpty then return { start, anchor, tag := t.suffix }
    else
      match (← get).handles.lookup t.handle with
      | some expansion => return { start, anchor, tag := expansion ++ t.suffix }
      | none => fail .unknownHandle start mark

/-- Gives a name to a node. The place of the name is found. -/
def addAnchor (anchor : Option Text) (n : YamlNode) : YamlReading Nat := do
  let r ← get
  match anchor with
  | none => pure ()
  | some name => set { r with anchors := (name, n) :: r.anchors }
  return r.anchors.length

/-- Puts a finished node in its place among the nodes with names. -/
def finish (anchor : Option Text) (place : Nat) (n : YamlNode) : YamlReading YamlNode := do
  if anchor.isSome then
    modify fun r =>
      let index := r.anchors.length - 1 - place
      { r with anchors := r.anchors.modify index fun (name, _) => (name, n) }
  return n

/-! ### Content -/

/-- A token after which no key or value of a block follows. -/
def endsBlockItem (kind : YamlTokenKind) : Bool := kind = .key || kind = .value || kind = .blockEnd

/-- A token after which no key or value inside brackets follows. -/
def endsFlowItem (close kind : YamlTokenKind) : Bool := kind = .flowEntry || kind = close

/-- Reads what divides the entries inside brackets, unless it is the first entry. -/
def divider (first : Bool) (fault : YamlStructureFault) (start : YamlMark) (token : YamlToken) :
    YamlReading YamlToken := do
  if first then return token
  else if token.kind = .flowEntry then
    skip
    peek
  else fail fault start token.start

mutual

/-- Reads a node in at most `fuel` steps. Blocks are read only where they may stand, and only where
a mapping is around it a sequence need not be indented. -/
def node : Nat → Bool → Bool → YamlReading YamlNode
  | 0, _, _ => fail .noContent {} {}
  | fuel + 1, block, indentless => do
    let token ← peek
    match token.kind with
    | .reference name =>
      skip
      match (← get).anchors.lookup name with
      | some target => return .reference (token.start.line + 1) name target
      | none => throw (.unknownAnchor name)
    | _ =>
      let p ← properties
      let token ← peek
      let line := p.start.line + 1
      let sequence (read : YamlReading (List YamlNode)) : YamlReading YamlNode := do
        let place ← addAnchor p.anchor (.unfinished false p.given)
        finish p.anchor place (.sequence line p.given (← read))
      let mapping (read : YamlReading (List (YamlNode × YamlNode))) : YamlReading YamlNode := do
        let place ← addAnchor p.anchor (.unfinished true p.given)
        finish p.anchor place (.mapping line p.given (← read))
      let scalar (text : Text) (plain : Bool) : YamlReading YamlNode := do
        let n := .scalar line p.given text plain
        let _ ← addAnchor p.anchor n
        return n
      match token.kind with
      | .scalar text plain =>
        skip
        scalar text plain
      | .flowSequence =>
        sequence do
          skip
          flowSequence fuel token.start true
      | .flowMapping =>
        mapping do
          skip
          flowMapping fuel token.start true
      | kind =>
        if indentless && kind = .blockEntry then sequence (indentlessSequence fuel)
        else if block && kind = .blockSequence then
          sequence do
            skip
            blockSequence fuel token.start
        else if block && kind = .blockMapping then
          mapping do
            skip
            blockMapping fuel token.start
        else if p.anchor.isSome || !p.tag.isEmpty then scalar [] true
        else fail .noContent p.start token.start

/-- Reads the entries of a sequence in a block that begins at a place. -/
def blockSequence : Nat → YamlMark → YamlReading (List YamlNode)
  | 0, start => fail .noEntry start {}
  | fuel + 1, start => do
    let token ← peek
    match token.kind with
    | .blockEntry =>
      skip
      let next ← peek
      let n ←
        if next.kind = .blockEntry || next.kind = .blockEnd then pure (empty token.stop)
        else node fuel true false
      return n :: (← blockSequence fuel start)
    | .blockEnd =>
      skip
      return []
    | _ => fail .noEntry start token.start

/-- Reads the entries of a sequence that is not indented. -/
def indentlessSequence : Nat → YamlReading (List YamlNode)
  | 0 => fail .noEntry {} {}
  | fuel + 1 => do
    let token ← peek
    if token.kind = .blockEntry then
      skip
      let next ← peek
      let n ←
        if next.kind = .blockEntry || endsBlockItem next.kind then pure (empty token.stop)
        else node fuel true false
      return n :: (← indentlessSequence fuel)
    else return []

/-- Reads the entries of a mapping in a block that begins at a place. -/
def blockMapping : Nat → YamlMark → YamlReading (List (YamlNode × YamlNode))
  | 0, start => fail .noKey start {}
  | fuel + 1, start => do
    let token ← peek
    match token.kind with
    | .key =>
      skip
      let key ← blockItem fuel token.stop
      let colon ← peek
      let value ←
        if colon.kind = .value then do
          skip
          blockItem fuel colon.stop
        else pure (empty colon.start)
      return (key, value) :: (← blockMapping fuel start)
    | .blockEnd =>
      skip
      return []
    | _ => fail .noKey start token.start

/-- Reads a key or a value of a block, which may be missing. -/
def blockItem : Nat → YamlMark → YamlReading YamlNode
  | 0, mark => return empty mark
  | fuel + 1, mark => do
    if endsBlockItem (← peek).kind then return empty mark else node fuel true true

/-- Reads the rest of a sequence in brackets that begins at a place. -/
def flowSequence : Nat → YamlMark → Bool → YamlReading (List YamlNode)
  | 0, start, _ => fail .noSequenceEnd start {}
  | fuel + 1, start, first => do
    let token ← peek
    if token.kind = .flowSequenceEnd then
      skip
      return []
    else
      let token ← divider first .noSequenceEnd start token
      match token.kind with
      | .flowSequenceEnd =>
        skip
        return []
      | .key =>
        skip
        let n ← flowPair fuel token.start
        return n :: (← flowSequence fuel start false)
      | _ =>
        let n ← node fuel false false
        return n :: (← flowSequence fuel start false)

/-- Reads a key with its value as an entry of a sequence. -/
def flowPair : Nat → YamlMark → YamlReading YamlNode
  | 0, start => fail .noContent start {}
  | fuel + 1, start => do
    let token ← peek
    let key ←
      if token.kind = .value || endsFlowItem .flowSequenceEnd token.kind then do
        skip
        pure (empty token.stop)
      else node fuel false false
    let value ← flowValue fuel .flowSequenceEnd
    let _ ← peek
    return .mapping (start.line + 1) [] [(key, value)]

/-- Reads the value of a key inside brackets, which may be missing. -/
def flowValue : Nat → YamlTokenKind → YamlReading YamlNode
  | 0, _ => fail .noContent {} {}
  | fuel + 1, close => do
    let colon ← peek
    if colon.kind = .value then
      skip
      if endsFlowItem close (← peek).kind then return empty colon.start
      else node fuel false false
    else return empty colon.start

/-- Reads the rest of a mapping in brackets that begins at a place. -/
def flowMapping : Nat → YamlMark → Bool → YamlReading (List (YamlNode × YamlNode))
  | 0, start, _ => fail .noMappingEnd start {}
  | fuel + 1, start, first => do
    let token ← peek
    if token.kind = .flowMappingEnd then
      skip
      return []
    else
      let token ← divider first .noMappingEnd start token
      match token.kind with
      | .flowMappingEnd =>
        skip
        return []
      | .key =>
        skip
        let next ← peek
        let key ←
          if next.kind = .value || endsFlowItem .flowMappingEnd next.kind then
            pure (empty next.start)
          else node fuel false false
        let value ← flowValue fuel .flowMappingEnd
        return (key, value) :: (← flowMapping fuel start false)
      | _ =>
        let key ← node fuel false false
        let value := empty (← peek).start
        return (key, value) :: (← flowMapping fuel start false)

end

/-! ### Documents -/

/-- Takes a handle into account. -/
def addHandle (handle expansion : Text) (mark : YamlMark) : YamlReading Unit := do
  let r ← get
  if (r.handles.lookup handle).isSome then fail .duplicateHandle {} mark
  else set { r with handles := r.handles ++ [(handle, expansion)] }

/-- Reads at most `fuel` directives. -/
def directives : Nat → Bool → YamlReading Unit
  | 0, _ => pure ()
  | fuel + 1, versioned => do
    let token ← peek
    match token.kind with
    | .directive (.version major minor) =>
      if versioned then fail .duplicateVersion {} token.start
      else if major ≠ 1 || minor ≠ 1 then fail .otherVersion {} token.start
      else
        skip
        directives fuel true
    | .directive (.handle handle expansion) =>
      addHandle handle expansion token.start
      skip
      directives fuel versioned
    | _ => modify fun r => { r with handles := r.handles ++ standardHandles }

/-- Reads the content of a document after the mark that begins it. -/
def content (fuel : Nat) : YamlReading YamlNode := do
  let token ← peek
  match token.kind with
  | .directive _ | .documentStart | .documentEnd | .streamEnd => return empty token.start
  | _ => node fuel true false

/-- Reads the first document. -/
def document (fuel : Nat) : YamlReading (Option YamlNode) := do
  let _ ← peek
  skip
  match (← peek).kind with
  | .streamEnd => return none
  | .directive _ | .documentStart =>
    directives fuel false
    let token ← peek
    if token.kind = .documentStart then
      skip
      let n ← content fuel
      let _ ← peek
      return some n
    else fail .noDocumentStart {} token.start
  | _ =>
    directives fuel false
    let n ← node fuel true false
    let _ ← peek
    return some n

end YamlReading

namespace Yaml

/-- The first document of a text, if it has one. No step leaves the text where it is for more than a
few times. -/
def document (t : Text) : Except YamlError (Option YamlNode) := do
  let s := source t
  let tokens ← YamlTokens.ofSource s
  (YamlReading.document (8 * s.chars.length + 32)).run' { tokens }

end Yaml

end ModuleSystem
