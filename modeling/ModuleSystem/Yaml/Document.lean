import ModuleSystem.Config.Value
import ModuleSystem.Yaml.Node
import ModuleSystem.Yaml.Value

/-!
# Settings in YAML documents

The value of a document is a table.  A mapping may take entries of other mappings over: its own
entries count more than those, and of those the earlier ones count more.  A node is decoded anew
each time it is referred to, and a document in which nearly everything comes from references is refused.
-/

namespace ModuleSystem

/-- The value of a node. A table has only texts as keys, or keys of any kind. -/
inductive YamlValue where
  | scalar (value : YamlScalar)
  | list (elements : List YamlValue)
  | table (mixed : Bool) (entries : List (YamlScalar × YamlValue))
deriving Repr, Inhabited

namespace YamlValue

/-- The kind of a table. -/
def tableKind (mixed : Bool) : Text :=
  if mixed then "map[interface \x7b\x7d]interface \x7b\x7d" else "map[string]interface \x7b\x7d"

/-- The kind of a list. -/
def listKind : Text := "[]interface \x7b\x7d"

/-- The kind of a value that consists of others. -/
def kind : YamlValue → Text
  | scalar v => v.tag
  | list _ => listKind
  | table mixed _ => tableKind mixed

/-- The order in which the entries of a table are shown. -/
def entryLe (a b : Text × Text) : Bool := Text.le a.1 b.1

mutual

/-- The value as it is shown to a programmer. -/
def written : YamlValue → Text
  | scalar v => v.written
  | list elements =>
    listKind ++ Text.ofString "\x7b" ++ Text.joinWith ", " (writtenElements elements)
      ++ Text.ofString "\x7d"
  | table mixed entries =>
    let shown := (writtenEntries entries).mergeSort entryLe
    tableKind mixed ++ Text.ofString "\x7b"
      ++ Text.joinWith ", " (shown.map fun (k, v) => k ++ 58 :: v) ++ Text.ofString "\x7d"

/-- The elements of a list as they are shown. -/
def writtenElements : List YamlValue → List Text
  | [] => []
  | v :: vs => v.written :: writtenElements vs

/-- The entries of a table as they are shown. -/
def writtenEntries : List (YamlScalar × YamlValue) → List (Text × Text)
  | [] => []
  | (k, v) :: es => (k.written, v.written) :: writtenEntries es

end

/-- The setting of a scalar. -/
def scalarSetting : YamlScalar → ConfigValue
  | .null => .null
  | .bool b => .flag b
  | .int n => .number (Text.ofInt n)
  | .float v => .number v.text
  | .moment m => .moment m.text
  | .text t => .text t

mutual

/-- The value as a setting. -/
def setting : YamlValue → ConfigValue
  | scalar v => scalarSetting v
  | list elements => .list (settings elements)
  | table _ entries => .table (settingsIn [] entries)

/-- The elements of a list as settings. -/
def settings : List YamlValue → List ConfigValue
  | [] => []
  | v :: vs => v.setting :: settings vs

/-- The entries of a table put into a table of settings. -/
def settingsIn (done : List (Text × ConfigValue)) :
    List (YamlScalar × YamlValue) → List (Text × ConfigValue)
  | [] => done
  | (k, v) :: es => settingsIn (Table.set k.spelling v.setting done) es

end

end YamlValue

namespace YamlNode

/-- The tag of a node: the one it is given, or else that of its kind. -/
def tag : YamlNode → Text
  | scalar _ given text plain =>
    if !given.isEmpty then given
    else if !plain then "!!str"
    else if text = Text.ofString "<<" then "!!merge"
    else (Yaml.looksLike true text).tag
  | sequence _ given _ => if given.isEmpty then "!!seq" else given
  | mapping _ given _ => if given.isEmpty then "!!map" else given
  | reference _ _ target => target.tag
  | unfinished isMapping given =>
    if !given.isEmpty then given else if isMapping then "!!map" else "!!seq"

/-- The line that a node begins on. -/
def line : YamlNode → Nat
  | scalar line _ _ _ => line
  | sequence line _ _ => line
  | mapping line _ _ => line
  | reference line _ _ => line
  | unfinished _ _ => 0

/-- The kind of a node as a number, and its text. Keys that agree in these are the same. -/
def identity : YamlNode → Nat × Text
  | scalar _ _ text _ => (0, text)
  | sequence _ _ _ => (1, [])
  | mapping _ _ _ => (2, [])
  | reference _ name _ => (3, name)
  | unfinished _ _ => (4, [])

/-- The value of a scalar with a tag that is given to it. -/
def scalarValue (given text : Text) (plain : Bool) : Except YamlError YamlScalar :=
  if !given.isEmpty then Yaml.tagged given text
  else if plain && text ≠ Text.ofString "<<" then .ok (Yaml.looksLike true text)
  else .ok (.text text)

/-- The key under which entries of other mappings are taken over. -/
def isMerge (n : YamlNode) : Bool :=
  n.identity = (0, Text.ofString "<<") && n.tag = Text.ofString "!!merge"

/-- A node that is a mapping, whether finished or not. -/
def isMapping : YamlNode → Bool
  | mapping _ _ _ => true
  | unfinished isMapping _ => isMapping
  | _ => false

/-- A node that is not finished. -/
def isUnfinished : YamlNode → Bool
  | unfinished _ _ => true
  | _ => false

/-- A node that stands for a text, or for entries to take over. -/
def isTextKey (n : YamlNode) : Bool :=
  n.tag = Text.ofString "!!str" || n.tag = Text.ofString "!!merge"

/-- The errors for keys that are the same as earlier ones, where each key comes with its line. -/
def duplicates : List ((Nat × Text) × Nat) → List YamlTypeError
  | [] => []
  | (k, line) :: ks =>
    ((ks.filter fun (other, _) => other = k).map fun (other, later) =>
      .duplicateKey later other.2 line) ++ duplicates ks

/-- The error for a node where a value of another kind has to be. -/
def mismatch (n : YamlNode) (wanted : Text) : YamlTypeError :=
  let tag := n.tag
  let single := tag ≠ Text.ofString "!!seq" && tag ≠ Text.ofString "!!map"
  .mismatch n.line tag (if single then some n.identity.2 else none) wanted

end YamlNode

/-- What has been done in decoding a document. -/
structure YamlTally where
  /-- The number of nodes that have been decoded. -/
  decoded : Nat := 0
  /-- How many of them have been reached by a reference. -/
  referred : Nat := 0
  /-- The errors so far. -/
  errors : List YamlTypeError := []

namespace YamlTally

/-- Up to this number of nodes nearly all may come from references. -/
def smallCount : Nat := 400000

/-- From this number of nodes on only a tenth may come from references. -/
def largeCount : Nat := 4000000

/-- Too many of the nodes come from references: more than 99 in a hundred, and fewer the more nodes
there are. -/
def isExcessive (t : YamlTally) : Bool :=
  let span := largeCount - smallCount
  let allowed :=
    if t.decoded ≤ smallCount then 99 * span
    else if largeCount ≤ t.decoded then 10 * span
    else 99 * span - 89 * (t.decoded - smallCount)
  100 < t.referred && 1000 < t.decoded && allowed * t.decoded < 100 * span * t.referred

end YamlTally

/-- A step in decoding a document. -/
abbrev YamlDecoding := StateT YamlTally (Except YamlError)

/-- A table of which entries have been decoded. -/
structure YamlEntries where
  entries : List (YamlScalar × YamlValue) := []
  /-- The keys that entries of other mappings may not have, when entries are taken over. -/
  barred : Option (List YamlScalar) := none

namespace YamlDecoding

/-- Counts a node that is reached by so many references. -/
def count (depth : Nat) : YamlDecoding Unit := do
  let t ← get
  let t := { t with
    decoded := t.decoded + 1
    referred := if depth = 0 then t.referred else t.referred + 1 }
  if t.isExcessive then throw .excessiveReferences else set t

/-- Notes some errors. -/
def note (errors : List YamlTypeError) : YamlDecoding Unit :=
  modify fun t => { t with errors := t.errors ++ errors }

/-- Some keys are the same, which is noted. -/
def hasDuplicates (entries : List (YamlNode × YamlNode)) : YamlDecoding Bool := do
  let errors := YamlNode.duplicates (entries.map fun (k, _) => (k.identity, k.line))
  note errors
  return !errors.isEmpty

/-- The table of a mapping: its own entries, and those it takes over. -/
def assemble (entries : List (YamlNode × YamlNode))
    (own : YamlEntries → YamlDecoding YamlEntries) (keys : YamlDecoding (List YamlScalar))
    (merged : YamlEntries → YamlDecoding YamlEntries) :
    YamlDecoding (List (YamlScalar × YamlValue)) := do
  let t ← own {}
  if entries.any fun (k, _) => k.isMerge then
    return (← merged { t with barred := some (← keys) }).entries
  else return t.entries

/-- The key of an entry, when it can be one and the entry is not barred. -/
def entryKey (t : YamlEntries) (key : YamlValue) :
    YamlDecoding (Option (YamlScalar × YamlEntries)) :=
  match key, t.barred with
  | .scalar k, none => return some (k, t)
  | .scalar k, some barred =>
    if barred.contains k then return none
    else return some (k, { t with barred := some (k :: barred) })
  | v, none => throw (.badKey v.written)
  | v, some _ => throw (.unorderedKey v.kind)

/-- The key of an entry as a text. Other nodes than scalars are noted as errors, and a key that is
null is none. -/
def textKey (depth : Nat) : YamlNode → YamlDecoding (Option YamlValue)
  | .scalar _ given text plain => do
    count depth
    match ← (YamlNode.scalarValue given text plain : Except YamlError _) with
    | .null => return none
    | .text t => return some (.scalar (.text t))
    | _ => return some (.scalar (.text text))
  | .sequence line given elements => do
    count depth
    note [(YamlNode.sequence line given elements).mismatch "string"]
    return none
  | .mapping line given entries => do
    count depth
    if ← hasDuplicates entries then return none
    else
      note [(YamlNode.mapping line given entries).mismatch "string"]
      return none
  | .reference _ name target => do
    count depth
    if target.isUnfinished then throw (.selfReference name) else textKey (depth + 1) target
  | .unfinished _ _ => return none

mutual

/-- The value of a node that is reached by so many references. There is none when errors are
noted. -/
def value (depth : Nat) : YamlNode → YamlDecoding (Option YamlValue)
  | .scalar _ given text plain => do
    count depth
    let v ← (YamlNode.scalarValue given text plain : Except YamlError _)
    return some (.scalar v)
  | .sequence _ _ elements => do
    count depth
    return some (.list (← values depth elements))
  | .mapping _ _ entries => do
    count depth
    if ← hasDuplicates entries then return none
    else
      let mixed := !entries.all fun (k, _) => k.isTextKey
      let es ← assemble entries (fun t => pairs depth mixed t entries) (keys depth entries)
        (fun t => mergeLast depth mixed t entries)
      return some (.table mixed es)
  | .reference _ name target => do
    count depth
    if target.isUnfinished then throw (.selfReference name) else value (depth + 1) target
  | .unfinished _ _ => return none

/-- The values of some nodes. -/
def values (depth : Nat) : List YamlNode → YamlDecoding (List YamlValue)
  | [] => return []
  | n :: ns => do
    let v ← value depth n
    return v.toList ++ (← values depth ns)

/-- Adds the entries of a mapping to a table, but for those that it takes over. -/
def pairs (depth : Nat) (mixed : Bool) (t : YamlEntries) :
    List (YamlNode × YamlNode) → YamlDecoding YamlEntries
  | [] => return t
  | (k, v) :: es => do
    if k.isMerge then pairs depth mixed t es
    else
      match ← (if mixed then value depth k else textKey depth k) with
      | none => pairs depth mixed t es
      | some key =>
        match ← entryKey t key with
        | none => pairs depth mixed t es
        | some (key, t) =>
          match ← value depth v with
          | none => pairs depth mixed t es
          | some v => pairs depth mixed { t with entries := Table.set key v t.entries } es

/-- The keys of a mapping. -/
def keys (depth : Nat) : List (YamlNode × YamlNode) → YamlDecoding (List YamlScalar)
  | [] => return []
  | (k, _) :: es => do
    match ← value depth k with
    | some (.scalar s) => return s :: (← keys depth es)
    | some v => throw (.unorderedKey v.kind)
    | none => keys depth es

/-- Adds to a table the entries that a mapping takes over. -/
def mergeLast (depth : Nat) (mixed : Bool) (t : YamlEntries) :
    List (YamlNode × YamlNode) → YamlDecoding YamlEntries
  | [] => return t
  | (k, v) :: es =>
    if k.isMerge then merge depth mixed true t v else mergeLast depth mixed t es

/-- Adds to a table the entries of a mapping, or of the mappings of a sequence where that may
stand. -/
def merge (depth : Nat) (mixed sequences : Bool) (t : YamlEntries) :
    YamlNode → YamlDecoding YamlEntries
  | .mapping _ _ entries => do
    count depth
    if ← hasDuplicates entries then return t
    else mergeLast depth mixed (← pairs depth mixed t entries) entries
  | .reference _ name target => do
    if !target.isMapping then throw .badMerge
    else
      count depth
      if target.isUnfinished then throw (.selfReference name)
      else merge (depth + 1) mixed false t target
  | .sequence _ _ elements =>
    if sequences then mergeEach depth mixed t elements else throw .badMerge
  | _ => throw .badMerge

/-- Adds to a table the entries of some mappings. -/
def mergeEach (depth : Nat) (mixed : Bool) (t : YamlEntries) :
    List YamlNode → YamlDecoding YamlEntries
  | [] => return t
  | n :: ns => do mergeEach depth mixed (← merge depth mixed false t n) ns

end

/-- The table of a document, which has to be a mapping or nothing. -/
def document (n : YamlNode) : YamlDecoding (List (YamlScalar × YamlValue)) := do
  count 0
  count 0
  match n with
  | .mapping _ _ entries =>
    if ← hasDuplicates entries then return []
    else
      assemble entries (fun t => pairs 0 false t entries) (keys 0 entries)
        (fun t => mergeLast 0 false t entries)
  | .scalar _ given text plain =>
    match ← (YamlNode.scalarValue given text plain : Except YamlError _) with
    | .null => return []
    | _ =>
      note [n.mismatch (YamlValue.tableKind false)]
      return []
  | _ =>
    note [n.mismatch (YamlValue.tableKind false)]
    return []

end YamlDecoding

namespace Yaml

/-- The settings of a text. A text without document has none. -/
def read (t : Text) : Except YamlError (List (Text × ConfigValue)) := do
  match ← document t with
  | none => return []
  | some n =>
    let (entries, tally) ← (YamlDecoding.document n).run {}
    if tally.errors.isEmpty then return YamlValue.settingsIn [] entries
    else .error (.types tally.errors)

end Yaml

end ModuleSystem
