import ModuleSystem.Compile.Edit
import ModuleSystem.Interface
import ModuleSystem.Text.Quoted

/-!
# Printing a module

A module is printed as a generator function.  Its prologue, on the first line, announces the exports
and declares and requests the imports; then it yields.  Its body is the source with import and
export statements removed or changed in place, and with a notice to importers after each write to
an exported variable.
-/

namespace ModuleSystem

/-- The names that printing introduces. -/
structure GeneratedNames where
  /-- The parameter through which the module talks to its host. -/
  runtime : Text
  /-- The variable of a default export without a name. -/
  unnamed : Text
  /-- The parameter of a setter. -/
  value : Text
deriving DecidableEq, Repr

namespace GeneratedNames

/-- The names to try, in order: the base, then the base with a number from two on. -/
def candidate (base : Text) (n : Nat) : Text := if n = 0 then base else base ++ Text.ofNat (n + 1)

/-- The first name made from a base that is not used. -/
def fresh (used : List Text) (base : Text) : Text :=
  (((List.range (used.length + 1)).map (candidate base)).find? fun n => !used.contains n).getD base

/-- Names that do not occur in an outline. -/
def ofOutline (o : Outline) : GeneratedNames :=
  let runtime := fresh o.usedNames "__esm"
  let unnamed := fresh (runtime :: o.usedNames) "_default"
  let value := fresh (unnamed :: runtime :: o.usedNames) "_value"
  { runtime, unnamed, value }

end GeneratedNames

namespace Print

/-- The edits of a statement. -/
def statementEdits (n : GeneratedNames) : Statement → List Edit
  | .imports r .. | .exportClause r _ | .exportFrom r _ _ | .exportStar r _
  | .exportStarAs r _ _ => [.remove r]
  | .exportDeclaration keyword _ => [.remove keyword]
  | .exportDefault keyword .expression _ _ =>
    [.replace keyword ("const " ++ n.unnamed ++ " =")]
  | .exportDefault keyword _ none insertAt =>
    [.remove keyword, .insert insertAt (" " ++ n.unnamed) .insert]
  | .exportDefault keyword _ (some _) _ => [.remove keyword]

/-- A notice at the start of each turn of a loop. -/
def loopEdit (n : GeneratedNames) (l : LoopWrite) : Edit :=
  if l.isBlock then .insert (l.body + 1) (n.runtime ++ ".update();") .insert
  else .insert l.body ("if (" ++ n.runtime ++ ".update(), true) ") .insert

/-- A notice around a write. -/
def writeEdits (n : GeneratedNames) (w : Write) : List Edit :=
  if w.start < w.stop then
    [.insert w.start (n.runtime ++ ".update(") .insert, .insert w.stop ")" .close]
  else []

/-- Some of the variables is exported. -/
def isExported (i : Interface) (targets : List Binding) : Bool :=
  targets.any fun t => i.localExports.any (·.localName = t.name)

/-- All edits of a module, in the order in which they are applied. -/
def edits (o : Outline) (i : Interface) (n : GeneratedNames) : List Edit :=
  Edit.sort <|
    (if 0 < o.hashbang.len then [Edit.remove o.hashbang] else [])
      ++ o.statements.flatMap (statementEdits n)
      ++ o.dynamicImports.map (fun r => .replace r (n.runtime ++ ".dynamicImport"))
      ++ o.importMetas.map (fun r => .replace r n.runtime)
      ++ (o.loopWrites.filter fun l => isExported i l.targets).map (loopEdit n)
      ++ (o.writes.filter fun w => isExported i w.targets).flatMap (writeEdits n)

/-- The announcement of the exports. -/
def exportCall (i : Interface) (n : GeneratedNames) : Text :=
  if i.localExports.isEmpty then []
  else
    let entry (e : LocalExport) : Text := Quoted.literal e.name ++ ": () => " ++ e.localName
    n.runtime ++ ".export(\x7b" ++ Text.joinWith ", " (i.localExports.map entry) ++ "\x7d);"

/-- A setter for each name that is imported from a record. A name that is imported more than once
has one setter for all its variables. -/
def importEntries (i : Interface) (n : GeneratedNames) (record : Nat) : List Text :=
  let named := i.namedImports.filter (·.record = record)
  (named.map (·.importName)).eraseDups.map fun name =>
    let assign (m : NamedImport) : Text := " " ++ m.localName ++ " = " ++ n.value ++ ";"
    Quoted.literal name ++ ": (" ++ n.value ++ ") => \x7b"
      ++ (named.filter (·.importName = name)).flatMap assign ++ " \x7d"

/-- The request for the imports from a record. -/
def importCall (i : Interface) (n : GeneratedNames) (path : Text) (record : Nat) : Text :=
  let entries := importEntries i n record
  if entries.isEmpty then []
  else
    n.runtime ++ ".import(" ++ Quoted.literal path ++ ", \x7b" ++ Text.joinWith ", " entries
      ++ "\x7d);"

/-- The declaration of the imported names. -/
def importDeclaration (i : Interface) : Text :=
  if i.namedImports.isEmpty then []
  else "let " ++ Text.joinWith ", " (i.namedImports.map (·.localName)).eraseDups ++ ";"

/-- The generated beginning of the code. -/
def prologue (i : Interface) (n : GeneratedNames) : Text :=
  "(function* (" ++ n.runtime ++ ") \x7b\"use strict\";" ++ exportCall i n ++ importDeclaration i
    ++ i.records.zipIdx.flatMap (fun (r, k) => importCall i n r.path k) ++ "yield;"

/-- The generated end of the code. -/
def epilogue : Text := "\n\x7d)"

/-- The code of a module, and its interface. -/
def module (s : Source) (o : Outline) : Text × Interface :=
  let n := GeneratedNames.ofOutline o
  let i := Interface.ofOutline o n.unnamed
  (prologue i n ++ Edit.apply s.contents (edits o i n) ++ epilogue, i)

/-- The code of a module whose default export is a JSON value, and its interface. The text is
parsed when the module runs. -/
def json (s : Source) : Text × Interface :=
  let i : Interface := { localExports := [⟨Interface.defaultName, "_default", 0⟩] }
  let n : GeneratedNames := { runtime := "__esm", unnamed := "_default", value := "_value" }
  (prologue i n ++ "const _default = JSON.parse(" ++ Quoted.literal s.contents ++ ");" ++ epilogue,
    i)

end Print

end ModuleSystem
