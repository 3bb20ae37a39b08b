import ModuleSystem.Outline

/-!
# Interfaces

The interface of a module is what linking needs to know of it: what it imports, under which names
it exports its variables, and what it passes on from other modules.  The code of the module plays
no part.
-/

namespace ModuleSystem

/-- An import of one name, or of the namespace when `importName` is `"*"`. -/
structure NamedImport where
  /-- The name in the other module. -/
  importName : Text
  localName : Text
  start : Nat
  record : Nat
deriving DecidableEq, Repr

/-- A variable of the module that is exported. -/
structure LocalExport where
  name : Text
  localName : Text
  start : Nat
deriving DecidableEq, Repr

/-- An export of another module that is passed on, or its namespace when `importName` is `"*"`. -/
structure ReExport where
  name : Text
  /-- The name in the other module. -/
  importName : Text
  start : Nat
  record : Nat
deriving DecidableEq, Repr

/-- What linking needs to know of a module. -/
structure Interface where
  records : List ImportRecord := []
  namedImports : List NamedImport := []
  localExports : List LocalExport := []
  reExports : List ReExport := []
  /-- The records of the modules of which all exports are passed on. -/
  exportStars : List Nat := []
deriving DecidableEq, Repr

namespace Interface

/-- The import name that stands for the namespace of a module. -/
def star : Text := "*"

/-- The name of a default export. -/
def defaultName : Text := "default"

/-- The specifiers that a module imports from, in the order of the source. -/
def specifiers (i : Interface) : List Text := i.records.map (·.path)

/-- The names that a module exports of itself. -/
def explicitExportNames (i : Interface) : List Text :=
  i.localExports.map (·.name) ++ i.reExports.map (·.name)

/-- The imports that a statement makes. -/
def importsOf : Statement → List NamedImport
  | .imports _ record byDefault nameSpace items =>
    byDefault.toList.map (fun b => ⟨defaultName, b.name, b.start, record⟩)
      ++ nameSpace.toList.map (fun b => ⟨star, b.name, b.start, record⟩)
      ++ items.map fun i => ⟨i.name, i.asName, i.nameStart, record⟩
  | _ => []

/-- The import that a local name stands for. Of several with that name the last one counts. -/
def imported? (imports : List NamedImport) (name : Text) : Option NamedImport :=
  imports.reverse.find? (·.localName = name)

/-- Adds one item of an export clause. An imported name is passed on. -/
def addClauseItem (imports : List NamedImport) (i : Interface) (item : ClauseItem) : Interface :=
  match imported? imports item.name with
  | some n =>
    { i with reExports := i.reExports ++ [⟨item.asName, n.importName, item.asStart, n.record⟩] }
  | none =>
    { i with localExports := i.localExports ++ [⟨item.asName, item.name, item.asStart⟩] }

/-- Adds the exports of a statement; `unnamed` is the variable of a default export without a
name. -/
def addExports (imports : List NamedImport) (unnamed : Text) (i : Interface) :
    Statement → Interface
  | .exportClause _ items => items.foldl (addClauseItem imports) i
  | .exportFrom _ record items =>
    { i with
      reExports := i.reExports ++ items.map fun c => ⟨c.asName, c.name, c.asStart, record⟩ }
  | .exportStar _ record => { i with exportStars := i.exportStars ++ [record] }
  | .exportStarAs _ record b =>
    { i with reExports := i.reExports ++ [⟨b.name, star, b.start, record⟩] }
  | .exportDeclaration _ names =>
    { i with localExports := i.localExports ++ names.map fun b => ⟨b.name, b.name, b.start⟩ }
  | .exportDefault keyword _ name _ =>
    let localName := (name.map (·.name)).getD unnamed
    { i with localExports := i.localExports ++ [⟨defaultName, localName, keyword.start⟩] }
  | .imports .. => i

/-- The interface of an outline. Imports come first, because an export may stand before the import
that it passes on. -/
def ofOutline (o : Outline) (unnamed : Text) : Interface :=
  let namedImports := o.statements.flatMap importsOf
  o.statements.foldl (addExports namedImports unnamed) { records := o.records, namedImports }

end Interface

end ModuleSystem
