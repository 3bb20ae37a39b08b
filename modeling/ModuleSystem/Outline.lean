import ModuleSystem.Source

/-!
# Outlines

An outline is what a module's source tells about its imports and exports: the statements that
are removed or changed when the module is compiled, and the assignments that importers must be told
about.  It holds places in the source and no tree of the program.
-/

namespace ModuleSystem

/-- A specifier that a module imports from. Statements with the same specifier share a record. -/
structure ImportRecord where
  path : Text
  /-- The first place where it is written. -/
  range : Range
  /-- An import attribute requires JSON. -/
  json : Bool := false
deriving DecidableEq, Repr

/-- A name at a place. -/
structure Binding where
  name : Text
  start : Nat
deriving DecidableEq, Repr

/-- One item of an import or export clause. In an import, `name` is the imported name and `asName`
the local one; in an export, `name` is the local or imported name and `asName` the exported one. -/
structure ClauseItem where
  name : Text
  asName : Text
  nameStart : Nat
  asStart : Nat
deriving DecidableEq, Repr

/-- What a default export is. -/
inductive DefaultKind where
  | expression
  | function
  | classBody
deriving DecidableEq, Repr

/-- An import or export statement. -/
inductive Statement where
  /-- An import, of the default export, of the namespace and of single exports. -/
  | imports (range : Range) (record : Nat) (byDefault star : Option Binding)
      (items : List ClauseItem)
  | exportClause (range : Range) (items : List ClauseItem)
  | exportFrom (range : Range) (record : Nat) (items : List ClauseItem)
  | exportStar (range : Range) (record : Nat)
  | exportStarAs (range : Range) (record : Nat) (name : Binding)
  /-- An exported declaration; `keyword` is the range of its first word. -/
  | exportDeclaration (keyword : Range) (names : List Binding)
  /-- A default export; `keyword` is the range of its first two words. A declaration without a name
  gets one at `insertAt`. -/
  | exportDefault (keyword : Range) (kind : DefaultKind) (name : Option Binding) (insertAt : Nat)
deriving DecidableEq, Repr

/-- Adds a name to an exported declaration. -/
def Statement.declare (b : Binding) : Statement → Statement
  | .exportDeclaration keyword names => .exportDeclaration keyword (names ++ [b])
  | s => s

/-- An expression that assigns to variables. -/
structure Write where
  /-- The variables: one, or all those of a destructuring pattern. -/
  targets : List Binding
  start : Nat
  stop : Nat
  inFunction : Bool
deriving DecidableEq, Repr

/-- A loop that assigns to existing variables on each turn. -/
structure LoopWrite where
  targets : List Binding
  /-- The offset of the first token of the body. -/
  body : Nat
  /-- The body is a block. -/
  isBlock : Bool
  inFunction : Bool
deriving DecidableEq, Repr

/-- What a module's source tells about its imports and exports. -/
structure Outline where
  hashbang : Range := {}
  records : List ImportRecord := []
  statements : List Statement := []
  /-- The keyword of each dynamic import. -/
  dynamicImports : List Range := []
  /-- The keyword of each reference to the module's metadata. -/
  importMetas : List Range := []
  writes : List Write := []
  loopWrites : List LoopWrite := []
  /-- The names that occur in the source, which generated names avoid. -/
  usedNames : List Text := []
deriving Repr

namespace Outline

/-- The local names that a statement imports. -/
def importedBy : Statement → List Text
  | .imports _ _ byDefault star items =>
    byDefault.toList.map (·.name) ++ star.toList.map (·.name) ++ items.map (·.asName)
  | _ => []

/-- The local names that are imported. -/
def importedNames (o : Outline) : List Text := o.statements.flatMap importedBy

end Outline

end ModuleSystem
