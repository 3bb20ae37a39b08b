import ModuleSystem.Proofs.Compile.Interfaces
import ModuleSystem.Proofs.LiveBindings

/-!
# Export names are texts

Two modules agree on the name of an export whatever text it is, because nothing is read out of a name.
There is one text that is not just a name: the star stands for the namespace of a module, and a module can
still export a variable under it.

* `Outline.Exports`, `Outline.Imports`, `Outline.PassesOn`: the clauses of a source that speak of a name.
* `Interface.mem_localExports`, `Interface.mem_namedImports`, `Interface.mem_reExports`: what becomes of them.
* `Bindings.subscribe`: the connection of a variable to an export.
* `names_connect`: a name that is not the star connects its imports to the export of that name.
-/

namespace ModuleSystem

variable {o : Outline} {unnamed name localName asName : Text} {record : Nat}

namespace Outline

/-- An export clause exports a variable of the module under a name. -/
def Exports (o : Outline) (localName name : Text) : Prop :=
  localName ∉ o.importedNames ∧ ∃ range items, .exportClause range items ∈ o.statements ∧
    ∃ item ∈ items, item.name = localName ∧ item.asName = name

/-- An import statement gives a variable what the module of a record exports under a name. -/
def Imports (o : Outline) (record : Nat) (name localName : Text) : Prop :=
  ∃ range byDefault star items, .imports range record byDefault star items ∈ o.statements ∧
    ∃ item ∈ items, item.name = name ∧ item.asName = localName

/-- An export statement passes on what the module of a record exports under a name. -/
def PassesOn (o : Outline) (record : Nat) (name asName : Text) : Prop :=
  ∃ range items, .exportFrom range record items ∈ o.statements ∧
    ∃ item ∈ items, item.name = name ∧ item.asName = asName

end Outline

/-! ### What becomes of clauses -/

namespace Interface

variable {i i' i'' : Interface} {imports : List NamedImport} {item : ClauseItem} {st : Statement}

/-- An interface with further exports. -/
structure Extends (i i' : Interface) : Prop where
  imports : i'.namedImports = i.namedImports
  locals : i.localExports ⊆ i'.localExports
  passedOn : i.reExports ⊆ i'.reExports

theorem Extends.refl (i : Interface) : Extends i i := ⟨rfl, List.Subset.refl _, List.Subset.refl _⟩

theorem Extends.trans (h : Extends i i') (h' : Extends i' i'') : Extends i i'' :=
  ⟨h'.imports.trans h.imports, List.Subset.trans h.locals h'.locals, List.Subset.trans h.passedOn h'.passedOn⟩

/-- Steps that only add add together. -/
theorem extends_foldl {α : Type} {step : Interface → α → Interface} (hstep : ∀ i a, Extends i (step i a))
    (as : List α) (i : Interface) : Extends i (as.foldl step i) := by
  induction as generalizing i with
  | nil => exact .refl i
  | cons a as ih => exact (hstep i a).trans (ih _)

/-- What an element of a fold adds is there at the end. -/
theorem exists_extends_foldl {α : Type} {step : Interface → α → Interface} (hstep : ∀ i a, Extends i (step i a))
    {as : List α} {a : α} (ha : a ∈ as) (i : Interface) : ∃ i', Extends (step i' a) (as.foldl step i) := by
  obtain ⟨before, after, rfl⟩ := List.append_of_mem ha
  rw [List.foldl_append, List.foldl_cons]
  exact ⟨_, extends_foldl hstep after _⟩

/-- An item of a clause adds its export. -/
theorem extends_addClauseItem (imports : List NamedImport) (i : Interface) (item : ClauseItem) :
    Extends i (addClauseItem imports i item) := by
  unfold addClauseItem
  split
  · exact ⟨rfl, List.Subset.refl _, List.subset_append_left _ _⟩
  · exact ⟨rfl, List.subset_append_left _ _, List.Subset.refl _⟩

/-- A statement adds its exports. -/
theorem extends_addExports (imports : List NamedImport) (unnamed : Text) (i : Interface) (st : Statement) :
    Extends i (addExports imports unnamed i st) := by
  cases st with
  | exportClause range items => exact extends_foldl (extends_addClauseItem imports) items i
  | imports | exportStar => exact ⟨rfl, List.Subset.refl _, List.Subset.refl _⟩
  | exportFrom | exportStarAs => exact ⟨rfl, List.Subset.refl _, List.subset_append_left _ _⟩
  | exportDeclaration | exportDefault => exact ⟨rfl, List.subset_append_left _ _, List.Subset.refl _⟩

/-- The interface has what each statement adds. -/
theorem exists_extends_ofOutline (hst : st ∈ o.statements) (unnamed : Text) :
    ∃ i, Extends (addExports (o.statements.flatMap importsOf) unnamed i st) (ofOutline o unnamed) :=
  exists_extends_foldl (extends_addExports _ unnamed) hst _

/-- The named imports are those of the statements. -/
theorem namedImports_ofOutline (o : Outline) (unnamed : Text) :
    (ofOutline o unnamed).namedImports = o.statements.flatMap importsOf :=
  (extends_foldl (extends_addExports _ unnamed) o.statements _).imports

/-- The variables of imports are the names that are imported. -/
theorem map_localName_importsOf (st : Statement) : (importsOf st).map (·.localName) = Outline.importedBy st := by
  cases st <;> simp [importsOf, Outline.importedBy, Function.comp_def]

/-- A name that is not imported is the name of a variable. -/
theorem imported?_eq_none (h : name ∉ o.importedNames) : imported? (o.statements.flatMap importsOf) name = none := by
  refine List.find?_eq_none.2 fun n hn heq => h ?_
  obtain ⟨st, hst, hn⟩ := List.mem_flatMap.1 (List.mem_reverse.1 hn)
  have hname := List.mem_map_of_mem (f := (·.localName)) hn
  rw [map_localName_importsOf, of_decide_eq_true heq] at hname
  exact List.mem_flatMap.2 ⟨st, hst, hname⟩

/-- A name that is imported is one of the named imports. -/
theorem mem_namedImports (h : o.Imports record name localName) (unnamed : Text) :
    ∃ e ∈ (ofOutline o unnamed).namedImports, e.importName = name ∧ e.localName = localName ∧ e.record = record := by
  obtain ⟨range, byDefault, star, items, hst, item, hitem, rfl, rfl⟩ := h
  rw [namedImports_ofOutline]
  refine ⟨⟨item.name, item.asName, item.nameStart, record⟩, List.mem_flatMap.2 ⟨_, hst, ?_⟩, rfl, rfl, rfl⟩
  exact List.mem_append_right _ (List.mem_map.2 ⟨item, hitem, rfl⟩)

/-- A variable that is exported is one of the local exports. -/
theorem mem_localExports (h : o.Exports localName name) (unnamed : Text) :
    ∃ e ∈ (ofOutline o unnamed).localExports, e.name = name ∧ e.localName = localName := by
  obtain ⟨hown, range, items, hst, item, hitem, rfl, rfl⟩ := h
  obtain ⟨i, hstatement⟩ := exists_extends_ofOutline hst unnamed
  obtain ⟨i', hclause⟩ := exists_extends_foldl (extends_addClauseItem (o.statements.flatMap importsOf)) hitem i
  refine ⟨⟨item.asName, item.name, item.asStart⟩, (hclause.trans hstatement).locals ?_, rfl, rfl⟩
  simp [addClauseItem, imported?_eq_none hown]

/-- A name that is passed on is one of the re-exports. -/
theorem mem_reExports (h : o.PassesOn record name asName) (unnamed : Text) :
    ∃ e ∈ (ofOutline o unnamed).reExports, e.name = asName ∧ e.importName = name ∧ e.record = record := by
  obtain ⟨range, items, hst, item, hitem, rfl, rfl⟩ := h
  obtain ⟨i, hstatement⟩ := exists_extends_ofOutline hst unnamed
  refine ⟨⟨item.asName, item.name, item.asStart, record⟩, hstatement.passedOn ?_, rfl, rfl, rfl⟩
  exact List.mem_append_right _ (List.mem_map.2 ⟨item, hitem, rfl⟩)

end Interface

/-! ### Modules of sources -/

/-- A module of a graph is compiled from a source with an outline. -/
structure Graph.Holds (g : Graph) (m : ModuleId) (s : Source) (o : Outline) : Prop where
  read : Outline.read s = .ok o
  compiled : (g.node m).compiled = (compile s (some .script)).toOption

namespace Graph

variable {g : Graph} {m i : ModuleId} {s : Source} {e : ReExport} {n w : Text}

/-- The interface of a module is that of its outline. -/
theorem Holds.interface (h : g.Holds m s o) :
    g.interface m = Interface.ofOutline o (GeneratedNames.ofOutline o).unnamed := by
  rw [Graph.interface, Node.interface, h.compiled, compile, h.read]
  rfl

/-- A module that holds a source is there. -/
theorem Holds.lt_length (h : g.Holds m s o) : m < g.length := by
  by_contra hm
  have hnone : (g.node m).compiled = none := by
    simp [node, List.getElem?_eq_none (Nat.le_of_not_lt hm)]
  rw [h.compiled, compile, h.read] at hnone
  cases hnone

/-- The record of a module that is there is one of those that modules come with. -/
theorem Holds.getElem?_deps (h : g.Holds m s o) (hdep : g.dep i record = m) : (g.deps i)[record]? = some m := by
  cases hrecord : (g.deps i)[record]? with
  | some d => rw [← hdep, dep, List.getD_eq_getElem?_getD, hrecord, Option.getD_some]
  | none =>
      rw [dep, List.getD_eq_getElem?_getD, hrecord, Option.getD_none] at hdep
      exact absurd h.lt_length (by simp [hdep])

/-- No name is exported twice. -/
theorem Holds.nodup (h : g.Holds m s o) : (g.interface m).explicitExportNames.Nodup := by
  rw [h.interface]
  exact (Interface.explicitExportNames_perm o _).nodup_iff.2 (Outline.names_nodup (Outline.read_scan h.read).2)

/-- A module exports the variables of its clauses. -/
theorem Holds.exportsLocally (h : g.Holds m s o) (hexport : o.Exports localName name) :
    g.exportsLocally m name = true := by
  obtain ⟨e, he, hname, -⟩ := Interface.mem_localExports hexport (GeneratedNames.ofOutline o).unnamed
  rw [Graph.exportsLocally, h.interface]
  exact List.any_eq_true.2 ⟨e, he, by simpa using hname⟩

/-- A module passes on the names of its clauses. -/
theorem Holds.reExport? (h : g.Holds i s o) (hpass : o.PassesOn record n w) :
    g.exportsLocally i w = false ∧ ∃ e, g.reExport? i w = some e ∧ e.importName = n ∧ e.record = record := by
  obtain ⟨e, he, hname, hn, hrecord⟩ := Interface.mem_reExports hpass (GeneratedNames.ofOutline o).unnamed
  rw [← h.interface] at he
  have hnodup := List.nodup_append.1 h.nodup
  constructor
  · rw [Graph.exportsLocally, ← Bool.not_eq_true, List.any_eq_true]
    rintro ⟨e', he', hname'⟩
    exact hnodup.2.2 _ (List.mem_map_of_mem he') _ (List.mem_map_of_mem he) (by simpa [hname] using hname')
  · obtain ⟨e', hfound⟩ := Option.isSome_iff_exists.1
      (List.find?_isSome.2 ⟨e, he, decide_eq_true hname⟩ : ((g.interface i).reExports.find? (·.name = w)).isSome)
    have hname' : e'.name = w := by simpa using List.find?_some hfound
    obtain rfl := List.inj_on_of_nodup_map hnodup.2.1 (List.mem_of_find?_eq_some hfound) he (hname'.trans hname.symm)
    exact ⟨e', hfound, hn, hrecord⟩

/-! ### What names stand for -/

/-- A variable that a module exports is what its name stands for. -/
theorem resolve_of_exportsLocally (h : g.exportsLocally m n = true) : g.resolve m n = .found (.slot m n) := by
  rw [resolve, follow]
  simp [h]

/-- A name that is passed on stands for the variable that the other module exports. -/
theorem resolve_of_reExport (hlocal : g.exportsLocally i w = false) (he : g.reExport? i w = some e)
    (hstar : e.importName ≠ Interface.star) (h : g.exportsLocally (g.dep i e.record) e.importName = true) :
    g.resolve i w = .found (.slot (g.dep i e.record) e.importName) := by
  have hway : ¬ [(i, w)].contains (g.dep i e.record, e.importName) := by
    simp only [List.contains_cons, List.contains_nil, Bool.or_false, beq_iff_eq, Prod.mk.injEq, not_and]
    intro hd hn
    rw [hd, hn, hlocal] at h
    cases h
  rw [resolve, follow]
  simp only [List.contains_nil, Bool.false_eq_true, dite_false, hlocal, if_false]
  split
  · rename_i e' he'
    obtain rfl := Option.some.inj (he.symm.trans he')
    rw [if_neg hstar, follow, dif_neg hway, if_pos h]
  · rename_i he'
    cases he.symm.trans he'

/-- The star that is passed on stands for the namespace of the other module. -/
theorem resolve_of_star (hlocal : g.exportsLocally i w = false) (he : g.reExport? i w = some e)
    (hstar : e.importName = Interface.star) : g.resolve i w = .found (.whole (g.dep i e.record)) := by
  rw [resolve, follow]
  simp only [List.contains_nil, Bool.false_eq_true, dite_false, hlocal, if_false]
  split
  · rename_i e' he'
    obtain rfl := Option.some.inj (he.symm.trans he')
    exact if_pos hstar
  · rename_i he'
    cases he.symm.trans he'

end Graph

/-! ### Connections -/

namespace Bindings

variable {b : Bindings} {g : Graph} {m i : ModuleId} {n z : Text} {watcher : Watcher}

/-- Has a variable follow an export: the variable is told of every value from now on, and gets the present
one at once if there is one. -/
def subscribe (b : Bindings) (m : ModuleId) (name : Text) (watcher : Watcher) : Bindings :=
  match (b.addWatcher m name watcher).valueOf m name with
  | .ok v => (b.addWatcher m name watcher).deliver watcher v
  | .error _ => b.addWatcher m name watcher

/-- A variable that follows an export is one of those that are told of its values, and it is given no
namespace. -/
theorem watchers_subscribe (b : Bindings) (m : ModuleId) (n : Text) (watcher : Watcher) :
    ((b.subscribe m n watcher).slot m n).watchers = (b.slot m n).watchers ++ [watcher] ∧
      (b.subscribe m n watcher).namespaces = b.namespaces := by
  have hadded : ((b.addWatcher m n watcher).slot m n).watchers = (b.slot m n).watchers ++ [watcher] := by
    rw [addWatcher, slot_updateSlot_self]
  unfold subscribe
  split
  · exact ⟨hadded, rfl⟩
  · exact ⟨hadded, rfl⟩

/-- An import of a variable that another module exports follows the export. -/
theorem watch_of_exportsLocally (hdep : (g.deps i)[record]? = some m) (hstar : n ≠ Interface.star)
    (h : g.exportsLocally m n = true) (z : Text) (b : Bindings) :
    b.watch g i record n z = (b.subscribe m n ⟨i, z⟩, .ok ()) := by
  have hadded : (b.updateSlot m n fun s => { s with watchers := s.watchers ++ [⟨i, z⟩] }) = b.addWatcher m n ⟨i, z⟩ := rfl
  unfold watch subscribe
  simp only [hdep, if_neg hstar, Graph.resolve_of_exportsLocally h, h, if_true, hadded]
  cases (b.addWatcher m n ⟨i, z⟩).valueOf m n with
  | ok v => rfl
  | error _ => rfl

end Bindings

/-- **A name is a text, unless it is the star.**  Let a module be compiled from a source that exports a
variable of its own under a name, and another module from a source that imports the name from it or passes
it on.  Then connecting the import has its variable follow the export, and the name that is passed on stands
for the export. -/
theorem names_connect {g : Graph} {m i : ModuleId} {sm si : Source} {om oi : Outline} {x n : Text}
    (exporter : g.Holds m sm om) (importer : g.Holds i si oi) (exports : om.Exports x n)
    (hstar : n ≠ Interface.star) :
    g.resolve m n = .found (.slot m n) ∧
    (∀ record z, oi.Imports record n z → g.dep i record = m →
      (∃ e ∈ (g.interface i).namedImports, e.importName = n ∧ e.localName = z ∧ e.record = record) ∧
      ∀ b : Bindings, b.watch g i record n z = (b.subscribe m n ⟨i, z⟩, .ok ())) ∧
    ∀ record w, oi.PassesOn record n w → g.dep i record = m → g.resolve i w = .found (.slot m n) := by
  have hlocal := exporter.exportsLocally exports
  refine ⟨Graph.resolve_of_exportsLocally hlocal, fun record z himport hdep => ⟨?_, ?_⟩, fun record w hpass hdep => ?_⟩
  · rw [importer.interface]
    exact Interface.mem_namedImports himport _
  · exact Bindings.watch_of_exportsLocally (exporter.getElem?_deps hdep) hstar hlocal z
  · obtain ⟨hnot, e, he, rfl, rfl⟩ := importer.reExport? hpass
    subst hdep
    exact Graph.resolve_of_reExport hnot he hstar hlocal

/-! ### A name with a blank, and the star -/

/-- A module that exports its variable `x` under a name. -/
def exporterOf (name : Text) : Source :=
  { contents := "let x;export\x7bx as'" ++ name ++ Text.ofString "'\x7d" }

/-- A module that imports a name as `z`, and passes it on as `w`. -/
def importerOf (name : Text) : Source :=
  { contents := "import\x7b'" ++ name ++ Text.ofString "'as z\x7dfrom'm';export\x7b'" ++ name
      ++ Text.ofString "'as w\x7dfrom'm'" }

/-- Module `0` exports a name, and module `1` imports it and passes it on. -/
def pairOf (name : Text) : Graph :=
  [{ path := "m", compiled := (compile (exporterOf name) (some .script)).toOption },
    { path := "i", compiled := (compile (importerOf name) (some .script)).toOption, deps := [0] }]

/-- A source whose statements are known can be read. -/
theorem exists_read {s : Source} {sts : List Statement}
    (h : (Outline.read s).toOption.map (·.statements) = some sts) : ∃ o, Outline.read s = .ok o ∧ o.statements = sts := by
  cases hread : Outline.read s with
  | error fs => rw [hread] at h; cases h
  | ok o =>
      rw [hread] at h
      exact ⟨o, rfl, Option.some.inj h⟩

/-- What the sources say of the name. -/
structure Clauses (name : Text) (om oi : Outline) : Prop where
  exporter : (pairOf name).Holds 0 (exporterOf name) om
  importer : (pairOf name).Holds 1 (importerOf name) oi
  exports : om.Exports "x" name
  imports : oi.Imports 0 name "z"
  passesOn : oi.PassesOn 0 name "w"

theorem exists_clauses {name : Text} {r r₁ r₂ : Range} {k₁ k₂ k₃ k₄ k₅ k₆ : Nat}
    (hm : (Outline.read (exporterOf name)).toOption.map (·.statements) =
      some [.exportClause r [⟨[120], name, k₁, k₂⟩]])
    (hi : (Outline.read (importerOf name)).toOption.map (·.statements) =
      some [.imports r₁ 0 none none [⟨name, [122], k₃, k₄⟩], .exportFrom r₂ 0 [⟨name, [119], k₅, k₆⟩]]) :
    ∃ om oi, Clauses name om oi := by
  obtain ⟨om, hom, hsm⟩ := exists_read hm
  obtain ⟨oi, hoi, hsi⟩ := exists_read hi
  refine ⟨om, oi, ⟨hom, by simp [pairOf, Graph.node]⟩, ⟨hoi, by simp [pairOf, Graph.node]⟩, ⟨?_, ?_⟩, ?_, ?_⟩
  · simp [Outline.importedNames, hsm, Outline.importedBy]
  · exact ⟨_, _, by rw [hsm]; exact List.mem_cons_self, _, List.mem_cons_self, rfl, rfl⟩
  · exact ⟨_, _, _, _, by rw [hsi]; exact List.mem_cons_self, _, List.mem_cons_self, rfl, rfl⟩
  · exact ⟨_, _, by rw [hsi]; exact List.mem_cons_of_mem _ List.mem_cons_self, _, List.mem_cons_self, rfl, rfl⟩

/-- A name with a blank connects the import to the export. -/
theorem names_connect_blank :
    (∃ om oi, Clauses "a b" om oi) ∧ Text.ofString "a b" ≠ Interface.star ∧
      (pairOf "a b").resolve 1 "w" = .found (.slot 0 "a b") ∧
      ∀ b : Bindings, b.watch (pairOf "a b") 1 0 "a b" "z" = (b.subscribe 0 "a b" ⟨1, "z"⟩, .ok ()) := by
  have hm : (Outline.read (exporterOf "a b")).toOption.map (·.statements) =
      some [.exportClause ⟨6, 17⟩ [⟨[120], "a b", 13, 17⟩]] := by decide +kernel
  have hi : (Outline.read (importerOf "a b")).toOption.map (·.statements) =
      some [.imports ⟨0, 25⟩ 0 none none [⟨"a b", [122], 7, 15⟩],
        .exportFrom ⟨25, 24⟩ 0 [⟨"a b", [119], 32, 40⟩]] := by decide +kernel
  obtain ⟨om, oi, h⟩ := exists_clauses hm hi
  have hdep : (pairOf "a b").dep 1 0 = 0 := by simp [pairOf, Graph.dep, Graph.deps, Graph.node]
  obtain ⟨-, himports, hpasses⟩ := names_connect h.exporter h.importer h.exports (by decide)
  exact ⟨⟨om, oi, h⟩, by decide, hpasses 0 "w" h.passesOn hdep, (himports 0 "z" h.imports hdep).2⟩

/-- An export under the name of the star is not found: linking is content, but those who ask for the name
get the namespace instead, and no variable follows the export. -/
theorem star_connects_namespace :
    (∃ om oi, Clauses "*" om oi) ∧
      (pairOf "*").linkError? 0 = none ∧ (pairOf "*").linkError? 1 = none ∧
      (pairOf "*").resolve 1 "w" = .found (.whole 0) ∧
      ∀ b : Bindings, (b.watch (pairOf "*") 1 0 "*" "z").1.slots = b.slots := by
  have hm : (Outline.read (exporterOf "*")).toOption.map (·.statements) =
      some [.exportClause ⟨6, 15⟩ [⟨[120], "*", 13, 17⟩]] := by decide +kernel
  have hi : (Outline.read (importerOf "*")).toOption.map (·.statements) =
      some [.imports ⟨0, 23⟩ 0 none none [⟨"*", [122], 7, 13⟩],
        .exportFrom ⟨23, 22⟩ 0 [⟨"*", [119], 30, 36⟩]] := by decide +kernel
  obtain ⟨om, oi, h⟩ := exists_clauses hm hi
  have hdep : (pairOf "*").dep 1 0 = 0 := by simp [pairOf, Graph.dep, Graph.deps, Graph.node]
  refine ⟨⟨om, oi, h⟩, by decide +kernel, by decide +kernel, ?_, fun b => ?_⟩
  · obtain ⟨hlocal, e, he, hn, hrecord⟩ := h.importer.reExport? h.passesOn
    have hwhole := Graph.resolve_of_star hlocal he hn
    rwa [hrecord, hdep] at hwhole
  · have hrecord : ((pairOf "*").deps 1)[0]? = some 0 := by simp [pairOf, Graph.deps, Graph.node]
    have hnamespace : (b.namespaceOf (pairOf "*") 0).1.slots = b.slots := by
      unfold Bindings.namespaceOf
      split <;> rfl
    rw [Bindings.watch]
    simp only [hrecord, Interface.star, if_true, Bindings.deliver]
    exact hnamespace

end ModuleSystem
