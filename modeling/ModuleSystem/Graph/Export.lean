import ModuleSystem.Graph

/-!
# What an exported name stands for

An exported name stands for a variable of the module, for what another module exports, or for the
namespace of another module.  `Graph.resolve` follows names from module to module; a name that
leads back to itself stands for nothing, and one that star exports provide twice is ambiguous.

A way from name to name ends because it comes to no place twice, and only so many places exist: the
names that modules pass on and the name asked for, each in any module (`length_placesOff_lt`).
-/

namespace ModuleSystem

/-- What an exported name stands for. -/
inductive Target where
  /-- The variable that a module exports under a name. -/
  | slot (owner : ModuleId) (name : Text)
  /-- The namespace of a module. -/
  | whole (owner : ModuleId)
deriving DecidableEq, Repr

namespace Target

/-- The module that a target belongs to. -/
def owner : Target → ModuleId
  | .slot owner _ => owner
  | .whole owner => owner

end Target

/-- What came of looking for a name. -/
inductive Lookup where
  | found (target : Target)
  | missing
  | ambiguous
deriving DecidableEq, Repr

namespace Lookup

/-- The target, if there is exactly one. -/
def target? : Lookup → Option Target
  | .found t => some t
  | _ => none

/-- What several modules provide together, given what was found before: nothing, one target that
all agree on, or too much. -/
def agree {α : Type} (look : α → Lookup) : Option Target → List α → Lookup
  | some t, [] => .found t
  | none, [] => .missing
  | before, m :: ms =>
    match look m with
    | .ambiguous => .ambiguous
    | .missing => agree look before ms
    | .found t =>
      match before with
      | none => agree look (some t) ms
      | some t' => if t' = t then agree look (some t') ms else .ambiguous

end Lookup

namespace Graph

/-- The exports of other modules that a module passes on, one by one. -/
def reExport? (g : Graph) (m : ModuleId) (name : Text) : Option ReExport :=
  (g.interface m).reExports.find? fun e => e.name = name

/-- The modules of which a module passes all exports on. -/
def stars (g : Graph) (m : ModuleId) : List ModuleId := (g.interface m).exportStars.map (g.dep m)

/-- The names under which modules ask others for the exports that they pass on. -/
def passedNames (g : Graph) : List Text :=
  List.flatMap (fun n : Node => n.interface.reExports.map (·.importName)) g

/-- Every place that a way which asks for `name` may come to: a module, and the name asked of it. -/
def places (g : Graph) (name : Text) : List (ModuleId × Text) :=
  (g.passedNames.insert name).flatMap fun n => (List.range g.length).map (·, n)

/-- The places where a way has not been yet. -/
def placesOff (g : Graph) (way : List (ModuleId × Text)) (name : Text) : List (ModuleId × Text) :=
  (g.places name).filter fun p => !way.contains p

/-- A module that is not in the graph exports nothing. -/
theorem interface_of_length_le {g : Graph} {m : ModuleId} (h : g.length ≤ m) :
    g.interface m = {} := by
  simp [interface, node, List.getElem?_eq_none h, Node.interface]

theorem lt_length_of_reExport? {g : Graph} {m : ModuleId} {name : Text} {e : ReExport}
    (h : g.reExport? m name = some e) : m < g.length := by
  by_cases hm : m < g.length
  · exact hm
  · simp [reExport?, interface_of_length_le (Nat.le_of_not_lt hm)] at h

theorem lt_length_of_mem_stars {g : Graph} {m d : ModuleId} (h : d ∈ g.stars m) :
    m < g.length := by
  by_cases hm : m < g.length
  · exact hm
  · simp [stars, interface_of_length_le (Nat.le_of_not_lt hm)] at h

theorem importName_mem_passedNames {g : Graph} {m : ModuleId} {name : Text} {e : ReExport}
    (h : g.reExport? m name = some e) : e.importName ∈ g.passedNames := by
  have hm := lt_length_of_reExport? h
  have hn : g.node m = g[m] := by simp [node, hm]
  refine List.mem_flatMap.2 ⟨g[m], List.getElem_mem hm, List.mem_map.2 ⟨e, ?_, rfl⟩⟩
  exact hn ▸ List.mem_of_find?_eq_some h

theorem mem_places {g : Graph} {m : ModuleId} (name : Text) (hm : m < g.length) :
    (m, name) ∈ g.places name :=
  List.mem_flatMap.2 ⟨name, List.mem_insert_self, List.mem_map.2 ⟨m, List.mem_range.2 hm, rfl⟩⟩

theorem places_sublist {g : Graph} {name next : Text} (h : next = name ∨ next ∈ g.passedNames) :
    (g.places next).Sublist (g.places name) := by
  rcases h with rfl | h
  · exact List.Sublist.refl _
  · unfold places
    rw [List.insert_of_mem h]
    by_cases hn : name ∈ g.passedNames
    · simp only [List.insert_of_mem hn, List.Sublist.refl]
    · rw [List.insert_of_not_mem hn, List.flatMap_cons]
      exact List.sublist_append_right _ _

/-- **A way that goes on has one place less to come to.** -/
theorem length_placesOff_lt {g : Graph} {way : List (ModuleId × Text)} {m : ModuleId}
    {name next : Text} (hm : m < g.length) (hway : ¬ way.contains (m, name))
    (hnext : next = name ∨ next ∈ g.passedNames) :
    (g.placesOff ((m, name) :: way) next).length < (g.placesOff way name).length := by
  -- the next name is one that modules pass on, so it adds no places
  have hle := ((places_sublist hnext).filter fun p => !((m, name) :: way).contains p).length_le
  have heq : ((g.places name).filter fun p => !((m, name) :: way).contains p) =
      (g.placesOff way name).filter fun p => p ≠ (m, name) := by
    simp [placesOff, List.filter_filter]
  have hlt : ((g.placesOff way name).filter fun p => p ≠ (m, name)).length
      < (g.placesOff way name).length := by
    refine List.length_filter_lt_length_iff_exists.2 ⟨(m, name), ?_, by simp⟩
    exact List.mem_filter.2 ⟨mem_places name hm, by simpa using hway⟩
  exact Nat.lt_of_le_of_lt hle (heq ▸ hlt)

/-- Follows a name, given the places on the way to it. -/
def follow (g : Graph) (way : List (ModuleId × Text)) (m : ModuleId) (name : Text) : Lookup :=
  if _hway : way.contains (m, name) then .missing
  else if g.exportsLocally m name then .found (.slot m name)
  else match _he : g.reExport? m name with
    | some e =>
      let d := g.dep m e.record
      if e.importName = Interface.star then .found (.whole d)
      else g.follow ((m, name) :: way) d e.importName
    | none =>
      if name = Interface.defaultName then .missing
      else Lookup.agree (fun d : { d // d ∈ g.stars m } => g.follow ((m, name) :: way) d.1 name)
        none (g.stars m).attach
termination_by (g.placesOff way name).length
decreasing_by
  · exact length_placesOff_lt (lt_length_of_reExport? _he) _hway
      (.inr (importName_mem_passedNames _he))
  · exact length_placesOff_lt (lt_length_of_mem_stars d.2) _hway (.inl rfl)

/-- What a name exported by a module stands for. The default export is never part of a star
export. -/
def resolve (g : Graph) (m : ModuleId) (name : Text) : Lookup := g.follow [] m name

/-- The names with a further one, unless it is among them or is the default name. -/
def addStarName (names : List Text) (name : Text) : List Text :=
  if name = Interface.defaultName || names.contains name then names else names ++ [name]

/-- The names that a module exports, with the modules seen so far; a module seen before adds
nothing. At most `fuel` modules are entered one from the other. -/
def collectNames (g : Graph) : Nat → List ModuleId → ModuleId → List Text × List ModuleId
  | 0, seen, _ => ([], seen)
  | fuel + 1, seen, m =>
    if seen.contains m then ([], seen)
    else (g.stars m).foldl (fun (names, seen) d =>
      let (more, seen) := g.collectNames fuel seen d
      (more.foldl addStarName names, seen)) ((g.interface m).explicitExportNames, m :: seen)

/-- Every name that a module exports. Names that star exports provide more than once are among
them, and fail only when resolved. -/
def exportedNames (g : Graph) (m : ModuleId) : List Text := (g.collectNames (g.length + 1) [] m).1

end Graph

end ModuleSystem
