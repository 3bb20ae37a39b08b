import Mathlib.Data.Finset.Card
import Mathlib.Data.Finset.Range
import Mathlib.Data.List.Nodup
import Mathlib.Logic.Relation
import ModuleSystem.Proofs.ExportTargets

/-!
# Every name that resolves is among the exported names

`Graph.exportedNames` follows star exports and comes to every module once, whatever the way, while
`Graph.resolve` follows each name along every way and only cuts a way that comes back.  The two agree on
what can be found: a name that stands for anything is an explicit name of some module that star exports
lead to (`StandsFor.named`), and all of these are collected (`collectNames_collects`).

* `Collects`: what one part of the walk adds to the modules seen and the names collected.
* `mem_exportedNames`: a name that resolves is among the exported names.
* `nodup_exportedNames`: no name is among them twice, unless a module itself exports it twice.
-/

namespace ModuleSystem

namespace Graph

variable {g : Graph} {m d x : ModuleId} {n name : Text} {names more : List Text}
  {seen seen' : List ModuleId}

/-! ### Adding the names of a star export -/

/-- A star export adds any name but the default. -/
theorem mem_addStarName :
    n ∈ addStarName names name ↔ n ∈ names ∨ n = name ∧ n ≠ Interface.defaultName := by
  rw [addStarName]
  split
  · rename_i h
    rw [Bool.or_eq_true, decide_eq_true_eq, List.contains_iff_mem] at h
    refine ⟨.inl, fun h' => h'.elim id ?_⟩
    rintro ⟨rfl, hn⟩
    exact h.resolve_left hn
  · rename_i h
    rw [Bool.or_eq_true, decide_eq_true_eq, not_or] at h
    rw [List.mem_append, List.mem_singleton]
    refine or_congr_right ⟨fun e => ⟨e, e ▸ h.1⟩, And.left⟩

/-- No name is added twice. -/
theorem nodup_addStarName (h : names.Nodup) : (addStarName names name).Nodup := by
  rw [addStarName]
  split
  · exact h
  · rename_i hc
    rw [Bool.or_eq_true, not_or, List.contains_iff_mem] at hc
    refine List.nodup_append.2 ⟨h, List.nodup_singleton _, fun a ha b hb e => hc.2 ?_⟩
    rwa [← List.mem_singleton.1 hb, ← e]

/-- Star exports add all names but the default. -/
theorem mem_foldl_addStarName :
    n ∈ more.foldl addStarName names ↔ n ∈ names ∨ n ∈ more ∧ n ≠ Interface.defaultName := by
  induction more generalizing names with
  | nil => simp
  | cons name more ih =>
      rw [List.foldl_cons, ih, mem_addStarName, List.mem_cons, or_assoc, or_and_right]

theorem nodup_foldl_addStarName (h : names.Nodup) : (more.foldl addStarName names).Nodup := by
  induction more generalizing names with
  | nil => exact h
  | cons name more ih => exact ih (nodup_addStarName h)

/-! ### Walking over star exports -/

/-- The modules of the graph that a walk has not seen. -/
def unseen (g : Graph) (seen : List ModuleId) : Finset ModuleId :=
  {x ∈ Finset.range g.length | x ∉ seen}

/-- With more modules seen there are no more unseen. -/
theorem card_unseen_le (h : seen ⊆ seen') : (g.unseen seen').card ≤ (g.unseen seen).card := by
  refine Finset.card_le_card fun x hx => ?_
  simp only [unseen, Finset.mem_filter] at hx ⊢
  exact ⟨hx.1, fun hs => hx.2 (h hs)⟩

/-- A module that is seen for the first time leaves fewer unseen. -/
theorem card_unseen_lt (hm : m < g.length) (hs : m ∉ seen) :
    (g.unseen (m :: seen)).card < (g.unseen seen).card := by
  refine Finset.card_lt_card ((Finset.ssubset_iff_of_subset fun x hx => ?_).2 ⟨m, ?_, ?_⟩)
  · simp only [unseen, Finset.mem_filter, List.mem_cons, not_or] at hx ⊢
    exact ⟨hx.1, hx.2.2⟩
  · simpa [unseen] using ⟨hm, hs⟩
  · simp [unseen]

/-- No module exports a name of its own twice. -/
def NamesDiffer (g : Graph) : Prop := ∀ n ∈ g, n.interface.explicitExportNames.Nodup

instance (g : Graph) : Decidable g.NamesDiffer :=
  inferInstanceAs (Decidable (∀ n ∈ g, n.interface.explicitExportNames.Nodup))

theorem NamesDiffer.nodup (h : g.NamesDiffer) (m : ModuleId) :
    (g.interface m).explicitExportNames.Nodup := by
  by_cases hm : m < g.length
  · rw [interface, node, List.getElem?_eq_getElem hm]
    exact h _ (List.getElem_mem hm)
  · rw [interface_of_length_le (Nat.le_of_not_lt hm)]
    exact List.nodup_nil

/-- What a walk from `m` over star exports adds to the modules in `seen`: the names of every module that
it sees first, the default name only of `m` itself. -/
structure Collects (g : Graph) (seen : List ModuleId) (m : ModuleId) (names : List Text)
    (seen' : List ModuleId) : Prop where
  subset : seen ⊆ seen'
  self : m ∈ seen'
  closed : ∀ x ∈ seen', x ∉ seen → ∀ d ∈ g.stars x, d ∈ seen'
  named : ∀ x ∈ seen', x ∉ seen → ∀ n ∈ (g.interface x).explicitExportNames,
    x = m ∨ n ≠ Interface.defaultName → n ∈ names
  nodup : g.NamesDiffer → names.Nodup

/-- What holds while a walk from `m` goes over the star exports of `m`, when it is through with those
in `passed`. -/
structure Collecting (g : Graph) (seen : List ModuleId) (m : ModuleId) (passed : List ModuleId)
    (names : List Text) (seen' : List ModuleId) : Prop where
  subset : m :: seen ⊆ seen'
  passed : passed ⊆ seen'
  closed : ∀ x ∈ seen', x ∉ seen → x ≠ m → ∀ d ∈ g.stars x, d ∈ seen'
  named : ∀ x ∈ seen', x ∉ seen → ∀ n ∈ (g.interface x).explicitExportNames,
    x = m ∨ n ≠ Interface.defaultName → n ∈ names
  nodup : g.NamesDiffer → names.Nodup

theorem Collecting.start (g : Graph) (seen : List ModuleId) (m : ModuleId) :
    Collecting g seen m [] (g.interface m).explicitExportNames (m :: seen) where
  subset := List.Subset.refl _
  passed := List.nil_subset _
  closed x hx hs hm := by
    rcases List.mem_cons.1 hx with e | hx
    · exact absurd e hm
    · exact absurd hx hs
  named x hx hs n hn _ := by
    rcases List.mem_cons.1 hx with rfl | hx
    · exact hn
    · exact absurd hx hs
  nodup h := h.nodup m

/-- The names of one more star export are added to those collected so far. -/
theorem Collecting.step {passed : List ModuleId} {seen'' : List ModuleId}
    (h : Collecting g seen m passed names seen') (hd : Collects g seen' d more seen'') :
    Collecting g seen m (passed ++ [d]) (more.foldl addStarName names) seen'' where
  subset := List.Subset.trans h.subset hd.subset
  passed x hx := by
    rcases List.mem_append.1 hx with hx | hx
    · exact hd.subset (h.passed hx)
    · exact List.mem_singleton.1 hx ▸ hd.self
  closed x hx hs hm := by
    by_cases hx' : x ∈ seen'
    · exact fun d hd' => hd.subset (h.closed x hx' hs hm d hd')
    · exact hd.closed x hx hx'
  named x hx hs n hn hdefault := by
    rw [mem_foldl_addStarName]
    by_cases hx' : x ∈ seen'
    · exact .inl (h.named x hx' hs n hn hdefault)
    · -- a module seen first now is not `m`, so it does not provide the default name
      have hxm : x ≠ m := by
        rintro rfl
        exact hx' (h.subset List.mem_cons_self)
      have hn' := hdefault.resolve_left hxm
      exact .inr ⟨hd.named x hx hx' n hn (.inr hn'), hn'⟩
  nodup hg := nodup_foldl_addStarName (h.nodup hg)

/-- One step of the walk over the star exports of a module. -/
def collectStep (g : Graph) (fuel : Nat) (p : List Text × List ModuleId) (d : ModuleId) :
    List Text × List ModuleId :=
  ((g.collectNames fuel p.2 d).1.foldl addStarName p.1, (g.collectNames fuel p.2 d).2)

/-- A module that was seen adds nothing. -/
theorem collectNames_of_mem {fuel : Nat} (h : m ∈ seen) :
    g.collectNames (fuel + 1) seen m = ([], seen) := by
  rw [collectNames, if_pos (by simpa using h)]

/-- A module that was not adds its own names, and those of its star exports. -/
theorem collectNames_of_notMem {fuel : Nat} (h : m ∉ seen) :
    g.collectNames (fuel + 1) seen m =
      (g.stars m).foldl (g.collectStep fuel) ((g.interface m).explicitExportNames, m :: seen) := by
  rw [collectNames, if_neg (by simpa using h)]
  rfl

/-- The star exports are collected one after the other. -/
theorem collecting_foldl {fuel : Nat} (ds : List ModuleId) {passed : List ModuleId}
    {p : List Text × List ModuleId}
    (hd : ∀ s, ∀ d ∈ ds, m :: seen ⊆ s →
      Collects g s d (g.collectNames fuel s d).1 (g.collectNames fuel s d).2)
    (h : Collecting g seen m passed p.1 p.2) :
    Collecting g seen m (passed ++ ds) (ds.foldl (g.collectStep fuel) p).1
      (ds.foldl (g.collectStep fuel) p).2 := by
  induction ds generalizing passed p with
  | nil => rwa [List.append_nil]
  | cons d ds ih =>
      rw [List.foldl_cons, List.append_cons]
      refine ih (fun s x hx => hd s x (List.mem_cons_of_mem _ hx)) ?_
      exact h.step (hd p.2 d List.mem_cons_self h.subset)

/-- **The walk collects the names of all modules that star exports lead to**, if it may go as deep as
there are modules that it has not seen. -/
theorem collectNames_collects (fuel : Nat) (seen : List ModuleId) (m : ModuleId)
    (hf : (g.unseen seen).card < fuel) :
    Collects g seen m (g.collectNames fuel seen m).1 (g.collectNames fuel seen m).2 := by
  induction fuel generalizing seen m with
  | zero => exact absurd hf (Nat.not_lt_zero _)
  | succ fuel ih =>
      by_cases hm : m ∈ seen
      · rw [collectNames_of_mem hm]
        exact ⟨List.Subset.refl _, hm, fun x hx hs => absurd hx hs, fun x hx hs => absurd hx hs,
          fun _ => List.nodup_nil⟩
      · rw [collectNames_of_notMem hm]
        have deeper : ∀ s, ∀ d ∈ g.stars m, m :: seen ⊆ s →
            Collects g s d (g.collectNames fuel s d).1 (g.collectNames fuel s d).2 := by
          intro s d hd hs
          refine ih s d ?_
          calc (g.unseen s).card
            _ ≤ (g.unseen (m :: seen)).card := card_unseen_le hs
            _ < (g.unseen seen).card := card_unseen_lt (lt_length_of_mem_stars hd) hm
            _ ≤ fuel := Nat.le_of_lt_succ hf
        have h := collecting_foldl (p := ((g.interface m).explicitExportNames, m :: seen))
          (g.stars m) deeper (.start g seen m)
        refine ⟨fun x hx => h.subset (List.mem_cons_of_mem _ hx), h.subset List.mem_cons_self,
          fun x hx hs d hd => ?_, h.named, h.nodup⟩
        by_cases hxm : x = m
        · exact h.passed (hxm ▸ hd)
        · exact h.closed x hx hs hxm d hd

/-- The names of a module are collected from nothing seen. -/
theorem exportedNames_collects (g : Graph) (m : ModuleId) :
    ∃ seen, Collects g [] m (g.exportedNames m) seen := by
  refine ⟨_, collectNames_collects (g.length + 1) [] m (Nat.lt_succ_of_le ?_)⟩
  calc (g.unseen []).card
    _ ≤ (Finset.range g.length).card := Finset.card_le_card (Finset.filter_subset _ _)
    _ = g.length := Finset.card_range _

/-! ### Names that stand for something -/

/-- Star exports lead from a module to another one. -/
def StarReaches (g : Graph) : ModuleId → ModuleId → Prop :=
  Relation.ReflTransGen fun x d => d ∈ g.stars x

/-- A name that stands for anything is an explicit name of a module that star exports lead to; if it is
the default name, it is one of the module itself. -/
theorem StandsFor.named {p : ModuleId × Text} {t : Target} (h : g.StandsFor p t) :
    ∃ x, g.StarReaches p.1 x ∧ p.2 ∈ (g.interface x).explicitExportNames ∧
      (x = p.1 ∨ p.2 ≠ Interface.defaultName) := by
  have ofReExport : ∀ {m : ModuleId} {name : Text} {e : ReExport}, g.reExport? m name = some e →
      name ∈ (g.interface m).explicitExportNames := by
    intro m name e he
    have hname : e.name = name := by simpa using List.find?_some he
    exact List.mem_append_right _ (List.mem_map.2 ⟨e, List.mem_of_find?_eq_some he, hname⟩)
  induction h with
  | here h =>
      cases h with
      | slot hl =>
          obtain ⟨e, he, hname⟩ := List.any_eq_true.1 hl
          exact ⟨_, .refl, List.mem_append_left _ (List.mem_map.2 ⟨e, he, by simpa using hname⟩),
            .inl rfl⟩
      | whole _ he => exact ⟨_, .refl, ofReExport he, .inl rfl⟩
  | onward h _ ih =>
      cases h with
      | reExport _ he => exact ⟨_, .refl, ofReExport he, .inl rfl⟩
      | star _ _ hn hd =>
          obtain ⟨x, hx, hname, -⟩ := ih
          exact ⟨x, .head hd hx, hname, .inr hn⟩

/-- **A name that resolves is among the exported names.** -/
theorem mem_exportedNames {t : Target} (h : g.resolve m name = .found t) :
    name ∈ g.exportedNames m := by
  obtain ⟨x, hx, hname, hdefault⟩ := (standsFor_of_resolve h).named
  obtain ⟨seen, collects⟩ := g.exportedNames_collects m
  have hseen : x ∈ seen := by
    clear hname hdefault
    induction hx with
    | refl => exact collects.self
    | tail _ hd ih => exact collects.closed _ ih List.not_mem_nil _ hd
  exact collects.named x hseen List.not_mem_nil name hname hdefault

/-- No name is exported twice. -/
theorem nodup_exportedNames (h : g.NamesDiffer) (m : ModuleId) : (g.exportedNames m).Nodup := by
  obtain ⟨seen, collects⟩ := g.exportedNames_collects m
  exact collects.nodup h

end Graph

end ModuleSystem
