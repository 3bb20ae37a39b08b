import Mathlib.Data.List.Nodup
import ModuleSystem.Proofs.Imports
import ModuleSystem.Script

/-!
# Live bindings — no update is lost

An import that stands for a variable of another module holds the present value of that variable.  The
value comes in one of three ways: it is handed on when the exporting module is instantiated, it is
taken when the importing module connects its imports, or it is handed on after an assignment; and in a
cycle either module may be the first.

`Bindings.Wired` says what holds in between: the getters and watchers that are there are those of the
modules and imports that have come so far, and an import that is connected holds the value that is
offered, unless it is *stale* because the exporting module has not handed on its values yet.

* `Wired.deliver`, `Wired.push`, `Wired.pushAll`: handing values on leaves no import of the module stale.
* `Wired.assign`, `Wired.bind`: an assignment, or new variables, leave only imports of the module stale.
* `Wired.watch`, `Wired.watchAll`: an import that is connected is not stale.
* `LiveStep`: what a host does that hands every value on.  However it does so, no import is stale
  afterwards (`Live.connect`, `live_run`, `Proper.live`), and so every import holds what it should
  (`Proper.upToDate`).
-/

namespace ModuleSystem

namespace Table

/-- A value that is looked up is changed like all of them. -/
theorem lookup_map {α β : Type} [BEq α] (f : β → β) (t : List (α × β)) (k : α) :
    (t.map fun (k, v) => (k, f v)).lookup k = (t.lookup k).map f := by
  induction t with
  | nil => rfl
  | cons p t ih =>
      rw [List.map_cons, List.lookup_cons, List.lookup_cons, ih]
      cases k == p.1 <;> rfl

variable {α β : Type} [BEq α] [LawfulBEq α] {k k' : α} {f : Option β → β} {t : List (α × β)}

/-- A key that is altered has its new value. -/
theorem lookup_alter_self : (alter k f t).lookup k = some (f (t.lookup k)) := by
  induction t with
  | nil => simp [alter]
  | cons p t ih =>
      obtain ⟨a, b⟩ := p
      rw [alter]
      by_cases h : a = k
      · subst h
        simp
      · have h' : (k == a) = false := beq_false_of_ne (Ne.symm h)
        simp only [beq_false_of_ne h, Bool.false_eq_true, if_false, List.lookup_cons, h', ih]

/-- The other keys keep theirs. -/
theorem lookup_alter_of_ne (h : k' ≠ k) : (alter k f t).lookup k' = t.lookup k' := by
  induction t with
  | nil => simp [alter, List.lookup_cons, beq_false_of_ne h]
  | cons p t ih =>
      obtain ⟨a, b⟩ := p
      rw [alter]
      split
      · rename_i hp
        simp only [List.lookup_cons, eq_of_beq hp, beq_false_of_ne h]
      · simp only [List.lookup_cons, ih]

end Table

/-! ### What imports stand for -/

namespace Graph

/-- The variable that a module exports under a name.  Of several exports under that name the last one
counts. -/
def exportedVariable (g : Graph) (m : ModuleId) (name : Text) : Option Text :=
  ((g.interface m).localExports.reverse.find? (·.name = name)).map (·.localName)

/-- A variable of a module stands for an import, and that is what another module exports under a
name. -/
def Links (g : Graph) (w : Watcher) (owner : ModuleId) (name : Text) : Prop :=
  ∃ i ∈ (g.interface w.importer).namedImports, i.localName = w.localName ∧
    i.importName ≠ Interface.star ∧
    g.resolve (g.dep w.importer i.record) i.importName = .found (.slot owner name)

/-- Every import is from a record of its module, and has a variable of its own. -/
def ImportsFit (g : Graph) : Prop :=
  ∀ n ∈ g, (∀ i ∈ n.interface.namedImports, i.record < n.deps.length) ∧
    (n.interface.namedImports.map (·.localName)).Nodup

instance (g : Graph) : Decidable g.ImportsFit :=
  inferInstanceAs (Decidable (∀ n ∈ g, _ ∧ _))

variable {g : Graph} {m owner owner' : ModuleId} {name name' : Text} {w : Watcher}

/-- The imports of a module fit its own records. -/
theorem ImportsFit.node (h : g.ImportsFit) (m : ModuleId) :
    (∀ i ∈ (g.interface m).namedImports, i.record < (g.deps m).length) ∧
      ((g.interface m).namedImports.map (·.localName)).Nodup := by
  rw [interface, deps, Graph.node]
  by_cases hm : m < g.length
  · rw [List.getElem?_eq_getElem hm]
    exact h _ (List.getElem_mem hm)
  · rw [List.getElem?_eq_none (Nat.le_of_not_lt hm)]
    decide

theorem ImportsFit.record (h : g.ImportsFit) {i : NamedImport}
    (hi : i ∈ (g.interface m).namedImports) : i.record < (g.deps m).length :=
  (h.node m).1 i hi

theorem ImportsFit.own (h : g.ImportsFit) (m : ModuleId) :
    ((g.interface m).namedImports.map (·.localName)).Nodup :=
  (h.node m).2

/-- A local name belongs to one import. -/
theorem ImportsFit.eq (h : g.ImportsFit) {i j : NamedImport} (hi : i ∈ (g.interface m).namedImports)
    (hj : j ∈ (g.interface m).namedImports) (e : i.localName = j.localName) : i = j :=
  List.inj_on_of_nodup_map (h.own m) hi hj e

/-- An import stands for one thing at most. -/
theorem Links.unique (fit : g.ImportsFit) (h : g.Links w owner name) (h' : g.Links w owner' name') :
    owner = owner' ∧ name = name' := by
  obtain ⟨i, hi, hw, -, hr⟩ := h
  obtain ⟨j, hj, hw', -, hr'⟩ := h'
  obtain rfl := fit.eq hi hj (hw.trans hw'.symm)
  rw [hr] at hr'
  cases hr'
  exact ⟨rfl, rfl⟩

/-- What an import stands for is exported. -/
theorem Links.exports (h : g.Links w owner name) :
    ∃ e ∈ (g.interface owner).localExports, e.name = name := by
  obtain ⟨i, -, -, -, hr⟩ := h
  have declared : g.exportsLocally owner name = true := present_of_resolve hr
  simpa [exportsLocally] using declared

/-- A variable that is exported is one of the local exports. -/
theorem mem_of_exportedVariable {var : Text} (h : g.exportedVariable m name = some var) :
    ∃ e ∈ (g.interface m).localExports, e.localName = var := by
  obtain ⟨e, he, rfl⟩ := Option.map_eq_some_iff.1 h
  exact ⟨e, List.mem_reverse.1 (List.mem_of_find?_eq_some he), rfl⟩

end Graph

/-! ### What variables hold -/

namespace Bindings

variable {b b' : Bindings} {g : Graph} {m m' : ModuleId} {n n' x x' : Text} {v : Value}
  {w w' : Watcher}

/-- The value of a variable of a module; none before it is initialized. -/
def value? (b : Bindings) (m : ModuleId) (x : Text) : Option Value :=
  (b.instance? m).bind (·.locals.lookup x)

/-- The value of a variable that stands for an import; none if it was never assigned. -/
def held (b : Bindings) (w : Watcher) : Option Value :=
  ((b.instance? w.importer).bind (·.imports.lookup w.localName)).map (·.value)

/-- The value that the slot of an export offers. -/
def offered (b : Bindings) (m : ModuleId) (n : Text) : Option Value := (b.valueOf m n).toOption

/-- What a slot offers is what its getter gives. -/
theorem offered_eq : b.offered m n = (b.slot m n).getter.bind fun
    | .constant v => some v
    | .variableNamed x => b.value? m x := by
  rw [offered, valueOf]
  cases (b.slot m n).getter with
  | none => rfl
  | some getter =>
      cases getter with
      | constant v => rfl
      | variableNamed x =>
          simp only [value?, Option.bind_some]
          cases (b.instance? m).bind (·.locals.lookup x) <;> rfl

/-- A getter of a variable offers the variable. -/
theorem offered_of_getter (h : (b.slot m n).getter = some (.variableNamed x)) :
    b.offered m n = b.value? m x := by
  rw [offered_eq, h]
  rfl

/-- What is offered depends on the getter and the variables only. -/
theorem offered_congr (hg : (b'.slot m n).getter = (b.slot m n).getter)
    (hv : ∀ x, b'.value? m x = b.value? m x) : b'.offered m n = b.offered m n := by
  simp only [offered_eq, hg, hv]

/-- The slot that is updated is updated. -/
theorem slot_updateSlot_self {f : Slot → Slot} : (b.updateSlot m n f).slot m n = f (b.slot m n) := by
  rw [slot, updateSlot, Table.lookup_alter_self]
  rfl

/-- The other slots are not. -/
theorem slot_updateSlot_of_ne {f : Slot → Slot} (h : (m', n') ≠ (m, n)) :
    (b.updateSlot m n f).slot m' n' = b.slot m' n' := by
  rw [slot, updateSlot, Table.lookup_alter_of_ne h]
  rfl

/-- The instance that is updated is updated, and is there. -/
theorem instance?_updateInstance_self {f : Instance → Instance} :
    (b.updateInstance m f).instance? m = some (f ((b.instance? m).getD {})) :=
  Table.lookup_alter_self

/-- The other instances are not. -/
theorem instance?_updateInstance_of_ne {f : Instance → Instance} (h : m' ≠ m) :
    (b.updateInstance m f).instance? m' = b.instance? m' :=
  Table.lookup_alter_of_ne h

/-! Handing a value on assigns to the variable of one import. -/

@[simp] theorem slot_deliver : (b.deliver w v).slot m n = b.slot m n := rfl

@[simp] theorem value?_deliver : (b.deliver w v).value? m x = b.value? m x := by
  by_cases h : m = w.importer
  · subst h
    rw [value?, deliver, instance?_updateInstance_self, value?]
    cases b.instance? w.importer <;> rfl
  · rw [value?, deliver, instance?_updateInstance_of_ne h, value?]

@[simp] theorem offered_deliver : (b.deliver w v).offered m n = b.offered m n :=
  offered_congr rfl fun _ => value?_deliver

/-- A variable that a value is delivered to holds it. -/
theorem held_deliver_self : (b.deliver w v).held w = some v := by
  rw [held, deliver, instance?_updateInstance_self, Option.bind_some, Table.lookup_alter_self]
  rfl

/-- The other variables hold what they held. -/
theorem held_deliver_of_ne (h : w' ≠ w) : (b.deliver w v).held w' = b.held w' := by
  by_cases hm : w'.importer = w.importer
  · have hx : w'.localName ≠ w.localName := fun hx => h (by cases w; cases w'; simp_all)
    rw [held, deliver, hm, instance?_updateInstance_self, Option.bind_some, Table.lookup_alter_of_ne hx,
      held, hm]
    cases b.instance? w.importer <;> rfl
  · rw [held, deliver, instance?_updateInstance_of_ne hm, held]

/-! An assignment changes one variable of a module. -/

@[simp] theorem slot_assign : (b.assign m x v).slot m' n = b.slot m' n := rfl

/-- A variable that is assigned has the value. -/
theorem value?_assign_self : (b.assign m x v).value? m x = some v := by
  rw [value?, assign, instance?_updateInstance_self, Option.bind_some]
  exact Table.lookup_alter_self

/-- The other variables have theirs. -/
theorem value?_assign_of_ne (h : (m', x') ≠ (m, x)) :
    (b.assign m x v).value? m' x' = b.value? m' x' := by
  by_cases hm : m' = m
  · subst hm
    have hx : x' ≠ x := fun hx => h (by rw [hx])
    rw [value?, assign, instance?_updateInstance_self, Option.bind_some, Table.set,
      Table.lookup_alter_of_ne hx, value?]
    cases b.instance? m' <;> rfl
  · rw [value?, assign, instance?_updateInstance_of_ne hm, value?]

@[simp] theorem held_assign : (b.assign m x v).held w = b.held w := by
  by_cases hm : w.importer = m
  · rw [held, assign, hm, instance?_updateInstance_self, held, hm]
    cases b.instance? m <;> rfl
  · rw [held, assign, instance?_updateInstance_of_ne hm, held]

/-! New variables are those of one module, and it has not connected its imports. -/

section Instantiate
variable {locals : List (Text × Value)}

/-- A module that is instantiated anew watches nothing. -/
theorem slot_instantiate : (b.instantiate m locals).slot m' n =
    { b.slot m' n with watchers := (b.slot m' n).watchers.filter fun w => w.importer ≠ m } := by
  let unwatch (s : Slot) : Slot := { s with watchers := s.watchers.filter fun w => w.importer ≠ m }
  have looked : (b.instantiate m locals).slots.lookup (m', n) = (b.slots.lookup (m', n)).map unwatch :=
    Table.lookup_map unwatch b.slots (m', n)
  rw [slot, looked, slot]
  cases b.slots.lookup (m', n) <;> rfl

theorem instance?_instantiate_self : (b.instantiate m locals).instance? m = some { locals } :=
  Table.lookup_alter_self

theorem instance?_instantiate_of_ne (h : m' ≠ m) :
    (b.instantiate m locals).instance? m' = b.instance? m' :=
  Table.lookup_alter_of_ne h

/-- When a module is instantiated, the other modules keep their variables. -/
theorem value?_instantiate_of_ne (h : m' ≠ m) :
    (b.instantiate m locals).value? m' x = b.value? m' x := by
  rw [value?, instance?_instantiate_of_ne h, value?]

/-- Its imports are not connected yet. -/
theorem held_instantiate_self (h : w.importer = m) : (b.instantiate m locals).held w = none := by
  rw [held, h, instance?_instantiate_self]
  rfl

theorem held_instantiate_of_ne (h : w.importer ≠ m) : (b.instantiate m locals).held w = b.held w := by
  rw [held, instance?_instantiate_of_ne h, held]

end Instantiate

/-! Getters of a module are set one after the other; a later one replaces an earlier one. -/

/-- The getters of some exports of a module are set; nothing else has changed. -/
structure GettersSet (m : ModuleId) (es : List LocalExport) (b b' : Bindings) : Prop where
  instances : b'.instances = b.instances
  watchers : ∀ m' n, (b'.slot m' n).watchers = (b.slot m' n).watchers
  otherGetter : ∀ m' n, m' ≠ m → (b'.slot m' n).getter = (b.slot m' n).getter
  getter : ∀ n, (b'.slot m n).getter =
    ((es.reverse.find? (·.name = n)).map fun e => .variableNamed e.localName).or (b.slot m n).getter

namespace GettersSet

variable {es : List LocalExport} {e : LocalExport}

theorem value? (h : GettersSet m es b b') : b'.value? m' x = b.value? m' x := by
  rw [Bindings.value?, instance?, h.instances, Bindings.value?, instance?]

theorem held (h : GettersSet m es b b') : b'.held w = b.held w := by
  rw [Bindings.held, instance?, h.instances, Bindings.held, instance?]

/-- A getter is set, and then the others. -/
theorem cons (h : GettersSet m es
      (b.updateSlot m e.name fun s => { s with getter := some (.variableNamed e.localName) }) b') :
    GettersSet m (e :: es) b b' where
  instances := h.instances
  watchers m' n := by
    rw [h.watchers]
    by_cases hk : (m', n) = (m, e.name)
    · cases hk
      rw [slot_updateSlot_self]
    · rw [slot_updateSlot_of_ne hk]
  otherGetter m' n hm := by
    rw [h.otherGetter m' n hm, slot_updateSlot_of_ne fun hk => hm (congrArg Prod.fst hk)]
  getter n := by
    rw [h.getter, List.reverse_cons, List.find?_append]
    by_cases hk : e.name = n
    · subst hk
      rw [slot_updateSlot_self]
      cases es.reverse.find? (·.name = e.name) <;> simp
    · rw [slot_updateSlot_of_ne fun hk' => hk (congrArg Prod.snd hk').symm]
      cases es.reverse.find? (·.name = n) <;> simp [hk]

end GettersSet

/-- Setting the getters of exports succeeds, and each export has its own. -/
theorem setGetters_exports (es : List LocalExport) (b : Bindings)
    (hes : ∀ e ∈ es, e ∈ (g.interface m).localExports) :
    ∃ b', setGetters g m (es.map fun e => (e.name, .variableNamed e.localName)) b = (b', .ok ()) ∧
      GettersSet m es b b' := by
  induction es generalizing b with
  | nil => exact ⟨b, rfl, rfl, fun _ _ => rfl, fun _ _ _ => rfl, fun _ => rfl⟩
  | cons e es ih =>
      obtain ⟨he, hes⟩ := List.forall_mem_cons.1 hes
      have declared : g.exportsLocally m e.name = true := by
        rw [Graph.exportsLocally, List.any_eq_true]
        exact ⟨e, he, by simp⟩
      obtain ⟨b', hb, set⟩ := ih _ hes
      refine ⟨b', ?_, set.cons⟩
      rw [List.map_cons, setGetters, if_pos declared]
      exact hb

/-- The getters of a module can all be set. -/
theorem setGetters_getters (b : Bindings) (g : Graph) (m : ModuleId) :
    ∃ b', setGetters g m (Stage.getters g m) b = (b', .ok ()) ∧
      GettersSet m (g.interface m).localExports b b' :=
  setGetters_exports _ b fun _ => id

/-! A watcher is added to one slot. -/

/-- Adds a watcher to a slot. -/
def addWatcher (b : Bindings) (m : ModuleId) (n : Text) (w : Watcher) : Bindings :=
  b.updateSlot m n fun s => { s with watchers := s.watchers ++ [w] }

/-- Another watcher changes no getter. -/
theorem getter_addWatcher : ((b.addWatcher m n w).slot m' n').getter = (b.slot m' n').getter := by
  rw [addWatcher]
  by_cases hk : (m', n') = (m, n)
  · cases hk
    rw [slot_updateSlot_self]
  · rw [slot_updateSlot_of_ne hk]

/-- The slot has one watcher more. -/
theorem mem_watchers_addWatcher : w' ∈ ((b.addWatcher m n w).slot m' n').watchers ↔
    w' ∈ (b.slot m' n').watchers ∨ w' = w ∧ (m', n') = (m, n) := by
  rw [addWatcher]
  by_cases hk : (m', n') = (m, n)
  · cases hk
    rw [slot_updateSlot_self]
    simp
  · rw [slot_updateSlot_of_ne hk]
    simp [hk]

theorem held_addWatcher : (b.addWatcher m n w).held w' = b.held w' := rfl

theorem offered_addWatcher : (b.addWatcher m n w).offered m' n' = b.offered m' n' :=
  offered_congr getter_addWatcher fun _ => rfl

/-! ### Between two steps -/

/-- How modules are connected when those with `I` have their variables and the imports with `C` are
connected.  A connected import holds what is offered to it, unless it is stale; then there is something
that it will hold. -/
structure Wired (g : Graph) (I : ModuleId → Prop) (C stale : Watcher → Prop) (b : Bindings) :
    Prop where
  getter : ∀ m n, I m → (b.slot m n).getter = (g.exportedVariable m n).map .variableNamed
  noGetter : ∀ m n, ¬ I m → (b.slot m n).getter = none
  watchers : ∀ w m n, w ∈ (b.slot m n).watchers ↔ C w ∧ g.Links w m n
  holds : ∀ w m n, C w → g.Links w m n →
    b.held w = b.offered m n ∨ stale w ∧ (b.offered m n).isSome = true
  blank : ∀ w m n, ¬ C w → g.Links w m n → b.held w = none

namespace Wired

variable {I : ModuleId → Prop} {C C' stale stale' : Watcher → Prop}

/-- Only variables that stand for an export of a module are of importance. -/
theorem congr (h : Wired g I C stale b) (hC : ∀ w m n, g.Links w m n → (C w ↔ C' w)) :
    Wired g I C' stale b where
  getter := h.getter
  noGetter := h.noGetter
  watchers w m n := (h.watchers w m n).trans (and_congr_left (hC w m n))
  holds w m n hw hl := h.holds w m n ((hC w m n hl).2 hw) hl
  blank w m n hw hl := h.blank w m n (fun hw' => hw ((hC w m n hl).1 hw')) hl

/-- Fewer imports may be out of date than said. -/
theorem mono (h : Wired g I C stale b) (hs : ∀ w, C w → stale w → stale' w) :
    Wired g I C stale' b where
  getter := h.getter
  noGetter := h.noGetter
  watchers := h.watchers
  holds w m n hw hl := (h.holds w m n hw hl).imp_right fun ⟨s, there⟩ => ⟨hs w hw s, there⟩
  blank := h.blank

/-- A connected import holds what its export offers. -/
theorem held_eq (h : Wired g I C (fun _ => False) b) (hw : C w) (hl : g.Links w m n) :
    b.held w = b.offered m n :=
  (h.holds w m n hw hl).resolve_right And.left

/-- An import that is handed what it stands for is not stale. -/
theorem deliver (fit : g.ImportsFit) (h : Wired g I C stale b) (hw : C w) (hl : g.Links w m n)
    (hv : b.offered m n = some v) :
    Wired g I C (fun x => stale x ∧ x ≠ w) (b.deliver w v) where
  getter := h.getter
  noGetter := h.noGetter
  watchers := h.watchers
  holds x m' n' hx hl' := by
    rw [offered_deliver]
    by_cases e : x = w
    · subst e
      obtain ⟨rfl, rfl⟩ := hl.unique fit hl'
      exact .inl (held_deliver_self.trans hv.symm)
    · rw [held_deliver_of_ne e]
      exact (h.holds x m' n' hx hl').imp_right fun ⟨s, there⟩ => ⟨⟨s, e⟩, there⟩
  blank x m' n' hx hl' := by
    have e : x ≠ w := by
      rintro rfl
      exact hx hw
    exact (held_deliver_of_ne e).trans (h.blank x m' n' hx hl')

/-- Delivering the present value to some watchers brings them up to date. -/
theorem deliverAll (fit : g.ImportsFit) (ws : List Watcher) (h : Wired g I C stale b)
    (hws : ∀ w ∈ ws, C w ∧ g.Links w m n) (hv : b.offered m n = some v) :
    Wired g I C (fun x => stale x ∧ x ∉ ws) (ws.foldl (fun b w => b.deliver w v) b) := by
  induction ws generalizing b stale with
  | nil => exact h.mono fun _ _ s => ⟨s, List.not_mem_nil⟩
  | cons w ws ih =>
      obtain ⟨⟨hw, hl⟩, hws⟩ := List.forall_mem_cons.1 hws
      have first := h.deliver fit hw hl hv
      -- a value that is handed on changes nothing about what is offered
      refine (ih first hws (offered_deliver.trans hv)).mono fun x _ s => ⟨s.1.1, ?_⟩
      exact List.not_mem_cons_of_ne_of_not_mem s.1.2 s.2

/-- No import of a slot is stale as long as the slot offers nothing. -/
theorem settle (fit : g.ImportsFit) (h : Wired g I C stale b) (none : b.offered m n = none) :
    Wired g I C (fun x => stale x ∧ ¬ g.Links x m n) b := by
  refine ⟨h.getter, h.noGetter, h.watchers, fun x m' n' hx hl => ?_, h.blank⟩
  refine (h.holds x m' n' hx hl).imp_right fun ⟨s, there⟩ => ⟨⟨s, fun hl' => ?_⟩, there⟩
  obtain ⟨rfl, rfl⟩ := hl.unique fit hl'
  simp [none] at there

/-- No import of a slot is stale when its value has been handed on. -/
theorem push (fit : g.ImportsFit) (h : Wired g I C stale b) :
    Wired g I C (fun x => stale x ∧ ¬ g.Links x m n) (b.push m n) := by
  have ws : ∀ w ∈ (b.slot m n).watchers, C w ∧ g.Links w m n := fun w => (h.watchers w m n).1
  rw [Bindings.push]
  cases hv : b.valueOf m n with
  | ok v =>
      refine (h.deliverAll fit _ ws (by rw [offered, hv]; rfl)).mono fun x hx s => ?_
      exact ⟨s.1, fun hl => s.2 ((h.watchers x m n).2 ⟨hx, hl⟩)⟩
  | error e => exact h.settle fit (by rw [offered, hv]; rfl)

/-- Pushing the values of some exports brings their importers up to date. -/
theorem pushSome (fit : g.ImportsFit) (h : Wired g I C stale b) (es : List LocalExport) :
    Wired g I C (fun x => stale x ∧ ∀ e ∈ es, ¬ g.Links x m e.name)
      (es.foldl (fun b e => b.push m e.name) b) := by
  induction es generalizing b stale with
  | nil => exact h.mono fun _ _ s => ⟨s, fun e he => absurd he List.not_mem_nil⟩
  | cons e es ih =>
      refine (ih (h.push fit)).mono fun x _ s => ⟨s.1.1, ?_⟩
      exact List.forall_mem_cons.2 ⟨s.1.2, s.2⟩

/-- No import of a module is stale when its values have been handed on. -/
theorem pushAll (fit : g.ImportsFit) (h : Wired g I C stale b)
    (hs : ∀ w, stale w → ∃ n, g.Links w m n) : Wired g I C (fun _ => False) (b.pushAll g m) := by
  refine (h.pushSome fit (g.interface m).localExports).mono fun x _ s => ?_
  obtain ⟨n, hl⟩ := hs x s.1
  obtain ⟨e, he, rfl⟩ := hl.exports
  exact s.2 e he hl

/-- An assignment leaves stale imports of the module at most, and none if the variable is not
exported. -/
theorem assign (h : Wired g I C (fun _ => False) b) :
    Wired g I C
      (fun w => (∃ n, g.Links w m n) ∧ ∃ e ∈ (g.interface m).localExports, e.localName = x)
      (b.assign m x v) where
  getter := h.getter
  noGetter := h.noGetter
  watchers := h.watchers
  holds w m' n hw hl := by
    rw [held_assign, h.held_eq hw hl]
    -- only what is offered by way of this variable changes
    by_cases changed : m' = m ∧ (b.slot m' n).getter = some (.variableNamed x)
    · obtain ⟨rfl, hg⟩ := changed
      have hI : I m' := by
        by_contra hI
        rw [h.noGetter m' n hI] at hg
        cases hg
      have hx : g.exportedVariable m' n = some x := by
        rw [h.getter m' n hI] at hg
        simpa using hg
      refine .inr ⟨⟨⟨n, hl⟩, Graph.mem_of_exportedVariable hx⟩, ?_⟩
      rw [offered_of_getter (b := b.assign m' x v) hg, value?_assign_self]
      rfl
    · left
      rw [offered_eq, offered_eq, slot_assign]
      cases hg : (b.slot m' n).getter with
      | none => rfl
      | some getter =>
          cases getter with
          | constant v => rfl
          | variableNamed y =>
              have hy : (m', y) ≠ (m, x) := by
                intro e
                cases e
                exact changed ⟨rfl, hg⟩
              exact (value?_assign_of_ne hy).symm
  blank w m' n hw hl := held_assign.trans (h.blank w m' n hw hl)

/-- New variables, with their getters, leave stale only imports of the module. -/
theorem bind (h : Wired g I C (fun _ => False) b) (hm : ¬ I m) (hC : ∀ w, C w → w.importer ≠ m)
    {locals : List (Text × Value)}
    (bound : GettersSet m (g.interface m).localExports (b.instantiate m locals) b') :
    Wired g (fun x => I x ∨ x = m) C (fun w => ∃ n, g.Links w m n) b' where
  getter m' n hm' := by
    by_cases e : m' = m
    · subst e
      rw [bound.getter, slot_instantiate, h.noGetter m' n hm, Option.or_none, Graph.exportedVariable,
        Option.map_map]
      rfl
    · rw [bound.otherGetter m' n e, slot_instantiate]
      exact h.getter m' n (hm'.resolve_right e)
  noGetter m' n hm' := by
    rw [not_or] at hm'
    rw [bound.otherGetter m' n hm'.2, slot_instantiate]
    exact h.noGetter m' n hm'.1
  watchers w m' n := by
    rw [bound.watchers, slot_instantiate, List.mem_filter, h.watchers w m' n]
    simpa using fun hw _ => hC w hw
  holds w m' n hw hl := by
    rw [bound.held, held_instantiate_of_ne (hC w hw), h.held_eq hw hl]
    by_cases e : m' = m
    · subst e
      -- before the module had getters, nobody was handed anything
      have none : b.offered m' n = none := by rw [offered_eq, h.noGetter m' n hm]; rfl
      cases hv : b'.offered m' n with
      | none => exact .inl none
      | some v => exact .inr ⟨⟨n, hl⟩, rfl⟩
    · refine .inl (offered_congr ?_ fun x => ?_).symm
      · rw [bound.otherGetter m' n e, slot_instantiate]
      · rw [bound.value?, value?_instantiate_of_ne e]
  blank w m' n hw hl := by
    rw [bound.held]
    by_cases e : w.importer = m
    · exact held_instantiate_self e
    · exact (held_instantiate_of_ne e).trans (h.blank w m' n hw hl)

/-! ### A module connects its imports -/

theorem withNamespaces (h : Wired g I C stale b) (namespaces : List (ModuleId × Namespace)) :
    Wired g I C stale { b with namespaces } :=
  ⟨h.getter, h.noGetter, h.watchers, h.holds, h.blank⟩

/-- Making a namespace moves no variable. -/
theorem namespaceOf (h : Wired g I C stale b) (d : ModuleId) :
    Wired g I C stale (b.namespaceOf g d).1 := by
  rw [Bindings.namespaceOf]
  split
  · exact h
  · exact h.withNamespaces _

/-- Variables that stand for no export of a module may hold anything. -/
theorem deliver_unlinked (h : Wired g I C stale b) (hw : ∀ m n, ¬ g.Links w m n) :
    Wired g I (fun x => C x ∨ x = w) stale (b.deliver w v) := by
  have ne : ∀ {x m n}, g.Links x m n → x ≠ w := fun hl e => hw _ _ (e ▸ hl)
  refine congr (C := C) ?_ fun x m n hl => ?_
  · refine ⟨h.getter, h.noGetter, h.watchers, fun x m n hx hl => ?_, fun x m n hx hl => ?_⟩
    · rw [held_deliver_of_ne (ne hl), offered_deliver]
      exact h.holds x m n hx hl
    · exact (held_deliver_of_ne (ne hl)).trans (h.blank x m n hx hl)
  · exact (or_iff_left (ne hl)).symm

/-- A new watcher is stale, if there is a value. -/
theorem addWatcher (fit : g.ImportsFit) (h : Wired g I C (fun _ => False) b) (hw : ¬ C w)
    (hl : g.Links w m n) :
    Wired g I (fun x => C x ∨ x = w) (· = w) (b.addWatcher m n w) where
  getter m' n' hm := getter_addWatcher.trans (h.getter m' n' hm)
  noGetter m' n' hm := getter_addWatcher.trans (h.noGetter m' n' hm)
  watchers x m' n' := by
    rw [mem_watchers_addWatcher, h.watchers, or_and_right]
    refine or_congr_right (and_congr_right ?_)
    rintro rfl
    constructor
    · rintro ⟨⟩
      exact hl
    · intro hl'
      obtain ⟨rfl, rfl⟩ := hl.unique fit hl'
      rfl
  holds x m' n' hx hl' := by
    rw [held_addWatcher, offered_addWatcher]
    rcases hx with hx | rfl
    · exact .inl (h.held_eq hx hl')
    · rw [h.blank x m' n' hw hl']
      cases b.offered m' n' with
      | none => exact .inl rfl
      | some v => exact .inr ⟨rfl, rfl⟩
  blank x m' n' hx hl' := h.blank x m' n' (fun hc => hx (.inl hc)) hl'

/-- An import is connected with what it stands for. -/
theorem watch (fit : g.ImportsFit) (h : Wired g I C (fun _ => False) b) {i : NamedImport}
    (hi : i ∈ (g.interface m).namedImports) (hr : g.Resolves m i.record i.importName)
    (fresh : ¬ C ⟨m, i.localName⟩) :
    Wired g I (fun x => C x ∨ x = ⟨m, i.localName⟩) (fun _ => False)
      (b.watch g m i.record i.importName i.localName).1 := by
  -- a variable that holds a namespace stands for no slot, since every import has its own
  have unlinked : (∀ m' n, g.resolve (g.dep m i.record) i.importName = .found (.slot m' n) →
      i.importName = Interface.star) → ∀ m' n, ¬ g.Links ⟨m, i.localName⟩ m' n := by
    rintro none m' n ⟨j, hj, e, hs, hr⟩
    obtain rfl := fit.eq hj hi e
    exact hs (none m' n hr)
  simp only [Bindings.watch, Graph.getElem?_deps (fit.record hi)]
  by_cases hs : i.importName = Interface.star
  · rw [if_pos hs]
    exact (h.namespaceOf _).deliver_unlinked (unlinked fun _ _ _ => hs)
  · rw [if_neg hs]
    obtain ⟨t, ht⟩ := hr hs
    rw [ht] at unlinked ⊢
    cases t with
    | whole d => exact (h.namespaceOf d).deliver_unlinked (unlinked fun _ _ e => by cases e)
    | slot m' n =>
        have declared : g.exportsLocally m' n = true := Graph.present_of_resolve ht
        have link : g.Links ⟨m, i.localName⟩ m' n := ⟨i, hi, rfl, hs, ht⟩
        have added := h.addWatcher fit fresh link
        simp only [declared, if_true]
        split
        · rename_i v hv
          have there : (b.addWatcher m' n ⟨m, i.localName⟩).offered m' n = some v :=
            congrArg Except.toOption hv
          exact (added.deliver fit (.inr rfl) link there).mono fun _ _ s => s.2 s.1
        · rename_i e hv
          have none : (b.addWatcher m' n ⟨m, i.localName⟩).offered m' n = none :=
            congrArg Except.toOption hv
          exact (added.settle fit none).mono fun _ _ s => s.2 (s.1 ▸ link)

/-- All imports of a module are connected, one after the other. -/
theorem watchAll (fit : g.ImportsFit) (is : List NamedImport) (h : Wired g I C (fun _ => False) b)
    (his : ∀ i ∈ is, i ∈ (g.interface m).namedImports ∧ g.Resolves m i.record i.importName ∧
      ¬ C ⟨m, i.localName⟩)
    (own : (is.map (·.localName)).Nodup) :
    Wired g I (fun x => C x ∨ x.importer = m ∧ ∃ i ∈ is, i.localName = x.localName) (fun _ => False)
      (b.watchAll g m is).1 := by
  induction is generalizing b C with
  | nil => exact h.congr fun _ _ _ _ => by simp
  | cons i is ih =>
      obtain ⟨hi, hr, fresh⟩ := his i (by simp)
      obtain ⟨other, own'⟩ := List.nodup_cons.1 own
      have first := h.watch fit hi hr fresh
      have ok : (b.watch g m i.record i.importName i.localName).2 = .ok () :=
        Bindings.watch_of_resolves (fit.record hi) hr
      rcases hw : b.watch g m i.record i.importName i.localName with ⟨b₁, res⟩
      rw [hw] at first ok
      obtain rfl : res = .ok () := ok
      rw [Bindings.watchAll, hw]
      refine (ih first (fun j hj => ?_) own').congr fun x _ _ _ => ?_
      · -- its variable is not the one that was connected just now
        obtain ⟨hj', hr', fresh'⟩ := his j (by simp [hj])
        refine ⟨hj', hr', fun hc => hc.elim fresh' fun e => other ?_⟩
        exact List.mem_map.2 ⟨j, hj, congrArg Watcher.localName e⟩
      · have head : x = ⟨m, i.localName⟩ ↔ x.importer = m ∧ i.localName = x.localName := by
          cases x
          simp [eq_comm]
        rw [head]
        simp only [List.mem_cons, exists_eq_or_imp]
        tauto

end Wired

/-! ### From step to step -/

/-- The modules with `I` are connected with each other, and no import is stale. -/
def Live (g : Graph) (I : ModuleId → Prop) (b : Bindings) : Prop :=
  Wired g I (fun w => I w.importer) (fun _ => False) b

/-- Gives a module its variables and connects it with the others. -/
def connect (g : Graph) (m : ModuleId) (locals : List (Text × Value)) (b : Bindings) : Bindings :=
  (((b.instantiate m locals).bindExports g m (Stage.getters g m)).1.watchAll g m
    (g.interface m).namedImports).1

/-- The value of the variable that a module exports under a name; none before it is initialized. -/
def current (b : Bindings) (g : Graph) (m : ModuleId) (n : Text) : Option Value :=
  (g.exportedVariable m n).bind (b.value? m)

variable {I : ModuleId → Prop} {locals : List (Text × Value)}

/-- A module that gets its variables leaves imports of it stale until it has handed them on, and then
connects its own imports, which hold nothing yet. -/
theorem Live.connect (fit : g.ImportsFit) (h : Live g I b) (hm : ¬ I m) (ok : g.linkError? m = none) :
    Live g (fun x => I x ∨ x = m) (b.connect g m locals) := by
  have resolves := (Graph.linkError?_eq_none_iff.1 ok).1
  obtain ⟨b', hb, set⟩ := (b.instantiate m locals).setGetters_getters g m
  have bound := Wired.bind h hm (fun w hw e => hm (e ▸ hw)) set
  have pushed := bound.pushAll fit fun _ => id
  have watched := pushed.watchAll fit (g.interface m).namedImports
    (fun i hi => ⟨hi, resolves i hi, hm⟩) (fit.own m)
  rw [Bindings.connect, bindExports, hb]
  refine watched.congr fun w m' n hl => or_congr_right ⟨And.left, ?_⟩
  rintro rfl
  obtain ⟨i, hi, e, -⟩ := hl
  exact ⟨rfl, i, hi, e⟩

/-- What an import holds is what the variable that it stands for holds now. -/
theorem Live.held_iff (h : Live g I b) (hw : I w.importer) (hl : g.Links w m n) :
    b.held w = some v ↔ I m ∧ b.current g m n = some v := by
  rw [h.held_eq hw hl, offered_eq]
  by_cases hm : I m
  · rw [h.getter m n hm, current]
    cases g.exportedVariable m n <;> simp [hm]
  · simp [h.noGetter m n hm, hm]

end Bindings

/-- What a host does with bindings so that every value is handed on. -/
inductive LiveStep where
  /-- Instantiates a module, in which some variables have values from the start. -/
  | connect (m : ModuleId) (hoisted : List (Text × Value))
  /-- Assigns to a variable, and hands on the values of the module. -/
  | write (m : ModuleId) (x : Text) (v : Value)
  /-- Assigns to a variable that is not exported. -/
  | keep (m : ModuleId) (x : Text) (v : Value)
  /-- Hands on the values of a module. -/
  | publish (m : ModuleId)
  /-- Makes namespaces. -/
  | view (namespaces : List (ModuleId × Namespace))

namespace LiveStep

variable {g : Graph} {m : ModuleId} {past past' : List LiveStep} {s : LiveStep} {b : Bindings}
  {I : ModuleId → Prop}

/-- Takes a step. -/
def run (g : Graph) (b : Bindings) : LiveStep → Bindings
  | .connect m hoisted => b.connect g m hoisted
  | .write m x v => (b.assign m x v).pushAll g m
  | .keep m x v => b.assign m x v
  | .publish m => b.pushAll g m
  | .view namespaces => { b with namespaces }

/-- A step that a host may take at any time. -/
def AnyTime (g : Graph) : LiveStep → Prop
  | .connect .. => False
  | .keep m x _ => ∀ e ∈ (g.interface m).localExports, e.localName ≠ x
  | .write .. | .publish _ | .view _ => True

/-- The bindings after some steps. -/
def after (g : Graph) (past : List LiveStep) : Bindings := past.foldl (run g) {}

/-- A module was instantiated in the past. -/
def Instantiated (past : List LiveStep) (m : ModuleId) : Prop := ∃ hoisted, .connect m hoisted ∈ past

/-- Every module was instantiated once at most, and only when its imports resolved. -/
inductive Proper (g : Graph) : List LiveStep → Prop where
  | nil : Proper g []
  | connect {past : List LiveStep} {m : ModuleId} {hoisted : List (Text × Value)} (h : Proper g past)
      (hm : ¬ Instantiated past m) (ok : g.linkError? m = none) : Proper g (past ++ [.connect m hoisted])
  | anyTime {past : List LiveStep} {s : LiveStep} (h : Proper g past) (hs : s.AnyTime g) :
      Proper g (past ++ [s])

theorem after_append : after g (past ++ past') = past'.foldl (run g) (after g past) :=
  List.foldl_append

/-- A module that connects its imports has been instantiated from then on. -/
theorem instantiated_connect {hoisted : List (Text × Value)} :
    Instantiated (past ++ [.connect m hoisted]) = fun x => Instantiated past x ∨ x = m := by
  funext x
  simp [Instantiated, exists_or]

/-- Steps that come at any time instantiate no module. -/
theorem instantiated_append (h : ∀ s ∈ past', s.AnyTime g) :
    Instantiated (past ++ past') = Instantiated past := by
  funext x
  refine propext ⟨fun ⟨hoisted, hx⟩ => ?_, fun ⟨hoisted, hx⟩ => ⟨hoisted, List.mem_append_left _ hx⟩⟩
  exact ⟨hoisted, (List.mem_append.1 hx).resolve_right fun hx => h _ hx⟩

/-- Steps that come at any time may follow. -/
theorem Proper.append (h : Proper g past) (h' : ∀ s ∈ past', s.AnyTime g) :
    Proper g (past ++ past') := by
  induction past' generalizing past with
  | nil => rwa [List.append_nil]
  | cons s rest ih =>
      obtain ⟨hs, hrest⟩ := List.forall_mem_cons.1 h'
      rw [List.append_cons]
      exact ih (h.anyTime hs) hrest

/-- A step that may be taken at any time leaves no import stale. -/
theorem live_run (fit : g.ImportsFit) (h : b.Live g I) (hs : s.AnyTime g) : (run g b s).Live g I := by
  cases s with
  | connect => exact hs.elim
  | write m x v => exact (Bindings.Wired.assign h).pushAll fit fun _ s => s.1
  | keep m x v =>
      refine (Bindings.Wired.assign h).mono fun _ _ s => ?_
      obtain ⟨-, e, he, hx⟩ := s
      exact hs e he hx
  | publish m => exact Bindings.Wired.pushAll fit h fun _ => False.elim
  | view namespaces => exact Bindings.Wired.withNamespaces h namespaces

/-- **However modules are instantiated and assign to their variables, no import is stale.** -/
theorem Proper.live (fit : g.ImportsFit) (h : Proper g past) :
    (after g past).Live g (Instantiated past) := by
  induction h with
  | nil =>
      have none : ∀ m, ¬ Instantiated [] m := by simp [Instantiated]
      exact ⟨fun m _ hm => (none m hm).elim, fun _ _ _ => rfl,
        fun w _ _ => iff_of_false List.not_mem_nil fun h => none _ h.1,
        fun w _ _ hw => (none _ hw).elim, fun _ _ _ _ _ => rfl⟩
  | connect h hm ok ih =>
      rw [instantiated_connect, after_append]
      exact ih.connect fit hm ok
  | anyTime h hs ih =>
      rw [instantiated_append (List.forall_mem_singleton.2 hs), after_append]
      exact live_run fit ih hs

/-- What came first came in proper order. -/
theorem Proper.of_prefix (h : Proper g past) (hp : past' <+: past) : Proper g past' := by
  induction h with
  | nil => exact List.prefix_nil.1 hp ▸ .nil
  | connect h hm ok ih =>
      rcases List.prefix_concat_iff.1 hp with rfl | hp
      · exact h.connect hm ok
      · exact ih hp
  | anyTime h hs ih =>
      rcases List.prefix_concat_iff.1 hp with rfl | hp
      · exact h.anyTime hs
      · exact ih hp

/-- Every import of a module that was instantiated, if it stands for an export of another module, holds
what the exported variable holds now, as soon as that module was instantiated and the variable is
initialized; until then it was never assigned. -/
def UpToDate (g : Graph) (past : List LiveStep) : Prop :=
  ∀ m, Instantiated past m → ∀ i ∈ (g.interface m).namedImports, i.importName ≠ Interface.star →
    ∀ owner name, g.resolve (g.dep m i.record) i.importName = .found (.slot owner name) →
      ∀ v, (after g past).held ⟨m, i.localName⟩ = some v ↔
        Instantiated past owner ∧ (after g past).current g owner name = some v

theorem Proper.upToDate (fit : g.ImportsFit) (h : Proper g past) : UpToDate g past :=
  fun _ hm i hi hs _ _ hr _ => (h.live fit).held_iff hm ⟨i, hi, rfl, hs, hr⟩

end LiveStep

end ModuleSystem
