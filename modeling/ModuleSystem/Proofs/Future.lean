import ModuleSystem.Future

/-!
# Futures — callbacks run once, and in order

A future changes by adding callbacks, by settling it, and by running callbacks that are due
(`Future.Moves`).  Whoever does these things and in whatever order:

* `Future.Honest`: callbacks are told the result that the future has, and none waits for a result that
  is there.
* `Future.Moves.conserves`: a callback that has run and one that is still to run are together what was
  added, so that none is lost and none runs twice.
* `Future.Ordered`: callbacks that were added before the future was settled run in the order in which
  they were added, and what a callback adds runs right after it.
-/

namespace ModuleSystem

@[simp] theorem Callback.labelsAll_nil : Callback.labelsAll [] = [] := rfl

/-- Callbacks one after the other have their labels one after the other. -/
theorem Callback.labelsAll_append (cs ds : List Callback) :
    Callback.labelsAll (cs ++ ds) = Callback.labelsAll cs ++ Callback.labelsAll ds := by
  induction cs with
  | nil => rfl
  | cons c cs ih => simp [Callback.labelsAll, ih]

/-- A callback has its label, and then those of the ones it adds. -/
theorem Callback.labelsAll_cons (label : Text) (adds rest : List Callback) :
    Callback.labelsAll (.mk label adds :: rest) = label :: Callback.labelsAll (adds ++ rest) := by
  simp [Callback.labelsAll, Callback.labels, labelsAll_append]

namespace Future

variable {α : Type} {f f' : Future α} {a : α} {c : Callback} {i : Nat} {cs : List Callback}

/-- The labels of the callbacks that are still to run: those that are due, and those that wait. -/
def outstanding (f : Future α) : List Text :=
  f.due.flatMap (fun lot => Callback.labelsAll lot.rest) ++ Callback.labelsAll f.callbacks

/-! ### What can happen to a future -/

/-- What can happen to a future: nothing, a callback is added, it is settled, or a callback that is due
runs.  The list holds what is added. -/
inductive Moves (f : Future α) : List Callback → Future α → Prop where
  | kept : Moves f [] f
  | added (c : Callback) : Moves f [c] (f.add c)
  | fulfilled {a : α} {f' : Future α} (h : f.fulfil a = some f') : Moves f [] f'
  | called (i : Nat) : Moves f [] (f.call i)

/-- A callback of a future without result waits. -/
theorem add_of_none (h : f.result = none) (c : Callback) :
    f.add c = { f with callbacks := f.callbacks ++ [c] } := by
  rw [add, h]

/-- A callback of a future with a result is due at once. -/
theorem add_of_some (h : f.result = some a) (c : Callback) :
    f.add c = { f with due := f.due ++ [⟨a, [c]⟩] } := by
  rw [add, h]

/-- A future without result is fulfilled, and all that waited is due. -/
theorem fulfil_eq_some (h : f.fulfil a = some f') : f.result = none ∧
    f' = { f with result := some a, callbacks := [], due := f.due ++ [⟨a, f.callbacks⟩] } := by
  rw [fulfil] at h
  split at h
  · cases h
    exact ⟨‹_›, rfl⟩
  · cases h

/-- A future without result can be fulfilled. -/
theorem exists_fulfil (h : f.result = none) (a : α) : ∃ f', f.fulfil a = some f' := by
  rw [fulfil, h]
  exact ⟨_, rfl⟩

/-- Running the next callback of a lot changes nothing, or takes it from the lot. -/
theorem call_cases (f : Future α) (i : Nat) :
    f.call i = f ∨ ∃ before after a label adds rest,
      f.due = before ++ ⟨a, .mk label adds :: rest⟩ :: after ∧ before.length = i ∧
      f.call i = { f with
        due := before ++ ⟨a, adds ++ rest⟩ :: after
        calls := f.calls ++ [(label, a)] } := by
  rw [call]
  split
  · rename_i a label adds rest hi
    obtain ⟨lt, hlot⟩ := List.getElem?_eq_some_iff.1 hi
    refine .inr ⟨f.due.take i, f.due.drop (i + 1), a, label, adds, rest, ?_, ?_, ?_⟩
    · rw [← hlot, List.getElem_cons_drop, List.take_append_drop]
    · rw [List.length_take, Nat.min_eq_left (Nat.le_of_lt lt)]
    · rw [List.set_eq_take_append_cons_drop, if_pos lt]
  · exact .inl rfl

theorem result_add : (f.add c).result = f.result := by
  cases hr : f.result with
  | none => rw [add_of_none hr, hr]
  | some a => rw [add_of_some hr, hr]

theorem result_call : (f.call i).result = f.result := by
  rcases call_cases f i with e | ⟨_, _, _, _, _, _, -, -, e⟩ <;> rw [e]

/-! ### Callbacks are told the result -/

/-- Callbacks are told the result that the future has, and none waits when there is one. -/
structure Honest (f : Future α) : Prop where
  due : ∀ lot ∈ f.due, f.result = some lot.result
  calls : ∀ call ∈ f.calls, f.result = some call.2
  waiting : ∀ a, f.result = some a → f.callbacks = []

theorem Honest.new : Honest ({} : Future α) := ⟨by simp, by simp, by simp⟩

/-- Without a result nothing is due. -/
theorem Honest.due_eq_nil (h : f.Honest) (hr : f.result = none) : f.due = [] := by
  refine List.eq_nil_iff_forall_not_mem.2 fun lot hlot => ?_
  have := h.due lot hlot
  rw [hr] at this
  cases this

/-- Whatever happens, only callbacks that know the result are due. -/
theorem Honest.moves (h : f.Honest) (hm : f.Moves cs f') : f'.Honest := by
  cases hm with
  | kept => exact h
  | added c =>
      cases hr : f.result with
      | none =>
          rw [add_of_none hr]
          refine ⟨h.due, h.calls, fun a ha => ?_⟩
          rw [hr] at ha
          cases ha
      | some a =>
          rw [add_of_some hr]
          refine ⟨fun lot hlot => ?_, h.calls, h.waiting⟩
          rcases List.mem_append.1 hlot with hlot | hlot
          · exact h.due lot hlot
          · rw [List.mem_singleton.1 hlot]
            exact hr
  | @fulfilled a f' hf =>
      obtain ⟨hr, rfl⟩ := fulfil_eq_some hf
      -- nothing was called before there was a result
      have calls : f.calls = [] := by
        refine List.eq_nil_iff_forall_not_mem.2 fun call hcall => ?_
        have := h.calls call hcall
        rw [hr] at this
        cases this
      refine ⟨fun lot hlot => ?_, by simp [calls], fun _ _ => rfl⟩
      rw [h.due_eq_nil hr, List.nil_append] at hlot
      rw [List.mem_singleton.1 hlot]
  | called i =>
      rcases call_cases f i with e | ⟨before, after, a, label, adds, rest, hdue, -, e⟩
      · rwa [e]
      · have told : f.result = some a := h.due ⟨a, .mk label adds :: rest⟩ (by simp [hdue])
        have due := h.due
        rw [hdue] at due
        rw [e]
        refine ⟨fun lot hlot => ?_, fun call hcall => ?_, h.waiting⟩
        · rcases List.mem_append.1 hlot with hlot | hlot
          · exact due lot (by simp [hlot])
          · rcases List.mem_cons.1 hlot with rfl | hlot
            · exact told
            · exact due lot (by simp [hlot])
        · rcases List.mem_append.1 hcall with hcall | hcall
          · exact h.calls call hcall
          · rw [List.mem_singleton.1 hcall]
            exact told

/-- A future that has a result keeps it. -/
theorem Moves.result (hm : f.Moves cs f') (hr : f.result = some a) : f'.result = some a := by
  cases hm with
  | kept => exact hr
  | added c => exact result_add.trans hr
  | fulfilled hf =>
      rw [(fulfil_eq_some hf).1] at hr
      cases hr
  | called i => exact result_call.trans hr

/-! ### No callback is lost, and none runs twice -/

/-- **Callbacks that have run and callbacks that are still to run** are together those that were added. -/
theorem Moves.conserves (hm : f.Moves cs f') :
    (f'.ran ++ f'.outstanding).Perm (f.ran ++ f.outstanding ++ Callback.labelsAll cs) := by
  cases hm with
  | kept => simp
  | added c =>
      cases hr : f.result with
      | none =>
          rw [add_of_none hr]
          simp [ran, outstanding, Callback.labelsAll_append]
      | some a =>
          rw [add_of_some hr]
          simp only [ran, outstanding, List.flatMap_append, List.flatMap_cons, List.flatMap_nil,
            List.append_nil, List.append_assoc]
          exact ((List.perm_append_comm).append_left _).append_left _
  | fulfilled hf =>
      obtain ⟨-, rfl⟩ := fulfil_eq_some hf
      simp [ran, outstanding]
  | called i =>
      rcases call_cases f i with e | ⟨before, after, a, label, adds, rest, hdue, -, e⟩
      · rw [e]
        simp
      · rw [e]
        simp only [ran, outstanding, hdue, List.map_append, List.map_cons, List.map_nil,
          List.flatMap_append, List.flatMap_cons, Callback.labelsAll_cons, Callback.labelsAll_nil,
          List.append_nil, List.nil_append, List.append_assoc, List.cons_append]
        exact (List.perm_middle.symm).append_left _

/-- A result loses no callback. -/
theorem outstanding_fulfil (h : f.fulfil a = some f') : f'.outstanding = f.outstanding := by
  obtain ⟨-, rfl⟩ := fulfil_eq_some h
  simp [outstanding]

/-- A callback that runs is not to run any more. -/
theorem length_outstanding_call {rest : List Callback}
    (due : (f.due[i]?).map (·.rest) = some (c :: rest)) :
    (f.call i).outstanding.length < f.outstanding.length := by
  obtain ⟨⟨b, rest⟩, hi, rfl⟩ := Option.map_eq_some_iff.1 due
  obtain ⟨label, adds⟩ := c
  have ran : (f.call i).ran.length = f.ran.length + 1 := by
    rw [call, hi]
    simp [Future.ran]
  have same := (Moves.called (f := f) i).conserves.length_eq
  simp only [List.length_append, Callback.labelsAll_nil, List.length_nil] at same
  omega

/-! ### Callbacks that have waited run in order -/

/-- The callbacks `cs` were added before the future was settled.  They wait in their order, or it is
settled and they run in their order. -/
inductive Ordered (cs : List Callback) (f : Future α) : Prop where
  | waiting (unsettled : f.result = none) (none_due : f.due = []) (first : cs <+: f.callbacks)
  | told (done : List Text) (more : List Callback) {lot : Lot α} {lots : List (Lot α)}
      (settled : f.result.isSome = true) (lots : f.due = lot :: lots) (sub : done.Sublist f.ran)
      (order : Callback.labelsAll (cs ++ more) = done ++ Callback.labelsAll lot.rest)

theorem Honest.ordered (h : f.Honest) (hr : f.result = none) : Ordered f.callbacks f :=
  .waiting hr (h.due_eq_nil hr) (List.prefix_refl _)

/-- Whatever happens, what has waited stays in order. -/
theorem Ordered.moves {ds : List Callback} (h : Ordered cs f) (hm : f.Moves ds f') :
    Ordered cs f' := by
  cases h with
  | waiting unsettled none_due first =>
      cases hm with
      | kept => exact .waiting unsettled none_due first
      | added c =>
          rw [add_of_none unsettled]
          exact .waiting unsettled none_due (first.trans (List.prefix_append _ _))
      | fulfilled hf =>
          obtain ⟨-, rfl⟩ := fulfil_eq_some hf
          obtain ⟨more, hmore⟩ := first
          refine .told [] more rfl (by rw [none_due]; rfl) (List.nil_sublist _) ?_
          rw [hmore]
          rfl
      | called i =>
          rcases call_cases f i with e | ⟨before, after, _, _, _, _, hdue, -, -⟩
          · rw [e]
            exact .waiting unsettled none_due first
          · simp [none_due] at hdue
  | @told done more lot lots settled hlots sub order =>
      obtain ⟨a, ha⟩ := Option.isSome_iff_exists.1 settled
      cases hm with
      | kept => exact .told done more settled hlots sub order
      | added c =>
          rw [add_of_some ha]
          exact .told done more settled (by rw [hlots]; rfl) sub order
      | fulfilled hf =>
          rw [(fulfil_eq_some hf).1] at settled
          cases settled
      | called i =>
          rcases call_cases f i with e | ⟨before, after, b, label, adds, rest, hdue, -, e⟩
          · rw [e]
            exact .told done more settled hlots sub order
          · rw [e]
            have longer : ∀ d, (d ++ [label]).Sublist (f.ran ++ [label]) ↔ d.Sublist f.ran := by
              simp
            rw [hlots] at hdue
            cases before with
            | nil =>
                -- the lot of the one who has settled the future
                obtain ⟨rfl, rfl⟩ := List.cons.inj hdue
                refine .told (done ++ [label]) more settled rfl ?_ ?_
                · simpa [ran] using (longer done).2 sub
                · rw [order, Callback.labelsAll_cons]
                  simp
            | cons first before =>
                obtain ⟨rfl, -⟩ := List.cons.inj hdue
                refine .told done more settled rfl ?_ order
                simpa [ran] using sub.trans (List.sublist_append_left _ _)

/-- **Callbacks that have waited have run in their order**, once none is left to run. -/
theorem Ordered.sublist (h : Ordered cs f) (settled : f.result.isSome = true)
    (left : f.outstanding = []) : (Callback.labelsAll cs).Sublist f.ran := by
  cases h with
  | waiting unsettled =>
      rw [unsettled] at settled
      cases settled
  | @told done more lot lots _ hlots sub order =>
      have nothing : Callback.labelsAll lot.rest = [] := by
        simp only [outstanding, hlots, List.flatMap_cons, List.append_eq_nil_iff] at left
        exact left.1.1
      rw [nothing, List.append_nil, Callback.labelsAll_append] at order
      rw [← order] at sub
      exact (List.sublist_append_left _ _).trans sub

/-! ### Everything that was added -/

/-- A future to which the callbacks `cs` were added, in this order. -/
structure Accounts (cs : List Callback) (f : Future α) : Prop where
  honest : f.Honest
  callbacks : (f.ran ++ f.outstanding).Perm (Callback.labelsAll cs)
  waiting : f.result = none → f.callbacks = cs

theorem Accounts.new : Accounts [] ({} : Future α) := ⟨.new, .nil, fun _ => rfl⟩

/-- Whatever happens, all callbacks that were added are accounted for. -/
theorem Accounts.moves {ds : List Callback} (h : f.Accounts cs) (hm : f.Moves ds f') :
    f'.Accounts (cs ++ ds) := by
  refine ⟨h.honest.moves hm, ?_, fun hr => ?_⟩
  · rw [Callback.labelsAll_append]
    exact hm.conserves.trans (h.callbacks.append_right _)
  · cases hm with
    | kept => simpa using h.waiting hr
    | added c =>
        rw [result_add] at hr
        rw [add_of_none hr, h.waiting hr]
    | fulfilled hf =>
        obtain ⟨-, rfl⟩ := fulfil_eq_some hf
        cases hr
    | called i =>
        rw [result_call] at hr
        rcases call_cases f i with e | ⟨before, after, _, _, _, _, hdue, -, -⟩
        · rw [e]
          simpa using h.waiting hr
        · simp [h.honest.due_eq_nil hr] at hdue

end Future

end ModuleSystem
