import ModuleSystem.Registry.Link

/-!
# Registry — what its operations change

Every operation of the registry comes down to two: `Registry.update` changes the progress of one
module, and `Registry.note` takes note of what happened.  The lemmas below say what becomes of each
part of a registry, and of a walk that enters a module, inherits from a dependency or closes a
component; later modules use them and unfold none of these.

`Registry.calls` lists the modules for which the host was asked for a service, in the order in
which it was asked.

Before anything is linked, modules are created for the paths that are imported, and the contents of
each of them are attached.  `Built.attached`: as soon as no module is left new, the registry is ready
for requests (`Registry.Attached`).
-/

namespace ModuleSystem

/-- What the registry asks its host to do for a module. -/
inductive Service where
  | instantiate
  | evaluate
deriving DecidableEq, Repr

/-- The module for which the host was asked for a service, if this is what happened. -/
def Happening.call? : Service → Happening → Option ModuleId
  | .instantiate, .instantiated m _ => some m
  | .evaluate, .ran m _ => some m
  | _, _ => none

namespace Registry

variable {σ : Type}

/-- The number at which the last walk entered a module. -/
def index (r : Registry σ) (m : ModuleId) : Nat := (r.progressOf m).index

/-- The lowest number that the last walk knew a module to reach. -/
def ancestor (r : Registry σ) (m : ModuleId) : Nat := (r.progressOf m).ancestor

/-- The host was asked to instantiate a module. -/
def isInstantiated (r : Registry σ) (m : ModuleId) : Bool := (r.progressOf m).instantiated

/-- The modules for which the host was asked for a service, the latest last. -/
def calls (r : Registry σ) (k : Service) : List ModuleId := r.history.filterMap (·.call? k)

variable {r : Registry σ} {m x : ModuleId} {f : Progress → Progress} {s : ModuleState}

theorem state_of_length_le (h : r.progress.length ≤ m) : r.state m = .new := by
  simp [state, progressOf, List.getElem?_eq_none h]

theorem lt_length_of_state_ne_new (h : r.state m ≠ .new) : m < r.progress.length :=
  Nat.lt_of_not_le fun hm => h (state_of_length_le hm)

/-! ### Changing the progress of a module, and taking note -/

/-- The progress of a module changes as it is told to. -/
theorem progressOf_update_self (h : m < r.progress.length) :
    (r.update m f).progressOf m = f (r.progressOf m) := by
  simp [progressOf, update, h]

theorem progressOf_update_of_ne (h : x ≠ m) : (r.update m f).progressOf x = r.progressOf x := by
  simp [progressOf, update, Ne.symm h]

/-- An update that keeps a part of the progress keeps that part for every module. -/
theorem progressOf_update_proj {α : Type} (p : Progress → α) (h : ∀ q, p (f q) = p q) :
    p ((r.update m f).progressOf x) = p (r.progressOf x) := by
  by_cases hx : x = m
  · subst hx
    by_cases hm : x < r.progress.length
    · rw [progressOf_update_self hm, h]
    · simp [progressOf, update, List.getElem?_eq_none (Nat.le_of_not_lt hm)]
  · rw [progressOf_update_of_ne hx]

theorem state_update (h : ∀ q, (f q).state = q.state) : (r.update m f).state x = r.state x :=
  progressOf_update_proj Progress.state h

theorem index_update (h : ∀ q, (f q).index = q.index) : (r.update m f).index x = r.index x :=
  progressOf_update_proj Progress.index h

/-- A change that leaves the ancestors of a walk alone leaves that of each module. -/
theorem ancestor_update (h : ∀ q, (f q).ancestor = q.ancestor) :
    (r.update m f).ancestor x = r.ancestor x :=
  progressOf_update_proj Progress.ancestor h

theorem index_update_self (h : m < r.progress.length) :
    (r.update m f).index m = (f (r.progressOf m)).index :=
  congrArg Progress.index (progressOf_update_self h)

theorem ancestor_update_self (h : m < r.progress.length) :
    (r.update m f).ancestor m = (f (r.progressOf m)).ancestor :=
  congrArg Progress.ancestor (progressOf_update_self h)

/-- A change that does not touch the mark of instantiation leaves it on every module. -/
theorem isInstantiated_update (h : ∀ q, (f q).instantiated = q.instantiated) :
    (r.update m f).isInstantiated x = r.isInstantiated x :=
  progressOf_update_proj Progress.instantiated h

@[simp] theorem graph_update : (r.update m f).graph = r.graph := rfl
@[simp] theorem world_update : (r.update m f).world = r.world := rfl
@[simp] theorem calls_update (k : Service) : (r.update m f).calls k = r.calls k := rfl

@[simp] theorem length_update : (r.update m f).progress.length = r.progress.length := by
  simp [update]

variable {h : Happening}

@[simp] theorem graph_note : (r.note h).graph = r.graph := rfl
@[simp] theorem world_note : (r.note h).world = r.world := rfl
@[simp] theorem progress_note : (r.note h).progress = r.progress := rfl
@[simp] theorem state_note : (r.note h).state x = r.state x := rfl
@[simp] theorem history_note : (r.note h).history = r.history ++ [h] := rfl

theorem calls_note (k : Service) : (r.note h).calls k = r.calls k ++ (h.call? k).toList := by
  cases hc : h.call? k <;> simp [calls, hc]

/-! ### Moving modules -/

/-- Moving a module leaves the graph alone. -/
@[simp] theorem graph_move : (r.move m s).graph = r.graph := rfl

@[simp] theorem length_move : (r.move m s).progress.length = r.progress.length := by
  simp [move]

/-- Moving a module calls no service. -/
@[simp] theorem calls_move (k : Service) : (r.move m s).calls k = r.calls k := by
  simp [move, calls_note, Happening.call?]

@[simp] theorem index_move : (r.move m s).index x = r.index x :=
  index_update fun _ => rfl

@[simp] theorem ancestor_move : (r.move m s).ancestor x = r.ancestor x :=
  ancestor_update fun _ => rfl

/-- Moving a module does not mark it as instantiated. -/
@[simp] theorem isInstantiated_move : (r.move m s).isInstantiated x = r.isInstantiated x :=
  isInstantiated_update fun _ => rfl

/-- A module is moved to the state it is moved to. -/
theorem state_move_self (h : m < r.progress.length) : (r.move m s).state m = s :=
  congrArg Progress.state (progressOf_update_self h)

/-- When a module is moved, the others stay where they are. -/
theorem state_move_of_ne (h : x ≠ m) : (r.move m s).state x = r.state x :=
  congrArg Progress.state (progressOf_update_of_ne h)

/-- What has happened before stays in the history. -/
theorem prefix_history_move : r.history <+: (r.move m s).history := List.prefix_append _ _

variable {ms : List ModuleId}

/-- Modules are moved one after the other. -/
@[simp] theorem moveAll_cons : r.moveAll (m :: ms) s = (r.move m s).moveAll ms s := rfl

/-- What a single move keeps, many moves keep. -/
theorem moveAll_proj {α : Type} (p : Registry σ → α) (h : ∀ (r : Registry σ) m, p (r.move m s) = p r) :
    p (r.moveAll ms s) = p r := by
  induction ms generalizing r with
  | nil => rfl
  | cons m ms ih => rw [moveAll_cons, ih, h]

@[simp] theorem graph_moveAll : (r.moveAll ms s).graph = r.graph :=
  moveAll_proj graph fun _ _ => graph_move

@[simp] theorem length_moveAll : (r.moveAll ms s).progress.length = r.progress.length :=
  moveAll_proj (·.progress.length) fun _ _ => length_move

/-- Moving modules calls no service. -/
@[simp] theorem calls_moveAll (k : Service) : (r.moveAll ms s).calls k = r.calls k :=
  moveAll_proj (·.calls k) fun _ _ => calls_move k

@[simp] theorem index_moveAll : (r.moveAll ms s).index x = r.index x :=
  moveAll_proj (·.index x) fun _ _ => index_move

@[simp] theorem ancestor_moveAll : (r.moveAll ms s).ancestor x = r.ancestor x :=
  moveAll_proj (·.ancestor x) fun _ _ => ancestor_move

/-- Moving modules does not mark them as instantiated. -/
@[simp] theorem isInstantiated_moveAll : (r.moveAll ms s).isInstantiated x = r.isInstantiated x :=
  moveAll_proj (·.isInstantiated x) fun _ _ => isInstantiated_move

/-- What has happened before stays in the history, however many modules are moved. -/
theorem prefix_history_moveAll : r.history <+: (r.moveAll ms s).history := by
  induction ms generalizing r with
  | nil => exact List.prefix_refl _
  | cons m ms ih => exact prefix_history_move.trans ih

/-- A module that is not among those that are moved stays where it is. -/
theorem state_moveAll_of_notMem (h : x ∉ ms) : (r.moveAll ms s).state x = r.state x := by
  induction ms generalizing r with
  | nil => rfl
  | cons m ms ih =>
      rw [List.mem_cons, not_or] at h
      rw [moveAll_cons, ih h.2, state_move_of_ne h.1]

/-- All modules that are moved come to the state, each as often as it is named. -/
theorem state_moveAll_of_mem (h : x ∈ ms) (hx : x < r.progress.length) :
    (r.moveAll ms s).state x = s := by
  induction ms generalizing r with
  | nil => cases h
  | cons m ms ih =>
      by_cases hms : x ∈ ms
      · exact ih hms (by simpa using hx)
      · obtain rfl : x = m := (List.mem_cons.1 h).resolve_right hms
        rw [moveAll_cons, state_moveAll_of_notMem hms, state_move_self hx]

end Registry

namespace Walk

variable {σ : Type} {w : Walk σ} {m d x : ModuleId} {a s : ModuleState}

/-! ### Entering, inheriting, closing -/

/-- The module that a walk enters comes to the top of its stack. -/
@[simp] theorem stack_enter : (w.enter a m).stack = m :: w.stack := rfl

@[simp] theorem length_enter :
    (w.enter a m).registry.progress.length = w.registry.progress.length := by
  simp [enter]

/-- Entering a module calls no service. -/
@[simp] theorem calls_enter (k : Service) :
    (w.enter a m).registry.calls k = w.registry.calls k := by
  simp [enter]

/-- What has happened before a module is entered stays in the history. -/
theorem prefix_history_enter : w.registry.history <+: (w.enter a m).registry.history :=
  Registry.prefix_history_move

@[simp] theorem isInstantiated_enter :
    (w.enter a m).registry.isInstantiated x = w.registry.isInstantiated x :=
  calc (w.enter a m).registry.isInstantiated x
    _ = (w.registry.move m a).isInstantiated x := Registry.isInstantiated_update fun _ => rfl
    _ = w.registry.isInstantiated x := Registry.isInstantiated_move

/-- A module is entered by moving it. -/
theorem state_enter : (w.enter a m).registry.state x = (w.registry.move m a).state x :=
  Registry.state_update fun _ => rfl

/-- The module that a walk enters comes to the state of those it is at. -/
theorem state_enter_self (h : m < w.registry.progress.length) :
    (w.enter a m).registry.state m = a :=
  state_enter.trans (Registry.state_move_self h)

/-- The other modules stay where they are. -/
theorem state_enter_of_ne (h : x ≠ m) : (w.enter a m).registry.state x = w.registry.state x :=
  state_enter.trans (Registry.state_move_of_ne h)

/-- The module that a walk enters gets the next number. -/
theorem index_enter_self (h : m < w.registry.progress.length) :
    (w.enter a m).registry.index m = w.next :=
  Registry.index_update_self (by simpa using h)

theorem index_enter_of_ne (h : x ≠ m) : (w.enter a m).registry.index x = w.registry.index x :=
  (congrArg Progress.index (Registry.progressOf_update_of_ne h)).trans Registry.index_move

/-- It is its own ancestor at first. -/
theorem ancestor_enter_self (h : m < w.registry.progress.length) :
    (w.enter a m).registry.ancestor m = w.next :=
  Registry.ancestor_update_self (by simpa using h)

theorem ancestor_enter_of_ne (h : x ≠ m) :
    (w.enter a m).registry.ancestor x = w.registry.ancestor x :=
  (congrArg Progress.ancestor (Registry.progressOf_update_of_ne h)).trans Registry.ancestor_move

/-- A module inherits the ancestor of one that the walk is still at, if that came earlier. -/
theorem inherit_of_lt (hd : w.registry.state d = a)
    (h : w.registry.ancestor d < w.registry.ancestor m) :
    w.inherit a m d = { w with
      registry := w.registry.update m fun p => { p with ancestor := w.registry.ancestor d } } :=
  if_pos (by simpa [hd, Registry.ancestor] using h)

/-- Otherwise it inherits nothing. -/
theorem inherit_of_not (h : ¬ (w.registry.state d = a ∧
    w.registry.ancestor d < w.registry.ancestor m)) : w.inherit a m d = w :=
  if_neg (by simpa [Registry.ancestor] using h)

/-- What an update of the lowest reachable number keeps, inheriting keeps. -/
theorem inherit_proj {α : Type} (p : Walk σ → α)
    (h : ∀ n, p { w with registry := w.registry.update m fun q => { q with ancestor := n } } = p w) :
    p (w.inherit a m d) = p w := by
  by_cases hc : w.registry.state d = a ∧ w.registry.ancestor d < w.registry.ancestor m
  · rw [inherit_of_lt hc.1 hc.2, h]
  · rw [inherit_of_not hc]

@[simp] theorem graph_inherit : (w.inherit a m d).registry.graph = w.registry.graph :=
  inherit_proj (·.registry.graph) fun _ => rfl

@[simp] theorem stack_inherit : (w.inherit a m d).stack = w.stack :=
  inherit_proj (·.stack) fun _ => rfl

@[simp] theorem next_inherit : (w.inherit a m d).next = w.next :=
  inherit_proj (·.next) fun _ => rfl

@[simp] theorem history_inherit : (w.inherit a m d).registry.history = w.registry.history :=
  inherit_proj (·.registry.history) fun _ => rfl

/-- Inheriting an ancestor calls no service. -/
@[simp] theorem calls_inherit (k : Service) :
    (w.inherit a m d).registry.calls k = w.registry.calls k :=
  inherit_proj (·.registry.calls k) fun _ => rfl

@[simp] theorem length_inherit :
    (w.inherit a m d).registry.progress.length = w.registry.progress.length :=
  inherit_proj (·.registry.progress.length) fun _ => Registry.length_update

/-- Inheriting an ancestor moves no module. -/
@[simp] theorem state_inherit : (w.inherit a m d).registry.state x = w.registry.state x :=
  inherit_proj (·.registry.state x) fun _ => Registry.state_update fun _ => rfl

@[simp] theorem index_inherit : (w.inherit a m d).registry.index x = w.registry.index x :=
  inherit_proj (·.registry.index x) fun _ => Registry.index_update fun _ => rfl

@[simp] theorem isInstantiated_inherit :
    (w.inherit a m d).registry.isInstantiated x = w.registry.isInstantiated x :=
  inherit_proj (·.registry.isInstantiated x) fun _ => Registry.isInstantiated_update fun _ => rfl

/-- The other modules keep their ancestors. -/
theorem ancestor_inherit_of_ne (h : x ≠ m) :
    (w.inherit a m d).registry.ancestor x = w.registry.ancestor x :=
  inherit_proj (·.registry.ancestor x) fun _ =>
    congrArg Progress.ancestor (Registry.progressOf_update_of_ne h)

/-- A lower number of a dependency that is still open becomes the lowest number of the module;
otherwise the lowest number stays. -/
theorem ancestor_inherit_self (h : m < w.registry.progress.length) :
    (w.inherit a m d).registry.ancestor m =
      if w.registry.state d = a then min (w.registry.ancestor m) (w.registry.ancestor d)
      else w.registry.ancestor m := by
  by_cases hd : w.registry.state d = a
  · rw [if_pos hd]
    by_cases hlt : w.registry.ancestor d < w.registry.ancestor m
    · rw [inherit_of_lt hd hlt, Nat.min_eq_right (Nat.le_of_lt hlt)]
      exact Registry.ancestor_update_self h
    · rw [inherit_of_not fun hc => hlt hc.2, Nat.min_eq_left (Nat.le_of_not_lt hlt)]
  · rw [if_neg hd, inherit_of_not fun hc => hd hc.1]

/-- Closing a module that reaches nothing below itself takes everything entered after it along. -/
theorem close_of_eq {new below : List ModuleId} (hs : w.stack = new ++ m :: below) (hm : m ∉ new)
    (h : w.registry.ancestor m = w.registry.index m) :
    w.close s m = { w with registry := w.registry.moveAll (new ++ [m]) s, stack := below } := by
  have hne : ∀ x ∈ new, decide (x ≠ m) = true := by
    intro x hx
    simp only [decide_eq_true_eq]
    rintro rfl
    exact hm hx
  have htake : w.stack.takeWhile (· ≠ m) = new := by
    rw [hs, List.takeWhile_append_of_pos hne]
    simp
  have hdrop : (w.stack.dropWhile (· ≠ m)).drop 1 = below := by
    rw [hs, List.dropWhile_append_of_pos hne]
    simp
  simp only [close]
  rw [htake, hdrop]
  exact if_pos h

/-- A module that reaches one entered before it does not close its component. -/
theorem close_of_ne (h : w.registry.ancestor m ≠ w.registry.index m) : w.close s m = w := if_neg h

/-- What a single move keeps, closing keeps. -/
theorem close_proj {α : Type} (p : Registry σ → α)
    (h : ∀ (r : Registry σ) m, p (r.move m s) = p r) : p (w.close s m).registry = p w.registry := by
  simp only [close]
  split
  · exact Registry.moveAll_proj p h
  · rfl

@[simp] theorem graph_close : (w.close s m).registry.graph = w.registry.graph :=
  close_proj Registry.graph fun _ _ => Registry.graph_move

/-- Closing a component calls no service. -/
@[simp] theorem calls_close (k : Service) :
    (w.close s m).registry.calls k = w.registry.calls k :=
  close_proj (·.calls k) fun _ _ => Registry.calls_move k

/-- The numbers of the modules of a component stay after it is closed. -/
@[simp] theorem ancestor_close : (w.close s m).registry.ancestor x = w.registry.ancestor x :=
  close_proj (·.ancestor x) fun _ _ => Registry.ancestor_move

@[simp] theorem isInstantiated_close :
    (w.close s m).registry.isInstantiated x = w.registry.isInstantiated x :=
  close_proj (·.isInstantiated x) fun _ _ => Registry.isInstantiated_move

end Walk

/-! ### Attached modules -/

namespace Registry

variable {σ : Type} {r r' : Registry σ} {m d : ModuleId}

/-- What holds of a registry before its first request: the host was asked for nothing, and no module
has come further than being attached. -/
structure Unstarted (r : Registry σ) : Prop where
  length : r.progress.length = r.graph.length
  deps : ∀ n ∈ r.graph, ∀ d ∈ n.deps, d < r.graph.length
  fresh : ∀ p ∈ r.progress, (p.state = .new ∨ p.state = .unlinked) ∧ p.instantiated = false
  calls : ∀ k, r.calls k = []

/-- Every module of the registry is attached, and nothing else has happened to them. -/
structure Attached (r : Registry σ) : Prop extends Unstarted r where
  attached : ∀ p ∈ r.progress, p.state ≠ .new

/-- A module of the graph is unlinked until it is linked. -/
theorem Attached.state (h : r.Attached) (hm : m < r.graph.length) : r.state m = .unlinked := by
  rw [← h.length] at hm
  have := (h.fresh _ (List.getElem_mem hm)).1.resolve_left (h.attached _ (List.getElem_mem hm))
  simpa [Registry.state, progressOf, hm] using this

/-- No module is instantiated before it is linked. -/
theorem Attached.isInstantiated (h : r.Attached) : r.isInstantiated m = false := by
  by_cases hm : m < r.progress.length
  · have := (h.fresh _ (List.getElem_mem hm)).2
    simpa [Registry.isInstantiated, progressOf, hm] using this
  · simp [Registry.isInstantiated, progressOf, List.getElem?_eq_none (Nat.le_of_not_lt hm)]

/-- The dependencies of modules are modules of the graph. -/
theorem Attached.deps_lt (h : r.Attached) (hd : d ∈ r.graph.deps m) : d < r.graph.length := by
  by_cases hm : m < r.graph.length
  · refine h.deps _ (List.getElem_mem hm) d ?_
    simpa [Graph.deps, Graph.node, hm] using hd
  · simp [Graph.deps, Graph.node, List.getElem?_eq_none (Nat.le_of_not_lt hm)] at hd

/-- A module is unlinked, or there is no such module. -/
theorem Attached.state_cases (h : r.Attached) (m : ModuleId) :
    r.state m = .unlinked ∨ r.state m = .new := by
  by_cases hm : m < r.graph.length
  · exact .inl (h.state hm)
  · exact .inr (state_of_length_le (h.length ▸ Nat.le_of_not_lt hm))

/-- A registry that comes about by creating modules and attaching their contents; the dependencies of
a module are created before its contents are attached. -/
inductive Built : Registry σ → Prop where
  | empty (world : σ) : Built { world }
  | create {r : Registry σ} (h : Built r) (path : Text) : Built (r.getOrCreate path).1
  | attach {r r' : Registry σ} {m : ModuleId} {c : Compiled} {deps : List ModuleId} (h : Built r)
      (hd : ∀ d ∈ deps, d < r.size) (ha : r.attach m c deps = .ok r') : Built r'

/-- Creating a module starts none. -/
theorem Unstarted.create (h : r.Unstarted) (path : Text) : (r.getOrCreate path).1.Unstarted := by
  simp only [getOrCreate]
  split
  · exact h
  · refine ⟨by simp [h.length], fun n hn d hd => ?_, fun p hp => ?_, h.calls⟩
    · rw [List.length_append]
      rcases List.mem_append.1 hn with hn | hn
      · exact Nat.lt_add_right _ (h.deps n hn d hd)
      · rw [List.mem_singleton.1 hn] at hd
        cases hd
    · rcases List.mem_append.1 hp with hp | hp
      · exact h.fresh p hp
      · rw [List.mem_singleton.1 hp]
        exact ⟨.inl rfl, rfl⟩

/-- What is in a modified list was there before, or comes of something that was. -/
theorem mem_modify {α : Type} {l : List α} {i : Nat} {f : α → α} {x : α} (h : x ∈ l.modify i f) :
    x ∈ l ∨ ∃ y ∈ l, x = f y := by
  obtain ⟨j, hj, rfl⟩ := List.mem_iff_getElem.1 h
  rw [List.length_modify] at hj
  rw [List.getElem_modify]
  split
  · exact .inr ⟨_, List.getElem_mem hj, rfl⟩
  · exact .inl (List.getElem_mem hj)

/-- Attaching what was compiled for a module starts none. -/
theorem Unstarted.attach {c : Compiled} {deps : List ModuleId} (h : r.Unstarted)
    (hd : ∀ d ∈ deps, d < r.size) (ha : r.attach m c deps = .ok r') : r'.Unstarted := by
  rw [Registry.attach] at ha
  split at ha
  · cases ha
  · cases ha
    refine ⟨by simp [h.length], fun n hn d hd' => ?_, fun p hp => ?_, fun k => ?_⟩
    · rw [graph_move, List.length_modify]
      rcases mem_modify hn with hn | ⟨n', -, rfl⟩
      · exact h.deps n hn d hd'
      · exact hd d hd'
    · rcases mem_modify hp with hp | ⟨p', hp', rfl⟩
      · exact h.fresh p hp
      · exact ⟨.inr rfl, (h.fresh p' hp').2⟩
    · exact (calls_move k).trans (h.calls k)

/-- However a registry is built, no module of it has started. -/
theorem Built.unstarted (h : r.Built) : r.Unstarted := by
  induction h with
  | empty => exact ⟨rfl, by simp, by simp, fun _ => rfl⟩
  | create _ path ih => exact ih.create path
  | attach _ hd ha ih => exact ih.attach hd ha

/-- **A registry whose modules are all attached is ready for requests.** -/
theorem Built.attached (h : r.Built) (hall : ∀ m < r.size, r.state m ≠ .new) : r.Attached where
  toUnstarted := h.unstarted
  attached p hp := by
    obtain ⟨m, hm, rfl⟩ := List.mem_iff_getElem.1 hp
    have := hall m (Nat.lt_of_lt_of_eq hm h.unstarted.length)
    simpa [Registry.state, progressOf, hm] using this

end Registry

end ModuleSystem
