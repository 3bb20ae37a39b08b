import Mathlib.Algebra.Order.Ring.Nat
import Mathlib.Data.Finset.Card
import Mathlib.Data.Prod.Lex
import Mathlib.Data.Set.Finite.Lattice
import Mathlib.Data.Set.Finite.List
import Mathlib.Logic.Relation
import ModuleSystem.Loader.Load

/-!
# Loader — the workers of a load

The workers of a load take their steps in any order.  `Load.Moves` lists what a step can do; what a load
keeps is derived from it.

* `Load.Covers`: nothing that was asked for is forgotten.  It holds while other imports add modules to
  the registry and files change.
* `Load.Grounded`: nothing is asked for, loaded or reported that the imports do not lead to.
* `Load.Grounded.accessible`: a load comes to an end, whatever the order of the steps and however
  modules import each other, if only finitely many modules are reached.
-/

namespace ModuleSystem

/-- The module that a worker is to load. -/
def Worker.module? : Worker → Option Text
  | .ready path | .loading path => some path
  | _ => none

/-- The dependencies that a worker is to ask for. -/
def Worker.asks : Worker → List Text
  | .visiting deps => deps
  | _ => []

/-- The steps that a worker has before it until its module is loaded, if that is one of `files`. -/
def Worker.ahead (files : Finset Text) : Worker → Nat
  | .ready path => if path ∈ files then 2 else 0
  | .loading path => if path ∈ files then 1 else 0
  | _ => 0

/-- What a worker has left to do, workers for modules that cannot be loaded included. -/
def Worker.todo : Worker → Nat
  | .ready _ => 3
  | .loading _ => 2
  | .visiting deps => 4 * deps.length + 1
  | .stopping => 1

namespace Load

variable {isKnown : Text → Bool} {load : Text → Except ModuleError Loaded} {root path d : Text}
  {l l' : Load} {i : Nat}

/-! ### Asking for a module -/

/-- The three things that asking for a module can do. -/
theorem visit_cases (isKnown : Text → Bool) (l : Load) (d : Text) :
    (d ∈ l.visited ∧ visit isKnown l d = l) ∨
    (d ∉ l.visited ∧ isKnown d = true ∧ visit isKnown l d = { l with visited := d :: l.visited }) ∨
    (d ∉ l.visited ∧ isKnown d = false ∧ visit isKnown l d =
      { l with visited := d :: l.visited, workers := l.workers ++ [.ready d] }) := by
  by_cases hd : d ∈ l.visited
  · exact .inl ⟨hd, if_pos (by simpa using hd)⟩
  · have hd' : ¬ l.visited.contains d = true := by simpa using hd
    cases hk : isKnown d with
    | true => exact .inr (.inl ⟨hd, rfl, (if_neg hd').trans (if_pos hk)⟩)
    | false => exact .inr (.inr ⟨hd, rfl, (if_neg hd').trans (if_neg (by simp [hk]))⟩)

@[simp] theorem loaded_visit : (visit isKnown l d).loaded = l.loaded := by
  rcases visit_cases isKnown l d with ⟨-, e⟩ | ⟨-, -, e⟩ | ⟨-, -, e⟩ <;> rw [e]

@[simp] theorem error_visit : (visit isKnown l d).error = l.error := by
  rcases visit_cases isKnown l d with ⟨-, e⟩ | ⟨-, -, e⟩ | ⟨-, -, e⟩ <;> rw [e]

@[simp] theorem canceled_visit : (visit isKnown l d).canceled = l.canceled := by
  rcases visit_cases isKnown l d with ⟨-, e⟩ | ⟨-, -, e⟩ | ⟨-, -, e⟩ <;> rw [e]

/-- A module that is asked for has been visited. -/
@[simp] theorem mem_visited_visit {p : Text} :
    p ∈ (visit isKnown l d).visited ↔ p = d ∨ p ∈ l.visited := by
  rcases visit_cases isKnown l d with ⟨hd, e⟩ | ⟨-, -, e⟩ | ⟨-, -, e⟩ <;> rw [e]
  · refine ⟨.inr, ?_⟩
    rintro (rfl | hp)
    · exact hd
    · exact hp
  · exact List.mem_cons
  · exact List.mem_cons

/-- A module that is asked for gets a worker, unless it was visited or is known. -/
@[simp] theorem mem_workers_visit {w : Worker} : w ∈ (visit isKnown l d).workers ↔
    w ∈ l.workers ∨ w = .ready d ∧ d ∉ l.visited ∧ isKnown d = false := by
  rcases visit_cases isKnown l d with ⟨hd, e⟩ | ⟨hd, hk, e⟩ | ⟨hd, hk, e⟩ <;> rw [e]
  · simp [hd]
  · simp [hk]
  · simp [hd, hk]

/-! ### What a step can do -/

/-- A worker fails with an error: it finds that the load has been given up, or cannot load its module. -/
inductive Fails (load : Text → Except ModuleError Loaded) (l : Load) : Worker → LoadError → Prop where
  | canceled (path : Text) (h : l.canceled = true) : Fails load l (.ready path) .canceled
  | module {path : Text} {e : ModuleError} (h : load path = .error e) :
      Fails load l (.loading path) (.module e)

/-- What a step of a worker can do. -/
inductive Moves (isKnown : Text → Bool) (load : Text → Except ModuleError Loaded) (l : Load) :
    Load → Prop where
  | begun {before after : List Worker} {path : Text}
      (at_ : l.workers = before ++ .ready path :: after) (going : l.canceled = false) :
      Moves isKnown load l { l with workers := before ++ .loading path :: after }
  | arrived {before after : List Worker} {path : Text} {m : Loaded}
      (at_ : l.workers = before ++ .loading path :: after) (ok : load path = .ok m) :
      Moves isKnown load l
        { l with workers := before ++ .visiting m.deps :: after, loaded := l.loaded ++ [m] }
  | failedFirst {before after : List Worker} {w : Worker} {e : LoadError}
      (at_ : l.workers = before ++ w :: after) (fails : Fails load l w e) (first : l.error = none) :
      Moves isKnown load l { l with workers := before ++ .stopping :: after, error := some e }
  | failedLater {before after : List Worker} {w : Worker} {e : LoadError}
      (at_ : l.workers = before ++ w :: after) (fails : Fails load l w e)
      (later : l.error.isSome = true) :
      Moves isKnown load l { l with workers := before ++ after }
  | asked {before after : List Worker} {d : Text} {ds : List Text}
      (at_ : l.workers = before ++ .visiting (d :: ds) :: after) :
      Moves isKnown load l (visit isKnown { l with workers := before ++ .visiting ds :: after } d)
  | finished {before after : List Worker} (at_ : l.workers = before ++ .visiting [] :: after) :
      Moves isKnown load l { l with workers := before ++ after }
  | stopped {before after : List Worker} (at_ : l.workers = before ++ .stopping :: after) :
      Moves isKnown load l { l with workers := before ++ after, canceled := true }

/-- An element of a list has others before and behind it. -/
theorem exists_split {α : Type} {xs : List α} {x : α} (h : xs[i]? = some x) :
    ∃ before after, xs = before ++ x :: after ∧ (∀ y, xs.set i y = before ++ y :: after) ∧
      xs.eraseIdx i = before ++ after := by
  obtain ⟨hi, rfl⟩ := List.getElem?_eq_some_iff.1 h
  refine ⟨xs.take i, xs.drop (i + 1), ?_, fun y => List.set_eq_take_append_cons_drop.trans (if_pos hi), ?_⟩
  · rw [List.getElem_cons_drop, List.take_append_drop]
  · exact List.eraseIdx_eq_take_drop_succ _ _

theorem mem_of_eq {before after : List Worker} {w : Worker} (at_ : l.workers = before ++ w :: after) :
    w ∈ l.workers := by
  simp [at_]

/-- The others stay when a worker leaves. -/
theorem eq_or_mem {before after : List Worker} {w x : Worker} (at_ : l.workers = before ++ w :: after)
    (hx : x ∈ l.workers) : x = w ∨ x ∈ before ++ after := by
  rw [at_] at hx
  simp only [List.mem_append, List.mem_cons] at hx ⊢
  tauto

theorem mem_of_mem {before after : List Worker} {w x : Worker} (at_ : l.workers = before ++ w :: after)
    (hx : x ∈ before ++ after) : x ∈ l.workers := by
  rw [at_]
  simp only [List.mem_append, List.mem_cons] at hx ⊢
  tauto

/-- A worker that is replaced is the one, or one of the others. -/
theorem mem_replaced {before after : List Worker} {w x : Worker} :
    x ∈ before ++ w :: after ↔ x = w ∨ x ∈ before ++ after := by
  simp only [List.mem_append, List.mem_cons]
  tauto

/-- A worker that fails ends, and the first error is kept. -/
theorem fail_moves {before after : List Worker} {w : Worker} {e : LoadError}
    (at_ : l.workers = before ++ w :: after) (fails : Fails load l w e)
    (set : ∀ y, l.workers.set i y = before ++ y :: after)
    (erase : l.workers.eraseIdx i = before ++ after) : Moves isKnown load l (l.fail i e) := by
  unfold fail
  split
  · rename_i first
    rw [place, set]
    exact .failedFirst at_ fails first
  · rename_i e' later
    rw [leave, erase]
    exact .failedLater at_ fails (by simp [later])

/-- **A step of a worker does one of these.** -/
theorem advance_moves (hi : i < l.workers.length) : Moves isKnown load l (l.advance isKnown load i) := by
  obtain ⟨before, after, at_, set, erase⟩ := exists_split (List.getElem?_eq_getElem hi)
  rw [advance, List.getElem?_eq_getElem hi]
  generalize l.workers[i] = w at at_
  cases w with
  | ready path =>
      dsimp only
      split
      · rename_i hc
        exact fail_moves at_ (.canceled path hc) set erase
      · rename_i hc
        rw [place, set]
        exact .begun at_ (by simpa using hc)
  | loading path =>
      dsimp only
      split
      · rename_i m ok
        rw [place, set]
        exact .arrived at_ ok
      · rename_i e he
        exact fail_moves at_ (.module he) set erase
  | visiting deps =>
      cases deps with
      | nil =>
          dsimp only
          rw [leave, erase]
          exact .finished at_
      | cons d ds =>
          dsimp only
          rw [place, set]
          exact .asked at_
  | stopping =>
      dsimp only
      rw [leave, erase]
      exact .stopped at_

/-- A step of some worker. -/
def Step (isKnown : Text → Bool) (load : Text → Except ModuleError Loaded) (l l' : Load) : Prop :=
  ∃ i < l.workers.length, l' = l.advance isKnown load i

/-- A step is one of these moves. -/
theorem Step.moves (h : Step isKnown load l l') : Moves isKnown load l l' := by
  obtain ⟨i, hi, rfl⟩ := h
  exact advance_moves hi

/-- What is loaded was loaded before, or just now. -/
theorem Moves.mem_loaded {m : Loaded} (h : Moves isKnown load l l') (hm : m ∈ l'.loaded) :
    m ∈ l.loaded ∨ ∃ p, load p = .ok m := by
  cases h with
  | arrived _ ok =>
      rcases List.mem_append.1 hm with hm | hm
      · exact .inl hm
      · rw [List.mem_singleton.1 hm]
        exact .inr ⟨_, ok⟩
  | asked =>
      rw [loaded_visit] at hm
      exact .inl hm
  | _ => exact .inl hm

variable {known known' : Text → Prop} {Is : Text → Loaded → Prop}

/-- A module is known, is loaded, or has a worker that will load it, unless the load has failed.  `Is`
says what the contents of a path can be. -/
def Accounted (known : Text → Prop) (Is : Text → Loaded → Prop) (l : Load) (p : Text) : Prop :=
  known p ∨ (∃ m ∈ l.loaded, Is p m) ∨ (∃ w ∈ l.workers, w.module? = some p) ∨ l.error.isSome = true

/-- A module was asked for or will be. -/
def Asked (l : Load) (d : Text) : Prop := d ∈ l.visited ∨ ∃ w ∈ l.workers, d ∈ w.asks

/-- Nothing that was asked for is forgotten, and no dependency of a loaded module. -/
structure Covers (known : Text → Prop) (Is : Text → Loaded → Prop) (root : Text) (l : Load) :
    Prop where
  asked : root ∈ l.visited
  visited : ∀ p ∈ l.visited, l.Accounted known Is p
  deps : ∀ m ∈ l.loaded, ∀ d ∈ m.deps, l.Asked d

/-- More may be known than before. -/
theorem Covers.mono (h : Covers known Is root l) (hk : ∀ p, known p → known' p) :
    Covers known' Is root l where
  asked := h.asked
  visited p hp := (h.visited p hp).imp_left (hk p)
  deps := h.deps

/-- A load begins with its root asked for. -/
theorem Covers.begin (hk : ∀ p, isKnown p = true → known p) (root : Text) :
    Covers known Is root (visit isKnown {} root) where
  asked := by simp
  visited p hp := by
    obtain rfl : p = root := by simpa using hp
    cases new : isKnown p with
    | true => exact .inl (hk p new)
    | false => exact .inr (.inr (.inl ⟨.ready p, by simp [new], rfl⟩))
  deps m hm := by simp at hm

/-- One worker takes a step, and the load has all that it had.  If what this worker was to do is done or
left to others, nothing is forgotten. -/
theorem Covers.step (h : Covers known Is root l) {w : Worker}
    (others : ∀ x ∈ l.workers, x = w ∨ x ∈ l'.workers) (visited : l.visited ⊆ l'.visited)
    (loaded : l.loaded ⊆ l'.loaded) (error : l.error.isSome = true → l'.error.isSome = true)
    (new : ∀ p ∈ l'.visited, p ∈ l.visited ∨ l'.Accounted known Is p)
    (deps : ∀ m ∈ l'.loaded, m ∈ l.loaded ∨ ∀ d ∈ m.deps, l'.Asked d)
    (module : ∀ p, w.module? = some p → l'.Accounted known Is p)
    (asks : ∀ d ∈ w.asks, l'.Asked d) : Covers known Is root l' := by
  refine ⟨visited h.asked, fun p hp => ?_, fun m hm d hd => ?_⟩
  · rcases new p hp with hp | accounted
    · rcases h.visited p hp with hk | ⟨m, hm, is⟩ | ⟨x, hx, hxp⟩ | he
      · exact .inl hk
      · exact .inr (.inl ⟨m, loaded hm, is⟩)
      · rcases others x hx with rfl | hx
        · exact module p hxp
        · exact .inr (.inr (.inl ⟨x, hx, hxp⟩))
      · exact .inr (.inr (.inr (error he)))
    · exact accounted
  · rcases deps m hm with hm | asked
    · rcases h.deps m hm d hd with hd | ⟨x, hx, hxd⟩
      · exact .inl (visited hd)
      · rcases others x hx with rfl | hx
        · exact asks d hxd
        · exact .inr ⟨x, hx, hxd⟩
    · exact asked d hd

/-- **A step forgets nothing.** -/
theorem Covers.moves (h : Covers known Is root l) (hk : ∀ p, isKnown p = true → known p)
    (hload : ∀ p m, load p = .ok m → Is p m) (hm : Moves isKnown load l l') : Covers known Is root l' := by
  cases hm with
  | @begun before after path at_ =>
      refine h.step (fun x hx => (eq_or_mem at_ hx).imp_right fun hx => mem_replaced.2 (.inr hx))
        (fun _ h => h) (fun _ h => h) id (fun _ => .inl) (fun _ => .inl) (fun p hp => ?_) nofun
      exact .inr (.inr (.inl ⟨.loading path, by simp, hp⟩))
  | @arrived before after path m at_ ok =>
      refine h.step (fun x hx => (eq_or_mem at_ hx).imp_right fun hx => mem_replaced.2 (.inr hx))
        (fun _ h => h) (fun _ => List.mem_append_left _) id (fun _ => .inl) (fun m' hm' => ?_)
        (fun p hp => ?_) nofun
      · rcases List.mem_append.1 hm' with hm' | hm'
        · exact .inl hm'
        · rw [List.mem_singleton.1 hm']
          exact .inr fun d hd => .inr ⟨.visiting m.deps, by simp, hd⟩
      · cases hp
        exact .inr (.inl ⟨m, by simp, hload path m ok⟩)
  | failedFirst at_ fails =>
      refine h.step (fun x hx => (eq_or_mem at_ hx).imp_right fun hx => mem_replaced.2 (.inr hx))
        (fun _ h => h) (fun _ h => h) (fun _ => rfl) (fun _ => .inl) (fun _ => .inl)
        (fun p hp => .inr (.inr (.inr rfl))) ?_
      cases fails <;> nofun
  | failedLater at_ fails later =>
      refine h.step (fun x hx => eq_or_mem at_ hx) (fun _ h => h) (fun _ h => h) id (fun _ => .inl)
        (fun _ => .inl) (fun p hp => .inr (.inr (.inr later))) ?_
      cases fails <;> nofun
  | @asked before after d ds at_ =>
      refine h.step (w := .visiting (d :: ds)) (fun x hx => ?_) (fun p hp => ?_) (fun m hm => ?_) ?_
        (fun p hp => ?_) (fun m hm => ?_) nofun (fun d' hd' => ?_)
      · refine (eq_or_mem at_ hx).imp_right fun hx => mem_workers_visit.2 (.inl ?_)
        exact mem_replaced.2 (.inr hx)
      · exact mem_visited_visit.2 (.inr hp)
      · rwa [loaded_visit]
      · rw [error_visit]
        exact id
      · rcases mem_visited_visit.1 hp with rfl | hp
        · -- the dependency is accounted for: visited before, known, or with a worker of its own
          by_cases hv : p ∈ l.visited
          · exact .inl hv
          · cases new : isKnown p with
            | true => exact .inr (.inl (hk p new))
            | false => exact .inr (.inr (.inr (.inl ⟨.ready p, by simp [hv, new], rfl⟩)))
        · exact .inl hp
      · rw [loaded_visit] at hm
        exact .inl hm
      · rcases List.mem_cons.1 hd' with rfl | hd'
        · exact .inl (mem_visited_visit.2 (.inl rfl))
        · exact .inr ⟨.visiting ds, mem_workers_visit.2 (.inl (by simp)), hd'⟩
  | finished at_ | stopped at_ =>
      exact h.step (fun x hx => eq_or_mem at_ hx) (fun _ h => h) (fun _ h => h) id (fun _ => .inl)
        (fun _ => .inl) nofun nofun

/-- A load that gives modules had no error. -/
theorem eq_of_result_eq_ok {root' : Text} {ms : List Loaded} (h : l.result root = .ok (root', ms)) :
    l.error = none ∧ root' = root ∧ ms = l.loaded := by
  rw [result] at h
  split at h
  · cases h
  · cases h
    exact ⟨‹_›, rfl, rfl⟩

/-- When the workers have nothing left to do, a load that has not failed has everything that it asked
for, and has asked for all dependencies. -/
theorem Covers.complete (h : Covers known Is root l) (hw : l.workers = []) (he : l.error = none) :
    (∀ p ∈ l.visited, known p ∨ ∃ m ∈ l.loaded, Is p m) ∧
    ∀ m ∈ l.loaded, ∀ d ∈ m.deps, d ∈ l.visited := by
  constructor
  · intro p hp
    simpa [Accounted, hw, he] using h.visited p hp
  · intro m hm d hd
    simpa [Asked, hw] using h.deps m hm d hd

/-! ### Nothing is made up -/

/-- The modules that the imports lead to from a root, where known modules are not looked into. -/
inductive Reached (isKnown : Text → Bool) (load : Text → Except ModuleError Loaded) (root : Text) :
    Text → Prop where
  | root : Reached isKnown load root root
  | dep {p d : Text} {m : Loaded} (h : Reached isKnown load root p) (new : isKnown p = false)
      (ok : load p = .ok m) (hd : d ∈ m.deps) : Reached isKnown load root d

/-- A module that is to be loaded. -/
def Wanted (isKnown : Text → Bool) (load : Text → Except ModuleError Loaded) (root p : Text) : Prop :=
  Reached isKnown load root p ∧ isKnown p = false

/-- What a worker does is done for modules that the imports lead to. -/
def Justified (isKnown : Text → Bool) (load : Text → Except ModuleError Loaded) (root : Text)
    (failed : Bool) : Worker → Prop
  | .ready p | .loading p => Wanted isKnown load root p
  | .visiting deps => ∀ d ∈ deps, Reached isKnown load root d
  | .stopping => failed = true

/-- Nothing is asked for, loaded or reported that the imports do not lead to from the root.  The load is
given up only after an error was recorded, and so the error is one of a module. -/
structure Grounded (isKnown : Text → Bool) (load : Text → Except ModuleError Loaded) (root : Text)
    (l : Load) : Prop where
  workers : ∀ w ∈ l.workers, Justified isKnown load root l.error.isSome w
  loaded : ∀ m ∈ l.loaded, ∃ p, Wanted isKnown load root p ∧ load p = .ok m
  error : ∀ e, l.error = some e →
    ∃ p e', Wanted isKnown load root p ∧ load p = .error e' ∧ e = .module e'
  canceled : l.canceled = true → l.error.isSome = true

/-- A worker that is justified stays so after a failure. -/
theorem Justified.mono {w : Worker} {failed failed' : Bool} (h : Justified isKnown load root failed w)
    (hf : failed = true → failed' = true) : Justified isKnown load root failed' w := by
  cases w with
  | stopping => exact hf h
  | _ => exact h

/-- A load begins with nothing made up. -/
theorem Grounded.begin (isKnown : Text → Bool) (load : Text → Except ModuleError Loaded)
    (root : Text) : Grounded isKnown load root (visit isKnown {} root) where
  workers w hw := by
    obtain ⟨rfl, new⟩ : w = .ready root ∧ isKnown root = false := by simpa using hw
    exact ⟨.root, new⟩
  loaded m hm := by simp at hm
  error e he := by simp at he
  canceled hc := by simp at hc

/-- A worker is replaced by one that is justified. -/
theorem Grounded.replaced (h : Grounded isKnown load root l) {before after : List Worker}
    {w w' : Worker} (at_ : l.workers = before ++ w :: after)
    (hw : Justified isKnown load root l.error.isSome w') :
    ∀ x ∈ before ++ w' :: after, Justified isKnown load root l.error.isSome x := by
  intro x hx
  rcases mem_replaced.1 hx with rfl | hx
  · exact hw
  · exact h.workers x (mem_of_mem at_ hx)

/-- **A step makes nothing up.** -/
theorem Grounded.moves (h : Grounded isKnown load root l) (hm : Moves isKnown load l l') :
    Grounded isKnown load root l' := by
  cases hm with
  | begun at_ =>
      have wanted := h.workers _ (mem_of_eq at_)
      exact ⟨h.replaced at_ wanted, h.loaded, h.error, h.canceled⟩
  | @arrived before after path m at_ ok =>
      have wanted : Wanted isKnown load root path := h.workers _ (mem_of_eq at_)
      refine ⟨h.replaced at_ fun d hd => .dep wanted.1 wanted.2 ok hd, fun m' hm' => ?_, h.error,
        h.canceled⟩
      rcases List.mem_append.1 hm' with hm' | hm'
      · exact h.loaded m' hm'
      · rw [List.mem_singleton.1 hm']
        exact ⟨path, wanted, ok⟩
  | @failedFirst before after w e at_ fails first =>
      have justified := h.workers w (mem_of_eq at_)
      cases fails with
      | canceled path hc =>
          -- nobody gives the load up before an error is recorded
          have := h.canceled hc
          simp [first] at this
      | @module path e he =>
          refine ⟨fun x hx => ?_, h.loaded, fun e' he' => ?_, fun _ => rfl⟩
          · rcases mem_replaced.1 hx with rfl | hx
            · exact rfl
            · exact (h.workers x (mem_of_mem at_ hx)).mono fun _ => rfl
          · cases he'
            exact ⟨path, e, justified, he, rfl⟩
  | failedLater at_ =>
      exact ⟨fun x hx => h.workers x (mem_of_mem at_ hx), h.loaded, h.error, h.canceled⟩
  | @asked before after d ds at_ =>
      have reached : ∀ d' ∈ d :: ds, Reached isKnown load root d' := h.workers _ (mem_of_eq at_)
      obtain ⟨hd, hds⟩ := List.forall_mem_cons.1 reached
      refine ⟨fun x hx => ?_, ?_, ?_, ?_⟩
      · rw [error_visit]
        rcases mem_workers_visit.1 hx with hx | ⟨rfl, -, new⟩
        · have rest : Justified isKnown load root l.error.isSome (.visiting ds) := hds
          exact h.replaced at_ rest x hx
        · exact ⟨hd, new⟩
      · rw [loaded_visit]
        exact h.loaded
      · rw [error_visit]
        exact h.error
      · rw [canceled_visit, error_visit]
        exact h.canceled
  | finished at_ =>
      exact ⟨fun x hx => h.workers x (mem_of_mem at_ hx), h.loaded, h.error, h.canceled⟩
  | stopped at_ =>
      exact ⟨fun x hx => h.workers x (mem_of_mem at_ hx), h.loaded, h.error,
        fun _ => h.workers _ (mem_of_eq at_)⟩

/-! ### A load comes to an end -/

/-- What is left to do until all modules in `files` are loaded.  A module that is yet to be asked for
outweighs what is left to do for it then. -/
def ahead (files : Finset Text) (l : Load) : Nat :=
  3 * (files.filter (· ∉ l.visited)).card + (l.workers.map (Worker.ahead files)).sum

/-- What the workers have left to do. -/
def todo (l : Load) : Nat := (l.workers.map Worker.todo).sum

/-- A file that is visited for the first time leaves fewer unvisited. -/
theorem card_unvisited_lt {files : Finset Text} (hd : d ∈ files) (hv : d ∉ l.visited) :
    (files.filter (· ∉ d :: l.visited)).card < (files.filter (· ∉ l.visited)).card := by
  refine Finset.card_lt_card ⟨?_, ?_⟩
  · intro x hx
    simp at hx ⊢
    tauto
  · intro hsub
    have := hsub (Finset.mem_filter.2 ⟨hd, hv⟩)
    simp at this

/-- Visiting something else leaves the same files unvisited. -/
theorem filter_unvisited_cons {files : Finset Text} (hd : d ∉ files) :
    files.filter (fun x => ¬ x = d ∧ x ∉ l.visited) = files.filter (· ∉ l.visited) := by
  refine Finset.filter_congr fun x hx => ?_
  have : x ≠ d := fun e => hd (e ▸ hx)
  simp [this]

/-- What is ahead of a load is bounded by the number of files. -/
theorem ahead_begin_le (files : Finset Text) (isKnown : Text → Bool) (root : Text) :
    ahead files (visit isKnown {} root) ≤ 3 * files.card + 2 := by
  have le := fun visited : List Text => Finset.card_filter_le files (· ∉ visited)
  rcases visit_cases isKnown {} root with ⟨hd, -⟩ | ⟨-, -, e⟩ | ⟨-, -, e⟩
  · cases hd
  · rw [e]
    have := le [root]
    simp only [ahead, List.map_nil, List.sum_nil]
    omega
  · rw [e]
    have := le [root]
    simp only [ahead, List.nil_append, List.map_cons, List.map_nil, List.sum_cons, List.sum_nil,
      Worker.ahead]
    split <;> omega

/-- A worker that fails has had something left to do. -/
theorem Fails.less {files : Finset Text} {w : Worker} {e : LoadError} (h : Fails load l w e) :
    0 < w.ahead files ∨ w.ahead files = 0 ∧ 1 < w.todo := by
  cases h <;> simp only [Worker.ahead, Worker.todo] <;> split <;> simp

/-- **Every step leaves less to do**, if `files` has all modules that can be loaded.  How many
dependencies a module has is known only when it is loaded, so that less is ahead then but more is to
do. -/
theorem Moves.less {files : Finset Text} (hm : Moves isKnown load l l')
    (hf : ∀ p m, .loading p ∈ l.workers → load p = .ok m → p ∈ files) :
    ahead files l' < ahead files l ∨ ahead files l' = ahead files l ∧ todo l' < todo l := by
  cases hm with
  | @begun before after path at_ =>
      simp only [ahead, todo, at_, List.map_append, List.map_cons, List.sum_append, List.sum_cons,
        Worker.ahead, Worker.todo]
      split <;> omega
  | @arrived before after path m at_ ok =>
      left
      simp [ahead, at_, Worker.ahead, hf path m (by simp [at_]) ok]
  | failedFirst at_ fails =>
      have := @fails.less _ _ files
      simp [ahead, todo, at_, Worker.ahead, Worker.todo] at this ⊢
      omega
  | failedLater at_ fails =>
      have := @fails.less _ _ files
      simp [ahead, todo, at_] at this ⊢
      omega
  | @asked before after d ds at_ =>
      -- a module that is visited for the first time is no longer ahead, unless it cannot be loaded
      rcases visit_cases isKnown { l with workers := before ++ .visiting ds :: after } d with
        ⟨-, e⟩ | ⟨hv, -, e⟩ | ⟨hv, -, e⟩ <;> rw [e]
      · right
        simp [ahead, todo, at_, Worker.ahead, Worker.todo]
      · by_cases hd : d ∈ files
        · left
          have := card_unvisited_lt hd hv
          simp [ahead, at_, Worker.ahead] at this ⊢
          omega
        · right
          simp [ahead, todo, at_, Worker.ahead, Worker.todo, filter_unvisited_cons hd]
      · by_cases hd : d ∈ files
        · left
          have := card_unvisited_lt hd hv
          simp [ahead, at_, Worker.ahead, hd] at this ⊢
          omega
        · right
          simp [ahead, todo, at_, Worker.ahead, Worker.todo, hd, filter_unvisited_cons hd]
          omega
  | finished at_ | stopped at_ =>
      right
      simp [ahead, todo, at_, Worker.ahead, Worker.todo]

/-- What a load can come to, from its beginning and by steps of its workers in any order. -/
def Run (isKnown : Text → Bool) (load : Text → Except ModuleError Loaded) (root : Text) : Load → Prop :=
  Relation.ReflTransGen (Step isKnown load) (visit isKnown {} root)

/-- A load makes nothing up, however far it has come. -/
theorem Run.grounded (h : Run isKnown load root l) : Grounded isKnown load root l := by
  induction h with
  | refl => exact .begin isKnown load root
  | tail _ step ih => exact ih.moves step.moves

/-- A load forgets nothing, however far it has come. -/
theorem Run.covers (h : Run isKnown load root l) :
    Covers (isKnown · = true) (fun p m => load p = .ok m) root l := by
  induction h with
  | refl => exact .begin (fun _ h => h) root
  | tail _ step ih => exact ih.moves (fun _ h => h) (fun _ _ h => h) step.moves

/-- **A load fails for a module that cannot be loaded**, and never because it was given up. -/
theorem Run.cause (h : Run isKnown load root l) {e : ModuleError} (he : l.result root = .error e) :
    ∃ p, Wanted isKnown load root p ∧ load p = .error e ∧ l.error = some (.module e) := by
  rw [result] at he
  split at he
  · rename_i e' he'
    obtain ⟨p, e'', wanted, cannot, rfl⟩ := h.grounded.error e' he'
    cases he
    exact ⟨p, wanted, cannot, he'⟩
  · cases he

end Load

end ModuleSystem
