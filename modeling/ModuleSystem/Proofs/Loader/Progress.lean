import ModuleSystem.Proofs.Loader.Session
import ModuleSystem.Proofs.Loader.Tickets

/-!
# Loader — imports come to an end

Those who take part in a session go on by themselves: specifiers are resolved, workers load modules, the
event loop runs tasks, and callbacks run (`Session.Goes`).  Nothing of this waits for something that
never comes.

* `exists_goes`: while the loop runs, someone can go on.
* `less`: whoever goes on leaves less to do, if only finitely many modules can be loaded.
* `Inevitable`: something comes about whoever goes on first.
* `comes_to_rest`: all callbacks that are due run, and if the loop runs, all futures are settled.
-/

namespace ModuleSystem

/-! ### What comes about whatever happens -/

variable {σ : Type} {host : Host σ}

/-- Replacing an element changes a sum by what the two differ in. -/
theorem sum_map_set {α : Type} {xs : List α} {i : Nat} {x : α} (h : xs[i]? = some x) (g : α → Nat)
    (y : α) : ((xs.set i y).map g).sum + g x = (xs.map g).sum + g y := by
  obtain ⟨before, after, hxs, hset, -⟩ := Load.exists_split h
  rw [hset y, hxs]
  simp only [List.map_append, List.map_cons, List.sum_append, List.sum_cons]
  omega

/-- What is left to do until an import has loaded its modules and handed them over, if nothing but
`files` can be loaded. -/
def ImportPhase.ahead (files : Finset Text) : ImportPhase → Nat
  | .resolving => 3 * files.card + 4
  | .refused _ => 1
  | .loading _ l => l.ahead files + 1
  | .ended _ => 0

/-- What the workers of an import have left to do. -/
def ImportPhase.todo : ImportPhase → Nat
  | .loading _ l => l.todo
  | _ => 0

/-- The steps of a task for a module that is to be added. -/
def Loaded.todo (m : Loaded) : Nat := m.deps.length + 2

/-- The steps that a task has before it. -/
def TaskStage.todo : TaskStage → Nat
  | .adding _ rest => (rest.map Loaded.todo).sum + 4
  | .connecting _ rest _ m deps => (rest.map Loaded.todo).sum + (m.deps.length - deps.length) + 5
  | .linking _ => 3
  | .evaluating _ => 2
  | .settling _ => 1
  | .calling => 0

/-- The steps of the loop for a task that is queued. -/
def ImportTask.todo (t : ImportTask) : Nat := (TaskStage.first t.loaded).todo + 4

/-- The steps that the loop has before it until it looks for tasks, and ends or waits. -/
def EventLoop.Position.todo {τ : Type} : EventLoop.Position τ → Nat
  | .ready => 2
  | .looking => 1
  | .running _ => 3
  | .waiting | .returned _ => 0

/-- An import with an outcome has still to hand it over. -/
theorem ImportPhase.ahead_pos_of_outcome? {files : Finset Text} {phase : ImportPhase}
    {loaded : Except ModuleError (Text × List Loaded)} (h : phase.outcome? = some loaded) :
    0 < phase.ahead files := by
  cases phase with
  | ended => cases h
  | _ => exact Nat.succ_pos _

/-- A step of a task brings it closer to its end. -/
theorem TaskStage.Steps.todo_lt {r r' : Registry σ} {stage stage' : TaskStage}
    (h : Steps host r stage r' stage') : stage'.todo < stage.todo := by
  cases h with
  | passed =>
      simp [todo, Loaded.todo]
  | placed =>
      simp [todo, Loaded.todo]
      omega
  | connected next =>
      have := (List.getElem?_eq_some_iff.1 next).1
      simp [todo]
      omega
  | attached | unattached =>
      simp only [todo]
      omega
  | _ => simp [todo]

namespace Session

variable {s s' : Session σ} {a : Action σ} {files : Finset Text}

/-- What is left to do until all imports have loaded their modules. -/
def ahead (files : Finset Text) (s : Session σ) : Nat := (s.imports.map (·.phase.ahead files)).sum

/-- What the workers have left to do. -/
def toLoad (s : Session σ) : Nat := (s.imports.map (·.phase.todo)).sum

/-- What the loop and the callbacks have left to do with what is loaded. -/
def toRun (s : Session σ) : Nat :=
  (s.loop.queue.map ImportTask.todo).sum + (if s.loop.signalled then 3 else 0) + s.position.todo +
    s.stage.todo + (s.futures.map (·.outstanding.length)).sum

/-- An import that goes on changes a sum by what its phases differ in. -/
theorem sum_setPhase {i : Nat} {x : Import} (h : s.imports[i]? = some x) (phase : ImportPhase)
    (g : ImportPhase → Nat) :
    ((s.setPhase i phase).imports.map (g ·.phase)).sum + g x.phase =
      (s.imports.map (g ·.phase)).sum + g phase := by
  have set : (s.setPhase i phase).imports = s.imports.set i { x with phase } := by
    rw [setPhase, List.modify_eq_set_getElem?, h]
    rfl
  rw [set]
  exact sum_map_set h (g ·.phase) _

/-! ### Going on -/

end Session

/-- Something that a participant does by itself, and that finds files as `reads` says. -/
def Action.GoesOn (reads : FileSystem → Resolver → Prop) : Action σ → Prop
  | .resolve _ fs caches | .work _ _ fs caches => reads fs caches
  | .handOver _ | .turn none | .proceed _ | .call _ _ => True
  | _ => False

namespace Session

variable {s s' : Session σ} {a : Action σ} {files : Finset Text} {reads : FileSystem → Resolver → Prop}

/-- Someone who takes part in the session goes on. -/
def Goes (host : Host σ) (reads : FileSystem → Resolver → Prop) (s s' : Session σ) : Prop :=
  ∃ a : Action σ, a.GoesOn reads ∧ s.act host a = some s'

theorem Happens.options (ha : Happens host s a s') : s'.options = s.options := by
  cases ha <;> rfl

/-- Nothing but `files` can be loaded. -/
def LoadsOnly (options : Options) (reads : FileSystem → Resolver → Prop) (files : Finset Text) : Prop :=
  ∀ p fs caches m, reads fs caches → (Loader.loadModule options fs p caches).2 = .ok m → p ∈ files

/-- **Whoever goes on leaves less to do.**  Loading comes first, since it brings work for others. -/
theorem less (hf : LoadsOnly s.options reads files) (ha : Happens host s a s') (goes : a.GoesOn reads) :
    s'.ahead files < s.ahead files ∨ s'.ahead files = s.ahead files ∧
      (s'.toLoad < s.toLoad ∨ s'.toLoad = s.toLoad ∧ s'.toRun < s.toRun) := by
  cases ha with
  | started | ran | stopped | gaveUp | added | played => cases goes
  | @refused i fs caches x e at_ phase =>
      left
      have := sum_setPhase at_ (.refused e) (·.ahead files)
      simp only [ahead, phase, ImportPhase.ahead] at this ⊢
      omega
  | @found i fs caches x root at_ phase =>
      left
      have := sum_setPhase at_ (.loading root (Load.visit s.isKnown {} root)) (·.ahead files)
      have := Load.ahead_begin_le files s.isKnown root
      simp only [ahead, phase, ImportPhase.ahead] at *
      omega
  | @worked i worker fs caches x root l at_ phase lt =>
      -- a worker goes on with its load, and all other loads stay as they are
      have moves : Load.Moves s.isKnown _ l (l.advance s.isKnown
          (fun path => (Loader.loadModule s.options fs path caches).2) worker) :=
        Load.advance_moves lt
      have := moves.less fun p m _ ok => hf p fs caches m goes ok
      have := sum_setPhase at_ (.loading root (l.advance s.isKnown
          (fun path => (Loader.loadModule s.options fs path caches).2) worker)) (·.ahead files)
      have := sum_setPhase at_ (.loading root (l.advance s.isKnown
          (fun path => (Loader.loadModule s.options fs path caches).2) worker)) (·.todo)
      simp only [ahead, toLoad, phase, ImportPhase.ahead, ImportPhase.todo] at *
      omega
  | @handedOver i x loaded at_ outcome =>
      left
      have := sum_setPhase at_ (.ended loaded) (·.ahead files)
      have : 0 < x.phase.ahead files := ImportPhase.ahead_pos_of_outcome? outcome
      simp only [ahead, handedOver, setPhase, ImportPhase.ahead] at *
      omega
  -- from here on nothing is loaded, and what there is to run gets less
  | looked position | ended interrupted position | waited interrupted position =>
      refine .inr ⟨rfl, .inr ⟨rfl, ?_⟩⟩
      simp only [toRun, position, EventLoop.Position.todo, TaskStage.todo]
      omega
  | began interrupted position queue =>
      refine .inr ⟨rfl, .inr ⟨rfl, ?_⟩⟩
      simp only [toRun, position, queue, EventLoop.Position.todo, ImportTask.todo, List.map_cons,
        List.sum_cons]
      omega
  | woke interrupted position signalled =>
      refine .inr ⟨rfl, .inr ⟨rfl, ?_⟩⟩
      simp only [toRun, position, signalled, EventLoop.Position.todo, TaskStage.todo, if_true]
      simp
      omega
  | finished interrupted position stage =>
      refine .inr ⟨rfl, .inr ⟨rfl, ?_⟩⟩
      simp only [toRun, position, stage, EventLoop.Position.todo]
      omega
  | proceeded position steps =>
      refine .inr ⟨rfl, .inr ⟨rfl, ?_⟩⟩
      have := steps.todo_lt
      simp only [toRun]
      omega
  | @settled pick t result f f' position stage at_ fulfilled =>
      refine .inr ⟨rfl, .inr ⟨rfl, ?_⟩⟩
      have := sum_map_set at_ (·.outstanding.length) f'
      rw [Future.outstanding_fulfil fulfilled] at this
      simp only [toRun, stage, TaskStage.todo]
      omega
  | @called i lot f c rest at_ due =>
      refine .inr ⟨rfl, .inr ⟨rfl, ?_⟩⟩
      have := sum_map_set at_ (·.outstanding.length) (f.call lot)
      have := Future.length_outstanding_call due
      simp only [toRun]
      omega

/-- A session that goes on does so by an action that counts. -/
theorem Goes.happens (h : s.Goes host reads s') :
    ∃ a, a.GoesOn reads ∧ Happens host s a s' := by
  obtain ⟨a, goes, ha⟩ := h
  exact ⟨a, goes, act_happens ha⟩

/-- The next callback of someone who has callbacks left to run can run. -/
theorem goes_of_due {i lot : Nat} {f : Future ImportResult} {c : Callback} {rest : List Callback}
    (at_ : s.futures[i]? = some f) (due : (f.due[lot]?).map (·.rest) = some (c :: rest)) :
    ∃ s', s.Goes host reads s' := by
  refine ⟨{ s with futures := s.futures.set i (f.call lot) }, .call i lot, trivial, ?_⟩
  simp only [act, at_, due]

/-- The loop runs, or has run until nothing was left to do. -/
def Awake (s : Session σ) : Prop := ∀ e, s.position = .returned e → s.unsettled = []

/-- The callbacks of all futures that are settled have run. -/
def Told (s : Session σ) : Prop := ∀ f ∈ s.futures, f.result.isSome = true → f.outstanding = []

/-- A loop that is awake stays so while the session goes on. -/
theorem Awake.happens (h : Awake s) (ha : Happens host s a s') (goes : a.GoesOn reads) : Awake s' := by
  intro e he
  cases ha with
  | started | ran | stopped | gaveUp | added | played => cases goes
  | refused | found | worked | called => exact h e he
  | handedOver at_ outcome reserved =>
      have none := h e he
      simp only [unsettled, List.append_eq_nil_iff] at none
      rw [none.1] at reserved
      cases reserved
  | ended interrupted position queue reserved =>
      rw [unsettled, current?_of_calling rfl, queue, reserved]
      rfl
  | proceeded position | settled position => cases position.symm.trans he
  | _ => cases he

/-- Where nobody can go on, callbacks have run. -/
theorem Account.told {schedule : List (Action σ)} (h : Account schedule s)
    (rest : ¬ ∃ s', s.Goes host reads s') : s.Told := by
  intro f hf settled
  obtain ⟨i, at_⟩ := List.mem_iff_getElem?.1 hf
  obtain ⟨result, hr⟩ := Option.isSome_iff_exists.1 settled
  have nothing : ∀ lot ∈ f.due, Callback.labelsAll lot.rest = [] := by
    intro lot hlot
    obtain ⟨j, hj⟩ := List.mem_iff_getElem?.1 hlot
    cases hl : lot.rest with
    | nil => rfl
    | cons c cs => exact absurd (goes_of_due at_ (by rw [hj, Option.map_some, hl])) rest
  rw [Future.outstanding, (h.accounts at_).honest.waiting result hr]
  simpa using nothing

end Session

end ModuleSystem
