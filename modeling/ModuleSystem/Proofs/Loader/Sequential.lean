import ModuleSystem.Proofs.Loader.Closure
import ModuleSystem.Proofs.Loader.Session
import ModuleSystem.Proofs.Loader.Tickets

/-!
# Loader — one import after the other

A loader does one thing at a time: `Loader.start` loads all modules of an import before it returns, and
`Loader.run` runs the tasks that are queued.  This is one of the orders in which things can happen in a
session (`Loader.Used.exists_session`), so that what holds of sessions holds of loaders.

* `Session.Leads`: a session can come to another one.
* `Session.loader`: what a loader has of a session.
* `Loader.Used`: what is done with loaders.
-/

namespace ModuleSystem

variable {σ : Type} {host : Host σ}

namespace Session

variable {s s' s'' : Session σ} {a : Action σ} {i : Nat}

/-- A session comes to another one by some schedule. -/
def Leads (host : Host σ) (s s' : Session σ) : Prop := ∃ schedule, s.run host schedule = some s'

theorem Leads.refl (s : Session σ) : Leads host s s := ⟨[], rfl⟩

/-- A session leads on from where it has led. -/
theorem Leads.trans (h : Leads host s s') (h' : Leads host s' s'') : Leads host s s'' := by
  obtain ⟨first, h⟩ := h
  obtain ⟨second, h'⟩ := h'
  exact ⟨first ++ second, by rw [run_append, h, Option.bind_some, h']⟩

theorem Leads.act (h : s.act host a = some s') : Leads host s s' := ⟨[a], by simp [run, h]⟩

/-- What every action keeps is kept on the way. -/
theorem Leads.keeps {P : Session σ → Prop} (h : Leads host s s') (hP : P s)
    (step : ∀ {s a s'}, P s → Happens host s a s' → P s') : P s' := by
  obtain ⟨schedule, h⟩ := h
  exact run_induct h hP step

theorem Leads.steady (h : Leads host s s') (hs : Steady host s) : Steady host s' :=
  h.keeps hs fun hs ha => hs.happens ha

theorem Leads.orderly (h : Leads host s s') (hs : Orderly s) : Orderly s' :=
  h.keeps hs fun hs ha => hs.happens ha

/-! ### Loading -/

/-- An import that stays in its phase changes nothing. -/
theorem setPhase_self {x : Import} {phase : ImportPhase} (at_ : s.imports[i]? = some x)
    (h : x.phase = phase) : s.setPhase i phase = s := by
  have imports : s.imports.modify i (fun x => { x with phase }) = s.imports := by
    refine List.ext_getElem? fun j => ?_
    rw [List.getElem?_modify]
    split
    · rename_i e
      subst e
      rw [at_, ← h]
      rfl
    · simp
  rw [setPhase, imports]

/-- The last phase of an import counts. -/
theorem setPhase_setPhase {phase phase' : ImportPhase} :
    (s.setPhase i phase).setPhase i phase' = s.setPhase i phase' := by
  simp only [setPhase, List.modify_modify_eq]
  rfl

/-- Only the module of the worker is loaded. -/
theorem advance_loading {isKnown : Text → Bool} {load : Text → Except ModuleError Loaded} {l : Load}
    {path : Text} {ws : List Worker} (h : l.workers = .loading path :: ws) :
    l.advance isKnown (fun _ => load path) 0 = l.advance isKnown load 0 := by
  simp only [Load.advance, h, List.getElem?_cons_zero]

/-- The workers of an import do what is left, the first of them always first. -/
theorem leads_loadPending (fs : FileSystem) {root : Text} (fuel : Nat) {l : Load} (r : Resolver)
    {x : Import} (at_ : s.imports[i]? = some x) (phase : x.phase = .loading root l) :
    Leads host s (s.setPhase i
      (.loading root (Loader.loadPending s.options fs s.isKnown fuel l r).1)) := by
  induction fuel generalizing s l r x with
  | zero =>
      rw [Loader.loadPending, setPhase_self at_ phase]
      exact .refl s
  | succ fuel ih =>
      have step : ∀ (l' : Load) (r' : Resolver), 0 < l.workers.length →
          l.advance s.isKnown (fun path => (Loader.loadModule s.options fs path r).2) 0 = l' →
          Leads host s (s.setPhase i
            (.loading root (Loader.loadPending s.options fs s.isKnown fuel l' r').1)) := by
        intro l' r' lt hl
        have rest := @ih (s.setPhase i (.loading root l')) l' r' _ (getElem?_setPhase_self at_) rfl
        rw [setPhase_setPhase] at rest
        refine Leads.trans (.act (a := .work i 0 fs r) ?_) rest
        obtain ⟨specifier, referer, ticket, phase'⟩ := x
        cases phase
        simp only [Session.act, at_, lt, if_true, hl]
      rw [Loader.loadPending]
      split
      · rw [setPhase_self at_ phase]
        exact .refl s
      · rename_i path ws hw
        exact step _ _ (by simp [hw]) (advance_loading hw).symm
      · rename_i w ws _ hw
        exact step _ _ (by simp [hw]) rfl

/-! ### Callbacks -/

theorem setFuture_self {f : Future ImportResult} (at_ : s.futures[i]? = some f) :
    { s with futures := s.futures.set i f } = s := by
  obtain ⟨lt, rfl⟩ := List.getElem?_eq_some_iff.1 at_
  rw [List.set_getElem_self lt]

/-- The last state of a future counts. -/
theorem setFuture_setFuture {f f' : Future ImportResult} :
    { { s with futures := s.futures.set i f } with
      futures := { s with futures := s.futures.set i f }.futures.set i f' } =
    { s with futures := s.futures.set i f' } := by
  rw [List.set_set]

/-- The future that is changed is changed. -/
theorem getElem?_setFuture {f f' : Future ImportResult} (at_ : s.futures[i]? = some f) :
    { s with futures := s.futures.set i f' }.futures[i]? = some f' :=
  (getElem?_set_eq_some_iff at_).2 (.inr ⟨rfl, rfl⟩)

/-- The callbacks of a lot run. -/
theorem leads_callLot {f : Future ImportResult} {before after : List (Lot ImportResult)}
    {result : ImportResult} {cs : List Callback} (at_ : s.futures[i]? = some f)
    (due : f.due = before ++ ⟨result, cs⟩ :: after) :
    Leads host s { s with futures := s.futures.set i { f with
      due := before ++ ⟨result, []⟩ :: after
      calls := f.calls ++ (Callback.labelsAll cs).map fun label => (label, result) } } := by
  -- each callback that runs leaves one less to run, those that it adds included
  induction hn : (Callback.labelsAll cs).length generalizing s f cs with
  | zero =>
      cases cs with
      | nil =>
          have same : { f with
              due := before ++ ⟨result, []⟩ :: after
              calls := f.calls ++ (Callback.labelsAll []).map fun label => (label, result) } = f := by
            rw [← due]
            simp
          rw [same, setFuture_self at_]
          exact .refl s
      | cons c rest =>
          cases c
          rw [Callback.labelsAll_cons] at hn
          cases hn
  | succ n ih =>
      cases cs with
      | nil => cases hn
      | cons c rest =>
          obtain ⟨label, adds⟩ := c
          let f' : Future ImportResult := { f with
            due := before ++ ⟨result, adds ++ rest⟩ :: after
            calls := f.calls ++ [(label, result)] }
          have call : f.call before.length = f' := by
            simp [Future.call, due, f']
          have first : Leads host s { s with futures := s.futures.set i f' } := by
            refine .act (a := .call i before.length) ?_
            simp [Session.act, at_, due, call]
          rw [Callback.labelsAll_cons] at hn
          have more := ih (f := f') (getElem?_setFuture at_) rfl (Nat.succ.inj hn)
          rw [setFuture_setFuture] at more
          refine first.trans ?_
          simpa [f', Callback.labelsAll_cons] using more

/-- The callbacks of some lots run, one lot after the other. -/
theorem leads_callLots {f : Future ImportResult} (before lots : List (Lot ImportResult))
    (at_ : s.futures[i]? = some f) (due : f.due = before ++ lots) :
    Leads host s { s with futures := s.futures.set i { f with
      due := before ++ lots.map fun lot => { lot with rest := [] }
      calls := f.calls ++ lots.flatMap fun lot =>
        (Callback.labelsAll lot.rest).map fun label => (label, lot.result) } } := by
  induction lots generalizing before s f with
  | nil =>
      have same : { f with due := before ++ [], calls := f.calls ++ [] } = f := by
        rw [← due, List.append_nil]
      simpa only [List.map_nil, List.flatMap_nil, same, setFuture_self at_] using Leads.refl s
  | cons lot lots ih =>
      let f' : Future ImportResult := { f with
        due := before ++ ⟨lot.result, []⟩ :: lots
        calls := f.calls ++ (Callback.labelsAll lot.rest).map fun label => (label, lot.result) }
      have first : Leads host s { s with futures := s.futures.set i f' } := leads_callLot at_ due
      have rest := ih (f := f') (before ++ [⟨lot.result, []⟩]) (getElem?_setFuture at_) (by simp [f'])
      rw [setFuture_setFuture] at rest
      refine first.trans ?_
      simpa [f'] using rest

/-- All callbacks that are due run. -/
theorem leads_callAll {f : Future ImportResult} (at_ : s.futures[i]? = some f) :
    Leads host s { s with futures := s.futures.set i f.callAll } :=
  leads_callLots [] f.due at_ rfl

/-! ### Tasks -/

/-- What the stage of a task comes to, the task comes to. -/
theorem Leads.advance {t : ImportTask} (position : s.position = .running t) {r r' : Registry σ}
    {stage stage' : TaskStage} (h : stage.advance host 0 r = some (r', stage')) :
    Leads host { s with registry := r, stage } { s with registry := r', stage := stage' } :=
  .act (@act_proceed σ host { s with registry := r, stage } t 0 r' stage' position h)

/-- The dependencies of a module get their places, one after the other. -/
theorem leads_connect {t : ImportTask} (position : s.position = .running t) {root : Text}
    {rest : List Loaded} {place : ModuleId} {m : Loaded} {deps : List ModuleId}
    (before paths : List Text) (hm : m.deps = before ++ paths) (hd : deps.length = before.length)
    (stage : s.stage = .connecting root rest place m deps) :
    Leads host s { s with
      registry := (s.registry.getOrCreateAll paths).1
      stage := .connecting root rest place m (deps ++ (s.registry.getOrCreateAll paths).2) } := by
  induction paths generalizing s before deps with
  | nil =>
      have same : { s with stage := .connecting root rest place m deps } = s := by rw [← stage]
      simpa [Registry.getOrCreateAll, same] using Leads.refl s
  | cons path paths ih =>
      have next : m.deps[deps.length]? = some path := by simp [hm, hd]
      rcases hc : s.registry.getOrCreate path with ⟨r, d, created⟩
      have advance : s.stage.advance host 0 s.registry =
          some (r, .connecting root rest place m (deps ++ [d])) := by
        simp only [stage, TaskStage.advance, next, hc]
      have more := @ih { s with registry := r, stage := .connecting root rest place m (deps ++ [d]) }
        position (deps ++ [d]) (before ++ [path]) (by simp [hm]) (by simp [hd]) rfl
      refine (Leads.act (act_proceed position advance)).trans ?_
      simpa [Registry.getOrCreateAll, hc] using more

/-- A record is got for each path. -/
theorem length_getOrCreateAll (r : Registry σ) (paths : List Text) :
    (r.getOrCreateAll paths).2.length = paths.length := by
  induction paths generalizing r with
  | nil => rfl
  | cons path paths ih =>
      simp only [Registry.getOrCreateAll, List.length_cons]
      rw [ih]

/-- A module is added. -/
theorem leads_add (steady : Steady host s) {t : ImportTask} (position : s.position = .running t)
    {root : Text} {m : Loaded} {ms : List Loaded} (stage : s.stage = .adding root (m :: ms)) :
    ∃ r, Loader.add s.registry m = .ok r ∧
      Leads host s { s with registry := r, stage := .adding root ms } := by
  rcases hc : s.registry.getOrCreate m.path with ⟨r₁, place, created⟩
  have advance : s.stage.advance host 0 s.registry =
      some (r₁, if r₁.state place = .new then .connecting root ms place m [] else .adding root ms) := by
    simp [stage, TaskStage.advance, hc]
  have first := Leads.act (act_proceed position advance)
  by_cases new : r₁.state place = .new
  · rw [if_pos new] at first
    have connected := first.trans (@leads_connect _ _
      { s with registry := r₁, stage := .connecting root ms place m [] } t position root ms place m []
      [] m.deps rfl rfl rfl)
    have length := length_getOrCreateAll r₁ m.deps
    rcases hall : r₁.getOrCreateAll m.deps with ⟨r₂, deps⟩
    simp only [hall, List.nil_append] at connected length
    have all : m.deps[deps.length]? = none := by simp [length]
    -- attaching is never misuse
    obtain ⟨r₃, ok, -⟩ := (connected.steady steady).task.attached all
    refine ⟨r₃, by simp [Loader.add, hc, new, hall, ok], connected.trans (.advance position ?_)⟩
    simp only [TaskStage.advance, all, ok]
  · rw [if_neg new] at first
    refine ⟨r₁, ?_, first⟩
    simp [Loader.add, hc, new]

/-- All modules are added, the first of them always first. -/
theorem leads_addAll (steady : Steady host s) {t : ImportTask} (position : s.position = .running t)
    {root : Text} {ms : List Loaded} (stage : s.stage = .adding root ms) :
    ∃ r, Loader.addAll s.registry ms = .ok r ∧
      Leads host s { s with registry := r, stage := .adding root [] } := by
  induction ms generalizing s with
  | nil =>
      have same : { s with stage := .adding root [] } = s := by rw [← stage]
      exact ⟨s.registry, rfl, by rw [same]; exact .refl s⟩
  | cons m ms ih =>
      obtain ⟨r, ok, first⟩ := leads_add steady position stage
      obtain ⟨r', ok', rest⟩ := @ih { s with registry := r, stage := .adding root ms }
        (first.steady steady) position rfl
      refine ⟨r', ?_, first.trans rest⟩
      simpa only [Loader.addAll, ok] using ok'

/-- A task goes on until its future is to be settled. -/
theorem leads_instantiate (steady : Steady host s) {t : ImportTask} (position : s.position = .running t)
    {root : Text} {ms : List Loaded} (stage : s.stage = .adding root ms) :
    Leads host s { s with
      registry := (Loader.instantiate host s.registry root ms).1
      stage := .settling (Loader.instantiate host s.registry root ms).2 } := by
  obtain ⟨r, added, leads⟩ := leads_addAll steady position stage
  have fits := (leads.steady steady).task.fits
  have known : (r.get? root).isSome = true := fits.resolve_right (by simp)
  obtain ⟨m, hm⟩ := Option.isSome_iff_exists.1 known
  have linking : Leads host s { s with registry := r, stage := .linking m } :=
    leads.trans (.advance position (by simp only [TaskStage.advance, hm]))
  rcases hl : r.link host m with ⟨r₁, e | ⟨⟨⟩⟩⟩
  · simp only [Loader.instantiate, added, hm, hl]
    exact linking.trans (.advance position (by simp only [TaskStage.advance, hl]))
  · have evaluating : Leads host s { s with registry := r₁, stage := .evaluating m } :=
      linking.trans (.advance position (by simp only [TaskStage.advance, hl]))
    rcases he : r₁.evaluate host m with ⟨r₂, e | ⟨⟨⟩⟩⟩
    · simp only [Loader.instantiate, added, hm, hl, he]
      exact evaluating.trans (.advance position (by simp only [TaskStage.advance, he]))
    · simp only [Loader.instantiate, added, hm, hl, he]
      exact evaluating.trans (.advance position (by simp only [TaskStage.advance, he]))

/-- A task goes on to what came of its import. -/
theorem leads_task (steady : Steady host s) {t : ImportTask} (position : s.position = .running t)
    (stage : s.stage = .first t.loaded) :
    ∃ r result, Leads host s { s with registry := r, stage := .settling result } ∧
      ∀ l : Loader σ, l.registry = s.registry → l.perform host t = { l with
        registry := r
        futures := l.futures.modify t.future fun f => (f.settle result).getD f } := by
  cases loaded : t.loaded with
  | error e =>
      rw [loaded, TaskStage.first] at stage
      refine ⟨s.registry, .error (.error e), ?_, fun l same => ?_⟩
      · rw [← stage]
        exact .refl s
      · simp only [Loader.perform, loaded, same]
  | ok found =>
      obtain ⟨root, ms⟩ := found
      rw [loaded, TaskStage.first] at stage
      refine ⟨_, _, leads_instantiate steady position stage, fun l same => ?_⟩
      simp only [Loader.perform, loaded, same]

/-- A task that has told everyone is over. -/
theorem leads_finish {t : ImportTask} (position : s.position = .running t) (stage : s.stage = .calling)
    (told : s.hasTold t.future = true) :
    Leads host s { s with position := .ready, stage := .calling } := by
  refine .act (a := .turn none) ?_
  simp [Session.act, mayTurn, position, stage, told, EventLoop.advance]

/-- The future of a task is settled, and the callbacks run that have waited for it. -/
theorem leads_settle (orderly : Orderly s) {t : ImportTask} {result : ImportResult}
    (position : s.position = .running t) (stage : s.stage = .settling result) :
    Leads host s { s with
      futures := s.futures.modify t.future fun f => (f.settle result).getD f
      position := .ready
      stage := .calling } := by
  obtain ⟨f, at_, unsettled⟩ := orderly.exists_unsettled position (by rw [stage]; nofun)
  obtain ⟨f', fulfilled⟩ := Future.exists_fulfil unsettled result
  have settled : (s.futures.modify t.future fun f => (f.settle result).getD f) =
      s.futures.set t.future f'.callAll := by
    rw [List.modify_eq_set_getElem?, at_]
    simp [Future.settle, fulfilled]
  let s₁ : Session σ := { s with futures := s.futures.set t.future f', stage := .calling }
  let s₂ : Session σ := { s₁ with futures := s₁.futures.set t.future f'.callAll }
  have at₁ : s₁.futures[t.future]? = some f' := getElem?_setFuture at_
  have first : Leads host s s₁ := .act (a := .proceed 0) (act_settle position stage at_ fulfilled)
  have called : Leads host s₁ s₂ := leads_callAll at₁
  have told : s₂.hasTold t.future = true := by
    rw [hasTold, getElem?_setFuture at₁]
    cases h : f'.due <;> simp [Future.callAll, h]
  have last : Leads host s₂ { s₂ with position := .ready, stage := .calling } :=
    leads_finish position rfl told
  rw [settled]
  simpa only [s₂, s₁, List.set_set] using (first.trans called).trans last

/-! ### What a loader has of a session -/

/-- A session as a loader, with the caches of those who read files. -/
def loader (s : Session σ) (caches : Resolver) : Loader σ :=
  { options := s.options
    resolver := caches
    registry := s.registry
    loop := s.loop
    futures := s.futures }

/-- The next task runs, from its first stage to its last callback. -/
theorem leads_perform (steady : Steady host s) (orderly : Orderly s) (caches : Resolver)
    (position : s.position = .ready) {t : ImportTask} {ts : List ImportTask}
    (queue : s.loop.queue = t :: ts) :
    ∃ s', Leads host s s' ∧ s'.position = .ready ∧ s'.loader caches =
      Loader.perform host { s.loader caches with loop := { s.loop with queue := ts } } t := by
  let looking : Session σ := { s with position := .looking, stage := .calling }
  let running : Session σ :=
    { s with loop := { s.loop with queue := ts }, position := .running t, stage := .first t.loaded }
  have looked : Leads host s looking := by
    refine .act (a := .turn none) ?_
    simp [Session.act, mayTurn, position, EventLoop.advance, looking]
  have began : Leads host looking running := by
    refine .act (a := .turn none) ?_
    simp [Session.act, mayTurn, EventLoop.advance, queue, looking, running]
  have begun := looked.trans began
  obtain ⟨r, result, performed, same⟩ := leads_task (begun.steady steady) rfl rfl
  have before := begun.trans performed
  have after := before.trans (leads_settle (before.orderly orderly) rfl rfl)
  refine ⟨_, after, rfl, ?_⟩
  rw [same _ rfl]
  rfl

/-- The queued tasks run, one after the other. -/
theorem leads_runTasks (steady : Steady host s) (orderly : Orderly s) (caches : Resolver)
    (position : s.position = .ready) {ts : List ImportTask} (queue : s.loop.queue = ts) :
    ∃ s', Leads host s s' ∧ s'.position = .ready ∧ s'.loader caches =
      Loader.runTasks host ts { s.loader caches with loop := { s.loop with queue := [] } } := by
  induction ts generalizing s with
  | nil =>
      refine ⟨s, .refl s, position, ?_⟩
      rw [Loader.runTasks, ← queue]
      rfl
  | cons t ts ih =>
      obtain ⟨s₁, first, position₁, loader₁⟩ := leads_perform steady orderly caches position queue
      have loop : s₁.loop = { s.loop with queue := ts } := congrArg Loader.loop loader₁
      obtain ⟨s₂, rest, position₂, loader₂⟩ :=
        ih (first.steady steady) (first.orderly orderly) position₁ (by rw [loop])
      refine ⟨s₂, first.trans rest, position₂, ?_⟩
      rw [loader₂, loader₁, loop]
      rfl

/-- Nobody runs the loop. -/
def Returned (s : Session σ) : Prop := ∃ early, s.position = .returned early

/-- A run of the loop, until nothing is queued. -/
theorem leads_run (steady : Steady host s) (orderly : Orderly s) (caches : Resolver)
    (returned : s.Returned) :
    ∃ s', Leads host s s' ∧ s'.Returned ∧ s'.loader caches = (s.loader caches).run host := by
  obtain ⟨early, position⟩ := returned
  have ran : Leads host s { s with position := .ready } := by
    refine .act (a := .run) ?_
    simp only [Session.act, position]
  obtain ⟨s', tasks, position', loader'⟩ :=
    leads_runTasks (ran.steady steady) (ran.orderly orderly) caches rfl rfl
  -- whoever runs the loop stops here: it would wait for the tickets that are out
  have stopped : Leads host s' { s' with position := .returned (some .canceled), stage := .calling } := by
    refine .act (a := .turn (some .canceled)) ?_
    simp [Session.act, mayTurn, position', EventLoop.advance]
  exact ⟨_, (ran.trans tasks).trans stopped, ⟨_, rfl⟩, loader'⟩

/-- The modules of an import are loaded. -/
theorem leads_load (caches : Resolver) (fs : FileSystem) (fuel : Nat) {x : Import}
    (at_ : s.imports[i]? = some x) (phase : x.phase = .resolving) :
    ∃ phase', Leads host s (s.setPhase i phase') ∧
      phase'.outcome? = ((s.loader caches).load fs fuel x.specifier x.referer).2 := by
  obtain ⟨specifier, referer, ticket, phase⟩ := x
  cases phase
  rcases hr : caches.resolve fs specifier referer with ⟨caches', ⟨e | root, events⟩⟩
  · refine ⟨.refused e, .act (a := .resolve i fs caches) ?_, ?_⟩
    · simp only [Session.act, at_, hr]
    · simp only [Loader.load, loader, hr]
      rfl
  · let first := Load.visit s.isKnown {} root
    have found : Leads host s (s.setPhase i (.loading root first)) := by
      refine .act (a := .resolve i fs caches) ?_
      simp only [Session.act, at_, hr, first]
    have worked : Leads host (s.setPhase i (.loading root first)) _ :=
      leads_loadPending fs fuel caches' (getElem?_setPhase_self at_) rfl
    rw [setPhase_setPhase] at worked
    refine ⟨_, found.trans worked, ?_⟩
    simp only [Loader.load, loader, hr]
    rfl

/-- An import begins, and its modules are loaded. -/
theorem leads_start (orderly : Orderly s) (caches : Resolver) (fs : FileSystem) (fuel : Nat)
    (specifier referer : Text) (returned : s.Returned) :
    ∃ s' caches', Leads host s s' ∧ s'.Returned ∧
      s'.loader caches' = ((s.loader caches).start fs fuel specifier referer).1 := by
  let s₁ := s.started specifier referer
  have began : Leads host s s₁ := .act (a := .start specifier referer) rfl
  have at₁ : s₁.imports[s.futures.length]? =
      some { specifier, referer, ticket := s.loop.issued } :=
    getElem?_concat_eq_some_iff.2 (.inr ⟨orderly.futures, rfl⟩)
  obtain ⟨phase, loaded, outcome⟩ := @leads_load σ host s₁ _ caches fs fuel _ at₁ rfl
  rcases hl : (s.loader caches).load fs fuel specifier referer with ⟨caches', _ | result⟩
  · -- the import keeps its ticket
    refine ⟨_, caches', began.trans loaded, returned, ?_⟩
    simp only [Loader.start, hl]
    rfl
  · have outcome' : phase.outcome? = some result := outcome.trans (congrArg Prod.snd hl)
    have reserved : s.loop.issued ∈ s₁.loop.reserved := List.mem_append_right _ List.mem_cons_self
    have handedOver := @act_handOver σ host _ _ _ _ (getElem?_setPhase_self at₁) outcome' reserved
    refine ⟨_, caches', (began.trans loaded).trans (.act handedOver), returned, ?_⟩
    simp only [Loader.start, hl]
    simp [EventLoop.reserve, EventLoop.release, EventLoop.signal, Session.handedOver, loader, setPhase,
      started, s₁]

end Session

/-! ### Loaders -/

namespace Loader

variable {l : Loader σ}

/-- What is done with loaders: imports are begun, with any files, and their tasks run. -/
inductive Used (host : Host σ) (options : Options) (world : σ) : Loader σ → Prop where
  | new (fs : FileSystem) : Used host options world (Loader.new fs options world)
  | start {l : Loader σ} (h : Used host options world l) (fs : FileSystem) (fuel : Nat)
      (specifier referer : Text) : Used host options world (l.start fs fuel specifier referer).1
  | run {l : Loader σ} (h : Used host options world l) : Used host options world (l.run host)

/-- **What a loader does is one of the things that can happen in a session.** -/
theorem Used.exists_session {options : Options} {world : σ} (h : Used host options world l) :
    ∃ schedule s caches, (Session.new options world).run host schedule = some s ∧ s.Returned ∧
      s.loader caches = l := by
  suffices ∃ s caches, Session.Leads host (.new options world) s ∧ s.Returned ∧ s.loader caches = l by
    obtain ⟨s, caches, ⟨schedule, run⟩, returned, same⟩ := this
    exact ⟨schedule, s, caches, run, returned, same⟩
  induction h with
  | new fs => exact ⟨.new options world, Resolver.new fs options, .refl _, ⟨none, rfl⟩, rfl⟩
  | start h fs fuel specifier referer ih =>
      obtain ⟨s, caches, leads, returned, rfl⟩ := ih
      have orderly := leads.orderly (.new options world)
      obtain ⟨s', caches', next, returned', same⟩ :=
        Session.leads_start orderly caches fs fuel specifier referer returned
      exact ⟨s', caches', leads.trans next, returned', same⟩
  | run h ih =>
      obtain ⟨s, caches, leads, returned, rfl⟩ := ih
      have orderly := leads.orderly (.new options world)
      have steady := leads.steady (.new host options world)
      obtain ⟨s', next, returned', same⟩ := Session.leads_run steady orderly caches returned
      exact ⟨s', caches, leads.trans next, returned', same⟩

/-- **When no task is queued, every import has come to something**, unless its modules took too long
to load. -/
theorem Used.result?_isSome {options : Options} {world : σ} (h : Used host options world l)
    (queue : l.loop.queue = []) {i : Nat} (lt : i < l.futures.length) (released : i ∉ l.loop.reserved) :
    (l.result? i).isSome = true := by
  obtain ⟨schedule, s, caches, run, ⟨early, position⟩, rfl⟩ := h.exists_session
  obtain ⟨f, at_⟩ : ∃ f, s.futures[i]? = some f := ⟨_, List.getElem?_eq_getElem lt⟩
  have settled : f.result ≠ none := by
    intro unsettled
    have mem := ((Session.orderly run).results at_).1 unsettled
    have current : s.current? = none := Session.current?_of_not_running (by simp [position])
    have queue : s.loop.queue = [] := queue
    rw [Session.unsettled, current, queue] at mem
    exact released ((List.append_nil s.loop.reserved).subst mem)
  have result : (s.loader caches).result? i = f.result := by
    simp only [result?, Session.loader, at_, Option.bind_some]
  rw [result]
  exact Option.isSome_iff_ne_none.2 settled

end Loader

end ModuleSystem
