import ModuleSystem.Loader.Session
import ModuleSystem.Proofs.Future
import ModuleSystem.Proofs.Loader.Load
import ModuleSystem.Proofs.Registry.Growth

/-!
# Loader — what can happen in a session

`TaskStage.Steps` lists what a step of a task can do, and `Session.Happens` what an action can do.  What
holds in every session (`Session.Reachable`) is derived from these, one case for each.

Whatever happens in a session, each of its futures is left alone, gets a callback, is settled, or has a
callback run (`Happens.future`).  So what holds of futures in general holds here: a result stays
(`run_result`), and over a whole schedule the callbacks that have run and those that are still to run are
the ones that the schedule has added (`accounts`).
-/

namespace ModuleSystem

variable {σ : Type} {host : Host σ}

/-- An element of a longer list is one of the list, or the new one. -/
theorem getElem?_concat_eq_some_iff {α : Type} {xs : List α} {x y : α} {i : Nat} :
    (xs ++ [y])[i]? = some x ↔ xs[i]? = some x ∨ i = xs.length ∧ x = y := by
  grind

/-- An element of a changed list is one of the others, or the new one. -/
theorem getElem?_set_eq_some_iff {α : Type} {xs : List α} {x y z : α} {i j : Nat}
    (h : xs[i]? = some z) :
    (xs.set i y)[j]? = some x ↔ j ≠ i ∧ xs[j]? = some x ∨ j = i ∧ x = y := by
  grind

/-! ### Steps of a task -/

namespace TaskStage

/-- What a step of a task can do. -/
inductive Steps (host : Host σ) (r : Registry σ) : TaskStage → Registry σ → TaskStage → Prop where
  | rooted {root : Text} {m : ModuleId} (known : r.get? root = some m) :
      Steps host r (.adding root []) r (.linking m)
  | lost {root : Text} (unknown : r.get? root = none) :
      Steps host r (.adding root []) r (.settling (.error .misuse))
  | passed {root : Text} {before after : List Loaded} {m : Loaded}
      (there : (r.getOrCreate m.path).1.state (r.getOrCreate m.path).2.1 ≠ .new) :
      Steps host r (.adding root (before ++ m :: after)) (r.getOrCreate m.path).1
        (.adding root (before ++ after))
  | placed {root : Text} {before after : List Loaded} {m : Loaded}
      (new : (r.getOrCreate m.path).1.state (r.getOrCreate m.path).2.1 = .new) :
      Steps host r (.adding root (before ++ m :: after)) (r.getOrCreate m.path).1
        (.connecting root (before ++ after) (r.getOrCreate m.path).2.1 m [])
  | connected {root path : Text} {rest : List Loaded} {place : ModuleId} {m : Loaded}
      {deps : List ModuleId} (next : m.deps[deps.length]? = some path) :
      Steps host r (.connecting root rest place m deps) (r.getOrCreate path).1
        (.connecting root rest place m (deps ++ [(r.getOrCreate path).2.1]))
  | attached {root : Text} {rest : List Loaded} {place : ModuleId} {m : Loaded}
      {deps : List ModuleId} {r' : Registry σ} (all : m.deps[deps.length]? = none)
      (ok : r.attach place m.compiled deps = .ok r') :
      Steps host r (.connecting root rest place m deps) r' (.adding root rest)
  | unattached {root : Text} {rest : List Loaded} {place : ModuleId} {m : Loaded}
      {deps : List ModuleId} {e : Misuse} (all : m.deps[deps.length]? = none)
      (misuse : r.attach place m.compiled deps = .error e) :
      Steps host r (.connecting root rest place m deps) r (.settling (.error .misuse))
  | linked {m : ModuleId} (ok : (r.link host m).2 = .ok ()) :
      Steps host r (.linking m) (r.link host m).1 (.evaluating m)
  | unlinked {m : ModuleId} {s : Stop} (error : (r.link host m).2 = .error s) :
      Steps host r (.linking m) (r.link host m).1 (.settling (.error s))
  | evaluated {m : ModuleId} {world : σ} {ns : Namespace}
      (ok : (r.evaluate host m).2 = .ok ())
      (ask : host.namespaceOf (r.evaluate host m).1.graph m (r.evaluate host m).1.world = (world, ns)) :
      Steps host r (.evaluating m) ((r.evaluate host m).1.withWorld world) (.settling (.ok ns))
  | failed {m : ModuleId} {s : Stop} (error : (r.evaluate host m).2 = .error s) :
      Steps host r (.evaluating m) (r.evaluate host m).1 (.settling (.error s))

/-- **A step of a task does one of these.** -/
theorem advance_steps {r r' : Registry σ} {pick : Nat} {stage stage' : TaskStage}
    (h : stage.advance host pick r = some (r', stage')) : Steps host r stage r' stage' := by
  cases stage with
  | adding root rest =>
      cases rest with
      | nil =>
          simp only [advance] at h
          split at h
          · cases h
            exact .rooted ‹_›
          · cases h
            exact .lost ‹_›
      | cons first rest =>
          simp only [advance] at h
          split at h
          · cases h
          · rename_i m hm
            -- the module that is picked splits what is left to add
            obtain ⟨before, after, hsplit, -, herase⟩ := Load.exists_split hm
            rw [hsplit, ← hsplit, herase] at h
            rw [hsplit]
            split at h
            · cases h
              exact .placed ‹_›
            · cases h
              exact .passed ‹_›
  | connecting root rest place m deps =>
      simp only [advance] at h
      split at h
      · cases h
        exact .connected ‹_›
      · split at h
        · cases h
          exact .attached ‹_› ‹_›
        · cases h
          exact .unattached ‹_› ‹_›
  | linking m =>
      simp only [advance] at h
      split at h <;> rename_i hl <;> cases h
      · have step : Steps host r (.linking m) (r.link host m).1 (.evaluating m) :=
          .linked (by rw [hl])
        rwa [hl] at step
      · have step : Steps host r (.linking m) (r.link host m).1 (.settling (.error _)) :=
          .unlinked (by rw [hl])
        rwa [hl] at step
  | evaluating m =>
      simp only [advance] at h
      split at h <;> rename_i he <;> cases h
      · have step := @Steps.evaluated σ host r m _ _ (by rw [he]) rfl
        rwa [he] at step
      · have step : Steps host r (.evaluating m) (r.evaluate host m).1 (.settling (.error _)) :=
          .failed (by rw [he])
        rwa [he] at step
  | settling => cases h
  | calling => cases h

end TaskStage

/-! ### Actions -/

namespace Session

/-- The session after an import has begun. -/
def started (s : Session σ) (specifier referer : Text) : Session σ :=
  { s with
    loop := {
      queue := s.loop.queue
      reserved := s.loop.reserved ++ [s.loop.issued]
      issued := s.loop.issued + 1
      signalled := s.loop.signalled }
    futures := s.futures ++ [{}]
    imports := s.imports ++ [{ specifier, referer, ticket := s.loop.issued }] }

/-- The session after an import has handed its ticket over for a task. -/
def handedOver (s : Session σ) (i : Nat) (ticket : Ticket)
    (loaded : Except ModuleError (Text × List Loaded)) : Session σ :=
  setPhase { s with loop := {
    queue := s.loop.queue ++ [{ future := i, loaded }]
    reserved := s.loop.reserved.erase ticket
    issued := s.loop.issued
    signalled := true } } i (.ended loaded)

/-- What an action can do. -/
inductive Happens (host : Host σ) (s : Session σ) : Action σ → Session σ → Prop where
  | started (specifier referer : Text) :
      Happens host s (.start specifier referer) (s.started specifier referer)
  | refused {i : Nat} {fs : FileSystem} {caches : Resolver} {x : Import} {e : NotFound}
      (at_ : s.imports[i]? = some x) (phase : x.phase = .resolving)
      (error : (caches.resolve fs x.specifier x.referer).2.result = .error e) :
      Happens host s (.resolve i fs caches) (s.setPhase i (.refused e))
  | found {i : Nat} {fs : FileSystem} {caches : Resolver} {x : Import} {root : Text}
      (at_ : s.imports[i]? = some x) (phase : x.phase = .resolving)
      (ok : (caches.resolve fs x.specifier x.referer).2.result = .ok root) :
      Happens host s (.resolve i fs caches)
        (s.setPhase i (.loading root (Load.visit s.isKnown {} root)))
  | worked {i worker : Nat} {fs : FileSystem} {caches : Resolver} {x : Import} {root : Text}
      {l : Load} (at_ : s.imports[i]? = some x) (phase : x.phase = .loading root l)
      (lt : worker < l.workers.length) :
      Happens host s (.work i worker fs caches) (s.setPhase i (.loading root
        (l.advance s.isKnown (fun path => (Loader.loadModule s.options fs path caches).2) worker)))
  | handedOver {i : Nat} {x : Import} {loaded : Except ModuleError (Text × List Loaded)}
      (at_ : s.imports[i]? = some x) (outcome : x.phase.outcome? = some loaded)
      (reserved : x.ticket ∈ s.loop.reserved) :
      Happens host s (.handOver i) (s.handedOver i x.ticket loaded)
  | ran {early : Option Interruption} (position : s.position = .returned early) :
      Happens host s .run { s with position := .ready }
  | stopped (e : Interruption) (position : s.position = .ready) :
      Happens host s (.turn (some e)) { s with position := .returned (some e), stage := .calling }
  | looked (position : s.position = .ready) :
      Happens host s (.turn none) { s with position := .looking, stage := .calling }
  | began (interrupted : Option Interruption) {t : ImportTask} {rest : List ImportTask}
      (position : s.position = .looking) (queue : s.loop.queue = t :: rest) :
      Happens host s (.turn interrupted) { s with
        loop := {
          queue := rest
          reserved := s.loop.reserved
          issued := s.loop.issued
          signalled := s.loop.signalled }
        position := .running t
        stage := .first t.loaded }
  | ended (interrupted : Option Interruption) (position : s.position = .looking)
      (queue : s.loop.queue = []) (reserved : s.loop.reserved = []) :
      Happens host s (.turn interrupted) { s with position := .returned none, stage := .calling }
  | waited (interrupted : Option Interruption) (position : s.position = .looking)
      (queue : s.loop.queue = []) (reserved : s.loop.reserved ≠ []) :
      Happens host s (.turn interrupted) { s with position := .waiting, stage := .calling }
  | woke (interrupted : Option Interruption) (position : s.position = .waiting)
      (signalled : s.loop.signalled = true) :
      Happens host s (.turn interrupted) { s with
        loop := {
          queue := s.loop.queue
          reserved := s.loop.reserved
          issued := s.loop.issued
          signalled := false }
        position := .ready
        stage := .calling }
  | gaveUp (e : Interruption) (position : s.position = .waiting)
      (signalled : s.loop.signalled = false) :
      Happens host s (.turn (some e)) { s with position := .returned (some e), stage := .calling }
  | finished (interrupted : Option Interruption) {t : ImportTask} (position : s.position = .running t)
      (stage : s.stage = .calling) (told : s.hasTold t.future = true) :
      Happens host s (.turn interrupted) { s with position := .ready, stage := .calling }
  | proceeded {pick : Nat} {t : ImportTask} {r : Registry σ} {stage : TaskStage}
      (position : s.position = .running t) (steps : s.stage.Steps host s.registry r stage) :
      Happens host s (.proceed pick) { s with registry := r, stage }
  | settled {pick : Nat} {t : ImportTask} {result : ImportResult} {f f' : Future ImportResult}
      (position : s.position = .running t) (stage : s.stage = .settling result)
      (at_ : s.futures[t.future]? = some f) (fulfilled : f.fulfil result = some f') :
      Happens host s (.proceed pick)
        { s with futures := s.futures.set t.future f', stage := .calling }
  | added {i : Nat} {c : Callback} {f : Future ImportResult} (at_ : s.futures[i]? = some f) :
      Happens host s (.andThen i c) { s with futures := s.futures.set i (f.add c) }
  | called {i lot : Nat} {f : Future ImportResult} {c : Callback} {rest : List Callback}
      (at_ : s.futures[i]? = some f) (due : (f.due[lot]?).map (·.rest) = some (c :: rest)) :
      Happens host s (.call i lot) { s with futures := s.futures.set i (f.call lot) }
  | played (f : σ → σ) :
      Happens host s (.play f)
        { s with registry := s.registry.withWorld (f s.registry.world) }

variable {s s' : Session σ} {a : Action σ}

/-- A turn of the loop is one of the things that can happen. -/
theorem turn_happens {interrupted : Option Interruption}
    (h : s.act host (.turn interrupted) = some s') : Happens host s (.turn interrupted) s' := by
  simp only [act] at h
  split at h
  · rename_i may
    cases h
    cases hp : s.position with
    | ready =>
        cases interrupted with
        | none => exact .looked hp
        | some e => exact .stopped e hp
    | looking =>
        cases hq : s.loop.queue with
        | nil =>
            cases hr : s.loop.reserved with
            | nil =>
                simp only [EventLoop.advance, hq, hr, List.isEmpty_nil, if_true]
                exact .ended interrupted hp hq hr
            | cons ticket rest =>
                simp only [EventLoop.advance, hq, hr, List.isEmpty_cons]
                exact .waited interrupted hp hq (by simp [hr])
        | cons t rest =>
            simp only [EventLoop.advance, hq]
            exact .began interrupted hp hq
    | waiting =>
        cases hs : s.loop.signalled with
        | true =>
            simp only [EventLoop.advance, hs, if_true]
            exact .woke interrupted hp hs
        | false =>
            -- without a signal a waiting run goes on only when it is interrupted
            simp only [mayTurn, hp, hs, Bool.false_or] at may
            obtain ⟨e, rfl⟩ := Option.isSome_iff_exists.1 may
            simp only [EventLoop.advance, hs]
            exact .gaveUp e hp hs
    | running t =>
        cases hs : s.stage with
        | calling =>
            simp only [mayTurn, hp, hs] at may
            exact .finished interrupted hp hs may
        | _ => simp [mayTurn, hp, hs] at may
    | returned early =>
        simp [mayTurn, hp] at may
  · cases h

/-- A step of the task is one of the things that can happen. -/
theorem proceed_happens {pick : Nat} (h : s.act host (.proceed pick) = some s') :
    Happens host s (.proceed pick) s' := by
  simp only [act] at h
  split at h
  · rename_i t hp
    simp only [proceed] at h
    split at h
    · rename_i result hs
      split at h
      · rename_i f' hf'
        cases h
        obtain ⟨f, hf, hfulfil⟩ := Option.bind_eq_some_iff.1 hf'
        exact .settled hp hs hf hfulfil
      · cases h
    · split at h
      · rename_i r stage hadvance
        cases h
        exact .proceeded hp (TaskStage.advance_steps hadvance)
      · cases h
  · cases h

/-- **An action does one of these.** -/
theorem act_happens (h : s.act host a = some s') : Happens host s a s' := by
  cases a with
  | start specifier referer =>
      cases h
      exact .started specifier referer
  | resolve i fs caches =>
      simp only [act] at h
      split at h
      · rename_i specifier referer ticket at_
        cases h
        split
        · exact .refused at_ rfl ‹_›
        · exact .found at_ rfl ‹_›
      · cases h
  | work i worker fs caches =>
      simp only [act] at h
      split at h
      · rename_i specifier referer ticket root l at_
        split at h
        · cases h
          exact .worked at_ rfl ‹_›
        · cases h
      · cases h
  | handOver i =>
      simp only [act] at h
      split at h
      · rename_i x at_
        split at h
        · rename_i loaded outcome
          rw [EventLoop.release] at h
          split at h
          · rename_i loop hloop
            split at hloop
            · rename_i reserved
              cases hloop
              cases h
              -- a ticket is handed back once: the loop refuses one that is not reserved
              exact .handedOver at_ outcome (by simpa using reserved)
            · cases hloop
          · cases h
        · cases h
      · cases h
  | run =>
      simp only [act] at h
      split at h
      · cases h
        exact .ran ‹_›
      · cases h
  | turn interrupted => exact turn_happens h
  | proceed pick => exact proceed_happens h
  | andThen i c =>
      simp only [act] at h
      split at h
      · cases h
        exact .added ‹_›
      · cases h
  | call i lot =>
      simp only [act] at h
      split at h
      · rename_i f at_
        split at h
        · cases h
          exact .called at_ ‹_›
        · cases h
      · cases h
  | play f =>
      cases h
      exact .played f

/-! ### What can be done -/

/-- A task goes on as far as it can by itself. -/
theorem act_proceed {t : ImportTask} {pick : Nat} {r : Registry σ} {stage : TaskStage}
    (position : s.position = .running t) (h : s.stage.advance host pick s.registry = some (r, stage)) :
    s.act host (.proceed pick) = some { s with registry := r, stage } := by
  simp only [act, position, proceed]
  split
  · rename_i settling
    rw [settling] at h
    cases h
  · rw [h]

/-- A task settles its future when it has a result. -/
theorem act_settle {t : ImportTask} {pick : Nat} {result : ImportResult} {f f' : Future ImportResult}
    (position : s.position = .running t) (stage : s.stage = .settling result)
    (at_ : s.futures[t.future]? = some f) (fulfilled : f.fulfil result = some f') :
    s.act host (.proceed pick) =
      some { s with futures := s.futures.set t.future f', stage := .calling } := by
  simp only [act, position, proceed, stage, at_, Option.bind_some, fulfilled]

/-- An import with an outcome hands it over to the loop. -/
theorem act_handOver {i : Nat} {x : Import} {loaded : Except ModuleError (Text × List Loaded)}
    (at_ : s.imports[i]? = some x) (outcome : x.phase.outcome? = some loaded)
    (reserved : x.ticket ∈ s.loop.reserved) :
    s.act host (.handOver i) = some (s.handedOver i x.ticket loaded) := by
  simp [act, at_, outcome, EventLoop.release, reserved]
  rfl

/-! ### The phases of imports -/

/-- An import that goes on has its new phase, and the others have theirs. -/
theorem getElem?_setPhase {i j : Nat} {phase : ImportPhase} :
    (s.setPhase i phase).imports[j]? =
      if i = j then (s.imports[j]?).map fun x => { x with phase } else s.imports[j]? := by
  rw [setPhase, List.getElem?_modify]
  split <;> simp

/-- Each import is as it was, or the one that goes on. -/
theorem mem_imports_setPhase {i : Nat} {phase : ImportPhase} {y : Import}
    (h : y ∈ (s.setPhase i phase).imports) :
    y ∈ s.imports ∨ ∃ x, s.imports[i]? = some x ∧ y = { x with phase } := by
  obtain ⟨j, hj⟩ := List.mem_iff_getElem?.1 h
  rw [getElem?_setPhase] at hj
  split at hj
  · rename_i e
    obtain ⟨x, hx, rfl⟩ := Option.map_eq_some_iff.1 hj
    exact .inr ⟨x, e ▸ hx, rfl⟩
  · exact .inl (List.mem_of_getElem? hj)

/-! ### Schedules -/

/-- What the first session of a schedule has and every action keeps, the last one has. -/
theorem run_induct {P : Session σ → Prop} {schedule : List (Action σ)}
    (h : s.run host schedule = some s') (hP : P s)
    (step : ∀ {s a s'}, P s → Happens host s a s' → P s') : P s' := by
  induction schedule generalizing s with
  | nil =>
      cases h
      exact hP
  | cons a schedule ih =>
      obtain ⟨s₁, ha, hrest⟩ := Option.bind_eq_some_iff.1 h
      exact ih hrest (step hP (act_happens ha))

/-- What a session has after each part of a schedule, it has after the whole. -/
theorem run_induct_schedule {P : List (Action σ) → Session σ → Prop} {schedule : List (Action σ)}
    (h : s.run host schedule = some s') (hP : P [] s)
    (step : ∀ {before s a s'}, P before s → Happens host s a s' → P (before ++ [a]) s') :
    P schedule s' := by
  suffices go : ∀ before, P before s → P (before ++ schedule) s' from go [] hP
  clear hP
  induction schedule generalizing s with
  | nil =>
      cases h
      intro before hP
      rwa [List.append_nil]
  | cons a schedule ih =>
      obtain ⟨s₁, ha, hrest⟩ := Option.bind_eq_some_iff.1 h
      intro before hP
      rw [List.append_cons]
      exact ih hrest _ (step hP (act_happens ha))

/-- A schedule is run in two parts. -/
theorem run_append {schedule schedule' : List (Action σ)} :
    s.run host (schedule ++ schedule') = (s.run host schedule).bind (·.run host schedule') := by
  induction schedule generalizing s with
  | nil => rfl
  | cons a schedule ih => simp [run, ih, Option.bind_assoc]

/-- A schedule goes on with one more action. -/
theorem run_concat {schedule : List (Action σ)} {s'' : Session σ} (h : s.run host schedule = some s')
    (ha : s'.act host a = some s'') : s.run host (schedule ++ [a]) = some s'' := by
  simp [run_append, h, run, ha]

end Session

/-! ### Futures -/

/-- The callbacks that an action adds to a future. -/
def Action.added (i : Nat) : Action σ → List Callback
  | .andThen j c => if j = i then [c] else []
  | _ => []

namespace Session

variable {s s' : Session σ} {a : Action σ} {i : Nat} {f : Future ImportResult}

/-- The callbacks that a schedule adds to a future, in their order. -/
def addedTo (i : Nat) (schedule : List (Action σ)) : List Callback := schedule.flatMap (Action.added i)

/-- What the import with a number has come to. -/
def result? (s : Session σ) (i : Nat) : Option ImportResult := (s.futures[i]?).bind (·.result)

/-- A result is that of a future that is there. -/
theorem result?_eq_some_iff {result : ImportResult} :
    s.result? i = some result ↔ ∃ f, s.futures[i]? = some f ∧ f.result = some result :=
  Option.bind_eq_some_iff

/-- One future changes, and the others are left alone. -/
theorem exists_future_set {j : Nat} {g g' : Future ImportResult} {cs : List Callback}
    (at_ : s.futures[i]? = some f) (atj : s.futures[j]? = some g) (self : j = i → g.Moves cs g')
    (other : j ≠ i → cs = []) : ∃ f', (s.futures.set j g')[i]? = some f' ∧ f.Moves cs f' := by
  by_cases e : j = i
  · subst e
    cases at_.symm.trans atj
    exact ⟨g', (getElem?_set_eq_some_iff at_).2 (.inr ⟨rfl, rfl⟩), self rfl⟩
  · rw [other e]
    exact ⟨f, (getElem?_set_eq_some_iff atj).2 (.inl ⟨Ne.symm e, at_⟩), .kept⟩

/-- **What an action does to a future.** -/
theorem Happens.future (ha : Happens host s a s') (at_ : s.futures[i]? = some f) :
    ∃ f', s'.futures[i]? = some f' ∧ f.Moves (a.added i) f' := by
  cases ha with
  | started => exact ⟨f, getElem?_concat_eq_some_iff.2 (.inl at_), .kept⟩
  | settled _ _ att fulfilled =>
      exact exists_future_set at_ att (fun _ => .fulfilled fulfilled) fun _ => rfl
  | @added j c g atj =>
      refine exists_future_set at_ atj (fun e => ?_) fun ne => if_neg ne
      rw [Action.added, if_pos e]
      exact .added c
  | @called j lot g c rest atj => exact exists_future_set at_ atj (fun _ => .called lot) fun _ => rfl
  | _ => exact ⟨f, at_, .kept⟩

/-- What an action does about a future that is not there yet. -/
theorem Happens.future_new (ha : Happens host s a s') (new : s.futures[i]? = none) :
    a.added i = [] ∧ (s'.futures[i]? = none ∨ s'.futures[i]? = some {}) := by
  have set : ∀ {j : Nat} {g : Future ImportResult}, (s.futures.set j g)[i]? = none := by
    simpa using new
  cases ha with
  | started specifier referer =>
      refine ⟨rfl, ?_⟩
      cases h : (s.started specifier referer).futures[i]? with
      | none => exact .inl rfl
      | some f =>
          rcases getElem?_concat_eq_some_iff.1 h with h' | ⟨-, rfl⟩
          · cases new.symm.trans h'
          · exact .inr rfl
  | settled => exact ⟨rfl, .inl set⟩
  | @added j c g atj =>
      refine ⟨if_neg ?_, .inl set⟩
      rintro rfl
      cases new.symm.trans atj
  | called => exact ⟨rfl, .inl set⟩
  | _ => exact ⟨rfl, .inl new⟩

/-! ### Over a schedule -/

/-- What futures keep, the futures of a session keep. -/
theorem run_future {P : Future ImportResult → Prop} {schedule : List (Action σ)}
    (h : s.run host schedule = some s') (at_ : s.futures[i]? = some f) (hP : P f)
    (moves : ∀ {f cs f'}, P f → f.Moves cs f' → P f') : ∃ f', s'.futures[i]? = some f' ∧ P f' := by
  refine run_induct h (P := fun s => ∃ f, s.futures[i]? = some f ∧ P f) ⟨f, at_, hP⟩ ?_
  rintro s a s' ⟨f, at_, hP⟩ ha
  obtain ⟨f', at', hm⟩ := ha.future at_
  exact ⟨f', at', moves hP hm⟩

/-- Each future of a session accounts for the callbacks that were added to it. -/
def Account (schedule : List (Action σ)) (s : Session σ) : Prop :=
  ∀ i, (s.futures[i]? = none ∧ addedTo i schedule = []) ∨
    ∃ f, s.futures[i]? = some f ∧ f.Accounts (addedTo i schedule)

/-- Whatever happens, all callbacks are accounted for. -/
theorem Account.happens {schedule : List (Action σ)} (h : Account schedule s)
    (ha : Happens host s a s') : Account (schedule ++ [a]) s' := by
  intro i
  have added : addedTo i (schedule ++ [a]) = addedTo i schedule ++ a.added i := by
    simp [addedTo]
  rw [added]
  rcases h i with ⟨new, nothing⟩ | ⟨f, at_, accounts⟩
  · obtain ⟨nothing', new' | new'⟩ := ha.future_new new <;> rw [nothing, nothing']
    · exact .inl ⟨new', rfl⟩
    · exact .inr ⟨{}, new', .new⟩
  · obtain ⟨f', at', moves⟩ := ha.future at_
    exact .inr ⟨f', at', accounts.moves moves⟩

/-- A future accounts for the callbacks that were added to it. -/
theorem Account.accounts {schedule : List (Action σ)} (h : Account schedule s)
    (at_ : s.futures[i]? = some f) : f.Accounts (addedTo i schedule) := by
  rcases h i with ⟨new, -⟩ | ⟨g, atg, accounts⟩
  · cases new.symm.trans at_
  · cases at_.symm.trans atg
    exact accounts

/-- **Callbacks that were added before a future was settled run in the order in which they were
added.** -/
theorem Account.order {before after : List (Action σ)} (h : Account before s)
    (hr : s.run host after = some s') (unsettled : s.result? i = none)
    (at_ : s'.futures[i]? = some f) (settled : f.result.isSome = true) (left : f.outstanding = []) :
    (Callback.labelsAll (addedTo i before)).Sublist f.ran := by
  rcases h i with ⟨-, nothing⟩ | ⟨g, atg, accounts⟩
  · rw [nothing]
    exact List.nil_sublist _
  · have waiting : g.result = none := by
      rw [result?, atg] at unsettled
      exact unsettled
    have ordered : Future.Ordered (addedTo i before) g :=
      accounts.waiting waiting ▸ accounts.honest.ordered waiting
    obtain ⟨f', at', ordered'⟩ := run_future hr atg ordered fun ho hm => ho.moves hm
    cases at_.symm.trans at'
    exact ordered'.sublist settled left

end Session

end ModuleSystem
