import ModuleSystem.Proofs.LiveBindings
import ModuleSystem.Proofs.Namespaces

/-!
# Live bindings — modules that are linked and evaluated

A host that hands every value on takes one step when it instantiates a module, and others when it runs
one.  The registry has it instantiate a module once, and only when the imports of the module resolve;
so whatever the registry is asked for, all imports are up to date after every single step that the host
takes on the way.

* `Host.HandsOn`: such a host.  Its world tells the steps that were taken so far.  Scripted modules are
  run by one (`Stage.recorder_handsOn`).
* `Registry.Tells`: the steps are proper ones, and have led to the bindings at hand.
* `imports_up_to_date`: all imports are up to date after every step.
-/

namespace ModuleSystem

/-- The world has gone on by some steps. -/
structure Takes {σ : Type} (bindings : σ → Bindings) (done : σ → List LiveStep) (g : Graph)
    (steps : List LiveStep) (world world' : σ) : Prop where
  bindings : bindings world' = steps.foldl (LiveStep.run g) (bindings world)
  done : done world' = done world ++ steps

/-- The world has gone on by steps that may be taken at any time. -/
def TakesAny {σ : Type} (bindings : σ → Bindings) (done : σ → List LiveStep) (g : Graph)
    (world world' : σ) : Prop :=
  ∃ steps, (∀ s ∈ steps, s.AnyTime g) ∧ Takes bindings done g steps world world'

/-- A host that connects modules when it instantiates them, and hands on every value that is assigned
to an exported variable.  `done` tells the steps that were taken so far. -/
structure Host.HandsOn {σ : Type} (host : Host σ) (bindings : σ → Bindings)
    (done : σ → List LiveStep) : Prop where
  instantiate : ∀ g m world, ∃ hoisted,
    Takes bindings done g [.connect m hoisted] world (host.instantiate g m world).1
  evaluate : ∀ g m world, TakesAny bindings done g world (host.evaluate g m world).1
  publish : ∀ g m world, Takes bindings done g [.publish m] world (host.publish g m world)

/-! ### Scripted modules -/

namespace Bindings

/-- The variables and connections are the same; only namespaces may differ. -/
def SameVariables (b b' : Bindings) : Prop := b' = { b with namespaces := b'.namespaces }

/-- Making a namespace leaves the variables alone. -/
theorem sameVariables_namespaceOf (b : Bindings) (g : Graph) (d : ModuleId) :
    b.SameVariables (b.namespaceOf g d).1 := by
  rw [namespaceOf]
  split <;> rfl

/-- So does reading a member of one. -/
theorem sameVariables_get (b : Bindings) (g : Graph) (ns : Namespace) (name : Text) :
    b.SameVariables (b.get g ns name).1 := by
  rw [get]
  split
  · rfl
  · rename_i t _
    cases t with
    | whole d => exact b.sameVariables_namespaceOf g d
    | slot => rfl

theorem SameVariables.trans {b b' b'' : Bindings} (h : b.SameVariables b') (h' : b'.SameVariables b'') :
    b.SameVariables b'' := by
  rw [SameVariables] at h
  rw [h] at h'
  exact h'

end Bindings

namespace Stage

variable {g : Graph} {m : ModuleId} {s : Stage}

/-- The variables that have a value before the body of a module runs. -/
def hoisted (s : Stage) (g : Graph) (m : ModuleId) : List (Text × Value) :=
  (s.script g m).hoisted.map fun (k, v) => (k, .text v)

/-- A scripted module connects its imports when it is instantiated. -/
theorem bindings_instantiate :
    (s.instantiate g m).1.bindings = s.bindings.connect g m (s.hoisted g m) := by
  obtain ⟨b, hb, -⟩ := (s.bindings.instantiate m (s.hoisted g m)).setGetters_getters g m
  have bound : (s.bindings.instantiate m (s.hoisted g m)).bindExports g m (getters g m) =
      (b.pushAll g m, .ok ()) := by
    rw [Bindings.bindExports, hb]
  rw [Bindings.connect, bound]
  simp only [instantiate, say]
  rw [← hoisted, bound]
  dsimp only
  split <;> rename_i hw <;> rw [hw]

/-- What a step of a script does with bindings: it assigns to a variable, or makes namespaces at
most. -/
def liveStep (g : Graph) (m : ModuleId) (s : Stage) : ScriptStep → LiveStep
  | .set var value => .write m var (.text value)
  | step => .view (run g m [step] s).1.bindings.namespaces

/-- What steps of a script do with bindings, up to the first that throws. -/
def liveSteps (g : Graph) (m : ModuleId) : List ScriptStep → Stage → List LiveStep
  | [], _ => []
  | step :: steps, s => s.liveStep g m step :: match run g m [step] s with
    | (s, .ok ()) => liveSteps g m steps s
    | (_, .error _) => []

/-- A script is run step by step. -/
theorem run_cons (step : ScriptStep) (steps : List ScriptStep) :
    run g m (step :: steps) s = match run g m [step] s with
      | (s, .ok ()) => run g m steps s
      | (s, .error e) => (s, .error e) := by
  cases step with
  | set | throw | log => rfl
  | read var name =>
      simp only [run]
      split <;> rfl

theorem anyTime_liveStep (step : ScriptStep) : (s.liveStep g m step).AnyTime g := by
  cases step <;> trivial

theorem anyTime_liveSteps (steps : List ScriptStep) :
    ∀ l ∈ liveSteps g m steps s, l.AnyTime g := by
  induction steps generalizing s with
  | nil => simp [liveSteps]
  | cons step steps ih =>
      rw [liveSteps, List.forall_mem_cons]
      refine ⟨anyTime_liveStep step, ?_⟩
      split
      · exact ih
      · simp

/-- A step of a script does with the bindings what its live step does. -/
theorem bindings_step (step : ScriptStep) :
    (run g m [step] s).1.bindings = LiveStep.run g s.bindings (s.liveStep g m step) := by
  cases step with
  | set | throw | log => rfl
  | read var name =>
      simp only [liveStep, LiveStep.run, run]
      split
      · exact (s.bindings.sameVariables_namespaceOf g _).trans (Bindings.sameVariables_get _ g _ name)
      · rfl

/-- So does a script. -/
theorem bindings_run (steps : List ScriptStep) :
    (run g m steps s).1.bindings = (liveSteps g m steps s).foldl (LiveStep.run g) s.bindings := by
  induction steps generalizing s with
  | nil => rfl
  | cons step steps ih =>
      have first := s.bindings_step (g := g) (m := m) step
      rw [run_cons, liveSteps, List.foldl_cons, ← first]
      rcases run g m [step] s with ⟨s', e | u⟩
      · rfl
      · exact ih

/-- The host of scripted modules, with a record of what it does with bindings.  The stage becomes what it
becomes without the record. -/
def recorder : Host (Stage × List LiveStep) where
  instantiate g m w :=
    (((w.1.instantiate g m).1, w.2 ++ [.connect m (w.1.hoisted g m)]), (w.1.instantiate g m).2)
  evaluate g m w :=
    let steps := liveSteps g m (w.1.script g m).steps (w.1.say (.evaluate (g.path m)))
    (((w.1.evaluate g m).1, w.2 ++ steps), (w.1.evaluate g m).2)
  publish g m w := (host.publish g m w.1, w.2 ++ [.publish m])
  namespaceOf g m w := (((host.namespaceOf g m w.1).1, w.2), (host.namespaceOf g m w.1).2)

/-- **Scripted modules hand every value on.** -/
theorem recorder_handsOn : recorder.HandsOn (·.1.bindings) (·.2) where
  instantiate g m w := ⟨w.1.hoisted g m, bindings_instantiate, rfl⟩
  evaluate _ _ _ := ⟨_, anyTime_liveSteps _, bindings_run _, rfl⟩
  publish _ _ _ := ⟨rfl, rfl⟩

end Stage

/-! ### While a registry is used -/

namespace Registry

variable {σ : Type} {host : Host σ} {bindings : σ → Bindings} {done : σ → List LiveStep} {g : Graph}
  {n : Nat} {r r' : Registry σ} {m : ModuleId} {world : σ}

/-- The steps that the world tells are proper ones and have led to the bindings at hand, and the modules
that were instantiated are those that are marked as such. -/
structure Tells (bindings : σ → Bindings) (done : σ → List LiveStep) (g : Graph) (n : Nat)
    (r : Registry σ) : Prop where
  graph : r.graph = g
  length : r.progress.length = n
  bindings : bindings r.world = LiveStep.after g (done r.world)
  proper : LiveStep.Proper g (done r.world)
  flags : ∀ m, r.isInstantiated m = true ↔ LiveStep.Instantiated (done r.world) m

namespace Tells

/-- What happens in the world alone keeps what was told. -/
theorem congr (h : r.Tells bindings done g n) (same : SameWorld r r') : r'.Tells bindings done g n where
  graph := same.graph.trans h.graph
  length := same.length.trans h.length
  bindings := by rw [same.world, h.bindings]
  proper := by rw [same.world]; exact h.proper
  flags m := by rw [same.flags, same.world, h.flags]

/-- So does a step that comes at any time. -/
theorem takesAny (h : r.Tells bindings done g n) (ht : TakesAny bindings done g r.world world) :
    (r.withWorld world).Tells bindings done g n := by
  obtain ⟨steps, any, ht⟩ := ht
  refine ⟨h.graph, h.length, ?_, ?_, fun m => ?_⟩ <;> simp only [withWorld, ht.done, ht.bindings]
  · rw [LiveStep.after_append, h.bindings]
  · exact h.proper.append any
  · rw [LiveStep.instantiated_append any]
    exact h.flags m

/-- A module that is instantiated connects its imports, which were checked before. -/
theorem connect (h : r.Tells bindings done g n) (hm : m < n) (ok : g.linkError? m = none)
    (hf : r.isInstantiated m = false) {hoisted : List (Text × Value)}
    (ht : Takes bindings done g [.connect m hoisted] r.world world) (e : Option ModuleError) :
    (r.afterInstantiate m world e).Tells bindings done g n := by
  have new : ¬ LiveStep.Instantiated (done r.world) m := by
    rw [← h.flags m, hf]
    simp
  refine ⟨h.graph, length_update.trans h.length, ?_, ?_, fun x => ?_⟩ <;>
    simp only [afterInstantiate, world_note, ht.done, ht.bindings]
  · rw [LiveStep.after_append, h.bindings]
  · exact h.proper.connect new ok
  · rw [LiveStep.instantiated_connect]
    by_cases hx : x = m
    · subst hx
      refine iff_of_true (congrArg Progress.instantiated (progressOf_update_self ?_)) (.inr rfl)
      rwa [h.length]
    · refine Iff.trans ?_ (or_iff_left hx).symm
      rw [← h.flags x]
      exact iff_of_eq (congrArg (· = true)
        (congrArg Progress.instantiated (progressOf_update_of_ne hx)))

/-- The body of a link is told as it happens. -/
theorem linkBody (law : host.HandsOn bindings done) (h : r.Tells bindings done g n) (hm : m < n) :
    ((linkPhase host).body m r).1.Tells bindings done g n := by
  cases he : r.graph.linkError? m with
  | some e =>
      rw [linkPhase_body_of_some he]
      exact h
  | none =>
      rw [linkPhase_body_of_none he]
      cases hf : r.isInstantiated m with
      | true =>
          rw [instantiate_of_true hf]
          exact h
      | false =>
          -- nowhere else is the host asked to instantiate a module
          obtain ⟨e, heq⟩ : ∃ e, (instantiate host m r).1 = _ := instantiate_of_false hf
          obtain ⟨hoisted, ht⟩ := law.instantiate r.graph m r.world
          rw [heq]
          rw [h.graph] at he ht ⊢
          exact h.connect hm he hf ht e

/-- So is the body of an evaluation. -/
theorem evaluateBody (law : host.HandsOn bindings done) (h : r.Tells bindings done g n) :
    ((evaluatePhase host).body m r).1.Tells bindings done g n := by
  obtain rfl := h.graph
  have ran := h.takesAny (law.evaluate r.graph m r.world)
  rcases hev : host.evaluate r.graph m r.world with ⟨world, e | u⟩ <;> rw [hev] at ran <;>
    simp only [evaluatePhase, runBody, hev]
  · exact ran.congr (.note _ _)
  · have published : TakesAny bindings done r.graph world (host.publish r.graph m world) :=
      ⟨_, by simp [LiveStep.AnyTime], law.publish r.graph m world⟩
    exact (ran.takesAny published).congr (.note _ _)

/-- So is a request. -/
theorem handle (law : host.HandsOn bindings done) (h : r.Tells bindings done g n) (q : Request) :
    (r.handle host q).1.Tells bindings done g n :=
  handle_keeps (fun same h => h.congr same) (fun h₀ hm h => h.linkBody law (h₀.length ▸ hm))
    (fun h => h.evaluateBody law) q h

/-- So is any use of the registry that leaves the graph alone. -/
theorem step (law : host.HandsOn bindings done) (h : r.Tells bindings done g n)
    (s : Step host (TakesAny bindings done) r r') (graph : r'.graph = r.graph) :
    r'.Tells bindings done g n := by
  cases s with
  | create path =>
      rw [getOrCreate] at graph ⊢
      split at graph
      · exact h
      · -- a new record would be part of the graph
        simp at graph
  | attach hm hd ha =>
      rw [attach] at ha
      split at ha <;> cases ha
      exact h.congr ⟨graph, length_update, rfl, fun _ => isInstantiated_move⟩
  | request q _ => exact h.handle law q
  | act ha => exact h.takesAny (h.graph ▸ ha)

/-- So are all of them. -/
theorem run (law : host.HandsOn bindings done) (h : r.Tells bindings done g n)
    (run : StaticRun host (TakesAny bindings done) r r') : r'.Tells bindings done g n := by
  induction run with
  | refl => exact h
  | tail _ s ih => exact ih.step law s.1 s.2

end Tells

/-- Two modules that import from each other.  The variable that `0` exports has a value from the start,
and `1` assigns to the one that it exports. -/
def couple : Registry (Stage × List LiveStep) where
  graph :=
    [{ path := [97]
       deps := [1]
       compiled := some
         { source := { contents := [] }
           code := []
           interface :=
             { namedImports := [{ importName := [98], localName := [120], start := 0, record := 0 }]
               localExports := [{ name := [97], localName := [97], start := 0 }] } } },
      { path := [98]
        deps := [0]
        compiled := some
          { source := { contents := [] }
            code := []
            interface :=
              { namedImports := [{ importName := [97], localName := [121], start := 0, record := 0 }]
                localExports := [{ name := [98], localName := [98], start := 0 }] } } }]
  progress := List.replicate 2 { state := .unlinked }
  world :=
    ({ scripts := [([97], { hoisted := [([97], [102])] }), ([98], { steps := [.set [98] [50]] })] }, [])

theorem couple_attached : couple.Attached where
  length := rfl
  deps := by decide
  fresh := by decide
  calls k := by cases k <;> rfl
  attached := by decide

/-- **No update is lost.**  Let modules be linked and evaluated in any order by a host that connects a
module when it instantiates it, and hands on every value that is assigned to an exported variable, while
modules are run and between requests.  After every step that the host has taken, every import of a
module that was instantiated, if it stands for an export of another module, holds what the exported
variable holds then, as soon as that module was instantiated and the variable is initialized; until then
it was never assigned. -/
theorem imports_up_to_date (law : host.HandsOn bindings done) (fit : r.graph.ImportsFit)
    (fresh : ∀ m, r.isInstantiated m = false) (unwired : bindings r.world = {})
    (start : done r.world = []) (run : StaticRun host (TakesAny bindings done) r r') :
    bindings r'.world = LiveStep.after r.graph (done r'.world) ∧
    (∀ m, r'.isInstantiated m = true ↔ LiveStep.Instantiated (done r'.world) m) ∧
    ∀ past, past <+: done r'.world → LiveStep.UpToDate r.graph past := by
  have tells : r.Tells bindings done r.graph r.progress.length :=
    { graph := rfl
      length := rfl
      bindings := by rw [unwired, start]; rfl
      proper := start ▸ .nil
      flags := fun m => by simp [fresh, start, LiveStep.Instantiated] }
  have told := tells.run law run
  exact ⟨told.bindings, told.flags, fun past hp => (told.proper.of_prefix hp).upToDate fit⟩

/-- The import of `0` was connected when `1` had not run yet. -/
theorem imports_up_to_date_couple :
    let r := couple.after Stage.recorder [.link 0, .evaluate 0]
    r.world.1.bindings.held ⟨0, [120]⟩ = some (.text [50]) ∧
    ∀ past, past <+: r.world.2 → LiveStep.UpToDate couple.graph past := by
  intro r
  have graph : ∀ requests, (couple.after Stage.recorder requests).graph = couple.graph :=
    (couple_attached.atRest Stage.recorder).graph_after
  have linked : (couple.handle Stage.recorder (.link 0)).2 ≠ .error .misuse := by decide +kernel
  have ran : ((couple.after Stage.recorder [.link 0]).handle Stage.recorder (.evaluate 0)).2 ≠
      .error .misuse := by decide +kernel
  have run : StaticRun Stage.recorder (TakesAny (·.1.bindings) (·.2)) couple r :=
    (Relation.ReflTransGen.single ⟨.request (.link 0) linked, graph [.link 0]⟩).tail
      ⟨.request (.evaluate 0) ran, (graph [.link 0, .evaluate 0]).trans (graph [.link 0]).symm⟩
  obtain ⟨hb, flags, upToDate⟩ := imports_up_to_date Stage.recorder_handsOn (by decide)
    (fun _ => couple_attached.isInstantiated) rfl rfl run
  refine ⟨?_, upToDate⟩
  have instantiated : ∀ m, r.isInstantiated m = true → LiveStep.Instantiated r.world.2 m :=
    fun m => (flags m).1
  have current : r.world.1.bindings.current couple.graph 1 [98] = some (.text [50]) := by
    decide +kernel
  have resolved : couple.graph.resolve 1 [98] = .found (.slot 1 [98]) := by decide +kernel
  rw [hb] at current ⊢
  refine (upToDate _ (List.prefix_refl _) 0 (instantiated 0 (by decide +kernel)) ⟨[98], [120], 0, 0⟩
    (by decide) (by decide) 1 [98] resolved _).2 ⟨instantiated 1 (by decide +kernel), current⟩

end Registry

end ModuleSystem
