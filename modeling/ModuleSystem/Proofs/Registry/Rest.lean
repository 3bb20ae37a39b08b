import ModuleSystem.Proofs.Registry.State
import ModuleSystem.Proofs.Registry.Phases

/-!
# Registry — between requests

A registry is asked to link and to evaluate modules, in any order and whether or not earlier requests
failed (`Registry.after`).  Between two requests it is idle (`Registry.Idle`): no walk is under way, and
both phases would start out sound.  If every module is attached, it is at rest (`Registry.AtRest`), and
can be asked for anything.

* `Walk.Swept`: what becomes of a registry that a phase walks, when the modules left open are moved
  to another state.
* `LinkEnds`, `EvaluateEnds`: the three ways in which each request can end.
* `Idle.handle`: whatever comes of a request that is no misuse, both phases can start again.
* `AtRest.after`: a registry whose modules are attached is at rest after any requests.
* `states_between_requests`: the states of modules and of their dependencies fit together, and a
  module that was linked can be evaluated.
* `calls_once_dependencies_first`: the host is asked once for each module, dependencies first.
-/

namespace ModuleSystem

namespace Walk

variable {σ : Type} {phase : Phase σ} {k : Service} {w : Walk σ} {r r' : Registry σ} {s : ModuleState}

/-- Between walks no module is open. -/
theorem Sound.not_active (h : Sound phase k { registry := r }) (x : ModuleId) :
    r.state x ≠ phase.active := by
  intro ha
  have : x ∈ [] := (h.active_iff x).1 ha
  cases this

/-- A phase can start again where it could, if it is through with the same modules and the host was
asked for the same. -/
theorem Sound.congr (h : Sound phase k { registry := r }) (graph : r'.graph = r.graph)
    (active : ∀ x, r'.state x ≠ phase.active)
    (settled : ∀ x, phase.Settled (r'.state x) ↔ phase.Settled (r.state x))
    (calls : r'.calls k = r.calls k) (once : r'.InstantiatesOnce) :
    Sound phase k { registry := r' } := by
  refine .start active (fun x hx d hd => ?_) (fun x hx => ?_) ?_ once
  · rw [graph] at hd
    exact (settled d).2 (h.settled x ((settled x).1 hx) d hd)
  · rw [calls]
    exact h.called x ((settled x).1 hx)
  · rw [graph, calls]
    exact h.order

/-- What becomes of a registry that a phase walks, when the modules left open are moved to `s`. -/
structure Swept (phase : Phase σ) (k : Service) (s : ModuleState) (r r' : Registry σ) : Prop where
  graph : r'.graph = r.graph
  length : r'.progress.length = r.progress.length
  sound : Sound phase k { registry := r' }
  state : ∀ x, r'.state x = r.state x ∨
    phase.arrival (r.state x) = .enter ∧ (r'.state x = phase.done ∨ r'.state x = s)
  history : r.history <+: r'.history
  calls : ∃ more, r'.calls k = r.calls k ++ more ∧ more.Nodup ∧
    ∀ x ∈ more, phase.arrival (r.state x) = .enter ∧ (r'.state x = phase.done ∨ r'.state x = s)
  otherCalls : ∀ k', k' ≠ k → r'.calls k' = r.calls k'

/-- A walk that does nothing sweeps nothing. -/
theorem Swept.refl (h : Sound phase k { registry := r }) : Swept phase k s r r where
  graph := rfl
  length := rfl
  sound := h
  state _ := .inl rfl
  history := List.prefix_refl _
  calls := ⟨[], by simp, List.nodup_nil, by simp⟩
  otherCalls _ _ := rfl

/-- The host was asked only for modules that were to be entered. -/
theorem Swept.mem_calls (h : Swept phase k s r r') {k' : Service} {x : ModuleId}
    (hx : x ∈ r'.calls k') : x ∈ r.calls k' ∨ phase.arrival (r.state x) = .enter := by
  by_cases hk : k' = k
  · subst hk
    obtain ⟨more, hc, -, hmore⟩ := h.calls
    rw [hc] at hx
    exact (List.mem_append.1 hx).imp_right fun hx => (hmore x hx).1
  · rw [h.otherCalls k' hk] at hx
    exact .inl hx

/-- Taking note of something else than a call of the host changes none of this. -/
theorem Swept.note (h : Swept phase k s r r') {n : Happening} (hn : ∀ k, n.call? k = none) :
    Swept phase k s r (r'.note n) := by
  have calls : ∀ k, (r'.note n).calls k = r'.calls k := by
    intro k
    rw [Registry.calls_note, hn]
    exact List.append_nil _
  have once : (r'.note n).InstantiatesOnce := h.sound.once.congr (calls _) fun _ => rfl
  exact
    { graph := h.graph
      length := h.length
      sound := h.sound.congr rfl h.sound.not_active (fun _ => Iff.rfl) (calls k) once
      state := h.state
      history := h.history.trans (List.prefix_append _ _)
      calls := by
        rw [calls]
        exact h.calls
      otherCalls := fun k' hk => (calls k').trans (h.otherCalls k' hk) }

/-- All modules that a walk left open are moved. -/
theorem Sound.state_moveAll (law : phase.Lawful k) (h : Sound phase k w) {x : ModuleId}
    (hx : x ∈ w.stack) : (w.registry.moveAll w.stack.reverse s).state x = s :=
  Registry.state_moveAll_of_mem (List.mem_reverse.2 hx) (h.lt_length law hx)

/-- The other modules are not. -/
theorem state_moveAll_of_notMem_stack {x : ModuleId} (hx : x ∉ w.stack) :
    (w.registry.moveAll w.stack.reverse s).state x = w.registry.state x :=
  Registry.state_moveAll_of_notMem fun hm => hx (List.mem_reverse.1 hm)

/-- Moving the open modules to a state that the phase is not through with leaves a registry from
which it can start again. -/
theorem Sound.sweep (law : phase.Lawful k) (h : Sound phase k w)
    (hs : ∀ x ∈ w.stack, s ≠ phase.active ∧ ¬ phase.Settled s) :
    Sound phase k { registry := w.registry.moveAll w.stack.reverse s } := by
  have settled : ∀ {x}, phase.Settled ((w.registry.moveAll w.stack.reverse s).state x) →
      phase.Settled (w.registry.state x) := by
    intro x hx
    by_cases hm : x ∈ w.stack
    · rw [h.state_moveAll law hm] at hx
      exact absurd hx (hs x hm).2
    · rwa [state_moveAll_of_notMem_stack hm] at hx
  have kept : ∀ {x}, phase.Settled (w.registry.state x) →
      phase.Settled ((w.registry.moveAll w.stack.reverse s).state x) := by
    intro x hx
    have hm : x ∉ w.stack := fun hm => hx.2 ((h.active_iff x).2 hm)
    rwa [state_moveAll_of_notMem_stack hm]
  refine .start (fun x => ?_) (fun x hx d hd => ?_) (fun x hx => ?_) ?_ (h.once.congr (by simp) (by simp))
  · by_cases hm : x ∈ w.stack
    · rw [h.state_moveAll law hm]
      exact (hs x hm).1
    · rw [state_moveAll_of_notMem_stack hm, Ne, h.active_iff x]
      exact hm
  · exact kept (h.settled x (settled hx) d (by simpa using hd))
  · simpa using h.called x (settled hx)
  · simpa using h.order

/-- **A walk that is swept up afterwards**: each module is as before, closed, or moved to `s`. -/
theorem Extends.swept (law : phase.Lawful k) (ext : Extends phase k { registry := r } w)
    (h : Sound phase k w) (hs : ∀ x ∈ w.stack, s ≠ phase.active ∧ ¬ phase.Settled s) :
    Swept phase k s r (w.registry.moveAll w.stack.reverse s) := by
  obtain ⟨new, hnew, hopen⟩ := ext.stack
  rw [List.append_nil] at hnew
  -- an open module is at `s` now, and every other one where the walk has left it
  have state : ∀ x, (w.registry.moveAll w.stack.reverse s).state x = s ∧ x ∈ w.stack ∨
      (w.registry.moveAll w.stack.reverse s).state x = w.registry.state x ∧
        w.registry.state x ≠ phase.active := by
    intro x
    by_cases hm : x ∈ w.stack
    · exact .inl ⟨h.state_moveAll law hm, hm⟩
    · exact .inr ⟨state_moveAll_of_notMem_stack hm, fun ha => hm ((h.active_iff x).1 ha)⟩
  refine
    { graph := Registry.graph_moveAll.trans ext.graph
      length := Registry.length_moveAll.trans ext.length
      sound := h.sweep law hs
      state := fun x => ?_
      history := ext.history.trans Registry.prefix_history_moveAll
      calls := ?_
      otherCalls := fun k' hk => (Registry.calls_moveAll k').trans (ext.otherCalls k' hk) }
  · by_cases ha : phase.arrival (r.state x) = .enter
    · rcases state x with ⟨e, -⟩ | ⟨e, hne⟩
      · exact .inr ⟨ha, .inr e⟩
      · rw [e]
        rcases ext.moved ha with e' | e' | e'
        · exact .inl e'
        · exact absurd e' hne
        · exact .inr ⟨ha, .inl e'⟩
    · rcases state x with ⟨-, hm⟩ | ⟨e, -⟩
      · exact absurd (hopen x (hnew ▸ hm)) ha
      · exact .inl (e.trans (ext.state ha))
  · obtain ⟨more, hc, hd, hmore⟩ := ext.calls
    refine ⟨more, (Registry.calls_moveAll k).trans hc, hd, fun x hx => ⟨(hmore x hx).1, ?_⟩⟩
    rcases state x with ⟨e, -⟩ | ⟨e, hne⟩
    · exact .inr e
    · rw [e]
      rcases ext.moved (hmore x hx).1 with e' | e' | e'
      · exact absurd (e' ▸ (hmore x hx).1) (hmore x hx).2
      · exact absurd e' hne
      · exact .inl e'

end Walk

/-- What a registry can be asked for. -/
inductive Request where
  | link (root : ModuleId)
  | evaluate (root : ModuleId)
deriving DecidableEq, Repr

/-- A state that a module never leaves. -/
def ModuleState.isFinal : ModuleState → Bool
  | .evaluated | .errored _ => true
  | _ => false

/-- A module that has come to its end was linked. -/
theorem ModuleState.isLinked_of_isFinal {s : ModuleState} (h : s.isFinal = true) :
    s.isLinked = true := by
  cases s <;> simp_all [isFinal, isLinked]

namespace Registry

variable {σ : Type}

/-- Answers a request. -/
def handle (host : Host σ) (r : Registry σ) : Request → Registry σ × Except Stop Unit
  | .link root => r.link host root
  | .evaluate root => r.evaluate host root

/-- The registry after some requests. -/
def after (host : Host σ) (r : Registry σ) (requests : List Request) : Registry σ :=
  requests.foldl (fun r q => (r.handle host q).1) r

/-- What holds of a registry while no request is under way: both phases would start out sound, and
the host was asked to run no module twice, and none that could still be evaluated. -/
structure Idle (host : Host σ) (r : Registry σ) : Prop where
  length : r.progress.length = r.graph.length
  deps : ∀ m, ∀ d ∈ r.graph.deps m, d < r.graph.length
  linking : Walk.Sound (linkPhase host) .instantiate { registry := r }
  evaluating : Walk.Sound (evaluatePhase host) .evaluate { registry := r }
  final : ∀ m ∈ r.calls .evaluate, (r.state m).isFinal = true
  nodup : (r.calls .evaluate).Nodup

/-- A registry that can be asked for anything: no request is under way, and every module is
attached. -/
structure AtRest (host : Host σ) (r : Registry σ) : Prop extends Idle host r where
  attached : ∀ m < r.graph.length, r.state m ≠ .new

variable {host : Host σ} {r r' : Registry σ} {root m d : ModuleId}

/-- A phase that is not through with unlinked modules can start on attached ones. -/
theorem Attached.sound (h : r.Attached) {phase : Phase σ} {k : Service} (law : phase.Lawful k)
    (active : .unlinked ≠ phase.active) (settled : ¬ phase.Settled .unlinked) :
    Walk.Sound phase k { registry := r } := by
  have not_settled : ∀ x, ¬ phase.Settled (r.state x) := by
    intro x
    rcases h.state_cases x with e | e
    · rwa [e]
    · rw [e, Phase.Settled, law.arrival_new]
      simp
  refine .start (fun x => ?_) (fun x hx => absurd hx (not_settled x))
    (fun x hx => absurd hx (not_settled x)) ?_ ⟨?_, fun x => ?_⟩
  · rcases h.state_cases x with e | e
    · rwa [e]
    · intro ha
      have := law.arrival_active
      rw [← ha, e, law.arrival_new] at this
      cases this
  · rw [h.calls]
    exact .nil _
  · rw [h.calls]
    exact List.nodup_nil
  · simp [h.isInstantiated, h.calls]

/-- A registry whose modules are attached is at rest. -/
theorem Attached.atRest (h : r.Attached) (host : Host σ) : r.AtRest host where
  length := h.length
  deps _ _ hd := h.deps_lt hd
  attached m hm := by simp [h.state hm]
  linking := h.sound (linkPhase_lawful host) (by simp [linkPhase]) (by
    simp [linkPhase_settled_iff, ModuleState.isLinked])
  evaluating := h.sound (evaluatePhase_lawful host) (by simp [evaluatePhase]) (by
    simp [evaluatePhase_settled_iff])
  final := by simp [h.calls]
  nodup := by simp [h.calls]

/-! ### The ways a request can end -/

/-- The three ways linking can end: the walk ends well, it fails and the modules left open are
unlinked again, or the root may not be linked. -/
inductive LinkEnds (host : Host σ) (r : Registry σ) (root : ModuleId) :
    Registry σ × Except Stop Unit → Prop where
  | well {w : Walk σ} (ext : Walk.Extends (linkPhase host) .instantiate { registry := r } w)
      (sound : Walk.Sound (linkPhase host) .instantiate w) (closed : w.stack = [])
      (hroot : (linkPhase host).Settled (w.registry.state root)) :
      LinkEnds host r root (w.registry, .ok ())
  | failed {w : Walk σ} {e : ModuleError}
      (ext : Walk.Extends (linkPhase host) .instantiate { registry := r } w)
      (broken : Walk.Broken (linkPhase host) .instantiate e w) :
      LinkEnds host r root (w.registry.moveAll w.stack.reverse .unlinked, .error (.error e))
  | misuse (hroot : r.state root = .new) : LinkEnds host r root (r, .error .misuse)

/-- The three ways evaluating can end: the walk ends well, it fails and the modules left open fail
with it, or the root may not be evaluated. -/
inductive EvaluateEnds (host : Host σ) (r : Registry σ) (root : ModuleId) :
    Registry σ × Except Stop Unit → Prop where
  | well {w : Walk σ} (ext : Walk.Extends (evaluatePhase host) .evaluate { registry := r } w)
      (sound : Walk.Sound (evaluatePhase host) .evaluate w) (closed : w.stack = []) :
      EvaluateEnds host r root (w.registry, .ok ())
  | failed {w : Walk σ} {e : ModuleError}
      (ext : Walk.Extends (evaluatePhase host) .evaluate { registry := r } w)
      (broken : Walk.Broken (evaluatePhase host) .evaluate e w) :
      EvaluateEnds host r root
        ((w.registry.moveAll w.stack.reverse (.errored e)).note (.failed root), .error (.error e))
  | misuse (hroot : (r.state root).isLinked = false) : EvaluateEnds host r root (r, .error .misuse)

/-- A request that the registry can answer: a link comes to no module that is not attached. -/
def Admits (host : Host σ) (r : Registry σ) : Request → Prop
  | .link root => LinkEnds host r root (r.link host root)
  | .evaluate _ => True

namespace Idle

/-! ### What a registry is like between requests -/

theorem ne_linking (h : r.Idle host) (m : ModuleId) : r.state m ≠ .linking :=
  h.linking.not_active m

theorem ne_evaluating (h : r.Idle host) (m : ModuleId) : r.state m ≠ .evaluating :=
  h.evaluating.not_active m

/-- Whatever a linked module imports from is linked. -/
theorem isLinked_dep (h : r.Idle host) (hm : (r.state m).isLinked = true)
    (hd : d ∈ r.graph.deps m) : (r.state d).isLinked = true := by
  have := h.linking.settled m (linkPhase_settled_iff.2 (.inl hm)) d hd
  exact (linkPhase_settled_iff.1 this).resolve_right (h.ne_evaluating d)

/-- Whatever an evaluated module imports from is evaluated. -/
theorem evaluated_dep (h : r.Idle host) (hm : r.state m = .evaluated)
    (hd : d ∈ r.graph.deps m) : r.state d = .evaluated :=
  evaluatePhase_settled_iff.1
    (h.evaluating.settled m (evaluatePhase_settled_iff.2 hm) d hd)

/-- What a linked module reaches is linked. -/
theorem isLinked_of_reaches (h : r.Idle host) (hr : r.graph.Reaches m d)
    (hm : (r.state m).isLinked = true) : (r.state d).isLinked = true := by
  induction hr with
  | refl => exact hm
  | step hd _ ih => exact ih (h.isLinked_dep hm hd)

/-- What an evaluated module reaches is evaluated. -/
theorem evaluated_of_reaches (h : r.Idle host) (hr : r.graph.Reaches m d)
    (hm : r.state m = .evaluated) : r.state d = .evaluated := by
  induction hr with
  | refl => exact hm
  | step hd _ ih => exact ih (h.evaluated_dep hm hd)

/-- Between requests, evaluating does not come from a linked module to one that is not. -/
theorem evaluate_proper (h : r.Idle host) : (evaluatePhase host).Proper r := by
  intro x hx d hd
  rw [evaluatePhase_ne_misuse_iff] at hx ⊢
  exact .inl (h.isLinked_dep (hx.resolve_right (h.ne_evaluating x)) hd)

/-! ### What a request does -/

/-- A link that is no misuse ends in one of the other ways. -/
theorem admits_link (h : r.Idle host) (hne : (r.link host root).2 ≠ .error .misuse) :
    r.Admits host (.link root) := by
  have law := linkPhase_lawful host
  have ext := Walk.run_extends law r root
  rcases hr : Walk.run (linkPhase host) r root with ⟨w, (e | -) | u⟩ <;> rw [hr] at ext <;>
    simp only [Admits, link, hr] at hne ⊢
  · exact .failed ext (Walk.run_error law h.linking hr)
  · exact absurd rfl hne
  · obtain ⟨sound, closed, hroot⟩ := Walk.run_ok law h.linking hr
    exact .well ext sound closed hroot

/-- An evaluation ends in one of these ways. -/
theorem evaluate_ends (h : r.Idle host) {out : Registry σ × Except Stop Unit}
    (he : r.evaluate host root = out) : EvaluateEnds host r root out := by
  have law := evaluatePhase_lawful host
  have ext := Walk.run_extends law r root
  subst he
  rcases hr : Walk.run (evaluatePhase host) r root with ⟨w, (e | -) | u⟩ <;> rw [hr] at ext <;>
    simp only [evaluate, hr]
  · exact .failed ext (Walk.run_error law h.evaluating hr)
  · obtain ⟨e, ha⟩ := Walk.run_misuse law h.evaluate_proper h.length hr
    rw [e]
    refine .misuse (Bool.eq_false_iff.2 fun hroot => ?_)
    exact evaluatePhase_ne_misuse_iff.2 (.inl hroot) ha
  · obtain ⟨sound, closed, -⟩ := Walk.run_ok law h.evaluating hr
    exact .well ext sound closed

/-- Linking takes every module it touches back to where it was, or links it. -/
theorem link_swept (h : r.Idle host) (ok : r.Admits host (.link root)) :
    Walk.Swept (linkPhase host) .instantiate .unlinked r (r.link host root).1 := by
  have law := linkPhase_lawful host
  have unsettled : .unlinked ≠ (linkPhase host).active ∧ ¬ (linkPhase host).Settled .unlinked :=
    ⟨ModuleState.noConfusion, by simp [linkPhase_settled_iff, ModuleState.isLinked]⟩
  have ends : LinkEnds host r root (r.link host root) := ok
  generalize r.link host root = out at ends
  cases ends with
  | well ext sound closed _ =>
      have swept := ext.swept law sound fun _ _ => unsettled
      rwa [closed] at swept
  | failed ext broken => exact ext.swept law broken.sound fun _ _ => unsettled
  | misuse => exact .refl h.linking

/-- A link moves modules from unlinked to linked only. -/
theorem link_state (h : r.Idle host) (ok : r.Admits host (.link root)) (x : ModuleId) :
    (r.link host root).1.state x = r.state x ∨
      r.state x = .unlinked ∧ (r.link host root).1.state x = .linked := by
  rcases (h.link_swept ok).state x with e | ⟨ha, e | e⟩
  · exact .inl e
  · exact .inr ⟨linkPhase_enter_iff.1 ha, e⟩
  · exact .inl (e.trans (linkPhase_enter_iff.1 ha).symm)

/-- Evaluating finishes the modules it touches: they are evaluated, or all fail with one error. -/
theorem evaluate_swept (h : r.Idle host) (root : ModuleId) :
    ∃ s, s.isFinal = true ∧
      Walk.Swept (evaluatePhase host) .evaluate s r (r.evaluate host root).1 := by
  have law := evaluatePhase_lawful host
  generalize he : r.evaluate host root = out
  cases h.evaluate_ends he with
  | well ext sound closed =>
      have swept := ext.swept (s := .evaluated) law sound (by simp [closed])
      rw [closed] at swept
      exact ⟨.evaluated, rfl, swept⟩
  | @failed w e ext broken =>
      have swept := ext.swept (s := .errored e) law broken.sound
        fun _ _ => ⟨ModuleState.noConfusion, by simp [evaluatePhase_settled_iff]⟩
      exact ⟨.errored e, rfl, swept.note (by rintro (_ | _) <;> rfl)⟩
  | misuse => exact ⟨.evaluated, rfl, .refl h.evaluating⟩

/-- An evaluation moves modules from linked to their end only. -/
theorem evaluate_state (h : r.Idle host) (root x : ModuleId) :
    (r.evaluate host root).1.state x = r.state x ∨
      r.state x = .linked ∧ ((r.evaluate host root).1.state x).isFinal = true := by
  obtain ⟨s, hs, swept⟩ := h.evaluate_swept root
  rcases swept.state x with e | ⟨ha, e | e⟩
  · exact .inl e
  · exact .inr ⟨evaluatePhase_enter_iff.1 ha, by rw [e]; rfl⟩
  · exact .inr ⟨evaluatePhase_enter_iff.1 ha, by rw [e]; exact hs⟩

/-- Linking leaves a registry idle, whatever comes of it. -/
theorem link (h : r.Idle host) (ok : r.Admits host (.link root)) :
    (r.link host root).1.Idle host := by
  have swept := h.link_swept ok
  have state := h.link_state ok
  have ran := swept.otherCalls .evaluate (by simp)
  refine
    { length := by rw [swept.length, swept.graph, h.length]
      deps := by
        rw [swept.graph]
        exact h.deps
      linking := swept.sound
      evaluating := h.evaluating.congr swept.graph (fun x e => ?_) (fun x => ?_) ran swept.sound.once
      final := fun m hm => ?_
      nodup := ran ▸ h.nodup }
  · rcases state x with e' | ⟨-, e'⟩
    · exact h.ne_evaluating x (e' ▸ e)
    · rw [e'] at e
      exact ModuleState.noConfusion e
  · -- linking neither evaluates a module nor takes back an evaluation
    rw [evaluatePhase_settled_iff, evaluatePhase_settled_iff]
    rcases state x with e | ⟨e, e'⟩
    · rw [e]
    · simp [e, e']
  · rw [ran] at hm
    rcases state m with e | ⟨e, -⟩
    · rw [e]
      exact h.final m hm
    · have := h.final m hm
      rw [e] at this
      cases this

/-- Evaluating leaves a registry idle, whatever comes of it. -/
theorem evaluate (h : r.Idle host) (root : ModuleId) : (r.evaluate host root).1.Idle host := by
  obtain ⟨s, hs, swept⟩ := h.evaluate_swept root
  have state := h.evaluate_state root
  have prepared := swept.otherCalls .instantiate (by simp)
  obtain ⟨more, hc, hd, hmore⟩ := swept.calls
  refine
    { length := by rw [swept.length, swept.graph, h.length]
      deps := by
        rw [swept.graph]
        exact h.deps
      linking := h.linking.congr swept.graph (fun x e => ?_) (fun x => ?_) prepared swept.sound.once
      evaluating := swept.sound
      final := fun m hm => ?_
      nodup := ?_ }
  · rcases state x with e' | ⟨-, e'⟩
    · exact h.ne_linking x (e' ▸ e)
    · rw [e] at e'
      cases e'
  · -- a module that is finished counts as linked, as it did before
    rw [linkPhase_settled_iff, linkPhase_settled_iff]
    rcases state x with e | ⟨e, e'⟩
    · rw [e]
    · exact iff_of_true (.inl (ModuleState.isLinked_of_isFinal e')) (.inl (by rw [e]; rfl))
  · rw [hc] at hm
    rcases List.mem_append.1 hm with hm | hm
    · rcases state m with e | ⟨-, e⟩
      · rw [e]
        exact h.final m hm
      · exact e
    · rcases (hmore m hm).2 with e | e
      · rw [e]
        rfl
      · rw [e]
        exact hs
  · -- what was run before is finished, and what was run now was only linked
    rw [hc]
    refine List.nodup_append.2 ⟨h.nodup, hd, fun x hx y hy exy => ?_⟩
    have hlinked := evaluatePhase_enter_iff.1 (hmore y hy).1
    have hfinal := h.final x hx
    rw [exy, hlinked] at hfinal
    cases hfinal

section Handle
variable {q : Request}

/-- **A registry stays idle between requests**, as long as it can answer them. -/
theorem handle (h : r.Idle host) (ok : r.Admits host q) : (r.handle host q).1.Idle host := by
  cases q with
  | link root => exact h.link ok
  | evaluate root => exact h.evaluate root

/-- A request that is no misuse is one that the registry can answer. -/
theorem admits (h : r.Idle host) (hne : (r.handle host q).2 ≠ .error .misuse) :
    r.Admits host q := by
  cases q with
  | link root => exact h.admits_link hne
  | evaluate root => trivial

/-- A request leaves the graph alone. -/
theorem graph_handle (h : r.Idle host) (ok : r.Admits host q) :
    (r.handle host q).1.graph = r.graph := by
  cases q with
  | link root => exact (h.link_swept ok).graph
  | evaluate root =>
      obtain ⟨_, -, swept⟩ := h.evaluate_swept root
      exact swept.graph

/-- A request adds to the history. -/
theorem history_handle (h : r.Idle host) (ok : r.Admits host q) :
    r.history <+: (r.handle host q).1.history := by
  cases q with
  | link root => exact (h.link_swept ok).history
  | evaluate root =>
      obtain ⟨_, -, swept⟩ := h.evaluate_swept root
      exact swept.history

/-- The state of a module changes in two ways only: it is linked, or it is finished. -/
theorem handle_state (h : r.Idle host) (ok : r.Admits host q) (x : ModuleId) :
    (r.handle host q).1.state x = r.state x ∨
      r.state x = .unlinked ∧ (r.handle host q).1.state x = .linked ∨
      r.state x = .linked ∧ ((r.handle host q).1.state x).isFinal = true := by
  cases q with
  | link root => exact (h.link_state ok x).imp_right .inl
  | evaluate root => exact (h.evaluate_state root x).imp_right .inr

/-- A module that is linked stays so. -/
theorem isLinked_handle (h : r.Idle host) (ok : r.Admits host q)
    (hm : (r.state m).isLinked = true) : ((r.handle host q).1.state m).isLinked = true := by
  rcases h.handle_state ok m with e | ⟨-, e⟩ | ⟨-, e⟩
  · rwa [e]
  · rw [e]
    rfl
  · exact ModuleState.isLinked_of_isFinal e

/-- Requests attach nothing. -/
theorem new_iff (h : r.Idle host) (ok : r.Admits host q) (x : ModuleId) :
    (r.handle host q).1.state x = .new ↔ r.state x = .new := by
  rcases h.handle_state ok x with e | ⟨e, e'⟩ | ⟨e, e'⟩
  · rw [e]
  · simp [e, e']
  · rw [e]
    constructor
    · intro hn
      rw [hn] at e'
      cases e'
    · intro hn
      cases hn

/-- The host is asked for no module that is new. -/
theorem mem_calls_handle (h : r.Idle host) (ok : r.Admits host q) {k : Service}
    (hm : m ∈ (r.handle host q).1.calls k) : m ∈ r.calls k ∨ r.state m ≠ .new := by
  cases q with
  | link root =>
      refine ((h.link_swept ok).mem_calls hm).imp_right fun ha e => ?_
      rw [linkPhase_enter_iff, e] at ha
      cases ha
  | evaluate root =>
      obtain ⟨_, -, swept⟩ := h.evaluate_swept root
      refine (swept.mem_calls hm).imp_right fun ha e => ?_
      rw [evaluatePhase_enter_iff, e] at ha
      cases ha

end Handle

/-- A link that is well leaves its root linked. -/
theorem isLinked_link (h : r.Idle host) (hok : (r.link host root).2 = .ok ()) :
    ((r.link host root).1.state root).isLinked = true := by
  have ok : r.Admits host (.link root) := h.admits_link (by simp [hok])
  have ne := (h.link ok).ne_evaluating root
  have ends : LinkEnds host r root (r.link host root) := ok
  generalize r.link host root = out at hok ne ends
  cases ends with
  | well _ _ _ hroot => exact (linkPhase_settled_iff.1 hroot).resolve_right ne
  | failed => cases hok
  | misuse => cases hok

/-- **Evaluating is misuse only for modules that are not linked.** -/
theorem evaluate_ne_misuse (h : r.Idle host) (hroot : (r.state root).isLinked = true) :
    (r.evaluate host root).2 ≠ .error .misuse := by
  intro hm
  generalize he : r.evaluate host root = out at hm
  cases h.evaluate_ends he with
  | well => cases hm
  | failed => cases hm
  | misuse hnot => simp [hroot] at hnot

end Idle

namespace AtRest

/-! ### Many requests -/

/-- At rest, linking does not come to a module without contents. -/
theorem link_proper (h : r.AtRest host) : (linkPhase host).Proper r := by
  intro x _ d hd
  rw [Ne, linkPhase_misuse_iff]
  exact h.attached d (h.deps x d hd)

/-- A registry at rest can answer every request. -/
theorem admits (h : r.AtRest host) (q : Request) : r.Admits host q := by
  cases q with
  | link root =>
      by_cases hm : (r.link host root).2 = .error .misuse
      · have law := linkPhase_lawful host
        rcases hr : Walk.run (linkPhase host) r root with ⟨w, (e | -) | u⟩ <;>
          simp only [Admits, link, hr] at hm ⊢
        · cases hm
        · obtain ⟨e, ha⟩ := Walk.run_misuse law h.link_proper h.length hr
          rw [e]
          exact .misuse (linkPhase_misuse_iff.1 ha)
        · cases hm
      · exact h.admits_link hm
  | evaluate root => trivial

/-- **A registry stays at rest between requests.** -/
theorem handle (h : r.AtRest host) (q : Request) : (r.handle host q).1.AtRest host where
  toIdle := h.toIdle.handle (h.admits q)
  attached m hm := by
    rw [h.graph_handle (h.admits q)] at hm
    rw [Ne, h.new_iff (h.admits q) m]
    exact h.attached m hm

theorem link (h : r.AtRest host) (root : ModuleId) : (r.link host root).1.AtRest host :=
  h.handle (.link root)

/-- **Linking is misuse only for modules that are not there.** -/
theorem link_ne_misuse (h : r.AtRest host) (hroot : root < r.graph.length) :
    (r.link host root).2 ≠ .error .misuse := by
  intro hm
  have ends : LinkEnds host r root (r.link host root) := h.admits (.link root)
  generalize r.link host root = out at hm ends
  cases ends with
  | well => cases hm
  | failed => cases hm
  | misuse hnew => exact h.attached root hroot hnew

/-- What each request keeps, many requests keep. -/
theorem after_induct {P : Registry σ → Prop} (h : r.AtRest host) (hP : P r)
    (step : ∀ {r} q, AtRest host r → P r → P (r.handle host q).1) (requests : List Request) :
    (r.after host requests).AtRest host ∧ P (r.after host requests) := by
  induction requests generalizing r with
  | nil => exact ⟨h, hP⟩
  | cons q requests ih => exact ih (h.handle q) (step q h hP)

theorem after (h : r.AtRest host) (requests : List Request) : (r.after host requests).AtRest host :=
  (h.after_induct (P := fun _ => True) trivial (fun _ _ _ => trivial) requests).1

/-- Requests leave the graph alone. -/
theorem graph_after (h : r.AtRest host) (requests : List Request) :
    (r.after host requests).graph = r.graph :=
  (h.after_induct (P := fun r' => r'.graph = r.graph) rfl
    (fun q h' e => (h'.graph_handle (h'.admits q)).trans e) requests).2

/-- A linked module stays so after any requests. -/
theorem isLinked_after (h : r.AtRest host) (requests : List Request)
    (hm : (r.state m).isLinked = true) : ((r.after host requests).state m).isLinked = true :=
  (h.after_induct hm (fun q h' hm' => h'.isLinked_handle (h'.admits q) hm') requests).2

end AtRest

/-- Two modules that import each other, and one that both of them need. -/
def ring : Registry Unit where
  graph := [{ path := [97], deps := [1] }, { path := [98], deps := [0, 2] }, { path := [99] }]
  progress := List.replicate 3 { state := .unlinked }
  world := ()

theorem ring_attached : ring.Attached where
  length := rfl
  deps := by decide
  fresh := by decide
  calls k := by cases k <;> rfl
  attached := by decide

/-- A host for which one module throws. -/
def throwing (n : ModuleId) : Host Unit where
  instantiate _ _ _ := ((), .ok ())
  evaluate _ m _ := ((), if m = n then .error (.thrown [33]) else .ok ())
  publish _ _ _ := ()
  namespaceOf _ m _ := ((), { owner := m, keys := [], targets := [] })

/-- **The states of modules fit together between requests.**  No module is being linked or evaluated;
linked modules import from linked ones only, and evaluated modules from evaluated ones; and once a
module was linked, everything it reaches is linked from then on, so that evaluating it is never
misuse. -/
theorem states_between_requests (host : Host σ) {r₀ : Registry σ} (h : r₀.Attached)
    (requests : List Request) :
    let r := r₀.after host requests
    (∀ m, r.state m ≠ .linking ∧ r.state m ≠ .evaluating) ∧
    (∀ m, (r.state m).isLinked = true → ∀ d ∈ r₀.graph.deps m, (r.state d).isLinked = true) ∧
    (∀ m, r.state m = .evaluated → ∀ d ∈ r₀.graph.deps m, r.state d = .evaluated) ∧
    ∀ root, (r.link host root).2 = .ok () → ∀ later,
      let r' := (r.link host root).1.after host later
      (∀ m, r₀.graph.Reaches root m → (r'.state m).isLinked = true) ∧
      (r'.evaluate host root).2 ≠ .error .misuse := by
  intro r
  have rest : r.AtRest host := (h.atRest host).after requests
  have graph : r.graph = r₀.graph := (h.atRest host).graph_after requests
  refine ⟨fun m => ⟨rest.ne_linking m, rest.ne_evaluating m⟩, fun m hm d hd => ?_,
    fun m hm d hd => ?_, fun root hok later => ?_⟩
  · exact rest.isLinked_dep hm (graph ▸ hd)
  · exact rest.evaluated_dep hm (graph ▸ hd)
  · have linked := rest.link root
    have rest' := linked.after later
    have hroot := linked.isLinked_after later (rest.isLinked_link hok)
    refine ⟨fun m hr => rest'.isLinked_of_reaches ?_ hroot, rest'.evaluate_ne_misuse hroot⟩
    rwa [linked.graph_after later, (rest.link_swept (rest.admits _)).graph, graph]

theorem states_between_requests_ring :
    (ring.link (throwing 2) 1).2 = .ok () ∧
    ((ring.link (throwing 2) 1).1.evaluate (throwing 2) 1).2 ≠ .error .misuse := by
  have hok : (ring.link (throwing 2) 1).2 = .ok () := rfl
  obtain ⟨-, -, -, linked⟩ := states_between_requests (throwing 2) ring_attached []
  exact ⟨hok, (linked 1 hok []).2⟩

/-- **The host is asked once for each module, dependencies first**: when it is asked for a module, it
was asked before for whatever the module imports from, unless that reaches the module in turn. -/
theorem calls_once_dependencies_first (host : Host σ) {r₀ : Registry σ} (h : r₀.Attached)
    (requests : List Request) (k : Service) :
    ((r₀.after host requests).calls k).Nodup ∧
    r₀.graph.DependenciesFirst ((r₀.after host requests).calls k) := by
  have rest : (r₀.after host requests).AtRest host := (h.atRest host).after requests
  rw [← (h.atRest host).graph_after requests]
  cases k with
  | instantiate => exact ⟨rest.linking.once.nodup, rest.linking.order⟩
  | evaluate => exact ⟨rest.nodup, rest.evaluating.order⟩

theorem calls_once_dependencies_first_ring :
    (ring.after (throwing 1) [.link 1, .evaluate 1, .evaluate 0]).calls .evaluate = [0, 2, 1] ∧
    ring.graph.DependenciesFirst
      ((ring.after (throwing 1) [.link 1, .evaluate 1, .evaluate 0]).calls .evaluate) :=
  ⟨rfl, (calls_once_dependencies_first (throwing 1) ring_attached _ _).2⟩

end Registry

end ModuleSystem
