import ModuleSystem.Proofs.Registry.Rest

/-!
# Registry — the host

`Registry.calls` is read off the history that the registry keeps.  A host that writes down every call
it receives (`Host.recording`) ends up with the same list: no call goes unnoticed, none is made up,
and none is noted twice or out of order (`record_eq_calls`).

The registry hands the world of the host on and never touches it, so whatever the host keeps, or only
ever does in one direction, is so for every request (`Host.Follows`, `Follows.handle`).
-/

namespace ModuleSystem

/-! ### What the host was asked for -/

/-- What the host was asked for, in the order in which it was asked. -/
abbrev Record := List (Service × ModuleId)

/-- A host that writes down what it is asked for. -/
def Host.recording {σ : Type} (host : Host σ) : Host (σ × Record) where
  instantiate g m w :=
    let (world, res) := host.instantiate g m w.1
    ((world, w.2 ++ [(.instantiate, m)]), res)
  evaluate g m w :=
    let (world, res) := host.evaluate g m w.1
    ((world, w.2 ++ [(.evaluate, m)]), res)
  publish g m w := (host.publish g m w.1, w.2)
  namespaceOf g m w :=
    let (world, n) := host.namespaceOf g m w.1
    ((world, w.2), n)

/-- The call of the host that a happening stands for. -/
def Happening.asked? : Happening → Option (Service × ModuleId)
  | .instantiated m _ => some (.instantiate, m)
  | .ran m _ => some (.evaluate, m)
  | _ => none

/-- A call of a service is what the host was asked for. -/
theorem Happening.call?_eq (k : Service) (h : Happening) :
    h.call? k = h.asked?.bind fun a => if a.1 = k then some a.2 else none := by
  cases h <;> cases k <;> rfl

namespace Registry

variable {σ : Type} {host : Host σ} {r : Registry (σ × Record)}

/-- What the host has written down is what the history tells. -/
def Recorded (r : Registry (σ × Record)) : Prop := r.world.2 = r.history.filterMap Happening.asked?

/-- A note about something else leaves the record complete. -/
theorem Recorded.note_of_none (h : r.Recorded) {n : Happening} (hn : n.asked? = none) :
    (r.note n).Recorded := by
  simpa [Recorded, hn] using h

theorem Recorded.move (h : r.Recorded) (m : ModuleId) (s : ModuleState) : (r.move m s).Recorded :=
  note_of_none (r := r.update m _) h rfl

theorem Recorded.moveAll (h : r.Recorded) (ms : List ModuleId) (s : ModuleState) :
    (r.moveAll ms s).Recorded := by
  induction ms generalizing r with
  | nil => exact h
  | cons m ms ih => exact ih (h.move m s)

/-- What the host was asked for is noted and recorded. -/
theorem Recorded.note_of_some (h : r.Recorded) {n : Happening} {a : Service × ModuleId}
    (hn : n.asked? = some a) (world : σ) :
    (note { r with world := (world, r.world.2 ++ [a]) } n).Recorded := by
  have hr : r.world.2 = r.history.filterMap Happening.asked? := h
  simp [Recorded, hn, hr]

/-- Instantiating a module is recorded if the host is asked. -/
theorem Recorded.instantiate (h : r.Recorded) (m : ModuleId) :
    (instantiate host.recording m r).1.Recorded := by
  by_cases hf : (r.progressOf m).instantiated = true
  · simpa only [Registry.instantiate, if_pos hf] using h
  · have h' : (r.update m fun p => { p with instantiated := true }).Recorded := h
    rcases hev : host.instantiate r.graph m r.world.1 with ⟨world, e | u⟩ <;>
      simp only [Registry.instantiate, if_neg hf, Host.recording, graph_update, world_update, hev]
    · exact h'.note_of_some rfl world
    · exact h'.note_of_some rfl world

/-- Running a body is recorded. -/
theorem Recorded.runBody (h : r.Recorded) (m : ModuleId) :
    (runBody host.recording m r).1.Recorded := by
  rcases hev : host.evaluate r.graph m r.world.1 with ⟨world, e | u⟩ <;>
    simp only [Registry.runBody, Host.recording, hev]
  · exact h.note_of_some rfl world
  · exact h.note_of_some rfl (host.publish r.graph m world)

/-- A link records all that it asks for. -/
theorem Recorded.link (h : r.Recorded) (root : ModuleId) :
    (r.link host.recording root).1.Recorded := by
  have hw : (Walk.run (linkPhase host.recording) r root).1.registry.Recorded := by
    refine Walk.visit_keeps (fun m s _ h' => h'.move m s) (fun _ _ _ h' => h') (fun m _ _ h' => ?_) _
      root _ h
    simp only [linkPhase]
    split
    · exact h'
    · exact h'.instantiate m
  rcases hr : Walk.run (linkPhase host.recording) r root with ⟨w, (e | -) | u⟩ <;> rw [hr] at hw <;>
    simp only [Registry.link, hr]
  · exact hw.moveAll _ _
  · exact hw
  · exact hw

/-- An evaluation records all that it asks for. -/
theorem Recorded.evaluate (h : r.Recorded) (root : ModuleId) :
    (r.evaluate host.recording root).1.Recorded := by
  have hw : (Walk.run (evaluatePhase host.recording) r root).1.registry.Recorded :=
    Walk.visit_keeps (fun m s _ h' => h'.move m s) (fun _ _ _ h' => h') (fun m _ _ h' => h'.runBody m)
      _ root _ h
  rcases hr : Walk.run (evaluatePhase host.recording) r root with ⟨w, (e | -) | u⟩ <;>
    rw [hr] at hw <;> simp only [Registry.evaluate, hr]
  · exact (hw.moveAll _ _).note_of_none rfl
  · exact hw
  · exact hw

/-- After any requests the record is the history of what was asked for. -/
theorem Recorded.after (h : r.Recorded) (requests : List Request) :
    (r.after host.recording requests).Recorded := by
  induction requests generalizing r with
  | nil => exact h
  | cons q requests ih =>
      cases q with
      | link root => exact ih (h.link root)
      | evaluate root => exact ih (h.evaluate root)

/-- **The history tells what the host was asked for.** -/
theorem record_eq_calls (host : Host σ) (h : r.Recorded) (requests : List Request) (k : Service) :
    ((r.after host.recording requests).world.2.filterMap fun a => if a.1 = k then some a.2 else none) =
      (r.after host.recording requests).calls k := by
  rw [h.after requests, List.filterMap_filterMap]
  simp only [calls, Happening.call?_eq]

end Registry

/-! ### What becomes of the world -/

/-- Whatever the host does, the world goes on as `moves` says for the graph at hand. -/
structure Host.Follows {σ : Type} (host : Host σ) (moves : Graph → σ → σ → Prop) : Prop where
  refl : ∀ g world, moves g world world
  trans : ∀ {g world world' world''}, moves g world world' → moves g world' world'' →
    moves g world world''
  instantiate : ∀ g m world, moves g world (host.instantiate g m world).1
  evaluate : ∀ g m world, moves g world (host.evaluate g m world).1
  publish : ∀ g m world, moves g world (host.publish g m world)

namespace Registry

variable {σ : Type} {host : Host σ} {moves : Graph → σ → σ → Prop} {r r' : Registry σ} {m : ModuleId}

/-- Moving modules leaves the world alone. -/
@[simp] theorem world_moveAll {ms : List ModuleId} {s : ModuleState} :
    (r.moveAll ms s).world = r.world :=
  moveAll_proj Registry.world fun _ _ => rfl

/-- Creating a record leaves the world alone. -/
@[simp] theorem world_getOrCreate {p : Text} : (r.getOrCreate p).1.world = r.world := by
  rw [getOrCreate]
  split <;> rfl

/-- Attaching contents leaves the world alone. -/
theorem world_attach {c : Compiled} {deps : List ModuleId} (h : r.attach m c deps = .ok r') :
    r'.world = r.world := by
  rw [attach] at h
  split at h <;> cases h
  rfl

/-- Two registries that look alike to the host: the same modules are marked as instantiated, and the
world is the same. -/
structure SameWorld (r r' : Registry σ) : Prop where
  graph : r'.graph = r.graph
  length : r'.progress.length = r.progress.length
  world : r'.world = r.world
  flags : ∀ m, r'.isInstantiated m = r.isInstantiated m

/-- A change of progress, but for the mark of instantiation, leaves the world alone. -/
theorem SameWorld.update (r : Registry σ) (m : ModuleId) {f : Progress → Progress}
    (hf : ∀ p, (f p).instantiated = p.instantiated) : SameWorld r (r.update m f) :=
  ⟨rfl, length_update, rfl, fun _ => isInstantiated_update hf⟩

theorem SameWorld.move (r : Registry σ) (m : ModuleId) (s : ModuleState) : SameWorld r (r.move m s) :=
  ⟨rfl, length_update, rfl, fun _ => isInstantiated_move⟩

theorem SameWorld.moveAll (r : Registry σ) (ms : List ModuleId) (s : ModuleState) :
    SameWorld r (r.moveAll ms s) :=
  ⟨graph_moveAll, length_moveAll, world_moveAll, fun _ => isInstantiated_moveAll⟩

theorem SameWorld.note (r : Registry σ) (h : Happening) : SameWorld r (r.note h) :=
  ⟨rfl, rfl, rfl, fun _ => rfl⟩

section Keeps
variable {P : Registry σ → Prop} (same : ∀ {r r' : Registry σ}, SameWorld r r' → P r → P r')
include same

/-- What depends on the host alone, and is kept by every body, a walk keeps. -/
theorem walk_keeps {phase : Phase σ} {k : Service} (law : phase.Lawful k)
    (body : ∀ {r₀ r m}, P r₀ → m < r₀.progress.length → P r → P (phase.body m r).1)
    (root : ModuleId) (h : P r) : P (Walk.run phase r root).1.registry := by
  refine Walk.visit_keeps (fun m s _ h => same (.move _ m s) h)
    (fun m _ hf h => same (.update _ m fun p => (hf p).2) h)
    (fun {r₀ r} m h₀ ha h => body h₀ ?_ h) _ _ _ h
  exact lt_length_of_state_ne_new fun e => by rw [e, law.arrival_new] at ha; cases ha

/-- What depends on the host alone, and is kept by every body, a request keeps. -/
theorem handle_keeps
    (link : ∀ {r₀ r m}, P r₀ → m < r₀.progress.length → P r → P ((linkPhase host).body m r).1)
    (evaluate : ∀ {r m}, P r → P ((evaluatePhase host).body m r).1) (q : Request) (h : P r) :
    P (r.handle host q).1 := by
  cases q with
  | link root =>
      have walked := walk_keeps same (linkPhase_lawful host) link root h
      rcases hr : Walk.run (linkPhase host) r root with ⟨w, (e | -) | u⟩ <;> rw [hr] at walked <;>
        simp only [handle, Registry.link, hr]
      · exact same (.moveAll _ _ _) walked
      · exact walked
      · exact walked
  | evaluate root =>
      have walked := walk_keeps same (evaluatePhase_lawful host) (fun _ _ => evaluate) root h
      rcases hr : Walk.run (evaluatePhase host) r root with ⟨w, (e | -) | u⟩ <;> rw [hr] at walked <;>
        simp only [handle, Registry.evaluate, hr]
      · exact same (.note _ _) (same (.moveAll _ _ _) walked)
      · exact walked
      · exact walked

end Keeps

/-- The body of a link moves the world as the host does. -/
theorem moves_linkBody (hf : host.Follows moves) (m : ModuleId) (r : Registry σ) :
    moves r.graph r.world ((linkPhase host).body m r).1.world := by
  cases he : r.graph.linkError? m with
  | some e =>
      rw [linkPhase_body_of_some he]
      exact hf.refl _ _
  | none =>
      rw [linkPhase_body_of_none he]
      cases hi : r.isInstantiated m with
      | true =>
          rw [instantiate_of_true hi]
          exact hf.refl _ _
      | false =>
          obtain ⟨e, he⟩ : ∃ e, (instantiate host m r).1 = _ := instantiate_of_false hi
          rw [he]
          exact hf.instantiate r.graph m r.world

/-- The body of an evaluation moves the world as the host does. -/
theorem moves_evaluateBody (hf : host.Follows moves) (m : ModuleId) (r : Registry σ) :
    moves r.graph r.world ((evaluatePhase host).body m r).1.world := by
  have moved := hf.evaluate r.graph m r.world
  rcases hev : host.evaluate r.graph m r.world with ⟨world, e | u⟩ <;> rw [hev] at moved <;>
    simp only [evaluatePhase, runBody, hev]
  · exact moved
  · exact hf.trans moved (hf.publish r.graph m world)

/-- **Whatever comes of a request, the world goes on as the host follows it.** -/
theorem moves_handle (hf : host.Follows moves) (r : Registry σ) (q : Request) :
    moves r.graph r.world (r.handle host q).1.world := by
  refine (handle_keeps (P := fun r' => r'.graph = r.graph ∧ moves r.graph r.world r'.world)
    (fun same h => ⟨same.graph.trans h.1, same.world ▸ h.2⟩) (fun {_ r' m} _ _ h => ?_)
    (fun {r' m} h => ?_) q ⟨rfl, hf.refl _ _⟩).2
  · exact ⟨((linkPhase_lawful host).alike m r').graph.trans h.1,
      hf.trans h.2 (h.1 ▸ moves_linkBody hf m r')⟩
  · exact ⟨((evaluatePhase_lawful host).alike m r').graph.trans h.1,
      hf.trans h.2 (h.1 ▸ moves_evaluateBody hf m r')⟩

end Registry

end ModuleSystem
