import Mathlib.Logic.Relation
import ModuleSystem.Proofs.GraphImages
import ModuleSystem.Proofs.Registry.Growth

/-!
# Registry — everything that is done with a registry

A registry is used in four ways, in any order: records are created, contents are attached to them,
requests are made, and between requests the world of the host goes on (`Registry.Step`).  A request may
be made while there are records without contents, as long as it comes to none of them: that is how a
program imports a module while others are still being loaded.

* `Growing.run`: what a registry is like at every moment of its use.
* `Walk.visit_passed`: whatever a walk closes has passed its body on that walk.
* `checked_of_run`: all imports of a linked module resolve, at every moment.  The modules of a cycle
  are linked together when the last of them has been checked; a module that was checked on a link that
  failed is checked anew.
-/

namespace ModuleSystem

namespace Walk

variable {σ : Type} {phase : Phase σ} {k : Service} {Q : ModuleId → Prop} {w w' w'' : Walk σ}
  {m d x : ModuleId} {fuel : Nat}

/-- From `w` to `w'` only modules with `Q` were closed, and only such modules were left open. -/
structure Passed (phase : Phase σ) (Q : ModuleId → Prop) (w w' : Walk σ) : Prop where
  graph : w'.registry.graph = w.registry.graph
  closed : ∀ x, w'.registry.state x = phase.done → w.registry.state x = phase.done ∨ Q x
  opened : ∃ new, w'.stack = new ++ w.stack ∧ ∀ x ∈ new, Q x

theorem Passed.refl (w : Walk σ) : Passed phase Q w w :=
  ⟨rfl, fun _ => .inl, [], rfl, by simp⟩

/-- What is passed twice is passed. -/
theorem Passed.trans (h : Passed phase Q w w') (h' : Passed phase Q w' w'') :
    Passed phase Q w w'' where
  graph := h'.graph.trans h.graph
  closed x hx := (h'.closed x hx).elim (h.closed x) .inr
  opened := by
    obtain ⟨new, hs, hnew⟩ := h.opened
    obtain ⟨new', hs', hnew'⟩ := h'.opened
    refine ⟨new' ++ new, by rw [hs', hs, List.append_assoc], fun x hx => ?_⟩
    exact (List.mem_append.1 hx).elim (hnew' x) (hnew x)

/-- Inheriting passes nothing. -/
theorem Passed.inherit (h : Passed phase Q w w') :
    Passed phase Q w (w'.inherit phase.active m d) where
  graph := graph_inherit.trans h.graph
  closed x hx := h.closed x (state_inherit (a := phase.active) (m := m) (d := d) ▸ hx)
  opened := by
    rw [stack_inherit]
    exact h.opened

/-- Entering a module closes none. -/
theorem Passed.closed_of_enter (law : phase.Lawful k)
    (ha : phase.arrival (w.registry.state m) = .enter)
    (h : Passed phase Q (w.enter phase.active m) w') (hx : w'.registry.state x = phase.done) :
    w.registry.state x = phase.done ∨ Q x := by
  refine (h.closed x hx).imp_left fun e => ?_
  by_cases hxm : x = m
  · subst hxm
    rw [state_enter_self (lt_length_of_enter law ha)] at e
    exact absurd e law.active_ne_done
  · rwa [state_enter_of_ne hxm] at e

/-- Whether a module with `Q` is closed or left open, what is closed or left open has `Q`. -/
theorem Passed.close (law : phase.Lawful k) (ha : phase.arrival (w.registry.state m) = .enter)
    (h : Passed phase Q (w.enter phase.active m) w') (hm : Q m) {new : List ModuleId}
    (hs : w'.stack = new ++ m :: w.stack) (hmn : m ∉ new) :
    Passed phase Q w (w'.close phase.done m) := by
  have hnew : ∀ x ∈ new, Q x := by
    obtain ⟨new', hs', hnew'⟩ := h.opened
    rwa [List.append_cancel_right (hs.symm.trans hs')]
  have hnew' : ∀ x ∈ new ++ [m], Q x := fun x hx =>
    (List.mem_append.1 hx).elim (hnew x) fun e => List.mem_singleton.1 e ▸ hm
  by_cases hc : w'.registry.ancestor m = w'.registry.index m
  · rw [close_of_eq hs hmn hc]
    refine ⟨Registry.graph_moveAll.trans h.graph, fun x hx => ?_, [], rfl, by simp⟩
    by_cases hmem : x ∈ new ++ [m]
    · exact .inr (hnew' x hmem)
    · exact h.closed_of_enter law ha ((Registry.state_moveAll_of_notMem hmem).symm.trans hx)
  · rw [close_of_ne hc]
    refine ⟨h.graph, fun x hx => h.closed_of_enter law ha hx, new ++ [m], ?_, hnew'⟩
    rw [hs, List.append_assoc, List.singleton_append]

/-- **Whatever a walk closes has passed its body on that walk**, and so has everything that a visit
leaves open when it ends well. -/
theorem visit_passed (law : phase.Lawful k) {g : Graph}
    (pass : ∀ m r r', r.graph = g → phase.body m r = (r', .ok ()) → Q m)
    (fuel : Nat) (m : ModuleId) (w : Walk σ) (hg : w.registry.graph = g) :
    (∀ x, (visit phase fuel m w).1.registry.state x = phase.done →
      w.registry.state x = phase.done ∨ Q x) ∧
    ((visit phase fuel m w).2 = .ok () → Passed phase Q w (visit phase fuel m w).1) := by
  induction fuel generalizing m w with
  | zero => exact ⟨fun _ => .inl, fun e => nomatch e⟩
  | succ fuel ih =>
      -- what holds among the dependencies: the walk goes on from `w`, and has closed only what passed
      obtain ⟨hok, herr⟩ := visitAll_induct (visit phase fuel) phase.active m
        (fun _ w' => Extends phase k (w.enter phase.active m) w' ∧
          Passed phase Q (w.enter phase.active m) w') ⟨.refl _, .refl _⟩
        (fun {_ d w₁ w₂} (_ : d ∈ w.registry.graph.deps m) h₁ hv => by
          have ext := visit_extends law fuel d w₁
          have h₂ := (ih d w₁ (h₁.2.graph.trans hg)).2 (by rw [hv])
          rw [hv] at ext h₂
          exact ⟨(h₁.1.trans law ext).trans law extends_inherit, (h₁.2.trans h₂).inherit⟩)
      rcases hr : visit phase (fuel + 1) m w with ⟨w', res⟩
      cases visit_ends hr with
      | passed => exact ⟨fun _ => .inl, fun _ => .refl w⟩
      | failed | misused => exact ⟨fun _ => .inl, fun e => nomatch e⟩
      | stopped ha hv =>
          obtain ⟨d, -, -, w₁, h₁, hd⟩ := herr hv
          have h₂ := (ih d w₁ (h₁.2.graph.trans hg)).1
          rw [hd] at h₂
          refine ⟨fun x hx => ?_, fun e => nomatch e⟩
          exact (h₂ x hx).elim (h₁.2.closed_of_enter law ha) .inr
      | @threw w₁ r e ha hv hb =>
          have alike := law.alike m w₁.registry
          rw [hb] at alike
          refine ⟨fun x hx => ?_, fun e => nomatch e⟩
          exact (hok hv).2.closed_of_enter law ha ((alike.state x).symm.trans hx)
      | @closed w₁ r ha hv hb =>
          obtain ⟨ext, h₁⟩ := hok hv
          have alike := law.alike m w₁.registry
          rw [hb] at alike
          obtain ⟨new, hs, hmn, -⟩ := ext.stack_of_enter law ha
          have h₂ : Passed phase Q (w.enter phase.active m) { w₁ with registry := r } :=
            ⟨alike.graph.trans h₁.graph, fun x hx => h₁.closed x ((alike.state x).symm.trans hx),
              h₁.opened⟩
          have h := h₂.close law ha (pass m _ _ (h₁.graph.trans hg) hb) hs hmn
          exact ⟨h.closed, fun _ => h⟩

end Walk

namespace Registry

variable {σ : Type} {host : Host σ} {moves : Graph → σ → σ → Prop} {r r' : Registry σ}
  {m x : ModuleId}

/-! ### The ways to use a registry -/

/-- One use of a registry.  The dependencies of a module have records when its contents are attached;
a request comes to no record without contents; and `moves` says what may become of the world between
requests. -/
inductive Step (host : Host σ) (moves : Graph → σ → σ → Prop) : Registry σ → Registry σ → Prop where
  | create {r : Registry σ} (path : Text) : Step host moves r (r.getOrCreate path).1
  | attach {r r' : Registry σ} {m : ModuleId} {c : Compiled} {deps : List ModuleId}
      (hm : m < r.size) (hd : ∀ d ∈ deps, d < r.size) (ha : r.attach m c deps = .ok r') :
      Step host moves r r'
  | request {r : Registry σ} (q : Request) (hq : (r.handle host q).2 ≠ .error .misuse) :
      Step host moves r (r.handle host q).1
  | act {r : Registry σ} {world : σ} (h : moves r.graph r.world world) :
      Step host moves r (r.withWorld world)

/-- The use of a registry over time. -/
abbrev Run (host : Host σ) (moves : Graph → σ → σ → Prop) : Registry σ → Registry σ → Prop :=
  Relation.ReflTransGen (Step host moves)

/-- A use of the registry either adds modules to it, or leaves the graph alone; in the latter case it
is a request that the registry can answer, or concerns the world. -/
theorem Growing.step (h : r.Growing host) (s : Step host moves r r') :
    r'.Growing host ∧ (Enlarges r r' ∧ r'.world = r.world ∨
      (∃ q, r.Admits host q ∧ r' = (r.handle host q).1) ∨
      ∃ world, moves r.graph r.world world ∧ r' = r.withWorld world) := by
  cases s with
  | create path =>
      obtain ⟨h', created⟩ := h.create path
      refine ⟨h', .inl ⟨created.enlarges, ?_⟩⟩
      rw [getOrCreate]
      split <;> rfl
  | @attach _ m c deps hm hd ha =>
      have ok : r.state m = .new ∧ deps.length = c.interface.records.length := by
        rw [Registry.attach] at ha
        split at ha
        · cases ha
        · rename_i hc
          simpa using hc
      obtain ⟨r₁, ha', h', attaches⟩ := h.attach hm ok.1 ok.2 hd
      cases ha.symm.trans ha'
      refine ⟨h', .inl ⟨attaches.enlarges, ?_⟩⟩
      rw [attach_ok ok.1 ok.2] at ha
      cases ha
      rfl
  | request q hq =>
      have ok := h.admits hq
      exact ⟨h.handle ok, .inr (.inl ⟨q, ok, rfl⟩)⟩
  | @act world hw => exact ⟨h.withWorld world, .inr (.inr ⟨world, hw, rfl⟩)⟩

/-- However a registry is used, it can grow further. -/
theorem Growing.run (h : r.Growing host) (run : Run host moves r r') : r'.Growing host := by
  induction run with
  | refl => exact h
  | tail _ s ih => exact (ih.step s).1

/-! ### What was there stays there -/

/-- The modules that have contents keep them, and linked modules stay linked. -/
structure Preserves (r r' : Registry σ) : Prop where
  size : r.size ≤ r'.size
  node : ∀ m, r.state m ≠ .new → r'.graph.node m = r.graph.node m
  attached : ∀ m, r.state m ≠ .new → r'.state m ≠ .new
  linked : ∀ m, (r.state m).isLinked = true → (r'.state m).isLinked = true

theorem Preserves.refl (r : Registry σ) : Preserves r r :=
  ⟨Nat.le_refl _, fun _ _ => rfl, fun _ => id, fun _ => id⟩

/-- What is preserved twice is preserved. -/
theorem Preserves.trans {r'' : Registry σ} (h : Preserves r r') (h' : Preserves r' r'') :
    Preserves r r'' where
  size := Nat.le_trans h.size h'.size
  node m hm := (h'.node m (h.attached m hm)).trans (h.node m hm)
  attached m hm := h'.attached m (h.attached m hm)
  linked m hm := h'.linked m (h.linked m hm)

theorem Preserves.withWorld (h : Preserves r r') (world : σ) : Preserves r (r'.withWorld world) :=
  ⟨h.size, h.node, h.attached, h.linked⟩

/-- A linked module has contents. -/
theorem ne_new_of_isLinked (h : (r.state m).isLinked = true) : r.state m ≠ .new := by
  intro e
  rw [e] at h
  cases h

/-- A registry that is enlarged preserves what it had. -/
theorem Enlarges.preserves (h : Enlarges r r') : Preserves r r' where
  size := h.length
  node := h.node
  attached m hm := by rwa [h.state_eq hm]
  linked m hm := by rwa [h.state_eq (ne_new_of_isLinked hm)]

/-- So does one that is used once. -/
theorem Growing.preserves_step (h : r.Growing host) (s : Step host moves r r') : Preserves r r' := by
  rcases (h.step s).2 with ⟨e, -⟩ | ⟨q, ok, rfl⟩ | ⟨world, -, rfl⟩
  · exact e.preserves
  · have graph := h.graph_handle ok
    exact
      { size := Nat.le_of_eq (congrArg List.length graph).symm
        node := fun m _ => by rw [graph]
        attached := fun m hm => by rwa [Ne, h.new_iff ok m]
        linked := fun m hm => h.isLinked_handle ok hm }
  · exact (Preserves.refl r).withWorld world

/-- So does one that is used in any way. -/
theorem Growing.preserves (h : r.Growing host) (run : Run host moves r r') : Preserves r r' := by
  induction run with
  | refl => exact .refl r
  | tail run s ih => exact ih.trans ((h.run run).preserves_step s)

/-! ### A linked module is checked -/

/-- All imports of linked modules resolve. -/
def Checked (r : Registry σ) : Prop :=
  ∀ m, (r.state m).isLinked = true → r.graph.linkError? m = none

/-- The linked modules, and the place that stands for modules that are not there. -/
def linkedPlaces (r : Registry σ) : Set ModuleId := { x | (r.state x).isLinked = true ∨ x = r.size }

/-- Where the places of `r` are in `r'`: only the place behind the graph moves. -/
def moved (r r' : Registry σ) (x : ModuleId) : ModuleId := if x = r.size then r'.size else x

/-- A linked module stays at its place. -/
theorem Idle.moved_of_isLinked (h : r.Idle host) (hx : (r.state x).isLinked = true) :
    moved r r' x = x := by
  have lt := lt_length_of_state_ne_new (ne_new_of_isLinked hx)
  rw [h.length] at lt
  exact if_neg (Nat.ne_of_lt lt)

/-- The graph still shows the modules that were linked, however it has grown. -/
theorem Preserves.shows (h : Preserves r r') (idle : r.Idle host) :
    r.graph.Shows r.linkedPlaces (moved r r') r'.graph := by
  -- what was linked has its contents and its imports as before
  have deps : ∀ {x}, (r.state x).isLinked = true → r'.graph.deps x = r.graph.deps x := fun hx =>
    congrArg Node.deps (h.node _ (ne_new_of_isLinked hx))
  have behind : moved r r' r.size = r'.size := if_pos rfl
  refine ⟨?_, ?_, ?_⟩
  · rintro x (hx | rfl) record
    · rcases r.graph.dep_mem_deps_or x record with hd | e
      · exact .inl (idle.isLinked_dep hx hd)
      · exact .inr e
    · exact .inr (r.graph.dep_length record)
  · rintro x (hx | rfl)
    · rw [idle.moved_of_isLinked hx]
      exact congrArg Node.interface (h.node x (ne_new_of_isLinked hx))
    · rw [behind, Graph.interface_of_length_le (m := r.size) (Nat.le_refl _)]
      exact Graph.interface_of_length_le (Nat.le_refl _)
  · rintro x (hx | rfl) record
    · have fixed : (r.graph.deps x).map (moved r r') = r.graph.deps x :=
        (List.map_congr_left fun d hd => idle.moved_of_isLinked (idle.isLinked_dep hx hd)).trans
          (List.map_id _)
      calc r'.graph.dep (moved r r' x) record
        _ = ((r.graph.deps x).map (moved r r')).getD record (moved r r' r.size) := by
          rw [idle.moved_of_isLinked hx, Graph.dep, deps hx, fixed, behind]
          rfl
        _ = moved r r' (r.graph.dep x record) := List.getD_map _ r.size (moved r r')
    · calc r'.graph.dep (moved r r' r.size) record
        _ = r'.size := by
          rw [behind]
          exact r'.graph.dep_length record
        _ = moved r r' (r.graph.dep r.size record) := by
          rw [← behind]
          exact congrArg _ (r.graph.dep_length record).symm

/-- A link checks the modules that it links. -/
theorem Idle.linkError?_of_link (h : r.Idle host) {root : ModuleId}
    (ok : r.Admits host (.link root)) (hm : ((r.link host root).1.state m).isLinked = true) :
    (r.state m).isLinked = true ∨ r.graph.linkError? m = none := by
  have law := linkPhase_lawful host
  have passed : ∀ m (r₁ r₂ : Registry σ), r₁.graph = r.graph →
      (linkPhase host).body m r₁ = (r₂, .ok ()) → r.graph.linkError? m = none := by
    intro m r₁ r₂ hg hb
    rw [← hg]
    exact linkError?_of_body_ok hb
  have closed := (Walk.visit_passed law passed (r.size + 2) root { registry := r } rfl).1
  rcases h.link_state ok m with e | ⟨-, e⟩
  · exact .inl (e ▸ hm)
  -- a module that is linked now was closed by the walk, since those left open are unlinked
  have linked : (Walk.run (linkPhase host) r root).1.registry.state m = .linked := by
    rcases hr : Walk.run (linkPhase host) r root with ⟨w, (e' | -) | u⟩ <;>
      simp only [Registry.link, hr] at e
    · by_cases hopen : m ∈ w.stack
      · rw [(Walk.run_error law h.linking hr).sound.state_moveAll law hopen] at e
        cases e
      · rwa [Walk.state_moveAll_of_notMem_stack hopen] at e
    · exact e
    · exact e
  refine (closed m linked).imp_left fun e => ?_
  rw [show r.state m = .linked from e]
  rfl

/-- A use of the registry links no module whose imports do not all resolve. -/
theorem Growing.checked_step (h : r.Growing host) (hc : r.Checked) (s : Step host moves r r') :
    r'.Checked := by
  have keeps := h.preserves_step s
  rcases (h.step s).2 with ⟨e, -⟩ | ⟨q, ok, rfl⟩ | ⟨world, -, rfl⟩
  · intro m hm
    have hm' : (r.state m).isLinked = true := by
      rcases e.state m with es | ⟨-, es⟩
      · rwa [es] at hm
      · rw [es] at hm
        cases hm
    have shown := (keeps.shows h.toIdle).linkError? (.inl hm') (hc m hm')
    rwa [h.toIdle.moved_of_isLinked hm'] at shown
  · intro m hm
    rw [h.graph_handle ok]
    cases q with
    | link root => exact (h.linkError?_of_link ok hm).elim (hc m) id
    | evaluate root =>
        refine hc m ?_
        rcases h.evaluate_state root m with e | ⟨e, -⟩
        · rwa [← e]
        · rw [e]
          rfl
  · exact hc

/-- **All imports of a linked module resolve**, at every moment of the use of a registry. -/
theorem checked_of_run {world : σ} (run : Run host moves { world } r) : r.Checked := by
  induction run with
  | refl =>
      intro m hm
      simp [state, progressOf] at hm
      cases hm
  | tail run s ih => exact ((Growing.empty host world).run run).checked_step ih s

end Registry

end ModuleSystem
