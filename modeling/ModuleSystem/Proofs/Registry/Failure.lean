import ModuleSystem.Proofs.Registry.Rest

/-!
# Registry — failed modules

A module that has failed keeps its error, and the error is not made up: the module reaches one whose
body threw it (`Registry.Threw`).  When a body throws, every module that is still open has failed; by
`Walk.Broken` each of them reaches the module of that body.

* `evaluate_errored`: where the errors after an evaluation come from.
* `errors_between_requests`: what holds of failed modules after any requests.
-/

namespace ModuleSystem

/-- Evaluating never moves a module to an error by itself. -/
theorem Walk.Extends.errored {σ : Type} {host : Host σ} {w w' : Walk σ} {x : ModuleId}
    {e : ModuleError} (ext : Walk.Extends (Registry.evaluatePhase host) .evaluate w w')
    (hx : w'.registry.state x = .errored e) : w.registry.state x = .errored e := by
  by_cases ha : (Registry.evaluatePhase host).arrival (w.registry.state x) = .enter
  · rcases ext.moved ha with h | h | h
    · exact h ▸ hx
    · cases h.symm.trans hx
    · cases h.symm.trans hx
  · exact (ext.state ha).symm.trans hx

namespace Registry

variable {σ : Type} {host : Host σ} {r r' : Registry σ} {root m x : ModuleId} {e : ModuleError}

/-- The body of `f` was run and threw `e`. -/
structure Threw (host : Host σ) (r : Registry σ) (f : ModuleId) (e : ModuleError) : Prop where
  noted : .ran f (some e) ∈ r.history
  thrown : ∃ world, (host.evaluate r.graph f world).2 = .error e

/-- A body that threw has thrown, whatever happens later. -/
theorem Threw.mono {f : ModuleId} (h : Threw host r f e) (graph : r'.graph = r.graph)
    (history : r.history <+: r'.history) : Threw host r' f e := by
  obtain ⟨world, hw⟩ := h.thrown
  exact ⟨history.mem h.noted, world, by rw [graph, hw]⟩

/-- Every failed module reaches one that threw its error. -/
def Explained (host : Host σ) (r : Registry σ) : Prop :=
  ∀ m e, r.state m = .errored e → ∃ f, r.graph.Reaches m f ∧ Threw host r f e

namespace AtRest

/-- **Where the errors after an evaluation come from**: a module that has failed had failed before, or
reaches one that had, or one whose body has thrown the error just now. -/
theorem evaluate_errored (h : r.AtRest host)
    (hx : (r.evaluate host root).1.state x = .errored e) :
    ∃ f, r.graph.Reaches x f ∧
      (r.state f = .errored e ∨ Threw host (r.evaluate host root).1 f e) := by
  generalize he : r.evaluate host root = out at hx
  cases h.evaluate_ends he with
  | well ext => exact ⟨x, .refl x, .inl (ext.errored hx)⟩
  | misuse => exact ⟨x, .refl x, .inl hx⟩
  | @failed w e' ext broken =>
      have law := evaluatePhase_lawful host
      rw [state_note] at hx
      by_cases hm : x ∈ w.stack
      · -- an open module gets the error of the walk, and reaches the module that failed
        rw [broken.sound.state_moveAll law hm] at hx
        cases hx
        obtain ⟨f, hf, ha | ⟨r₁, hb⟩⟩ := broken.cause
        · exact ⟨f, ext.graph ▸ hf x hm, .inl (ext.errored (evaluatePhase_fail_iff.1 ha))⟩
        · have alike := law.alike f r₁
          rw [hb] at alike
          obtain ⟨thrown, noted⟩ := runBody_error hb
          refine ⟨f, ext.graph ▸ hf x hm, .inr ⟨?_, r₁.world, ?_⟩⟩
          · exact List.mem_append_left _ (prefix_history_moveAll.mem noted)
          · rw [graph_note, graph_moveAll, alike.graph, thrown]
      · rw [Walk.state_moveAll_of_notMem_stack hm] at hx
        exact ⟨x, .refl x, .inl (ext.errored hx)⟩

/-- A request leaves the errors explained. -/
theorem explained_handle (h : r.AtRest host) (q : Request) (he : Explained host r) :
    Explained host (r.handle host q).1 := by
  have graph := h.graph_handle (h.admits q)
  have history := h.history_handle (h.admits q)
  intro m e hm
  rw [graph]
  cases q with
  | link root =>
      rcases h.link_state (h.admits _) m with hs | ⟨-, hs⟩
      · obtain ⟨f, hr, hf⟩ := he m e (hs ▸ hm)
        exact ⟨f, hr, hf.mono graph history⟩
      · cases hs.symm.trans hm
  | evaluate root =>
      obtain ⟨f, hr, hf | hf⟩ := h.evaluate_errored hm
      · -- the error of `f` has an explanation already
        obtain ⟨f', hr', hf'⟩ := he f e hf
        exact ⟨f', hr.trans hr', hf'.mono graph history⟩
      · exact ⟨f, hr, hf⟩

/-- A module that is finished stays as it is. -/
theorem state_after_of_isFinal (h : r.AtRest host) (hm : (r.state m).isFinal = true)
    (requests : List Request) : (r.after host requests).state m = r.state m := by
  refine (h.after_induct (P := fun r' => r'.state m = r.state m) rfl (fun {r'} q h' e => ?_)
    requests).2
  rcases h'.handle_state (h'.admits q) m with e' | ⟨e', -⟩ | ⟨e', -⟩
  · exact e'.trans e
  · rw [← e, e'] at hm
    cases hm
  · rw [← e, e'] at hm
    cases hm

end AtRest

/-- Evaluating a module that has failed does nothing but say so. -/
theorem evaluate_of_errored (hm : r.state m = .errored e) :
    r.evaluate host m = (r.note (.failed m), .error (.error e)) := by
  have hr : Walk.run (evaluatePhase host) r m = ({ registry := r }, .error (.error e)) := by
    simp only [Walk.run, Walk.visit, evaluatePhase_fail_iff.2 hm]
  simp only [evaluate, hr]
  rfl

/-- Before the first request there are no errors to explain. -/
theorem Attached.explained (h : r.Attached) : Explained host r := by
  intro m e hm
  rcases h.state_cases m with hs | hs
  · cases hs.symm.trans hm
  · cases hs.symm.trans hm

/-- **Errors are thrown by bodies, and they stay.**  Between requests a failed module reaches one whose
body threw its error; it keeps the error from then on, and asking to evaluate it gives the error
without running anything.  An evaluated module reaches no failed one. -/
theorem errors_between_requests (host : Host σ) {r₀ : Registry σ} (h : r₀.Attached)
    (requests : List Request) :
    let r := r₀.after host requests
    (∀ m e, r.state m = .errored e →
      (∃ f, r₀.graph.Reaches m f ∧ Threw host r f e) ∧
      (∀ later, (r.after host later).state m = .errored e) ∧
      (r.evaluate host m).2 = .error (.error e) ∧
      (∀ k, (r.evaluate host m).1.calls k = r.calls k) ∧
      (r.evaluate host m).1.world = r.world) ∧
    ∀ m n e, r.state m = .evaluated → r₀.graph.Reaches m n → r.state n ≠ .errored e := by
  intro r
  obtain ⟨rest, explained⟩ := (h.atRest host).after_induct (P := Explained host) h.explained
    (fun q h' he => h'.explained_handle q he) requests
  have graph : r.graph = r₀.graph := (h.atRest host).graph_after requests
  refine ⟨fun m e hm => ⟨?_, fun later => ?_, ?_⟩, fun m n e hm hr hn => ?_⟩
  · rw [← graph]
    exact explained m e hm
  · rw [rest.state_after_of_isFinal (by rw [hm]; rfl), hm]
  · rw [evaluate_of_errored hm]
    refine ⟨rfl, fun k => ?_, rfl⟩
    rw [calls_note]
    cases k <;> exact List.append_nil _
  · have := rest.evaluated_of_reaches (graph ▸ hr) hm
    cases this.symm.trans hn

theorem errors_between_requests_ring :
    (ring.after (throwing 2) [.link 1, .evaluate 1]).state 0 = .errored (.thrown [33]) ∧
    ∃ f, ring.graph.Reaches 0 f ∧
      Threw (throwing 2) (ring.after (throwing 2) [.link 1, .evaluate 1]) f (.thrown [33]) := by
  have h0 : (ring.after (throwing 2) [.link 1, .evaluate 1]).state 0 = .errored (.thrown [33]) := rfl
  obtain ⟨errored, -⟩ :=
    errors_between_requests (throwing 2) ring_attached [.link 1, .evaluate 1]
  exact ⟨h0, (errored 0 _ h0).1⟩

end Registry

end ModuleSystem
