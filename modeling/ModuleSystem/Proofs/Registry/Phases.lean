import ModuleSystem.Proofs.Registry.Components

/-!
# Registry — linking and evaluating are walks

Both phases keep the laws that walks rely on (`linkPhase_lawful`, `evaluatePhase_lawful`).  Linking
asks the host to instantiate a module unless it is marked as instantiated; evaluating asks it to run
the module, whatever came before.
-/

namespace ModuleSystem

/-- A module that is linked, whether or not it has been evaluated since. -/
def ModuleState.isLinked : ModuleState → Bool
  | .linked | .evaluated | .errored _ => true
  | _ => false

namespace Registry

variable {σ : Type} {host : Host σ} {m : ModuleId} {r : Registry σ} {s : ModuleState}

/-! ### Linking -/

/-- The registry after the host was asked to instantiate `m`. -/
def afterInstantiate (r : Registry σ) (m : ModuleId) (world : σ) (e : Option ModuleError) :
    Registry σ :=
  note { r.update m (fun p => { p with instantiated := true }) with world } (.instantiated m e)

/-- To a walk a registry looks the same after a module was instantiated. -/
theorem alike_afterInstantiate (r : Registry σ) (m : ModuleId) (world : σ)
    (e : Option ModuleError) : r.Alike (r.afterInstantiate m world e) where
  graph := rfl
  length := length_update
  state _ := state_update fun _ => rfl
  index _ := index_update fun _ => rfl
  ancestor _ := ancestor_update fun _ => rfl

/-- The instantiation is the last call. -/
theorem calls_afterInstantiate {world : σ} {e : Option ModuleError} (k : Service) :
    (r.afterInstantiate m world e).calls k =
      r.calls k ++ ((Happening.instantiated m e).call? k).toList :=
  calls_note k

/-- A module without the mark may be instantiated once. -/
theorem instantiatesOnce_afterInstantiate {world : σ} {e : Option ModuleError}
    (hm : m < r.progress.length) (hf : r.isInstantiated m = false) (h : r.InstantiatesOnce) :
    (r.afterInstantiate m world e).InstantiatesOnce := by
  have hcalls : (r.afterInstantiate m world e).calls .instantiate = r.calls .instantiate ++ [m] :=
    calls_afterInstantiate _
  have hmem : m ∉ r.calls .instantiate := by
    rw [← h.flag_iff m, hf]
    simp
  constructor
  · rw [hcalls]
    refine List.nodup_append.2 ⟨h.nodup, by simp, fun x hx y hy exy => ?_⟩
    rw [exy, List.mem_singleton.1 hy] at hx
    exact hmem hx
  · intro x
    rw [hcalls, List.mem_append, List.mem_singleton, ← h.flag_iff x]
    by_cases hx : x = m
    · subst hx
      exact iff_of_true (congrArg Progress.instantiated (progressOf_update_self hm)) (.inr rfl)
    · have : (r.afterInstantiate m world e).isInstantiated x = r.isInstantiated x :=
        congrArg Progress.instantiated (progressOf_update_of_ne hx)
      simp [this, hx]

/-- A module with the mark is not instantiated again. -/
theorem instantiate_of_true (h : r.isInstantiated m = true) :
    instantiate host m r = (r, .ok ()) :=
  if_pos h

/-- A module without it is, and gets the mark, whether or not it fails. -/
theorem instantiate_of_false (h : r.isInstantiated m = false) :
    ∃ e, (instantiate host m r).1 =
      r.afterInstantiate m (host.instantiate r.graph m r.world).1 e := by
  have h' : ¬ (r.progressOf m).instantiated = true := by simpa [isInstantiated] using h
  rcases hev : host.instantiate r.graph m r.world with ⟨world, e | u⟩ <;>
    simp only [instantiate, if_neg h', graph_update, world_update, hev]
  · exact ⟨some e, rfl⟩
  · exact ⟨none, rfl⟩

/-- Instantiating a module fails only if the host fails. -/
theorem instantiate_error {r' : Registry σ} {e : ModuleError}
    (h : instantiate host m r = (r', .error e)) :
    ∃ world, (host.instantiate r.graph m world).2 = .error e := by
  cases hf : r.isInstantiated m with
  | true =>
      rw [instantiate_of_true hf] at h
      cases h
  | false =>
      have h' : ¬ (r.progressOf m).instantiated = true := by simpa [isInstantiated] using hf
      rcases hev : host.instantiate r.graph m r.world with ⟨world, e' | u⟩ <;>
        simp only [instantiate, if_neg h', graph_update, world_update, hev] at h <;> cases h
      exact ⟨r.world, by rw [hev]⟩

/-- Linking a module changes nothing, which is well only if the module was instantiated before; or
the host is asked to instantiate it. -/
theorem linkPhase_body (host : Host σ) (m : ModuleId) (r : Registry σ) :
    (((linkPhase host).body m r).1 = r ∧
      (((linkPhase host).body m r).2 = .ok () → r.isInstantiated m = true)) ∨
    (r.isInstantiated m = false ∧
      ∃ world e, ((linkPhase host).body m r).1 = r.afterInstantiate m world e) := by
  simp only [linkPhase]
  split
  · exact .inl ⟨rfl, fun h => nomatch h⟩
  · cases hf : r.isInstantiated m with
    | true =>
        rw [instantiate_of_true hf]
        exact .inl ⟨rfl, fun _ => rfl⟩
    | false => exact .inr ⟨rfl, _, instantiate_of_false hf⟩

/-- Linking a module fails where an import of it does not resolve. -/
theorem linkPhase_body_of_some {e : LinkError} (h : r.graph.linkError? m = some e) :
    (linkPhase host).body m r = (r, .error (.link e)) := by
  simp only [linkPhase, h]

/-- A module whose imports resolve is instantiated. -/
theorem linkPhase_body_of_none (h : r.graph.linkError? m = none) :
    (linkPhase host).body m r = instantiate host m r := by
  simp only [linkPhase, h]

/-- Linking a module is well only if all its imports resolve. -/
theorem linkError?_of_body_ok {r' : Registry σ} (h : (linkPhase host).body m r = (r', .ok ())) :
    r.graph.linkError? m = none := by
  cases he : r.graph.linkError? m with
  | none => rfl
  | some e =>
      rw [linkPhase_body_of_some he] at h
      cases h

/-- A module that is instantiated stays so. -/
theorem isInstantiated_linkPhase_body (host : Host σ) (m : ModuleId) {x : ModuleId}
    (h : r.isInstantiated x = true) :
    ((linkPhase host).body m r).1.isInstantiated x = true := by
  rcases linkPhase_body host m r with ⟨e, -⟩ | ⟨hf, world, err, e⟩
  · rwa [e]
  · have hx : x ≠ m := by
      rintro rfl
      rw [hf] at h
      cases h
    rw [e]
    exact (congrArg Progress.instantiated (progressOf_update_of_ne hx)).trans h

/-- A module that was linked without an error has the mark. -/
theorem isInstantiated_of_linkPhase_body (hm : m < r.progress.length)
    (h : ((linkPhase host).body m r).2 = .ok ()) :
    ((linkPhase host).body m r).1.isInstantiated m = true := by
  rcases linkPhase_body host m r with ⟨e, hf⟩ | ⟨-, world, err, e⟩
  · rw [e]
    exact hf h
  · rw [e]
    exact congrArg Progress.instantiated (progressOf_update_self hm)

/-- Linking is a phase. -/
theorem linkPhase_lawful (host : Host σ) : (linkPhase host).Lawful .instantiate where
  arrival_new := rfl
  arrival_active := rfl
  arrival_done := rfl
  active_ne_done := ModuleState.noConfusion
  alike m r := by
    rcases linkPhase_body host m r with ⟨e, -⟩ | ⟨-, world, err, e⟩
    · rw [e]
      exact ⟨rfl, rfl, fun _ => rfl, fun _ => rfl, fun _ => rfl⟩
    · rw [e]
      exact alike_afterInstantiate r m world err
  history m r := by
    rcases linkPhase_body host m r with ⟨e, -⟩ | ⟨-, world, err, e⟩
    · rw [e]
    · rw [e]
      exact List.prefix_append _ _
  calls m r := by
    rcases linkPhase_body host m r with ⟨e, -⟩ | ⟨-, world, err, e⟩
    · exact .inl (by rw [e])
    · exact .inr (by rw [e, calls_afterInstantiate]; rfl)
  otherCalls m r k hk := by
    rcases linkPhase_body host m r with ⟨e, -⟩ | ⟨-, world, err, e⟩
    · rw [e]
    · cases k with
      | instantiate => exact absurd rfl hk
      | evaluate => rw [e, calls_afterInstantiate]; simp [Happening.call?]
  once m r hm h := by
    rcases linkPhase_body host m r with ⟨e, -⟩ | ⟨hf, world, err, e⟩
    · rwa [e]
    · rw [e]
      exact instantiatesOnce_afterInstantiate hm hf h
  called m r hm h hok := by
    rcases linkPhase_body host m r with ⟨e, hf⟩ | ⟨-, world, err, e⟩
    · rw [e, ← h.flag_iff m]
      exact hf hok
    · rw [e, calls_afterInstantiate]
      simp [Happening.call?]

theorem linkPhase_enter_iff : (linkPhase host).arrival s = .enter ↔ s = .unlinked := by
  cases s <;> simp [linkPhase]

theorem linkPhase_misuse_iff : (linkPhase host).arrival s = .misuse ↔ s = .new := by
  cases s <;> simp [linkPhase]

theorem linkPhase_ne_fail {e : ModuleError} : (linkPhase host).arrival s ≠ .fail e := by
  cases s <;> simp [linkPhase]

/-- What is linked, or has come further, is settled for linking. -/
theorem linkPhase_settled_iff :
    (linkPhase host).Settled s ↔ s.isLinked = true ∨ s = .evaluating := by
  cases s <;> simp [linkPhase, Phase.Settled, ModuleState.isLinked]

/-! ### Evaluating -/

/-- Running a module asks the host once, and takes note of what came of it. -/
theorem evaluatePhase_body (host : Host σ) (m : ModuleId) (r : Registry σ) :
    ∃ world e, ((evaluatePhase host).body m r).1 = note { r with world } (.ran m e) := by
  simp only [evaluatePhase, runBody]
  split
  · exact ⟨_, none, rfl⟩
  · exact ⟨_, some _, rfl⟩

/-- A body that fails has thrown its error. -/
theorem runBody_error {r' : Registry σ} {e : ModuleError}
    (h : runBody host m r = (r', .error e)) :
    (host.evaluate r.graph m r.world).2 = .error e ∧ .ran m (some e) ∈ r'.history := by
  rw [runBody] at h
  split at h
  · cases h
  · rename_i hev
    cases h
    exact ⟨by rw [hev], by simp⟩

/-- Evaluating is a phase. -/
theorem evaluatePhase_lawful (host : Host σ) : (evaluatePhase host).Lawful .evaluate where
  arrival_new := rfl
  arrival_active := rfl
  arrival_done := rfl
  active_ne_done := ModuleState.noConfusion
  alike m r := by
    obtain ⟨world, err, e⟩ := evaluatePhase_body host m r
    rw [e]
    exact ⟨rfl, rfl, fun _ => rfl, fun _ => rfl, fun _ => rfl⟩
  history m r := by
    obtain ⟨world, err, e⟩ := evaluatePhase_body host m r
    rw [e]
    exact List.prefix_append _ _
  calls m r := by
    obtain ⟨world, err, e⟩ := evaluatePhase_body host m r
    refine .inr ?_
    rw [e]
    exact calls_note _
  otherCalls m r k hk := by
    obtain ⟨world, err, e⟩ := evaluatePhase_body host m r
    rw [e, calls_note]
    cases k with
    | instantiate => exact List.append_nil _
    | evaluate => exact absurd rfl hk
  once m r hm h := by
    obtain ⟨world, err, e⟩ := evaluatePhase_body host m r
    rw [e]
    have hcalls : (note { r with world } (.ran m err)).calls .instantiate = r.calls .instantiate :=
      (calls_note _).trans (List.append_nil _)
    exact ⟨hcalls ▸ h.nodup, fun x => hcalls ▸ h.flag_iff x⟩
  called m r hm h hok := by
    obtain ⟨world, err, e⟩ := evaluatePhase_body host m r
    rw [e, calls_note]
    simp [Happening.call?]

theorem evaluatePhase_enter_iff : (evaluatePhase host).arrival s = .enter ↔ s = .linked := by
  cases s <;> simp [evaluatePhase]

/-- Evaluating fails at a module that failed before. -/
theorem evaluatePhase_fail_iff {e : ModuleError} :
    (evaluatePhase host).arrival s = .fail e ↔ s = .errored e := by
  cases s <;> simp [evaluatePhase]

/-- Evaluating a module that is not linked is misuse. -/
theorem evaluatePhase_ne_misuse_iff :
    (evaluatePhase host).arrival s ≠ .misuse ↔ s.isLinked = true ∨ s = .evaluating := by
  cases s <;> simp [evaluatePhase, ModuleState.isLinked]

theorem evaluatePhase_settled_iff : (evaluatePhase host).Settled s ↔ s = .evaluated := by
  cases s <;> simp [evaluatePhase, Phase.Settled]

end Registry

end ModuleSystem
