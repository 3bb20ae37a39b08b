import Mathlib.Data.Finset.Card
import Mathlib.Data.Finset.Range
import ModuleSystem.Proofs.Registry.State

/-!
# Registry — what a walk leaves alone

A walk touches only modules that its phase may enter.  Every other module keeps its state and its
numbers, the modules that were open stay open below those that the walk opens, and the host is asked
at most once for each module that the walk enters (`Walk.Extends`).

* `visit_ends`: the six ways a visit can end.
* `visitAll_induct`: what holds before the first dependency and is kept by each visit holds after the
  last one.
* `visit_extends`: a visit, whatever comes of it, leaves the rest alone.
* `visit_keeps`: what every single change keeps, a visit keeps.
* `visit_ne_misuse`: a visit ends, and is never misuse, if whatever a proper module imports from is
  proper.
-/

namespace ModuleSystem

/-- Two registries that look alike to a walk. -/
structure Registry.Alike {σ : Type} (r r' : Registry σ) : Prop where
  graph : r'.graph = r.graph
  length : r'.progress.length = r.progress.length
  state : ∀ x, r'.state x = r.state x
  index : ∀ x, r'.index x = r.index x
  ancestor : ∀ x, r'.ancestor x = r.ancestor x

/-- The host was asked to instantiate no module twice, and exactly the modules that it was asked for
are marked as such. -/
structure Registry.InstantiatesOnce {σ : Type} (r : Registry σ) : Prop where
  nodup : (r.calls .instantiate).Nodup
  flag_iff : ∀ x, r.isInstantiated x = true ↔ x ∈ r.calls .instantiate

/-- Whether modules are instantiated once depends on the calls and the marks only. -/
theorem Registry.InstantiatesOnce.congr {σ : Type} {r r' : Registry σ} (h : r.InstantiatesOnce)
    (calls : r'.calls .instantiate = r.calls .instantiate)
    (flags : ∀ x, r'.isInstantiated x = r.isInstantiated x) : r'.InstantiatesOnce where
  nodup := calls ▸ h.nodup
  flag_iff x := by rw [flags, calls, h.flag_iff]

/-- A phase whose body does its work by asking the host for a service, at most once and for the
module at hand, and is nothing that a walk would notice. -/
structure Phase.Lawful {σ : Type} (phase : Phase σ) (k : Service) : Prop where
  arrival_new : phase.arrival .new = .misuse
  arrival_active : phase.arrival phase.active = .pass
  arrival_done : phase.arrival phase.done = .pass
  active_ne_done : phase.active ≠ phase.done
  alike : ∀ m r, Registry.Alike r (phase.body m r).1
  history : ∀ m r, r.history <+: (phase.body m r).1.history
  calls : ∀ m r, (phase.body m r).1.calls k = r.calls k ∨
    (phase.body m r).1.calls k = r.calls k ++ [m]
  otherCalls : ∀ m r k', k' ≠ k → (phase.body m r).1.calls k' = r.calls k'
  once : ∀ m (r : Registry σ), m < r.progress.length → r.InstantiatesOnce →
    (phase.body m r).1.InstantiatesOnce
  called : ∀ m (r : Registry σ), m < r.progress.length → r.InstantiatesOnce →
    (phase.body m r).2 = .ok () → m ∈ (phase.body m r).1.calls k

namespace Walk

variable {σ : Type} {w w' : Walk σ} {m d x : ModuleId} {a s : ModuleState}

/-! ### The ways a visit can end -/

/-- The six ways a visit can end: the module is passed, fails or may not be visited; or it is entered,
and then one of its dependencies stops the walk, or its body does, or it is closed. -/
inductive Ends (phase : Phase σ) (fuel : Nat) (m : ModuleId) (w : Walk σ) :
    Walk σ → Except Stop Unit → Prop where
  | passed (ha : phase.arrival (w.registry.state m) = .pass) : Ends phase fuel m w w (.ok ())
  | failed {e : ModuleError} (ha : phase.arrival (w.registry.state m) = .fail e) :
      Ends phase fuel m w w (.error (.error e))
  | misused (ha : phase.arrival (w.registry.state m) = .misuse) :
      Ends phase fuel m w w (.error .misuse)
  | stopped {w' : Walk σ} {s : Stop} (ha : phase.arrival (w.registry.state m) = .enter)
      (hv : visitAll (visit phase fuel) phase.active m (w.registry.graph.deps m)
        (w.enter phase.active m) = (w', .error s)) : Ends phase fuel m w w' (.error s)
  | threw {w' : Walk σ} {r : Registry σ} {e : ModuleError}
      (ha : phase.arrival (w.registry.state m) = .enter)
      (hv : visitAll (visit phase fuel) phase.active m (w.registry.graph.deps m)
        (w.enter phase.active m) = (w', .ok ()))
      (hb : phase.body m w'.registry = (r, .error e)) :
      Ends phase fuel m w { w' with registry := r } (.error (.error e))
  | closed {w' : Walk σ} {r : Registry σ} (ha : phase.arrival (w.registry.state m) = .enter)
      (hv : visitAll (visit phase fuel) phase.active m (w.registry.graph.deps m)
        (w.enter phase.active m) = (w', .ok ()))
      (hb : phase.body m w'.registry = (r, .ok ())) :
      Ends phase fuel m w (close { w' with registry := r } phase.done m) (.ok ())

/-- A visit ends in one of these ways. -/
theorem visit_ends {phase : Phase σ} {fuel : Nat} {res : Except Stop Unit}
    (h : visit phase (fuel + 1) m w = (w', res)) : Ends phase fuel m w w' res := by
  rw [visit] at h
  cases ha : phase.arrival (w.registry.state m) with
  | pass =>
      rw [ha] at h
      cases h
      exact .passed ha
  | fail e =>
      rw [ha] at h
      cases h
      exact .failed ha
  | misuse =>
      rw [ha] at h
      cases h
      exact .misused ha
  | enter =>
      simp only [ha] at h
      rcases hv : visitAll (visit phase fuel) phase.active m (w.registry.graph.deps m)
        (w.enter phase.active m) with ⟨w₁, s | u⟩
      · rw [hv] at h
        cases h
        exact .stopped ha hv
      · rcases hb : phase.body m w₁.registry with ⟨r, e | u⟩
        · simp only [hv, hb] at h
          cases h
          exact .threw ha hv hb
        · simp only [hv, hb] at h
          cases h
          exact .closed ha hv hb

/-- What holds before the first dependency, and is kept by each visit that ends well with what is
inherited after it, holds after the last one; a visit that stops the walk started where it held. -/
theorem visitAll_induct (v : ModuleId → Walk σ → Walk σ × Except Stop Unit) (a : ModuleState)
    (m : ModuleId) (P : List ModuleId → Walk σ → Prop) {ds : List ModuleId} {w : Walk σ}
    (hP : P [] w)
    (step : ∀ {seen d w w'}, d ∈ ds → P seen w → v d w = (w', .ok ()) →
      P (seen ++ [d]) (w'.inherit a m d)) :
    (∀ {w'}, visitAll v a m ds w = (w', .ok ()) → P ds w') ∧
    ∀ {w' s}, visitAll v a m ds w = (w', .error s) →
      ∃ d ∈ ds, ∃ seen w₁, P seen w₁ ∧ v d w₁ = (w', .error s) := by
  suffices rest : ∀ {ds'} seen {w}, ds' ⊆ ds → P seen w →
      (∀ {w'}, visitAll v a m ds' w = (w', .ok ()) → P (seen ++ ds') w') ∧
      ∀ {w' s}, visitAll v a m ds' w = (w', .error s) →
        ∃ d ∈ ds, ∃ seen w₁, P seen w₁ ∧ v d w₁ = (w', .error s) from
    rest [] (List.Subset.refl ds) hP
  -- by induction on what is left, with what has been seen growing at its end
  intro ds'
  induction ds' with
  | nil =>
      intro seen w _ hP
      constructor
      · intro w' h
        cases h
        rwa [List.append_nil]
      · intro w' s h
        cases h
  | cons d ds' ih =>
      intro seen w hsub hP
      have hd : d ∈ ds := hsub List.mem_cons_self
      simp only [visitAll]
      rcases hv : v d w with ⟨w₁, s | u⟩
      · constructor
        · intro w' h
          cases h
        · intro w' s h
          cases h
          exact ⟨d, hd, seen, w, hP, hv⟩
      · obtain ⟨hok, herr⟩ := ih (seen ++ [d]) (fun x hx => hsub (List.mem_cons_of_mem _ hx))
          (step hd hP hv)
        refine ⟨fun {w'} h => ?_, herr⟩
        rw [List.append_cons]
        exact hok h

/-! ### What a walk leaves alone -/

/-- `w'` continues `w`: modules that the phase may not enter keep their state and their number,
the others are left as they are, opened, or closed; modules are opened above those that were open;
the host is asked at most once for each module, and only for modules that were to be entered. -/
structure Extends (phase : Phase σ) (k : Service) (w w' : Walk σ) : Prop where
  graph : w'.registry.graph = w.registry.graph
  length : w'.registry.progress.length = w.registry.progress.length
  next_le : w.next ≤ w'.next
  state : ∀ {x}, phase.arrival (w.registry.state x) ≠ .enter →
    w'.registry.state x = w.registry.state x
  index : ∀ {x}, phase.arrival (w.registry.state x) ≠ .enter →
    w'.registry.index x = w.registry.index x
  moved : ∀ {x}, phase.arrival (w.registry.state x) = .enter →
    w'.registry.state x = w.registry.state x ∨ w'.registry.state x = phase.active ∨
      w'.registry.state x = phase.done
  stack : ∃ new, w'.stack = new ++ w.stack ∧ ∀ x ∈ new, phase.arrival (w.registry.state x) = .enter
  history : w.registry.history <+: w'.registry.history
  calls : ∃ more, w'.registry.calls k = w.registry.calls k ++ more ∧ more.Nodup ∧
    ∀ x ∈ more, phase.arrival (w.registry.state x) = .enter ∧
      phase.arrival (w'.registry.state x) ≠ .enter
  otherCalls : ∀ k', k' ≠ k → w'.registry.calls k' = w.registry.calls k'

variable {phase : Phase σ} {k : Service} {w'' : Walk σ} {fuel : Nat}

theorem Extends.refl (w : Walk σ) : Extends phase k w w where
  graph := rfl
  length := rfl
  next_le := Nat.le_refl _
  state _ := rfl
  index _ := rfl
  moved _ := .inl rfl
  stack := ⟨[], rfl, by simp⟩
  history := List.prefix_refl _
  calls := ⟨[], by simp, List.nodup_nil, by simp⟩
  otherCalls _ _ := rfl

/-- What may be entered later might have been entered before. -/
theorem Extends.enter_of_enter (h : Extends phase k w w')
    (hx : phase.arrival (w'.registry.state x) = .enter) :
    phase.arrival (w.registry.state x) = .enter := by
  by_cases hw : phase.arrival (w.registry.state x) = .enter
  · exact hw
  · rwa [h.state hw] at hx

/-- A walk that goes on, and on. -/
theorem Extends.trans (law : phase.Lawful k) (h : Extends phase k w w')
    (h' : Extends phase k w' w'') : Extends phase k w w'' where
  graph := h'.graph.trans h.graph
  length := h'.length.trans h.length
  next_le := Nat.le_trans h.next_le h'.next_le
  state hx := by
    have hx' := h.state hx
    rw [h'.state (by rwa [hx']), hx']
  index hx := by
    rw [h'.index (by rwa [h.state hx]), h.index hx]
  moved hx := by
    rcases h.moved hx with e | e | e
    · have hx' := h'.moved (by rwa [e])
      rwa [e] at hx'
    · exact .inr (.inl ((h'.state (by simp [e, law.arrival_active])).trans e))
    · exact .inr (.inr ((h'.state (by simp [e, law.arrival_done])).trans e))
  stack := by
    obtain ⟨new, hs, hnew⟩ := h.stack
    obtain ⟨new', hs', hnew'⟩ := h'.stack
    refine ⟨new' ++ new, by rw [hs', hs, List.append_assoc], fun x hx => ?_⟩
    rcases List.mem_append.1 hx with hx | hx
    · exact h.enter_of_enter (hnew' x hx)
    · exact hnew x hx
  history := h.history.trans h'.history
  calls := by
    obtain ⟨more, hc, hd, hm⟩ := h.calls
    obtain ⟨more', hc', hd', hm'⟩ := h'.calls
    refine ⟨more ++ more', by rw [hc', hc, List.append_assoc], ?_, fun x hx => ?_⟩
    · refine List.nodup_append.2 ⟨hd, hd', fun x hx y hy e => ?_⟩
      -- what the host was asked for first can no longer be entered
      exact (hm x hx).2 (e ▸ (hm' y hy).1)
    · rcases List.mem_append.1 hx with hx | hx
      · exact ⟨(hm x hx).1, fun hx'' => (hm x hx).2 (h'.enter_of_enter hx'')⟩
      · exact ⟨h.enter_of_enter (hm' x hx).1, (hm' x hx).2⟩
  otherCalls k' hk := (h'.otherCalls k' hk).trans (h.otherCalls k' hk)

/-- A module that may be entered has a place in the registry. -/
theorem lt_length_of_enter (law : phase.Lawful k) (h : phase.arrival (w.registry.state m) = .enter) :
    m < w.registry.progress.length := by
  refine Registry.lt_length_of_state_ne_new fun hn => ?_
  rw [hn, law.arrival_new] at h
  cases h

/-- Entering a module goes on from the walk before. -/
theorem extends_enter (law : phase.Lawful k) (h : phase.arrival (w.registry.state m) = .enter) :
    Extends phase k w (w.enter phase.active m) := by
  have ne : ∀ {x}, phase.arrival (w.registry.state x) ≠ .enter → x ≠ m := fun hx e => hx (e ▸ h)
  exact
    { graph := rfl
      length := length_enter
      next_le := Nat.le_succ _
      state := fun hx => state_enter_of_ne (ne hx)
      index := fun hx => index_enter_of_ne (ne hx)
      moved := fun {x} _ => by
        by_cases e : x = m
        · subst e
          exact .inr (.inl (state_enter_self (lt_length_of_enter law h)))
        · exact .inl (state_enter_of_ne e)
      stack := ⟨[m], rfl, by simpa using h⟩
      history := prefix_history_enter
      calls := ⟨[], by simp, List.nodup_nil, by simp⟩
      otherCalls := fun k' _ => calls_enter k' }

/-- So does inheriting from a dependency. -/
theorem extends_inherit : Extends phase k w (w.inherit phase.active m d) where
  graph := graph_inherit
  length := length_inherit
  next_le := Nat.le_of_eq next_inherit.symm
  state _ := state_inherit
  index _ := index_inherit
  moved _ := .inl state_inherit
  stack := ⟨[], by simp, by simp⟩
  history := by simp
  calls := ⟨[], by simp, List.nodup_nil, by simp⟩
  otherCalls k' _ := calls_inherit k'

/-- The body of a module asks the host for nothing but that module, which was to be entered and has
not been asked for since. -/
theorem Extends.body (law : phase.Lawful k) (ha : phase.arrival (w.registry.state m) = .enter)
    (h : Extends phase k (w.enter phase.active m) w') :
    Extends phase k w { w' with registry := (phase.body m w'.registry).1 } := by
  have h₀ : Extends phase k w w' := (extends_enter law ha).trans law h
  have hm : phase.arrival ((w.enter phase.active m).registry.state m) ≠ .enter := by
    simp [state_enter_self (lt_length_of_enter law ha), law.arrival_active]
  have alike := law.alike m w'.registry
  refine
    { graph := alike.graph.trans h₀.graph
      length := alike.length.trans h₀.length
      next_le := h₀.next_le
      state := fun hx => (alike.state _).trans (h₀.state hx)
      index := fun hx => (alike.index _).trans (h₀.index hx)
      moved := fun hx => by simpa only [alike.state] using h₀.moved hx
      stack := h₀.stack
      history := h₀.history.trans (law.history m w'.registry)
      calls := ?_
      otherCalls := fun k' hk => (law.otherCalls m w'.registry k' hk).trans (h₀.otherCalls k' hk) }
  obtain ⟨more, hc, hd, hmore⟩ := h.calls
  have hmore' : ∀ x ∈ more, phase.arrival (w.registry.state x) = .enter ∧
      phase.arrival ((phase.body m w'.registry).1.state x) ≠ .enter := fun x hx =>
    ⟨(extends_enter law ha).enter_of_enter (hmore x hx).1, by
      rw [alike.state]
      exact (hmore x hx).2⟩
  rw [calls_enter] at hc
  -- either nothing was asked, or `m` was, which is open and so not among `more`
  rcases law.calls m w'.registry with e | e
  · exact ⟨more, e.trans hc, hd, hmore'⟩
  · refine ⟨more ++ [m], by rw [e, hc, List.append_assoc], ?_, fun x hx => ?_⟩
    · refine List.nodup_append.2 ⟨hd, by simp, fun x hx y hy exy => hm ?_⟩
      rw [exy, List.mem_singleton.1 hy] at hx
      exact (hmore m hx).1
    · rcases List.mem_append.1 hx with hx | hx
      · exact hmore' x hx
      · obtain rfl := List.mem_singleton.1 hx
        refine ⟨ha, ?_⟩
        rw [alike.state, h.state hm, state_enter_self (lt_length_of_enter law ha),
          law.arrival_active]
        simp

/-- Closing touches only the module and what was opened after it. -/
theorem Extends.close (law : phase.Lawful k) (h : Extends phase k w w') {new : List ModuleId}
    (hs : w'.stack = new ++ m :: w.stack) (hm : m ∉ new)
    (hnew : ∀ x ∈ new ++ [m], phase.arrival (w.registry.state x) = .enter) :
    Extends phase k w (w'.close phase.done m) := by
  by_cases hc : w'.registry.ancestor m = w'.registry.index m
  · rw [close_of_eq hs hm hc]
    -- what is closed was entered since `w`, so what `w` had met is not among it
    have keep : ∀ {x}, phase.arrival (w.registry.state x) ≠ .enter → x ∉ new ++ [m] :=
      fun hx hmem => hx (hnew _ hmem)
    have done : ∀ {x}, x ∈ new ++ [m] →
        (w'.registry.moveAll (new ++ [m]) phase.done).state x = phase.done := fun {x} hx =>
      Registry.state_moveAll_of_mem hx (h.length ▸ lt_length_of_enter law (hnew x hx))
    exact
      { graph := Registry.graph_moveAll.trans h.graph
        length := Registry.length_moveAll.trans h.length
        next_le := h.next_le
        state := fun hx => (Registry.state_moveAll_of_notMem (keep hx)).trans (h.state hx)
        index := fun hx => Registry.index_moveAll.trans (h.index hx)
        moved := fun {x} hx => by
          by_cases hmem : x ∈ new ++ [m]
          · exact .inr (.inr (done hmem))
          · have hx' := h.moved hx
            rwa [← Registry.state_moveAll_of_notMem hmem] at hx'
        stack := ⟨[], rfl, by simp⟩
        history := h.history.trans Registry.prefix_history_moveAll
        calls := by
          obtain ⟨more, hcs, hd, hmore⟩ := h.calls
          refine ⟨more, (Registry.calls_moveAll k).trans hcs, hd, fun x hx => ⟨(hmore x hx).1, ?_⟩⟩
          by_cases hmem : x ∈ new ++ [m]
          · simp [done hmem, law.arrival_done]
          · rw [Registry.state_moveAll_of_notMem hmem]
            exact (hmore x hx).2
        otherCalls := fun k' hk => (Registry.calls_moveAll k').trans (h.otherCalls k' hk) }
  · rwa [close_of_ne hc]

/-- Inside the visit of a module, what the walk has opened since lies above that module. -/
theorem Extends.stack_of_enter (law : phase.Lawful k)
    (ha : phase.arrival (w.registry.state m) = .enter)
    (h : Extends phase k (w.enter phase.active m) w') :
    ∃ new, w'.stack = new ++ m :: w.stack ∧ m ∉ new ∧
      ∀ x ∈ new ++ [m], phase.arrival (w.registry.state x) = .enter := by
  obtain ⟨new, hs, hnew⟩ := h.stack
  refine ⟨new, hs, fun hm => ?_, fun x hx => ?_⟩
  · have := hnew m hm
    rw [state_enter_self (lt_length_of_enter law ha), law.arrival_active] at this
    cases this
  · rcases List.mem_append.1 hx with hx | hx
    · exact (extends_enter law ha).enter_of_enter (hnew x hx)
    · exact List.mem_singleton.1 hx ▸ ha

/-- Each dependency is visited on a walk that continues the one before the first of them. -/
theorem visitAll_extends_or (law : phase.Lawful k)
    (hv : ∀ d w, Extends phase k w (visit phase fuel d w).1) (ds : List ModuleId) (w : Walk σ) :
    (∀ {w'}, visitAll (visit phase fuel) phase.active m ds w = (w', .ok ()) →
      Extends phase k w w') ∧
    ∀ {w' s}, visitAll (visit phase fuel) phase.active m ds w = (w', .error s) →
      ∃ d ∈ ds, ∃ w₁, Extends phase k w w₁ ∧ visit phase fuel d w₁ = (w', .error s) := by
  obtain ⟨hok, herr⟩ := visitAll_induct (visit phase fuel) phase.active m
    (fun _ w' => Extends phase k w w') (.refl w)
    (fun {_ d w₁ w₂} _ h hd => by
      have h₁ := hv d w₁
      rw [hd] at h₁
      exact (h.trans law h₁).trans law extends_inherit)
  refine ⟨hok, fun hr => ?_⟩
  obtain ⟨d, hd, -, h⟩ := herr hr
  exact ⟨d, hd, h⟩

/-- So do the visits of dependencies, if each of them does. -/
theorem visitAll_extends (law : phase.Lawful k)
    (hv : ∀ d w, Extends phase k w (visit phase fuel d w).1) (ds : List ModuleId) (w : Walk σ) :
    Extends phase k w (visitAll (visit phase fuel) phase.active m ds w).1 := by
  obtain ⟨hok, herr⟩ := visitAll_extends_or (m := m) law hv ds w
  rcases hr : visitAll (visit phase fuel) phase.active m ds w with ⟨w', s | u⟩
  · obtain ⟨d, -, w₁, h₁, hd⟩ := herr hr
    have h₂ := hv d w₁
    rw [hd] at h₂
    exact h₁.trans law h₂
  · exact hok hr

/-- **A visit leaves the rest alone**, whatever comes of it. -/
theorem visit_extends (law : phase.Lawful k) (fuel : Nat) (m : ModuleId) (w : Walk σ) :
    Extends phase k w (visit phase fuel m w).1 := by
  induction fuel generalizing m w with
  | zero => exact .refl w
  | succ fuel ih =>
      rcases hr : visit phase (fuel + 1) m w with ⟨w', res⟩
      have inside := visitAll_extends (m := m) law ih (w.registry.graph.deps m)
        (w.enter phase.active m)
      cases visit_ends hr with
      | passed => exact .refl w
      | failed => exact .refl w
      | misused => exact .refl w
      | stopped ha hv =>
          rw [hv] at inside
          exact (extends_enter law ha).trans law inside
      | threw ha hv hb =>
          rw [hv] at inside
          have h := Extends.body law ha inside
          rwa [hb] at h
      | closed ha hv hb =>
          rw [hv] at inside
          have h := Extends.body law ha inside
          rw [hb] at h
          obtain ⟨new, hs, hm, hnew⟩ := inside.stack_of_enter law ha
          exact h.close law hs hm hnew

/-- The dependencies of a module pass nothing on to other modules that the walk does not enter. -/
theorem visitAll_ancestor (law : phase.Lawful k) (hxm : x ≠ m)
    (hv : ∀ d w, phase.arrival (w.registry.state x) ≠ .enter →
      (visit phase fuel d w).1.registry.ancestor x = w.registry.ancestor x)
    (hx : phase.arrival (w.registry.state x) ≠ .enter) (ds : List ModuleId) :
    (visitAll (visit phase fuel) phase.active m ds w).1.registry.ancestor x =
      w.registry.ancestor x := by
  have visited : ∀ {d w₁}, Extends phase k w w₁ ∧ w₁.registry.ancestor x = w.registry.ancestor x →
      (visit phase fuel d w₁).1.registry.ancestor x = w.registry.ancestor x :=
    fun {d w₁} ⟨h, e⟩ => (hv d w₁ (by rwa [h.state hx])).trans e
  obtain ⟨hok, herr⟩ := visitAll_induct (visit phase fuel) phase.active m
    (fun _ w' => Extends phase k w w' ∧ w'.registry.ancestor x = w.registry.ancestor x)
    ⟨.refl w, rfl⟩
    (fun {_ d w₁ w₂} _ h hd => by
      have h₁ := visit_extends law fuel d w₁
      have h₂ := visited (d := d) h
      rw [hd] at h₁ h₂
      exact ⟨(h.1.trans law h₁).trans law extends_inherit, (ancestor_inherit_of_ne hxm).trans h₂⟩)
  rcases hr : visitAll (visit phase fuel) phase.active m ds w with ⟨w', s | u⟩
  · obtain ⟨d, -, -, w₁, h₁, hd⟩ := herr hr
    have h₂ := visited (d := d) h₁
    rwa [hd] at h₂
  · exact (hok hr).2

/-- A visit passes nothing on to modules that it does not enter. -/
theorem visit_ancestor (law : phase.Lawful k) (fuel : Nat) (m : ModuleId) (w : Walk σ)
    (hx : phase.arrival (w.registry.state x) ≠ .enter) :
    (visit phase fuel m w).1.registry.ancestor x = w.registry.ancestor x := by
  induction fuel generalizing m w with
  | zero => rfl
  | succ fuel ih =>
      have inside : phase.arrival (w.registry.state m) = .enter →
          (visitAll (visit phase fuel) phase.active m (w.registry.graph.deps m)
            (w.enter phase.active m)).1.registry.ancestor x = w.registry.ancestor x := by
        intro ha
        have hxm : x ≠ m := fun e => hx (e ▸ ha)
        rw [visitAll_ancestor law hxm ih (by rwa [state_enter_of_ne hxm]), ancestor_enter_of_ne hxm]
      rcases hr : visit phase (fuel + 1) m w with ⟨w', res⟩
      cases visit_ends hr with
      | passed => rfl
      | failed => rfl
      | misused => rfl
      | stopped ha hv =>
          have h := inside ha
          rwa [hv] at h
      | @threw w₁ r e ha hv hb =>
          have h := inside ha
          have alike := law.alike m w₁.registry
          rw [hv] at h
          rw [hb] at alike
          exact (alike.ancestor x).trans h
      | @closed w₁ r ha hv hb =>
          have h := inside ha
          have alike := law.alike m w₁.registry
          rw [hv] at h
          rw [hb] at alike
          exact ancestor_close.trans ((alike.ancestor x).trans h)

/-- What visits and changes of numbers keep, the visits of all dependencies keep. -/
theorem visitAll_keeps {P : Registry σ → Prop}
    (update : ∀ {r} m f, (∀ p, (f p).state = p.state ∧ (f p).instantiated = p.instantiated) → P r →
      P (r.update m f))
    (hv : ∀ d w, P w.registry → P (visit phase fuel d w).1.registry) (ds : List ModuleId)
    (w : Walk σ) (h : P w.registry) :
    P (visitAll (visit phase fuel) phase.active m ds w).1.registry := by
  have inherit : ∀ {w : Walk σ} {a m d}, P w.registry → P (w.inherit a m d).registry := by
    intro w a m d hw
    simp only [Walk.inherit]
    split
    · exact update _ _ (fun _ => ⟨rfl, rfl⟩) hw
    · exact hw
  have hv' : ∀ {d w₁ w₂ res}, P w₁.registry → visit phase fuel d w₁ = (w₂, res) →
      P w₂.registry := by
    intro d w₁ w₂ res hw e
    have := hv d w₁ hw
    rwa [e] at this
  obtain ⟨hok, herr⟩ := visitAll_induct (visit phase fuel) phase.active m
    (fun _ w' => P w'.registry) h (fun _ hw e => inherit (hv' hw e))
  rcases hr : visitAll (visit phase fuel) phase.active m ds w with ⟨w', s | u⟩
  · obtain ⟨d, -, -, w₁, hw, e⟩ := herr hr
    exact hv' hw e
  · exact hok hr

/-- **What moves, changes of numbers and bodies keep, a visit keeps.**  Modules are moved only to the
two states of the phase, and a body is that of a module that was to be entered. -/
theorem visit_keeps {P : Registry σ → Prop}
    (move : ∀ {r} m s, s = phase.active ∨ s = phase.done → P r → P (r.move m s))
    (update : ∀ {r} m f, (∀ p, (f p).state = p.state ∧ (f p).instantiated = p.instantiated) → P r →
      P (r.update m f))
    (body : ∀ {r₀ r} m, P r₀ → phase.arrival (r₀.state m) = .enter → P r → P (phase.body m r).1)
    (fuel : Nat) (m : ModuleId) (w : Walk σ) (h : P w.registry) :
    P (visit phase fuel m w).1.registry := by
  have moveAll : ∀ ms {r}, P r → P (r.moveAll ms phase.done) := by
    intro ms
    induction ms with
    | nil => exact id
    | cons x ms ih => exact fun hr => ih (move x _ (.inr rfl) hr)
  induction fuel generalizing m w with
  | zero => exact h
  | succ fuel ih =>
      -- entered, then the dependencies, then the body: each keeps `P`
      have inside : P (visitAll (visit phase fuel) phase.active m (w.registry.graph.deps m)
          (w.enter phase.active m)).1.registry :=
        visitAll_keeps update ih _ _
          (update _ _ (fun _ => ⟨rfl, rfl⟩) (move _ _ (.inl rfl) h))
      rcases hr : visit phase (fuel + 1) m w with ⟨w', res⟩
      cases visit_ends hr with
      | passed => exact h
      | failed => exact h
      | misused => exact h
      | stopped ha hv =>
          rwa [hv] at inside
      | threw ha hv hb =>
          rw [hv] at inside
          have := body m h ha inside
          rwa [hb] at this
      | closed ha hv hb =>
          rw [hv] at inside
          have := body m h ha inside
          rw [hb] at this
          simp only [close]
          split
          · exact moveAll _ this
          · exact this

/-! ### A walk comes to its end -/

/-- The modules that a walk may still enter. -/
def toEnter (phase : Phase σ) (w : Walk σ) : Finset ModuleId :=
  {x ∈ Finset.range w.registry.progress.length | phase.arrival (w.registry.state x) = .enter}

/-- The modules that are to be entered, counted. -/
theorem mem_toEnter (law : phase.Lawful k) :
    x ∈ toEnter phase w ↔ phase.arrival (w.registry.state x) = .enter := by
  simp only [toEnter, Finset.mem_filter, Finset.mem_range, and_iff_right_iff_imp]
  exact lt_length_of_enter law

/-- While a walk goes on, there are no more modules to be entered. -/
theorem Extends.toEnter_subset (law : phase.Lawful k) (h : Extends phase k w w') :
    toEnter phase w' ⊆ toEnter phase w := fun _ hx =>
  (mem_toEnter law).2 (h.enter_of_enter ((mem_toEnter law).1 hx))

/-- Entering a module leaves fewer to be entered. -/
theorem toEnter_enter_ssubset (law : phase.Lawful k)
    (h : phase.arrival (w.registry.state m) = .enter) :
    toEnter phase (w.enter phase.active m) ⊂ toEnter phase w := by
  refine (Finset.ssubset_iff_of_subset ((extends_enter law h).toEnter_subset law)).2
    ⟨m, (mem_toEnter law).2 h, fun hm => ?_⟩
  have := (mem_toEnter law).1 hm
  rw [state_enter_self (lt_length_of_enter law h), law.arrival_active] at this
  cases this

/-- While a walk goes on, what is misuse does not change. -/
theorem Extends.misuse_iff (law : phase.Lawful k) (h : Extends phase k w w') :
    phase.arrival (w'.registry.state x) = .misuse ↔ phase.arrival (w.registry.state x) = .misuse := by
  by_cases hx : phase.arrival (w.registry.state x) = .enter
  · rcases h.moved hx with e | e | e <;> simp [e, hx, law.arrival_active, law.arrival_done]
  · rw [h.state hx]

end Walk

/-- Whatever a module that may be visited imports from may be visited. -/
def Phase.Proper {σ : Type} (phase : Phase σ) (r : Registry σ) : Prop :=
  ∀ {x}, phase.arrival (r.state x) ≠ .misuse →
    ∀ d ∈ r.graph.deps x, phase.arrival (r.state d) ≠ .misuse

namespace Walk

variable {σ : Type} {w w' : Walk σ} {m : ModuleId} {phase : Phase σ} {k : Service}

/-- Nor does it come to misuse. -/
theorem Extends.proper (law : phase.Lawful k) (h : Extends phase k w w')
    (hp : phase.Proper w.registry) : phase.Proper w'.registry := by
  intro x hx d hd
  rw [Ne, h.misuse_iff law] at hx ⊢
  exact hp hx d (h.graph ▸ hd)

/-- **A visit comes to an end, and is no misuse**: it goes no deeper than there are modules to
enter, and comes to no module that may not be visited. -/
theorem visit_ne_misuse (law : phase.Lawful k) (fuel : Nat) (m : ModuleId) (w : Walk σ)
    (hp : phase.Proper w.registry) (hm : phase.arrival (w.registry.state m) ≠ .misuse)
    (hf : (toEnter phase w).card < fuel) : (visit phase fuel m w).2 ≠ .error .misuse := by
  induction fuel generalizing m w with
  | zero => exact absurd hf (Nat.not_lt_zero _)
  | succ fuel ih =>
      rcases hr : visit phase (fuel + 1) m w with ⟨w', res⟩
      rintro rfl
      cases visit_ends hr with
      | misused ha => exact hm ha
      | stopped ha hv =>
          obtain ⟨d, hd, w₁, h₁, hd₁⟩ :=
            (visitAll_extends_or law (visit_extends law fuel) _ _).2 hv
          have h : Extends phase k w w₁ := (extends_enter law ha).trans law h₁
          refine ih d w₁ (h.proper law hp) ?_ ?_ (congrArg Prod.snd hd₁)
          · rw [Ne, h.misuse_iff law]
            exact hp hm d hd
          · -- the module itself is one less to enter
            calc (toEnter phase w₁).card
              _ ≤ (toEnter phase (w.enter phase.active m)).card :=
                Finset.card_le_card (h₁.toEnter_subset law)
              _ < (toEnter phase w).card := Finset.card_lt_card (toEnter_enter_ssubset law ha)
              _ ≤ fuel := Nat.le_of_lt_succ hf

end Walk

end ModuleSystem
