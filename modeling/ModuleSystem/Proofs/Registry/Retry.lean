import ModuleSystem.Proofs.Registry.Rest

/-!
# Registry — a link that has failed fails again

A link that fails keeps the components that were closed before the failure, and takes every other
module back to where it was; but some of these were instantiated on the way.  The same link made
again passes over what is linked by now, so it walks through another part of the graph.  It comes to
the same error nevertheless, and by then it has asked the host for nothing.

* `Walk.Confined`: a visit touches nothing outside a set of modules that import from the set only.
* `Walk.Repeats`: a walk repeats another one, but for the modules of such a set, which it passes over.
* `Walk.visit_again`: where a visit ends in some way, the visit that repeats it ends in the same way.
* `failed_link_again`: what a link that has failed leaves behind, and what comes of it the next time.
-/

namespace ModuleSystem

/-- Whatever a module of the set imports from is in the set. -/
def Graph.ClosedUnder (g : Graph) (Z : Set ModuleId) : Prop := ∀ x ∈ Z, ∀ d ∈ g.deps x, d ∈ Z

namespace Walk

variable {σ : Type} {phase : Phase σ} {k : Service} {Z : Set ModuleId} {w w' w'' w₁ : Walk σ}
  {m d x : ModuleId} {a : ModuleState} {fuel : Nat}

/-- The modules on the stack are those that the phase has opened. -/
def Opened (phase : Phase σ) (w : Walk σ) : Prop := ∀ x ∈ w.stack, w.registry.state x = phase.active

/-! ### A visit stays within a closed set -/

/-- From `w` to `w'` only modules of `Z` were touched. -/
structure Confined (phase : Phase σ) (Z : Set ModuleId) (w w' : Walk σ) : Prop where
  graph : w'.registry.graph = w.registry.graph
  state : ∀ x ∉ Z, w'.registry.state x = w.registry.state x
  stack : ∃ new, w'.stack = new ++ w.stack ∧ ∀ x ∈ new, x ∈ Z
  opened : Opened phase w → Opened phase w'

theorem Confined.refl (w : Walk σ) : Confined phase Z w w where
  graph := rfl
  state _ _ := rfl
  stack := ⟨[], rfl, by simp⟩
  opened := id

/-- What stays within a set twice stays within it. -/
theorem Confined.trans (h : Confined phase Z w w') (h' : Confined phase Z w' w'') :
    Confined phase Z w w'' where
  graph := h'.graph.trans h.graph
  state x hx := (h'.state x hx).trans (h.state x hx)
  stack := by
    obtain ⟨new, hs, hnew⟩ := h.stack
    obtain ⟨new', hs', hnew'⟩ := h'.stack
    refine ⟨new' ++ new, by rw [hs', hs, List.append_assoc], fun x hx => ?_⟩
    exact (List.mem_append.1 hx).elim (hnew' x) (hnew x)
  opened ho := h'.opened (h.opened ho)

/-- A module that is entered is open. -/
theorem Opened.enter (law : phase.Lawful k) (h : Opened phase w)
    (ha : phase.arrival (w.registry.state m) = .enter) : Opened phase (w.enter phase.active m) := by
  intro x hx
  by_cases hxm : x = m
  · subst hxm
    exact state_enter_self (lt_length_of_enter law ha)
  · rw [state_enter_of_ne hxm]
    exact h x ((List.mem_cons.1 hx).resolve_left hxm)

/-- Entering a module of the set stays within it. -/
theorem confined_enter (law : phase.Lawful k) (ha : phase.arrival (w.registry.state m) = .enter)
    (hm : m ∈ Z) : Confined phase Z w (w.enter phase.active m) where
  graph := rfl
  state x hx := state_enter_of_ne fun e => hx (e ▸ hm)
  stack := ⟨[m], rfl, by simpa using hm⟩
  opened ho := ho.enter law ha

/-- Inheriting closes nothing. -/
theorem Opened.inherit (h : Opened phase w) : Opened phase (w.inherit a m d) := by
  intro x hx
  rw [state_inherit]
  exact h x (by simpa using hx)

/-- Inheriting touches no state. -/
theorem confined_inherit : Confined phase Z w (w.inherit a m d) where
  graph := graph_inherit
  state _ _ := state_inherit
  stack := ⟨[], by simp, by simp⟩
  opened ho := ho.inherit

/-- The body of a module closes nothing. -/
theorem Opened.body (law : phase.Lawful k) (h : Opened phase w) :
    Opened phase { w with registry := (phase.body m w.registry).1 } := fun x hx =>
  ((law.alike m w.registry).state x).trans (h x hx)

/-- The body of a module touches no other one. -/
theorem Confined.body (law : phase.Lawful k) (h : Confined phase Z w w') :
    Confined phase Z w { w' with registry := (phase.body m w'.registry).1 } where
  graph := (law.alike m w'.registry).graph.trans h.graph
  state x hx := ((law.alike m w'.registry).state x).trans (h.state x hx)
  stack := h.stack
  opened ho := (h.opened ho).body law

section Close
variable {new : List ModuleId}

/-- Closing a module takes along only what was opened since it was entered. -/
theorem Opened.close (law : phase.Lawful k) (ho : Opened phase w) (h : Opened phase w')
    (hs : w'.stack = new ++ m :: w.stack) (hm : m ∉ new)
    (hnew : ∀ x ∈ new ++ [m], phase.arrival (w.registry.state x) = .enter) :
    Opened phase (w'.close phase.done m) := by
  by_cases hc : w'.registry.ancestor m = w'.registry.index m
  · rw [close_of_eq hs hm hc]
    intro x hx
    have hx' : x ∉ new ++ [m] := by
      intro hmem
      have := hnew x hmem
      rw [ho x hx, law.arrival_active] at this
      cases this
    refine (Registry.state_moveAll_of_notMem hx').trans (h x ?_)
    rw [hs]
    exact List.mem_append_right _ (List.mem_cons_of_mem _ hx)
  · rwa [close_of_ne hc]

/-- Closing a component of the set stays within it. -/
theorem Confined.close (law : phase.Lawful k) (ha : phase.arrival (w.registry.state m) = .enter)
    (hmZ : m ∈ Z) (h : Confined phase Z (w.enter phase.active m) w')
    (hs : w'.stack = new ++ m :: w.stack) (hm : m ∉ new)
    (hnew : ∀ x ∈ new ++ [m], phase.arrival (w.registry.state x) = .enter) :
    Confined phase Z w (w'.close phase.done m) := by
  have all := (confined_enter law ha hmZ).trans h
  have opened : Opened phase w → Opened phase (w'.close phase.done m) := fun ho =>
    ho.close law (all.opened ho) hs hm hnew
  by_cases hc : w'.registry.ancestor m = w'.registry.index m
  · obtain ⟨new', hs', hZ⟩ := h.stack
    obtain rfl : new = new' := List.append_cancel_right (hs.symm.trans hs')
    rw [close_of_eq hs hm hc] at opened ⊢
    refine ⟨Registry.graph_moveAll.trans all.graph, fun x hx => ?_, ⟨[], rfl, by simp⟩, opened⟩
    have hx' : x ∉ new ++ [m] := fun hmem =>
      hx ((List.mem_append.1 hmem).elim (hZ x) fun e => List.mem_singleton.1 e ▸ hmZ)
    exact (Registry.state_moveAll_of_notMem hx').trans (all.state x hx)
  · rwa [close_of_ne hc]

end Close

/-- **A visit of a module in a closed set stays within that set.** -/
theorem visit_confined (law : phase.Lawful k) (fuel : Nat) (m : ModuleId) (w : Walk σ)
    (hZ : w.registry.graph.ClosedUnder Z) (hm : m ∈ Z) :
    Confined phase Z w (visit phase fuel m w).1 := by
  induction fuel generalizing m w with
  | zero => exact .refl w
  | succ fuel ih =>
      -- what is visited below a module that is entered stays within the set
      have inside : phase.arrival (w.registry.state m) = .enter →
          Confined phase Z (w.enter phase.active m)
            (visitAll (visit phase fuel) phase.active m (w.registry.graph.deps m)
              (w.enter phase.active m)).1 := by
        intro ha
        have visited : ∀ {d w₁}, d ∈ w.registry.graph.deps m →
            Confined phase Z (w.enter phase.active m) w₁ →
            Confined phase Z (w.enter phase.active m) (visit phase fuel d w₁).1 := by
          intro d w₁ hd h₁
          exact h₁.trans (ih d w₁ (h₁.graph ▸ hZ) (hZ m hm d hd))
        obtain ⟨hok, herr⟩ := visitAll_induct (visit phase fuel) phase.active m
          (fun _ => Confined phase Z (w.enter phase.active m)) (.refl _)
          (fun {_ d w₁ w₂} hd h₁ hv => by
            have h₂ := visited hd h₁
            rw [hv] at h₂
            exact h₂.trans confined_inherit)
        rcases hr : visitAll (visit phase fuel) phase.active m (w.registry.graph.deps m)
          (w.enter phase.active m) with ⟨w', s | u⟩
        · obtain ⟨d, hd, -, w₁, h₁, hv⟩ := herr hr
          have h₂ := visited hd h₁
          rwa [hv] at h₂
        · exact hok hr
      have ext := visitAll_extends (m := m) law (visit_extends law fuel) (w.registry.graph.deps m)
        (w.enter phase.active m)
      rcases hr : visit phase (fuel + 1) m w with ⟨w', res⟩
      cases visit_ends hr with
      | passed => exact .refl w
      | failed => exact .refl w
      | misused => exact .refl w
      | stopped ha hv =>
          have h := inside ha
          rw [hv] at h
          exact (confined_enter law ha hm).trans h
      | @threw w₁ r e ha hv hb =>
          have h := (inside ha).body law (m := m)
          rw [hv, hb] at h
          exact (confined_enter law ha hm).trans h
      | @closed w₁ r ha hv hb =>
          have h := (inside ha).body law (m := m)
          rw [hv] at h ext
          rw [hb] at h
          obtain ⟨new, hs, hmn, hnew⟩ := ext.stack_of_enter law ha
          exact h.close law ha hm hs hmn hnew

/-! ### A walk that repeats another one -/

/-- `w'` is as far as `w`, but passes over the modules of `Z`, which import from `Z` only. -/
structure Repeats (phase : Phase σ) (Z : Set ModuleId) (w w' : Walk σ) : Prop where
  graph : w'.registry.graph = w.registry.graph
  closed : w.registry.graph.ClosedUnder Z
  same : ∀ x ∉ Z, phase.arrival (w'.registry.state x) = phase.arrival (w.registry.state x)
  passed : ∀ x ∈ Z, phase.arrival (w'.registry.state x) = .pass
  opened : Opened phase w
  opened' : Opened phase w'

/-- A module outside is entered in both walks. -/
theorem Repeats.enter (law : phase.Lawful k) (h : Repeats phase Z w w') (hm : m ∉ Z)
    (ha : phase.arrival (w.registry.state m) = .enter) :
    Repeats phase Z (w.enter phase.active m) (w'.enter phase.active m) := by
  have ha' : phase.arrival (w'.registry.state m) = .enter := (h.same m hm).trans ha
  refine ⟨h.graph, h.closed, fun x hx => ?_, fun x hx => ?_, h.opened.enter law ha,
    h.opened'.enter law ha'⟩
  · by_cases hxm : x = m
    · subst hxm
      rw [state_enter_self (lt_length_of_enter law ha), state_enter_self (lt_length_of_enter law ha')]
    · rw [state_enter_of_ne hxm, state_enter_of_ne hxm]
      exact h.same x hx
  · have hxm : x ≠ m := by
      rintro rfl
      exact hm hx
    rw [state_enter_of_ne hxm]
    exact h.passed x hx

/-- Inheriting happens in both walks, or shows in neither. -/
theorem Repeats.inherit (h : Repeats phase Z w w') :
    Repeats phase Z (w.inherit a m d) (w'.inherit a m d) where
  graph := by simpa using h.graph
  closed := by simpa using h.closed
  same := by simpa using h.same
  passed := by simpa using h.passed
  opened := h.opened.inherit
  opened' := h.opened'.inherit

/-- A body runs in both walks. -/
theorem Repeats.body (law : phase.Lawful k) (h : Repeats phase Z w w') :
    Repeats phase Z { w with registry := (phase.body m w.registry).1 }
      { w' with registry := (phase.body m w'.registry).1 } := by
  have alike := law.alike m w.registry
  have alike' := law.alike m w'.registry
  exact
    { graph := alike'.graph.trans (h.graph.trans alike.graph.symm)
      closed := by simpa only [alike.graph] using h.closed
      same := by simpa only [alike.state, alike'.state] using h.same
      passed := by simpa only [alike'.state] using h.passed
      opened := h.opened.body law
      opened' := h.opened'.body law }

/-- Closing a module changes nothing for a walk that comes to the modules it takes along: they were
passed before. -/
theorem arrival_close (law : phase.Lawful k) (h : Opened phase w) (hm : m ∈ w.stack) :
    phase.arrival ((w.close phase.done m).registry.state x) =
      phase.arrival (w.registry.state x) := by
  simp only [Walk.close]
  split
  · by_cases hx : x ∈ w.stack.takeWhile (· ≠ m) ++ [m]
    · have hopen : w.registry.state x = phase.active := by
        refine h x ?_
        rcases List.mem_append.1 hx with hx | hx
        · exact (List.takeWhile_prefix _).mem hx
        · exact List.mem_singleton.1 hx ▸ hm
      have hlt : x < w.registry.progress.length := by
        refine Registry.lt_length_of_state_ne_new fun hn => ?_
        have := law.arrival_active
        rw [← hopen, hn, law.arrival_new] at this
        cases this
      have closed : (w.registry.moveAll (w.stack.takeWhile (· ≠ m) ++ [m]) phase.done).state x =
          phase.done := Registry.state_moveAll_of_mem hx hlt
      exact (congrArg phase.arrival closed).trans
        (by rw [hopen, law.arrival_done, law.arrival_active])
    · exact congrArg phase.arrival (Registry.state_moveAll_of_notMem hx)
  · rfl

/-- What stays within `Z` need not be repeated. -/
theorem Repeats.confined (h : Repeats phase Z w w') (c : Confined phase Z w w₁) :
    Repeats phase Z w₁ w' where
  graph := h.graph.trans c.graph.symm
  closed := c.graph ▸ h.closed
  same x hx := (h.same x hx).trans (congrArg phase.arrival (c.state x hx).symm)
  passed := h.passed
  opened := c.opened h.opened
  opened' := h.opened'

/-- A component is closed in both walks. -/
theorem Repeats.close (law : phase.Lawful k) (h : Repeats phase Z w w') (hm : m ∈ w.stack)
    (hm' : m ∈ w'.stack) (opened : Opened phase (w.close phase.done m))
    (opened' : Opened phase (w'.close phase.done m)) :
    Repeats phase Z (w.close phase.done m) (w'.close phase.done m) where
  graph := by simpa using h.graph
  closed := by simpa using h.closed
  same x hx := by
    rw [arrival_close law h.opened hm, arrival_close law h.opened' hm']
    exact h.same x hx
  passed x hx := by
    rw [arrival_close law h.opened' hm']
    exact h.passed x hx
  opened := opened
  opened' := opened'

/-- Two walks that enter a module together also leave it together: each takes along only what it has
opened since then. -/
theorem Repeats.leave (law : phase.Lawful k) (rep : Repeats phase Z w w') (hm : m ∉ Z)
    (ha : phase.arrival (w.registry.state m) = .enter)
    (ext : Extends phase k (w.enter phase.active m) w₁)
    (ext' : Extends phase k (w'.enter phase.active m) w'') (h : Repeats phase Z w₁ w'') :
    Repeats phase Z
      (({ w₁ with registry := (phase.body m w₁.registry).1 } : Walk σ).close phase.done m)
      (({ w'' with registry := (phase.body m w''.registry).1 } : Walk σ).close phase.done m) := by
  have ha' : phase.arrival (w'.registry.state m) = .enter := (rep.same m hm).trans ha
  have bodies := h.body law (m := m)
  obtain ⟨new, hs, hmn, hnew⟩ := ext.stack_of_enter law ha
  obtain ⟨new', hs', hmn', hnew'⟩ := ext'.stack_of_enter law ha'
  exact bodies.close law (ext.mem_stack List.mem_cons_self) (ext'.mem_stack List.mem_cons_self)
    (rep.opened.close law bodies.opened hs hmn hnew)
    (rep.opened'.close law bodies.opened' hs' hmn' hnew')

end Walk

/-! ### A link that repeats another one -/

namespace Registry

variable {σ : Type} {host : Host σ} {r r' : Registry σ} {m : ModuleId} {e : ModuleError}

/-- If the host can instantiate every module, linking fails only where an import does not resolve. -/
theorem linkError?_of_body (hinst : ∀ g m world, (host.instantiate g m world).2 = .ok ())
    (h : (linkPhase host).body m r = (r', .error e)) :
    ∃ e', r.graph.linkError? m = some e' ∧ e = .link e' := by
  cases he : r.graph.linkError? m with
  | some e' =>
      rw [linkPhase_body_of_some he] at h
      cases h
      exact ⟨e', rfl, rfl⟩
  | none =>
      rw [linkPhase_body_of_none he] at h
      obtain ⟨world, hi⟩ := instantiate_error h
      cases (hinst r.graph m world).symm.trans hi

/-- The host passes over a module that it has instantiated before. -/
theorem linkPhase_body_again (hb : (linkPhase host).body m r = (r', .ok ())) {r'' : Registry σ}
    (hg : r''.graph = r.graph) (flag : r''.isInstantiated m = true) :
    (linkPhase host).body m r'' = (r'', .ok ()) := by
  rw [linkPhase_body_of_none (hg ▸ linkError?_of_body_ok hb), instantiate_of_true flag]

end Registry

namespace Walk

variable {σ : Type} {host : Host σ} {Z : Set ModuleId} {w w' w₁ : Walk σ} {m x : ModuleId}
  {fuel : Nat} {res : Except Stop Unit}

/-- A visit takes no mark away. -/
theorem isInstantiated_visit (host : Host σ) (fuel : Nat) (m : ModuleId)
    (h : w.registry.isInstantiated x = true) :
    (visit (Registry.linkPhase host) fuel m w).1.registry.isInstantiated x = true :=
  visit_keeps (P := fun r => r.isInstantiated x = true)
    (fun _ _ _ h => Registry.isInstantiated_move.trans h)
    (fun _ _ hf h => (Registry.isInstantiated_update fun p => (hf p).2).trans h)
    (fun m _ _ h => Registry.isInstantiated_linkPhase_body host m h) fuel m w h

theorem isInstantiated_visitAll (host : Host σ) (fuel : Nat) (m : ModuleId) (ds : List ModuleId)
    (h : w.registry.isInstantiated x = true) :
    (visitAll (visit (Registry.linkPhase host) fuel) (Registry.linkPhase host).active m ds
      w).1.registry.isInstantiated x = true :=
  visitAll_keeps (P := fun r => r.isInstantiated x = true)
    (fun _ _ hf h => (Registry.isInstantiated_update fun p => (hf p).2).trans h)
    (fun d _ h => isInstantiated_visit host fuel d h) ds w h

/-- Where the visit `v` ends in some way, and everything that it instantiates is instantiated by now,
the visit that repeats it ends in the same way and asks the host for nothing.  A module that is still
open after an error must not be one that is passed over. -/
def Again (host : Host σ) (Z : Set ModuleId) (v : Walk σ → Walk σ × Except Stop Unit) : Prop :=
  ∀ ⦃w w' w₁ res⦄, v w = (w₁, res) → res ≠ .error .misuse →
    Repeats (Registry.linkPhase host) Z w w' → (res ≠ .ok () → ∀ x ∈ w₁.stack, x ∉ Z) →
    (∀ x, w₁.registry.isInstantiated x = true → w'.registry.isInstantiated x = true) →
    ∃ w₁', v w' = (w₁', res) ∧
      w₁'.registry.calls .instantiate = w'.registry.calls .instantiate ∧
      (res = .ok () → Repeats (Registry.linkPhase host) Z w₁ w₁')

/-- The visits of dependencies are repeated if each of them is. -/
theorem again_visitAll (hv : ∀ d, Again host Z (visit (Registry.linkPhase host) fuel d))
    (m : ModuleId) (ds : List ModuleId) :
    Again host Z
      (visitAll (visit (Registry.linkPhase host) fuel) (Registry.linkPhase host).active m ds) := by
  induction ds with
  | nil =>
      intro w w' w₁ res h _ rep _ _
      cases h
      exact ⟨w', rfl, rfl, fun _ => rep⟩
  | cons d ds ih =>
      intro w w' w₁ res h hne rep hopen marked
      rcases hd : visit (Registry.linkPhase host) fuel d w with ⟨w₂, s | u⟩ <;>
        simp only [visitAll, hd] at h
      · cases h
        obtain ⟨w₂', h₂', calls, -⟩ := hv d hd hne rep hopen marked
        exact ⟨w₂', by simp only [visitAll, h₂'], calls, fun e => by cases e⟩
      · -- what the first dependency instantiates is instantiated at the end
        have marked₂ : ∀ x, w₂.registry.isInstantiated x = true →
            w'.registry.isInstantiated x = true := by
          intro x hx
          have all := isInstantiated_visitAll host fuel m ds
            (isInstantiated_inherit (a := (Registry.linkPhase host).active) (m := m) (d := d)
              |>.trans hx)
          rw [h] at all
          exact marked x all
        obtain ⟨w₂', h₂', calls₂, rep₂⟩ := hv d hd (by simp) rep (fun e => absurd rfl e) marked₂
        obtain ⟨w₃, h₃, calls₃, rep₃⟩ := ih h hne (rep₂ rfl).inherit hopen fun x hx => by
          rw [isInstantiated_inherit]
          have kept := isInstantiated_visit host fuel d (marked x hx)
          rwa [h₂'] at kept
        refine ⟨w₃, by simp only [visitAll, h₂', h₃], ?_, rep₃⟩
        rw [calls₃, calls_inherit, calls₂]

/-- The walk that repeats passes over a module of `Z`, and the first visit of it has stayed within
`Z`; this visit has not failed, since what it had left open would be in `Z` as well. -/
theorem again_of_mem (hm : m ∈ Z) :
    Again host Z (visit (Registry.linkPhase host) (fuel + 1) m) := by
  have law := Registry.linkPhase_lawful host
  intro w w' w₁ res h hne rep hopen _
  have pass : visit (Registry.linkPhase host) (fuel + 1) m w' = (w', .ok ()) := by
    simp only [visit, rep.passed m hm]
  have confined := visit_confined law (fuel + 1) m w rep.closed hm
  have ext := visitAll_extends (m := m) law (visit_extends law fuel) (w.registry.graph.deps m)
    (w.enter (Registry.linkPhase host).active m)
  rw [h] at confined
  cases visit_ends h with
  | passed => exact ⟨w', pass, rfl, fun _ => rep⟩
  | closed => exact ⟨w', pass, rfl, fun _ => rep.confined confined⟩
  | failed ha => exact absurd ha Registry.linkPhase_ne_fail
  | misused => exact absurd rfl hne
  | stopped _ hv | threw _ hv =>
      rw [hv] at ext
      exact absurd hm (hopen (by simp) m (ext.mem_stack List.mem_cons_self))

/-- What the dependencies of a module have instantiated is instantiated at the end: running the body
of the module takes nothing back. -/
theorem isInstantiated_enter_of_body {r r' : Registry σ} {res : Except ModuleError Unit}
    (hb : (Registry.linkPhase host).body m r = (r', res))
    (marked : ∀ x, r'.isInstantiated x = true → w.registry.isInstantiated x = true)
    (hx : r.isInstantiated x = true) :
    (w.enter (Registry.linkPhase host).active m).registry.isInstantiated x = true := by
  have kept := Registry.isInstantiated_linkPhase_body host m hx
  rw [hb] at kept
  rw [isInstantiated_enter]
  exact marked x kept

/-- A visit is repeated, where instantiating always succeeds. -/
theorem again_visit (hinst : ∀ g m world, (host.instantiate g m world).2 = .ok ()) (fuel : Nat)
    (m : ModuleId) : Again host Z (visit (Registry.linkPhase host) fuel m) := by
  have law := Registry.linkPhase_lawful host
  induction fuel generalizing m with
  | zero =>
      intro w w' w₁ res h hne _ _ _
      cases h
      exact absurd rfl hne
  | succ fuel ih =>
      by_cases hm : m ∈ Z
      · exact again_of_mem hm
      -- both walks enter the module, so that they are compared where it ends
      intro w w' w₁ res h hne rep hopen marked
      have inside := again_visitAll (Z := Z) ih m (w.registry.graph.deps m)
      have repEnter := fun ha => rep.enter law hm ha
      have arrival := rep.same m hm
      cases visit_ends h with
      | passed ha => exact ⟨w', by simp only [visit, arrival, ha], rfl, fun _ => rep⟩
      | failed ha => exact absurd ha Registry.linkPhase_ne_fail
      | misused => exact absurd rfl hne
      | stopped ha hv =>
          obtain ⟨w₂', h₂', calls, -⟩ := inside hv hne (repEnter ha) hopen fun x hx => by
            rw [isInstantiated_enter]
            exact marked x hx
          refine ⟨w₂', by simp only [visit, arrival, ha, rep.graph, h₂'], ?_, fun e => by cases e⟩
          exact calls.trans (calls_enter _)
      | @threw w₂ r e ha hv hb =>
          obtain ⟨w₂', h₂', calls, rep₂⟩ := inside hv (by simp) (repEnter ha)
            (fun e => absurd rfl e) fun x hx => isInstantiated_enter_of_body hb marked hx
          -- the error of the body is an import that does not resolve, here and there
          obtain ⟨e', he', rfl⟩ := Registry.linkError?_of_body hinst hb
          have hb' : (Registry.linkPhase host).body m w₂'.registry =
              (w₂'.registry, .error (.link e')) :=
            Registry.linkPhase_body_of_some ((rep₂ rfl).graph ▸ he')
          refine ⟨w₂', by simp only [visit, arrival, ha, rep.graph, h₂', hb'], ?_,
            fun e => by cases e⟩
          exact calls.trans (calls_enter _)
      | @closed w₂ r ha hv hb =>
          have markedBody : ∀ x, r.isInstantiated x = true → w'.registry.isInstantiated x = true :=
            fun x hx => marked x (isInstantiated_close.trans hx)
          obtain ⟨w₂', h₂', calls, rep₂⟩ := inside hv (by simp) (repEnter ha)
            (fun e => absurd rfl e) fun x hx => isInstantiated_enter_of_body hb markedBody hx
          have ext := visitAll_extends (m := m) law (visit_extends law fuel)
            (w.registry.graph.deps m) (w.enter (Registry.linkPhase host).active m)
          have ext' := visitAll_extends (m := m) law (visit_extends law fuel)
            (w.registry.graph.deps m) (w'.enter (Registry.linkPhase host).active m)
          rw [hv] at ext
          rw [h₂'] at ext'
          -- the module was instantiated by the first visit, and is passed over by the host now
          have flag : w₂'.registry.isInstantiated m = true := by
            have hlt : m < w₂.registry.progress.length :=
              ext.length ▸ length_enter.symm ▸ lt_length_of_enter law ha
            have done := Registry.isInstantiated_of_linkPhase_body hlt (congrArg Prod.snd hb)
            rw [hb] at done
            have kept := isInstantiated_visitAll host fuel m (w.registry.graph.deps m)
              (isInstantiated_enter (a := (Registry.linkPhase host).active) (m := m)
                |>.trans (markedBody m done))
            rwa [h₂'] at kept
          have hb' := Registry.linkPhase_body_again hb (rep₂ rfl).graph flag
          have left := rep.leave law hm ha ext ext' (rep₂ rfl)
          rw [hb, hb'] at left
          refine ⟨w₂'.close (Registry.linkPhase host).done m,
            by simp only [visit, arrival, ha, rep.graph, h₂', hb'], ?_, fun _ => left⟩
          rw [calls_close, calls, calls_enter]

end Walk

namespace Registry

variable {σ : Type} {host : Host σ} {r : Registry σ} {root : ModuleId} {e : ModuleError}

/-- A link that ends with an error takes back what it left open. -/
theorem link_of_error {w : Walk σ} (h : Walk.run (linkPhase host) r root = (w, .error (.error e))) :
    r.link host root = (w.registry.moveAll w.stack.reverse .unlinked, .error (.error e)) := by
  simp only [link, h]

/-- The error of a link is that of its walk. -/
theorem run_of_link_error (h : (r.link host root).2 = .error (.error e)) :
    ∃ w, Walk.run (linkPhase host) r root = (w, .error (.error e)) := by
  rcases hr : Walk.run (linkPhase host) r root with ⟨w, (e' | -) | u⟩ <;>
    simp only [link, hr] at h <;> cases h
  exact ⟨w, rfl⟩

/-- **A link that has failed fails again**, with the same error and without asking the host. -/
theorem AtRest.link_again (h : r.AtRest host)
    (hinst : ∀ g m world, (host.instantiate g m world).2 = .ok ())
    (he : (r.link host root).2 = .error (.error e)) :
    ((r.link host root).1.link host root).2 = .error (.error e) ∧
      ((r.link host root).1.link host root).1.calls .instantiate =
        (r.link host root).1.calls .instantiate := by
  have law := linkPhase_lawful host
  have rest' := h.link root
  have state := h.link_state (h.admits (.link root))
  have graph := (h.link_swept (h.admits (.link root))).graph
  obtain ⟨w, hr⟩ := run_of_link_error he
  have broken := Walk.run_error law h.linking hr
  rw [link_of_error hr] at rest' state graph ⊢
  generalize hr' : w.registry.moveAll w.stack.reverse .unlinked = r' at rest' state graph ⊢
  -- the second walk passes over the modules that are linked by now
  let Z : Set ModuleId := { x | (r'.state x).isLinked = true }
  have passed : ∀ x ∈ Z, (linkPhase host).arrival (r'.state x) = .pass := fun x hx =>
    (linkPhase_settled_iff.2 (.inl hx)).1
  have rep : Walk.Repeats (linkPhase host) Z { registry := r } { registry := r' } :=
    { graph := graph
      closed := fun x hx d hd => rest'.isLinked_dep hx (graph ▸ hd)
      same := fun x hx => by
        rcases state x with e | ⟨-, e⟩
        · exact congrArg _ e
        · exact absurd (by rw [Set.mem_ofPred_eq, e]; rfl) hx
      passed := passed
      opened := fun x hx => nomatch hx
      opened' := fun x hx => nomatch hx }
  have hopen : ∀ x ∈ w.stack, x ∉ Z := by
    intro x hx hZ
    have unlinked := broken.sound.state_moveAll law hx (s := .unlinked)
    rw [hr'] at unlinked
    rw [Set.mem_ofPred_eq, unlinked] at hZ
    cases hZ
  have marked : ∀ x, w.registry.isInstantiated x = true → r'.isInstantiated x = true := by
    intro x hx
    rwa [← hr', isInstantiated_moveAll]
  obtain ⟨w', hw', calls, -⟩ :=
    Walk.again_visit hinst (r.size + 2) root hr (by simp) rep (fun _ => hopen) marked
  have hrun : Walk.run (linkPhase host) r' root = (w', .error (.error e)) := by
    rw [Walk.run, size, graph]
    exact hw'
  rw [link_of_error hrun]
  exact ⟨rfl, (calls_moveAll _).trans calls⟩

/-- Module `1` asks module `2` for a name that it does not export, and is imported by module `0`, which
it imports in turn. -/
def mismatch : Registry Unit where
  graph :=
    [{ path := [97], deps := [1] },
      { path := [98]
        deps := [2, 0]
        compiled := some
          { source := { contents := [] }
            code := []
            interface :=
              { records := [{ path := [99], range := {} }, { path := [97], range := {} }]
                namedImports := [{ importName := [120], localName := [120], start := 0, record := 0 }] } } },
      { path := [99] }]
  progress := List.replicate 3 { state := .unlinked }
  world := ()

theorem mismatch_attached : mismatch.Attached where
  length := rfl
  deps := by decide
  fresh := by decide
  calls k := by cases k <;> rfl
  attached := by decide

/-- What is wrong with module `1`. -/
def mismatchError : ModuleError :=
  .link
    { importer := [98]
      specifier := [99]
      name := [120]
      ambiguous := false
      location := some { file := [], line := 1, column := 0, length := 0, lineText := [] } }

/-- **A link that has failed fails again.**  After a link that came upon an error, a module is as it
was before, or it is linked now together with everything it reaches.  The same link made at once again
comes upon the same error, and asks the host to instantiate no module. -/
theorem failed_link_again (host : Host σ)
    (hinst : ∀ g m world, (host.instantiate g m world).2 = .ok ()) {r₀ : Registry σ}
    (h : r₀.Attached) (requests : List Request) (root : ModuleId) (e : ModuleError)
    (he : ((r₀.after host requests).link host root).2 = .error (.error e)) :
    let r := r₀.after host requests
    let r' := (r.link host root).1
    (∀ m, r'.state m = r.state m ∨
      r.state m = .unlinked ∧ r'.state m = .linked ∧
        ∀ d, r₀.graph.Reaches m d → (r'.state d).isLinked = true) ∧
    (r'.link host root).2 = .error (.error e) ∧
    (r'.link host root).1.calls .instantiate = r'.calls .instantiate := by
  intro r r'
  have rest : r.AtRest host := (h.atRest host).after requests
  have graph : r'.graph = r₀.graph :=
    (rest.link_swept (rest.admits (.link root))).graph.trans ((h.atRest host).graph_after requests)
  refine ⟨fun m => ?_, rest.link_again hinst he⟩
  refine (rest.link_state (rest.admits (.link root)) m).imp_right fun ⟨before, now⟩ => ⟨before, now, fun d hd => ?_⟩
  exact (rest.link root).isLinked_of_reaches (graph ▸ hd) (by rw [now]; rfl)

/-- Linking `1` links `2` and has `0` instantiated before it fails; the second time it does neither. -/
theorem failed_link_again_mismatch :
    (mismatch.link (throwing 2) 1).2 = .error (.error mismatchError) ∧
    (mismatch.link (throwing 2) 1).1.calls .instantiate = [2, 0] ∧
    ((mismatch.link (throwing 2) 1).1.link (throwing 2) 1).2 = .error (.error mismatchError) ∧
    ((mismatch.link (throwing 2) 1).1.link (throwing 2) 1).1.calls .instantiate = [2, 0] := by
  have he : (mismatch.link (throwing 2) 1).2 = .error (.error mismatchError) := by decide +kernel
  have hc : (mismatch.link (throwing 2) 1).1.calls .instantiate = [2, 0] := by decide +kernel
  obtain ⟨-, again, calls⟩ :=
    failed_link_again (throwing 2) (fun _ _ _ => rfl) mismatch_attached [] 1 mismatchError he
  exact ⟨he, hc, again, calls.trans hc⟩

end Registry

end ModuleSystem
