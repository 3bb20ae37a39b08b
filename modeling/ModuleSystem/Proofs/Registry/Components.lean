import ModuleSystem.Proofs.Registry.Frame

/-!
# Registry — a walk closes components

The walk numbers the modules in the order in which it enters them, and each open module knows a
number that it reaches.  Three facts make this work, and `Walk.Sound` holds them at every moment:

* the number that a module knows is the number of an open module that it reaches (`low`);
* a module that is closed imports from closed modules only (`settled`);
* the host was asked for every closed module, and whenever it was asked for a module, it had been
  asked for what that module imports from, or the two import each other (`called`, `order`).

`Walk.Inside` is the invariant of the loop over the dependencies of one module, `Walk.Visited` what a
visit that ends well leaves behind, and `Walk.Broken` what an error leaves behind: every module that
is still open reaches the one that failed.  `visit_sound` proves the two by one induction.
-/

namespace ModuleSystem

/-- A state in which a walk is through with a module. -/
def Phase.Settled {σ : Type} (phase : Phase σ) (s : ModuleState) : Prop :=
  phase.arrival s = .pass ∧ s ≠ phase.active

/-- A module that is settled is not entered again. -/
theorem Phase.Settled.not_enter {σ : Type} {phase : Phase σ} {s : ModuleState}
    (h : phase.Settled s) : phase.arrival s ≠ .enter := by
  rw [h.1]
  simp

/-- Whenever a module is called, what it imports from has been called before, unless it imports from
that module in turn. -/
def Graph.DependenciesFirst (g : Graph) (calls : List ModuleId) : Prop :=
  ∀ before m after, calls = before ++ m :: after → ∀ d ∈ g.deps m, d ∈ before ∨ g.Reaches d m

theorem Graph.DependenciesFirst.nil (g : Graph) : g.DependenciesFirst [] := by
  intro before m after h
  simp at h

/-- A call may come last if the dependencies were called before, or reach back. -/
theorem Graph.DependenciesFirst.append_singleton {g : Graph} {calls : List ModuleId} {m : ModuleId}
    (h : g.DependenciesFirst calls) (hm : ∀ d ∈ g.deps m, d ∈ calls ∨ g.Reaches d m) :
    g.DependenciesFirst (calls ++ [m]) := by
  intro before x after e
  -- the call looked at is the new one, or one of `calls`
  rcases List.append_eq_append_iff.1 e with ⟨mid, rfl, e'⟩ | ⟨mid, rfl, e'⟩
  · cases mid with
    | nil =>
        cases e'
        simpa using hm
    | cons y ys => simp at e'
  · cases mid with
    | nil =>
        cases e'
        simpa using hm
    | cons y ys =>
        cases e'
        exact h before x ys rfl

namespace Walk

variable {σ : Type}

/-- What holds of a walk at every moment. -/
structure Sound (phase : Phase σ) (k : Service) (w : Walk σ) : Prop where
  sorted : w.stack.Pairwise fun x y => w.registry.index y < w.registry.index x
  below : ∀ x ∈ w.stack, w.registry.index x < w.next
  active_iff : ∀ x, w.registry.state x = phase.active ↔ x ∈ w.stack
  low_le : ∀ x ∈ w.stack, w.registry.ancestor x ≤ w.registry.index x
  low : ∀ x ∈ w.stack, ∃ y ∈ w.stack, w.registry.ancestor x = w.registry.index y ∧
    w.registry.graph.Reaches x y
  settled : ∀ x, phase.Settled (w.registry.state x) →
    ∀ d ∈ w.registry.graph.deps x, phase.Settled (w.registry.state d)
  called : ∀ x, phase.Settled (w.registry.state x) → x ∈ w.registry.calls k
  order : w.registry.graph.DependenciesFirst (w.registry.calls k)
  once : w.registry.InstantiatesOnce

/-- A module whose dependencies have been visited and whose body has run, but that reaches an open
module entered before it: its number goes no higher than those of the open modules it imports from. -/
structure Finished (phase : Phase σ) (k : Service) (w : Walk σ) (x : ModuleId) : Prop where
  deps : ∀ d ∈ w.registry.graph.deps x, phase.Settled (w.registry.state d) ∨
    d ∈ w.stack ∧ w.registry.ancestor x ≤ w.registry.index d
  called : x ∈ w.registry.calls k
  lt : w.registry.ancestor x < w.registry.index x

/-- What a visit of `m` that ends well leaves behind: `m` is closed, or it is open like everything
that was entered since, and knows the lowest number of these. -/
structure Visited (phase : Phase σ) (k : Service) (m : ModuleId) (w w' : Walk σ) : Prop where
  sound : Sound phase k w'
  pass : phase.arrival (w'.registry.state m) = .pass
  left : ∀ x ∈ w'.stack, x ∉ w.stack → Finished phase k w' x ∧
    w'.registry.state m = phase.active ∧ w'.registry.ancestor m ≤ w'.registry.ancestor x

/-- What holds inside the visit of `p` that began at `w₀`, when the dependencies `seen` have been
visited. -/
structure Inside (phase : Phase σ) (k : Service) (p : ModuleId) (w₀ : Walk σ) (seen : List ModuleId)
    (w : Walk σ) : Prop where
  ext : Extends phase k (w₀.enter phase.active p) w
  sound : Sound phase k w
  seen : ∀ d ∈ seen, phase.Settled (w.registry.state d) ∨
    d ∈ w.stack ∧ w.registry.ancestor p ≤ w.registry.index d
  left : ∀ x ∈ w.stack, x ∉ w₀.stack → x ≠ p → Finished phase k w x ∧
    w.registry.ancestor p ≤ w.registry.ancestor x
  gather : ∀ x ∈ w.stack, w.registry.graph.Reaches x p

/-- What an error leaves behind: every open module reaches one that has failed before or whose body
has failed just now. -/
structure Broken (phase : Phase σ) (k : Service) (e : ModuleError) (w : Walk σ) : Prop where
  sound : Sound phase k w
  cause : ∃ f, (∀ x ∈ w.stack, w.registry.graph.Reaches x f) ∧
    (phase.arrival (w.registry.state f) = .fail e ∨
      ∃ r, phase.body f r = (w.registry, .error e))

variable {phase : Phase σ} {k : Service} {w w' w₀ : Walk σ} {m d p x : ModuleId}

/-! ### Small facts -/

/-- An open module is not entered again. -/
theorem Sound.not_enter (h : Sound phase k w) (law : phase.Lawful k) (hx : x ∈ w.stack) :
    phase.arrival (w.registry.state x) ≠ .enter := by
  rw [(h.active_iff x).2 hx, law.arrival_active]
  simp

/-- An open module is one of the graph. -/
theorem Sound.lt_length (h : Sound phase k w) (law : phase.Lawful k) (hx : x ∈ w.stack) :
    x < w.registry.progress.length := by
  refine Registry.lt_length_of_state_ne_new fun hn => ?_
  have hp := law.arrival_active
  rw [← (h.active_iff x).2 hx, hn, law.arrival_new] at hp
  cases hp

/-- What a walk passes is settled or open. -/
theorem Sound.settled_or_mem (h : Sound phase k w)
    (hx : phase.arrival (w.registry.state x) = .pass) :
    phase.Settled (w.registry.state x) ∨ x ∈ w.stack := by
  by_cases ha : w.registry.state x = phase.active
  · exact .inr ((h.active_iff x).1 ha)
  · exact .inl ⟨hx, ha⟩

/-- A module that is settled stays so. -/
theorem Extends.settled (h : Extends phase k w w') (hx : phase.Settled (w.registry.state x)) :
    phase.Settled (w'.registry.state x) := by
  rwa [h.state hx.not_enter]

/-- A module that is open stays open while the walk goes on. -/
theorem Extends.mem_stack (h : Extends phase k w w') (hx : x ∈ w.stack) : x ∈ w'.stack := by
  obtain ⟨new, hs, -⟩ := h.stack
  rw [hs]
  exact List.mem_append_right _ hx

/-- What the host was asked for it was asked for. -/
theorem Extends.mem_calls (h : Extends phase k w w') (hx : x ∈ w.registry.calls k) :
    x ∈ w'.registry.calls k := by
  obtain ⟨more, hc, -, -⟩ := h.calls
  rw [hc]
  exact List.mem_append_left _ hx

/-- A dependency that is settled, or open with a number not below a bound, stays so. -/
theorem Extends.dep (law : phase.Lawful k) (hw : Sound phase k w) (h : Extends phase k w w')
    {n n' : Nat} (hn : n' ≤ n)
    (hd : phase.Settled (w.registry.state d) ∨ d ∈ w.stack ∧ n ≤ w.registry.index d) :
    phase.Settled (w'.registry.state d) ∨ d ∈ w'.stack ∧ n' ≤ w'.registry.index d := by
  rcases hd with hd | ⟨hd, hle⟩
  · exact .inl (h.settled hd)
  · refine .inr ⟨h.mem_stack hd, ?_⟩
    rw [h.index (hw.not_enter law hd)]
    exact Nat.le_trans hn hle

/-- A module that is finished stays so as long as its lowest number stays. -/
theorem Finished.extends (law : phase.Lawful k) (hw : Sound phase k w) (h : Extends phase k w w')
    (hx : x ∈ w.stack) (hf : Finished phase k w x)
    (ha : w'.registry.ancestor x = w.registry.ancestor x) : Finished phase k w' x where
  deps d hd := h.dep law hw (Nat.le_of_eq ha) (hf.deps d (h.graph ▸ hd))
  called := h.mem_calls hf.called
  lt := by
    rw [ha, h.index (hw.not_enter law hx)]
    exact hf.lt

/-- **Every module that a visit leaves open reaches one that was open before.**  It knows the number
of an open module entered earlier; that one was open before, or does in turn. -/
theorem Visited.reaches (h : Visited phase k m w w') (hx : x ∈ w'.stack) :
    ∃ y ∈ w.stack, w'.registry.graph.Reaches x y := by
  -- by induction on the number of `x`, which is higher than the one that `x` knows
  induction hn : w'.registry.index x using Nat.strong_induction_on generalizing x with
  | _ n ih =>
      by_cases hold : x ∈ w.stack
      · exact ⟨x, hold, .refl x⟩
      · obtain ⟨y, hy, ey, hxy⟩ := h.sound.low x hx
        have hlt : w'.registry.index y < n := by
          rw [← ey, ← hn]
          exact (h.left x hx hold).1.lt
        obtain ⟨z, hz, hyz⟩ := ih _ hlt hy rfl
        exact ⟨z, hz, hxy.trans hyz⟩

/-! ### Each step of a walk is sound -/

/-- Entering a module keeps a walk sound. -/
theorem Sound.enter (law : phase.Lawful k) (h : Sound phase k w)
    (ha : phase.arrival (w.registry.state m) = .enter) : Sound phase k (w.enter phase.active m) := by
  have hm := lt_length_of_enter law ha
  have ne : ∀ {x}, x ∈ w.stack → x ≠ m := fun hx e => h.not_enter law hx (e ▸ ha)
  -- the module that is entered is not settled, so what is settled afterwards was settled before
  have settled : ∀ {x}, phase.Settled ((w.enter phase.active m).registry.state x) →
      x ≠ m ∧ phase.Settled (w.registry.state x) := by
    intro x hx
    have hxm : x ≠ m := by
      rintro rfl
      exact hx.2 (state_enter_self hm)
    rw [state_enter_of_ne hxm] at hx
    exact ⟨hxm, hx⟩
  exact
    { sorted := by
        refine List.pairwise_cons.2 ⟨fun x hx => ?_, h.sorted.imp_of_mem fun {x y} hx hy hxy => ?_⟩
        · rw [index_enter_of_ne (ne hx), index_enter_self hm]
          exact h.below x hx
        · rwa [index_enter_of_ne (ne hx), index_enter_of_ne (ne hy)]
      below := by
        intro x hx
        rcases List.mem_cons.1 hx with rfl | hx
        · rw [index_enter_self hm]
          exact Nat.lt_succ_self _
        · rw [index_enter_of_ne (ne hx)]
          exact Nat.lt_succ_of_lt (h.below x hx)
      active_iff := by
        intro x
        by_cases hxm : x = m
        · subst hxm
          simp [state_enter_self hm]
        · rw [state_enter_of_ne hxm, h.active_iff x]
          simp [hxm]
      low_le := by
        intro x hx
        rcases List.mem_cons.1 hx with rfl | hx
        · rw [index_enter_self hm, ancestor_enter_self hm]
        · rw [index_enter_of_ne (ne hx), ancestor_enter_of_ne (ne hx)]
          exact h.low_le x hx
      low := by
        intro x hx
        rcases List.mem_cons.1 hx with rfl | hx
        · exact ⟨x, hx, by rw [index_enter_self hm, ancestor_enter_self hm], .refl x⟩
        · obtain ⟨y, hy, e, hxy⟩ := h.low x hx
          refine ⟨y, List.mem_cons_of_mem _ hy, ?_, hxy⟩
          rw [ancestor_enter_of_ne (ne hx), index_enter_of_ne (ne hy), e]
      settled := by
        intro x hx d hd
        have hs := h.settled x (settled hx).2 d hd
        have hdm : d ≠ m := fun e => hs.not_enter (e ▸ ha)
        rwa [state_enter_of_ne hdm]
      called := fun x hx => by
        rw [calls_enter]
        exact h.called x (settled hx).2
      order := by
        rw [calls_enter]
        exact h.order
      once := h.once.congr (by simp) (by simp) }

/-- Inheriting from a dependency keeps a walk sound. -/
theorem Sound.inherit (law : phase.Lawful k) (h : Sound phase k w) (hp : p ∈ w.stack)
    (hd : d ∈ w.registry.graph.deps p) : Sound phase k (w.inherit phase.active p d) := by
  have self := ancestor_inherit_self (a := phase.active) (d := d) (h.lt_length law hp)
  exact
    { sorted := by simpa using h.sorted
      below := by simpa using h.below
      active_iff := by simpa using h.active_iff
      low_le := by
        intro x hx
        rw [stack_inherit] at hx
        rw [index_inherit]
        by_cases hxp : x = p
        · subst hxp
          rw [self]
          split
          · exact Nat.le_trans (Nat.min_le_left _ _) (h.low_le x hx)
          · exact h.low_le x hx
        · rw [ancestor_inherit_of_ne hxp]
          exact h.low_le x hx
      low := by
        intro x hx
        simp only [stack_inherit, index_inherit, graph_inherit] at hx ⊢
        by_cases hxp : x = p
        · subst hxp
          rw [self]
          split
          case isTrue ha =>
              -- the lowest number that `x` knows now is its own, or one that reached it through `d`
              rcases Nat.le_total (w.registry.ancestor x) (w.registry.ancestor d) with hle | hle
              · rw [Nat.min_eq_left hle]
                exact h.low x hx
              · rw [Nat.min_eq_right hle]
                obtain ⟨y, hy, e, hdy⟩ := h.low d ((h.active_iff d).1 ha)
                exact ⟨y, hy, e, .step hd hdy⟩
          case isFalse => exact h.low x hx
        · rw [ancestor_inherit_of_ne hxp]
          exact h.low x hx
      settled := by simpa using h.settled
      called := by simpa using h.called
      order := by simpa using h.order
      once := h.once.congr (by simp) (by simp) }

/-- The body of an open module may ask the host for it: whatever the module imports from is settled,
so that the host was asked for it, or reaches the module. -/
theorem Sound.body (law : phase.Lawful k) (h : Sound phase k w) (hp : p ∈ w.stack)
    (hd : ∀ d ∈ w.registry.graph.deps p, phase.Settled (w.registry.state d) ∨
      w.registry.graph.Reaches d p) :
    Sound phase k { w with registry := (phase.body p w.registry).1 } := by
  have alike := law.alike p w.registry
  have mono : ∀ {x}, x ∈ w.registry.calls k → x ∈ (phase.body p w.registry).1.calls k := by
    intro x hx
    rcases law.calls p w.registry with e | e
    · rwa [e]
    · rw [e]
      exact List.mem_append_left _ hx
  exact
    { sorted := by simpa only [alike.index] using h.sorted
      below := by simpa only [alike.index] using h.below
      active_iff := by simpa only [alike.state] using h.active_iff
      low_le := by simpa only [alike.index, alike.ancestor] using h.low_le
      low := by simpa only [alike.index, alike.ancestor, alike.graph] using h.low
      settled := by simpa only [alike.state, alike.graph] using h.settled
      called := fun x hx => by
        simp only [alike.state] at hx
        exact mono (h.called x hx)
      order := by
        simp only [alike.graph]
        rcases law.calls p w.registry with e | e
        · rw [e]
          exact h.order
        · rw [e]
          exact h.order.append_singleton fun d hd' => (hd d hd').imp_left (h.called d)
      once := law.once p w.registry (h.lt_length law hp) h.once }

/-! ### Closing a component -/

section Close
variable {new below : List ModuleId}

/-- What lies below on the stack was entered before. -/
theorem Sound.index_lt_of_mem_below (h : Sound phase k w) (hs : w.stack = new ++ p :: below)
    (hx : x ∈ below) : w.registry.index x < w.registry.index p := by
  have hsort := h.sorted
  rw [hs] at hsort
  exact (List.pairwise_cons.1 (List.pairwise_append.1 hsort).2.1).1 x hx

/-- What lies above on the stack was entered later. -/
theorem Sound.index_lt_of_mem_new (h : Sound phase k w) (hs : w.stack = new ++ p :: below)
    (hx : x ∈ new) : w.registry.index p < w.registry.index x := by
  have hsort := h.sorted
  rw [hs] at hsort
  exact (List.pairwise_append.1 hsort).2.2 x hx p List.mem_cons_self

theorem Sound.notMem_new (h : Sound phase k w) (hs : w.stack = new ++ p :: below) : p ∉ new :=
  fun hp => Nat.lt_irrefl _ (h.index_lt_of_mem_new hs hp)

/-- The open modules from `p` on are those with at least its number. -/
theorem Sound.mem_component_iff (h : Sound phase k w) (hs : w.stack = new ++ p :: below)
    (hx : x ∈ w.stack) : x ∈ new ++ [p] ↔ w.registry.index p ≤ w.registry.index x := by
  constructor
  · intro hx
    rcases List.mem_append.1 hx with hx | hx
    · exact Nat.le_of_lt (h.index_lt_of_mem_new hs hx)
    · rw [List.mem_singleton.1 hx]
  · intro hle
    rw [hs, List.append_cons] at hx
    refine (List.mem_append.1 hx).resolve_right fun hb => ?_
    exact Nat.not_le_of_lt (h.index_lt_of_mem_below hs hb) hle

/-- What lies below on the stack is told by the numbers. -/
theorem Sound.mem_below_iff (h : Sound phase k w) (hs : w.stack = new ++ p :: below)
    (hx : x ∈ w.stack) : x ∈ below ↔ w.registry.index x < w.registry.index p := by
  constructor
  · exact h.index_lt_of_mem_below hs
  · intro hlt
    have hx' := hx
    rw [hs, List.append_cons] at hx'
    refine (List.mem_append.1 hx').resolve_left fun hc => ?_
    exact Nat.not_le_of_lt hlt ((h.mem_component_iff hs hx).1 hc)

/-- **A component is closed at the right moment.**  If `p` knows no lower number than its own, and
what was opened after it knows none either, everything that these modules import from is settled or
is among them. -/
theorem Sound.close (law : phase.Lawful k) (h : Sound phase k w) (hs : w.stack = new ++ p :: below)
    (he : w.registry.ancestor p = w.registry.index p)
    (hdeps : ∀ x ∈ new ++ [p], ∀ d ∈ w.registry.graph.deps x, phase.Settled (w.registry.state d) ∨
      d ∈ w.stack ∧ w.registry.index p ≤ w.registry.index d)
    (hcalls : ∀ x ∈ new ++ [p], x ∈ w.registry.calls k) :
    Sound phase k (w.close phase.done p) := by
  have mem_stack : ∀ {x}, x ∈ new ++ [p] → x ∈ w.stack := fun hx => by
    rw [hs, List.append_cons]
    exact List.mem_append_left _ hx
  have below_stack : ∀ {x}, x ∈ below → x ∈ w.stack := fun hx => by
    rw [hs, List.append_cons]
    exact List.mem_append_right _ hx
  have closed : ∀ {x}, x ∈ new ++ [p] →
      (w.registry.moveAll (new ++ [p]) phase.done).state x = phase.done := fun hx =>
    Registry.state_moveAll_of_mem hx (h.lt_length law (mem_stack hx))
  have kept : ∀ {x}, x ∉ new ++ [p] →
      (w.registry.moveAll (new ++ [p]) phase.done).state x = w.registry.state x :=
    Registry.state_moveAll_of_notMem
  have settled_done : phase.Settled phase.done := ⟨law.arrival_done, law.active_ne_done.symm⟩
  -- the modules that are closed were open, hence not settled
  have settled : ∀ {x}, phase.Settled (w.registry.state x) →
      phase.Settled ((w.registry.moveAll (new ++ [p]) phase.done).state x) := by
    intro x hx
    have hc : x ∉ new ++ [p] := fun hc => hx.2 ((h.active_iff x).2 (mem_stack hc))
    rwa [kept hc]
  rw [close_of_eq hs (h.notMem_new hs) he]
  exact
    { sorted := by
        have hsort := h.sorted
        rw [hs, List.append_cons] at hsort
        simpa using (List.pairwise_append.1 hsort).2.1
      below := by simpa using fun x hx => h.below x (below_stack hx)
      active_iff := by
        intro x
        by_cases hc : x ∈ new ++ [p]
        · have hle := (h.mem_component_iff hs (mem_stack hc)).1 hc
          have hb : x ∉ below := fun hb => Nat.not_le_of_lt (h.index_lt_of_mem_below hs hb) hle
          simp only [closed hc, hb, iff_false]
          exact law.active_ne_done.symm
        · simp only [kept hc]
          rw [h.active_iff x, hs, List.append_cons, List.mem_append]
          exact or_iff_right hc
      low_le := by simpa using fun x hx => h.low_le x (below_stack hx)
      low := by
        intro x hx
        obtain ⟨y, hy, e, hxy⟩ := h.low x (below_stack hx)
        -- what an older module knows is older still, and stays open
        refine ⟨y, (h.mem_below_iff hs hy).2 ?_, by simpa using e, by simpa using hxy⟩
        calc w.registry.index y
          _ = w.registry.ancestor x := e.symm
          _ ≤ w.registry.index x := h.low_le x (below_stack hx)
          _ < w.registry.index p := h.index_lt_of_mem_below hs hx
      settled := by
        intro x hx d hd
        simp only [Registry.graph_moveAll] at hd
        by_cases hc : x ∈ new ++ [p]
        · -- an open dependency that is not older than `p` is closed together with it
          rcases hdeps x hc d hd with hd' | ⟨hmem, hle⟩
          · exact settled hd'
          · simpa only [closed ((h.mem_component_iff hs hmem).2 hle)] using settled_done
        · simp only [kept hc] at hx
          exact settled (h.settled x hx d hd)
      called := by
        intro x hx
        simp only [Registry.calls_moveAll]
        by_cases hc : x ∈ new ++ [p]
        · exact hcalls x hc
        · simp only [kept hc] at hx
          exact h.called x hx
      order := by simpa using h.order
      once := h.once.congr (by simp) (by simp) }

end Close

/-! ### Inside the visit of a module -/

section Inside
variable {seen : List ModuleId}

/-- A module is open while it is visited. -/
theorem Inside.state_self (law : phase.Lawful k) (ha : phase.arrival (w₀.registry.state p) = .enter)
    (h : Inside phase k p w₀ seen w) : w.registry.state p = phase.active := by
  have hp := state_enter_self (a := phase.active) (lt_length_of_enter law ha)
  rw [h.ext.state (by simp [hp, law.arrival_active]), hp]

theorem Inside.mem_stack (h : Inside phase k p w₀ seen w) : p ∈ w.stack :=
  h.ext.mem_stack List.mem_cons_self

/-- A visit begins with no dependency seen. -/
theorem Inside.enter (law : phase.Lawful k) (h : Sound phase k w)
    (ha : phase.arrival (w.registry.state p) = .enter)
    (hg : ∀ x ∈ w.stack, w.registry.graph.Reaches x p) :
    Inside phase k p w [] (w.enter phase.active p) where
  ext := .refl _
  sound := h.enter law ha
  seen := by simp
  left x hx hold hne := absurd ((List.mem_cons.1 hx).resolve_left hne) hold
  gather x hx := by
    rcases List.mem_cons.1 hx with rfl | hx
    · exact .refl x
    · exact hg x hx

/-- **The loop over the dependencies goes on.** -/
theorem Inside.step (law : phase.Lawful k) (h : Inside phase k p w₀ seen w)
    (hd : d ∈ w.registry.graph.deps p) (hext : Extends phase k w w')
    (hanc : ∀ {x}, phase.arrival (w.registry.state x) ≠ .enter →
      w'.registry.ancestor x = w.registry.ancestor x)
    (hv : Visited phase k d w w') :
    Inside phase k p w₀ (seen ++ [d]) (w'.inherit phase.active p d) := by
  have hp : p ∈ w.stack := h.mem_stack
  have hp' : p ∈ w'.stack := hext.mem_stack hp
  have self := ancestor_inherit_self (a := phase.active) (d := d) (hv.sound.lt_length law hp')
  -- the number of `p` only goes down, and to that of `d` if `d` is left open
  have low_old : (w'.inherit phase.active p d).registry.ancestor p ≤ w.registry.ancestor p := by
    rw [self, ← hanc (h.sound.not_enter law hp)]
    split
    · exact Nat.min_le_left _ _
    · exact Nat.le_refl _
  have low_dep : w'.registry.state d = phase.active →
      (w'.inherit phase.active p d).registry.ancestor p ≤ w'.registry.ancestor d := by
    intro ha
    rw [self, if_pos ha]
    exact Nat.min_le_right _ _
  have ext : Extends phase k w (w'.inherit phase.active p d) := hext.trans law extends_inherit
  refine
    { ext := h.ext.trans law ext
      sound := hv.sound.inherit law hp' (hext.graph ▸ hd)
      seen := fun d' hd' => ?_
      left := fun x hx hold hne => ?_
      gather := fun x hx => ?_ }
  · rcases List.mem_append.1 hd' with hd' | hd'
    · exact ext.dep law h.sound low_old (h.seen d' hd')
    · obtain rfl := List.mem_singleton.1 hd'
      rw [state_inherit, stack_inherit, index_inherit]
      refine (hv.sound.settled_or_mem hv.pass).imp_right fun hmem => ⟨hmem, ?_⟩
      exact Nat.le_trans (low_dep ((hv.sound.active_iff _).2 hmem)) (hv.sound.low_le _ hmem)
  · rw [stack_inherit] at hx
    rw [ancestor_inherit_of_ne hne]
    by_cases hx' : x ∈ w.stack
    · -- left open by an earlier dependency
      obtain ⟨hf, hle⟩ := h.left x hx' hold hne
      have hax := hanc (h.sound.not_enter law hx')
      refine ⟨hf.extends law h.sound ext hx' ((ancestor_inherit_of_ne hne).trans hax), ?_⟩
      rw [hax]
      exact Nat.le_trans low_old hle
    · -- left open by this one
      obtain ⟨hf, ha, hle⟩ := hv.left x hx hx'
      exact ⟨hf.extends law hv.sound extends_inherit hx (ancestor_inherit_of_ne hne),
        Nat.le_trans (low_dep ha) hle⟩
  · rw [stack_inherit] at hx
    rw [graph_inherit, hext.graph]
    obtain ⟨y, hy, hxy⟩ := hv.reaches hx
    exact (hext.graph ▸ hxy).trans (h.gather y hy)

/-- The body of a module whose dependencies are all seen keeps the walk sound. -/
theorem Inside.body (law : phase.Lawful k)
    (h : Inside phase k p w₀ (w.registry.graph.deps p) w) :
    Sound phase k { w with registry := (phase.body p w.registry).1 } := by
  refine h.sound.body law h.mem_stack fun d hd => ?_
  exact (h.seen d hd).imp_right fun hd' => h.gather d hd'.1

/-- When the body of `p` has ended well, everything opened since `p` was entered, and `p` itself, has
its dependencies settled or open, and `p` knows the lowest number of these. -/
theorem Inside.opened (law : phase.Lawful k) (h : Inside phase k p w₀ (w.registry.graph.deps p) w)
    {r : Registry σ} (hb : phase.body p w.registry = (r, .ok ())) (hx : x ∈ w.stack)
    (hold : x ∉ w₀.stack) :
    (∀ d ∈ r.graph.deps x, phase.Settled (r.state d) ∨ d ∈ w.stack ∧ r.ancestor x ≤ r.index d) ∧
      x ∈ r.calls k ∧ r.ancestor p ≤ r.ancestor x ∧ (x ≠ p → r.ancestor x < r.index x) := by
  have alike : w.registry.Alike r := by simpa only [hb] using law.alike p w.registry
  have calls := law.calls p w.registry
  have called := law.called p w.registry (h.sound.lt_length law h.mem_stack) h.sound.once
  rw [hb] at calls called
  simp only [alike.graph, alike.state, alike.index, alike.ancestor]
  by_cases hxp : x = p
  · subst hxp
    exact ⟨h.seen, called rfl, Nat.le_refl _, fun hne => absurd rfl hne⟩
  · obtain ⟨hf, hle⟩ := h.left x hx hold hxp
    refine ⟨hf.deps, ?_, hle, fun _ => hf.lt⟩
    rcases calls with e | e
    · exact e ▸ hf.called
    · exact e ▸ List.mem_append_left _ hf.called

/-- **The visit of a module ends well.**  Either the module closes its component, or it stays open
with all that was opened since, and passes on the lowest number of these. -/
theorem Inside.close (law : phase.Lawful k) (ha : phase.arrival (w₀.registry.state p) = .enter)
    (h : Inside phase k p w₀ (w.registry.graph.deps p) w) {r : Registry σ}
    (hb : phase.body p w.registry = (r, .ok ())) :
    Visited phase k p w₀ (close { w with registry := r } phase.done p) := by
  have alike : w.registry.Alike r := by simpa only [hb] using law.alike p w.registry
  have sound : Sound phase k { w with registry := r } := by simpa only [hb] using h.body law
  obtain ⟨new, hs, hnew, -⟩ := h.ext.stack_of_enter law ha
  have mem : ∀ {x}, x ∈ new ++ [p] → x ∈ w.stack ∧ x ∉ w₀.stack := by
    intro x hx
    have hx' : x ∈ w.stack := by
      rw [hs, List.append_cons]
      exact List.mem_append_left _ hx
    refine ⟨hx', fun hold => ?_⟩
    exact Nat.not_le_of_lt (h.sound.index_lt_of_mem_below hs hold)
      ((h.sound.mem_component_iff hs hx').1 hx)
  by_cases hc : r.ancestor p = r.index p
  · -- `p` was entered first of its component
    have closed := close_of_eq (w := { w with registry := r }) (s := phase.done) hs hnew hc
    refine
      { sound := sound.close law hs hc (fun x hx d hd => ?_) fun x hx => ?_
        pass := ?_
        left := fun x hx hold => ?_ }
    · obtain ⟨hdeps, -, hle, -⟩ := h.opened law hb (mem hx).1 (mem hx).2
      exact (hdeps d hd).imp_right fun hd' => ⟨hd'.1, hc ▸ Nat.le_trans hle hd'.2⟩
    · exact (h.opened law hb (mem hx).1 (mem hx).2).2.1
    · have hp : p < r.progress.length := alike.length ▸ h.sound.lt_length law h.mem_stack
      have hdone : (r.moveAll (new ++ [p]) phase.done).state p = phase.done :=
        Registry.state_moveAll_of_mem (by simp) hp
      simp only [closed, hdone, law.arrival_done]
    · rw [closed] at hx
      exact absurd hx hold
  · -- `p` reaches a module entered before it, and waits for that one
    have hp : r.state p = phase.active := (alike.state p).trans (h.state_self law ha)
    rw [close_of_ne hc]
    refine
      { sound := sound
        pass := by simp only [hp, law.arrival_active]
        left := fun x hx hold => ?_ }
    obtain ⟨hdeps, hcalls, hle, hlt⟩ := h.opened law hb hx hold
    refine ⟨⟨hdeps, hcalls, ?_⟩, hp, hle⟩
    by_cases hxp : x = p
    · subst hxp
      exact Nat.lt_of_le_of_ne (sound.low_le x hx) hc
    · exact hlt hxp

end Inside

/-! ### Whole visits -/

/-- What visits do that go at most `fuel` modules deep, if every open module reaches the one that is
visited. -/
def VisitSound (phase : Phase σ) (k : Service) (fuel : Nat) : Prop :=
  ∀ m w, Sound phase k w → (∀ x ∈ w.stack, w.registry.graph.Reaches x m) →
    (∀ {w'}, visit phase fuel m w = (w', .ok ()) → Visited phase k m w w') ∧
    ∀ {w' e}, visit phase fuel m w = (w', .error (.error e)) → Broken phase k e w'

/-- The dependencies of a module are visited soundly if each of them is. -/
theorem visitAll_sound (law : phase.Lawful k) {fuel : Nat} (ih : VisitSound phase k fuel)
    (h : Sound phase k w) (ha : phase.arrival (w.registry.state m) = .enter)
    (hg : ∀ x ∈ w.stack, w.registry.graph.Reaches x m) :
    (∀ {w'}, visitAll (visit phase fuel) phase.active m (w.registry.graph.deps m)
        (w.enter phase.active m) = (w', .ok ()) →
      Inside phase k m w (w'.registry.graph.deps m) w') ∧
    ∀ {w' e}, visitAll (visit phase fuel) phase.active m (w.registry.graph.deps m)
        (w.enter phase.active m) = (w', .error (.error e)) → Broken phase k e w' := by
  have gather : ∀ {seen d w₁}, d ∈ w.registry.graph.deps m → Inside phase k m w seen w₁ →
      d ∈ w₁.registry.graph.deps m ∧ ∀ x ∈ w₁.stack, w₁.registry.graph.Reaches x d := by
    intro seen d w₁ hd hin
    have hd' : d ∈ w₁.registry.graph.deps m := hin.ext.graph ▸ hd
    exact ⟨hd', fun x hx => (hin.gather x hx).trans (.dep hd')⟩
  obtain ⟨hok, herr⟩ := visitAll_induct (visit phase fuel) phase.active m (Inside phase k m w)
    (Inside.enter law h ha hg)
    (fun {seen d w₁ w₂} hd hin hv => by
      obtain ⟨hd', hg'⟩ := gather hd hin
      have hext := visit_extends law fuel d w₁
      have hanc := fun {x} => visit_ancestor law fuel d w₁ (x := x)
      rw [hv] at hext hanc
      exact hin.step law hd' hext hanc ((ih d w₁ hin.sound hg').1 hv))
  refine ⟨fun hr => ?_, fun hr => ?_⟩
  · have hin := hok hr
    rwa [hin.ext.graph]
  · obtain ⟨d, hd, seen, w₁, hin, hv⟩ := herr hr
    exact (ih d w₁ hin.sound (gather hd hin).2).2 hv

/-- **A visit keeps a walk sound**, and leaves behind what it should, whether it ends well or with an
error. -/
theorem visit_sound (law : phase.Lawful k) (fuel : Nat) : VisitSound phase k fuel := by
  induction fuel with
  | zero =>
      intro m w _ _
      exact ⟨fun hr => (nomatch hr), fun hr => (nomatch hr)⟩
  | succ fuel ih =>
      intro m w h hg
      refine ⟨fun hr => ?_, fun hr => ?_⟩
      · cases visit_ends hr with
        | passed ha => exact ⟨h, ha, fun x hx hold => absurd hx hold⟩
        | closed ha hv hb => exact ((visitAll_sound law ih h ha hg).1 hv).close law ha hb
      · cases visit_ends hr with
        | failed ha => exact ⟨h, m, hg, .inl ha⟩
        | stopped ha hv => exact (visitAll_sound law ih h ha hg).2 hv
        | @threw w₁ r e ha hv hb =>
            have hin := (visitAll_sound law ih h ha hg).1 hv
            have alike : w₁.registry.Alike r := by simpa only [hb] using law.alike m w₁.registry
            refine ⟨by simpa only [hb] using hin.body law, m, ?_, .inr ⟨w₁.registry, hb⟩⟩
            simpa only [alike.graph] using hin.gather

/-! ### Whole walks -/

section Run
variable {r : Registry σ} {root : ModuleId}

/-- A walk starts out sound if no module is open and what its phase is through with is in order. -/
theorem Sound.start (active : ∀ x, r.state x ≠ phase.active)
    (settled : ∀ x, phase.Settled (r.state x) → ∀ d ∈ r.graph.deps x, phase.Settled (r.state d))
    (called : ∀ x, phase.Settled (r.state x) → x ∈ r.calls k)
    (order : r.graph.DependenciesFirst (r.calls k)) (once : r.InstantiatesOnce) :
    Sound phase k { registry := r } where
  sorted := List.Pairwise.nil
  below := by simp
  active_iff x := by simpa using active x
  low_le := by simp
  low := by simp
  settled := settled
  called := called
  order := order
  once := once

/-- A whole walk goes on from the registry it began with. -/
theorem run_extends (law : phase.Lawful k) (r : Registry σ) (root : ModuleId) :
    Extends phase k { registry := r } (run phase r root).1 :=
  visit_extends law _ root _

/-- **A walk that ends well leaves no module open**, since one that is left open would reach one that
was open before. -/
theorem run_ok (law : phase.Lawful k) (h : Sound phase k { registry := r })
    (hr : run phase r root = (w, .ok ())) :
    Sound phase k w ∧ w.stack = [] ∧ phase.Settled (w.registry.state root) := by
  have hv := (visit_sound law _ root _ h (by simp)).1 hr
  have hs : w.stack = [] := by
    refine List.eq_nil_iff_forall_not_mem.2 fun x hx => ?_
    obtain ⟨y, hy, -⟩ := hv.reaches hx
    cases hy
  refine ⟨hv.sound, hs, (hv.sound.settled_or_mem hv.pass).resolve_right ?_⟩
  simp [hs]

/-- A walk that ends with an error leaves behind what caused it. -/
theorem run_error (law : phase.Lawful k) (h : Sound phase k { registry := r }) {e : ModuleError}
    (hr : run phase r root = (w, .error (.error e))) : Broken phase k e w :=
  (visit_sound law _ root _ h (by simp)).2 hr

/-- A walk is misuse only at its root, before it has begun. -/
theorem run_misuse (law : phase.Lawful k) (hp : phase.Proper r)
    (hlen : r.progress.length = r.graph.length) (hr : run phase r root = (w, .error .misuse)) :
    w.registry = r ∧ phase.arrival (r.state root) = .misuse := by
  have hroot : phase.arrival (r.state root) = .misuse := by
    by_contra hne
    refine visit_ne_misuse law (r.size + 2) root { registry := r } hp hne ?_ (congrArg Prod.snd hr)
    calc (toEnter phase { registry := r }).card
      _ ≤ (Finset.range r.progress.length).card := Finset.card_le_card (Finset.filter_subset _ _)
      _ = r.size := by rw [Finset.card_range, hlen]; rfl
      _ < r.size + 2 := Nat.lt_add_of_pos_right (by decide)
  cases visit_ends hr with
  | misused => exact ⟨rfl, hroot⟩
  | stopped ha => exact absurd (ha.symm.trans hroot) (by simp)

end Run

end Walk

end ModuleSystem
