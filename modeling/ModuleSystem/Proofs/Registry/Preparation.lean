import Mathlib.Data.List.Pairwise
import ModuleSystem.Proofs.Registry.Rest

/-!
# Registry — modules are instantiated before they are run

Evaluating walks linked modules only, and the host was asked to instantiate every linked module.  So
whenever the body of a module is run, the host was asked for that module before (`Registry.Prepared`).

What the host answered is another matter.  It is asked once, and a module counts as instantiated from
then on even if the host has failed: the link that came upon the failure is reported as failed, and the
next one passes over the module.

* `instantiated_before_run`: a body that is run was instantiated before, and successfully so exactly
  if instantiating it has never failed.
* `failed_instantiation_passed_over`: a module that the host could not instantiate is linked by the
  second attempt, and then run.
-/

namespace ModuleSystem

namespace Registry

variable {σ : Type} {host : Host σ} {r r' : Registry σ} {m : ModuleId} {k : Service}

/-! ### Calls and the history -/

theorem mem_calls_iff : m ∈ r.calls k ↔ ∃ n ∈ r.history, n.call? k = some m :=
  List.mem_filterMap

/-- A module that the host was asked to instantiate is one that was, with an error or without. -/
theorem mem_calls_instantiate_iff :
    m ∈ r.calls .instantiate ↔ ∃ e, .instantiated m e ∈ r.history := by
  rw [mem_calls_iff]
  constructor
  · rintro ⟨n, hn, hc⟩
    cases n <;> cases hc
    exact ⟨_, hn⟩
  · rintro ⟨e, he⟩
    exact ⟨_, he, rfl⟩

/-- A host that is asked for no module twice gives one answer for each. -/
theorem happening_unique (h : (r.calls k).Nodup) {n n' : Happening} (hn : n ∈ r.history)
    (hn' : n' ∈ r.history) (hc : n.call? k = some m) (hc' : n'.call? k = some m) : n = n' := by
  by_contra hne
  have differ := List.pairwise_filterMap.1 h
  have : Std.Symm fun a b : Happening =>
      ∀ x, a.call? k = some x → ∀ y, b.call? k = some y → x ≠ y :=
    ⟨fun a b hab x hx y hy e => hab y hy x hx e.symm⟩
  exact differ.forall hn hn' hne m hc m hc' rfl

/-! ### What is run was instantiated -/

/-- Whenever the body of a module was run, the host had been asked before to instantiate it. -/
def Prepared (r : Registry σ) : Prop :=
  ∀ before m e after, r.history = before ++ .ran m e :: after → ∃ e', .instantiated m e' ∈ before

/-- Before the first request nothing was run. -/
theorem Attached.prepared (h : r.Attached) : r.Prepared := by
  intro before m e after hr
  have hm : m ∈ r.calls .evaluate := mem_calls_iff.2 ⟨.ran m e, by simp [hr], rfl⟩
  rw [h.calls] at hm
  cases hm

/-- A registry stays prepared if only modules are run that were instantiated before. -/
theorem Prepared.extend (h : r.Prepared) (history : r.history <+: r'.history)
    (more : List ModuleId) (calls : r'.calls .evaluate = r.calls .evaluate ++ more)
    (hmore : ∀ x ∈ more, x ∈ r.calls .instantiate) : r'.Prepared := by
  intro before m e after hr
  obtain ⟨tail, ht⟩ := history
  have split : (∃ mid, before = r.history ++ mid ∧ tail = mid ++ .ran m e :: after) ∨
      ∃ mid, r.history = before ++ .ran m e :: mid := by
    rcases List.append_eq_append_iff.1 (ht.trans hr) with ⟨mid, hb, hmid⟩ | ⟨mid, hb, hmid⟩
    · exact .inl ⟨mid, hb, hmid⟩
    · cases mid with
      | nil => exact .inl ⟨[], by simpa using hb.symm, by simpa using hmid.symm⟩
      | cons n mid =>
          obtain ⟨rfl, -⟩ := List.cons.inj hmid
          exact .inr ⟨mid, hb⟩
  rcases split with ⟨mid, rfl, hmid⟩ | ⟨mid, hb⟩
  · -- the body was run after everything that `r` remembers
    have hcalls : r.calls .evaluate ++ tail.filterMap (·.call? .evaluate) =
        r.calls .evaluate ++ more := by
      rw [← calls, Registry.calls, Registry.calls, ← ht, List.filterMap_append]
    have hran : m ∈ more := by
      rw [← List.append_cancel_left hcalls, hmid]
      exact List.mem_filterMap.2 ⟨.ran m e, by simp, rfl⟩
    obtain ⟨e', he'⟩ := mem_calls_instantiate_iff.1 (hmore m hran)
    exact ⟨e', List.mem_append_left _ he'⟩
  · exact h before m e mid hb

/-- A request leaves a prepared registry prepared. -/
theorem AtRest.prepared_handle (h : r.AtRest host) (q : Request) (hp : r.Prepared) :
    (r.handle host q).1.Prepared := by
  cases q with
  | link root =>
      have swept := h.link_swept (h.admits (.link root))
      have ran := swept.otherCalls .evaluate (by simp)
      exact hp.extend swept.history [] (ran.trans (List.append_nil _).symm) (by simp)
  | evaluate root =>
      obtain ⟨_, -, swept⟩ := h.evaluate_swept root
      obtain ⟨more, hc, -, hmore⟩ := swept.calls
      refine hp.extend swept.history more hc fun x hx => ?_
      -- what is run was linked, and the host was asked for all that is linked
      have hlinked : r.state x = .linked := evaluatePhase_enter_iff.1 (hmore x hx).1
      exact h.linking.called x (linkPhase_settled_iff.2 (.inl (by rw [hlinked]; rfl)))

/-- **A body that is run was instantiated before**, and successfully so exactly if instantiating its
module has never failed. -/
theorem instantiated_before_run (host : Host σ) {r₀ : Registry σ} (h : r₀.Attached)
    (requests : List Request) :
    let r := r₀.after host requests
    ∀ before m e after, r.history = before ++ .ran m e :: after →
      (∃ e', .instantiated m e' ∈ before) ∧
      (.instantiated m none ∈ before ↔ ∀ e', .instantiated m (some e') ∉ r.history) := by
  intro r before m e after hr
  obtain ⟨rest, prepared⟩ := (h.atRest host).after_induct h.prepared
    (fun q h' hp => h'.prepared_handle q hp) requests
  obtain ⟨e', he'⟩ := prepared before m e after hr
  have inside : ∀ {n}, n ∈ before → n ∈ r.history := fun hn => hr ▸ List.mem_append_left _ hn
  refine ⟨⟨e', he'⟩, fun hnone e₁ he₁ => ?_, fun hnever => ?_⟩
  · have := happening_unique rest.linking.once.nodup (inside hnone) he₁ rfl rfl
    cases this
  · cases e' with
    | none => exact he'
    | some e₁ => exact absurd (inside he') (hnever e₁)

/-- A host that cannot instantiate one module. -/
def refusing (n : ModuleId) : Host Unit where
  instantiate _ m _ := ((), if m = n then .error (.thrown [33]) else .ok ())
  evaluate _ _ _ := ((), .ok ())
  publish _ _ _ := ()
  namespaceOf _ m _ := ((), { owner := m, keys := [], targets := [] })

theorem instantiated_before_run_ring :
    ∃ before after, (ring.after (refusing 2) [.link 1, .link 1, .evaluate 1]).history =
      before ++ .ran 0 none :: after ∧ .instantiated 0 none ∈ before := by
  obtain ⟨before, after, hr⟩ : ∃ before after,
      (ring.after (refusing 2) [.link 1, .link 1, .evaluate 1]).history =
        before ++ .ran 0 none :: after :=
    List.append_of_mem (by decide)
  have hnever : ∀ e', .instantiated 0 (some e') ∉
      (ring.after (refusing 2) [.link 1, .link 1, .evaluate 1]).history := by
    intro e' he'
    have : Happening.instantiated 0 (some e') = .instantiated 0 none :=
      happening_unique (k := .instantiate) (by decide) he' (by decide) rfl rfl
    cases this
  have hrun := instantiated_before_run (refusing 2) ring_attached
    [.link 1, .link 1, .evaluate 1] before 0 none after hr
  exact ⟨before, after, hr, hrun.2.2 hnever⟩

/-- **A failed instantiation is passed over by the next link.**  The host cannot instantiate module
`2`, and the link fails for it; the same link made again is well, and the body of `2` is run although
it was never instantiated. -/
theorem failed_instantiation_passed_over :
    (ring.link (refusing 2) 1).2 = .error (.error (.thrown [33])) ∧
    ((ring.link (refusing 2) 1).1.link (refusing 2) 1).2 = .ok () ∧
    .ran 2 none ∈ (ring.after (refusing 2) [.link 1, .link 1, .evaluate 1]).history ∧
    .instantiated 2 none ∉ (ring.after (refusing 2) [.link 1, .link 1, .evaluate 1]).history :=
  ⟨rfl, rfl, by decide, by decide⟩

end Registry

end ModuleSystem
