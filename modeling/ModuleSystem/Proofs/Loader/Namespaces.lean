import ModuleSystem.Proofs.Bindings
import ModuleSystem.Proofs.Loader.Closure
import ModuleSystem.Proofs.Loader.Session
import ModuleSystem.Proofs.Loader.Tickets
import ModuleSystem.Proofs.Registry.Host

/-!
# Loader — imports of one module share its namespace

The registry keeps the record of a module, and the bindings keep the namespace of the record.  So the
imports of a module that succeed are settled with the namespace that the module has from the first of
them on.

* `Import.Moves`: what an action can do to an import.
* `Traced`: an import goes on with the module that its specifier was found to lead to.
* `Shared`: what futures are settled with is what the bindings keep.
-/

namespace ModuleSystem

variable {σ : Type} {host : Host σ} {bindings : σ → Bindings}

/-! ### Requests keep namespaces -/

namespace Registry

variable {r r' : Registry σ}

/-- **A request keeps namespaces.** -/
theorem keeps_handle (hk : host.KeepsNamespaces bindings) (r : Registry σ) (request : Request) :
    (bindings r.world).Keeps (bindings (r.handle host request).1.world) := by
  have follows : host.Follows fun _ world world' => (bindings world).Keeps (bindings world') :=
    { refl := fun _ _ => .refl _
      trans := fun h h' => h.trans h'
      instantiate := hk.instantiate
      evaluate := hk.evaluate
      publish := hk.publish }
  exact moves_handle follows r request

/-- The module with a path has a namespace. -/
def HasNamespace (bindings : σ → Bindings) (r : Registry σ) (path : Text) (ns : Namespace) : Prop :=
  ∃ m, r.graph.find? path = some m ∧ (bindings r.world).namespaces.lookup m = some ns

/-- A path keeps its namespace while the registry grows. -/
theorem HasNamespace.mono {path : Text} {ns : Namespace} (h : r.HasNamespace bindings path ns)
    (keeps : r.Keeps r') (names : (bindings r.world).Keeps (bindings r'.world)) :
    r'.HasNamespace bindings path ns := by
  obtain ⟨m, found, hm⟩ := h
  exact ⟨m, keeps.find found, names.lookup hm⟩

/-- A module has one namespace. -/
theorem HasNamespace.unique {path : Text} {ns ns' : Namespace} (h : r.HasNamespace bindings path ns)
    (h' : r.HasNamespace bindings path ns') : ns = ns' := by
  obtain ⟨m, found, hm⟩ := h
  obtain ⟨m', found', hm'⟩ := h'
  cases found.symm.trans found'
  exact Option.some.inj (hm.symm.trans hm')

end Registry

namespace TaskStage

variable {r r' : Registry σ} {stage stage' : TaskStage}

/-- **A step of a task keeps namespaces.** -/
theorem Steps.keeps_namespaces (hk : host.KeepsNamespaces bindings)
    (h : Steps host r stage r' stage') : (bindings r.world).Keeps (bindings r'.world) := by
  cases h with
  | rooted | lost | unattached => exact .refl _
  | passed | placed | connected =>
      rw [Registry.world_getOrCreate]
      exact .refl _
  | attached all ok =>
      rw [Registry.world_attach ok]
      exact .refl _
  | @linked m | @unlinked m => exact Registry.keeps_handle hk r (.link m)
  | @evaluated m world ns ok ask =>
      have asked := hk.namespaceOf (r.evaluate host m).1.graph m (r.evaluate host m).1.world
      rw [ask] at asked
      have made := (bindings (r.evaluate host m).1.world).keeps_namespaceOf
        (r.evaluate host m).1.graph m
      rw [← asked] at made
      exact (Registry.keeps_handle hk r (.evaluate m)).trans made
  | @failed m => exact Registry.keeps_handle hk r (.evaluate m)

/-- A task settles its future with the namespace that its module has. -/
theorem Steps.hasNamespace (hk : host.KeepsNamespaces bindings) (h : Steps host r stage r' stage')
    {loaded : Except ModuleError (Text × List Loaded)} (serves : stage.Serves r loaded)
    (keeps : r.Keeps r') {ns : Namespace} (ok : stage' = .settling (.ok ns)) :
    ∃ root ms, loaded = .ok (root, ms) ∧ r'.HasNamespace bindings root ns := by
  cases h with
  | @evaluated m world ns' _ ask =>
      cases ok
      obtain ⟨root, ms, rfl, found⟩ := serves
      have asked := hk.namespaceOf (r.evaluate host m).1.graph m (r.evaluate host m).1.world
      rw [ask] at asked
      have made := (bindings (r.evaluate host m).1.world).lookup_namespaceOf
        (r.evaluate host m).1.graph m
      rw [← asked] at made
      exact ⟨root, ms, rfl, m, keeps.find found, made⟩
  | _ => cases ok

end TaskStage

/-! ### Imports go on with the module that they have found -/

/-- What an action can do to the import with a number. -/
inductive Import.Moves (x : Import) (i : Nat) : Action σ → ImportPhase → Prop where
  | kept {a : Action σ} (other : ∀ fs caches, a ≠ .resolve i fs caches) : Moves x i a x.phase
  | refused {fs : FileSystem} {caches : Resolver} {e : NotFound} (phase : x.phase = .resolving)
      (error : (caches.resolve fs x.specifier x.referer).2.result = .error e) :
      Moves x i (.resolve i fs caches) (.refused e)
  | found {fs : FileSystem} {caches : Resolver} {root : Text} {l : Load} (phase : x.phase = .resolving)
      (ok : (caches.resolve fs x.specifier x.referer).2.result = .ok root) :
      Moves x i (.resolve i fs caches) (.loading root l)
  | worked {worker : Nat} {fs : FileSystem} {caches : Resolver} {root : Text} {l l' : Load}
      (phase : x.phase = .loading root l) : Moves x i (.work i worker fs caches) (.loading root l')
  | handedOver {loaded : Except ModuleError (Text × List Loaded)}
      (outcome : x.phase.outcome? = some loaded) : Moves x i (.handOver i) (.ended loaded)

/-- A phase that an import can have when its specifier was found to lead somewhere. -/
def ImportPhase.Follows (found : Except NotFound Text) : ImportPhase → Prop
  | .resolving => False
  | .refused e => found = .error e
  | .loading root _ | .ended (.ok (root, _)) => found = .ok root
  | .ended (.error _) => True

/-- The outcome of an import is that of what it has found. -/
theorem ImportPhase.Follows.outcome {phase : ImportPhase} {found : Except NotFound Text}
    (h : phase.Follows found) {loaded : Except ModuleError (Text × List Loaded)}
    (ho : phase.outcome? = some loaded) : (ImportPhase.ended loaded).Follows found := by
  cases phase with
  | refused e =>
      cases ho
      trivial
  | loading root l =>
      simp only [outcome?] at ho
      split at ho
      · cases ho
        rw [Load.result]
        split
        · trivial
        · exact h
      · cases ho
  | _ => cases ho

/-- An import goes on with what it has found. -/
theorem Import.Moves.follows {x : Import} {i : Nat} {a : Action σ} {phase : ImportPhase}
    {found : Except NotFound Text} (hm : x.Moves i a phase) (h : x.phase.Follows found) :
    phase.Follows found := by
  cases hm with
  | kept => exact h
  | refused resolving | found resolving =>
      rw [resolving] at h
      cases h
  | worked loading =>
      rw [loading] at h
      exact h
  | handedOver outcome => exact h.outcome outcome

/-- An import that is over stays as it is. -/
theorem Import.Moves.ended {x : Import} {i : Nat} {a : Action σ} {phase : ImportPhase}
    {loaded : Except ModuleError (Text × List Loaded)} (hm : x.Moves i a phase)
    (h : x.phase = .ended loaded) : phase = .ended loaded := by
  cases hm with
  | kept => exact h
  | refused phase | found phase | worked phase => cases h.symm.trans phase
  | handedOver outcome =>
      rw [h] at outcome
      cases outcome

namespace Session

variable {s s' : Session σ} {a : Action σ} {i : Nat} {x : Import}

/-- Whichever import goes on, each has its phase or goes on itself. -/
theorem exists_import_setPhase {j : Nat} {y : Import} {phase : ImportPhase}
    (at_ : s.imports[i]? = some x) (atj : s.imports[j]? = some y) (self : j = i → y.Moves i a phase)
    (other : j ≠ i → ∀ fs caches, a ≠ .resolve i fs caches) :
    ∃ phase', (s.setPhase j phase).imports[i]? = some { x with phase := phase' } ∧
      x.Moves i a phase' := by
  by_cases e : j = i
  · subst e
    cases at_.symm.trans atj
    exact ⟨phase, getElem?_setPhase_self at_, self rfl⟩
  · exact ⟨x.phase, (getElem?_setPhase_of_ne (Ne.symm e)).trans at_, .kept (other e)⟩

/-- **What an action does to an import.** -/
theorem Happens.phase (ha : Happens host s a s') (at_ : s.imports[i]? = some x) :
    ∃ phase, s'.imports[i]? = some { x with phase } ∧ x.Moves i a phase := by
  cases ha with
  | started =>
      exact ⟨x.phase, getElem?_concat_eq_some_iff.2 (.inl at_), .kept nofun⟩
  | @refused j fs caches y e atj phase error =>
      refine exists_import_setPhase at_ atj (fun e => ?_) fun ne fs' caches' e => ?_
      · subst e
        exact .refused phase error
      · cases e
        exact ne rfl
  | @found j fs caches y root atj phase ok =>
      refine exists_import_setPhase at_ atj (fun e => ?_) fun ne fs' caches' e => ?_
      · subst e
        exact .found phase ok
      · cases e
        exact ne rfl
  | worked atj phase =>
      refine exists_import_setPhase at_ atj (fun e => ?_) fun _ => nofun
      subst e
      exact .worked phase
  | handedOver atj outcome =>
      refine exists_import_setPhase at_ atj (fun e => ?_) fun _ => nofun
      subst e
      exact .handedOver outcome
  | _ => exact ⟨x.phase, at_, .kept nofun⟩

/-- An import goes on with what its specifier was found to lead to. -/
def Traced (schedule : List (Action σ)) (s : Session σ) : Prop :=
  ∀ i fs caches, .resolve i fs caches ∈ schedule → ∃ x, s.imports[i]? = some x ∧
    x.phase.Follows (caches.resolve fs x.specifier x.referer).2.result

/-- Whatever happens, each import can be traced to what it has found. -/
theorem Traced.happens {schedule : List (Action σ)} (h : Traced schedule s)
    (ha : Happens host s a s') : Traced (schedule ++ [a]) s' := by
  intro i fs caches hmem
  rcases List.mem_append.1 hmem with old | new
  · obtain ⟨x, at_, follows⟩ := h i fs caches old
    obtain ⟨phase, at', moves⟩ := ha.phase at_
    exact ⟨{ x with phase }, at', moves.follows follows⟩
  · cases List.mem_singleton.1 new
    cases ha with
    | refused at_ _ error => exact ⟨_, getElem?_setPhase_self at_, error⟩
    | found at_ _ ok => exact ⟨_, getElem?_setPhase_self at_, ok⟩

/-- After any schedule each import can be traced to what it has found. -/
theorem traced {options : Options} {world : σ} {schedule : List (Action σ)}
    (h : (Session.new options world).run host schedule = some s) : Traced schedule s :=
  run_induct_schedule h (fun _ _ _ hmem => nomatch hmem) fun h ha => h.happens ha

/-! ### Futures are settled with what the bindings keep -/

/-- Where the result of an import comes from. -/
theorem Happens.result (ha : Happens host s a s') {result : ImportResult}
    (hr : s'.result? i = some result) : s.result? i = some result ∨
      ∃ t, s.position = .running t ∧ t.future = i ∧ s.stage = .settling result := by
  obtain ⟨f', at', hf'⟩ := result?_eq_some_iff.1 hr
  have old : ∀ {f}, s.futures[i]? = some f → f.result = some result → s.result? i = some result :=
    fun at_ hf => result?_eq_some_iff.2 ⟨_, at_, hf⟩
  cases ha with
  | started =>
      rcases getElem?_concat_eq_some_iff.1 at' with at_ | ⟨-, rfl⟩
      · exact .inl (old at_ hf')
      · cases hf'
  | settled position stage at_ fulfilled =>
      rcases (getElem?_set_eq_some_iff at_).1 at' with ⟨-, at_⟩ | ⟨rfl, rfl⟩
      · exact .inl (old at_ hf')
      · obtain ⟨-, rfl⟩ := Future.fulfil_eq_some fulfilled
        cases hf'
        exact .inr ⟨_, position, rfl, stage⟩
  | added at_ =>
      rcases (getElem?_set_eq_some_iff at_).1 at' with ⟨-, at_⟩ | ⟨rfl, rfl⟩
      · exact .inl (old at_ hf')
      · exact .inl (old at_ (Future.result_add.symm.trans hf'))
  | called at_ =>
      rcases (getElem?_set_eq_some_iff at_).1 at' with ⟨-, at_⟩ | ⟨rfl, rfl⟩
      · exact .inl (old at_ hf')
      · exact .inl (old at_ (Future.result_call.symm.trans hf'))
  | _ => exact .inl hr

/-- **Records stay**, whatever happens. -/
theorem Steady.keeps (h : Steady host s) (ha : Happens host s a s') :
    s.registry.Keeps s'.registry := by
  cases ha with
  | proceeded position steps => exact (h.task.steps steps).2
  | played f => exact (Registry.Keeps.refl _).withWorld _
  | _ => exact .refl _

/-- What the host does of its own keeps namespaces. -/
def Careful (bindings : σ → Bindings) (schedule : List (Action σ)) : Prop :=
  ∀ f, .play f ∈ schedule → ∀ world, (bindings world).Keeps (bindings (f world))

/-- Whatever happens, the namespaces that were made are kept. -/
theorem Happens.keeps_namespaces (hk : host.KeepsNamespaces bindings) (ha : Happens host s a s')
    (careful : Careful bindings [a]) :
    (bindings s.registry.world).Keeps (bindings s'.registry.world) := by
  cases ha with
  | proceeded position steps => exact steps.keeps_namespaces hk
  | played f => exact careful f List.mem_cons_self _
  | _ => exact .refl _

/-- What futures are settled with, and what the running task is about to settle its future with, is what
the bindings keep. -/
structure Shared (bindings : σ → Bindings) (s : Session σ) : Prop where
  settling : ∀ t ns, s.position = .running t → s.stage = .settling (.ok ns) →
    ∃ root ms, t.loaded = .ok (root, ms) ∧ s.registry.HasNamespace bindings root ns
  results : ∀ i ns, s.result? i = some (.ok ns) → ∃ x root ms, s.imports[i]? = some x ∧
    x.phase = .ended (.ok (root, ms)) ∧ s.registry.HasNamespace bindings root ns

/-- Whatever happens, futures of a path are settled with one namespace. -/
theorem Shared.happens (h : Shared bindings s) (hk : host.KeepsNamespaces bindings)
    (steady : Steady host s) (orderly : Orderly s) (ha : Happens host s a s')
    (careful : Careful bindings [a]) : Shared bindings s' := by
  have keeps := steady.keeps ha
  have names := ha.keeps_namespaces hk careful
  constructor
  · intro t ns position stage
    have old : s.position = .running t → s.stage = .settling (.ok ns) →
        ∃ root ms, t.loaded = .ok (root, ms) ∧ s'.registry.HasNamespace bindings root ns := by
      intro position stage
      obtain ⟨root, ms, hl, has⟩ := h.settling t ns position stage
      exact ⟨root, ms, hl, has.mono keeps names⟩
    cases ha with
    | ran => cases position
    | @began interrupted t' =>
        -- a task begins with an error or with modules to add
        cases hl : t'.loaded <;> simp only [hl] at stage <;> cases stage
    | proceeded position' steps =>
        exact steps.hasNamespace hk (steady.serves t position) keeps stage
    | started | refused | found | worked | handedOver | added | called | played => exact old position stage
    | _ => cases stage
  · intro i ns hr
    rcases ha.result hr with hr | ⟨t, position, rfl, stage⟩
    · obtain ⟨x, root, ms, at_, ended, has⟩ := h.results i ns hr
      obtain ⟨phase, at', moves⟩ := ha.phase at_
      exact ⟨_, root, ms, at', moves.ended ended, has.mono keeps names⟩
    · obtain ⟨root, ms, hl, has⟩ := h.settling t ns position stage
      obtain ⟨x, at_, ended⟩ := orderly.running t position
      obtain ⟨phase, at', moves⟩ := ha.phase at_
      exact ⟨_, root, ms, at', moves.ended (hl ▸ ended), has.mono keeps names⟩

/-- After any schedule futures of a path are settled with one namespace. -/
theorem shared {options : Options} {world : σ} (hk : host.KeepsNamespaces bindings)
    {schedule : List (Action σ)} (h : (Session.new options world).run host schedule = some s)
    (careful : Careful bindings schedule) : Shared bindings s := by
  have all : (Careful bindings schedule → Shared bindings s) ∧ Steady host s ∧ Orderly s := by
    refine run_induct_schedule h (P := fun schedule s =>
      (Careful bindings schedule → Shared bindings s) ∧ Steady host s ∧ Orderly s)
      ⟨fun _ => ⟨nofun, nofun⟩, .new host options world, .new options world⟩ ?_
    rintro before s a s' ⟨shared, steady, orderly⟩ ha
    refine ⟨fun careful => ?_, steady.happens ha, orderly.happens ha⟩
    have shared := shared fun f hf => careful f (List.mem_append_left _ hf)
    exact shared.happens hk steady orderly ha fun f hf => careful f (List.mem_append_right _ hf)
  exact all.1 careful

/-- The specifier of an import was found to lead to a module. -/
def LeadsTo (schedule : List (Action σ)) (s : Session σ) (i : Nat) (root : Text) : Prop :=
  ∃ x fs caches, s.imports[i]? = some x ∧ .resolve i fs caches ∈ schedule ∧
    (caches.resolve fs x.specifier x.referer).2.result = .ok root

/-- **An import that succeeds is settled with the namespace of the module that its specifier leads
to.** -/
theorem Shared.hasNamespace {schedule : List (Action σ)} (h : Shared bindings s)
    (traced : Traced schedule s) {root : Text} {ns : Namespace} (leads : s.LeadsTo schedule i root)
    (hr : s.result? i = some (.ok ns)) : s.registry.HasNamespace bindings root ns := by
  obtain ⟨x, fs, caches, at_, resolve, found⟩ := leads
  obtain ⟨y, aty, follows⟩ := traced i fs caches resolve
  obtain ⟨z, root', ms, atz, ended, has⟩ := h.results i ns hr
  cases at_.symm.trans aty
  cases at_.symm.trans atz
  rw [ended, found] at follows
  cases follows
  exact has

end Session

end ModuleSystem
