import ModuleSystem.Proofs.Loader.Session
import ModuleSystem.Script

/-!
# Loader — modules are attached before they are linked

While an import is loading, other imports add modules to the registry, one record at a time.  A worker
that finds a module in the registry leaves its dependencies to whoever has added it, although some of
them may not have their contents yet.  This is enough, since tasks run one after the other: the task of
the import that was loading begins when the other task is over.

* `Closed`: the modules that a task is still to add, together with those that the registry has, have all
  their dependencies.
* `TaskStage.Sound`: what holds of the registry during a task.  A record without contents is one that
  the task is still to add.
* `Session.Steady`: what holds in a session at every moment, with any number of imports under way.
* `attached_before_link`: a task that comes to link its module finds everything attached, and nothing it
  does is misuse.
-/

namespace ModuleSystem

variable {σ : Type} {host : Host σ} {r r' : Registry σ}

/-! ### Loaded modules -/

/-- As many dependencies as import records. -/
def Loaded.Sized (m : Loaded) : Prop := m.deps.length = m.compiled.interface.records.length

/-- A dependency is found for each record. -/
theorem length_resolveAll {options : Options} {fs : FileSystem} {path : Text}
    {records : List ImportRecord} {caches caches' : Resolver} {deps : List Text}
    (h : Loader.resolveAll options fs path records caches = (caches', .ok deps)) :
    deps.length = records.length := by
  induction records generalizing caches deps with
  | nil =>
      cases h
      rfl
  | cons record records ih =>
      rw [Loader.resolveAll] at h
      split at h
      · cases h
      · split at h
        · cases h
        · split at h
          · rename_i hrest
            cases h
            rw [List.length_cons, List.length_cons, ih hrest]
          · cases h

/-- A module that was loaded from a path has that path, and a dependency for each import record. -/
theorem loadModule_ok {options : Options} {fs : FileSystem} {path : Text} {caches : Resolver}
    {m : Loaded} (h : (Loader.loadModule options fs path caches).2 = .ok m) :
    m.path = path ∧ m.Sized := by
  rw [Loader.loadModule] at h
  split at h
  · cases h
  · dsimp only at h
    split at h
    · cases h
    · split at h
      · cases h
      · rename_i hdeps
        cases h
        exact ⟨rfl, length_resolveAll hdeps⟩

/-- The registry has the module with a path, or it is about to be added. -/
def Available (r : Registry σ) (ms : List Loaded) (p : Text) : Prop :=
  r.Knows p ∨ ∃ m ∈ ms, m.path = p

/-- Modules that are to be added to a registry have all their dependencies there or among them. -/
structure Closed (r : Registry σ) (ms : List Loaded) : Prop where
  sized : ∀ m ∈ ms, m.Sized
  deps : ∀ m ∈ ms, ∀ d ∈ m.deps, Available r ms d

/-- What can be had can be had while the registry grows. -/
theorem Available.mono {ms : List Loaded} {p : Text} (h : Available r ms p)
    (hk : r.Keeps r') : Available r' ms p :=
  h.imp_left hk.knows

/-- What was loaded completely stays so while the registry grows. -/
theorem Closed.mono {ms : List Loaded} (h : Closed r ms) (hk : r.Keeps r') :
    Closed r' ms :=
  ⟨h.sized, fun m hm d hd => (h.deps m hm d hd).mono hk⟩

/-- Which modules are to be added does not depend on their order. -/
theorem Available.perm {ms ms' : List Loaded} {p : Text} (h : Available r ms p) (hp : ms.Perm ms') :
    Available r ms' p :=
  h.imp_right fun ⟨m, hm, e⟩ => ⟨m, hp.mem_iff.1 hm, e⟩

theorem Closed.perm {ms ms' : List Loaded} (h : Closed r ms) (hp : ms.Perm ms') : Closed r ms' :=
  ⟨fun m hm => h.sized m (hp.mem_iff.2 hm), fun m hm d hd => (h.deps m (hp.mem_iff.2 hm) d hd).perm hp⟩

theorem Closed.nil (r : Registry σ) : Closed r [] := ⟨by simp, by simp⟩

/-- A module need not be added any more when the registry knows it. -/
theorem Available.drop {before after : List Loaded} {m : Loaded} {p : Text}
    (h : Available r (before ++ m :: after) p) (hk : r.Knows m.path) :
    Available r (before ++ after) p := by
  rcases h with h | ⟨m', hm', rfl⟩
  · exact .inl h
  · rcases List.mem_append.1 hm' with hm' | hm'
    · exact .inr ⟨m', List.mem_append_left _ hm', rfl⟩
    · rcases List.mem_cons.1 hm' with rfl | hm'
      · exact .inl hk
      · exact .inr ⟨m', List.mem_append_right _ hm', rfl⟩

/-- A module that the registry knows need not be added. -/
theorem Closed.drop {before after : List Loaded} {m : Loaded} (h : Closed r (before ++ m :: after))
    (hk : r.Knows m.path) : Closed r (before ++ after) := by
  have inside : ∀ m' ∈ before ++ after, m' ∈ before ++ m :: after := by
    intro m' hm'
    simp at hm' ⊢
    tauto
  exact ⟨fun m' hm' => h.sized m' (inside m' hm'),
    fun m' hm' d hd => (h.deps m' (inside m' hm') d hd).drop hk⟩

/-! ### During a task -/

namespace TaskStage

/-- The modules that a task is still to add. -/
def pending : TaskStage → List Loaded
  | .adding _ rest => rest
  | .connecting _ rest _ m _ => m :: rest
  | _ => []

/-- What a task relies on at a stage. -/
def Fits (r : Registry σ) : TaskStage → Prop
  | .adding root rest => Available r rest root
  | .connecting root rest place m deps =>
    Available r (m :: rest) root ∧ place < r.graph.length ∧ r.graph.path place = m.path ∧
      r.state place = .new ∧ deps.length ≤ m.deps.length ∧ ∀ d ∈ deps, d < r.graph.length
  | .linking m => m < r.graph.length
  | .evaluating m => (r.state m).isLinked = true
  | .settling result => result ≠ .error .misuse
  | .calling => True

/-- What holds of the registry during a task.  A record without contents is one that the task is still
to add. -/
structure Sound (host : Host σ) (r : Registry σ) (stage : TaskStage) : Prop where
  growing : r.Growing host
  closed : Closed r stage.pending
  records : ∀ x < r.graph.length, Available r stage.pending (r.graph.path x)
  fits : stage.Fits r

variable {stage stage' : TaskStage} {root p : Text} {m : Loaded} {before after rest : List Loaded}
  {place x : ModuleId} {deps : List ModuleId}

/-- When nothing is left to add, every record has its contents. -/
theorem Sound.complete (h : Sound host r stage) (hp : stage.pending = []) : r.Complete := by
  refine h.growing.complete fun x hx => ?_
  have := h.records x hx
  simpa [hp, Available] using this

/-- A stage with nothing to add. -/
theorem Sound.of_complete (growing : r.Growing host) (complete : r.Complete)
    (hp : stage.pending = []) (fits : stage.Fits r) : Sound host r stage where
  growing := growing
  closed := hp ▸ Closed.nil r
  records x hx := by
    refine .inl (growing.knows_iff.2 ⟨x, ?_, complete x hx⟩)
    exact growing.paths.find?_eq_some_iff.2 ⟨hx, rfl⟩
  fits := fits

theorem Sound.withWorld (h : Sound host r stage) (world : σ) :
    Sound host (r.withWorld world) stage where
  growing := h.growing.withWorld world
  closed := h.closed.mono ((Registry.Keeps.refl r).withWorld world)
  records := h.records
  fits := by
    have fits := h.fits
    cases stage <;> exact fits

/-! ### Adding modules -/

/-- Records that are looked up or created are known or about to be added, if their paths are. -/
theorem available_created {ms : List Loaded} (h : r.Growing host)
    (records : ∀ x < r.graph.length, Available r ms (r.graph.path x)) (h' : r'.Growing host)
    (created : Registry.Created r p r' place) (hp : Available r ms p) (hx : x < r'.graph.length) :
    Available r' ms (r'.graph.path x) := by
  have keeps := created.enlarges.keeps h h'
  rcases created.new x hx with hx | rfl
  · rw [created.enlarges.path x hx]
    exact (records x hx).mono keeps
  · rw [(Graph.find?_some created.find).2]
    exact hp.mono keeps

/-- A module that is already there is passed over. -/
theorem Sound.passed (h : Sound host r (.adding root (before ++ m :: after)))
    (h' : r'.Growing host) (created : Registry.Created r m.path r' place)
    (there : r'.state place ≠ .new) : Sound host r' (.adding root (before ++ after)) := by
  have keeps := created.enlarges.keeps h.growing h'
  have known : r'.Knows m.path := h'.knows_iff.2 ⟨place, created.find, there⟩
  have present : Available r (before ++ m :: after) m.path := .inr ⟨m, by simp, rfl⟩
  refine ⟨h', (h.closed.mono keeps).drop known, fun x hx => ?_, ?_⟩
  · exact (available_created h.growing h.records h' created present hx).drop known
  · exact (Available.mono h.fits keeps).drop known

/-- A module that is not there gets its record. -/
theorem Sound.placed (h : Sound host r (.adding root (before ++ m :: after)))
    (h' : r'.Growing host) (created : Registry.Created r m.path r' place)
    (new : r'.state place = .new) :
    Sound host r' (.connecting root (before ++ after) place m []) := by
  have keeps := created.enlarges.keeps h.growing h'
  have first : (before ++ m :: after).Perm (m :: (before ++ after)) := List.perm_middle
  have present : Available r (before ++ m :: after) m.path := .inr ⟨m, by simp, rfl⟩
  have root : Available r (before ++ m :: after) root := h.fits
  obtain ⟨lt, path⟩ := Graph.find?_some created.find
  refine ⟨h', (h.closed.mono keeps).perm first, fun x hx => ?_,
    (root.mono keeps).perm first, lt, path, new, Nat.zero_le _, by simp⟩
  exact (available_created h.growing h.records h' created present hx).perm first

/-- A dependency gets its record. -/
theorem Sound.connected (h : Sound host r (.connecting root rest place m deps))
    (next : m.deps[deps.length]? = some p) {d : ModuleId} (h' : r'.Growing host)
    (created : Registry.Created r p r' d) :
    Sound host r' (.connecting root rest place m (deps ++ [d])) := by
  have keeps := created.enlarges.keeps h.growing h'
  obtain ⟨hroot, lt, path, new, -, hdeps⟩ := h.fits
  obtain ⟨hlen, hp⟩ := List.getElem?_eq_some_iff.1 next
  have present : Available r (m :: rest) p :=
    h.closed.deps m List.mem_cons_self p (hp ▸ List.getElem_mem hlen)
  refine ⟨h', h.closed.mono keeps, fun x hx => ?_, hroot.mono keeps, ?_, ?_, ?_, ?_, ?_⟩
  · exact available_created h.growing h.records h' created present hx
  · exact Nat.lt_of_lt_of_le lt created.enlarges.length
  · rw [created.enlarges.path place lt, path]
  · rw [created.state, new]
  · rw [List.length_append]
    exact hlen
  · intro x hx
    rcases List.mem_append.1 hx with hx | hx
    · exact Nat.lt_of_lt_of_le (hdeps x hx) created.enlarges.length
    · rw [List.mem_singleton.1 hx]
      exact (Graph.find?_some created.find).1

/-- **Attaching is never misuse**, and leaves one module less to add. -/
theorem Sound.attached (h : Sound host r (.connecting root rest place m deps))
    (all : m.deps[deps.length]? = none) :
    ∃ r', r.attach place m.compiled deps = .ok r' ∧ Sound host r' (.adding root rest) ∧
      r.Keeps r' := by
  obtain ⟨hroot, lt, path, new, hle, hdeps⟩ := h.fits
  have sized : m.Sized := h.closed.sized m List.mem_cons_self
  have hlen : deps.length = m.compiled.interface.records.length :=
    (Nat.le_antisymm hle (List.getElem?_eq_none_iff.1 all)).trans sized
  obtain ⟨r', ok, h', attaches⟩ := h.growing.attach lt new hlen hdeps
  have keeps := attaches.enlarges.keeps h.growing h'
  have known : r'.Knows m.path := by
    refine h'.knows_iff.2 ⟨place, ?_, by simp [attaches.self]⟩
    exact keeps.find (h.growing.paths.find?_eq_some_iff.2 ⟨lt, path⟩)
  have drop : ∀ {p}, Available r (m :: rest) p → Available r' rest p :=
    fun hp => @Available.drop σ r' [] rest m _ (hp.mono keeps) known
  refine ⟨r', ok, ⟨h', ?_, fun x hx => ?_, drop hroot⟩, keeps⟩
  · exact @Closed.drop σ r' [] rest m (h.closed.mono keeps) known
  · rw [attaches.length] at hx
    rw [attaches.enlarges.path x hx]
    exact drop (h.records x hx)

/-! ### Steps of a task -/

/-- **Every step of a task leaves the registry in order**, and what it has is kept. -/
theorem Sound.steps (h : Sound host r stage) (hs : Steps host r stage r' stage') :
    Sound host r' stage' ∧ r.Keeps r' := by
  cases hs with
  | rooted known =>
      have lt := (Graph.find?_some (h.growing.get?_eq_some_iff.1 known).1).1
      exact ⟨.of_complete h.growing (h.complete rfl) rfl lt, .refl r⟩
  | lost unknown =>
      -- the root is known or still to be added, and nothing is left to add
      rcases h.fits with hk | ⟨m, hm, -⟩
      · simp [Registry.Knows, unknown] at hk
      · cases hm
  | @passed root before after m there =>
      obtain ⟨h', created⟩ := h.growing.create m.path
      exact ⟨h.passed h' created there, created.enlarges.keeps h.growing h'⟩
  | @placed root before after m new =>
      obtain ⟨h', created⟩ := h.growing.create m.path
      exact ⟨h.placed h' created new, created.enlarges.keeps h.growing h'⟩
  | @connected root path rest place m deps next =>
      obtain ⟨h', created⟩ := h.growing.create path
      exact ⟨h.connected next h' created, created.enlarges.keeps h.growing h'⟩
  | attached all ok =>
      obtain ⟨r₁, ok', h', keeps⟩ := h.attached all
      cases ok.symm.trans ok'
      exact ⟨h', keeps⟩
  | unattached all misuse =>
      obtain ⟨r₁, ok', -, -⟩ := h.attached all
      cases misuse.symm.trans ok'
  | @linked m ok =>
      have complete := h.complete rfl
      have rest := h.growing.atRest complete
      have admits := rest.admits (.link m)
      refine ⟨.of_complete (h.growing.handle admits) (h.growing.complete_handle complete (.link m)) rfl
        ?_, h.growing.keeps_handle admits⟩
      exact rest.isLinked_link ok
  | @unlinked m s error =>
      have complete := h.complete rfl
      have rest := h.growing.atRest complete
      have admits := rest.admits (.link m)
      refine ⟨.of_complete (h.growing.handle admits) (h.growing.complete_handle complete (.link m)) rfl
        ?_, h.growing.keeps_handle admits⟩
      rintro ⟨⟩
      exact rest.link_ne_misuse h.fits error
  | @evaluated m world ns ok ask =>
      have complete := h.complete rfl
      have admits := (h.growing.atRest complete).admits (.evaluate m)
      refine ⟨.of_complete ((h.growing.handle admits).withWorld world)
        (h.growing.complete_handle complete (.evaluate m)) rfl ?_,
        (h.growing.keeps_handle admits).withWorld world⟩
      rintro ⟨⟩
  | @failed m s error =>
      have complete := h.complete rfl
      have rest := h.growing.atRest complete
      have admits := rest.admits (.evaluate m)
      refine ⟨.of_complete (h.growing.handle admits) (h.growing.complete_handle complete (.evaluate m))
        rfl ?_, h.growing.keeps_handle admits⟩
      rintro ⟨⟩
      exact rest.evaluate_ne_misuse h.fits error

/-- A stage belongs to a task with the given modules: the task imports the module at hand, and a task
that has nothing to import only reports why. -/
def Serves (r : Registry σ) (loaded : Except ModuleError (Text × List Loaded)) : TaskStage → Prop
  | .adding root _ | .connecting root _ _ _ _ => ∃ ms, loaded = .ok (root, ms)
  | .linking m | .evaluating m => ∃ root ms, loaded = .ok (root, ms) ∧ r.graph.find? root = some m
  | .settling result => ∀ e, loaded = .error e → result = .error (.error e)
  | .calling => True

/-- A task begins with what was loaded. -/
theorem serves_first (r : Registry σ) (loaded : Except ModuleError (Text × List Loaded)) :
    (first loaded).Serves r loaded := by
  cases loaded with
  | error e =>
      intro e' he
      cases he
      rfl
  | ok loaded => exact ⟨loaded.2, rfl⟩

/-- A task serves its load in any world. -/
theorem Serves.withWorld {loaded : Except ModuleError (Text × List Loaded)}
    (h : stage.Serves r loaded) (world : σ) : stage.Serves (r.withWorld world) loaded := by
  cases stage <;> exact h

/-- A step of a task serves the load as before. -/
theorem Serves.steps {loaded : Except ModuleError (Text × List Loaded)} (h : stage.Serves r loaded)
    (hr : r.Growing host) (keeps : r.Keeps r') (hs : Steps host r stage r' stage') :
    stage'.Serves r' loaded := by
  cases hs with
  | rooted known =>
      obtain ⟨ms, rfl⟩ := h
      exact ⟨_, ms, rfl, (hr.get?_eq_some_iff.1 known).1⟩
  | passed | placed | connected | attached => exact h
  | lost | unattached =>
      obtain ⟨ms, rfl⟩ := h
      exact nofun
  | linked =>
      obtain ⟨root, ms, rfl, found⟩ := h
      exact ⟨root, ms, rfl, keeps.find found⟩
  | unlinked | evaluated | failed =>
      obtain ⟨root, ms, rfl, -⟩ := h
      exact nofun

/-- A task whose modules could not be loaded takes no step on the registry. -/
theorem Serves.loaded {loaded : Except ModuleError (Text × List Loaded)} (h : stage.Serves r loaded)
    (hs : Steps host r stage r' stage') : ∃ root ms, loaded = .ok (root, ms) := by
  cases hs with
  | rooted | lost | passed | placed | connected | attached | unattached =>
      obtain ⟨ms, hl⟩ := h
      exact ⟨_, ms, hl⟩
  | linked | unlinked | evaluated | failed =>
      obtain ⟨root, ms, hl, -⟩ := h
      exact ⟨root, ms, hl⟩

end TaskStage

/-! ### At every moment of a session -/

/-- What an import is loading will be complete. -/
def ImportPhase.Sound (r : Registry σ) : ImportPhase → Prop
  | .loading root l => l.Covers r.Knows (fun p m => m.path = p) root ∧ ∀ m ∈ l.loaded, m.Sized
  | _ => True

/-- What a task is to add is complete. -/
def ImportTask.Sound (r : Registry σ) (t : ImportTask) : Prop :=
  ∀ root ms, t.loaded = .ok (root, ms) → Closed r ms ∧ Available r ms root

/-- An import whose phase is sound stays so while the registry grows. -/
theorem ImportPhase.Sound.mono {phase : ImportPhase} (h : phase.Sound r)
    (hk : r.Keeps r') : phase.Sound r' := by
  cases phase with
  | loading root l => exact ⟨h.1.mono fun _ => hk.knows, h.2⟩
  | _ => trivial

theorem ImportTask.Sound.mono {t : ImportTask} (h : t.Sound r) (hk : r.Keeps r') :
    t.Sound r' :=
  fun root ms ht => ⟨(h root ms ht).1.mono hk, (h root ms ht).2.mono hk⟩

/-- A worker of an import that loads brings in modules of their full size only. -/
theorem ImportPhase.Sound.work {s : Session σ} {root : Text} {l : Load}
    (h : Sound s.registry (.loading root l)) (fs : FileSystem) (caches : Resolver) {worker : Nat}
    (lt : worker < l.workers.length) :
    Sound s.registry (.loading root
      (l.advance s.isKnown (fun path => (Loader.loadModule s.options fs path caches).2) worker)) := by
  obtain ⟨covers, sized⟩ := h
  have moves : Load.Moves s.isKnown _ l (l.advance s.isKnown
      (fun path => (Loader.loadModule s.options fs path caches).2) worker) :=
    Load.advance_moves lt
  refine ⟨covers.moves (fun _ hp => hp) (fun p m hm => (loadModule_ok hm).1) moves, fun m hm => ?_⟩
  rcases moves.mem_loaded hm with hm | ⟨p, ok⟩
  · exact sized m hm
  · exact (loadModule_ok ok).2

/-- What is handed over to the event loop is complete. -/
theorem ImportPhase.Sound.outcome {phase : ImportPhase} (h : phase.Sound r) {future : Nat}
    {loaded : Except ModuleError (Text × List Loaded)} (ho : phase.outcome? = some loaded) :
    ImportTask.Sound r { future, loaded } := by
  rintro root ms rfl
  cases phase with
  | loading root' l =>
      simp only [outcome?] at ho
      split at ho
      · rename_i done
        obtain ⟨he, rfl, rfl⟩ := Load.eq_of_result_eq_ok (Option.some.inj ho)
        obtain ⟨covers, sized⟩ := h
        obtain ⟨visited, deps⟩ := covers.complete (List.isEmpty_iff.1 done) he
        exact ⟨⟨sized, fun m hm d hd => visited d (deps m hm d hd)⟩, visited root covers.asked⟩
      · cases ho
  | _ => simp [outcome?] at ho

namespace Session

/-- What holds in a session at every moment. -/
structure Steady (host : Host σ) (s : Session σ) : Prop where
  task : s.stage.Sound host s.registry
  idle : (∀ t, s.position ≠ .running t) → s.stage = .calling
  serves : ∀ t, s.position = .running t → s.stage.Serves s.registry t.loaded
  queue : ∀ t ∈ s.loop.queue, t.Sound s.registry
  imports : ∀ x ∈ s.imports, x.phase.Sound s.registry

variable {s s' : Session σ} {a : Action σ}

/-- A session begins steady. -/
theorem Steady.new (host : Host σ) (options : Options) (world : σ) :
    Steady host (Session.new options world) where
  task := .of_complete (.empty host world) (fun m hm => absurd hm (Nat.not_lt_zero m)) rfl trivial
  idle _ := rfl
  serves _ ht := by cases ht
  queue t ht := by cases ht
  imports x hx := by cases hx

/-- Between two tasks every record has its contents. -/
theorem Steady.complete (h : Steady host s) (hp : ∀ t, s.position ≠ .running t) :
    s.registry.Complete :=
  h.task.complete (by rw [h.idle hp]; rfl)

/-- A task that has not come to its callbacks is running. -/
theorem Steady.exists_running (h : Steady host s) (hs : s.stage ≠ .calling) :
    ∃ t, s.position = .running t := by
  by_contra hne
  exact hs (h.idle fun t ht => hne ⟨t, ht⟩)

theorem Steady.calling (h : Steady host s) (complete : s.registry.Complete) :
    TaskStage.Sound host s.registry .calling :=
  .of_complete h.task.growing complete rfl trivial

/-- An import may go on to another phase that is sound. -/
theorem Steady.setPhase (h : Steady host s) (i : Nat) {phase : ImportPhase}
    (hp : phase.Sound s.registry) : Steady host (s.setPhase i phase) := by
  refine ⟨h.task, h.idle, h.serves, h.queue, fun y hy => ?_⟩
  rcases mem_imports_setPhase hy with hy | ⟨x, -, rfl⟩
  · exact h.imports y hy
  · exact hp

/-- A task begins with a registry in order. -/
theorem Steady.first (h : Steady host s) (complete : s.registry.Complete) {t : ImportTask}
    (ht : t.Sound s.registry) : TaskStage.Sound host s.registry (.first t.loaded) := by
  cases hl : t.loaded with
  | error e => exact .of_complete h.task.growing complete rfl nofun
  | ok loaded =>
      obtain ⟨root, ms⟩ := loaded
      obtain ⟨closed, available⟩ := ht root ms hl
      have records := (h.calling complete).records
      refine ⟨h.task.growing, closed, fun x hx => .inl ?_, available⟩
      exact (records x hx).resolve_right (by simp [TaskStage.pending])

/-- What is handed over waits in the queue of the event loop. -/
theorem Steady.handedOver (h : Steady host s) (i : Nat) (ticket : Ticket)
    {loaded : Except ModuleError (Text × List Loaded)}
    (sound : ImportTask.Sound s.registry { future := i, loaded }) :
    Steady host (s.handedOver i ticket loaded) := by
  have queued : Steady host { s with loop := {
      queue := s.loop.queue ++ [{ future := i, loaded }]
      reserved := s.loop.reserved.erase ticket
      issued := s.loop.issued
      signalled := true } } := by
    refine ⟨h.task, h.idle, h.serves, fun t ht => ?_, h.imports⟩
    rcases List.mem_append.1 ht with ht | ht
    · exact h.queue t ht
    · rw [List.mem_singleton.1 ht]
      exact sound
  exact queued.setPhase i trivial

/-- **Every action leaves a session in order.** -/
theorem Steady.happens (h : Steady host s) (ha : Happens host s a s') : Steady host s' := by
  cases ha with
  | started specifier referer =>
      refine ⟨h.task, h.idle, h.serves, h.queue, fun x hx => ?_⟩
      rcases List.mem_append.1 hx with hx | hx
      · exact h.imports x hx
      · rw [List.mem_singleton.1 hx]
        trivial
  | refused => exact h.setPhase _ trivial
  | @found i fs caches x root =>
      refine h.setPhase i ⟨.begin (fun _ hp => hp) root, fun m hm => ?_⟩
      rw [Load.loaded_visit] at hm
      cases hm
  | @worked i worker fs caches x root l at_ phase lt =>
      have hx := h.imports x (List.mem_of_getElem? at_)
      rw [phase] at hx
      exact h.setPhase i (hx.work fs caches lt)
  | handedOver at_ outcome =>
      exact h.handedOver _ _ ((h.imports _ (List.mem_of_getElem? at_)).outcome outcome)
  | ran position =>
      have stage := h.idle (by simp [position])
      exact ⟨h.task, fun _ => stage, nofun, h.queue, h.imports⟩
  -- between two tasks nothing is pending, so the stage is `calling` before and after
  | stopped _ position | looked position | ended _ position | waited _ position | woke _ position
  | gaveUp _ position =>
      exact ⟨h.calling (h.complete (by simp [position])), fun _ => rfl, nofun, h.queue, h.imports⟩
  | began interrupted position queue =>
      have hq := h.queue
      rw [queue] at hq
      refine ⟨h.first (h.complete (by simp [position])) (hq _ List.mem_cons_self), ?_, ?_,
        fun t ht => hq t (List.mem_cons_of_mem _ ht), h.imports⟩
      · intro hne
        exact absurd rfl (hne _)
      · rintro t ⟨⟩
        exact TaskStage.serves_first _ _
  | finished _ position stage | settled position stage =>
      exact ⟨h.calling (h.task.complete (by rw [stage]; rfl)), fun _ => rfl, fun _ _ => trivial, h.queue,
        h.imports⟩
  | proceeded position steps =>
      obtain ⟨task, keeps⟩ := h.task.steps steps
      refine ⟨task, fun hne => absurd position (hne _),
        fun t ht => (h.serves t ht).steps h.task.growing keeps steps, fun t ht => (h.queue t ht).mono keeps,
        fun x hx => (h.imports x hx).mono keeps⟩
  | added | called => exact ⟨h.task, h.idle, h.serves, h.queue, h.imports⟩
  | played f =>
      have keeps := (Registry.Keeps.refl s.registry).withWorld (f s.registry.world)
      exact ⟨h.task.withWorld _, h.idle, fun t ht => (h.serves t ht).withWorld _,
        fun t ht => (h.queue t ht).mono keeps, fun x hx => (h.imports x hx).mono keeps⟩

/-- **A session is in order at every moment**, with any number of imports and in any order of what they
do. -/
theorem steady (host : Host σ) (options : Options) (world : σ) {schedule : List (Action σ)}
    (h : (Session.new options world).run host schedule = some s) : Steady host s :=
  run_induct h (.new host options world) fun h ha => h.happens ha

/-- **Modules are attached before they are linked.**  Whatever imports are under way and whatever files
hold at different times: a task that comes to link its module finds the module and everything it
reaches attached.  None of the things that a task does on the way is misuse. -/
theorem attached_before_link (host : Host σ) (options : Options) (world : σ)
    {schedule : List (Action σ)} (h : (Session.new options world).run host schedule = some s) :
    (∀ m, s.stage = .linking m →
      (∃ t root ms, s.position = .running t ∧ t.loaded = .ok (root, ms) ∧
        s.registry.get? root = some m) ∧
      ∀ x, s.registry.graph.Reaches m x → (s.registry.graph.node x).compiled.isSome = true) ∧
    (∀ root, s.stage = .adding root [] → (s.registry.get? root).isSome = true) ∧
    (∀ root rest place m deps, s.stage = .connecting root rest place m deps →
      m.deps[deps.length]? = none → ∃ r, s.registry.attach place m.compiled deps = .ok r) ∧
    (∀ m, s.stage = .linking m → (s.registry.link host m).2 ≠ .error .misuse) ∧
    (∀ m, s.stage = .evaluating m → (s.registry.evaluate host m).2 ≠ .error .misuse) ∧
    s.stage ≠ .settling (.error .misuse) := by
  have steady := steady host options world h
  refine ⟨fun m hm => ⟨?_, fun x hx => ?_⟩, fun root hr => ?_, fun root rest place m deps hc all => ?_,
    fun m hm => ?_, fun m hm => ?_, fun hs => ?_⟩
  · obtain ⟨t, ht⟩ := steady.exists_running (by rw [hm]; nofun)
    have serves := steady.serves t ht
    rw [hm] at serves
    obtain ⟨root, ms, hl, found⟩ := serves
    refine ⟨t, root, ms, ht, hl, steady.task.growing.get?_eq_some_iff.2 ⟨found, ?_⟩⟩
    exact steady.task.complete (by rw [hm]; rfl) m (Graph.find?_some found).1
  · have fits := steady.task.fits
    rw [hm] at fits
    -- what is reached has a record, and every record has its contents while a task links
    have lt := steady.task.growing.lt_of_reaches hx fits
    exact (steady.task.growing.contents x).2 (steady.task.complete (by rw [hm]; rfl) x lt)
  · have fits := steady.task.fits
    rw [hr] at fits
    exact fits.resolve_right (by simp)
  · have task := steady.task
    rw [hc] at task
    obtain ⟨r, ok, -⟩ := task.attached all
    exact ⟨r, ok⟩
  · have fits := steady.task.fits
    rw [hm] at fits
    exact (steady.task.growing.atRest (steady.task.complete (by rw [hm]; rfl))).link_ne_misuse fits
  · have fits := steady.task.fits
    rw [hm] at fits
    have rest := steady.task.growing.atRest (steady.task.complete (by rw [hm]; rfl))
    exact rest.evaluate_ne_misuse fits
  · have fits := steady.task.fits
    rw [hs] at fits
    exact fits rfl

/-- The path of a module. -/
def pathA : Text := "/a.mjs"

/-- The path of another module. -/
def pathB : Text := "/b.mjs"

/-- Two modules that import each other. -/
def pair : FileSystem where
  style := .unix
  cwd := "/"
  list _ := .error .missing
  read path := .ok (if path = pathA then "import './b.mjs'" else "import './a.mjs'")
  modKey _ := .error .keyUnavailable
  abs path := path
  rel? _ _ := none

/-- A resolver that has found both modules before. -/
def pairCaches : Resolver where
  options := { cwd := "/" }
  roots := []
  results := [(("/", "./a.mjs"), pathA), (("/", "./b.mjs"), pathB)]

/-- Two imports that cross.  The first one loads both modules, and its task attaches `b`.  At this
moment the second import finds `b` in the registry, although the module that `b` imports has no contents
yet.  It has nothing to load, and its task is about to link `b` at the end. -/
def crossing : List (Action Stage) :=
  [Action.start "./a.mjs" [], .start "./b.mjs" [], .resolve 0 pair pairCaches] ++
  [0, 0, 0, 1, 1, 1, 1, 0].map (Action.work 0 · pair pairCaches) ++
  [Action.handOver 0, .run, .turn none, .turn none, .proceed 1, .proceed 0, .proceed 0,
    .resolve 1 pair pairCaches, .handOver 1] ++
  List.replicate 7 (Action.proceed 0) ++ [Action.turn none, .turn none, .turn none, .proceed 0]

/-- The module that a task is about to link. -/
def linking? : TaskStage → Option ModuleId
  | .linking m => some m
  | _ => none

/-- A task that links links this module. -/
theorem eq_of_linking? {stage : TaskStage} {m : ModuleId}
    (h : linking? stage = some m) : stage = .linking m := by
  cases stage <;> cases h
  rfl

theorem attached_before_link_crossing :
    ∃ s, (Session.new {} {}).run Stage.host crossing = some s ∧ s.stage = .linking 0 ∧
      s.registry.graph.Reaches 0 1 ∧ (s.registry.graph.node 1).compiled.isSome = true := by
  have run : ((Session.new {} {}).run Stage.host crossing).map
      (fun s => (linking? s.stage, s.registry.graph.deps 0)) = some (some 0, [1]) := by
    decide +kernel
  obtain ⟨s, hs, hlook⟩ := Option.map_eq_some_iff.1 run
  obtain ⟨hlink, hdeps⟩ := Prod.mk.inj hlook
  have stage := eq_of_linking? hlink
  have reaches : s.registry.graph.Reaches 0 1 := .dep (by rw [hdeps]; exact List.mem_singleton.2 rfl)
  obtain ⟨linking, -⟩ := attached_before_link Stage.host {} {} hs
  exact ⟨s, hs, stage, reaches, (linking 0 stage).2 1 reaches⟩

end Session

end ModuleSystem
