import ModuleSystem.Proofs.Loader.Session

/-!
# Loader — tickets, tasks and futures

An import holds a ticket until its modules are loaded.  It hands the ticket over for a task, and the
task settles the future of the import.  At every moment (`Session.Orderly`) an import whose future is
not settled has its ticket, or exactly one task that has yet to settle it.  So no future is settled
twice, and when the event loop finds neither tickets nor tasks, all futures are settled.
-/

namespace ModuleSystem

variable {σ : Type} {host : Host σ}

/-- An import is over as far as loading is concerned. -/
def ImportPhase.isOver : ImportPhase → Bool
  | .ended _ => true
  | _ => false

/-- An import with an outcome is not over. -/
theorem ImportPhase.isOver_of_outcome? {phase : ImportPhase}
    {loaded : Except ModuleError (Text × List Loaded)} (h : phase.outcome? = some loaded) :
    phase.isOver = false := by
  cases phase <;> first | rfl | cases h

namespace TaskStage

/-- Steps of a task end before its callbacks run. -/
theorem Steps.ne_calling {r r' : Registry σ} {stage stage' : TaskStage}
    (h : Steps host r stage r' stage') : stage ≠ .calling ∧ stage' ≠ .calling := by
  cases h <;> exact ⟨nofun, nofun⟩

theorem first_ne_calling (loaded : Except ModuleError (Text × List Loaded)) :
    first loaded ≠ .calling := by
  cases loaded <;> nofun

end TaskStage

namespace Session

variable {s s' : Session σ} {a : Action σ} {t : ImportTask}

/-- The running task, while it has yet to settle its future. -/
def current? (s : Session σ) : Option ImportTask :=
  match s.position, s.stage with
  | .running _, .calling => none
  | .running t, _ => some t
  | _, _ => none

/-- The imports that have yet to settle their futures: those that hold a ticket, and those whose task
runs or waits to run. -/
def unsettled (s : Session σ) : List Nat :=
  s.loop.reserved ++ (s.current?.toList ++ s.loop.queue).map (·.future)

/-- A loop that runs no task has no current one. -/
theorem current?_of_not_running (h : ∀ t, s.position ≠ .running t) : s.current? = none := by
  rw [current?]
  split
  · rfl
  · exact absurd ‹_› (h _)
  · rfl

theorem current?_of_calling (h : s.stage = .calling) : s.current? = none := by
  rw [current?, h]
  split <;> simp_all

/-- A task that has not come to its callbacks is the current one. -/
theorem current?_of_running (hp : s.position = .running t) (hs : s.stage ≠ .calling) :
    s.current? = some t := by
  rw [current?, hp]
  split <;> simp_all

/-- What holds of tickets, tasks and futures at every moment. -/
structure Orderly (s : Session σ) : Prop where
  futures : s.futures.length = s.imports.length
  issued : s.loop.issued = s.imports.length
  tickets : ∀ {i : Nat} {x : Import}, s.imports[i]? = some x → x.ticket = i
  reserved : ∀ {i : Nat} {x : Import}, s.imports[i]? = some x →
    (i ∈ s.loop.reserved ↔ x.phase.isOver = false)
  queue : ∀ t ∈ s.loop.queue, ∃ x, s.imports[t.future]? = some x ∧ x.phase = .ended t.loaded
  running : ∀ t, s.position = .running t →
    ∃ x, s.imports[t.future]? = some x ∧ x.phase = .ended t.loaded
  lt : ∀ i ∈ s.unsettled, i < s.imports.length
  nodup : s.unsettled.Nodup
  results : ∀ {i : Nat} {f : Future ImportResult}, s.futures[i]? = some f →
    (f.result = none ↔ i ∈ s.unsettled)
  waiting : s.position = .waiting → s.loop.signalled = false →
    s.loop.queue = [] ∧ s.loop.reserved ≠ []

/-- A session begins with no ticket. -/
theorem Orderly.new (options : Options) (world : σ) : Orderly (Session.new options world) where
  futures := rfl
  issued := rfl
  tickets h := by cases h
  reserved h := by cases h
  queue t ht := by cases ht
  running t ht := by cases ht
  lt i hi := by cases hi
  nodup := List.nodup_nil
  results h := by cases h
  waiting h := by cases h

/-- What the event loop and its tasks do between settling two futures. -/
theorem Orderly.turned (h : Orderly s) (imports : s'.imports = s.imports)
    (futures : s'.futures = s.futures) (issued : s'.loop.issued = s.loop.issued)
    (reserved : s'.loop.reserved = s.loop.reserved) (queue : ∀ t ∈ s'.loop.queue, t ∈ s.loop.queue)
    (running : ∀ t, s'.position = .running t → s.position = .running t ∨ t ∈ s.loop.queue)
    (unsettled : s'.unsettled = s.unsettled)
    (waiting : s'.position = .waiting → s'.loop.signalled = false →
      s'.loop.queue = [] ∧ s'.loop.reserved ≠ []) : Orderly s' where
  futures := by rw [futures, imports, h.futures]
  issued := by rw [issued, imports, h.issued]
  tickets hx := h.tickets (imports ▸ hx)
  reserved hx := by
    rw [reserved]
    exact h.reserved (imports ▸ hx)
  queue t ht := by
    rw [imports]
    exact h.queue t (queue t ht)
  running t ht := by
    rw [imports]
    exact (running t ht).elim (h.running t) (h.queue t)
  lt i hi := by
    rw [imports]
    exact h.lt i (unsettled ▸ hi)
  nodup := unsettled ▸ h.nodup
  results hf := by
    rw [unsettled]
    exact h.results (futures ▸ hf)
  waiting := waiting

/-- What is unsettled depends on the tickets, the queue and the current task. -/
theorem unsettled_congr (reserved : s'.loop.reserved = s.loop.reserved)
    (queue : s'.loop.queue = s.loop.queue) (current : s'.current? = s.current?) :
    s'.unsettled = s.unsettled := by
  rw [unsettled, unsettled, reserved, queue, current]

/-- A step of the loop that neither begins nor ends a task. -/
theorem Orderly.idle (h : Orderly s) {loop : EventLoop ImportTask}
    {position : EventLoop.Position ImportTask} (hl : loop.reserved = s.loop.reserved)
    (hq : loop.queue = s.loop.queue) (hi : loop.issued = s.loop.issued) (hc : s.current? = none)
    (hp : ∀ t, position ≠ .running t)
    (waiting : position = .waiting → loop.signalled = false → loop.queue = [] ∧ loop.reserved ≠ []) :
    Orderly { s with loop, position, stage := .calling } := by
  refine h.turned rfl rfl hi hl (fun t ht => hq ▸ ht) (fun t ht => absurd ht (hp t)) ?_ waiting
  exact unsettled_congr hl hq ((current?_of_not_running hp).trans hc.symm)

theorem length_setPhase {i : Nat} {phase : ImportPhase} :
    (s.setPhase i phase).imports.length = s.imports.length := by
  simp [Session.setPhase]

/-- The import that goes on has its new phase. -/
theorem getElem?_setPhase_self {i : Nat} {x : Import} {phase : ImportPhase}
    (h : s.imports[i]? = some x) : (s.setPhase i phase).imports[i]? = some { x with phase } := by
  rw [getElem?_setPhase, if_pos rfl, h]
  rfl

/-- The others have theirs. -/
theorem getElem?_setPhase_of_ne {i j : Nat} {phase : ImportPhase} (h : j ≠ i) :
    (s.setPhase i phase).imports[j]? = s.imports[j]? := by
  rw [getElem?_setPhase, if_neg h.symm]

/-- An import that is not over has no task. -/
theorem ne_of_over {i : Nat} {x : Import} (at_ : s.imports[i]? = some x)
    (hx : x.phase.isOver = false)
    (ht : ∃ y, s.imports[t.future]? = some y ∧ y.phase = .ended t.loaded) : t.future ≠ i := by
  rintro rfl
  obtain ⟨y, hy, ended⟩ := ht
  cases at_.symm.trans hy
  rw [ended] at hx
  cases hx

/-- The first part of an import goes on. -/
theorem Orderly.setPhase (h : Orderly s) {i : Nat} {x : Import} {phase : ImportPhase}
    (at_ : s.imports[i]? = some x) (hx : x.phase.isOver = false) (hp : phase.isOver = false) :
    Orderly (s.setPhase i phase) := by
  have task : ∀ t : ImportTask, (∃ y, s.imports[t.future]? = some y ∧ y.phase = .ended t.loaded) →
      ∃ y, (s.setPhase i phase).imports[t.future]? = some y ∧ y.phase = .ended t.loaded := by
    intro t ht
    rwa [getElem?_setPhase_of_ne (ne_of_over at_ hx ht)]
  refine
    { futures := by rw [length_setPhase]; exact h.futures
      issued := by rw [length_setPhase]; exact h.issued
      tickets := fun {j y} hy => ?_
      reserved := fun {j y} hy => ?_
      queue := fun t ht => task t (h.queue t ht)
      running := fun t ht => task t (h.running t ht)
      lt := fun j hj => by rw [length_setPhase]; exact h.lt j hj
      nodup := h.nodup
      results := h.results
      waiting := h.waiting }
  · by_cases hj : j = i
    · subst hj
      cases (getElem?_setPhase_self at_).symm.trans hy
      have ticket := h.tickets at_
      exact ticket
    · rw [getElem?_setPhase_of_ne hj] at hy
      exact h.tickets hy
  · by_cases hj : j = i
    · subst hj
      cases (getElem?_setPhase_self at_).symm.trans hy
      exact iff_of_true ((h.reserved at_).2 hx) hp
    · rw [getElem?_setPhase_of_ne hj] at hy
      exact h.reserved hy

/-- Handing over neither adds an import nor settles one. -/
theorem unsettled_handedOver {i : Nat} (held : i ∈ s.loop.reserved)
    (loaded : Except ModuleError (Text × List Loaded)) :
    (s.handedOver i i loaded).unsettled.Perm s.unsettled := by
  have current : (s.handedOver i i loaded).current? = s.current? := rfl
  rw [unsettled, unsettled, current]
  simp only [handedOver, Session.setPhase, ← List.append_assoc, List.map_append, List.map_cons,
    List.map_nil]
  refine List.perm_append_comm.trans ?_
  rw [← List.append_assoc, ← List.append_assoc]
  exact ((List.perm_cons_erase held).symm.append_right _).append_right _

/-- A ticket that is handed over is queued with its task. -/
theorem Orderly.handedOver (h : Orderly s) {i : Nat} {x : Import} (at_ : s.imports[i]? = some x)
    (hx : x.phase.isOver = false) (loaded : Except ModuleError (Text × List Loaded)) :
    Orderly (s.handedOver i x.ticket loaded) := by
  rw [h.tickets at_]
  -- an import that is not over still holds its ticket
  have held : i ∈ s.loop.reserved := (h.reserved at_).2 hx
  have same := unsettled_handedOver held loaded
  have task : ∀ t : ImportTask, (∃ y, s.imports[t.future]? = some y ∧ y.phase = .ended t.loaded) →
      ∃ y, (s.handedOver i i loaded).imports[t.future]? = some y ∧ y.phase = .ended t.loaded := by
    intro t ht
    rwa [Session.handedOver, getElem?_setPhase_of_ne (ne_of_over at_ hx ht)]
  have nodup : s.loop.reserved.Nodup := (List.nodup_append.1 h.nodup).1
  refine
    { futures := by rw [Session.handedOver, length_setPhase]; exact h.futures
      issued := by rw [Session.handedOver, length_setPhase]; exact h.issued
      tickets := fun {j y} hy => ?_
      reserved := fun {j y} hy => ?_
      queue := fun t ht => ?_
      running := fun t ht => task t (h.running t ht)
      lt := fun j hj => by
        rw [Session.handedOver, length_setPhase]
        exact h.lt j (same.mem_iff.1 hj)
      nodup := same.nodup_iff.2 h.nodup
      results := fun hf => (h.results hf).trans same.mem_iff.symm
      waiting := nofun }
  · by_cases hj : j = i
    · subst hj
      cases (getElem?_setPhase_self at_).symm.trans hy
      have ticket := h.tickets at_
      exact ticket
    · rw [Session.handedOver, getElem?_setPhase_of_ne hj] at hy
      exact h.tickets hy
  · by_cases hj : j = i
    · subst hj
      cases (getElem?_setPhase_self at_).symm.trans hy
      exact iff_of_false (fun hm => nodup.not_mem_erase hm) nofun
    · rw [Session.handedOver, getElem?_setPhase_of_ne hj] at hy
      exact (List.mem_erase_of_ne hj).trans (h.reserved hy)
  · rcases List.mem_append.1 ht with ht | ht
    · exact task t (h.queue t ht)
    · rw [List.mem_singleton.1 ht]
      exact ⟨_, getElem?_setPhase_self at_, rfl⟩

/-- An import that begins is to settle its future. -/
theorem Orderly.unsettled_started (h : Orderly s) (specifier referer : Text) :
    (s.started specifier referer).unsettled.Perm (s.imports.length :: s.unsettled) := by
  have current : (s.started specifier referer).current? = s.current? := rfl
  rw [unsettled, unsettled, current, ← h.issued]
  simp only [Session.started, List.append_assoc, List.singleton_append]
  exact List.perm_middle

/-- An import that is started has a ticket of its own. -/
theorem Orderly.started (h : Orderly s) (specifier referer : Text) :
    Orderly (s.started specifier referer) := by
  -- the new import has the last index, and with it the ticket that is issued next
  have one := h.unsettled_started specifier referer
  have old : ∀ {i : Nat} {x : Import}, s.imports[i]? = some x →
      (s.started specifier referer).imports[i]? = some x :=
    fun hx => getElem?_concat_eq_some_iff.2 (.inl hx)
  have lt : ∀ {i : Nat} {x : Import}, s.imports[i]? = some x → i < s.imports.length :=
    fun hx => (List.getElem?_eq_some_iff.1 hx).1
  refine
    { futures := by simp [Session.started, h.futures]
      issued := by simp [Session.started, h.issued]
      tickets := fun {i x} hx => ?_
      reserved := fun {i x} hx => ?_
      queue := fun t ht => ?_
      running := fun t ht => ?_
      lt := fun i hi => ?_
      nodup := ?_
      results := fun {i f} hf => ?_
      waiting := fun hp hs => ?_ }
  · rcases getElem?_concat_eq_some_iff.1 hx with hx | ⟨rfl, rfl⟩
    · exact h.tickets hx
    · exact h.issued
  · rcases getElem?_concat_eq_some_iff.1 hx with hx | ⟨rfl, rfl⟩
    · have : i ≠ s.loop.issued := by
        rw [h.issued]
        exact Nat.ne_of_lt (lt hx)
      simp [Session.started, this, h.reserved hx]
    · simp [Session.started, h.issued, ImportPhase.isOver]
  · obtain ⟨x, hx, ended⟩ := h.queue t ht
    exact ⟨x, old hx, ended⟩
  · obtain ⟨x, hx, ended⟩ := h.running t ht
    exact ⟨x, old hx, ended⟩
  · have : (s.started specifier referer).imports.length = s.imports.length + 1 := by
      simp [Session.started]
    rw [this]
    rcases List.mem_cons.1 (one.mem_iff.1 hi) with rfl | hi
    · exact Nat.lt_succ_self _
    · exact Nat.lt_succ_of_lt (h.lt i hi)
  · refine one.nodup_iff.2 (List.nodup_cons.2 ⟨fun hm => ?_, h.nodup⟩)
    exact Nat.lt_irrefl _ (h.lt _ hm)
  · rw [one.mem_iff, List.mem_cons]
    rcases getElem?_concat_eq_some_iff.1 hf with hf | ⟨rfl, rfl⟩
    · have : i ≠ s.imports.length := by
        rw [← h.futures]
        exact Nat.ne_of_lt (List.getElem?_eq_some_iff.1 hf).1
      simp [this, h.results hf]
    · simp [h.futures]
  · obtain ⟨hq, -⟩ := h.waiting hp hs
    exact ⟨hq, by simp [Session.started]⟩

/-- Something happens to a future that does not settle it. -/
theorem Orderly.setFuture (h : Orderly s) {i : Nat} {f f' : Future ImportResult}
    (at_ : s.futures[i]? = some f) (hr : f'.result = f.result) :
    Orderly { s with futures := s.futures.set i f' } := by
  refine
    { futures := by rw [List.length_set]; exact h.futures
      issued := h.issued
      tickets := h.tickets
      reserved := h.reserved
      queue := h.queue
      running := h.running
      lt := h.lt
      nodup := h.nodup
      results := fun {j g} hg => ?_
      waiting := h.waiting }
  rcases (getElem?_set_eq_some_iff at_).1 hg with ⟨-, hg⟩ | ⟨rfl, rfl⟩
  · exact h.results hg
  · rw [hr]
    exact h.results at_

/-- The running task settles its future. -/
theorem Orderly.settled (h : Orderly s) {result : ImportResult} {f f' : Future ImportResult}
    (position : s.position = .running t) (stage : s.stage = .settling result)
    (at_ : s.futures[t.future]? = some f) (fulfilled : f.fulfil result = some f') :
    Orderly { s with futures := s.futures.set t.future f', stage := .calling } := by
  have current : s.current? = some t := current?_of_running position (by rw [stage]; nofun)
  have one : s.unsettled.Perm (t.future ::
      unsettled { s with futures := s.futures.set t.future f', stage := .calling }) := by
    rw [unsettled, unsettled, current, current?_of_calling rfl]
    exact List.perm_middle
  obtain ⟨notMem, nodup⟩ := List.nodup_cons.1 (one.nodup_iff.1 h.nodup)
  refine
    { futures := by rw [List.length_set]; exact h.futures
      issued := h.issued
      tickets := h.tickets
      reserved := h.reserved
      queue := h.queue
      running := h.running
      lt := fun i hi => h.lt i (one.mem_iff.2 (List.mem_cons_of_mem _ hi))
      nodup := nodup
      results := fun {j g} hg => ?_
      waiting := h.waiting }
  rcases (getElem?_set_eq_some_iff at_).1 hg with ⟨hj, hg⟩ | ⟨rfl, rfl⟩
  · rw [h.results hg, one.mem_iff, List.mem_cons]
    simp [hj]
  · obtain ⟨-, rfl⟩ := Future.fulfil_eq_some fulfilled
    exact iff_of_false nofun notMem

/-- **Tickets, tasks and futures stay in order.** -/
theorem Orderly.happens (h : Orderly s) (ha : Happens host s a s') : Orderly s' := by
  cases ha with
  | started specifier referer => exact h.started specifier referer
  | refused at_ phase | found at_ phase | worked at_ phase =>
      exact h.setPhase at_ (by rw [phase]; rfl) rfl
  | handedOver at_ outcome => exact h.handedOver at_ (ImportPhase.isOver_of_outcome? outcome) _
  | ran position =>
      have before := current?_of_not_running (s := s) (by simp [position])
      refine h.turned rfl rfl rfl rfl (fun _ ht => ht) nofun (unsettled_congr rfl rfl ?_) nofun
      rw [before]
      rfl
  -- neither before nor after is a task running
  | stopped _ position | looked position | ended _ position | woke _ position | gaveUp _ position =>
      exact h.idle rfl rfl rfl (current?_of_not_running (by simp [position])) nofun nofun
  | began interrupted position queue =>
      refine h.turned rfl rfl rfl rfl (fun t ht => by rw [queue]; exact List.mem_cons_of_mem _ ht)
        ?_ ?_ nofun
      · rintro t ⟨⟩
        rw [queue]
        exact .inr List.mem_cons_self
      · rw [unsettled, unsettled, current?_of_running rfl (TaskStage.first_ne_calling _),
          current?_of_not_running (by simp [position]), queue]
        rfl
  | waited interrupted position queue reserved =>
      exact h.idle rfl rfl rfl (current?_of_not_running (by simp [position])) nofun
        fun _ _ => ⟨queue, reserved⟩
  | finished interrupted position stage =>
      exact h.idle rfl rfl rfl (current?_of_calling stage) nofun nofun
  | @proceeded pick t r stage position steps =>
      obtain ⟨hs, hs'⟩ := steps.ne_calling
      have before : s.current? = some t := current?_of_running position hs
      have after : current? { s with registry := r, stage } = some t :=
        @current?_of_running _ { s with registry := r, stage } t position hs'
      exact h.turned rfl rfl rfl rfl (fun _ ht => ht) (fun _ ht => .inl ht)
        (unsettled_congr rfl rfl (after.trans before.symm)) h.waiting
  | settled position stage at_ fulfilled => exact h.settled position stage at_ fulfilled
  | added at_ => exact h.setFuture at_ Future.result_add
  | called at_ => exact h.setFuture at_ Future.result_call
  | played f => exact h.turned rfl rfl rfl rfl (fun _ ht => ht) (fun _ ht => .inl ht) rfl h.waiting

/-- The future that a task has yet to settle is not settled. -/
theorem Orderly.exists_unsettled (h : Orderly s) {t : ImportTask} (position : s.position = .running t)
    (hs : s.stage ≠ .calling) : ∃ f, s.futures[t.future]? = some f ∧ f.result = none := by
  have mem : t.future ∈ s.unsettled := by
    simp [unsettled, current?_of_running position hs]
  have lt : t.future < s.futures.length := h.futures ▸ h.lt _ mem
  have at_ := List.getElem?_eq_getElem lt
  exact ⟨_, at_, (h.results at_).2 mem⟩

/-- After any schedule each import has its ticket. -/
theorem orderly {options : Options} {world : σ} {schedule : List (Action σ)}
    (h : (Session.new options world).run host schedule = some s) : Orderly s :=
  run_induct h (.new options world) fun h ha => h.happens ha

end Session

end ModuleSystem
