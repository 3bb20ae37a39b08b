import Mathlib.Data.List.Induction
import Mathlib.Data.List.Nodup
import ModuleSystem.EventLoop.Shared

/-!
# What a shared event loop keeps to

* `SharedLoop.advance_after`: a step of `EventLoop.advance` is some steps of the run of a shared loop.
* `SharedLoop.Happens`: what an action does, one constructor for each way.
* `SharedLoop.Orderly`: the books of a shared loop.  Every task that was queued has begun, or has just left the
  queue, or is in it; and no ticket has queued two tasks.
* `SharedLoop.StageSound`: what a run may rely on while others go on.  A run that is about to wait has seen a ticket
  that was not handed back; whoever hands it back signals later, and nobody but the run takes the signal away.
* `SharedLoop.safe_after`: both hold after any schedule, and so does what follows from them.
-/

namespace ModuleSystem

variable {τ : Type}

namespace SharedLoop

variable {s s' : SharedLoop τ} {a : LoopAction τ} {schedule : List (LoopAction τ)}

/-! ### Schedules -/

@[simp] theorem after_nil (s : SharedLoop τ) : s.after [] = some s := rfl

@[simp] theorem after_cons (a : LoopAction τ) (schedule : List (LoopAction τ)) (s : SharedLoop τ) :
    s.after (a :: schedule) = (s.act a).bind fun s => s.after schedule := by
  simp [after, List.foldlM_cons]

/-- The last action of a schedule comes after the others. -/
theorem after_concat (schedule : List (LoopAction τ)) (a : LoopAction τ) (s : SharedLoop τ) :
    s.after (schedule ++ [a]) = (s.after schedule).bind fun s => s.act a := by
  simp [after, List.foldlM_append]

/-! ### The running loop -/

/-- Where the run of a shared loop stands when a run stands at a position. -/
def stageAt : EventLoop.Position (Ticket × τ) → RunStage (Ticket × τ)
  | .ready => .ready
  | .looking => .locking
  | .waiting => .waiting
  | .running task => .running task
  | .returned early => .returned early

/-- **A step of a run is some steps of a shared loop** in which nobody else does anything. -/
theorem advance_after (s : SharedLoop τ) (p : EventLoop.Position (Ticket × τ)) (h : s.stage = stageAt p) :
    ∃ schedule s', (∀ a ∈ schedule, a = .turn ∨ a = .giveUp) ∧ s.after schedule = some s' ∧
      s'.loop = (s.loop.advance s.interrupted p).1 ∧ s'.stage = stageAt (s.loop.advance s.interrupted p).2 := by
  cases p with
  | ready =>
      refine ⟨[.turn], _, by simp,
        by simp only [after_cons, after_nil, act, turn, h, stageAt, Option.bind_some]; rfl, ?_⟩
      cases hi : s.interrupted <;> simp [EventLoop.advance, stageAt]
  | looking =>
      -- the mutex is taken, the queue looked at, the mutex given back, and the run goes by what it has seen
      cases hq : s.loop.queue with
      | nil =>
          refine ⟨[.turn, .turn, .turn, .turn], _, by simp,
            by simp only [after_cons, after_nil, act, turn, h, stageAt, hq, Option.bind_some]; rfl, ?_⟩
          simp only [EventLoop.advance, hq, List.length_eq_zero_iff, List.isEmpty_iff]
          split <;> simp [stageAt]
      | cons task rest =>
          refine ⟨[.turn, .turn, .turn, .turn], _, by simp,
            by simp only [after_cons, after_nil, act, turn, h, stageAt, hq, Option.bind_some]; rfl, ?_⟩
          simp [EventLoop.advance, hq, stageAt]
  | waiting =>
      cases hs : s.loop.signalled with
      | true =>
          refine ⟨[.turn], _, by simp,
            by simp only [after_cons, after_nil, act, turn, h, stageAt, hs, if_true, Option.bind_some]; rfl, ?_⟩
          simp [EventLoop.advance, hs, stageAt]
      | false =>
          cases hi : s.interrupted with
          | none => exact ⟨[], s, by simp, rfl, by simp [EventLoop.advance, hs, h, stageAt]⟩
          | some i =>
              refine ⟨[.giveUp], _, by simp,
                by simp only [after_cons, after_nil, act, h, stageAt, hi, Option.bind_some]; rfl, ?_⟩
              simp [EventLoop.advance, hs, stageAt]
  | running task =>
      refine ⟨[.turn], _, by simp,
        by simp only [after_cons, after_nil, act, turn, h, stageAt, Option.bind_some]; rfl, ?_⟩
      simp [EventLoop.advance, stageAt]
  | returned early => exact ⟨[], s, by simp, rfl, rfl, h⟩

/-! ### What can happen -/

/-- What a step of the run does. -/
inductive Turns (s : SharedLoop τ) : SharedLoop τ → Prop where
  | stopped {i : Interruption} (stage : s.stage = .ready) (interrupted : s.interrupted = some i) :
      Turns s { s with stage := .returned (some i) }
  | passed (stage : s.stage = .ready) (interrupted : s.interrupted = none) : Turns s { s with stage := .locking }
  | locked (stage : s.stage = .locking) : Turns s { s with stage := .locked }
  | popped {task : Ticket × τ} {rest : List (Ticket × τ)} (stage : s.stage = .locked)
      (queue : s.loop.queue = task :: rest) :
      Turns s { s with loop := { s.loop with queue := rest }, stage := .popped task }
  | noted (stage : s.stage = .locked) (queue : s.loop.queue = []) :
      Turns s { s with stage := .noted s.loop.reserved.length }
  | kept {task : Ticket × τ} (stage : s.stage = .popped task) : Turns s { s with stage := .due task }
  | began {task : Ticket × τ} (stage : s.stage = .due task) :
      Turns s { s with stage := .running task, executed := s.executed ++ [task] }
  | finished {task : Ticket × τ} (stage : s.stage = .running task) : Turns s { s with stage := .ready }
  | unlocked {n : Nat} (stage : s.stage = .noted n) : Turns s { s with stage := .unlocked n }
  | ended (stage : s.stage = .unlocked 0) : Turns s { s with stage := .returned none }
  | slept {n : Nat} (stage : s.stage = .unlocked (n + 1)) : Turns s { s with stage := .waiting }
  | woke (stage : s.stage = .waiting) (signalled : s.loop.signalled = true) :
      Turns s { s with loop := { s.loop with signalled := false }, stage := .ready }

/-- A turn of the loop is one of these. -/
theorem turn_turns (h : s.turn = some s') : Turns s s' := by
  unfold turn at h
  cases hstage : s.stage with
  | unstarted | returned => rw [hstage] at h; cases h
  | ready =>
      cases hi : s.interrupted with
      | some i =>
          simp only [hstage, hi] at h
          cases h
          exact hi ▸ .stopped hstage hi
      | none =>
          simp only [hstage, hi] at h
          cases h
          exact hi ▸ .passed hstage hi
  | locking =>
      rw [hstage] at h
      cases h
      exact .locked hstage
  | locked =>
      rw [hstage] at h
      cases hq : s.loop.queue with
      | cons task rest =>
          simp only [hq] at h
          cases h
          exact .popped hstage hq
      | nil =>
          simp only [hq] at h
          cases h
          exact .noted hstage hq
  | popped task =>
      rw [hstage] at h
      cases h
      exact .kept hstage
  | due task =>
      rw [hstage] at h
      cases h
      exact .began hstage
  | running task =>
      rw [hstage] at h
      cases h
      exact .finished hstage
  | noted n =>
      rw [hstage] at h
      cases h
      exact .unlocked hstage
  | unlocked n =>
      rw [hstage] at h
      cases h
      -- what was noted under the mutex decides, whatever others have done since
      cases n with
      | zero => exact .ended hstage
      | succ n => exact .slept hstage
  | waiting =>
      rw [hstage] at h
      simp only [Option.ite_none_right_eq_some] at h
      obtain ⟨hs, h⟩ := h
      cases h
      exact .woke hstage hs

/-- A ticket has been handed back, and its task is in the queue. -/
def handedBack (s : SharedLoop τ) (ticket : Ticket) (task : Option τ) : SharedLoop τ :=
  { s with
    loop := { s.loop with
      reserved := s.loop.reserved.erase ticket
      queue := s.loop.queue ++ (task.map fun task => (ticket, task)).toList }
    signalling := s.signalling ++ [ticket]
    queued := s.queued ++ (task.map fun task => (ticket, task)).toList }

/-- What an action does. -/
inductive Happens (s : SharedLoop τ) : LoopAction τ → SharedLoop τ → Prop where
  | reserved (free : s.stage.hasMutex = false) : Happens s .reserve { s with loop := s.loop.reserve.1 }
  | handedBack {ticket : Ticket} {task : Option τ} (free : s.stage.hasMutex = false)
      (reserved : ticket ∈ s.loop.reserved) :
      Happens s (.handBack ticket task) (s.handedBack ticket task)
  | refused (ticket : Ticket) (task : Option τ) : Happens s (.handBack ticket task) s
  | signalled {ticket : Ticket} (due : ticket ∈ s.signalling) :
      Happens s (.signal ticket) { s with loop := s.loop.signal, signalling := s.signalling.erase ticket }
  | ran (interrupted : Option Interruption) (idle : s.stage = .unstarted ∨ ∃ early, s.stage = .returned early) :
      Happens s (.run interrupted) { s with stage := .ready, interrupted }
  | interrupted (i : Interruption) :
      Happens s (.interrupt i) { s with interrupted := s.interrupted <|> some i }
  | turned {s' : SharedLoop τ} (turns : Turns s s') : Happens s .turn s'
  | gaveUp {i : Interruption} (stage : s.stage = .waiting) (interrupted : s.interrupted = some i) :
      Happens s .giveUp { s with stage := .returned (some i) }

/-- **An action does one of these.** -/
theorem act_happens (h : s.act a = some s') : Happens s a s' := by
  cases a with
  | reserve =>
      simp only [act, Option.ite_none_left_eq_some, Bool.not_eq_true] at h
      obtain ⟨free, h⟩ := h
      cases h
      exact .reserved free
  | handBack ticket task =>
      simp only [act, Option.ite_none_left_eq_some, not_or, Bool.not_eq_true] at h
      obtain ⟨⟨free, -⟩, h⟩ := h
      by_cases reserved : ticket ∈ s.loop.reserved
      · simp only [EventLoop.release, List.contains_iff_mem.2 reserved, if_true] at h
        cases h
        exact .handedBack free reserved
      · -- the ticket has been handed back before
        simp only [EventLoop.release, List.contains_iff_mem, reserved, if_false] at h
        cases h
        exact .refused ticket task
  | signal ticket =>
      simp only [act, Option.ite_none_right_eq_some] at h
      obtain ⟨due, h⟩ := h
      cases h
      exact .signalled due
  | run interrupted =>
      simp only [act] at h
      split at h
      · cases h
        exact .ran interrupted (.inl ‹_›)
      · cases h
        exact .ran interrupted (.inr ⟨_, ‹_›⟩)
      · cases h
  | interrupt i =>
      cases h
      exact .interrupted i
  | turn => exact .turned (turn_turns h)
  | giveUp =>
      simp only [act] at h
      split at h
      · cases h
        exact .gaveUp ‹_› ‹_›
      · cases h

/-! ### Tickets and tasks -/

/-- The books of a shared loop. -/
structure Orderly (s : SharedLoop τ) : Prop where
  /-- What was queued has begun, or is about to begin, or is in the queue. -/
  tasks : s.queued = s.executed ++ s.stage.taken?.toList ++ s.loop.queue
  issued : ∀ t ∈ s.loop.reserved, t < s.loop.issued
  reserved : s.loop.reserved.Nodup
  /-- A ticket that has queued a task has been given out, and handed back. -/
  spent : ∀ e ∈ s.queued, e.1 < s.loop.issued ∧ e.1 ∉ s.loop.reserved
  once : (s.queued.map Prod.fst).Nodup

theorem orderly_empty : Orderly ({} : SharedLoop τ) := by
  constructor <;> simp [RunStage.taken?]

/-- A ticket that is reserved leaves the loop orderly. -/
theorem Orderly.reserve (h : s.Orderly) : Orderly { s with loop := s.loop.reserve.1 } where
  tasks := h.tasks
  issued := by
    intro t ht
    rcases List.mem_append.1 ht with ht | ht
    · exact Nat.lt_succ_of_lt (h.issued t ht)
    · rw [List.mem_singleton.1 ht]
      exact Nat.lt_succ_self _
  reserved := by
    refine List.Nodup.append h.reserved (List.nodup_singleton _) (List.disjoint_singleton.2 fun ht => ?_)
    exact Nat.lt_irrefl _ (h.issued _ ht)
  spent := by
    refine fun e he => ⟨Nat.lt_succ_of_lt (h.spent e he).1, fun hmem => ?_⟩
    rcases List.mem_append.1 hmem with hmem | hmem
    · exact (h.spent e he).2 hmem
    · exact Nat.ne_of_lt (h.spent e he).1 (List.mem_singleton.1 hmem)
  once := h.once

/-- A ticket that is handed back with its task leaves the loop orderly. -/
theorem Orderly.handedBack {ticket : Ticket} (h : s.Orderly) (hticket : ticket ∈ s.loop.reserved)
    (task : Option τ) : (s.handedBack ticket task).Orderly where
  tasks := by rw [SharedLoop.handedBack, h.tasks, List.append_assoc]
  issued := fun t ht => h.issued t (List.mem_of_mem_erase ht)
  reserved := h.reserved.erase ticket
  spent := by
    intro e he
    rcases List.mem_append.1 he with he | he
    · exact ⟨(h.spent e he).1, fun hmem => (h.spent e he).2 (List.mem_of_mem_erase hmem)⟩
    · obtain ⟨task, -, rfl⟩ := by simpa using he
      exact ⟨h.issued ticket hticket, h.reserved.not_mem_erase⟩
  once := by
    cases task with
    | none => simpa [SharedLoop.handedBack] using h.once
    | some task =>
        rw [SharedLoop.handedBack, List.map_append]
        refine h.once.append (List.nodup_singleton _) (List.disjoint_singleton.2 fun hmem => ?_)
        -- a ticket that has queued a task is no longer there to be handed back
        obtain ⟨e, he, rfl⟩ := List.mem_map.1 hmem
        exact (h.spent e he).2 hticket

/-- A run moves tasks from the queue to those that have begun, one at a time. -/
theorem Orderly.turns (h : s.Orderly) (ht : Turns s s') : s'.Orderly := by
  have htasks := h.tasks
  cases ht with
  | popped stage queue =>
      refine ⟨?_, h.issued, h.reserved, h.spent, h.once⟩
      simpa [stage, queue, RunStage.taken?] using htasks
  | stopped stage | passed stage | locked stage | noted stage | kept stage | began stage | finished stage
  | unlocked stage | ended stage | slept stage | woke stage =>
      refine ⟨?_, h.issued, h.reserved, h.spent, h.once⟩
      simpa [stage, RunStage.taken?] using htasks

/-- Whatever happens, the loop stays orderly. -/
theorem Orderly.happens (h : s.Orderly) (ha : Happens s a s') : s'.Orderly := by
  cases ha with
  | reserved => exact h.reserve
  | handedBack _ reserved => exact h.handedBack reserved _
  | refused => exact h
  | signalled | interrupted => exact ⟨h.tasks, h.issued, h.reserved, h.spent, h.once⟩
  | ran _ idle =>
      refine ⟨?_, h.issued, h.reserved, h.spent, h.once⟩
      have htasks := h.tasks
      rcases idle with idle | ⟨early, idle⟩ <;> simpa [idle, RunStage.taken?] using htasks
  | turned turns => exact h.turns turns
  | gaveUp stage =>
      refine ⟨?_, h.issued, h.reserved, h.spent, h.once⟩
      simpa [stage, RunStage.taken?] using h.tasks

/-! ### What a run relies on -/

/-- A run that waits though there is something to do has a signal, or is about to get one. -/
def Roused (s : SharedLoop τ) : Prop :=
  s.loop.queue ≠ [] ∨ s.loop.reserved = [] → s.loop.signalled = true ∨ s.signalling ≠ []

end SharedLoop

/-- The action begins a run. -/
def LoopAction.begins : LoopAction τ → Bool
  | .run _ => true
  | _ => false

namespace SharedLoop

variable {s s' : SharedLoop τ} {a : LoopAction τ} {schedule : List (LoopAction τ)}

/-- The last run has looked under the mutex, and has seen neither tasks nor tickets. -/
def SeenIdle (schedule : List (LoopAction τ)) : Prop :=
  ∃ before since seen, schedule = before ++ since ∧ after {} before = some seen ∧ seen.stage = .locked ∧
    seen.loop.queue = [] ∧ seen.loop.reserved = [] ∧ ∀ a ∈ since, a.begins = false

/-- An idle loop has been seen, whatever happens after that in the same run. -/
theorem SeenIdle.concat (h : SeenIdle schedule) (ha : a.begins = false) : SeenIdle (schedule ++ [a]) := by
  obtain ⟨before, since, seen, rfl, hafter, hlocked, hqueue, hreserved, hsince⟩ := h
  refine ⟨before, since ++ [a], seen, List.append_assoc .., hafter, hlocked, hqueue, hreserved, ?_⟩
  intro b hb
  rcases List.mem_append.1 hb with hb | hb
  · exact hsince b hb
  · rw [List.mem_singleton.1 hb, ha]

/-- What a run may rely on at a stage. -/
def StageSound (schedule : List (LoopAction τ)) (s : SharedLoop τ) : RunStage (Ticket × τ) → Prop
  | .noted 0 => SeenIdle schedule
  | .noted (_ + 1) => s.loop.queue = [] ∧ s.loop.reserved ≠ []
  | .unlocked 0 | .returned none => SeenIdle schedule
  | .unlocked (_ + 1) | .waiting => s.Roused
  | _ => True

/-- What others do takes nothing away from what a run relies on, for they leave the loop alone while the run has
the mutex. -/
theorem StageSound.others {stage : RunStage (Ticket × τ)} (h : StageSound schedule s stage)
    (hmutex : stage.hasMutex = true → s'.loop.queue = s.loop.queue ∧ s'.loop.reserved = s.loop.reserved)
    (hroused : s.Roused → s'.Roused) (ha : a.begins = false) : StageSound (schedule ++ [a]) s' stage := by
  cases stage with
  | noted n =>
      cases n with
      | zero => exact SeenIdle.concat h ha
      | succ n =>
          obtain ⟨hqueue, hreserved⟩ := hmutex rfl
          rw [StageSound, hqueue, hreserved]
          exact h
  | unlocked n =>
      cases n with
      | zero => exact SeenIdle.concat h ha
      | succ n => exact hroused h
  | waiting => exact hroused h
  | returned early =>
      cases early with
      | none => exact SeenIdle.concat h ha
      | some i => trivial
  | unstarted | ready | locking | locked | popped | due | running => trivial

/-- What a run relies on after a step of its own. -/
theorem StageSound.turns (h : StageSound schedule s s.stage) (hafter : after {} schedule = some s)
    (ht : Turns s s') : StageSound (schedule ++ [.turn]) s' s'.stage := by
  cases ht with
  | noted stage queue =>
      cases hreserved : s.loop.reserved with
      | nil => exact ⟨schedule, [.turn], s, rfl, hafter, stage, queue, hreserved, by simp [LoopAction.begins]⟩
      | cons ticket rest => exact ⟨queue, by simp [hreserved]⟩
  | @unlocked n stage =>
      rw [stage] at h
      cases n with
      | zero => exact SeenIdle.concat h rfl
      | succ n =>
          -- the queue is empty and there are reservations, so there is nothing to do yet
          exact fun hwork => hwork.elim (fun hqueue => absurd h.1 hqueue) fun hreserved => absurd hreserved h.2
  | ended stage =>
      rw [stage] at h
      exact SeenIdle.concat h rfl
  | slept stage =>
      rw [stage] at h
      exact h
  | stopped | passed | locked | popped | kept | began | finished | woke => trivial

/-- A loop that is roused stays so when tickets are reserved. -/
theorem Roused.reserve (h : s.Roused) : Roused { s with loop := s.loop.reserve.1 } := by
  rintro (hqueue | hreserved)
  · exact h (.inl hqueue)
  · exact absurd hreserved (by simp [EventLoop.reserve])

/-- Whatever happens, what is known of the stage of a run stays true. -/
theorem StageSound.happens (h : StageSound schedule s s.stage) (hafter : after {} schedule = some s)
    (ha : Happens s a s') : StageSound (schedule ++ [a]) s' s'.stage := by
  cases ha with
  | reserved free => exact h.others (by simp [free]) Roused.reserve rfl
  -- a call that hands a ticket back is about to signal from then on
  | handedBack free => exact h.others (by simp [free]) (fun _ _ => .inr (by simp [SharedLoop.handedBack])) rfl
  | refused | interrupted => exact h.others (fun _ => ⟨rfl, rfl⟩) id rfl
  | signalled => exact h.others (fun _ => ⟨rfl, rfl⟩) (fun _ _ => .inl rfl) rfl
  | turned turns => exact h.turns hafter turns
  | ran | gaveUp => trivial

/-! ### Any schedule -/

/-- After any schedule the loop is orderly, and what is known of its stage is true. -/
theorem sound_after (h : after {} schedule = some s) : s.Orderly ∧ StageSound schedule s s.stage := by
  induction schedule using List.reverseRecOn generalizing s with
  | nil =>
      cases h
      exact ⟨orderly_empty, trivial⟩
  | append_singleton schedule a ih =>
      rw [after_concat] at h
      obtain ⟨before, hbefore, ha⟩ := Option.bind_eq_some_iff.1 h
      obtain ⟨horderly, hstage⟩ := ih hbefore
      exact ⟨horderly.happens (act_happens ha), hstage.happens hbefore (act_happens ha)⟩

/-- What is promised to those who share an event loop. -/
structure Safe (schedule : List (LoopAction τ)) (s : SharedLoop τ) : Prop where
  /-- Tasks begin in the order in which they were queued. -/
  in_order : s.executed <+: s.queued
  /-- No task begins twice. -/
  once : (s.executed.map Prod.fst).Nodup
  /-- A run ends by itself only if it has seen, under the mutex, that there were neither tasks nor tickets. -/
  ends_idle : s.stage = .returned none → SeenIdle schedule
  /-- When a run has ended early, the tasks that have not begun are in the queue, in their order. -/
  rest_queued : ∀ i, s.stage = .returned (some i) → s.queued = s.executed ++ s.loop.queue
  /-- A run that waits though there are tasks, or no tickets, has a signal, or a call that has handed a ticket
  back is about to signal. -/
  no_lost_signal : s.stage = .waiting → s.loop.queue ≠ [] ∨ s.loop.reserved = [] →
    s.loop.signalled = true ∨ s.signalling ≠ []

/-- Tasks run in the order in which they were queued. -/
theorem Orderly.in_order (h : s.Orderly) : s.executed <+: s.queued := by
  rw [h.tasks, List.append_assoc]
  exact List.prefix_append ..

/-- **Whatever is done to a shared loop, and in whatever order, it is safe.** -/
theorem safe_after (h : after {} schedule = some s) : Safe schedule s := by
  obtain ⟨horderly, hstage⟩ := sound_after h
  constructor
  · exact horderly.in_order
  · exact horderly.once.sublist (horderly.in_order.sublist.map _)
  · intro hended
    rw [hended] at hstage
    exact hstage
  · intro i hstopped
    have htasks := horderly.tasks
    simpa [hstopped, RunStage.taken?] using htasks
  · intro hwaiting
    rw [hwaiting] at hstage
    exact hstage

/-- A task is queued while the run is about to wait. The context ends while that task runs, and the next task is
left to another run. -/
def canceledOnce : List (LoopAction Char) :=
  [.reserve, .reserve, .run none, .turn, .turn, .turn, .turn, .handBack 0 (some 'a'), .turn, .signal 0,
    .turn, .turn, .turn, .turn, .turn, .turn, .reserve, .handBack 1 none, .interrupt .canceled, .turn,
    .signal 1, .turn, .handBack 2 (some 'b'), .handBack 2 (some 'b'), .signal 2, .run none,
    .turn, .turn, .turn, .turn, .turn, .turn, .turn, .turn, .turn, .turn, .turn]

theorem safe_after_canceledOnce :
    ∃ s, after {} canceledOnce = some s ∧ s.stage = .returned none ∧ Safe canceledOnce s :=
  ⟨_, rfl, rfl, safe_after rfl⟩

end SharedLoop

end ModuleSystem
