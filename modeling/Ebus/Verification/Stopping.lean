import Ebus.App.ReactorThread

/-!
# Stopping the reactor and starting it again

`stop` shuts the signal queue down, and nothing opens it again. What a thread that is left in
the loop can still do follows from that: no signal is accepted, the wait for one is over at once,
and each round takes one of the entries that are left. So a call of `stop` that waits for the
thread returns exactly when `running_` has been cleared behind its first store, or the shutdown
signal is still to come (`run_joins`), and a reactor that is started again is not what it was
(`run_restarted`).
-/

namespace Ebus

namespace ReactorThread

/-- The shutdown signal is waiting, or the thread has taken it. -/
def Notified (s : ReactorThread) (place : Place) : Prop :=
  .shutdown ∈ s.signals.waiting ∨ ∃ inner, place = .process .shutdown inner

/-- The thread is on its way out of the loop, or will be. -/
def Ending (s : ReactorThread) (place : Place) : Prop :=
  place = .finished ∨ s.running = false ∧ place ≠ .begin ∨ s.Notified place

/-- There is no thread, or it will end. -/
def Ends (s : ReactorThread) : Prop := ∀ place, s.worker = some place → s.Ending place

/-- How many operations a thread makes at most before it ends, with the number of entries left. -/
def remainingAt (waiting : Nat) : Place → Nat
  | .begin => 4 * waiting + 2
  | .check => 4 * waiting + 1
  | .wait => if waiting = 0 then 2 else 4 * waiting
  | .process _ inner => 4 * waiting + if inner then 4 else 3
  | .test => 4 * waiting + 3
  | .drain => 4 * waiting + 2
  | .finished => 0

def remaining (s : ReactorThread) : Nat :=
  (s.worker.map (remainingAt s.signals.waiting.length)).getD 0

/-- The thread can no longer end. -/
structure Spinning (s : ReactorThread) : Prop where
  shutdown : s.isShutdown = true
  joining : s.stopping = some .join
  lost : .shutdown ∉ s.signals.waiting
  looping : ∃ place, s.worker = some place ∧ place ≠ .finished ∧
    (∀ inner, place ≠ .process .shutdown inner) ∧ (s.running = true ∨ place = .begin)

section

variable {s : ReactorThread}

/-- Producers no longer reach the signals. -/
theorem step_producer (hshutdown : s.isShutdown = true) {action : Action}
    (hwork : action.isWork = false) (hown : action.isOwn = false) :
    ∃ bus : BoundedQueue Nat ReactorLimits.busQueueSize,
      bus.delivered = s.bus.delivered ∧ s.step action = { s with bus } := by
  cases action with
  | start => cases hown
  | stop => cases hown
  | goOn => cases hown
  | work timedOut => cases hwork
  | pushSignal signal => 
    refine ⟨s.bus, rfl, ?_⟩
    rw [step, tryPushSignal, if_pos hshutdown]
    rfl
  | discardSignal => exact ⟨s.bus, rfl, if_pos hshutdown⟩
  | pushBus event =>
    refine ⟨_, ?_, rfl⟩
    obtain ⟨-, hpush⟩ | ⟨pushed, -, hpush, -, -, hdelivered⟩ := s.bus.tryPush_cases event
    · rw [hpush, Option.getD_none]
    · rw [hpush, Option.getD_some, hdelivered]
  | discardBus =>
    refine ⟨_, ?_, rfl⟩
    obtain ⟨-, hdiscard⟩ | ⟨event, shorter, -, hdiscard, -, hdelivered⟩ := s.bus.discard_cases
    · rw [hdiscard, Option.getD_none]
    · rw [hdiscard, Option.getD_some, hdelivered]

theorem processSignal_eq (s : ReactorThread) (signal : ReactorSignal) :
    ∃ (bus : BoundedQueue Nat ReactorLimits.busQueueSize) (running : Bool),
      s.processSignal signal = { s with bus, running } ∧
      (running = false ↔ s.running = false ∨ signal = .shutdown) ∧
      bus.delivered.length ≤ s.bus.delivered.length + 1 := by
  cases signal with
  | shutdown => exact ⟨s.bus, false, rfl, by simp, Nat.le_succ _⟩
  | busByte =>
    have hrunning : s.running = false ↔ s.running = false ∨ ReactorSignal.busByte = .shutdown := by
      simp
    rw [processSignal, processBusByte]
    obtain ⟨-, hpop⟩ | ⟨event, popped, -, hpop, -, hdelivered⟩ := s.bus.tryPop_cases
    · rw [hpop]
      exact ⟨s.bus, s.running, rfl, hrunning, Nat.le_succ _⟩
    · rw [hpop]
      refine ⟨popped, s.running, rfl, hrunning, ?_⟩
      exact Nat.le_of_eq (by rw [hdelivered, List.length_append, List.length_singleton])
  | protocolReady => exact ⟨s.bus, s.running, rfl, by simp, Nat.le_succ _⟩
  | timerWakeup => exact ⟨s.bus, s.running, rfl, by simp, Nat.le_succ _⟩
  | userRequest => exact ⟨s.bus, s.running, rfl, by simp, Nat.le_succ _⟩
  | callbackReady => exact ⟨s.bus, s.running, rfl, by simp, Nat.le_succ _⟩

/-- What one operation of the thread does once the queue is shut down. -/
inductive Worked (s : ReactorThread) : Place → ReactorThread → Prop where
  | begin : Worked s .begin
      { s with running := true, burstCount := 0, worker := some .check }
  | check (h : s.running = true) : Worked s .check { s with worker := some .wait }
  | leave (h : s.running = false) (place : Place) (hplace : place = .check ∨ place = .test) :
      Worked s place { s with worker := some .finished }
  | pop (signal : ReactorSignal)
      (signals : BoundedQueue ReactorSignal ReactorLimits.signalQueueSize)
      (h : s.signals.waiting = signal :: signals.waiting)
      (hentered : signals.entered = s.signals.entered) :
      Worked s .wait { s with signals, worker := some (.process signal false) }
  | empty (h : s.signals.waiting = []) :
      Worked s .wait { s with burstCount := 0, worker := some .check }
  | process (signal : ReactorSignal) (inner : Bool)
      (bus : BoundedQueue Nat ReactorLimits.busQueueSize) (running : Bool)
      (h : running = false ↔ s.running = false ∨ signal = .shutdown)
      (hbus : bus.delivered.length ≤ s.bus.delivered.length + 1) :
      Worked s (.process signal inner)
        { s with bus, running, worker := some (if inner then .test else .drain) }
  | test (h : s.running = true) (burstCount : Nat) (place : Place)
      (hplace : place = .check ∨ place = .drain) :
      Worked s .test { s with burstCount, worker := some place }
  | drain : Worked s .drain { s with worker := some .check }
  | finished : Worked s .finished s

theorem run_worked (hshutdown : s.isShutdown = true) (timedOut : Bool) (place : Place) :
    Worked s place (s.run timedOut place) := by
  cases place with
  | begin => exact .begin
  | check =>
    rw [run]
    split
    next hrunning => exact .check hrunning
    next hrunning => exact .leave (Bool.not_eq_true _ ▸ hrunning) .check (.inl rfl)
  | wait =>
    rw [run, ReactorThread.pop]
    obtain ⟨hempty, hpop⟩ | ⟨signal, signals, hwaiting, hpop, hentered, -⟩ :=
      s.signals.tryPop_cases
    · have hover : (s.isShutdown || timedOut) = true := by rw [hshutdown, Bool.true_or]
      rw [hpop]
      dsimp only
      rw [if_pos hover]
      exact .empty hempty
    · rw [hpop]
      exact .pop signal signals hwaiting hentered
  | process signal inner =>
    obtain ⟨bus, running, heq, hrunning, hbus⟩ := s.processSignal_eq signal
    rw [run, heq]
    exact .process signal inner bus running hrunning hbus
  | test =>
    rw [run]
    split
    next hrunning =>
      rw [yieldBurst]
      split
      next => exact .test hrunning 0 .check (.inl rfl)
      next => exact .test hrunning (s.burstCount + 1) .drain (.inr rfl)
    next hrunning => exact .leave (Bool.not_eq_true _ ▸ hrunning) .test (.inr rfl)
  | drain =>
    rw [run, ReactorThread.drain, if_pos hshutdown]
    exact .drain
  | finished => exact .finished

variable {place : Place} {after : ReactorThread}

theorem Worked.frame (worked : Worked s place after) :
    after.isShutdown = s.isShutdown ∧ after.stopping = s.stopping ∧
      after.signals.entered = s.signals.entered := by
  cases worked with
  | pop signal signals h hentered => exact ⟨rfl, rfl, hentered⟩
  | _ => exact ⟨rfl, rfl, rfl⟩

/-- A thread that will end is one operation closer to it. -/
theorem Worked.ending (worked : Worked s place after) (hworker : s.worker = some place)
    (ending : s.Ending place) :
    ∃ next, after.worker = some next ∧ after.Ending next ∧
      remainingAt after.signals.waiting.length next ≤
        remainingAt s.signals.waiting.length place - 1 := by
  -- where neither of the first two holds, the signal is still in the queue
  have inQueue (hfinished : place ≠ .finished) (hrun : s.running = true ∨ place = .begin)
      (hprocess : ∀ signal inner, place ≠ .process signal inner) :
      .shutdown ∈ s.signals.waiting := by
    obtain hend | ⟨hrunning, hbegin⟩ | hwaiting | ⟨inner, hplace⟩ := ending
    · exact absurd hend hfinished
    · rcases hrun with hrun | hrun
      · rw [hrunning] at hrun
        cases hrun
      · exact absurd hrun hbegin
    · exact hwaiting
    · exact absurd hplace (hprocess _ _)
  cases worked with
  | begin =>
    have hwaiting := inQueue Place.noConfusion (.inr rfl) fun _ _ => Place.noConfusion
    exact ⟨.check, rfl, .inr (.inr (.inl hwaiting)), Nat.le_refl _⟩
  | check hrunning =>
    have hwaiting := inQueue Place.noConfusion (.inl hrunning) fun _ _ => Place.noConfusion
    refine ⟨.wait, rfl, .inr (.inr (.inl hwaiting)), ?_⟩
    show (if s.signals.waiting.length = 0 then 2 else 4 * s.signals.waiting.length) ≤ _
    rw [if_neg (Nat.ne_of_gt (List.length_pos_of_mem hwaiting))]
    exact Nat.le_refl _
  | leave hrunning place hplace => exact ⟨.finished, rfl, .inl rfl, Nat.zero_le _⟩
  | pop signal signals hwaiting hentered =>
    refine ⟨.process signal false, rfl, ?_, ?_⟩
    · obtain hend | ⟨hrunning, -⟩ | hmem | ⟨inner, hplace⟩ := ending
      · cases hend
      · exact .inr (.inl ⟨hrunning, Place.noConfusion⟩)
      · rw [hwaiting] at hmem
        obtain rfl | hrest := List.mem_cons.mp hmem
        · exact .inr (.inr (.inr ⟨false, rfl⟩))
        · exact .inr (.inr (.inl hrest))
      · cases hplace
    · rw [hwaiting, List.length_cons]
      show 4 * signals.waiting.length + 3 ≤ 4 * (signals.waiting.length + 1) - 1
      omega
  | empty hempty =>
    obtain hend | ⟨hrunning, -⟩ | hmem | ⟨inner, hplace⟩ := ending
    · cases hend
    · refine ⟨.check, rfl, .inr (.inl ⟨hrunning, Place.noConfusion⟩), ?_⟩
      rw [hempty]
      exact Nat.le_refl _
    · rw [hempty] at hmem
      cases hmem
    · cases hplace
  | process signal inner bus running hrunning hbus =>
    have hending : running = false ∨ .shutdown ∈ s.signals.waiting := by
      obtain hend | ⟨hstopped, -⟩ | hmem | ⟨inner', hplace⟩ := ending
      · cases hend
      · exact .inl (hrunning.mpr (.inl hstopped))
      · exact .inr hmem
      · cases hplace
        exact .inl (hrunning.mpr (.inr rfl))
    have hnext : ∀ next, next ≠ .begin →
        Ending { s with bus, running, worker := some next } next := fun next hne =>
      .inr (hending.elim (fun h => .inl ⟨h, hne⟩) fun h => .inr (.inl h))
    cases inner with
    | false => exact ⟨.drain, rfl, hnext .drain Place.noConfusion, Nat.le_refl _⟩
    | true => exact ⟨.test, rfl, hnext .test Place.noConfusion, Nat.le_refl _⟩
  | test hrunning burstCount next hnext =>
    have hwaiting := inQueue Place.noConfusion (.inl hrunning) fun _ _ => Place.noConfusion
    refine ⟨next, rfl, .inr (.inr (.inl hwaiting)), ?_⟩
    obtain rfl | rfl := hnext
    · exact Nat.le_succ _
    · exact Nat.le_refl _
  | drain =>
    refine ⟨.check, rfl, ?_, Nat.le_refl _⟩
    obtain hend | ⟨hrunning, -⟩ | hmem | ⟨inner, hplace⟩ := ending
    · cases hend
    · exact .inr (.inl ⟨hrunning, Place.noConfusion⟩)
    · exact .inr (.inr (.inl hmem))
    · cases hplace
  | finished => exact ⟨.finished, hworker, .inl rfl, Nat.le_refl _⟩

/-- A thread that cannot end does not learn of the shutdown by its next operation. -/
theorem Worked.spinning (worked : Worked s place after) (spinning : s.Spinning)
    (hworker : s.worker = some place) : after.Spinning := by
  obtain ⟨hshutdown, hjoining, hlost, place', hworker', hfinished, hsignal, hrunning⟩ := spinning
  obtain rfl : place = place' := Option.some.inj (hworker.symm.trans hworker')
  cases worked with
  | begin =>
    exact ⟨hshutdown, hjoining, hlost, .check, rfl, Place.noConfusion,
      fun _ => Place.noConfusion, .inl rfl⟩
  | check h =>
    exact ⟨hshutdown, hjoining, hlost, .wait, rfl, Place.noConfusion,
      fun _ => Place.noConfusion, .inl h⟩
  | leave h place hplace =>
    rcases hrunning with hrunning | rfl
    · rw [h] at hrunning
      cases hrunning
    · rcases hplace with hplace | hplace <;> cases hplace
  | pop signal signals hwaiting hentered =>
    rw [hwaiting, List.mem_cons, not_or] at hlost
    refine ⟨hshutdown, hjoining, hlost.2, .process signal false, rfl, Place.noConfusion, ?_, ?_⟩
    · intro inner heq
      cases heq
      exact hlost.1 rfl
    · exact hrunning.imp_right Place.noConfusion
  | empty hempty =>
    exact ⟨hshutdown, hjoining, hlost, .check, rfl, Place.noConfusion,
      fun _ => Place.noConfusion, hrunning.imp_right Place.noConfusion⟩
  | process signal inner bus running h hbus =>
    have hstill : running = true := by
      refine (Bool.not_eq_false _).mp fun hstopped => ?_
      rcases h.mp hstopped with hoff | rfl
      · rcases hrunning with hon | hbegin
        · rw [hoff] at hon
          cases hon
        · cases hbegin
      · exact hsignal inner rfl
    refine ⟨hshutdown, hjoining, hlost, if inner then .test else .drain, rfl, ?_, ?_, .inl hstill⟩
    · cases inner <;> exact Place.noConfusion
    · cases inner <;> exact fun _ => Place.noConfusion
  | test h burstCount next hnext =>
    refine ⟨hshutdown, hjoining, hlost, next, rfl, ?_, ?_, .inl h⟩
    · rcases hnext with rfl | rfl <;> exact Place.noConfusion
    · rcases hnext with rfl | rfl <;> exact fun _ => Place.noConfusion
  | drain =>
    exact ⟨hshutdown, hjoining, hlost, .check, rfl, Place.noConfusion,
      fun _ => Place.noConfusion, hrunning.imp_right Place.noConfusion⟩
  | finished => exact absurd rfl hfinished

theorem Spinning.step (spinning : s.Spinning) (action : Action) : (s.step action).Spinning := by
  obtain ⟨place, hworker, hfinished, -, -⟩ := spinning.looping
  by_cases hwork : action.isWork = true
  · cases action with
    | work timedOut =>
      have hstep : s.step (.work timedOut) = s.run timedOut place := by
        rw [ReactorThread.step, hworker]
        rfl
      rw [hstep]
      exact (run_worked spinning.shutdown timedOut place).spinning spinning hworker
    | _ => cases hwork
  by_cases hown : action.isOwn = true
  · -- the owner is in the call that waits
    have hsame : s.step action = s := by
      cases action with
      | start => exact if_neg fun h => by rw [spinning.joining] at h; cases h.1
      | stop => exact if_neg fun h => by rw [spinning.joining] at h; cases h
      | goOn =>
        rw [ReactorThread.step, spinning.joining]
        refine if_neg fun h => ?_
        rw [hworker] at h
        rcases h with h | h
        · cases h
        · exact hfinished (Option.some.inj h)
      | _ => cases hown
    rw [hsame]
    exact spinning
  · obtain ⟨bus, -, heq⟩ := step_producer spinning.shutdown (Bool.not_eq_true _ ▸ hwork)
      (Bool.not_eq_true _ ▸ hown)
    rw [heq]
    exact ⟨spinning.shutdown, spinning.joining, spinning.lost, spinning.looping⟩

theorem run_frame (s : ReactorThread) (timedOut : Bool) (place : Place) :
    (s.run timedOut place).isShutdown = s.isShutdown ∧
      (s.run timedOut place).stopping = s.stopping := by
  cases place with
  | wait =>
    rw [run, ReactorThread.pop]
    split
    · exact ⟨rfl, rfl⟩
    · split <;> exact ⟨rfl, rfl⟩
  | process signal inner =>
    obtain ⟨bus, running, heq, -⟩ := s.processSignal_eq signal
    rw [run, heq]
    exact ⟨rfl, rfl⟩
  | test =>
    rw [run, yieldBurst]
    split
    · split <;> exact ⟨rfl, rfl⟩
    · exact ⟨rfl, rfl⟩
  | drain =>
    rw [run, ReactorThread.drain]
    split
    · exact ⟨rfl, rfl⟩
    · split <;> exact ⟨rfl, rfl⟩
  | _ => exact ⟨rfl, rfl⟩

theorem tryPushSignal_cases (s : ReactorThread) (signal : ReactorSignal) :
    s.tryPushSignal signal = none ∨
      ∃ signals, s.tryPushSignal signal = some { s with signals } := by
  rw [tryPushSignal]
  split
  · exact .inl rfl
  · cases s.signals.tryPush signal with
    | none => exact .inl rfl
    | some signals => exact .inr ⟨signals, rfl⟩

/-- A call of `stop` that clears `running_` has shut the queue down before. -/
def Late (s : ReactorThread) : Prop :=
  s.stopping = some .store ∨ s.stopping = some .join → s.isShutdown = true

theorem Late.step (late : s.Late) (action : Action) : (s.step action).Late := by
  cases action with
  | start =>
    rw [ReactorThread.step]
    split
    · exact late
    · exact late
  | stop =>
    rw [ReactorThread.step]
    split
    · rintro (h | h) <;> cases h
    · exact late
  | goOn =>
    rw [ReactorThread.step]
    cases hstopping : s.stopping with
    | none => exact late
    | some point =>
      show (s.stop point).Late
      cases point with
      | push =>
        rw [ReactorThread.stop]
        split <;> rintro (h | h) <;> cases h
      | discard => rintro (h | h) <;> cases h
      | pushAgain => rintro (h | h) <;> cases h
      | shutdown => exact fun _ => rfl
      | store => exact fun _ => late (.inl hstopping)
      | join =>
        rw [ReactorThread.stop]
        split
        · rintro (h | h) <;> cases h
        · exact late
  | work timedOut =>
    rw [ReactorThread.step]
    cases s.worker with
    | none => exact late
    | some place =>
      obtain ⟨hshutdown, hstopping⟩ := s.run_frame timedOut place
      show Late (s.run timedOut place)
      rw [Late, hshutdown, hstopping]
      exact late
  | pushSignal signal =>
    rw [ReactorThread.step]
    obtain hnone | ⟨signals, hsome⟩ := s.tryPushSignal_cases signal
    · rw [hnone]
      exact late
    · rw [hsome]
      exact late
  | discardSignal =>
    rw [ReactorThread.step, ReactorThread.discardSignal]
    split <;> exact late
  | pushBus event => exact late
  | discardBus => exact late

/-- What a thread needs to end, as long as the owner waits for it. -/
structure Closing (s : ReactorThread) : Prop where
  shutdown : s.isShutdown = true
  joining : s.stopping = some .join
  ends : s.Ends

theorem Closing.work (closing : s.Closing) (timedOut : Bool) :
    (s.step (.work timedOut)).Closing ∧
      (s.step (.work timedOut)).remaining ≤ s.remaining - 1 := by
  rw [ReactorThread.step, remaining, remaining]
  cases hworker : s.worker with
  | none =>
    refine ⟨closing, ?_⟩
    show (s.worker.map (remainingAt s.signals.waiting.length)).getD 0 ≤ _
    rw [hworker]
    exact Nat.le_refl _
  | some place =>
    have worked := run_worked closing.shutdown timedOut place
    obtain ⟨hshutdown, hstopping, -⟩ := worked.frame
    obtain ⟨next, hnext, ending, hremaining⟩ := worked.ending hworker (closing.ends place hworker)
    refine ⟨⟨hshutdown.trans closing.shutdown, hstopping.trans closing.joining, ?_⟩, ?_⟩
    · intro place' hplace
      obtain rfl : next = place' := Option.some.inj (hnext.symm.trans hplace)
      exact ending
    · show ((s.run timedOut place).worker.map _).getD 0 ≤ _
      rw [hnext]
      exact hremaining

theorem Closing.step (closing : s.Closing) {action : Action} (hown : action.isOwn = false) :
    (s.step action).Closing ∧
      (s.step action).remaining ≤ s.remaining - if action.isWork then 1 else 0 := by
  by_cases hwork : action.isWork = true
  · cases action with
    | work timedOut => exact closing.work timedOut
    | _ => cases hwork
  · obtain ⟨bus, -, heq⟩ := step_producer closing.shutdown (Bool.not_eq_true _ ▸ hwork) hown
    rw [heq, if_neg hwork]
    exact ⟨⟨closing.shutdown, closing.joining, closing.ends⟩, Nat.le_refl _⟩

theorem remainingAt_eq_zero {waiting : Nat} (h : remainingAt waiting place = 0) :
    place = .finished := by
  cases place with
  | finished => rfl
  | wait =>
    rw [remainingAt] at h
    split at h <;> omega
  | process signal inner => cases inner <;> simp [remainingAt] at h
  | _ => simp [remainingAt] at h

theorem remaining_le (s : ReactorThread) : s.remaining ≤ 68 := by
  have hbounded : s.signals.waiting.length ≤ 16 := s.signals.bounded
  rw [remaining]
  cases s.worker with
  | none => exact Nat.zero_le _
  | some place =>
    show remainingAt s.signals.waiting.length place ≤ 68
    cases place with
    | wait =>
      rw [remainingAt]
      split <;> omega
    | process signal inner =>
      have hinner : (if inner then 4 else 3) ≤ 4 := by split <;> omega
      rw [remainingAt]
      omega
    | _ =>
      simp only [remainingAt]
      omega

/-- The call of `stop` that waits for a thread which has ended returns. -/
theorem goOn_of_remaining (hjoining : s.stopping = some .join) (h : s.remaining = 0) :
    (s.step .goOn).stopping = none := by
  have hended : s.worker = none ∨ s.worker = some .finished := by
    rw [remaining] at h
    cases hworker : s.worker with
    | none => exact .inl rfl
    | some place =>
      rw [hworker] at h
      exact .inr (congrArg some (remainingAt_eq_zero h))
  rw [ReactorThread.step, hjoining]
  show (s.stop .join).stopping = none
  rw [ReactorThread.stop, if_pos hended]

/-- The shutdown signal of `stop` can get lost: both pushes may find the queue full, a producer
may discard it, and an earlier `stop` has shut the queue already. A thread that has not yet set
`running_` when it is cleared then never ends, and `stop` never returns. In every other case it
returns after at most 68 operations of the thread, whatever the producers do. -/
theorem run_joins (actions rest : List Action)
    (hjoin : (Runs.run step ({} : ReactorThread) actions).stopping = some .join) :
    let s := Runs.run step ({} : ReactorThread) actions
    (s.Ends → (∀ action ∈ rest, action.isOwn = false) → 68 ≤ rest.countP Action.isWork →
      ((Runs.run step s rest).step .goOn).stopping = none) ∧
    (¬s.Ends → (Runs.run step s rest).stopping = some .join) := by
  intro s
  have late : s.Late := Runs.invariant_always (I := Late)
    (fun _ action late => late.step action) (fun h => by rcases h with h | h <;> cases h) actions
  have hshutdown : s.isShutdown = true := late (.inr hjoin)
  constructor
  · intro ends hothers hwork
    have closing : Closing s := ⟨hshutdown, hjoin, ends⟩
    have hdown : (Runs.run step s rest).remaining ≤ s.remaining - rest.countP Action.isWork :=
      Runs.countdown (I := Closing) remaining (fun _ _ closing hown => (closing.step hown).1)
        (fun _ _ closing hown => (closing.step hown).2) closing hothers
    have hclosing : (Runs.run step s rest).Closing :=
      Runs.invariant_forall (I := Closing) (fun _ _ closing hown => (closing.step hown).1)
        closing hothers
    refine goOn_of_remaining hclosing.joining ?_
    have hmost := s.remaining_le
    omega
  · intro hloops
    simp only [Ends, not_forall] at hloops
    obtain ⟨place, hworker, hloops⟩ := hloops
    obtain ⟨hfinished, hrunning, hnotified⟩ : place ≠ .finished ∧
        ¬(s.running = false ∧ place ≠ .begin) ∧ ¬s.Notified place := by
      rw [Ending, not_or, not_or] at hloops
      exact hloops
    have spinning : s.Spinning := by
      refine ⟨hshutdown, hjoin, fun h => hnotified (.inl h), place, hworker, hfinished, ?_, ?_⟩
      · exact fun inner h => hnotified (.inr ⟨inner, h⟩)
      · by_contra hneither
        rw [not_or] at hneither
        exact hrunning ⟨Bool.not_eq_true _ ▸ hneither.1, hneither.2⟩
    exact (Runs.invariant_always (I := Spinning)
      (fun _ action spinning => spinning.step action) spinning rest).joining

/-- A reactor that is stopped, started and stopped again before its thread has got anywhere. -/
theorem run_joins_early :
    let cycle := [Action.start] ++ List.replicate 2 (.work false) ++ [.stop, .goOn, .goOn, .goOn] ++
      List.replicate 4 (.work false) ++ [.goOn]
    let s := Runs.run step ({} : ReactorThread) (cycle ++ [.start, .stop] ++
      List.replicate 5 .goOn)
    ∀ rest, (Runs.run step s rest).stopping = some .join := by
  intro cycle s rest
  refine (run_joins _ rest rfl).2 fun ends => ?_
  obtain h | ⟨-, h⟩ | h | ⟨inner, h⟩ := ends .begin rfl
  · cases h
  · exact h rfl
  · cases h
  · cases h

/-- A signal in the hands of the thread. -/
def held : Option Place → Nat
  | some (.process _ _) => 1
  | _ => 0

/-- The bus events that have been traced, and the signals that may still cause one. -/
def load (s : ReactorThread) : Nat :=
  s.bus.delivered.length + s.signals.waiting.length + held s.worker

theorem Worked.load (worked : Worked s place after) (hworker : s.worker = some place) :
    after.load ≤ s.load := by
  rw [ReactorThread.load, ReactorThread.load, hworker]
  cases worked with
  | pop signal signals hwaiting hentered =>
    rw [hwaiting, List.length_cons]
    exact Nat.le_of_eq (Nat.add_assoc ..)
  | process signal inner bus running hrunning hbus =>
    have hput : held (some (if inner then .test else .drain)) = 0 := by cases inner <;> rfl
    have htaken : held (some (.process signal inner)) = 1 := rfl
    dsimp only
    rw [hput, htaken]
    omega
  | test hrunning burstCount next hnext =>
    obtain rfl | rfl := hnext <;> exact Nat.le_refl _
  | leave hrunning place hplace => exact Nat.add_le_add_left (Nat.zero_le _) _
  | finished => exact Nat.le_of_eq (congrArg (_ + held ·) hworker)
  | _ => exact Nat.le_refl _

theorem step_own (hshutdown : s.isShutdown = true) {action : Action}
    (hown : action.isOwn = true) :
    ∃ running worker stopping, s.step action = { s with running, worker, stopping } ∧
      held worker ≤ held s.worker := by
  have hnone : ∀ signal, s.tryPushSignal signal = none := fun signal => if_pos hshutdown
  cases action with
  | start =>
    rw [step]
    split
    · exact ⟨_, _, _, rfl, Nat.zero_le _⟩
    · exact ⟨_, _, _, rfl, Nat.le_refl _⟩
  | stop =>
    rw [step]
    split <;> exact ⟨_, _, _, rfl, Nat.le_refl _⟩
  | goOn =>
    rw [step]
    cases s.stopping with
    | none => exact ⟨_, _, _, rfl, Nat.le_refl _⟩
    | some point =>
      show ∃ running worker stopping, s.stop point = { s with running, worker, stopping } ∧ _
      cases point with
      | push =>
        rw [stop, hnone]
        exact ⟨_, _, _, rfl, Nat.le_refl _⟩
      | discard =>
        rw [stop, discardSignal, if_pos hshutdown]
        exact ⟨_, _, _, rfl, Nat.le_refl _⟩
      | pushAgain =>
        rw [stop, hnone]
        exact ⟨_, _, _, rfl, Nat.le_refl _⟩
      | shutdown =>
        refine ⟨s.running, s.worker, some .store, ?_, Nat.le_refl _⟩
        rw [stop, ← hshutdown]
      | store => exact ⟨_, _, _, rfl, Nat.le_refl _⟩
      | join =>
        rw [stop]
        split
        · exact ⟨_, _, _, rfl, Nat.zero_le _⟩
        · exact ⟨_, _, _, rfl, Nat.le_refl _⟩
  | _ => cases hown

/-- What a shut down reactor keeps in every step. -/
theorem step_shutdown (hshutdown : s.isShutdown = true) (action : Action) :
    (s.step action).isShutdown = true ∧
      (s.step action).signals.entered = s.signals.entered ∧
      (s.step action).load ≤ s.load := by
  by_cases hwork : action.isWork = true
  · cases action with
    | work timedOut =>
      rw [step]
      cases hworker : s.worker with
      | none => exact ⟨hshutdown, rfl, Nat.le_refl _⟩
      | some place =>
        have worked := run_worked hshutdown timedOut place
        obtain ⟨hstays, -, hentered⟩ := worked.frame
        exact ⟨hstays.trans hshutdown, hentered, worked.load hworker⟩
    | _ => cases hwork
  by_cases hown : action.isOwn = true
  · obtain ⟨running, worker, stopping, heq, hheld⟩ := step_own hshutdown hown
    rw [heq]
    exact ⟨hshutdown, rfl, Nat.add_le_add_left hheld _⟩
  · obtain ⟨bus, hdelivered, heq⟩ := step_producer hshutdown (Bool.not_eq_true _ ▸ hwork)
      (Bool.not_eq_true _ ▸ hown)
    rw [heq]
    refine ⟨hshutdown, rfl, Nat.le_of_eq ?_⟩
    exact congrArg (fun events : List Nat =>
      events.length + s.signals.waiting.length + held s.worker) hdelivered

/-- Once `stop` has shut the signal queue down, no run opens it again, whatever is started after
it: no signal is accepted, at most 17 more bus events reach the trace callback, and the thread
of the reactor never waits. -/
theorem run_restarted (actions rest : List Action)
    (hshutdown : (Runs.run step ({} : ReactorThread) actions).isShutdown = true) :
    let s := Runs.run step ({} : ReactorThread) actions
    let t := Runs.run step s rest
    t.signals.entered = s.signals.entered ∧
    t.bus.delivered.length ≤ s.bus.delivered.length + 17 ∧
    (t.worker = some .wait → (t.step (.work false)).worker ≠ some .wait) := by
  intro s t
  obtain ⟨hstays, hentered, hload⟩ : t.isShutdown = true ∧
      t.signals.entered = s.signals.entered ∧ t.load ≤ s.load := by
    refine Runs.invariant_always (I := fun t : ReactorThread => t.isShutdown = true ∧
      t.signals.entered = s.signals.entered ∧ t.load ≤ s.load) ?_
      ⟨hshutdown, rfl, Nat.le_refl _⟩ rest
    rintro t action ⟨hstays, hentered, hload⟩
    obtain ⟨hstep, hsame, hless⟩ := step_shutdown hstays action
    exact ⟨hstep, hsame.trans hentered, Nat.le_trans hless hload⟩
  refine ⟨hentered, ?_, ?_⟩
  · have hbounded : s.signals.waiting.length ≤ 16 := s.signals.bounded
    have hheld : held s.worker ≤ 1 := by
      unfold held
      split
      · exact Nat.le_refl _
      · exact Nat.zero_le _
    simp only [load] at hload
    omega
  · intro hwait
    rw [step, hwait]
    show (t.run false .wait).worker ≠ some .wait
    have worked := run_worked hstays false .wait
    generalize t.run false .wait = after at worked
    cases worked with
    | pop signal signals hwaiting _ => exact fun h => by cases h
    | empty hempty => exact fun h => by cases h
    | leave hrunning place hplace => rcases hplace with h | h <;> cases h

/-- A reactor that has been stopped, with a bus event. -/
theorem run_restarted_event :
    (Runs.run step (Runs.run step ({} : ReactorThread) [.start, .stop, .goOn, .goOn])
      [.goOn, .pushBus 0, .pushSignal .busByte]).signals.entered =
    (Runs.run step ({} : ReactorThread) [.start, .stop, .goOn, .goOn]).signals.entered :=
  (run_restarted [.start, .stop, .goOn, .goOn] [.goOn, .pushBus 0, .pushSignal .busByte]
    (by decide)).1

end

end ReactorThread

end Ebus
