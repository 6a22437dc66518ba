import Ebus.Lib.Run
import Ebus.App.Schedule

/-!
# Correlation of callbacks with the item in progress

The callbacks of the engine stamp their events with two ids that are kept beside the
item in progress. Starting, retrying and ending a session change item and ids together.
`clear` and `stop` take the item away and leave the ids, so that later traffic on the
bus is reported under a session that is over.
-/

namespace Ebus

namespace Scheduler

/-- The ids for the callbacks are those of the item in progress. -/
def Correlated (s : Scheduler) : Prop :=
  match s.activeItem with
  | some active => s.currentSessionId = active.sessionId ∧ s.currentPollId = active.item.pollId
  | none => s.currentSessionId = 0 ∧ s.currentPollId = 0

instance (s : Scheduler) : Decidable s.Correlated :=
  match h : s.activeItem with
  | some active => decidable_of_iff
      (s.currentSessionId = active.sessionId ∧ s.currentPollId = active.item.pollId)
      (by simp [Correlated, h])
  | none => decidable_of_iff (s.currentSessionId = 0 ∧ s.currentPollId = 0)
      (by simp [Correlated, h])

/-- A callback posts no event with the id of a session that is not in progress. -/
def PostsCurrent (s : Scheduler) : Prop :=
  ∀ effect event, s.onEffect effect = some event → event.sessionId ≠ 0 →
    ∃ active, s.activeItem = some active ∧ event.sessionId = active.sessionId ∧
      event.pollId = active.item.pollId

theorem onEffect_ids {s : Scheduler} {effect : Effect} {event : ProtocolEvent}
    (h : s.onEffect effect = some event) :
    event.sessionId = s.currentSessionId ∧ event.pollId = s.currentPollId := by
  cases effect with
  | won =>
      simp only [onEffect, onArbitration] at h
      split at h
      · simp at h
      · obtain rfl := Option.some.inj h
        exact ⟨rfl, rfl⟩
  | lost =>
      simp only [onEffect, onArbitration] at h
      split at h
      · simp at h
      · obtain rfl := Option.some.inj h
        exact ⟨rfl, rfl⟩
  | protocol info =>
      obtain rfl := Option.some.inj h
      unfold onHandlerProtocol
      dsimp only
      split <;> exact ⟨rfl, rfl⟩
  | _ => simp [onEffect] at h

theorem Correlated.postsCurrent {s : Scheduler} (hs : s.Correlated) : s.PostsCurrent := by
  intro effect event hevent hid
  obtain ⟨hsession, hpoll⟩ := onEffect_ids hevent
  unfold Correlated at hs
  cases hactive : s.activeItem with
  | none =>
      simp only [hactive] at hs
      exact absurd (hsession.trans hs.1) hid
  | some active =>
      simp only [hactive] at hs
      exact ⟨active, rfl, hsession.trans hs.1, hpoll.trans hs.2⟩

theorem idle_correlated (s : Scheduler) : s.idle.Correlated := ⟨rfl, rfl⟩

theorem Correlated.injectProtocolEvent {s : Scheduler} (hs : s.Correlated)
    (event : ProtocolEvent) (now : Int) : (s.injectProtocolEvent event now).1.Correlated := by
  obtain heq | ⟨active, -, -, -, ⟨-, -, heq⟩ | ⟨-, heq⟩⟩ := s.injectProtocolEvent_cases event now
  · rwa [heq]
  · rw [heq]
    obtain ⟨-, hout⟩ | ⟨-, hback⟩ := s.requeue_cases (countAttempt event active.item) now
    · rw [hout]
      exact s.idle_correlated
    · rw [hback]
      exact ⟨rfl, rfl⟩
  · rw [heq]
    exact s.idle_correlated

end Scheduler

namespace Schedule

/-- The scheduler is cleared between sessions; a session in progress is no exception
only when both its ids are zero. -/
def ClearsIdle (d : Schedule) : Action → Prop
  | .clear | .stop => ∀ active ∈ d.scheduler.activeItem,
      active.sessionId = 0 ∧ active.item.pollId = 0
  | _ => True

theorem correlated_enqueueAt {d : Schedule} (hd : d.scheduler.Correlated) (priority : UInt8)
    (message : List UInt8) (due : Int) (pollId : UInt16) :
    (d.answered (d.scheduler.enqueueAt priority message due pollId)).scheduler.Correlated := by
  obtain ⟨-, heq⟩ | ⟨-, heq⟩ := d.scheduler.enqueueAt_cases priority message due pollId
  · simp only [answered, heq]
    exact hd
  · simp only [answered, heq]
    exact hd

/-- Without an item the ids have to be zero; they are the ones of the item before. -/
theorem correlated_clear_iff {s : Scheduler} (hs : s.Correlated) :
    s.clear.Correlated ↔
      ∀ active ∈ s.activeItem, active.sessionId = 0 ∧ active.item.pollId = 0 := by
  change s.currentSessionId = 0 ∧ s.currentPollId = 0 ↔ _
  unfold Scheduler.Correlated at hs
  cases hactive : s.activeItem with
  | none =>
      simp only [hactive] at hs
      simp [hs]
  | some active =>
      simp only [hactive] at hs
      simp [hs]

theorem step_correlated (d : Schedule) (action : Action) (hd : d.scheduler.Correlated)
    (hok : ClearsIdle d action) : (step d action).scheduler.Correlated := by
  cases action with
  | enqueue priority message now pollId => exact correlated_enqueueAt hd priority message now pollId
  | enqueueAt priority message due pollId =>
      exact correlated_enqueueAt hd priority message due pollId
  | tick handler now =>
      obtain heq | ⟨top, others, -, -, -, heq⟩ := d.tick_cases handler now
      · simpa only [step, heq] using hd
      · simp only [step, heq]
        exact ⟨rfl, rfl⟩
  | injectProtocolEvent event now => exact hd.injectProtocolEvent event now
  | clear => exact (correlated_clear_iff hd).mpr hok
  | stop => exact (correlated_clear_iff hd).mpr hok

theorem step_not_correlated (d : Schedule) (action : Action) (hd : d.scheduler.Correlated)
    (hnot : ¬ ClearsIdle d action) : ¬ (step d action).scheduler.Correlated := by
  cases action with
  | clear => exact fun h => hnot ((correlated_clear_iff hd).mp h)
  | stop => exact fun h => hnot ((correlated_clear_iff hd).mp h)
  | enqueue priority message now pollId => exact absurd trivial hnot
  | enqueueAt priority message due pollId => exact absurd trivial hnot
  | tick handler now => exact absurd trivial hnot
  | injectProtocolEvent event now => exact absurd trivial hnot

/-- The ids follow the item in progress throughout a run, and no callback posts the id of
another session, exactly when the run does not clear the scheduler during a session. -/
theorem run_correlated_iff (maxAttempts : UInt8) (baseBackoff totalTimeout : Int)
    (actions : List Action) :
    (∀ n, (Runs.run step (create maxAttempts baseBackoff totalTimeout)
        (actions.take n)).scheduler.Correlated ∧
      (Runs.run step (create maxAttempts baseBackoff totalTimeout)
        (actions.take n)).scheduler.PostsCurrent) ↔
    Runs.Meets step ClearsIdle (create maxAttempts baseBackoff totalTimeout) actions := by
  have hstart : (create maxAttempts baseBackoff totalTimeout).scheduler.Correlated := ⟨rfl, rfl⟩
  rw [← Runs.invariant_iff_meets step_correlated step_not_correlated hstart actions]
  constructor
  · intro hall n
    exact (hall n).1
  · intro hall n
    exact ⟨hall n, (hall n).postsCurrent⟩

/-- The scheduler is cleared while a message is in progress. -/
def clearedInSession : List Action :=
  [.enqueue 1 [0xfe, 0x07, 0x04, 0x00] 0 7, .tick (Handler.create 0xff {}) 0, .clear]

/-- The next lost arbitration is reported under the session that is gone. -/
theorem cleared_session_posts :
    (Runs.run step (create 3 100000 2000000) clearedInSession).scheduler.activeItem = none ∧
    ¬ (Runs.run step (create 3 100000 2000000) clearedInSession).scheduler.Correlated ∧
    ¬ (Runs.run step (create 3 100000 2000000)
        clearedInSession).scheduler.PostsCurrent := by
  refine ⟨by decide, by decide, ?_⟩
  intro hposts
  obtain ⟨active, hactive, -⟩ := hposts .lost
    { type := .lost, sessionId := 1, pollId := 7, handlerState := .requestBus
      requestState := .observe } (by decide) (by decide)
  have hnone : (Runs.run step (create 3 100000 2000000)
      clearedInSession).scheduler.activeItem = none := by decide
  rw [hnone] at hactive
  simp at hactive

end Schedule

end Ebus
