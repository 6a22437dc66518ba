import Mathlib.Data.List.Nodup
import Ebus.App.Scheduler

/-!
# No scheduled message is lost

Every message that was taken into the queue is at any time in one place: it waits in
the queue, it is the one in progress, or its session has ended. `Ledger` keeps beside
the scheduler the answer of each `enqueueAt` call and the sessions that have ended,
each with the event that was injected last. A session has ended when it is no longer
in progress and not in the queue again.

A session may only end with a telegram, with a message that the engine refuses, or
with its last attempt. The exception is a retry while the queue is full: the push
behind the queue fails and the item is gone.
-/

namespace Ebus

namespace Ledger

/-- A session that has ended: the item as it was in progress, and the last event. -/
structure Finished where
  item : Item
  event : ProtocolEvent
  deriving DecidableEq, Repr

end Ledger

/-- The scheduler with its history. -/
structure Ledger where
  scheduler : Scheduler
  /-- the number of each `enqueueAt` call with its answer -/
  answers : List (Nat × UInt32) := []
  finished : List Ledger.Finished := []
  deriving DecidableEq, Repr

namespace Ledger

/-- The engine that `tick` finds is arbitrary, and so are the events that arrive. -/
inductive Action where
  | enqueueAt (priority : UInt8) (message : List UInt8) (due : Int) (pollId : UInt16)
  | tick (handler : Handler) (now : Int)
  | injectProtocolEvent (event : ProtocolEvent) (now : Int)

/-- The item whose session has ended between two states of the scheduler. -/
def ended (before after : Scheduler) : Option Item :=
  match before.activeItem with
  | none => none
  | some active =>
      if after.activeItem = none ∧
          active.item.ticket ∉ after.scheduledItems.map Item.ticket then some active.item
      else none

def step (l : Ledger) : Action → Ledger
  | .enqueueAt priority message due pollId =>
      let (scheduler, sessionId) := l.scheduler.enqueueAt priority message due pollId
      { l with scheduler, answers := l.answers ++ [(l.scheduler.tickets, sessionId)] }
  | .tick handler now => { l with scheduler := (l.scheduler.tick handler now).scheduler }
  | .injectProtocolEvent event now =>
      let scheduler := (l.scheduler.injectProtocolEvent event now).1
      { l with
        scheduler
        finished := l.finished ++
          (ended l.scheduler scheduler).toList.map fun item => { item, event } }

/-- The reasons for which a session may end. -/
def Finished.Justified (maxAttempts : UInt8) (f : Finished) : Prop :=
  f.event.sessionId = f.item.sessionId ∧
  (f.event.type = .telegram ∨
    f.event.type = .error ∧ f.event.protocolError = .invalidMessage ∨
    (f.event.type = .lost ∨ f.event.type = .error) ∧
      maxAttempts ≤ (Scheduler.countAttempt f.event f.item).attempts)

/-- The places of all items: the queue, the session in progress, the ended sessions. -/
def tickets (l : Ledger) : List Nat :=
  l.scheduler.scheduledItems.map Item.ticket ++
    (l.scheduler.activeItem.toList.map fun active => active.item.ticket) ++
    l.finished.map fun f => f.item.ticket

/-- No retry comes while the queue is full. -/
def RetriesFit (l : Ledger) : Action → Prop
  | .injectProtocolEvent event _ => ∀ active, l.scheduler.activeItem = some active →
      event.sessionId = active.sessionId → Scheduler.retries event = true →
      (Scheduler.countAttempt event active.item).attempts < l.scheduler.maxAttempts →
      l.scheduler.scheduledItems.length < SchedulerLimits.maxItems
  | _ => True

instance (l : Ledger) (action : Action) : Decidable (RetriesFit l action) := by
  cases action with
  | enqueueAt => exact .isTrue trivial
  | tick => exact .isTrue trivial
  | injectProtocolEvent event now =>
      unfold RetriesFit
      cases l.scheduler.activeItem with
      | none => exact .isTrue (by simp)
      | some active =>
          exact decidable_of_iff
            (event.sessionId = active.sessionId → Scheduler.retries event = true →
              (Scheduler.countAttempt event active.item).attempts < l.scheduler.maxAttempts →
              l.scheduler.scheduledItems.length < SchedulerLimits.maxItems) (by simp)

/-- The invariant of runs. -/
structure Conserved (maxAttempts : UInt8) (l : Ledger) : Prop where
  limit : l.scheduler.maxAttempts = maxAttempts
  session : ∀ active, l.scheduler.activeItem = some active →
    active.sessionId = active.item.sessionId
  issued : ∀ ticket ∈ l.tickets, ticket < l.scheduler.tickets
  once : l.tickets.Nodup
  present : ∀ ticket sessionId, (ticket, sessionId) ∈ l.answers → sessionId ≠ 0 →
    ticket ∈ l.tickets
  justified : ∀ f ∈ l.finished, f.Justified maxAttempts

/-- A rearrangement of the items keeps the counts. -/
theorem Conserved.of_perm {maxAttempts : UInt8} {l l' : Ledger} (hi : Conserved maxAttempts l)
    (hlimit : l'.scheduler.maxAttempts = l.scheduler.maxAttempts)
    (hsession : ∀ active, l'.scheduler.activeItem = some active →
      active.sessionId = active.item.sessionId)
    (hissued : l'.scheduler.tickets = l.scheduler.tickets) (hanswers : l'.answers = l.answers)
    (hjustified : ∀ f ∈ l'.finished, f.Justified maxAttempts)
    (hperm : l.tickets.Perm l'.tickets) : Conserved maxAttempts l' where
  limit := hlimit.trans hi.limit
  session := hsession
  issued := by
    intro ticket hmem
    rw [hissued]
    exact hi.issued ticket (hperm.mem_iff.mpr hmem)
  once := hperm.nodup_iff.mp hi.once
  present := by
    intro ticket sessionId hmem hid
    rw [hanswers] at hmem
    exact hperm.mem_iff.mp (hi.present ticket sessionId hmem hid)
  justified := hjustified

theorem step_enqueueAt {maxAttempts : UInt8} {l : Ledger} (hi : Conserved maxAttempts l)
    (priority : UInt8) (message : List UInt8) (due : Int) (pollId : UInt16) :
    Conserved maxAttempts (step l (.enqueueAt priority message due pollId)) := by
  obtain ⟨limit, session, issued, once, present, justified⟩ := hi
  have hfresh : l.scheduler.tickets ∉ l.tickets := fun hmem =>
    Nat.lt_irrefl _ (issued _ hmem)
  obtain ⟨-, heq⟩ | ⟨-, heq⟩ := l.scheduler.enqueueAt_cases priority message due pollId
  · simp only [step, heq]
    refine ⟨limit, session, ?_, once, ?_, justified⟩
    · intro ticket hmem
      exact Nat.lt_succ_of_lt (issued ticket hmem)
    · intro ticket sessionId hmem hid
      obtain hold | hnew := List.mem_append.mp hmem
      · exact present ticket sessionId hold hid
      · simp only [List.mem_singleton, Prod.mk.injEq] at hnew
        exact absurd hnew.2 hid
  · simp only [step, heq]
    have hperm : Ledger.tickets
        { l with scheduler := { l.scheduler with
                   nextSessionId := l.scheduler.nextSessionId + 1
                   tickets := l.scheduler.tickets + 1
                   scheduledItems := l.scheduler.scheduledItems ++
                     [{ priority, due, sessionId := l.scheduler.nextSessionId, pollId, message
                        ticket := l.scheduler.tickets }] }
                 answers := l.answers ++ [(l.scheduler.tickets, l.scheduler.nextSessionId)] }
        |>.Perm (l.scheduler.tickets :: l.tickets) := by
      simp only [Ledger.tickets, List.map_append, List.map_cons, List.map_nil, List.append_assoc]
      exact List.perm_middle
    refine ⟨limit, session, ?_, ?_, ?_, justified⟩
    · intro ticket hmem
      obtain rfl | hold := List.mem_cons.mp (hperm.mem_iff.mp hmem)
      · exact Nat.lt_succ_self _
      · exact Nat.lt_succ_of_lt (issued ticket hold)
    · exact hperm.nodup_iff.mpr (List.nodup_cons.mpr ⟨hfresh, once⟩)
    · intro ticket sessionId hmem hid
      refine hperm.mem_iff.mpr (List.mem_cons.mpr ?_)
      obtain hold | hnew := List.mem_append.mp hmem
      · exact .inr (present ticket sessionId hold hid)
      · simp only [List.mem_singleton, Prod.mk.injEq] at hnew
        exact .inl hnew.1

theorem step_tick {maxAttempts : UInt8} {l : Ledger} (hi : Conserved maxAttempts l)
    (handler : Handler) (now : Int) :
    Conserved maxAttempts (step l (.tick handler now)) := by
  obtain ⟨active, -, -, heq⟩ | heq | ⟨top, others, hidle, hpop, -, -, heq⟩ :=
    l.scheduler.tick_cases handler now
  · simpa only [step, heq] using hi
  · simpa only [step, heq] using hi
  · simp only [step, heq, Scheduler.start_scheduler]
    refine hi.of_perm rfl ?_ rfl rfl hi.justified ?_
    · rintro active ⟨rfl⟩
      rfl
    · have hmoved := (Scheduler.popGreatest_perm hpop).map Item.ticket
      simp only [Ledger.tickets, hidle, Option.toList_none, List.map_nil, List.append_nil,
        Option.toList_some, List.map_cons, List.append_assoc, List.cons_append, List.nil_append]
      refine (hmoved.append_right _).trans ?_
      rw [List.map_cons]
      exact List.perm_middle.symm

/-- What makes a session end is one of the permitted reasons. -/
theorem justified_of_ends {maxAttempts : UInt8} {active : ActiveAttempt} {event : ProtocolEvent}
    (hsession : active.sessionId = active.item.sessionId)
    (hid : event.sessionId = active.sessionId) (hwon : event.type ≠ .won)
    (hlast : Scheduler.retries event = true →
      maxAttempts ≤ (Scheduler.countAttempt event active.item).attempts) :
    Finished.Justified maxAttempts { item := active.item, event } := by
  refine ⟨hid.trans hsession, ?_⟩
  cases htype : event.type with
  | won => exact absurd htype hwon
  | telegram => exact .inl rfl
  | lost => exact .inr (.inr ⟨.inl rfl, hlast (by simp [Scheduler.retries, htype])⟩)
  | error =>
      by_cases hfatal : event.protocolError = .invalidMessage
      · exact .inr (.inl ⟨rfl, hfatal⟩)
      · exact .inr (.inr ⟨.inr rfl, hlast (by simp [Scheduler.retries, htype, hfatal])⟩)

theorem step_injectProtocolEvent {maxAttempts : UInt8} {l : Ledger} (hi : Conserved maxAttempts l)
    {event : ProtocolEvent} {now : Int} (hfit : RetriesFit l (.injectProtocolEvent event now)) :
    Conserved maxAttempts (step l (.injectProtocolEvent event now)) := by
  obtain heq | ⟨active, hactive, hid, hwon, ⟨hagain, hleft, heq⟩ | ⟨hlast, heq⟩⟩ :=
    l.scheduler.injectProtocolEvent_cases event now
  · have hsame : ended l.scheduler l.scheduler = none := by
      unfold ended
      split
      · rfl
      · simp [*]
    simpa [step, heq, hsame] using hi
  · -- the queue has room, so that the item is back in it
    have hroom : ¬ SchedulerLimits.maxItems ≤ l.scheduler.scheduledItems.length :=
      Nat.not_le.mpr (hfit active hactive hid hagain hleft)
    have hticket : (Scheduler.countAttempt event active.item).ticket = active.item.ticket := by
      unfold Scheduler.countAttempt
      split <;> rfl
    have hnone : ended l.scheduler
        (l.scheduler.requeue (Scheduler.countAttempt event active.item) now) = none := by
      simp [ended, hactive, Scheduler.requeue, if_neg hroom, Scheduler.idle, hticket]
    simp only [step, heq, hnone]
    refine hi.of_perm ?_ ?_ ?_ rfl (by simpa using hi.justified) ?_
    · simp [Scheduler.requeue, if_neg hroom, Scheduler.idle]
    · simp [Scheduler.requeue, if_neg hroom, Scheduler.idle]
    · simp [Scheduler.requeue, if_neg hroom, Scheduler.idle]
    · simp [Ledger.tickets, Scheduler.requeue, if_neg hroom, Scheduler.idle, hactive, hticket]
  · have hout : active.item.ticket ∉ l.scheduler.scheduledItems.map Item.ticket := by
      have honce := hi.once
      simp only [Ledger.tickets, hactive, Option.toList_some, List.map_cons, List.map_nil,
        List.append_assoc, List.singleton_append] at honce
      intro hmem
      exact (List.nodup_append.mp honce).2.2 _ hmem _ (List.mem_cons_self ..) rfl
    have hended : ended l.scheduler l.scheduler.idle = some active.item := by
      simpa [ended, hactive, Scheduler.idle] using hout
    simp only [step, heq, hended]
    refine hi.of_perm rfl (by simp [Scheduler.idle]) rfl rfl ?_ ?_
    · intro f hmem
      obtain hold | hnew := List.mem_append.mp hmem
      · exact hi.justified f hold
      · obtain rfl : f = { item := active.item, event } := by simpa using hnew
        exact justified_of_ends (hi.session active hactive) hid hwon (hi.limit ▸ hlast)
    · simp only [Ledger.tickets, hactive, Scheduler.idle, Option.toList_some, Option.toList_none,
        List.map_cons, List.map_nil, List.append_nil, List.map_append, List.append_assoc]
      exact List.Perm.append_left _ List.perm_append_comm

theorem step_conserved {maxAttempts : UInt8} (l : Ledger) (action : Action)
    (hi : Conserved maxAttempts l) (hok : RetriesFit l action) :
    Conserved maxAttempts (step l action) := by
  cases action with
  | enqueueAt priority message due pollId => exact step_enqueueAt hi priority message due pollId
  | tick handler now => exact step_tick hi handler now
  | injectProtocolEvent event now => exact step_injectProtocolEvent hi hok

/-- In a run whose retries find room every accepted message is in exactly one place,
and the sessions that have ended did so for one of the permitted reasons. -/
theorem run_keeps_items (scheduler : Scheduler) (empty : scheduler.scheduledItems = [])
    (idle : scheduler.activeItem = none) (actions : List Action)
    (meets : Runs.Meets step RetriesFit { scheduler } actions) :
    (∀ ticket sessionId,
      (ticket, sessionId) ∈ (Runs.run step { scheduler } actions).answers → sessionId ≠ 0 →
      (Runs.run step { scheduler } actions).tickets.count ticket = 1) ∧
    ∀ f ∈ (Runs.run step { scheduler } actions).finished,
      f.Justified scheduler.maxAttempts := by
  have hstart : Conserved scheduler.maxAttempts { scheduler } := by
    constructor <;> simp [Ledger.tickets, empty, idle]
  have hinv := Runs.invariant step_conserved hstart meets
  refine ⟨?_, hinv.justified⟩
  intro ticket sessionId hanswer hid
  exact List.count_eq_one_of_mem hinv.once (hinv.present ticket sessionId hanswer hid)

/-- A message whose first attempt is lost and whose second one ends with a telegram. -/
def lostThenSent : List Action :=
  [.enqueueAt 1 [0xfe, 0x07, 0x04, 0x00] 0 0, .tick (Handler.create 0xff {}) 0,
    .injectProtocolEvent
      { type := .lost, sessionId := 1, pollId := 0, handlerState := .requestBus
        requestState := .observe } 0,
    .tick (Handler.create 0xff {}) 200000,
    .injectProtocolEvent
      { type := .telegram, sessionId := 1, pollId := 0, handlerState := .activeSendMaster
        requestState := .observe } 200000]

theorem run_keeps_items_lostThenSent :
    Runs.Meets step RetriesFit { scheduler := {} } lostThenSent ∧
    (Runs.run step { scheduler := {} } lostThenSent).tickets.count 0 = 1 ∧
    (Runs.run step { scheduler := {} } lostThenSent).finished.length = 1 :=
  have hmeets : Runs.Meets step RetriesFit { scheduler := {} } lostThenSent := by decide
  ⟨hmeets, (run_keeps_items {} rfl rfl lostThenSent hmeets).1 0 1 (by decide) (by decide),
    by decide⟩

/-- One message is in progress and eight wait when the arbitration is lost. -/
def lostAtFullQueue : List Action :=
  [.enqueueAt 1 [0xfe, 0x07, 0x04, 0x00] 0 0, .tick (Handler.create 0xff {}) 0] ++
    List.replicate 8 (.enqueueAt 1 [0xfe, 0x07, 0x04, 0x00] 0 0) ++
    [.injectProtocolEvent
      { type := .lost, sessionId := 1, pollId := 0, handlerState := .requestBus
        requestState := .observe } 0]

/-- The first message is neither waiting nor in progress, after one of three attempts. -/
theorem item_lost_at_full_queue :
    ¬ ∀ actions, ∀ f ∈ (Runs.run step { scheduler := {} } actions).finished,
      f.Justified ({} : Scheduler).maxAttempts := by
  intro hjustified
  have hreason := hjustified lostAtFullQueue
    { item := { priority := 1, due := 0, sessionId := 1, pollId := 0
                message := [0xfe, 0x07, 0x04, 0x00], ticket := 0 }
      event := { type := .lost, sessionId := 1, pollId := 0, handlerState := .requestBus
                 requestState := .observe } } (by decide)
  obtain ⟨-, htelegram | ⟨herror, -⟩ | ⟨-, hattempts⟩⟩ := hreason
  · exact absurd htelegram (by decide)
  · exact absurd herror (by decide)
  · exact absurd hattempts (by decide)

end Ledger

end Ebus
