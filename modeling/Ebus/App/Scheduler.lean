import Mathlib.Algebra.Group.Int.Defs
import Ebus.Core.BusHandler

/-!
# The scheduler of own messages

`Scheduler` keeps the messages that are waiting in a bounded queue ordered by
`Item.before`, hands the first one that is due to the protocol engine and waits for
events that name its session. Events come from the callbacks of the engine
(`onEffect`) and from the scheduler itself; they are put into a sink and reach
`injectProtocolEvent` some time later.

Times are clock readings in microseconds as unbounded integers, one reading for each
call. The queue of the source is a binary heap in a fixed vector, of which only the
top is ever looked at; here it is a list and the top is its first greatest element.
Counters for telemetry and time stamps of events are left out.
-/

namespace Ebus

namespace SchedulerLimits

def maxItems : Nat := 8

/-- Two milliseconds. -/
def jitterThreshold : Int := 2000

end SchedulerLimits

/-- `StaticSequence::assign`: what does not fit is cut off. -/
def StaticSequence.assign (capacity : Nat) (data : List UInt8) : List UInt8 := data.take capacity

inductive ProtocolEventType where
  | won
  | lost
  | telegram
  | error
  deriving DecidableEq, Repr

/-- What the callbacks of the engine pass on through the sink. -/
structure ProtocolEvent where
  type : ProtocolEventType
  level : LogLevel := .none
  sessionId : UInt32
  pollId : UInt16
  attempts : UInt8 := 0
  handlerState : HandlerState
  requestState : RequestState
  messageType : MessageType := .undefined
  telegramType : TelegramType := .undefined
  protocolError : ProtocolError := .none
  result : RequestResult := .observeData
  sequenceState : SequenceState := .seqEmpty
  master : List UInt8 := []
  slave : List UInt8 := []
  deriving DecidableEq, Repr

/-- A scheduled message. -/
structure Item where
  priority : UInt8
  due : Int
  sessionId : UInt32
  pollId : UInt16
  attempts : UInt8 := 0
  message : List UInt8
  /-- number of the `enqueue` call that made the item; read by no function -/
  ticket : Nat
  deriving DecidableEq, Repr

/-- `Compare`: the greater item is started first. Due times count in steps of the jitter
threshold, then the priority, then the age. -/
def Item.before (a b : Item) : Bool :=
  if a.due.tdiv SchedulerLimits.jitterThreshold ≠ b.due.tdiv SchedulerLimits.jitterThreshold then
    b.due.tdiv SchedulerLimits.jitterThreshold < a.due.tdiv SchedulerLimits.jitterThreshold
  else if a.priority ≠ b.priority then a.priority < b.priority
  else b.sessionId < a.sessionId

structure ActiveAttempt where
  item : Item
  startTime : Int
  sessionId : UInt32
  deriving DecidableEq, Repr

structure Scheduler where
  scheduledItems : List Item := []
  activeItem : Option ActiveAttempt := none
  nextSessionId : UInt32 := 1
  currentSessionId : UInt32 := 0
  currentPollId : UInt16 := 0
  maxAttempts : UInt8 := 3
  baseBackoff : Int := 100000
  totalTimeout : Int := 2000000
  /-- number of calls of `enqueue` so far; not in the source -/
  tickets : Nat := 0
  deriving DecidableEq, Repr

namespace Scheduler

variable (s : Scheduler)

def setMaxAttempts (maxAttempts : UInt8) : Scheduler :=
  { s with maxAttempts := if maxAttempts = 0 then 1 else maxAttempts }

def setBaseBackoff (baseBackoffMs : UInt32) : Scheduler :=
  let baseBackoffMs := if baseBackoffMs = 0 then 1 else baseBackoffMs
  { s with baseBackoff := baseBackoffMs.toNat * 1000 }

def setTotalTimeout (timeoutMs : UInt32) : Scheduler :=
  { s with totalTimeout := timeoutMs.toNat * 1000 }

/-- `onBusRequestWon` and `onBusRequestLost`; nothing is passed on between sessions. -/
def onArbitration (type : ProtocolEventType) (handlerState : HandlerState) :
    Option ProtocolEvent :=
  if s.currentSessionId = 0 then none
  else some { type, sessionId := s.currentSessionId, pollId := s.currentPollId, handlerState
              requestState := .observe }

/-- The attempts of the session in progress, if it is the one the ids name. -/
def currentAttempts : UInt8 :=
  match s.activeItem with
  | some active => if active.sessionId = s.currentSessionId then active.item.attempts else 0
  | none => 0

def onHandlerProtocol (info : ProtocolInfo) : ProtocolEvent :=
  let event : ProtocolEvent :=
    { type := if info.isError then .error else .telegram
      level := info.level, sessionId := s.currentSessionId, pollId := s.currentPollId
      attempts := s.currentAttempts, handlerState := info.handlerState
      requestState := info.requestState
      master := StaticSequence.assign SequenceLimits.modelCapacity info.masterView
      slave := StaticSequence.assign SequenceLimits.modelCapacity info.slaveView }
  if info.isError then
    { event with protocolError := info.protocolError, result := info.result
                 sequenceState := info.sequenceState }
  else { event with messageType := info.messageType, telegramType := info.telegramType }

/-- The event that an effect of the engine puts into the sink. The arbitration
callbacks are made from `requestBus`, before the engine leaves it. -/
def onEffect : Effect → Option ProtocolEvent
  | .won => s.onArbitration .won .requestBus
  | .lost => s.onArbitration .lost .requestBus
  | .protocol info => some (s.onHandlerProtocol info)
  | _ => none

/-- The first greatest element of a list and the others. -/
def popGreatest : List Item → Option (Item × List Item)
  | [] => none
  | item :: rest =>
      match popGreatest rest with
      | none => some (item, [])
      | some (top, others) =>
          if item.before top then some (top, item :: others) else some (item, rest)

def pushItem (item : Item) : Scheduler × Bool :=
  if SchedulerLimits.maxItems ≤ s.scheduledItems.length then (s, false)
  else ({ s with scheduledItems := s.scheduledItems ++ [item] }, true)

/-- The id is used up also when the queue is full. The answer is the id of the session,
or zero. -/
def enqueueAt (priority : UInt8) (message : List UInt8) (due : Int) (pollId : UInt16) :
    Scheduler × UInt32 :=
  let sessionId := s.nextSessionId
  let item : Item := { priority, due, sessionId, pollId, message, ticket := s.tickets }
  let s := { s with nextSessionId := s.nextSessionId + 1, tickets := s.tickets + 1 }
  match s.pushItem item with
  | (s, true) => (s, sessionId)
  | (s, false) => (s, 0)

/-- Due at once. -/
def enqueue (priority : UInt8) (message : List UInt8) (now : Int) (pollId : UInt16) :
    Scheduler × UInt32 :=
  s.enqueueAt priority message now pollId

/-- The ids of the session in progress stay as they are. -/
def clear : Scheduler := { s with scheduledItems := [], activeItem := none }

def stop : Scheduler := { s with activeItem := none }.clear

/-- The pause before an attempt: the base doubled for each one before it. -/
def backoffDuration (attempt : UInt8) : Int :=
  if attempt = 0 then 0
  else if 10 < attempt then 2 ^ 63 - 1
  else s.baseBackoff * 2 ^ (attempt.toNat - 1)

/-- No session is in progress. -/
def idle : Scheduler := { s with activeItem := none, currentSessionId := 0, currentPollId := 0 }

/-- An event that makes the session start again, unless its attempts are used up. -/
def retries (event : ProtocolEvent) : Bool :=
  (event.type = .lost || event.type = .error) &&
    !(event.type = .error && event.protocolError = .invalidMessage)

/-- The result of an item: its attempts after a loss or an error. -/
def countAttempt (event : ProtocolEvent) (item : Item) : Item :=
  if event.type = .lost ∨ event.type = .error then { item with attempts := item.attempts + 1 }
  else item

/-- `scheduled_items_.push_back` behind the queue; its answer is ignored. -/
def requeue (item : Item) (now : Int) : Scheduler :=
  let item := { item with due := now + s.backoffDuration item.attempts }
  if SchedulerLimits.maxItems ≤ s.scheduledItems.length then s.idle
  else { s with scheduledItems := s.scheduledItems ++ [item] }.idle

def injectProtocolEvent (event : ProtocolEvent) (now : Int) : Scheduler × Bool :=
  match s.activeItem with
  | none => (s, false)
  | some active =>
      if event.sessionId ≠ active.sessionId then (s, false)
      else if event.type = .won then (s, true)
      else
        let item := countAttempt event active.item
        if retries event ∧ item.attempts < s.maxAttempts then (s.requeue item now, true)
        else (s.idle, true)

/-- What a call of `tick` leaves behind. -/
structure Ticked where
  scheduler : Scheduler
  handler : Handler
  sink : List ProtocolEvent := []
  worked : Bool
  deriving DecidableEq, Repr

def timeoutEvent (h : Handler) (active : ActiveAttempt) : ProtocolEvent :=
  { type := .error, sessionId := active.sessionId, pollId := active.item.pollId
    protocolError := .totalTransferTimeout, result := .firstError
    sequenceState := h.activeTelegram.masterState, level := .error, handlerState := h.state
    requestState := .observe
    master := StaticSequence.assign SequenceLimits.modelCapacity active.item.message }

/-- The engine has refused the message of an item. -/
def refusedEvent (h : Handler) (item : Item) : ProtocolEvent :=
  { type := .error, sessionId := item.sessionId, pollId := item.pollId
    protocolError := .invalidMessage, result := .firstError
    sequenceState := h.activeTelegram.masterState, level := .error, handlerState := h.state
    requestState := .observe }

/-- Hand an item to the engine. -/
def start (h : Handler) (item : Item) (now : Int) : Ticked :=
  let s := { s with activeItem := some { item, startTime := now, sessionId := item.sessionId }
                    currentSessionId := item.sessionId, currentPollId := item.pollId }
  match h.sendActiveMessage item.message with
  | (h, true) => { scheduler := s, handler := h, worked := true }
  | (h, false) => { scheduler := s, handler := h, sink := [refusedEvent h item], worked := true }

def tick (h : Handler) (now : Int) : Ticked :=
  match s.activeItem with
  | some active =>
      if s.totalTimeout < now - active.startTime then
        { scheduler := s, handler := h.reset, sink := [timeoutEvent h active], worked := true }
      else { scheduler := s, handler := h, worked := false }
  | none =>
      match popGreatest s.scheduledItems with
      | none => { scheduler := s, handler := h, worked := false }
      | some (top, others) =>
          if now < top.due ∨ h.activeMessage then
            { scheduler := s, handler := h, worked := false }
          else { s with scheduledItems := others }.start h top now

theorem popGreatest_eq_none {items : List Item} (h : popGreatest items = none) : items = [] := by
  cases items with
  | nil => rfl
  | cons item rest =>
      rw [popGreatest] at h
      repeat' split at h
      all_goals simp at h

/-- The first greatest element is taken out of the list. -/
theorem popGreatest_perm {items others : List Item} {top : Item}
    (h : popGreatest items = some (top, others)) : items.Perm (top :: others) := by
  induction items generalizing top others with
  | nil => simp [popGreatest] at h
  | cons item rest ih =>
      rw [popGreatest] at h
      cases hrest : popGreatest rest with
      | none =>
          simp only [hrest, Option.some.injEq, Prod.mk.injEq] at h
          obtain ⟨rfl, rfl⟩ := h
          simp [popGreatest_eq_none hrest]
      | some found =>
          obtain ⟨greatest, remaining⟩ := found
          simp only [hrest] at h
          split at h
          · simp only [Option.some.injEq, Prod.mk.injEq] at h
            obtain ⟨rfl, rfl⟩ := h
            exact ((ih hrest).cons item).trans (.swap ..)
          · simp only [Option.some.injEq, Prod.mk.injEq] at h
            obtain ⟨rfl, rfl⟩ := h
            exact .refl _

theorem enqueueAt_cases (priority : UInt8) (message : List UInt8) (due : Int)
    (pollId : UInt16) :
    (SchedulerLimits.maxItems ≤ s.scheduledItems.length ∧
      s.enqueueAt priority message due pollId =
        ({ s with nextSessionId := s.nextSessionId + 1, tickets := s.tickets + 1 }, 0)) ∨
    (s.scheduledItems.length < SchedulerLimits.maxItems ∧
      s.enqueueAt priority message due pollId =
        ({ s with nextSessionId := s.nextSessionId + 1, tickets := s.tickets + 1
                  scheduledItems := s.scheduledItems ++
                    [{ priority, due, sessionId := s.nextSessionId, pollId, message
                       ticket := s.tickets }] }, s.nextSessionId)) := by
  unfold enqueueAt pushItem
  by_cases hfull : SchedulerLimits.maxItems ≤ s.scheduledItems.length
  · exact .inl ⟨hfull, by simp [hfull]⟩
  · exact .inr ⟨Nat.not_le.mp hfull, by simp [hfull]⟩

/-- An event is ignored, makes the session start again, or ends it. -/
theorem injectProtocolEvent_cases (event : ProtocolEvent) (now : Int) :
    (s.injectProtocolEvent event now).1 = s ∨
    ∃ active, s.activeItem = some active ∧ event.sessionId = active.sessionId ∧
      event.type ≠ .won ∧
      (retries event = true ∧ (countAttempt event active.item).attempts < s.maxAttempts ∧
          (s.injectProtocolEvent event now).1 =
            s.requeue (countAttempt event active.item) now ∨
        (retries event = true →
          s.maxAttempts ≤ (countAttempt event active.item).attempts) ∧
          (s.injectProtocolEvent event now).1 = s.idle) := by
  unfold injectProtocolEvent
  cases hactive : s.activeItem with
  | none => exact .inl rfl
  | some active =>
      dsimp only
      by_cases hid : event.sessionId = active.sessionId
      · rw [if_neg (not_not.mpr hid)]
        by_cases hwon : event.type = .won
        · exact .inl (by rw [if_pos hwon])
        · rw [if_neg hwon]
          refine .inr ⟨active, rfl, hid, hwon, ?_⟩
          by_cases hagain : retries event ∧
              (countAttempt event active.item).attempts < s.maxAttempts
          · exact .inl ⟨hagain.1, hagain.2, by rw [if_pos hagain]⟩
          · refine .inr ⟨?_, by rw [if_neg hagain]⟩
            intro hretries
            exact UInt8.not_lt.mp fun hlt => hagain ⟨hretries, hlt⟩
      · exact .inl (by rw [if_pos hid])

/-- A tick reports a timeout, does nothing, or starts the item at the top. -/
theorem tick_cases (h : Handler) (now : Int) :
    (∃ active, s.activeItem = some active ∧ s.totalTimeout < now - active.startTime ∧
      s.tick h now =
        { scheduler := s, handler := h.reset, sink := [timeoutEvent h active], worked := true }) ∨
    s.tick h now = { scheduler := s, handler := h, worked := false } ∨
    ∃ top others, s.activeItem = none ∧ popGreatest s.scheduledItems = some (top, others) ∧
      top.due ≤ now ∧ h.activeMessage = false ∧
      s.tick h now = { s with scheduledItems := others }.start h top now := by
  unfold tick
  cases hactive : s.activeItem with
  | some active =>
      dsimp only
      by_cases hlate : s.totalTimeout < now - active.startTime
      · exact .inl ⟨active, rfl, hlate, by rw [if_pos hlate]⟩
      · exact .inr (.inl (by rw [if_neg hlate]))
  | none =>
      dsimp only
      cases hpop : popGreatest s.scheduledItems with
      | none => exact .inr (.inl rfl)
      | some found =>
          obtain ⟨top, others⟩ := found
          dsimp only
          by_cases hwait : now < top.due ∨ h.activeMessage
          · exact .inr (.inl (by rw [if_pos hwait]))
          · obtain ⟨hdue, hidle⟩ := not_or.mp hwait
            exact .inr (.inr ⟨top, others, rfl, rfl, Int.not_lt.mp hdue, by simpa using hidle,
              by rw [if_neg hwait]⟩)

theorem start_scheduler (h : Handler) (item : Item) (now : Int) :
    (s.start h item now).scheduler =
      { s with activeItem := some { item, startTime := now, sessionId := item.sessionId }
               currentSessionId := item.sessionId, currentPollId := item.pollId } := by
  unfold start
  dsimp only
  split <;> rfl

/-- A retried item is back in the queue, or gone when the queue is full. -/
theorem requeue_cases (item : Item) (now : Int) :
    (SchedulerLimits.maxItems ≤ s.scheduledItems.length ∧ s.requeue item now = s.idle) ∨
    (s.scheduledItems.length < SchedulerLimits.maxItems ∧
      s.requeue item now =
        { s with scheduledItems := s.scheduledItems ++
                   [{ item with due := now + s.backoffDuration item.attempts }]
                 activeItem := none, currentSessionId := 0, currentPollId := 0 }) := by
  unfold requeue
  by_cases hfull : SchedulerLimits.maxItems ≤ s.scheduledItems.length
  · exact .inl ⟨hfull, by simp [hfull]⟩
  · exact .inr ⟨Nat.not_le.mp hfull, by simp [hfull, idle]⟩

theorem start_handler (h : Handler) (item : Item) (now : Int) :
    (s.start h item now).handler = (h.sendActiveMessage item.message).1 := by
  unfold start
  dsimp only
  split <;> rename_i heq <;> rw [heq]

end Scheduler

end Ebus
