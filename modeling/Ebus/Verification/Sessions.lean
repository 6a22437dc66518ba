import Ebus.App.Reactor
import Ebus.Verification.Engagement

/-!
# Which events finish a session

The scheduler recognises the events of its session by the id that was current when
they were posted. Callbacks about the traffic of other masters get that id as well, so
that an observed telegram completes the session and an observed error costs it an
attempt. In runs in which no such report is made during a session, everything that
moves the session is about its own message.
-/

namespace Ebus

namespace Scheduler

/-- The item that a tick would start now. -/
def startable (s : Scheduler) (h : Handler) (now : Int) : Option Item :=
  match s.activeItem, popGreatest s.scheduledItems with
  | none, some (top, _) => if top.due ≤ now ∧ h.activeMessage = false then some top else none
  | _, _ => none

theorem startable_of_pop {s : Scheduler} {h : Handler} {now : Int} {top : Item}
    {others : List Item} (hidle : s.activeItem = none)
    (hpop : popGreatest s.scheduledItems = some (top, others)) (hdue : top.due ≤ now)
    (hfree : h.activeMessage = false) : s.startable h now = some top := by
  simp [startable, hidle, hpop, hdue, hfree]

/-- A change of the scheduler is a change of its session. -/
theorem active_of_inject {s : Scheduler} {event : ProtocolEvent} {now : Int}
    (hchange : (s.injectProtocolEvent event now).1 ≠ s) :
    ∃ active, s.activeItem = some active ∧ event.sessionId = active.sessionId ∧
      event.type ≠ .won := by
  obtain heq | ⟨active, hactive, hid, hwon, -⟩ := s.injectProtocolEvent_cases event now
  · exact absurd heq hchange
  · exact ⟨active, hactive, hid, hwon⟩

theorem injectProtocolEvent_active (s : Scheduler) (event : ProtocolEvent) (now : Int) :
    (s.injectProtocolEvent event now).1 = s ∨
    (s.injectProtocolEvent event now).1.activeItem = none := by
  obtain heq | ⟨active, -, -, -, ⟨-, -, heq⟩ | ⟨-, heq⟩⟩ := s.injectProtocolEvent_cases event now
  · exact .inl heq
  · refine .inr ?_
    rw [heq, requeue]
    split <;> rfl
  · exact .inr (by rw [heq, idle])

end Scheduler

/-- The event is about the message of the session: it does not come from the traffic of
other masters, and a telegram is an active one from the exchange of that message. -/
def Posted.Own (p : Posted) (ticket : Nat) : Prop :=
  (∀ e, p.effect = some e → e.foreign = false) ∧
  (p.event.type = .telegram → p.event.messageType = .active ∧ p.exchanging = some ticket)

namespace Reactor

/-- What a tick can do: report a timeout, nothing, or start a session. -/
theorem tick_rule (r : Reactor) (now : Int) :
    (∃ active, r.scheduler.activeItem = some active ∧
      r.scheduler.totalTimeout < now - active.startTime ∧
      r.tick now =
        { r with handler := r.handler.reset
                 protocolQueue := r.protocolQueue ++
                   [{ event := Scheduler.timeoutEvent r.handler active, effect := none
                      session := some active.item.ticket, exchanging := r.exchanging }] }) ∨
    r.tick now = r ∨
    ∃ top others refused,
      r.scheduler.activeItem = none ∧
      Scheduler.popGreatest r.scheduler.scheduledItems = some (top, others) ∧
      r.scheduler.startable r.handler now = some top ∧
      (∀ p ∈ refused, p.event.type = .error ∧ p.event.sessionId = top.sessionId ∧
        p.effect = none ∧ p.session = some top.ticket) ∧
      ((r.handler.sendActiveMessage top.message).2 = true → refused = []) ∧
      r.tick now =
        { r with
          handler := (r.handler.sendActiveMessage top.message).1
          scheduler := { r.scheduler with
            scheduledItems := others
            activeItem := some { item := top, startTime := now, sessionId := top.sessionId }
            currentSessionId := top.sessionId, currentPollId := top.pollId }
          protocolQueue := r.protocolQueue ++ refused
          accepted := if (r.handler.sendActiveMessage top.message).1.activeMessage then
            some top.ticket else r.accepted
          history := r.history ++ [.handed top.ticket] } := by
  unfold tick
  obtain ⟨active, hactive, hlate, heq⟩ | heq | ⟨top, others, hidle, hpop, hdue, hfree, heq⟩ :=
    r.scheduler.tick_cases r.handler now
  · refine .inl ⟨active, hactive, hlate, ?_⟩
    simp [heq, hactive, Scheduler.activeTicket]
  · refine .inr (.inl ?_)
    cases hactive : r.scheduler.activeItem <;> simp [heq, hactive, Scheduler.activeTicket]
  · refine .inr (.inr ⟨top, others,
      ({ r.scheduler with scheduledItems := others }.start r.handler top now).sink.map
        fun event => { event, effect := none, session := some top.ticket
                       exchanging := r.exchanging },
      hidle, hpop, Scheduler.startable_of_pop hidle hpop hdue hfree, ?_, ?_, ?_⟩)
    · intro p hp
      obtain ⟨event, hevent, rfl⟩ := List.mem_map.mp hp
      unfold Scheduler.start at hevent
      dsimp only at hevent
      split at hevent
      · simp at hevent
      · obtain rfl : event = Scheduler.refusedEvent _ top := by simpa using hevent
        exact ⟨rfl, rfl, rfl, rfl⟩
    · intro htaken
      unfold Scheduler.start
      dsimp only
      split
      · rfl
      · rename_i hrefused
        simp [hrefused] at htaken
    · simp [heq, hidle, Scheduler.start_scheduler, Scheduler.start_handler,
        Scheduler.activeTicket]

/-- The steps in which sessions and events stay together: during a session no report
about other traffic is made, and a session is started when the engine is done with the
last message and no event of another session waits under the same id. -/
def KeepsApart (r : Reactor) : Action → Prop
  | .busEvent event response => r.scheduler.activeItem ≠ none →
      ∀ e ∈ (BusHandler.onBusEvent { r.handler with log := [] } event response).log,
        e.foreign = false
  | .tick now => ∀ top ∈ r.scheduler.startable r.handler now,
      r.handler.state.engaged = false ∧
      ∀ p ∈ r.protocolQueue, p.event.sessionId = top.sessionId → p.session = some top.ticket
  | _ => True

instance (r : Reactor) : (action : Action) → Decidable (KeepsApart r action)
  | .busEvent _ _ => inferInstanceAs (Decidable (_ → _))
  | .tick now => inferInstanceAs (Decidable (∀ top ∈ r.scheduler.startable r.handler now, _))
  | .requestExternal _ | .enqueueAt _ _ _ _ | .processPublicEvent _ | .discardEvent _ =>
      .isTrue trivial

/-- The invariant of such runs. -/
structure Attributed (r : Reactor) : Prop where
  session : ∀ active, r.scheduler.activeItem = some active →
    ∀ p ∈ r.protocolQueue, p.event.sessionId = active.sessionId →
      p.session = some active.item.ticket
  own : ∀ p ∈ r.protocolQueue, ∀ ticket, p.session = some ticket → p.Own ticket
  accepted : ∀ active, r.scheduler.activeItem = some active → r.handler.busy = true →
    r.accepted = some active.item.ticket
  exchanging : ∀ active, r.scheduler.activeItem = some active →
    r.handler.state.exchanging = true → r.exchanging = some active.item.ticket

/-- The event that a callback posts during a session is about the session, unless the
callback is about other traffic. -/
theorem post_own {r : Reactor} {exchanging : Option Nat} {e : Effect} {p : Posted}
    (hpost : r.post exchanging e = some p) (hforeign : e.foreign = false) {ticket : Nat}
    (hexchanging : e.isActiveTelegram = true → exchanging = some ticket) : p.Own ticket := by
  obtain ⟨event, hevent, rfl⟩ := Option.map_eq_some_iff.mp hpost
  refine ⟨?_, ?_⟩
  · rintro e' ⟨rfl⟩
    exact hforeign
  · intro htype
    cases e with
    | protocol info =>
        obtain rfl : r.scheduler.onHandlerProtocol info = event := by
          simpa [Scheduler.onEffect] using hevent
        cases herror : info.isError with
        | true => simp [Scheduler.onHandlerProtocol, herror] at htype
        | false =>
            have hactive : info.messageType = .active := by
              simpa [Effect.foreign, herror] using hforeign
            refine ⟨by simp [Scheduler.onHandlerProtocol, herror, hactive], ?_⟩
            exact hexchanging (by simp [Effect.isActiveTelegram, herror, hactive])
    | won =>
        simp only [Scheduler.onEffect, Scheduler.onArbitration] at hevent
        split at hevent
        · simp at hevent
        · obtain rfl := Option.some.inj hevent
          simp at htype
    | lost =>
        simp only [Scheduler.onEffect, Scheduler.onArbitration] at hevent
        split at hevent
        · simp at hevent
        · obtain rfl := Option.some.inj hevent
          simp at htype
    | _ => simp [Scheduler.onEffect] at hevent

theorem post_session {r : Reactor} {exchanging : Option Nat} {e : Effect} {p : Posted}
    (hpost : r.post exchanging e = some p) : p.session = r.scheduler.activeTicket := by
  obtain ⟨event, -, rfl⟩ := Option.map_eq_some_iff.mp hpost
  rfl

theorem busEvent_attributed {r : Reactor} (hi : Attributed r) {event : BusEvent}
    {response : Sequence} (hok : KeepsApart r (.busEvent event response)) :
    Attributed (r.busEvent event response) := by
  obtain ⟨session, own, accepted, exchanging⟩ := hi
  obtain ⟨hbusy, hexchange, hreports⟩ := BusHandler.onBusEvent_engages r.handler event response
  unfold busEvent
  generalize hd : BusHandler.onBusEvent { r.handler with log := [] } event response = d at *
  -- whatever the engine exchanges after the event belongs to the session
  have hnow (active : ActiveAttempt) (hactive : r.scheduler.activeItem = some active)
      (hbefore : r.handler.state.exchanging = true ∨ Effect.won ∈ d.log) :
      (if .won ∈ d.log then r.accepted else r.exchanging) = some active.item.ticket := by
    by_cases hwon : Effect.won ∈ d.log
    · rw [if_pos hwon]
      exact accepted active hactive ((hreports _ hwon).1 rfl)
    · rw [if_neg hwon]
      exact exchanging active hactive (hbefore.resolve_right hwon)
  refine ⟨?_, ?_, ?_, ?_⟩
  · intro active hactive p hp hid
    obtain hold | hnew := List.mem_append.mp hp
    · exact session active hactive p hold hid
    · obtain ⟨e, -, hpost⟩ := List.mem_filterMap.mp hnew
      rw [post_session hpost, Scheduler.activeTicket]
      simp [show r.scheduler.activeItem = some active from hactive]
  · intro p hp ticket hticket
    obtain hold | hnew := List.mem_append.mp hp
    · exact own p hold ticket hticket
    · obtain ⟨e, he, hpost⟩ := List.mem_filterMap.mp hnew
      rw [post_session hpost, Scheduler.activeTicket] at hticket
      obtain ⟨active, hactive, rfl⟩ := Option.map_eq_some_iff.mp hticket
      refine post_own hpost (hok (by simp [hactive]) e (hd ▸ he)) ?_
      intro htelegram
      exact hnow active hactive (.inl ((hreports e he).2 htelegram))
  · intro active hactive hb
    exact accepted active hactive (hbusy hb)
  · intro active hactive hstate
    exact hnow active hactive (hexchange hstate)

theorem tick_attributed {r : Reactor} (hi : Attributed r) {now : Int}
    (hok : KeepsApart r (.tick now)) : Attributed (r.tick now) := by
  obtain ⟨session, own, accepted, exchanging⟩ := hi
  obtain ⟨active, hactive, -, heq⟩ | heq |
      ⟨top, others, refused, hidle, hpop, hstart, hrefused, -, heq⟩ := r.tick_rule now <;> rw [heq]
  · have hreset := r.handler.reset_busy
    refine ⟨?_, ?_, by simp [hreset.1], by simp [hreset.2]⟩
    · intro other hother p hp hid
      obtain rfl : active = other := Option.some.inj (hactive.symm.trans hother)
      obtain hold | hnew := List.mem_append.mp hp
      · exact session active hactive p hold hid
      · obtain rfl := List.mem_singleton.mp hnew
        rfl
    · intro p hp ticket hticket
      obtain hold | hnew := List.mem_append.mp hp
      · exact own p hold ticket hticket
      · obtain rfl := List.mem_singleton.mp hnew
        exact ⟨by simp, by simp [Scheduler.timeoutEvent]⟩
  · exact ⟨session, own, accepted, exchanging⟩
  · obtain ⟨hquiet, hother⟩ := hok top hstart
    have hstate := r.handler.sendActiveMessage_state top.message
    refine ⟨?_, ?_, ?_, ?_⟩
    · rintro active ⟨rfl⟩ p hp hid
      obtain hold | hnew := List.mem_append.mp hp
      · exact hother p hold hid
      · exact (hrefused p hnew).2.2.2
    · intro p hp ticket hticket
      obtain hold | hnew := List.mem_append.mp hp
      · exact own p hold ticket hticket
      · obtain ⟨htype, -, heffect, -⟩ := hrefused p hnew
        exact ⟨by simp [heffect], by simp [htype]⟩
    · rintro active ⟨rfl⟩ hb
      simp only [Handler.busy, hstate, hquiet, Bool.or_false] at hb
      simp [hb]
    · rintro active ⟨rfl⟩ hb
      simp [hstate, HandlerState.exchanging, hquiet] at hb

theorem discardEvent_attributed {r : Reactor} (hi : Attributed r) (index : Nat) :
    Attributed (r.discardEvent index) := by
  rw [discardEvent]
  split
  · have hsub : ∀ p ∈ r.protocolQueue.eraseIdx index, p ∈ r.protocolQueue :=
      fun p hp => List.mem_of_mem_eraseIdx hp
    exact ⟨fun active hactive p hp => hi.session active hactive p (hsub p hp),
      fun p hp => hi.own p (hsub p hp), hi.accepted, hi.exchanging⟩
  · exact hi

theorem step_attributed (r : Reactor) (action : Action) (hi : Attributed r)
    (hok : KeepsApart r action) : Attributed (step r action) := by
  cases action with
  | busEvent event response => exact busEvent_attributed hi hok
  | requestExternal address => exact ⟨hi.session, hi.own, hi.accepted, hi.exchanging⟩
  | enqueueAt priority message due pollId =>
      rw [step]
      obtain ⟨-, heq⟩ | ⟨-, heq⟩ := r.scheduler.enqueueAt_cases priority message due pollId <;>
        rw [heq] <;> exact ⟨hi.session, hi.own, hi.accepted, hi.exchanging⟩
  | tick now => exact tick_attributed hi hok
  | processPublicEvent now =>
      rw [step, processPublicEvent]
      split
      · exact hi
      · rename_i posted rest hqueue
        have hsub : ∀ p ∈ rest, p ∈ r.protocolQueue := fun p hp => by simp [hqueue, hp]
        have hown : ∀ p ∈ rest, ∀ ticket, p.session = some ticket → p.Own ticket :=
          fun p hp => hi.own p (hsub p hp)
        obtain heq | hnone := r.scheduler.injectProtocolEvent_active posted.event now
        · rw [heq]
          exact ⟨fun active hactive p hp => hi.session active hactive p (hsub p hp), hown,
            hi.accepted, hi.exchanging⟩
        · exact ⟨by simp [hnone], hown, by simp [hnone], by simp [hnone]⟩
  | discardEvent index => exact discardEvent_attributed hi index

/-- An event that moves the session in progress, by ending it or by using up one of its
attempts, is about the message of that session. -/
theorem run_session_own (address : UInt8) (request : Request) (scheduler : Scheduler)
    (idle : scheduler.activeItem = none) (actions : List Action)
    (meets : Runs.Meets step KeepsApart (create address request scheduler) actions)
    (posted : Posted) (now : Int)
    (waiting : posted ∈
      (Runs.run step (create address request scheduler) actions).protocolQueue)
    (moves : ((Runs.run step (create address request scheduler)
        actions).scheduler.injectProtocolEvent posted.event now).1 ≠
      (Runs.run step (create address request scheduler) actions).scheduler) :
    ∃ active,
      (Runs.run step (create address request scheduler) actions).scheduler.activeItem =
        some active ∧
      posted.session = some active.item.ticket ∧ posted.Own active.item.ticket := by
  have hstart : Attributed (create address request scheduler) := by
    constructor <;> simp [create, idle]
  have hinv := Runs.invariant step_attributed hstart meets
  obtain ⟨active, hactive, hid, -⟩ := Scheduler.active_of_inject moves
  have hsession := hinv.session active hactive posted waiting hid
  exact ⟨active, hactive, hsession, hinv.own posted waiting _ hsession⟩

/-- The report of the own broadcast. -/
def sentBroadcast : Posted :=
  { event := { type := .telegram, sessionId := 1, pollId := 0, handlerState := .activeSendMaster
               requestState := .observe, messageType := .active, telegramType := .broadcast
               master := [0xff, 0xfe, 0x07, 0x04, 0x00, 0x94] }
    effect := some (.protocol
      { messageType := .active, telegramType := .broadcast, handlerState := .activeSendMaster
        masterView := [0xff, 0xfe, 0x07, 0x04, 0x00, 0x94] })
    session := some 0, exchanging := some 0 }

theorem run_session_own_sentBroadcast :
    Runs.Meets step KeepsApart (create 0xff {} {})
      (startBroadcast ++ obtainBus 0xff ++ feed [0xfe, 0x07, 0x04, 0x00, 0x94]) ∧
    ∃ active,
      (Runs.run step (create 0xff {} {}) (startBroadcast ++ obtainBus 0xff ++
        feed [0xfe, 0x07, 0x04, 0x00, 0x94])).scheduler.activeItem = some active ∧
      sentBroadcast.session = some active.item.ticket ∧ sentBroadcast.Own active.item.ticket :=
  have hmeets : Runs.Meets step KeepsApart (create 0xff {} {})
      (startBroadcast ++ obtainBus 0xff ++ feed [0xfe, 0x07, 0x04, 0x00, 0x94]) := by
    decide +kernel
  ⟨hmeets, run_session_own 0xff {} {} rfl _ hmeets sentBroadcast 0 (by decide +kernel)
    (by decide)⟩

/-- The report of a broadcast of another master, made while the own one waits. -/
def observedBroadcast : Posted :=
  { event := { type := .telegram, sessionId := 1, pollId := 0
               handlerState := .passiveReceiveMaster, requestState := .observe
               messageType := .passive, telegramType := .broadcast
               master := [0x03, 0xfe, 0x07, 0x04, 0x00] }
    effect := some (.protocol
      { messageType := .passive, telegramType := .broadcast
        masterView := [0x03, 0xfe, 0x07, 0x04, 0x00] })
    session := some 0, exchanging := none }

/-- It completes the session. -/
theorem session_moved_by_observedBroadcast :
    ¬ ∀ actions posted now,
      posted ∈ (Runs.run step (create 0xff {} {}) actions).protocolQueue →
      ((Runs.run step (create 0xff {} {}) actions).scheduler.injectProtocolEvent posted.event
        now).1 ≠ (Runs.run step (create 0xff {} {}) actions).scheduler →
      ∃ active, (Runs.run step (create 0xff {} {}) actions).scheduler.activeItem = some active ∧
        posted.session = some active.item.ticket ∧ posted.Own active.item.ticket := by
  intro hown
  obtain ⟨active, -, -, -, htelegram⟩ := hown
    (startBroadcast ++ feed [0xaa, 0x03, 0xfe, 0x07, 0x04, 0x00, 0x31]) observedBroadcast 0
    (by decide +kernel) (by decide)
  exact absurd (htelegram rfl).1 (by decide)

end Reactor

end Ebus
