import Mathlib.Data.List.Nodup
import Ebus.Verification.Sessions

/-!
# No message is sent twice

The scheduler takes any error for the end of an attempt and queues the item again,
while the engine may still be at work on its message: after a rejected slave part it
asks for another one, and a message that waits for the bus is not touched by errors of
other traffic. If the exchange then succeeds the message is sent a second time.

The queue of events adds to that: when it is full a success may be discarded, and the session
goes on until its time is over, which counts as an error.

In runs in which a retry comes only after the engine is done with the message, with no success
still waiting to be delivered, and in which no success is discarded before the last attempt, a
session whose message was sent is never handed over again.
-/

namespace Ebus

namespace Scheduler

/-- The sessions that wait in the queue. -/
def queued (s : Scheduler) : List Nat := s.scheduledItems.map Item.ticket

theorem countAttempt_ticket (event : ProtocolEvent) (item : Item) :
    (countAttempt event item).ticket = item.ticket := by
  unfold countAttempt
  split <;> rfl

theorem countAttempt_attempts {event : ProtocolEvent} (h : retries event = true) (item : Item) :
    (countAttempt event item).attempts = item.attempts + 1 := by
  simp only [retries, Bool.and_eq_true, Bool.or_eq_true, decide_eq_true_eq] at h
  rw [countAttempt, if_pos h.1]

/-- A retry puts the item back, or loses it at a full queue. -/
theorem requeue_queued (s : Scheduler) (item : Item) (now : Int) :
    (s.requeue item now).queued = s.queued ∨
    (s.requeue item now).queued = s.queued ++ [item.ticket] := by
  unfold requeue
  split
  · exact .inl rfl
  · exact .inr (by simp [queued, idle])

theorem requeue_rest (s : Scheduler) (item : Item) (now : Int) :
    (s.requeue item now).activeItem = none ∧ (s.requeue item now).tickets = s.tickets := by
  unfold requeue
  split <;> exact ⟨rfl, rfl⟩

end Scheduler

namespace ProtocolEvent

/-- The event reports success for the session. -/
def succeeds (event : ProtocolEvent) (sessionId : UInt32) : Bool :=
  event.type = .telegram && event.messageType = .active && event.sessionId = sessionId

end ProtocolEvent

theorem Scheduler.ends_of_succeeds {s : Scheduler} {active : ActiveAttempt}
    {event : ProtocolEvent} (hactive : s.activeItem = some active)
    (hsucceeds : event.succeeds active.sessionId = true) (now : Int) :
    (s.injectProtocolEvent event now).1.activeItem = none := by
  simp only [ProtocolEvent.succeeds, Bool.and_eq_true, decide_eq_true_eq] at hsucceeds
  obtain ⟨⟨htype, -⟩, hid⟩ := hsucceeds
  simp [injectProtocolEvent, hactive, hid, htype, retries, idle]

namespace Reactor

/-- No session is handed over after its success. -/
def NoneRepeated (history : List Milestone) : Prop :=
  Log.AtEach (fun before e => ∀ ticket, e = .handed ticket → .succeeded ticket ∉ before) history

/-- The steps in which a session starts again only when its exchange is over: the
engine has no message and is not engaged, and no success of the session waits. A success of
the session in progress is discarded only at its last attempt. -/
def RetriesWhenOver (r : Reactor) : Action → Prop
  | .processPublicEvent _ => ∀ posted ∈ r.protocolQueue.head?, ∀ active ∈ r.scheduler.activeItem,
      posted.event.sessionId = active.sessionId → Scheduler.retries posted.event = true →
      (Scheduler.countAttempt posted.event active.item).attempts < r.scheduler.maxAttempts →
      r.handler.busy = false ∧
        ∀ p ∈ r.protocolQueue, p.event.succeeds active.sessionId = false
  | .discardEvent index => ReactorLimits.protocolQueueSize ≤ r.protocolQueue.length →
      ∀ posted ∈ r.protocolQueue[index]?, ∀ active ∈ r.scheduler.activeItem,
        posted.event.succeeds active.sessionId = true →
        r.scheduler.maxAttempts ≤ active.item.attempts + 1
  | _ => True

instance (r : Reactor) : (action : Action) → Decidable (RetriesWhenOver r action)
  | .processPublicEvent _ => inferInstanceAs (Decidable (∀ posted ∈ r.protocolQueue.head?, _))
  | .discardEvent index => inferInstanceAs (Decidable (_ → ∀ posted ∈ r.protocolQueue[index]?, _))
  | .busEvent _ _ | .requestExternal _ | .enqueueAt _ _ _ _ | .tick _ => .isTrue trivial

/-- The invariant of such runs. -/
structure SentOnce (r : Reactor) : Prop where
  current : ∀ active, r.scheduler.activeItem = some active →
    r.scheduler.currentSessionId = active.sessionId
  placed : (r.scheduler.queued ++ r.scheduler.activeTicket.toList).Nodup
  issued : ∀ ticket, ticket ∈ r.scheduler.queued ∨ r.scheduler.activeTicket = some ticket ∨
    r.accepted = some ticket ∨ r.exchanging = some ticket ∨ .succeeded ticket ∈ r.history →
    ticket < r.scheduler.tickets
  done : ∀ ticket, .succeeded ticket ∈ r.history → ticket ∉ r.scheduler.queued
  reported : ∀ active, r.scheduler.activeItem = some active →
    .succeeded active.item.ticket ∈ r.history →
    (∃ p ∈ r.protocolQueue, p.event.succeeds active.sessionId = true) ∨
      r.scheduler.maxAttempts ≤ active.item.attempts + 1
  waiting : ∀ ticket, r.accepted = some ticket → r.handler.busy = true →
    ticket ∉ r.scheduler.queued
  working : ∀ ticket, r.exchanging = some ticket → r.handler.state.exchanging = true →
    ticket ∉ r.scheduler.queued
  unrepeated : NoneRepeated r.history

/-- The milestones of a bus event. -/
theorem mem_milestones {exchanging : Option Nat} {log : List Effect} {m : Milestone}
    (hmem : m ∈ log.filterMap (milestone exchanging)) :
    ∃ e ∈ log, e.isActiveTelegram = true ∧ ∃ ticket, exchanging = some ticket ∧
      m = .succeeded ticket := by
  obtain ⟨e, he, hmilestone⟩ := List.mem_filterMap.mp hmem
  unfold milestone at hmilestone
  split at hmilestone
  · obtain ⟨ticket, hticket, rfl⟩ := Option.map_eq_some_iff.mp hmilestone
    exact ⟨e, he, ‹_›, ticket, hticket, rfl⟩
  · simp at hmilestone

/-- The event posted for a success names the session in progress. -/
theorem post_succeeds {r : Reactor} {exchanging : Option Nat} {e : Effect}
    (htelegram : e.isActiveTelegram = true) :
    ∃ p, r.post exchanging e = some p ∧
      p.event.succeeds r.scheduler.currentSessionId = true := by
  cases e with
  | protocol info =>
      simp only [Effect.isActiveTelegram, Bool.and_eq_true, Bool.not_eq_true',
        decide_eq_true_eq] at htelegram
      obtain ⟨herror, hactive⟩ := htelegram
      refine ⟨_, rfl, ?_⟩
      simp [ProtocolEvent.succeeds, Scheduler.onHandlerProtocol, herror, hactive]
  | _ => simp [Effect.isActiveTelegram] at htelegram

theorem busEvent_sentOnce {r : Reactor} (hi : SentOnce r) (event : BusEvent)
    (response : Sequence) : SentOnce (r.busEvent event response) := by
  obtain ⟨current, placed, issued, done, reported, waiting, working, unrepeated⟩ := hi
  obtain ⟨hbusy, hexchange, hreports⟩ := BusHandler.onBusEvent_engages r.handler event response
  unfold busEvent
  generalize BusHandler.onBusEvent { r.handler with log := [] } event response = d at *
  -- the session that the engine works for after the event is not in the queue
  have hnow (ticket : Nat) (hticket : (if .won ∈ d.log then r.accepted else r.exchanging) =
      some ticket) (hbefore : r.handler.state.exchanging = true ∨ Effect.won ∈ d.log) :
      ticket ∉ r.scheduler.queued := by
    by_cases hwon : Effect.won ∈ d.log
    · rw [if_pos hwon] at hticket
      exact waiting ticket hticket ((hreports _ hwon).1 rfl)
    · rw [if_neg hwon] at hticket
      exact working ticket hticket (hbefore.resolve_right hwon)
  have hknown (ticket : Nat) (hticket : (if .won ∈ d.log then r.accepted else r.exchanging) =
      some ticket) : ticket < r.scheduler.tickets := by
    by_cases hwon : Effect.won ∈ d.log
    · rw [if_pos hwon] at hticket
      exact issued ticket (.inr (.inr (.inl hticket)))
    · rw [if_neg hwon] at hticket
      exact issued ticket (.inr (.inr (.inr (.inl hticket))))
  refine ⟨current, placed, ?_, ?_, ?_, ?_, ?_, ?_⟩
  · rintro ticket (hplace | hplace | hplace | hplace | hplace)
    · exact issued ticket (.inl hplace)
    · exact issued ticket (.inr (.inl hplace))
    · exact issued ticket (.inr (.inr (.inl hplace)))
    · exact hknown ticket hplace
    · obtain hold | hnew := List.mem_append.mp hplace
      · exact issued ticket (.inr (.inr (.inr (.inr hold))))
      · obtain ⟨e, -, -, other, hother, heq⟩ := mem_milestones hnew
        obtain rfl : ticket = other := by simpa using heq
        exact hknown ticket hother
  · intro ticket hmem
    obtain hold | hnew := List.mem_append.mp hmem
    · exact done ticket hold
    · obtain ⟨e, he, htelegram, other, hother, heq⟩ := mem_milestones hnew
      obtain rfl : ticket = other := by simpa using heq
      exact hnow ticket hother (.inl ((hreports e he).2 htelegram))
  · intro active hactive hmem
    obtain hold | hnew := List.mem_append.mp hmem
    · exact (reported active hactive hold).imp_left
        fun ⟨p, hp, hsucceeds⟩ => ⟨p, List.mem_append_left _ hp, hsucceeds⟩
    · obtain ⟨e, he, htelegram, -⟩ := mem_milestones hnew
      obtain ⟨p, hpost, hsucceeds⟩ := @post_succeeds r
        (if .won ∈ d.log then r.accepted else r.exchanging) e htelegram
      refine .inl ⟨p, List.mem_append_right _ (List.mem_filterMap.mpr ⟨e, he, hpost⟩), ?_⟩
      rw [← current active hactive]
      exact hsucceeds
  · intro ticket hticket hb
    exact waiting ticket hticket (hbusy hb)
  · intro ticket hticket hstate
    exact hnow ticket hticket (hexchange hstate)
  · refine Log.atEach_append.mpr ⟨unrepeated, ?_⟩
    intro before e after heq ticket hhanded
    have hmem : e ∈ d.log.filterMap
        (milestone (if .won ∈ d.log then r.accepted else r.exchanging)) := by simp [heq]
    obtain ⟨-, -, -, other, -, hsucceeded⟩ := mem_milestones hmem
    rw [hhanded] at hsucceeded
    cases hsucceeded

/-- The item that is started comes from the queue. -/
theorem queued_of_pop {s : Scheduler} {top : Item} {others : List Item}
    (hpop : Scheduler.popGreatest s.scheduledItems = some (top, others)) :
    s.queued.Perm (top.ticket :: others.map Item.ticket) :=
  (Scheduler.popGreatest_perm hpop).map Item.ticket

theorem tick_sentOnce {r : Reactor} (hi : SentOnce r) (now : Int) : SentOnce (r.tick now) := by
  obtain ⟨current, placed, issued, done, reported, waiting, working, unrepeated⟩ := hi
  obtain ⟨active, hactive, -, heq⟩ | heq |
      ⟨top, others, refused, hidle, hpop, hstart, hrefused, -, heq⟩ := r.tick_rule now <;> rw [heq]
  · have hreset := r.handler.reset_busy
    refine ⟨current, placed, issued, done, ?_, by simp [hreset.1], by simp [hreset.2],
      unrepeated⟩
    intro other hother hmem
    exact (reported other hother hmem).imp_left
      fun ⟨p, hp, hsucceeds⟩ => ⟨p, List.mem_append_left _ hp, hsucceeds⟩
  · exact ⟨current, placed, issued, done, reported, waiting, working, unrepeated⟩
  · have hperm := queued_of_pop hpop
    have hleft {ticket : Nat} (hout : ticket ∉ r.scheduler.queued) :
        ticket ∉ others.map Item.ticket :=
      fun hmem => hout (hperm.mem_iff.mpr (List.mem_cons_of_mem _ hmem))
    have hnodup : (top.ticket :: others.map Item.ticket).Nodup :=
      hperm.nodup_iff.mp (List.Nodup.of_append_left placed)
    have htop : top.ticket ∈ r.scheduler.queued := hperm.mem_iff.mpr (List.mem_cons_self ..)
    have hfresh : .succeeded top.ticket ∉ r.history := fun hmem => done _ hmem htop
    have hold (ticket : Nat) : .succeeded ticket ∈ r.history ++ [.handed top.ticket] ↔
        .succeeded ticket ∈ r.history := by simp
    have hstate := r.handler.sendActiveMessage_state top.message
    refine ⟨?_, ?_, ?_, ?_, ?_, ?_, ?_, ?_⟩
    · rintro active ⟨rfl⟩
      rfl
    · exact (List.perm_append_singleton ..).nodup_iff.mpr hnodup
    · rintro ticket (hplace | hplace | hplace | hplace | hplace)
      · exact issued ticket (.inl (hperm.mem_iff.mpr (List.mem_cons_of_mem _ hplace)))
      · obtain rfl : top.ticket = ticket := by simpa [Scheduler.activeTicket] using hplace
        exact issued _ (.inl htop)
      · dsimp only at hplace
        split at hplace
        · obtain rfl := Option.some.inj hplace
          exact issued _ (.inl htop)
        · exact issued ticket (.inr (.inr (.inl hplace)))
      · exact issued ticket (.inr (.inr (.inr (.inl hplace))))
      · exact issued ticket (.inr (.inr (.inr (.inr ((hold ticket).mp hplace)))))
    · intro ticket hmem
      exact hleft (done ticket ((hold ticket).mp hmem))
    · rintro active ⟨rfl⟩ hmem
      exact absurd ((hold _).mp hmem) hfresh
    · intro ticket hticket hb
      dsimp only at hticket hb
      split at hticket
      · obtain rfl := Option.some.inj hticket
        exact (List.nodup_cons.mp hnodup).1
      · rename_i hmessage
        refine hleft (waiting ticket hticket ?_)
        simp only [Handler.busy, hmessage, hstate, Bool.false_or] at hb
        simp [Handler.busy, hb]
    · intro ticket hticket hexchanging
      exact hleft (working ticket hticket (hstate ▸ hexchanging))
    · refine Log.atEach_append.mpr ⟨unrepeated, ?_⟩
      rw [Log.atEach_cons]
      refine ⟨?_, Log.atEach_nil _⟩
      rintro ticket ⟨rfl⟩
      simpa using hfresh

theorem enqueueAt_sentOnce {r : Reactor} (hi : SentOnce r) (priority : UInt8)
    (message : List UInt8) (due : Int) (pollId : UInt16) :
    SentOnce (step r (.enqueueAt priority message due pollId)) := by
  obtain ⟨current, placed, issued, done, reported, waiting, working, unrepeated⟩ := hi
  rw [step]
  obtain ⟨-, heq⟩ | ⟨-, heq⟩ := r.scheduler.enqueueAt_cases priority message due pollId <;>
    rw [heq]
  · exact ⟨current, placed, fun ticket hplace => Nat.lt_succ_of_lt (issued ticket hplace), done,
      reported, waiting, working, unrepeated⟩
  · -- the new number is in use nowhere
    have hnew {ticket : Nat} (hlt : ticket < r.scheduler.tickets)
        (hout : ticket ∉ r.scheduler.queued) :
        ticket ∉ r.scheduler.queued ++ [r.scheduler.tickets] := by
      simp only [List.mem_append, List.mem_singleton, not_or]
      exact ⟨hout, Nat.ne_of_lt hlt⟩
    have hqueued : Scheduler.queued { r.scheduler with
        nextSessionId := r.scheduler.nextSessionId + 1, tickets := r.scheduler.tickets + 1
        scheduledItems := r.scheduler.scheduledItems ++
          [{ priority, due, sessionId := r.scheduler.nextSessionId, pollId, message
             ticket := r.scheduler.tickets }] } =
        r.scheduler.queued ++ [r.scheduler.tickets] := by simp [Scheduler.queued]
    refine ⟨current, ?_, ?_, ?_, reported, ?_, ?_, unrepeated⟩
    · rw [hqueued, List.append_assoc]
      refine List.perm_middle.nodup_iff.mpr (List.nodup_cons.mpr ⟨?_, placed⟩)
      intro hmem
      obtain hq | ha := List.mem_append.mp hmem
      · exact Nat.lt_irrefl _ (issued _ (.inl hq))
      · exact Nat.lt_irrefl _ (issued _ (.inr (.inl (Option.mem_toList.mp ha))))
    · rintro ticket (hplace | hplace)
      · rw [hqueued] at hplace
        obtain hq | ha := List.mem_append.mp hplace
        · exact Nat.lt_succ_of_lt (issued ticket (.inl hq))
        · obtain rfl := List.mem_singleton.mp ha
          exact Nat.lt_succ_self _
      · exact Nat.lt_succ_of_lt (issued ticket (.inr hplace))
    · intro ticket hmem
      rw [hqueued]
      exact hnew (issued ticket (.inr (.inr (.inr (.inr hmem))))) (done ticket hmem)
    · intro ticket hticket hb
      rw [hqueued]
      exact hnew (issued ticket (.inr (.inr (.inl hticket)))) (waiting ticket hticket hb)
    · intro ticket hticket hexchanging
      rw [hqueued]
      exact hnew (issued ticket (.inr (.inr (.inr (.inl hticket)))))
        (working ticket hticket hexchanging)

/-- A session that starts again when its exchange is over has not succeeded and will not. -/
theorem requeue_sentOnce {r : Reactor} (hi : SentOnce r) {active : ActiveAttempt}
    (hactive : r.scheduler.activeItem = some active) (hover : r.handler.busy = false)
    (hunsent : .succeeded active.item.ticket ∉ r.history) {item : Item}
    (hitem : item.ticket = active.item.ticket) (now : Int) (protocolQueue : List Posted) :
    SentOnce { r with scheduler := r.scheduler.requeue item now, protocolQueue } := by
  obtain ⟨current, placed, issued, done, reported, waiting, working, unrepeated⟩ := hi
  have hidle : r.handler.state.exchanging = false := by
    simp only [Handler.busy, Bool.or_eq_false_iff] at hover
    simp [HandlerState.exchanging, hover.2]
  obtain ⟨hfree, htickets⟩ := r.scheduler.requeue_rest item now
  have hactiveTicket : r.scheduler.activeTicket = some active.item.ticket := by
    simp [Scheduler.activeTicket, hactive]
  have hqueued := r.scheduler.requeue_queued item now
  rw [hitem] at hqueued
  have hplace {ticket : Nat} (hmem : ticket ∈ (r.scheduler.requeue item now).queued) :
      ticket ∈ r.scheduler.queued ∨ ticket = active.item.ticket := by
    obtain hsame | hmore := hqueued
    · exact .inl (hsame ▸ hmem)
    · rw [hmore] at hmem
      simpa using hmem
  refine ⟨by simp [hfree], ?_, ?_, ?_, by simp [hfree], by simp [hover], by simp [hidle],
    unrepeated⟩
  · simp only [Scheduler.activeTicket, hfree, Option.map_none, Option.toList_none,
      List.append_nil]
    rw [hactiveTicket, Option.toList_some] at placed
    obtain hsame | hmore := hqueued
    · rw [hsame]
      exact List.Nodup.of_append_left placed
    · rw [hmore]
      exact placed
  · rintro ticket (hmem | hmem | hmem)
    · rw [htickets]
      obtain hq | rfl := hplace hmem
      · exact issued ticket (.inl hq)
      · exact issued _ (.inr (.inl hactiveTicket))
    · simp [Scheduler.activeTicket, hfree] at hmem
    · rw [htickets]
      exact issued ticket (.inr (.inr hmem))
  · intro ticket hmem hin
    obtain hq | rfl := hplace hin
    · exact done ticket hmem hq
    · exact hunsent hmem

theorem processPublicEvent_sentOnce {r : Reactor} (hi : SentOnce r) {now : Int}
    (hok : RetriesWhenOver r (.processPublicEvent now)) : SentOnce (r.processPublicEvent now) := by
  unfold processPublicEvent
  split
  · exact hi
  rename_i posted rest hqueue
  obtain heq | ⟨active, hactive, hid, hwon, ⟨hagain, hleft, heq⟩ | ⟨hlast, heq⟩⟩ :=
    r.scheduler.injectProtocolEvent_cases posted.event now
  · rw [heq]
    obtain ⟨current, placed, issued, done, reported, waiting, working, unrepeated⟩ := hi
    refine ⟨current, placed, issued, done, ?_, waiting, working, unrepeated⟩
    intro active hactive hmem
    obtain ⟨p, hp, hsucceeds⟩ | hlast := reported active hactive hmem
    · rw [hqueue] at hp
      obtain rfl | hrest := List.mem_cons.mp hp
      · have hends := Scheduler.ends_of_succeeds hactive hsucceeds now
        rw [heq, hactive] at hends
        cases hends
      · exact .inl ⟨p, hrest, hsucceeds⟩
    · exact .inr hlast
  · obtain ⟨hover, hnone⟩ := hok posted (by simp [hqueue]) active hactive hid hagain hleft
    have hunsent : .succeeded active.item.ticket ∉ r.history := by
      intro hmem
      obtain ⟨p, hp, hsucceeds⟩ | hlast := hi.reported active hactive hmem
      · rw [hnone p hp] at hsucceeds
        cases hsucceeds
      · rw [Scheduler.countAttempt_attempts hagain] at hleft
        exact absurd hleft (UInt8.not_lt.mpr hlast)
    rw [heq]
    exact requeue_sentOnce hi hactive hover hunsent (Scheduler.countAttempt_ticket _ _) now rest
  · rw [heq]
    obtain ⟨current, placed, issued, done, reported, waiting, working, unrepeated⟩ := hi
    refine ⟨by simp [Scheduler.idle], ?_, ?_, done, by simp [Scheduler.idle], waiting, working,
      unrepeated⟩
    · simpa [Scheduler.idle, Scheduler.activeTicket, Scheduler.queued] using
        List.Nodup.of_append_left placed
    · rintro ticket (hmem | hmem | hmem)
      · exact issued ticket (.inl hmem)
      · simp [Scheduler.activeTicket, Scheduler.idle] at hmem
      · exact issued ticket (.inr (.inr hmem))

/-- Where a success of the session in progress is discarded, the session will not start again. -/
theorem discardEvent_sentOnce {r : Reactor} (hi : SentOnce r) {index : Nat}
    (hok : RetriesWhenOver r (.discardEvent index)) : SentOnce (r.discardEvent index) := by
  rw [discardEvent]
  split
  · rename_i hfull
    refine ⟨hi.current, hi.placed, hi.issued, hi.done, ?_, hi.waiting, hi.working,
      hi.unrepeated⟩
    intro active hactive hmem
    obtain ⟨p, hp, hsucceeds⟩ | hlast := hi.reported active hactive hmem
    · obtain ⟨i, hlt, rfl⟩ := List.mem_iff_getElem.mp hp
      by_cases hi : i = index
      · subst hi
        exact .inr (hok hfull _ (List.getElem?_eq_getElem hlt) active hactive hsucceeds)
      · exact .inl ⟨_, List.mem_eraseIdx_iff_getElem.mpr ⟨i, hlt, hi, rfl⟩, hsucceeds⟩
    · exact .inr hlast
  · exact hi

theorem step_sentOnce (r : Reactor) (action : Action) (hi : SentOnce r)
    (hok : RetriesWhenOver r action) : SentOnce (step r action) := by
  cases action with
  | busEvent event response => exact busEvent_sentOnce hi event response
  | requestExternal address =>
      exact ⟨hi.current, hi.placed, hi.issued, hi.done, hi.reported, hi.waiting, hi.working,
        hi.unrepeated⟩
  | enqueueAt priority message due pollId =>
      exact enqueueAt_sentOnce hi priority message due pollId
  | tick now => exact tick_sentOnce hi now
  | processPublicEvent now => exact processPublicEvent_sentOnce hi hok
  | discardEvent index => exact discardEvent_sentOnce hi hok

/-- In such a run no message is handed over after the engine has reported its success. -/
theorem run_sends_once (address : UInt8) (request : Request) (scheduler : Scheduler)
    (empty : scheduler.scheduledItems = []) (idle : scheduler.activeItem = none)
    (actions : List Action)
    (meets : Runs.Meets step RetriesWhenOver (create address request scheduler) actions) :
    NoneRepeated (Runs.run step (create address request scheduler) actions).history := by
  have hstart : SentOnce (create address request scheduler) := by
    constructor <;> simp [create, empty, idle, Scheduler.queued, Scheduler.activeTicket,
      NoneRepeated]
  exact (Runs.invariant step_sentOnce hstart meets).unrepeated

/-- The arbitration for a broadcast is lost; the second attempt succeeds. -/
def lostThenSent : List Action :=
  startBroadcast ++ obtainBus 0x10 ++ [.processPublicEvent 0] ++ feed [0xaa] ++
    [.tick 200000] ++ obtainBus 0xff ++ feed [0xfe, 0x07, 0x04, 0x00, 0x94, 0xaa]

theorem run_sends_once_lostThenSent :
    Runs.Meets step RetriesWhenOver (create 0xff {} {}) lostThenSent ∧
    NoneRepeated (Runs.run step (create 0xff {} {}) lostThenSent).history ∧
    (Runs.run step (create 0xff {} {}) lostThenSent).history =
      [.handed 0, .handed 0, .succeeded 0] :=
  have hmeets : Runs.Meets step RetriesWhenOver (create 0xff {} {}) lostThenSent := by
    decide
  ⟨hmeets, run_sends_once 0xff {} {} rfl rfl lostThenSent hmeets, by decide +kernel⟩

/-- A read whose first answer has a wrong check sum. The error is delivered while the
slave repeats its answer, which is correct then. -/
def rejectedThenSent : List Action :=
  [.enqueueAt 1 [0x08, 0x07, 0x04, 0x00] 0 0, .tick 0] ++ obtainBus 0xff ++
    feed [0x08, 0x07, 0x04, 0x00, 0x51, 0x00, 0x00, 0x55, 0xff] ++
    [.processPublicEvent 0, .processPublicEvent 0] ++ feed [0x00, 0x00, 0x00, 0xaa] ++
    [.tick 200000]

/-- The read is handed over again. -/
theorem repeated_of_rejectedThenSent :
    ¬ ∀ actions, NoneRepeated (Runs.run step (create 0xff {} {}) actions).history := by
  intro hnone
  have hhistory : (Runs.run step (create 0xff {} {}) rejectedThenSent).history =
      [.handed 0, .succeeded 0] ++ .handed 0 :: [] := by decide +kernel
  exact hnone rejectedThenSent _ _ _ hhistory 0 rfl (by decide)

end Reactor

end Ebus
