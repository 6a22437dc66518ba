import Ebus.App.ScanResults
import Ebus.Verification.Leftovers
import Ebus.Verification.Sessions

/-!
# Which address a scan result is about

The reports that the engine makes about an own message carry its master part, either as
it was checked or as it went over the wire; the target address is the second byte of
both. The events of the scheduler are built differently: a timeout carries the message
without the source address and a refused message nothing at all. Reports about the
traffic of other masters get the id of the session in progress as well.
-/

namespace Ebus

/-- A checked master part for a target. -/
structure Telegram.To (target : UInt8) (t : Telegram) : Prop where
  part : MasterPart t.master.bytes
  logical : t.master.extended = false
  target : t.master.bytes[1]? = some target

@[simp] theorem Telegram.to_createSlave {target : UInt8} {t : Telegram} {s : Sequence} :
    (t.createSlave s).1.To target ↔ t.To target := by
  constructor
  · rintro ⟨part, logical, target⟩
    exact ⟨by simpa using part, by simpa using logical, by simpa using target⟩
  · rintro ⟨part, logical, target⟩
    exact ⟨by simpa using part, by simpa using logical, by simpa using target⟩

/-- A report about the own message has the target in its master part. -/
@[simp] def Effect.Names (target : UInt8) : Effect → Prop
  | .protocol info => (Effect.protocol info).foreign = false → info.masterView[1]? = some target
  | _ => True

namespace Handler

/-- Neither of the two addresses is stuffed. -/
theorem messageBytes_target {h : Handler} {target : UInt8} (hto : h.activeTelegram.To target) :
    h.messageBytes.bytes[1]? = some target := by
  obtain ⟨part, logical, htarget⟩ := hto
  have hsource := needsEscape_of_isMaster part.source
  have hescape := needsEscape_of_isTarget part.target
  obtain ⟨hlength, -⟩ := part.length_bounds
  rw [messageBytes, Sequence.extend_of_logical rfl]
  dsimp only [Sequence.pushBack]
  generalize h.activeTelegram.master.bytes = bytes at *
  match bytes, hlength with
  | source :: second :: rest, _ =>
      simp only [List.getD_cons_zero, List.getD_cons_succ] at hsource hescape
      simp only [List.getElem?_cons_succ, List.getElem?_cons_zero] at htarget
      simp [Sequence.stuff, hsource, hescape, htarget]

/-- The own message goes to the target, and away from it the engine holds no part of a message
or of an answer. -/
@[mk_iff] structure Aimed (target : UInt8) (h : Handler) : Prop where
  message : h.activeMessage = true → h.activeTelegram.To target
  exchange : h.state.exchanging = true →
    h.activeTelegram.To target ∧ h.activeMaster.bytes[1]? = some target
  slave : h.state.exchanging = false → h.activeSlave.bytes = []
  master : h.state.engaged = false → h.activeMaster.bytes = []

section Step

variable {h d : Handler} {byte : UInt8} {response : Sequence} {target : UInt8}

theorem Branch.aimed (hwait : AwaitsBus h) (hi : Aimed target h)
    (hlog : Log.Each (Effect.Names target) h.log) (hb : Branch h byte response d) :
    Aimed target d ∧ Log.Each (Effect.Names target) d.log := by
  have hbuffered : Log.Each (Effect.Names target) (h.bufferMaster byte).log := by
    rw [bufferMaster_log, Log.each_append]
    refine ⟨hlog, ?_⟩
    split <;> simp
  have hchecked : Log.Each (Effect.Names target) (h.checkedMaster byte).log := by
    rw [checkedMaster, createPassiveMaster_log, Log.each_append]
    exact ⟨hbuffered, by simp⟩
  obtain ⟨message, exchange, slave, master⟩ := hi
  cases hb
  case buffered hs _ _ _ => exact ⟨⟨message, exchange, slave, master⟩, hbuffered⟩
  case won hs hresult hm _ =>
    subst hm
    have hmessage : h.activeMessage = true := by
      obtain hmessage | hobserve | hobserve := hwait hs
      · exact hmessage
      · simp [hobserve] at hresult
      · simp [hobserve] at hresult
    have htarget := messageBytes_target (message hmessage)
    simp_all [aimed_iff, HandlerState.exchanging, HandlerState.engaged]
  case syn hs _ =>
    have hkept : h.receiveSyn.state = .passiveReceiveMaster ∧ Aimed target h.receiveSyn ∧
        Log.Each (Effect.Names target) h.receiveSyn.log := by
      apply receiveSyn_rule (P := fun a => a.state = .passiveReceiveMaster ∧ Aimed target a ∧
        Log.Each (Effect.Names target) a.log)
        ⟨hs, ⟨message, exchange, slave, master⟩, hlog⟩
      · intro _ _
        simp_all [aimed_iff, HandlerState.exchanging, HandlerState.engaged, Effect.foreign]
      · -- the engine holds nothing of its own here
        rintro a ⟨has, haimed, -⟩ hfull
        have hmaster := haimed.master (by rw [has]; rfl)
        have hslave := haimed.slave (by rw [has]; rfl)
        simp [Sequence.size, hmaster, hslave] at hfull
      · rintro a ⟨has, ⟨message, exchange, slave, master⟩, halog⟩ _
        exact ⟨has, ⟨message, exchange, slave, master⟩, halog⟩
    exact hkept.2
  case exchanged hs =>
    have htarget := (exchange (by rw [hs]; rfl)).1.target
    simp_all [aimed_iff, HandlerState.exchanging, HandlerState.engaged]
  case refused ht =>
    obtain ⟨-, rfl⟩ | ⟨-, rfl⟩ := ht <;> subst_vars <;>
      simp_all [aimed_iff, HandlerState.exchanging, HandlerState.engaged, Effect.foreign]
  all_goals
    clear hwait hbuffered
    subst_vars
    simp [aimed_iff, HandlerState.exchanging, HandlerState.engaged, Effect.foreign, answered,
      checkedSlave, checkedActiveSlave, *]
  all_goals exact message

end Step

/-- The flags of an event come at a good time: no start bit during an exchange, and no bus
request of the own message while a part of the answer is held. -/
def Undisturbed (h : Handler) (event : BusEvent) : Prop :=
  (event.startBit = true → h.state.exchanging = false) ∧
  (event.busRequest = true → h.request.externalBusRequest = false → h.activeSlave.bytes = [])

instance (h : Handler) (event : BusEvent) : Decidable (Undisturbed h event) :=
  inferInstanceAs (Decidable (_ ∧ _))

theorem Aimed.ready {h : Handler} {target : UInt8} {event : BusEvent} (hi : Aimed target h)
    (hwait : h.state = .requestBus → h.activeMessage = true) (hquiet : Undisturbed h event) :
    AwaitsBus (h.ready event) ∧ Aimed target (h.ready event) := by
  obtain ⟨message, exchange, slave, master⟩ := hi
  cases hstart : event.startBit with
  | false =>
      obtain ⟨request, hready⟩ := h.ready_of_quiet event hstart
      rw [hready]
      unfold requestedState
      split
      · rename_i hflag
        refine ⟨fun _ => .inl hflag.2.2, message, ?_, ?_, ?_⟩
        · simp [HandlerState.exchanging]
        · intro _
          exact hquiet.2 hflag.1 hflag.2.1
        · simp [HandlerState.engaged]
      · exact ⟨fun hs => .inl (hwait hs), message, exchange, slave, master⟩
  | true =>
      obtain ⟨request, hresult, hready⟩ := h.ready_of_startBit event hstart
      have hstate : (h.requestedState event).exchanging = false := by
        by_contra hnot
        have hexchanging := requestedState_exchanging (Bool.not_eq_false _ ▸ hnot)
        simp [hquiet.1 hstart] at hexchanging
      rw [hready]
      refine ⟨fun _ => .inr hresult, ?_⟩
      simp [aimed_iff, hstate]

/-- The engine after an event, and what it has reported. -/
theorem Aimed.onBusEvent {h : Handler} {target : UInt8} {event : BusEvent}
    (hi : Aimed target h) (response : Sequence)
    (hwait : h.state = .requestBus → h.activeMessage = true) (hquiet : Undisturbed h event) :
    let d := BusHandler.onBusEvent { h with log := [] } event response
    Aimed target d ∧ (d.state = .requestBus → d.activeMessage = true) ∧
      ∀ e ∈ d.log, e.Names target := by
  intro d
  obtain ⟨b, hbranch, heq⟩ := BusHandler.onBusEvent_branch { h with log := [] } event response
  have hi' : Aimed target { h with log := [] } := ⟨hi.message, hi.exchange, hi.slave, hi.master⟩
  obtain ⟨hawaits, hready⟩ := hi'.ready hwait hquiet
  have hlog : Log.Each (Effect.Names target) (Handler.ready { h with log := [] } event).log := by
    cases hstart : event.startBit with
    | false =>
        obtain ⟨request, hready⟩ := ready_of_quiet { h with log := [] } event hstart
        rw [hready]
        exact Log.each_nil _
    | true =>
        obtain ⟨request, -, hready⟩ := ready_of_startBit { h with log := [] } event hstart
        rw [hready]
        simp
  obtain ⟨⟨message, exchange, slave, master⟩, hnames⟩ := hbranch.aimed hawaits hready hlog
  have hwaits := hbranch.requestBus_message hawaits
  obtain hflush | ⟨written, hflush⟩ := b.flush_cases
  · have hd : d = b := heq.trans hflush
    rw [hd]
    exact ⟨⟨message, exchange, slave, master⟩, hwaits, fun e he => hnames.of_mem he⟩
  · have hd : d = b.emit (.write written) := heq.trans hflush
    have hall : Log.Each (Effect.Names target) (b.emit (.write written)).log := by simp [hnames]
    rw [hd]
    exact ⟨⟨message, exchange, slave, master⟩, hwaits, fun e he => hall.of_mem he⟩

theorem aimed_reset (h : Handler) (target : UInt8) : Aimed target h.reset := by
  rw [reset_eq]
  simp [aimed_iff, HandlerState.exchanging, HandlerState.engaged]

/-- The engine neither works for a message nor holds anything of one. -/
def AtRest (h : Handler) : Prop :=
  h.state.engaged = false ∧ h.activeMaster.bytes = [] ∧ h.activeSlave.bytes = []

instance (h : Handler) : Decidable (AtRest h) := inferInstanceAs (Decidable (_ ∧ _))

/-- A master part that is accepted is for the address that follows the source. -/
theorem to_createMasterFrom {t : Telegram} {source : UInt8} {message : List UInt8}
    (hok : (t.createMasterFrom source message).masterState = .seqOk) :
    ∃ target, message[0]? = some target ∧ (t.createMasterFrom source message).To target := by
  rw [Telegram.createMasterFrom, Telegram.createMaster, Sequence.reduce_of_logical rfl] at hok ⊢
  obtain ⟨error, hbad, -, heq⟩ | heq | ⟨part, crc, state, hpart, -, hbytes, heq⟩ :=
    t.checkMaster_cases (s := { bytes := source :: message }) rfl
  · rw [heq] at hok
    exact absurd (.inl hok) hbad
  · rw [heq] at hok
    cases hok
  · obtain ⟨hlength, -⟩ := hpart.length_bounds
    have hsecond : part[1]? = message[0]? := by
      obtain ⟨hbytes, -⟩ | ⟨hbytes, -⟩ := hbytes
      · dsimp only at hbytes
        rw [← hbytes, List.getElem?_cons_succ]
      · dsimp only at hbytes
        calc part[1]? = (part ++ [crc])[1]? := (List.getElem?_append_left (by omega)).symm
          _ = (source :: message)[1]? := by rw [hbytes]
          _ = message[0]? := List.getElem?_cons_succ
    have hsome : part[1]? = some part[1] := List.getElem?_eq_getElem (by omega)
    rw [heq]
    exact ⟨part[1], hsecond ▸ hsome, hpart, rfl, hsome⟩

/-- A message that is taken goes to the address that it starts with. -/
theorem aimed_sendActiveMessage {h : Handler} {message : List UInt8} (hrest : AtRest h)
    (htaken : (h.sendActiveMessage message).2 = true) :
    ∃ target, message[0]? = some target ∧ Aimed target (h.sendActiveMessage message).1 := by
  obtain ⟨hstate, hmaster, hslave⟩ := hrest
  obtain heq | ⟨t, -, -, -, heq⟩ | ⟨t, ht, -, hok, heq⟩ := h.sendActiveMessage_cases message
  · simp [heq] at htaken
  · simp [heq] at htaken
  · obtain ⟨target, hfirst, hto⟩ := to_createMasterFrom (ht ▸ hok)
    refine ⟨target, hfirst, ?_⟩
    rw [heq]
    rw [← ht] at hto
    exact ⟨fun _ => hto, by simp [HandlerState.exchanging, hstate], fun _ => hslave,
      fun _ => hmaster⟩

end Handler

/-- The scanner is told about the report when a session is in progress. -/
def Effect.scanned : Effect → Bool
  | .protocol info => info.isError || info.telegramType ≠ .broadcast
  | _ => false

namespace Scans

/-- The call is about the session that the event names: it does not come from the traffic of
other masters, and the address is the one that the message of the session starts with. -/
def Right (enqueued : List (UInt32 × List UInt8)) (result : ScanResult) : Prop :=
  (∀ e, result.posted.effect = some e → e.foreign = false) ∧
  ∃ ticket message target, result.posted.session = some ticket ∧
    enqueued[ticket]? = some (result.posted.event.sessionId, message) ∧
    message[0]? = some target ∧ result.address = some target

/-- The steps in which the events of a session are about its target. During a session the flags
of bus events come at a good time, and no error and no telegram of other traffic is reported,
broadcasts apart. When a session times out, the second byte of its message is the same as the
first; when one is started, the engine is at rest and takes the message. -/
def Keeps (d : Scans) : Action → Prop
  | .reactor (.busEvent event response) => d.reactor.scheduler.currentSessionId ≠ 0 →
      d.reactor.handler.Undisturbed event ∧
      ∀ e ∈ (BusHandler.onBusEvent { d.reactor.handler with log := [] } event response).log,
        e.scanned = true → e.foreign = false
  | .reactor (.tick now) =>
      (∀ active ∈ d.reactor.scheduler.activeItem,
        d.reactor.scheduler.totalTimeout < now - active.startTime → active.sessionId ≠ 0 →
        active.item.message[1]? = active.item.message[0]?) ∧
      ∀ top ∈ d.reactor.scheduler.startable d.reactor.handler now, top.sessionId ≠ 0 →
        d.reactor.handler.AtRest ∧ (d.reactor.handler.sendActiveMessage top.message).2 = true
  | _ => True

instance (d : Scans) : (action : Action) → Decidable (Keeps d action)
  | .reactor (.busEvent _ _) => inferInstanceAs (Decidable (_ → _))
  | .reactor (.tick now) => inferInstanceAs (Decidable ((∀ active ∈ d.reactor.scheduler.activeItem,
      d.reactor.scheduler.totalTimeout < now - active.startTime → _) ∧
      ∀ top ∈ d.reactor.scheduler.startable d.reactor.handler now, _))
  | .reactor (.requestExternal _) | .reactor (.enqueueAt _ _ _ _)
  | .reactor (.processPublicEvent _) | .reactor (.discardEvent _) | .discardEvent =>
      .isTrue trivial

/-- The item is the one that was enqueued. -/
def Known (enqueued : List (UInt32 × List UInt8)) (item : Item) : Prop :=
  enqueued[item.ticket]? = some (item.sessionId, item.message)

/-- The invariant of such runs. -/
structure Accurate (d : Scans) : Prop where
  counted : d.enqueued.length = d.reactor.scheduler.tickets
  queued : ∀ item ∈ d.reactor.scheduler.scheduledItems, Known d.enqueued item
  active : ∀ active, d.reactor.scheduler.activeItem = some active →
    Known d.enqueued active.item ∧ active.sessionId = active.item.sessionId ∧
      d.reactor.scheduler.currentSessionId = active.sessionId
  idle : d.reactor.scheduler.activeItem = none → d.reactor.scheduler.currentSessionId = 0
  aimed : ∀ active, d.reactor.scheduler.activeItem = some active → active.sessionId ≠ 0 →
    (d.reactor.handler.state = .requestBus → d.reactor.handler.activeMessage = true) ∧
    ∃ target, active.item.message[0]? = some target ∧ d.reactor.handler.Aimed target
  events : ∀ p ∈ d.reactor.protocolQueue, ∀ result, scanResult p = some result →
    Right d.enqueued result
  results : ∀ result ∈ d.results, Right d.enqueued result

theorem Known.append {enqueued more : List (UInt32 × List UInt8)} {item : Item}
    (h : Known enqueued item) : Known (enqueued ++ more) item := by
  rw [Known, List.getElem?_append_left (List.getElem?_eq_some_iff.mp h).1]
  exact h

theorem Right.append {enqueued more : List (UInt32 × List UInt8)} {result : ScanResult}
    (h : Right enqueued result) : Right (enqueued ++ more) result := by
  obtain ⟨hown, ticket, message, target, hsession, hmessage, htarget⟩ := h
  refine ⟨hown, ticket, message, target, hsession, ?_, htarget⟩
  rw [List.getElem?_append_left (List.getElem?_eq_some_iff.mp hmessage).1]
  exact hmessage

/-- What is read from an event that the scanner is told about. -/
theorem scanResult_eq_some {p : Posted} {result : ScanResult} (h : scanResult p = some result) :
    result.posted = p ∧ result.address = p.event.master[1]? ∧ p.event.sessionId ≠ 0 ∧
      isBroadcast p.event = false ∧ (p.event.type = .telegram ∨ p.event.type = .error) := by
  unfold scanResult at h
  dsimp only at h
  split at h
  · rename_i htype
    split at h
    · rename_i hif
      obtain rfl := Option.some.inj h
      exact ⟨rfl, rfl, (UInt32.pos_iff_ne_zero.mp hif.1), hif.2, .inl htype⟩
    · cases h
  · rename_i htype
    split at h
    · rename_i hif
      obtain rfl := Option.some.inj h
      exact ⟨rfl, rfl, (UInt32.pos_iff_ne_zero.mp hif.1), hif.2, .inr htype⟩
    · cases h
  · cases h
  · cases h

theorem assign_second (data : List UInt8) :
    (StaticSequence.assign SequenceLimits.modelCapacity data)[1]? = data[1]? :=
  List.getElem?_take_of_lt (by decide)

/-- An event that the scanner is told about comes from a report that `Keeps` looks at. -/
theorem scanned_of_result {r : Reactor} {exchanging : Option Nat} {e : Effect} {p : Posted}
    {result : ScanResult} (hpost : r.post exchanging e = some p)
    (hresult : scanResult p = some result) :
    ∃ info, e = .protocol info ∧ e.scanned = true ∧
      p.event = r.scheduler.onHandlerProtocol info ∧ p.effect = some e ∧
      p.event.master[1]? = info.masterView[1]? := by
  obtain ⟨event, hevent, rfl⟩ := Option.map_eq_some_iff.mp hpost
  obtain ⟨-, -, -, hbroadcast, htype⟩ := scanResult_eq_some hresult
  dsimp only at hbroadcast htype
  cases e with
  | protocol info =>
      obtain rfl : r.scheduler.onHandlerProtocol info = event := by
        simpa [Scheduler.onEffect] using hevent
      refine ⟨info, rfl, ?_, rfl, rfl, ?_⟩
      · cases herror : info.isError with
        | true => simp [Effect.scanned, herror]
        | false =>
            simp only [Effect.scanned, herror, Bool.false_or, decide_eq_true_eq]
            simpa [isBroadcast, Scheduler.onHandlerProtocol, herror] using hbroadcast
      · cases herror : info.isError <;>
          simp [Scheduler.onHandlerProtocol, herror, assign_second]
  | won =>
      simp only [Scheduler.onEffect, Scheduler.onArbitration] at hevent
      split at hevent
      · cases hevent
      · obtain rfl := Option.some.inj hevent
        simp at htype
  | lost =>
      simp only [Scheduler.onEffect, Scheduler.onArbitration] at hevent
      split at hevent
      · cases hevent
      · obtain rfl := Option.some.inj hevent
        simp at htype
  | _ => simp [Scheduler.onEffect] at hevent

theorem onHandlerProtocol_sessionId (s : Scheduler) (info : ProtocolInfo) :
    (s.onHandlerProtocol info).sessionId = s.currentSessionId := by
  unfold Scheduler.onHandlerProtocol
  dsimp only
  split <;> rfl

theorem busEvent_accurate {d : Scans} (hi : Accurate d) {event : BusEvent} {response : Sequence}
    (hok : Keeps d (.reactor (.busEvent event response))) :
    Accurate (step d (.reactor (.busEvent event response))) := by
  obtain ⟨counted, queued, active, idle, aimed, events, results⟩ := hi
  simp only [step, Reactor.step, Reactor.busEvent, enqueuedBy, resultsOf, List.append_nil]
  refine ⟨counted, queued, active, idle, ?_, ?_, results⟩
  · intro session hsession hid
    obtain ⟨hwait, target, htarget, haimed⟩ := aimed session hsession hid
    have hcurrent := (active session hsession).2.2
    obtain ⟨haimed', hwait', -⟩ := haimed.onBusEvent response hwait
      (hok (hcurrent ▸ hid)).1
    exact ⟨hwait', target, htarget, haimed'⟩
  · intro p hp result hresult
    obtain hold | hnew := List.mem_append.mp hp
    · exact events p hold result hresult
    · obtain ⟨e, he, hpost⟩ := List.mem_filterMap.mp hnew
      obtain ⟨info, rfl, hscanned, hevent, heffect, hmaster⟩ := scanned_of_result hpost hresult
      obtain ⟨rfl, haddress, hid, -, -⟩ := scanResult_eq_some hresult
      rw [hevent, onHandlerProtocol_sessionId] at hid
      cases hsession : d.reactor.scheduler.activeItem with
      | none => exact absurd (idle hsession) hid
      | some session =>
          obtain ⟨hknown, hsame, hcurrent⟩ := active session hsession
          obtain ⟨hwait, target, htarget, haimed⟩ := aimed session hsession (hcurrent ▸ hid)
          obtain ⟨hquiet, hown⟩ := hok hid
          obtain ⟨-, -, hnames⟩ := haimed.onBusEvent response hwait hquiet
          have hforeign := hown _ he hscanned
          refine ⟨?_, session.item.ticket, session.item.message, target, ?_, ?_, htarget, ?_⟩
          · intro e' he'
            obtain rfl := Option.some.inj (heffect.symm.trans he')
            exact hforeign
          · rw [Reactor.post_session hpost, Scheduler.activeTicket, hsession]
            rfl
          · rw [hevent, onHandlerProtocol_sessionId, hcurrent, hsame]
            exact hknown
          · rw [haddress, hmaster]
            exact hnames _ he hforeign

theorem enqueueAt_accurate {d : Scans} (hi : Accurate d) (priority : UInt8)
    (message : List UInt8) (due : Int) (pollId : UInt16) :
    Accurate (step d (.reactor (.enqueueAt priority message due pollId))) := by
  obtain ⟨counted, queued, active, idle, aimed, events, results⟩ := hi
  simp only [step, Reactor.step, enqueuedBy, resultsOf, List.append_nil]
  obtain ⟨-, heq⟩ | ⟨-, heq⟩ :=
    d.reactor.scheduler.enqueueAt_cases priority message due pollId
  · rw [heq]
    refine ⟨by simp [counted], fun item hitem => (queued item hitem).append, ?_, idle, aimed,
      fun p hp result hresult => (events p hp result hresult).append,
      fun result hresult => (results result hresult).append⟩
    intro session hsession
    exact ⟨(active session hsession).1.append, (active session hsession).2⟩
  · rw [heq]
    refine ⟨by simp [counted], ?_, ?_, idle, aimed,
      fun p hp result hresult => (events p hp result hresult).append,
      fun result hresult => (results result hresult).append⟩
    · intro item hitem
      obtain hold | hnew := List.mem_append.mp hitem
      · exact (queued item hold).append
      · obtain rfl := List.mem_singleton.mp hnew
        simp [Known, ← counted]
    · intro session hsession
      exact ⟨(active session hsession).1.append, (active session hsession).2⟩

theorem tick_accurate {d : Scans} (hi : Accurate d) {now : Int}
    (hok : Keeps d (.reactor (.tick now))) : Accurate (step d (.reactor (.tick now))) := by
  obtain ⟨counted, queued, active, idle, aimed, events, results⟩ := hi
  obtain ⟨htimeout, hstarts⟩ := hok
  simp only [step, Reactor.step, enqueuedBy, resultsOf, List.append_nil]
  obtain ⟨session, hsession, hlate, heq⟩ | heq |
      ⟨top, others, refused, hidle, hpop, hstart, hrefused, htaken, heq⟩ :=
    d.reactor.tick_rule now <;> rw [heq]
  · refine ⟨counted, queued, active, idle, ?_, ?_, results⟩
    · intro other hother hid
      obtain ⟨-, target, htarget, -⟩ := aimed other hother hid
      refine ⟨?_, target, htarget, d.reactor.handler.aimed_reset target⟩
      rw [Handler.reset_eq]
      simp
    · intro p hp result hresult
      obtain hold | hnew := List.mem_append.mp hp
      · exact events p hold result hresult
      · obtain rfl := List.mem_singleton.mp hnew
        obtain ⟨hposted, haddress, hid, -, -⟩ := scanResult_eq_some hresult
        obtain ⟨hknown, hsame, -⟩ := active session hsession
        obtain ⟨-, target, htarget, -⟩ := aimed session hsession hid
        refine ⟨by simp [hposted], session.item.ticket, session.item.message, target, ?_, ?_,
          htarget, ?_⟩
        · rw [hposted]
        · rw [hposted]
          show d.enqueued[_]? = some (session.sessionId, _)
          rw [hsame]
          exact hknown
        · rw [haddress]
          show (StaticSequence.assign _ session.item.message)[1]? = _
          rw [assign_second, htimeout session hsession hlate hid, htarget]
  · exact ⟨counted, queued, active, idle, aimed, events, results⟩
  · have hperm := Scheduler.popGreatest_perm hpop
    have htop : Known d.enqueued top := queued top (hperm.mem_iff.mpr (List.mem_cons_self ..))
    refine ⟨counted, ?_, ?_, by simp, ?_, ?_, results⟩
    · intro item hitem
      exact queued item (hperm.mem_iff.mpr (List.mem_cons_of_mem _ hitem))
    · rintro session ⟨rfl⟩
      exact ⟨htop, rfl, rfl⟩
    · rintro session ⟨rfl⟩ hid
      obtain ⟨hrest, haccepted⟩ := hstarts top hstart hid
      obtain ⟨target, htarget, haimed⟩ := Handler.aimed_sendActiveMessage hrest haccepted
      refine ⟨?_, target, htarget, haimed⟩
      intro hstate
      have hengaged := hrest.1
      rw [← d.reactor.handler.sendActiveMessage_state top.message, hstate] at hengaged
      cases hengaged
    · intro p hp result hresult
      obtain hold | hnew := List.mem_append.mp hp
      · exact events p hold result hresult
      · obtain ⟨-, -, hid, -, -⟩ := scanResult_eq_some hresult
        rw [(hrefused p hnew).2.1] at hid
        obtain ⟨-, haccepted⟩ := hstarts top hstart hid
        rw [htaken haccepted] at hnew
        cases hnew

theorem processPublicEvent_accurate {d : Scans} (hi : Accurate d) (now : Int) :
    Accurate (step d (.reactor (.processPublicEvent now))) := by
  obtain ⟨counted, queued, active, idle, aimed, events, results⟩ := hi
  simp only [step, Reactor.step, Reactor.processPublicEvent, enqueuedBy, resultsOf,
    List.append_nil]
  cases hqueue : d.reactor.protocolQueue with
  | nil => exact ⟨counted, queued, active, idle, aimed, by simp [hqueue], by simpa using results⟩
  | cons posted rest =>
      have hrest : ∀ p ∈ rest, ∀ result, scanResult p = some result → Right d.enqueued result :=
        fun p hp => events p (by rw [hqueue]; exact List.mem_cons_of_mem _ hp)
      have hresults : ∀ result ∈ d.results ++
          ((posted :: rest).head?.bind scanResult).toList, Right d.enqueued result := by
        intro result hresult
        obtain hold | hnew := List.mem_append.mp hresult
        · exact results result hold
        · refine events posted (by rw [hqueue]; exact List.mem_cons_self ..) result ?_
          simpa using hnew
      dsimp only
      obtain heq | ⟨session, hsession, -, -, hend⟩ :=
        d.reactor.scheduler.injectProtocolEvent_cases posted.event now
      · rw [heq]
        exact ⟨counted, queued, active, idle, aimed, hrest, hresults⟩
      · have hknown : Known d.enqueued (Scheduler.countAttempt posted.event session.item) := by
          unfold Scheduler.countAttempt
          split <;> exact (active session hsession).1
        have hidle : Accurate
            { d with reactor := { d.reactor with
                scheduler := d.reactor.scheduler.idle, protocolQueue := rest }
                     results := d.results ++ ((posted :: rest).head?.bind scanResult).toList } :=
          ⟨counted, queued, by simp [Scheduler.idle], fun _ => rfl, by simp [Scheduler.idle],
            hrest, hresults⟩
        obtain ⟨-, -, heq⟩ | ⟨-, heq⟩ := hend
        · rw [heq]
          obtain ⟨-, hrequeue⟩ | ⟨-, hrequeue⟩ := d.reactor.scheduler.requeue_cases
            (Scheduler.countAttempt posted.event session.item) now
          · rw [hrequeue]
            exact hidle
          · rw [hrequeue]
            refine ⟨counted, ?_, by simp, fun _ => rfl, by simp, hrest, hresults⟩
            intro item hitem
            obtain hold | hnew := List.mem_append.mp hitem
            · exact queued item hold
            · obtain rfl := List.mem_singleton.mp hnew
              exact hknown
        · rw [heq]
          exact hidle

theorem loseEvent_accurate {d : Scans} (hi : Accurate d) (index : Nat) :
    Accurate (step d (.reactor (.discardEvent index))) := by
  obtain ⟨counted, queued, active, idle, aimed, events, results⟩ := hi
  simp only [step, Reactor.step, Reactor.discardEvent, enqueuedBy, resultsOf, List.append_nil]
  split
  · exact ⟨counted, queued, active, idle, aimed,
      fun p hp => events p (List.mem_of_mem_eraseIdx hp), results⟩
  · exact ⟨counted, queued, active, idle, aimed, events, results⟩

theorem step_accurate (d : Scans) (action : Action) (hi : Accurate d) (hok : Keeps d action) :
    Accurate (step d action) := by
  cases action with
  | reactor action =>
      cases action with
      | busEvent event response => exact busEvent_accurate hi hok
      | requestExternal address =>
          obtain ⟨counted, queued, active, idle, aimed, events, results⟩ := hi
          simp only [step, Reactor.step, enqueuedBy, resultsOf, List.append_nil]
          refine ⟨counted, queued, active, idle, ?_, events, results⟩
          intro session hsession hid
          obtain ⟨hwait, target, htarget, message, exchange, slave, master⟩ :=
            aimed session hsession hid
          exact ⟨hwait, target, htarget, message, exchange, slave, master⟩
      | enqueueAt priority message due pollId =>
          exact enqueueAt_accurate hi priority message due pollId
      | tick now => exact tick_accurate hi hok
      | processPublicEvent now => exact processPublicEvent_accurate hi now
      | discardEvent index => exact loseEvent_accurate hi index
  | discardEvent =>
      obtain ⟨counted, queued, active, idle, aimed, events, results⟩ := hi
      exact ⟨counted, queued, active, idle, aimed,
        fun p hp => events p (List.mem_of_mem_tail hp), results⟩

/-- In runs whose steps keep to the conditions, the scanner is told about targets only. -/
theorem run_results_right (address : UInt8) (request : Request) (maxAttempts : UInt8)
    (baseBackoff totalTimeout : Int) (actions : List Action)
    (meets : Runs.Meets step Keeps (create address request maxAttempts baseBackoff totalTimeout)
      actions) :
    let d := Runs.run step (create address request maxAttempts baseBackoff totalTimeout) actions
    ∀ result ∈ d.results, Right d.enqueued result := by
  have start : Accurate (create address request maxAttempts baseBackoff totalTimeout) := by
    constructor <;> simp [create, Reactor.create]
  exact (Runs.invariant step_accurate start meets).results

/-- The start with the default configuration. -/
def fresh : Scans := create 0xff {} 3 100000 2000000

/-- The device at 0x08 is asked for its identification. -/
def startScan : List Reactor.Action := [.enqueueAt 1 [0x08, 0x07, 0x04, 0x00] 0 0, .tick 0]

/-- It answers that it has nothing to say. -/
def finishedScan : List Action := List.map .reactor <|
  startScan ++ Reactor.obtainBus 0xff ++
    Reactor.feed [0x08, 0x07, 0x04, 0x00, 0x51, Symbols.ack, 0x00, 0x00, Symbols.ack] ++
    [.processPublicEvent 0, .processPublicEvent 0]

theorem run_results_right_finishedScan :
    Runs.Meets step Keeps fresh finishedScan ∧
    (Runs.run step fresh finishedScan).results.map ScanResult.address = [some 0x08] ∧
    ∀ result ∈ (Runs.run step fresh finishedScan).results,
      Right (Runs.run step fresh finishedScan).enqueued result :=
  have hmeets : Runs.Meets step Keeps fresh finishedScan := by decide +kernel
  ⟨hmeets, by decide +kernel, run_results_right 0xff {} 3 100000 2000000 _ hmeets⟩

/-- Nothing happens on the bus until the time is up. -/
def timedOut : List Action := List.map .reactor <|
  startScan ++ [.tick 2000000001, .processPublicEvent 2000000001]

/-- A message without data is refused. -/
def refused : List Action := List.map .reactor
  [.enqueueAt 1 [0x08] 0 0, .tick 0, .processPublicEvent 0]

/-- Another master talks to the device at 0x15 while the own message waits. -/
def observed : List Action := List.map .reactor <|
  startScan ++ Reactor.feed [Symbols.syn, 0x03, 0x15, 0x07, 0x04, 0x00, 0xae, Symbols.ack, 0x00,
    0x00, Symbols.ack] ++ [.processPublicEvent 0]

/-- A timeout is charged to the byte behind the target, a refused message to a byte that is not
there, and the success of another master to its device. -/
theorem results_of_other_addresses :
    (¬ ∀ actions, ∀ result ∈ (Runs.run step fresh actions).results,
      Right (Runs.run step fresh actions).enqueued result) ∧
    (Runs.run step fresh timedOut).results.map ScanResult.address = [some 0x07] ∧
    (Runs.run step fresh refused).results.map ScanResult.address = [none] ∧
    (Runs.run step fresh observed).results.map ScanResult.address = [some 0x15] := by
  have hrefused : (Runs.run step fresh refused).results.map ScanResult.address = [none] := by
    decide
  refine ⟨?_, by decide +kernel, hrefused, by decide +kernel⟩
  intro hall
  have hmem : none ∈ (Runs.run step fresh refused).results.map ScanResult.address := by
    rw [hrefused]
    exact List.mem_singleton_self none
  obtain ⟨result, hresult, hnone⟩ := List.mem_map.mp hmem
  obtain ⟨-, ticket, message, target, -, -, -, haddress⟩ := hall refused result hresult
  rw [hnone] at haddress
  cases haddress

end Scans

end Ebus
