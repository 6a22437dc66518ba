import Ebus.Verification.Guards
import Ebus.Verification.Silence
import Ebus.Verification.Transmission

/-!
# What the engine sends for an answer

A read request for the own slave address is acknowledged and answered with one byte for each
byte that is read. This module describes the whole of it (`Answer`): the acknowledge, the
answer from its first byte to its last, and the answer once more behind a reject. The index
of the answer must start at zero for that, so the condition is the one that keeps the guards
quiet.
-/

namespace Ebus

open Sequence

/-- The payload of the callback as `NN DBx`, without a check sum behind it. -/
def payload (response : Sequence) : List UInt8 :=
  response.reduce.bytes.take (1 + (response.reduce.get 0).toNat)

/-- What is to be sent of an answer: it is repeated if its first acknowledge is a NAK. This
acknowledge comes behind the echoes of the own acknowledge and of the answer. -/
def answerTrace (bytes received : List UInt8) : List UInt8 :=
  Symbols.ack :: bytes ++ if received[bytes.length + 1]? = some Symbols.nak then bytes else []

/-- The report of an answered read request. -/
def Effect.isAnswer : Effect → Bool
  | .protocol info =>
      !info.isError && info.messageType = .reactive && info.telegramType = .masterSlave
  | _ => false

structure Answer (part : List UInt8) (turns : List Turn) : Prop where
  trace : written turns <+: answerTrace (wire part) (received turns)
  /-- an answer is reported with the ACK behind the whole of it -/
  reported : Log.AtEach (fun before turn => ∀ e ∈ turn.effects, e.isAnswer = true →
    turn.byte = Symbols.ack ∧ (written before = Symbols.ack :: wire part ∨
      written before = Symbols.ack :: wire part ++ wire part)) turns

/-- The callback has been asked. -/
def Effect.asked : Effect → Bool
  | .reactive _ => true
  | _ => false

/-- The report of an answer comes from the state that awaits its ACK. -/
def Effect.AnswerFrom (state : HandlerState) (byte : UInt8) (e : Effect) : Prop :=
  e.isAnswer = true → state = .reactiveReceiveSlaveAcknowledge ∧ byte = Symbols.ack

theorem answerTrace_concat (bytes received : List UInt8) (byte : UInt8) :
    answerTrace bytes received <+: answerTrace bytes (received ++ [byte]) := by
  unfold answerTrace
  split
  · rename_i hnak
    have hlt : bytes.length + 1 < received.length := by
      by_contra hge
      rw [List.getElem?_eq_none (by omega)] at hnak
      cases hnak
    rewrite [List.getElem?_append_left hlt, if_pos hnak]
    exact List.prefix_refl _
  · rw [List.append_nil]
    exact List.prefix_append _ _

theorem Answer.concat {part : List UInt8} {turns : List Turn} {turn : Turn}
    (h : Answer part turns)
    (trace : written turns ++ turn.writes <+: answerTrace (wire part) (received (turns ++ [turn])))
    (reported : ∀ e ∈ turn.effects, e.isAnswer = true → turn.byte = Symbols.ack ∧
      (written turns = Symbols.ack :: wire part ∨
        written turns = Symbols.ack :: wire part ++ wire part)) :
    Answer part (turns ++ [turn]) := by
  refine ⟨by rwa [written_concat], ?_⟩
  rw [Log.atEach_append, Log.atEach_cons]
  exact ⟨h.reported, by simpa using reported, Log.atEach_nil _⟩

namespace Handler

/-- The answer as it is sent: `received` are the bytes read since the acknowledge. -/
inductive Progress (bytes received written : List UInt8) (h : Handler) : Prop where
  | acknowledged (hs : h.state = .reactiveSendMasterPositiveAcknowledge)
      (hindex : h.passiveSlaveIndex = 0) (hreceived : received = [])
      (hwritten : written = [Symbols.ack])
  | sending (again : Bool) (hs : h.state = .reactiveSendSlave)
      (hindex : h.passiveSlaveIndex < bytes.length)
      (hagain : again = true → h.passiveSlaveRepeated = true ∧
        received[bytes.length + 1]? = some Symbols.nak)
      (hfirst : again = false → received.length = h.passiveSlaveIndex + 1)
      (hwritten : written = Symbols.ack :: (if again then bytes else []) ++
        bytes.take (h.passiveSlaveIndex + 1))
  | sent (again : Bool) (hs : h.state = .reactiveReceiveSlaveAcknowledge)
      (hagain : again = true → h.passiveSlaveRepeated = true ∧
        received[bytes.length + 1]? = some Symbols.nak)
      (hfirst : again = false → received.length = bytes.length + 1)
      (hwritten : written = Symbols.ack :: (if again then bytes else []) ++ bytes)

section Step

variable {h d : Handler} {byte : UInt8} {response : Sequence} {bytes received written : List UInt8}

theorem Progress.replying (hp : Progress bytes received written h) :
    replying h.state = true := by
  cases hp <;> simp_all [Handler.replying]

theorem Progress.trace (hp : Progress bytes received written h) :
    written <+: answerTrace bytes received := by
  unfold answerTrace
  cases hp with
  | acknowledged _ _ _ hwritten => simp [hwritten]
  | sending again _ _ hagain _ hwritten =>
      cases again with
      | false =>
          rw [hwritten]
          simpa using (List.take_prefix _ _).trans (List.prefix_append _ _)
      | true =>
          rw [hwritten, if_pos (hagain rfl).2]
          simpa using List.take_prefix _ _
  | sent again _ hagain _ hwritten =>
      cases again with
      | false => simp [hwritten]
      | true => simp [hwritten, (hagain rfl).2]

theorem Progress.congr (hp : Progress bytes received written h) (hstate : d.state = h.state)
    (hindex : d.passiveSlaveIndex = h.passiveSlaveIndex)
    (hrepeated : d.passiveSlaveRepeated = h.passiveSlaveRepeated) :
    Progress bytes received written d := by
  cases hp with
  | acknowledged hs hzero hreceived hwritten =>
      exact .acknowledged (hstate.trans hs) (hindex.trans hzero) hreceived hwritten
  | sending again hs hlt hagain hfirst hwritten =>
      rw [← hindex] at hlt hfirst hwritten
      rw [← hrepeated] at hagain
      exact .sending again (hstate.trans hs) hlt hagain hfirst hwritten
  | sent again hs hagain hfirst hwritten =>
      rw [← hrepeated] at hagain
      exact .sent again (hstate.trans hs) hagain hfirst hwritten

/-- The ACK for an answer comes behind the whole of it. -/
theorem Progress.complete (hp : Progress bytes received written h)
    (hs : h.state = .reactiveReceiveSlaveAcknowledge) :
    written = Symbols.ack :: bytes ∨ written = Symbols.ack :: bytes ++ bytes := by
  cases hp with
  | acknowledged hs' => simp [hs] at hs'
  | sending _ hs' => simp [hs] at hs'
  | sent again _ _ _ hwritten =>
      cases again with
      | false => exact .inl (by simpa using hwritten)
      | true => exact .inr (by simpa using hwritten)

/-- A byte behind the acknowledge of the answer does not change it. -/
theorem getElem?_concat {i : Nat} (hi : received[i]? = some Symbols.nak) :
    (received ++ [byte])[i]? = some Symbols.nak := by
  have hlt : i < received.length := by
    by_contra hge
    rw [List.getElem?_eq_none (by omega)] at hi
    cases hi
  rw [List.getElem?_append_left hlt, hi]

/-- One event of an answer: it goes on, or the engine leaves it without a word. -/
theorem Branch.answers (hp : Progress bytes received written h)
    (hbytes : h.passiveSlave.bytes = bytes) (hne : bytes ≠ []) (hquiet : h.pendingWrite = none)
    (hb : Branch h byte response d) :
    (Progress bytes (received ++ [byte]) (written ++ d.pendingWrite.toList) d ∧
      d.passiveSlave = h.passiveSlave) ∨
    replying d.state = false ∧ d.pendingWrite = none := by
  have hsize : h.passiveSlave.size = bytes.length := congrArg List.length hbytes
  have hget (i : Nat) (hi : i < bytes.length) :
      bytes.take i ++ [h.passiveSlave.get i] = bytes.take (i + 1) := by
    rw [← hbytes] at hi ⊢
    rw [List.take_add_one, List.getElem?_eq_getElem hi]
    simp [Sequence.get, hi]
  have hpos : 0 < bytes.length := List.length_pos_of_ne_nil hne
  have hreplying := hp.replying
  cases hb
  case sendsFirst hs _ _ =>
    cases hp with
    | acknowledged _ hindex hreceived hwritten =>
        refine .inl ⟨.sending false rfl ?_ (by simp) ?_ ?_, rfl⟩
        · simpa [hindex] using hpos
        · simp [hindex, hreceived]
        · have hfirst := hget 0 hpos
          simp [hindex, hwritten, ← hfirst]
    | sending _ hs' => simp [hs] at hs'
    | sent _ hs' => simp [hs] at hs'
  case sentSlave hs hindex =>
    cases hp with
    | acknowledged hs' => simp [hs] at hs'
    | sending again _ hlt hagain hfirst hwritten =>
        have hlast : h.passiveSlaveIndex + 1 = bytes.length := by omega
        refine .inl ⟨.sent again rfl ?_ ?_ ?_, rfl⟩
        · exact fun ha => ⟨(hagain ha).1, getElem?_concat (hagain ha).2⟩
        · intro ha
          rw [List.length_append, hfirst ha, hlast]
          rfl
        · simp [hquiet, hwritten, hlast]
    | sent _ hs' => simp [hs] at hs'
  case sendsNext hs hindex =>
    cases hp with
    | acknowledged hs' => simp [hs] at hs'
    | sending again _ hlt hagain hfirst hwritten =>
        refine .inl ⟨.sending again (by simpa using hs) ?_ ?_ ?_ ?_, rfl⟩
        · simpa [← hsize] using hindex
        · exact fun ha => ⟨(hagain ha).1, getElem?_concat (hagain ha).2⟩
        · intro ha
          rw [List.length_append, hfirst ha]
          rfl
        · have hnext := hget (h.passiveSlaveIndex + 1) (hsize ▸ hindex)
          simp [hwritten, ← hnext]
    | sent _ hs' => simp [hs] at hs'
  case answerNacked hs hbyte hrep =>
    cases hp with
    | acknowledged hs' => simp [hs] at hs'
    | sending _ hs' => simp [hs] at hs'
    | sent again _ hagain hfirst hwritten =>
        have hnot : again = false := by
          by_contra ha
          simp [(hagain (by simpa using ha)).1] at hrep
        refine .inl ⟨.sending true rfl hpos ?_ (by simp) ?_, rfl⟩
        · refine fun _ => ⟨rfl, ?_⟩
          rw [← hfirst hnot, List.getElem?_concat_length, hbyte]
        · have hfirst := hget 0 hpos
          simp [hwritten, hnot, ← hfirst]
  case nothingToSend hs _ hindex =>
    cases hp with
    | acknowledged _ hzero _ _ => omega
    | sending _ hs' => simp [hs] at hs'
    | sent _ hs' => simp [hs] at hs'
  case refused hs _ _ _ _ => exact absurd hreplying (by simp [hs, replying])
  -- the other branches end the answer, or begin in a state without one
  all_goals
    first
    | exact .inr ⟨rfl, hquiet⟩
    | exact absurd hreplying (by simp [replying, *])

/-- An answer is reported with the ACK that comes for it. -/
theorem Branch.reportsAnswer (hb : Branch h byte response d) (hlog : h.log = []) :
    Log.Each (Effect.AnswerFrom h.state byte) d.log := by
  have hbuffered : Log.Each (Effect.AnswerFrom h.state byte) (h.bufferMaster byte).log := by
    rw [bufferMaster_log, hlog]
    split <;> simp [Effect.AnswerFrom, Effect.isAnswer]
  have hchecked : Log.Each (Effect.AnswerFrom h.state byte) (h.checkedMaster byte).log := by
    rw [checkedMaster, createPassiveMaster_log, Log.each_append]
    exact ⟨hbuffered, by simp [Effect.AnswerFrom, Effect.isAnswer]⟩
  cases hb
  case buffered => exact hbuffered
  case syn =>
    apply receiveSyn_rule (P := fun a => Log.Each (Effect.AnswerFrom h.state byte) a.log)
    · simp [hlog]
    · intro _ _
      simp [hlog, Effect.AnswerFrom, Effect.isAnswer]
    · intro a ha _ _
      simp [ha, Effect.AnswerFrom, Effect.isAnswer]
    · intro a ha _
      exact ha
  case answerAcked hs hbyte => simp [hlog, hs, hbyte, Effect.AnswerFrom]
  case refused ht =>
    obtain ⟨-, rfl⟩ | ⟨-, rfl⟩ := ht <;> subst_vars <;>
      simp [hchecked, Effect.AnswerFrom, Effect.isAnswer]
  all_goals
    subst_vars
    simp [hlog, hchecked, Effect.AnswerFrom, Effect.isAnswer, answered, checkedSlave,
      checkedActiveSlave]

/-- The answer that is sent is the wire form of the payload. -/
theorem answerBytes_of_response {a : Handler}
    (hslave : (a.answered response).passiveTelegram.slaveState = .seqOk) :
    SlavePart (payload response) ∧
      (a.answered response).answerBytes.bytes = wire (payload response) := by
  rw [answered_passiveTelegram, Telegram.createSlave] at hslave
  obtain ⟨error, _, hbad, -, heq⟩ | ⟨part, crc, state, hpart, -, hbytes, heq⟩ :=
    Telegram.checkSlave_cases a.passiveTelegram response.reduce_extended
  · rw [heq] at hslave
    exact absurd (.inl hslave) hbad
  · have hslaves : (a.answered response).passiveTelegram.slave = { bytes := part } ∧
        (a.answered response).passiveTelegram.slaveCrc = crc := by
      rw [answered_passiveTelegram, Telegram.createSlave, heq]
      exact ⟨rfl, rfl⟩
    rw [heq] at hslave
    obtain ⟨rest, hreceived, hcrc⟩ : ∃ rest, response.reduce.bytes = part ++ rest ∧
        crc = calculateCRC part false := by
      obtain ⟨hbytes, hcrc, -⟩ | ⟨hbytes, hcrc⟩ := hbytes
      · exact ⟨[], by simpa using hbytes, hcrc⟩
      · exact ⟨[crc], hbytes, hcrc.mp hslave⟩
    have hpayload : payload response = part := by
      have hcount : response.reduce.get 0 = part.getD 0 0 := by
        have hpos : 0 < part.length := List.length_pos_of_ne_nil hpart.ne_nil
        rw [Sequence.get, hreceived, List.getD_eq_getElem?_getD, List.getElem?_append_left hpos,
          List.getD_eq_getElem?_getD]
      rw [payload, hcount, hreceived, ← hpart.length, List.take_left]
    refine ⟨hpayload ▸ hpart, ?_⟩
    rw [answerBytes, hslaves.1, hslaves.2, extend_of_logical rfl, hcrc, hpayload]
    rfl

/-- How the engine comes to an acknowledge: a message for its master address is acknowledged
only, and for its slave address the answer stands ready. -/
structure Takes (h d : Handler) (response : Sequence) : Prop where
  receiving : h.state = .passiveReceiveMaster
  index : d.passiveSlaveIndex = h.passiveSlaveIndex
  pending : d.pendingWrite = some Symbols.ack
  answer : (d.passiveTelegram.telegramType = .masterMaster ∧ d.log.any Effect.asked = false) ∨
    (d.log.any Effect.asked = true ∧ SlavePart (payload response) ∧
      d.passiveSlave.bytes = wire (payload response))

theorem Branch.takes (hwf : TelegramsWellFormed h) (haddress : isMaster h.sourceAddress = true)
    (hlog : h.log = []) (hb : Branch h byte response d)
    (hd : d.state = .reactiveSendMasterPositiveAcknowledge) : Takes h d response := by
  have htype := @forSource_type h byte hwf.passive haddress
  have hchecked : (h.checkedMaster byte).log.any Effect.asked = false := by
    rw [checkedMaster, createPassiveMaster_log, bufferMaster_log, hlog]
    split <;> rfl
  cases hb
  case forSource hs hm _ hok _ haddr =>
    subst hm
    refine ⟨hs, rfl, rfl, .inl ⟨htype hok haddr, ?_⟩⟩
    simp [hchecked, Effect.asked]
  case forTarget m a hs hm _ _ _ _ _ ha hslave =>
    subst ha
    obtain ⟨hpart, hbytes⟩ := answerBytes_of_response hslave
    generalize Handler.answerBytes _ = answer at hbytes
    subst hm
    refine ⟨hs, by simp, by simp, .inr ⟨?_, hpart, by simpa using hbytes⟩⟩
    simp [answered, Effect.asked]
  case syn hs _ =>
    rw [receiveSyn_state, hs] at hd
    cases hd
  -- the other branches lead to other states
  all_goals first
    | cases hd
    | (subst_vars; simp_all)

/-- The states of an answer are reached from the acknowledge only. -/
theorem Branch.answering_of (hb : Branch h byte response d) (hd : answering d.state = true) :
    replying h.state = true ∧ (h.state = .reactiveSendMasterPositiveAcknowledge →
      h.passiveTelegram.telegramType ≠ .masterMaster) := by
  cases hb
  case syn hs _ =>
    rw [receiveSyn_state, hs] at hd
    cases hd
  all_goals
    subst_vars
    simp_all [answering, replying]

end Step

end Handler

/-- The engine beside a record of the last answer: what the callback has left for it and, for
each event since the acknowledge, the byte read and what the engine did. No function of the
engine reads the record. -/
structure Desk where
  handler : Handler
  response : Sequence := {}
  turns : List Turn := []
  /-- the exchange goes on -/
  serving : Bool := false
  deriving DecidableEq, Repr

namespace Desk

open BusHandler (Action)
open Handler
open Line (turnOf)

def busEvent (d : Desk) (event : BusEvent) (response : Sequence) : Desk :=
  let handler := BusHandler.onBusEvent { d.handler with log := [] } event response
  let turn : Turn := { byte := event.byte, effects := handler.log, state := handler.state }
  if handler.log.any Effect.asked && handler.state == .reactiveSendMasterPositiveAcknowledge then
    { handler, response, turns := [turn], serving := true }
  else if d.serving && replying (d.handler.requestedState event) then
    { d with handler, turns := d.turns ++ [turn], serving := replying handler.state }
  else { d with handler, serving := false }

def step (d : Desk) : Action → Desk
  | .busEvent event response => d.busEvent event response
  | action =>
      let handler := BusHandler.step d.handler action
      { d with handler, serving := d.serving && replying handler.state }

/-- No start bit, and no flag of an own request while bytes of an answer are out. -/
def Undisturbed (d : Desk) : Action → Prop
  | .busEvent event _ => event.startBit = false ∧ d.handler.AnswerUndisturbed event
  | _ => True

instance (d : Desk) : (action : Action) → Decidable (d.Undisturbed action)
  | .busEvent _ _ => inferInstanceAs (Decidable (_ ∧ _))
  | .sendActiveMessage _ | .resetHandler | .requestExternal _ | .resetRequest
  | .setLockCounter _ => .isTrue trivial

/-- What the record says about the engine between events. -/
structure Served (d : Desk) : Prop where
  telegrams : d.handler.TelegramsWellFormed
  guarded : d.handler.Guarded
  part : d.turns ≠ [] → SlavePart (payload d.response)
  answer : d.turns ≠ [] → Answer (payload d.response) d.turns
  serving : d.serving = true → d.turns ≠ [] ∧
    d.handler.passiveSlave.bytes = wire (payload d.response) ∧
    Progress (wire (payload d.response)) (received d.turns) (written d.turns) d.handler
  idle : answering d.handler.state = true ∨
    d.handler.state = .reactiveSendMasterPositiveAcknowledge ∧
      d.handler.passiveTelegram.telegramType ≠ .masterMaster → d.serving = true
  reports : ∀ e ∈ d.handler.log, e.isAnswer = true → ∃ turn ∈ d.turns, e ∈ turn.effects

theorem replying_of_answering {state : HandlerState} (hs : answering state = true) :
    replying state = true := by
  cases state <;> simp_all [answering, replying]

theorem replying_cases {state : HandlerState} (hs : replying state = true) :
    state = .reactiveSendMasterPositiveAcknowledge ∨ answering state = true := by
  cases state <;> simp_all [answering, replying]

section Event

variable {d : Desk} {event : BusEvent} {response : Sequence} {b : Handler}

/-- The engine as its state function finds it. -/
def entered (d : Desk) (event : BusEvent) : Handler :=
  Handler.ready { d.handler with log := [] } event

theorem asked_flush (b : Handler) : b.flush.log.any Effect.asked = b.log.any Effect.asked := by
  obtain hflush | ⟨byte, hflush⟩ := b.flush_cases <;> simp [hflush, Effect.asked]

theorem isAnswer_of_flush {e : Effect} (he : e ∈ b.flush.log) (hanswer : e.isAnswer = true) :
    e ∈ b.log := by
  obtain hflush | ⟨byte, hflush⟩ := b.flush_cases <;> rw [hflush] at he
  · exact he
  · obtain he | he := List.mem_append.mp he
    · exact he
    · rw [List.mem_singleton.mp he] at hanswer
      cases hanswer

/-- What an event finds of the engine, flags included. -/
theorem entered_eq (hquiet : event.startBit = false) : ∃ request, d.entered event =
    { d.handler with request, lastResult := request.result, pendingWrite := none,
                     state := d.handler.requestedState event, log := [] } := by
  obtain ⟨request, hready⟩ := Handler.ready_of_quiet { d.handler with log := [] } event hquiet
  exact ⟨request, hready⟩

/-- A reply that a flag leaves alone is still in its state. -/
theorem requestedState_of_replying (h : Handler)
    (hs : replying (h.requestedState event) = true) : h.requestedState event = h.state := by
  unfold requestedState at hs ⊢
  split
  · rename_i hflag
    rw [if_pos hflag] at hs
    cases hs
  · rfl

/-- What the record says about the engine that an event finds. -/
structure Entered (d : Desk) (event : BusEvent) : Prop where
  telegrams : (d.entered event).TelegramsWellFormed
  guarded : (d.entered event).Guarded
  log : (d.entered event).log = []
  quiet : (d.entered event).pendingWrite = none
  state : (d.entered event).state = d.handler.requestedState event
  kind : (d.entered event).passiveTelegram = d.handler.passiveTelegram
  slave : (d.entered event).passiveSlave = d.handler.passiveSlave
  progress : replying (d.handler.requestedState event) = true → ∀ {bytes received written},
    Progress bytes received written d.handler → Progress bytes received written (d.entered event)

theorem Served.entered (hi : d.Served) (hquiet : event.startBit = false)
    (hkept : d.handler.AnswerUndisturbed event) : Entered d event := by
  obtain ⟨address, index, answer, sending, message⟩ := hi.guarded
  have hguarded : Handler.Guarded { d.handler with log := [] } :=
    ⟨address, index, answer, sending, message⟩
  have htelegrams : Handler.TelegramsWellFormed { d.handler with log := [] } :=
    ⟨hi.telegrams.passive, hi.telegrams.active⟩
  obtain ⟨request, heq⟩ := d.entered_eq hquiet
  refine ⟨htelegrams.ready event, hguarded.ready hquiet hkept, ?_, ?_, ?_, ?_, ?_, ?_⟩
  case refine_6 =>
    intro hs bytes received written hp
    rw [heq]
    exact hp.congr (requestedState_of_replying _ hs) rfl rfl
  all_goals rw [heq]

theorem Entered.writes (he : Entered d event)
    (hb : Branch (d.entered event) event.byte response b) :
    (turnOf b event.byte).writes = b.pendingWrite.toList :=
  flush_writes (hb.silent (by rw [he.log]; rfl))

/-- A report of an answer comes with the ACK that the engine waits for. -/
theorem Entered.reports (he : Entered d event)
    (hb : Branch (d.entered event) event.byte response b) {e : Effect}
    (hmem : e ∈ b.flush.log) (hanswer : e.isAnswer = true) :
    d.handler.requestedState event = .reactiveReceiveSlaveAcknowledge ∧
      event.byte = Symbols.ack := by
  have hfrom := (hb.reportsAnswer he.log).of_mem (isAnswer_of_flush hmem hanswer) hanswer
  rwa [he.state] at hfrom

/-- The turn that opens an answer. -/
theorem Entered.opens (he : Entered d event)
    (hb : Branch (d.entered event) event.byte response b)
    (hasked : b.log.any Effect.asked = true)
    (hs : b.state = .reactiveSendMasterPositiveAcknowledge) :
    Served { handler := b.flush, response, turns := [turnOf b event.byte], serving := true } := by
  have htakes := hb.takes he.telegrams he.guarded.address he.log hs
  obtain ⟨hpart, hbytes⟩ : SlavePart (payload response) ∧
      b.passiveSlave.bytes = wire (payload response) := by
    obtain ⟨-, hnot⟩ | ⟨-, hanswer⟩ := htakes.answer
    · simp [hnot] at hasked
    · exact hanswer
  have hzero : b.passiveSlaveIndex = 0 :=
    htakes.index.trans (he.guarded.index (by rw [htakes.receiving]; rfl))
  have hwritten : written [turnOf b event.byte] = [Symbols.ack] := by
    simpa [written, htakes.pending] using he.writes hb
  obtain ⟨log, hflush⟩ := b.flush_eq
  have hp : Progress (wire (payload response)) [] [Symbols.ack] b.flush := by
    rw [hflush]
    exact .acknowledged hs hzero rfl rfl
  refine ⟨(hb.telegramsWellFormed he.telegrams).flush, (hb.guarded he.telegrams he.guarded).flush,
    fun _ => hpart, fun _ => ⟨?_, ?_⟩, fun _ => ⟨by simp, ?_, ?_⟩, fun _ => rfl, ?_⟩
  · rw [hwritten]
    exact hp.trace
  · rw [Log.atEach_cons]
    refine ⟨fun e hmem hanswer => ?_, Log.atEach_nil _⟩
    have hfrom := he.state.trans (he.reports hb hmem hanswer).1
    rw [htakes.receiving] at hfrom
    cases hfrom
  · rw [hflush]
    exact hbytes
  · rw [hwritten]
    exact hp
  · exact fun e hmem _ => ⟨_, List.mem_singleton_self _, hmem⟩

/-- A turn behind the acknowledge. -/
theorem Served.continues (hi : d.Served) (he : Entered d event)
    (hb : Branch (d.entered event) event.byte response b) (hserving : d.serving = true)
    (hs : replying (d.handler.requestedState event) = true) :
    Served { d with handler := b.flush, turns := d.turns ++ [turnOf b event.byte]
                    serving := replying b.flush.state } := by
  obtain ⟨hne, hbytes, hp⟩ := hi.serving hserving
  have hentered := he.progress hs hp
  have hreceived : received (d.turns ++ [turnOf b event.byte]) =
      received d.turns ++ [event.byte] := received_concat hne _
  have hnext := hb.answers hentered (by rw [he.slave]; exact hbytes)
    (by
      have hlength := length_wire_ge (payload d.response)
      intro hnil
      simp [hnil] at hlength)
    he.quiet
  obtain ⟨log, hflush⟩ := b.flush_eq
  refine ⟨(hb.telegramsWellFormed he.telegrams).flush, (hb.guarded he.telegrams he.guarded).flush,
    fun _ => hi.part hne, fun _ => (hi.answer hne).concat ?_ ?_, ?_, ?_, ?_⟩
  · rw [he.writes hb, hreceived]
    obtain ⟨hp', -⟩ | ⟨-, hquiet⟩ := hnext
    · exact hp'.trace
    · rw [hquiet, Option.toList_none, List.append_nil]
      exact hp.trace.trans (answerTrace_concat _ _ _)
  · intro e hmem hanswer
    obtain ⟨hfrom, hbyte⟩ := he.reports hb hmem hanswer
    exact ⟨hbyte, hentered.complete (he.state.trans hfrom)⟩
  · intro hreply
    dsimp only at hreply
    obtain ⟨hp', hslave⟩ | ⟨hleft, -⟩ := hnext
    · refine ⟨by simp, ?_, ?_⟩
      · rw [hflush]
        exact (congrArg Sequence.bytes (hslave.trans he.slave)).trans hbytes
      · rw [hreceived, written_concat, he.writes hb, hflush]
        exact hp'.congr rfl rfl rfl
    · rw [flush_state, hleft] at hreply
      cases hreply
  · rintro (hanswering | ⟨hack, -⟩)
    · exact replying_of_answering hanswering
    · dsimp only at hack ⊢
      rw [hack]
      rfl
  · exact fun e hmem _ => ⟨_, List.mem_concat_self, hmem⟩

/-- An event outside of the exchange. -/
theorem Served.idles (hi : d.Served) (he : Entered d event)
    (hb : Branch (d.entered event) event.byte response b)
    (hopen : ¬ (b.log.any Effect.asked = true ∧
      b.state = .reactiveSendMasterPositiveAcknowledge))
    (hidle : ¬ (d.serving = true ∧ replying (d.handler.requestedState event) = true)) :
    Served { d with handler := b.flush, serving := false } := by
  have hnot (hs : replying (d.handler.requestedState event) = true)
      (htype : d.handler.requestedState event = .reactiveSendMasterPositiveAcknowledge →
        d.handler.passiveTelegram.telegramType ≠ .masterMaster) : False := by
    refine hidle ⟨hi.idle ?_, hs⟩
    have hsame := requestedState_of_replying _ hs
    rw [hsame] at hs htype
    obtain hack | hanswering := replying_cases hs
    · exact .inr ⟨hack, htype hack⟩
    · exact .inl hanswering
  refine ⟨(hb.telegramsWellFormed he.telegrams).flush, (hb.guarded he.telegrams he.guarded).flush,
    hi.part, hi.answer, by simp, ?_, ?_⟩
  · obtain ⟨log, hflush⟩ := b.flush_eq
    rintro (hanswering | ⟨hack, htype⟩)
    · rw [flush_state] at hanswering
      obtain ⟨hs, hkind⟩ := hb.answering_of hanswering
      rw [he.state] at hs
      rw [he.state, he.kind] at hkind
      exact (hnot hs hkind).elim
    · dsimp only at hack htype
      rw [flush_state] at hack
      rw [hflush] at htype
      obtain ⟨hmaster, -⟩ | ⟨hasked, -⟩ :=
        (hb.takes he.telegrams he.guarded.address he.log hack).answer
      · exact absurd hmaster htype
      · exact absurd ⟨hasked, hack⟩ hopen
  · intro e hmem hanswer
    obtain ⟨hfrom, -⟩ := he.reports hb hmem hanswer
    exact (hnot (by rw [hfrom]; rfl) (by simp [hfrom])).elim

theorem Served.busEvent (hi : d.Served) (hquiet : event.startBit = false)
    (hkept : d.handler.AnswerUndisturbed event) : (d.busEvent event response).Served := by
  have he := hi.entered hquiet hkept
  obtain ⟨b, hb, heq⟩ := BusHandler.onBusEvent_branch { d.handler with log := [] } event response
  unfold Desk.busEvent
  rw [heq]
  dsimp only
  split
  · rename_i hopen
    rw [Bool.and_eq_true, beq_iff_eq, asked_flush, flush_state] at hopen
    exact he.opens hb hopen.1 hopen.2
  · rename_i hopen
    rw [Bool.and_eq_true, beq_iff_eq, asked_flush, flush_state] at hopen
    split
    · rename_i hgoes
      rw [Bool.and_eq_true] at hgoes
      exact hi.continues he hb hgoes.1 hgoes.2
    · rename_i hidle
      rw [Bool.and_eq_true] at hidle
      exact hi.idles he hb hopen hidle

end Event

/-- Actions that leave the answer alone, or end it. -/
theorem Served.congr {d : Desk} (hi : d.Served) {h : Handler}
    (telegrams : h.TelegramsWellFormed) (guarded : h.Guarded)
    (hstate : h.state = d.handler.state) (hslave : h.passiveSlave = d.handler.passiveSlave)
    (hkind : h.passiveTelegram = d.handler.passiveTelegram)
    (hindex : h.passiveSlaveIndex = d.handler.passiveSlaveIndex)
    (hrepeated : h.passiveSlaveRepeated = d.handler.passiveSlaveRepeated)
    (hlog : ∀ e ∈ h.log, e.isAnswer = true → e ∈ d.handler.log) :
    Served { d with handler := h, serving := d.serving && replying h.state } := by
  refine ⟨telegrams, guarded, hi.part, hi.answer, ?_, ?_, ?_⟩
  · intro hserving
    rw [Bool.and_eq_true] at hserving
    obtain ⟨hne, hbytes, hp⟩ := hi.serving hserving.1
    exact ⟨hne, hslave ▸ hbytes, hp.congr hstate hindex hrepeated⟩
  · intro hreply
    have hreplying : replying h.state = true := by
      obtain hanswering | ⟨hack, -⟩ := hreply
      · exact replying_of_answering hanswering
      · exact (congrArg replying hack).trans rfl
    refine Bool.and_eq_true_iff.mpr ⟨hi.idle ?_, hreplying⟩
    rwa [← hstate, ← hkind]
  · exact fun e hmem hanswer => hi.reports e (hlog e hmem hanswer) hanswer

theorem Served.step {d : Desk} (hi : d.Served) {action : Action} (hok : d.Undisturbed action) :
    (Desk.step d action).Served := by
  obtain ⟨address, index, answer, sending, message⟩ := hi.guarded
  cases action with
  | busEvent event response => exact hi.busEvent hok.1 hok.2
  | sendActiveMessage m =>
      have htelegrams := hi.telegrams.sendActiveMessage m
      have hguarded := hi.guarded.sendActiveMessage m
      unfold Desk.step
      dsimp only [BusHandler.step]
      obtain heq | ⟨t, -, -, -, heq⟩ | ⟨t, -, -, -, heq⟩ :=
        d.handler.sendActiveMessage_cases m <;> rw [heq] at htelegrams hguarded ⊢
      · exact hi.congr htelegrams hguarded rfl rfl rfl rfl rfl fun _ he _ => he
      · refine hi.congr htelegrams hguarded rfl rfl rfl rfl rfl fun e he hanswer => ?_
        obtain he | he := List.mem_append.mp he
        · exact he
        · rw [List.mem_singleton.mp he] at hanswer
          cases hanswer
      · refine hi.congr htelegrams hguarded rfl rfl rfl rfl rfl fun e he hanswer => ?_
        obtain he | he := List.mem_append.mp he
        · exact he
        · rw [List.mem_pair] at he
          obtain rfl | rfl := he <;> cases hanswer
  | resetHandler =>
      unfold Desk.step
      dsimp only [BusHandler.step]
      rw [reset_eq]
      refine ⟨⟨by simp, by simp⟩, ?_, hi.part, hi.answer, by simp [replying], by simp [answering],
        ?_⟩
      · constructor <;> simp [address]
      · intro e he hanswer
        refine hi.reports e ?_ hanswer
        simp only [callPassiveReset_log, callActiveReset_log, goto_log, List.append_assoc,
          List.mem_append] at he
        obtain he | he := he
        · exact he
        · simp only [List.mem_singleton] at he
          obtain rfl | rfl := he <;> cases hanswer
  | requestExternal a =>
      exact hi.congr ⟨hi.telegrams.passive, hi.telegrams.active⟩
        ⟨address, index, answer, sending, message⟩ rfl rfl rfl rfl rfl fun _ he _ => he
  | resetRequest =>
      exact hi.congr ⟨hi.telegrams.passive, hi.telegrams.active⟩
        ⟨address, index, answer, sending, message⟩ rfl rfl rfl rfl rfl fun _ he _ => he
  | setLockCounter n =>
      exact hi.congr ⟨hi.telegrams.passive, hi.telegrams.active⟩
        ⟨address, index, answer, sending, message⟩ rfl rfl rfl rfl rfl fun _ he _ => he

theorem served_create (address : UInt8) (request : Request) :
    Served { handler := Handler.create address request } := by
  refine ⟨?_, guarded_create address request, by simp, by simp, by simp, ?_, ?_⟩
  · constructor <;> simp [Handler.create]
  · simp [Handler.create, answering]
  · simp [Handler.create]

/-- In a run in which no own answer is disturbed by the own request, every answer is sent from
its first byte to its last, at most twice, and reported only with the ACK behind it. -/
theorem run_answers (address : UInt8) (request : Request) (actions : List Action)
    (hok : Runs.Meets step Undisturbed { handler := Handler.create address request } actions) :
    let d := Runs.run step { handler := Handler.create address request } actions
    (d.turns ≠ [] → SlavePart (payload d.response) ∧ Answer (payload d.response) d.turns) ∧
      (answering d.handler.state = true → d.serving = true) ∧
      ∀ e ∈ d.handler.log, e.isAnswer = true → ∃ turn ∈ d.turns, e ∈ turn.effects := by
  have hi := Runs.invariant (I := Served) (fun _ _ hi hok => hi.step hok)
    (served_create address request) hok
  exact ⟨fun hne => ⟨hi.part hne, hi.answer hne⟩, fun hs => hi.idle (.inl hs), hi.reports⟩

/-- A message that waits for the bus. -/
def waiting : List Action :=
  .sendActiveMessage [0x08, 0x07, 0x04, 0x00] :: BusHandler.feed [0xaa, 0xaa, 0xaa]

/-- A read request for the own slave address up to the echo of the acknowledge. -/
def asked (response : List UInt8) : List Action :=
  [0x03, 0x04, 0x07, 0x04, 0x00, 0x4a, 0x00].map fun byte =>
    .busEvent { byte } { bytes := response }

/-- An answer that is rejected once while an own message waits. -/
def answeredTwice : List Action :=
  waiting ++ asked [0x01, 0x55] ++ BusHandler.feed [0x01, 0x55, 0xce, 0xff, 0x01, 0x55, 0xce, 0x00]

theorem run_answers_answeredTwice :
    let d := Runs.run step { handler := Handler.create 0xff {} } answeredTwice
    written d.turns = [0x00, 0x01, 0x55, 0xce, 0x01, 0x55, 0xce] ∧
    (d.turns ≠ [] → SlavePart (payload d.response) ∧ Answer (payload d.response) d.turns) ∧
      (answering d.handler.state = true → d.serving = true) ∧
      ∀ e ∈ d.handler.log, e.isAnswer = true → ∃ turn ∈ d.turns, e ∈ turn.effects :=
  ⟨by decide +kernel, run_answers 0xff {} answeredTwice (by decide +kernel)⟩

/-- The own arbitration starts with a SYN in the middle of an answer and is lost; the read
request behind it is answered from the third byte on. -/
def answeredFromTheMiddle : List Action :=
  waiting ++ asked [0x01, 0x55] ++ BusHandler.feed [0x01, 0x55] ++
    [.busEvent { byte := 0xaa, busRequest := true } {}] ++ BusHandler.feed [0x03, 0x04, 0xff] ++
    asked [0x02, 0x11, 0x22]

/-- No start bit. -/
def Unstarted (_ : Desk) : Action → Prop
  | .busEvent event _ => event.startBit = false
  | _ => True

instance (d : Desk) : (action : Action) → Decidable (d.Unstarted action)
  | .busEvent _ _ => inferInstanceAs (Decidable (_ = _))
  | .sendActiveMessage _ | .resetHandler | .requestExternal _ | .resetRequest
  | .setLockCounter _ => .isTrue trivial

theorem not_answer_fromTheMiddle :
    ¬ ∀ (address : UInt8) (request : Request) (actions : List Action),
      Runs.Meets step Unstarted { handler := Handler.create address request } actions →
      let d := Runs.run step { handler := Handler.create address request } actions
      d.turns ≠ [] → Answer (payload d.response) d.turns := by
  intro hall
  have hanswer := hall 0xff {} answeredFromTheMiddle (by decide) (by decide +kernel)
  exact absurd hanswer.trace (by decide +kernel)

end Desk

end Ebus
