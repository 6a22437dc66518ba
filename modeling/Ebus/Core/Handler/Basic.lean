import Mathlib.Tactic.Simps.Basic
import Ebus.Core.Request
import Ebus.Protocol.Telegram

/-!
# The protocol engine

`Handler` is the state machine that consumes the bus one byte at a time. It keeps
one set of buffers for the traffic it observes and answers (`passive*`) and one
for the message it sends itself (`active*`).

What the engine does is recorded in `log`: the bytes written to the bus, the
callbacks it fires, the checks it lets the two telegrams make and the indexed
reads of its buffers. The log is never read; it is what the properties of runs
are stated about. Timing statistics and counters of the source are left out, and
all callbacks are taken to be attached.
-/

namespace Ebus

/-- The two halves of the engine: observed traffic and own transmission. -/
inductive Side where
  | passive
  | active
  deriving DecidableEq, Repr

/-- The buffers that the state functions read by index. -/
inductive Buffer where
  | passiveMaster
  | passiveSlave
  | activeMaster
  deriving DecidableEq, Repr

namespace HandlerState

/-- The states that the engine is in for an own message only. -/
def engaged : HandlerState → Bool
  | .requestBus | .activeSendMaster | .activeReceiveMasterAcknowledge | .activeReceiveSlave
  | .activeSendSlavePositiveAcknowledge | .activeSendSlaveNegativeAcknowledge => true
  | _ => false

/-- The engine has the bus and exchanges the own message. -/
def exchanging (state : HandlerState) : Bool := state.engaged && state ≠ .requestBus

end HandlerState

/-- What the protocol callback receives. -/
structure ProtocolInfo where
  isError : Bool := false
  level : LogLevel := .none
  messageType : MessageType := .undefined
  telegramType : TelegramType := .undefined
  protocolError : ProtocolError := .none
  result : RequestResult := .observeData
  sequenceState : SequenceState := .seqEmpty
  handlerState : HandlerState := .passiveReceiveMaster
  requestState : RequestState := .observe
  masterView : List UInt8 := []
  slaveView : List UInt8 := []
  deriving DecidableEq, Repr

inductive Effect where
  /-- a byte handed to the bus -/
  | write (byte : UInt8)
  /-- the callbacks for a won and for a lost or failed arbitration -/
  | won
  | lost
  /-- the protocol callback -/
  | protocol (info : ProtocolInfo)
  /-- the reactive callback, asked for a response -/
  | reactive (master : List UInt8)
  /-- `sendActiveMessage` has accepted this master part -/
  | accepted (master : List UInt8)
  /-- a telegram has checked a reduced part, or was cleared -/
  | createMaster (side : Side) (input : List UInt8) (verdict : SequenceState)
  | createSlave (side : Side) (input : List UInt8) (verdict : SequenceState)
  | clear (side : Side)
  /-- an indexed read of a buffer that holds `size` bytes -/
  | access (buffer : Buffer) (index size : Nat)
  deriving DecidableEq, Repr

/-- A report of a successful own message. -/
def Effect.isActiveTelegram : Effect → Bool
  | .protocol info => !info.isError && info.messageType = .active
  | _ => false

/-- The byte that an effect hands to the bus. -/
def Effect.written : Effect → Option UInt8
  | .write byte => some byte
  | _ => none

@[simp] theorem Effect.written_write (byte : UInt8) : (write byte).written = some byte := rfl

@[simp] theorem Effect.written_eq_none :
    won.written = none ∧ lost.written = none ∧
      (∀ info, (protocol info).written = none) ∧
      (∀ master, (reactive master).written = none) ∧
      (∀ master, (accepted master).written = none) ∧
      (∀ side input verdict, (createMaster side input verdict).written = none) ∧
      (∀ side input verdict, (createSlave side input verdict).written = none) ∧
      (∀ side, (clear side).written = none) ∧
      ∀ buffer index size, (access buffer index size).written = none := by
  simp [written]

structure Handler where
  request : Request := {}
  lastResult : RequestResult := .observeSyn
  pendingWrite : Option UInt8 := none
  sourceAddress : UInt8
  targetAddress : UInt8
  passiveTelegram : Telegram := {}
  passiveMaster : Sequence := {}
  passiveMasterDbx : Nat := 0
  passiveMasterRepeated : Bool := false
  passiveSlave : Sequence := {}
  passiveSlaveDbx : Nat := 0
  passiveSlaveIndex : Nat := 0
  passiveSlaveRepeated : Bool := false
  activeMessage : Bool := false
  activeTelegram : Telegram := {}
  activeMaster : Sequence := {}
  activeMasterIndex : Nat := 0
  activeMasterRepeated : Bool := false
  activeSlave : Sequence := {}
  activeSlaveDbx : Nat := 0
  activeSlaveRepeated : Bool := false
  state : HandlerState := .passiveReceiveMaster
  log : List Effect := []
  deriving DecidableEq, Repr

namespace Handler

/-- The constructor: an address that is no master address falls back to the
default configuration. -/
def create (sourceAddress : UInt8) (request : Request) : Handler :=
  let sourceAddress := if isMaster sourceAddress then sourceAddress else 0xff
  { request, sourceAddress, targetAddress := slaveOf sourceAddress }

/-- The states each state may be left for; the rows of `transition_masks`. -/
def transitionMasks : HandlerState → List HandlerState
  | .passiveReceiveMaster =>
      [.passiveReceiveMaster, .requestBus, .passiveReceiveMasterAcknowledge,
        .reactiveSendMasterPositiveAcknowledge, .reactiveSendMasterNegativeAcknowledge,
        .releaseBus]
  | .passiveReceiveMasterAcknowledge =>
      [.passiveReceiveMaster, .requestBus, .passiveReceiveSlave]
  | .passiveReceiveSlave =>
      [.passiveReceiveMaster, .requestBus, .passiveReceiveSlaveAcknowledge]
  | .passiveReceiveSlaveAcknowledge =>
      [.passiveReceiveMaster, .requestBus, .passiveReceiveSlave]
  | .reactiveSendMasterPositiveAcknowledge =>
      [.passiveReceiveMaster, .requestBus, .reactiveSendSlave]
  | .reactiveSendMasterNegativeAcknowledge => [.passiveReceiveMaster, .requestBus]
  | .reactiveSendSlave =>
      [.passiveReceiveMaster, .requestBus, .reactiveReceiveSlaveAcknowledge]
  | .reactiveReceiveSlaveAcknowledge =>
      [.passiveReceiveMaster, .requestBus, .reactiveSendSlave]
  | .requestBus => [.passiveReceiveMaster, .requestBus, .activeSendMaster, .releaseBus]
  | .activeSendMaster =>
      [.passiveReceiveMaster, .requestBus, .activeReceiveMasterAcknowledge, .releaseBus]
  | .activeReceiveMasterAcknowledge =>
      [.passiveReceiveMaster, .requestBus, .activeSendMaster, .activeReceiveSlave, .releaseBus]
  | .activeReceiveSlave =>
      [.passiveReceiveMaster, .requestBus, .activeSendSlavePositiveAcknowledge,
        .activeSendSlaveNegativeAcknowledge]
  | .activeSendSlavePositiveAcknowledge => [.passiveReceiveMaster, .requestBus, .releaseBus]
  | .activeSendSlaveNegativeAcknowledge =>
      [.passiveReceiveMaster, .requestBus, .activeReceiveSlave, .releaseBus]
  | .releaseBus => [.passiveReceiveMaster, .requestBus]

section Actions

variable (h : Handler)

@[simps] def emit (e : Effect) : Handler := { h with log := h.log ++ [e] }

/-- The write is deferred to the end of the step. -/
@[simps] def callWrite (byte : UInt8) : Handler := { h with pendingWrite := some byte }

/-- Record an indexed read; the value read is `Sequence.get` of the same buffer. -/
@[simp] def touch (buffer : Buffer) (index : Nat) : Handler :=
  h.emit <| .access buffer index <|
    match buffer with
    | .passiveMaster => h.passiveMaster.size
    | .passiveSlave => h.passiveSlave.size
    | .activeMaster => h.activeMaster.size

@[simp] def callOnTelegram (messageType : MessageType) (telegramType : TelegramType)
    (masterView slaveView : List UInt8) : Handler :=
  h.emit <| .protocol
    { messageType, telegramType, handlerState := h.state, requestState := h.request.state,
      masterView, slaveView }

@[simp] def callOnError (level : LogLevel) (protocolError : ProtocolError)
    (sequenceState : SequenceState) (masterView slaveView : List UInt8) : Handler :=
  h.emit <| .protocol
    { isError := true, level, protocolError, sequenceState, result := h.lastResult,
      handlerState := h.state, requestState := h.request.state, masterView, slaveView }

def transitionTo (next : HandlerState) : Handler :=
  if next = h.state then h
  else if next ∈ transitionMasks h.state then { h with state := next }
  else
    -- emergency recovery
    { h.callOnError .error .illegalFsmTransition .seqOk [] [] with state := .passiveReceiveMaster }

/-- A transition that has been resolved. -/
@[simps] def goto (next : HandlerState) : Handler := { h with state := next }

@[simps] def callPassiveReset : Handler :=
  { h with passiveTelegram := h.passiveTelegram.clear
           passiveMaster := h.passiveMaster.clear
           passiveMasterDbx := 0
           passiveMasterRepeated := false
           passiveSlave := h.passiveSlave.clear
           passiveSlaveDbx := 0
           passiveSlaveIndex := 0
           passiveSlaveRepeated := false
           log := h.log ++ [.clear .passive] }

@[simps] def callActiveReset : Handler :=
  { h with activeMessage := false
           activeTelegram := h.activeTelegram.clear
           activeMaster := h.activeMaster.clear
           activeMasterIndex := 0
           activeMasterRepeated := false
           activeSlave := h.activeSlave.clear
           activeSlaveDbx := 0
           activeSlaveRepeated := false
           log := h.log ++ [.clear .active] }

/-- `passive_telegram_.createMaster(passive_master_)`, which leaves the buffer reduced. -/
@[simps] def createPassiveMaster : Handler :=
  { h with passiveTelegram := (h.passiveTelegram.createMaster h.passiveMaster).1
           passiveMaster := (h.passiveTelegram.createMaster h.passiveMaster).2
           log := h.log ++ [.createMaster .passive
             (h.passiveTelegram.createMaster h.passiveMaster).2.bytes
             (h.passiveTelegram.createMaster h.passiveMaster).1.masterState] }

@[simps] def createPassiveSlave : Handler :=
  { h with passiveTelegram := (h.passiveTelegram.createSlave h.passiveSlave).1
           passiveSlave := (h.passiveTelegram.createSlave h.passiveSlave).2
           log := h.log ++ [.createSlave .passive
             (h.passiveTelegram.createSlave h.passiveSlave).2.bytes
             (h.passiveTelegram.createSlave h.passiveSlave).1.slaveState] }

@[simps] def createActiveSlave : Handler :=
  { h with activeTelegram := (h.activeTelegram.createSlave h.activeSlave).1
           activeSlave := (h.activeTelegram.createSlave h.activeSlave).2
           log := h.log ++ [.createSlave .active
             (h.activeTelegram.createSlave h.activeSlave).2.bytes
             (h.activeTelegram.createSlave h.activeSlave).1.slaveState] }

end Actions

/-- A transition that the table permits. Each state function only makes such
transitions, so that proofs never meet the emergency recovery. -/
theorem transitionTo_of_permitted {h : Handler} {next : HandlerState}
    (permitted : next ∈ transitionMasks h.state) :
    h.transitionTo next = h.goto next := by
  unfold transitionTo goto
  by_cases hsame : next = h.state
  · rw [if_pos hsame, hsame]
  · rw [if_neg hsame, if_pos permitted]

theorem mem_transitionMasks_passiveReceiveMaster (state : HandlerState) :
    .passiveReceiveMaster ∈ transitionMasks state := by
  cases state <;> decide

theorem mem_transitionMasks_requestBus (state : HandlerState) :
    .requestBus ∈ transitionMasks state := by
  cases state <;> decide

/-- Stop whatever is going on; the request stays as it is. -/
def reset (h : Handler) : Handler :=
  (h.transitionTo .passiveReceiveMaster).callActiveReset.callPassiveReset

/-- No state keeps the engine from being reset. -/
theorem reset_eq (h : Handler) :
    h.reset = (h.goto .passiveReceiveMaster).callActiveReset.callPassiveReset := by
  rw [reset, transitionTo_of_permitted (mem_transitionMasks_passiveReceiveMaster _)]

/-- Take a message for transmission. A message that fails the check still
replaces the stored telegram. -/
def sendActiveMessage (h : Handler) (message : List UInt8) : Handler × Bool :=
  if h.activeMessage then (h, false)
  else if message.isEmpty then (h, false)
  else
    let activeTelegram := h.activeTelegram.createMasterFrom h.sourceAddress message
    let h := { h with activeTelegram }.emit
      (.createMaster .active (h.sourceAddress :: message) activeTelegram.masterState)
    if activeTelegram.masterState = .seqOk then
      ({ h with activeMessage := true }.emit (.accepted activeTelegram.master.bytes), true)
    else (h, false)

/-- What `sendActiveMessage` can do: refuse at once, refuse after the check, accept. -/
theorem sendActiveMessage_cases (h : Handler) (message : List UInt8) :
    h.sendActiveMessage message = (h, false) ∨
    (∃ t, t = h.activeTelegram.createMasterFrom h.sourceAddress message ∧
      h.activeMessage = false ∧ t.masterState ≠ .seqOk ∧
      h.sendActiveMessage message =
        ({ h with activeTelegram := t, log := h.log ++
            [.createMaster .active (h.sourceAddress :: message) t.masterState] }, false)) ∨
    (∃ t, t = h.activeTelegram.createMasterFrom h.sourceAddress message ∧
      h.activeMessage = false ∧ t.masterState = .seqOk ∧
      h.sendActiveMessage message =
        ({ h with activeTelegram := t, activeMessage := true, log := h.log ++
            [.createMaster .active (h.sourceAddress :: message) .seqOk,
              .accepted t.master.bytes] }, true)) := by
  unfold sendActiveMessage
  by_cases hmsg : h.activeMessage = true
  · exact .inl (if_pos hmsg)
  · rw [if_neg hmsg]
    have hidle : h.activeMessage = false := by simpa using hmsg
    by_cases hempty : message.isEmpty = true
    · exact .inl (if_pos hempty)
    · rw [if_neg hempty]
      refine .inr ?_
      by_cases hok :
          (h.activeTelegram.createMasterFrom h.sourceAddress message).masterState = .seqOk
      · exact .inr ⟨_, rfl, hidle, hok, by simp [hok, emit]⟩
      · exact .inl ⟨_, rfl, hidle, hok, by simp [hok, emit]⟩

theorem sendActiveMessage_state (h : Handler) (message : List UInt8) :
    (h.sendActiveMessage message).1.state = h.state := by
  obtain hs | ⟨t, -, -, -, hs⟩ | ⟨t, -, -, -, hs⟩ := h.sendActiveMessage_cases message <;>
    rw [hs]

end Handler

end Ebus
