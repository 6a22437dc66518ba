import Ebus.Core.Handler.Basic

/-!
# The state functions of the protocol engine

One function for each of the fifteen states, as dispatched by `Handler.run`. A
state function consumes one received byte; it is entered in its own state only.
The longer ones are cut into helpers that carry the name of what they do, in the
order of the source.

Reads of a buffer by index are recorded with `touch` at the place where the
source makes them, short-circuit evaluation included.
-/

namespace Ebus

namespace Handler

variable (h : Handler)

/-- The plausibility filter: may `byte` stand behind `length` buffered bytes? -/
def headerByteOk (length : Nat) (byte : UInt8) : Bool :=
  if length = 0 then isMaster byte
  else if length = 1 then isTarget byte
  else if length = 2 ∨ length = 3 then byte != Symbols.syn && byte != Symbols.ext
  else if length = 4 then byte ≤ SequenceLimits.maxDataBytes
  else true

/-- Handle a message for the own slave address. The reactive callback leaves
`response` in the slave buffer. -/
def answerMaster (response : Sequence) : Handler :=
  let h := { h.emit (.reactive h.passiveTelegram.master.bytes) with passiveSlave := response }
  let h := h.createPassiveSlave
  if h.passiveTelegram.slaveState = .seqOk then
    let passiveSlave :=
      (h.passiveTelegram.slave.pushBack h.passiveTelegram.slaveCrc false).extend
    { h with passiveSlave }.callWrite Symbols.ack
      |>.transitionTo .reactiveSendMasterPositiveAcknowledge
  else
    h.callOnError .error .errorReactiveSlave h.passiveTelegram.slaveState
        h.passiveMaster.bytes h.passiveSlave.bytes
      |>.callPassiveReset
      |>.callWrite Symbols.syn
      |>.transitionTo .releaseBus

/-- A complete master part has passed its check. -/
def acceptMaster (response : Sequence) : Handler :=
  if h.passiveTelegram.telegramType = .broadcast then
    h.callOnTelegram .passive .broadcast h.passiveTelegram.master.bytes
        h.passiveTelegram.slave.bytes
      |>.callPassiveReset
  else
    let h := h.touch .passiveMaster 1
    if h.passiveMaster.get 1 = h.sourceAddress then
      h.callWrite Symbols.ack |>.transitionTo .reactiveSendMasterPositiveAcknowledge
    else
      let h := h.touch .passiveMaster 1
      if h.passiveMaster.get 1 = h.targetAddress then h.answerMaster response
      else h.transitionTo .passiveReceiveMasterAcknowledge

/-- Make room for a repetition of the master part. -/
@[simps] def forgetMaster : Handler :=
  { h with passiveTelegram := h.passiveTelegram.clear, passiveMaster := {}, passiveMasterDbx := 0
           log := h.log ++ [.clear .passive] }

/-- A complete master part has failed its check: answer a message for the own
addresses with NAK, wait for the acknowledge of others. -/
def rejectMaster : Handler :=
  let nack (h : Handler) : Handler :=
    h.callOnError .error .errorReactiveMaster h.passiveTelegram.masterState
        h.passiveMaster.bytes h.passiveSlave.bytes
      |>.forgetMaster
      |>.callWrite Symbols.nak
      |>.transitionTo .reactiveSendMasterNegativeAcknowledge
  let h := h.touch .passiveMaster 1
  if h.passiveMaster.get 1 = h.sourceAddress then nack h
  else
    let h := h.touch .passiveMaster 1
    if h.passiveMaster.get 1 = h.targetAddress then nack h
    else if h.passiveTelegram.telegramType = .masterMaster ∨
        h.passiveTelegram.telegramType = .masterSlave then
      h.transitionTo .passiveReceiveMasterAcknowledge
    else
      h.callOnError .error .errorPassiveMaster h.passiveTelegram.masterState
          h.passiveMaster.bytes h.passiveSlave.bytes
        |>.callPassiveReset

/-- The expected number of data bytes after `byte` went into a buffer: it is read
off the byte `count` when that is the one just stored, and each escape adds one. -/
def nextDbx (stored : Bool) (count byte : UInt8) (dbx : Nat) : Nat :=
  (if stored then count.toNat else dbx) + (if byte = Symbols.ext then 1 else 0)

/-- Append one byte to the master buffer and keep the expected length. -/
@[simps] def bufferMaster (byte : UInt8) : Handler :=
  { h with passiveMaster := h.passiveMaster.pushBack byte true
           passiveMasterDbx := nextDbx ((h.passiveMaster.pushBack byte true).size = 5)
             ((h.passiveMaster.pushBack byte true).get 4) byte h.passiveMasterDbx
           log := h.log ++ if (h.passiveMaster.pushBack byte true).size = 5 then
             [.access .passiveMaster 4 (h.passiveMaster.pushBack byte true).size] else [] }

def checkPassiveBuffers : Handler :=
  if 0 < h.passiveMaster.size ∨ 0 < h.passiveSlave.size then
    let sequenceState := if h.passiveTelegram.masterState ≠ .seqOk then
      h.passiveTelegram.slaveState else h.passiveTelegram.masterState
    h.callOnError .info .checkPassiveBuffers sequenceState h.passiveMaster.bytes
        h.passiveSlave.bytes
      |>.callPassiveReset
  else h

def checkActiveBuffers : Handler :=
  if 0 < h.activeMaster.size ∨ 0 < h.activeSlave.size then
    let sequenceState := if h.activeTelegram.masterState ≠ .seqOk then
      h.activeTelegram.slaveState else h.activeTelegram.masterState
    h.callOnError .info .checkActiveBuffers sequenceState h.activeMaster.bytes
        h.activeSlave.bytes
      |>.callActiveReset
  else h

/-- The branch of `passiveReceiveMaster` for a SYN. -/
def receiveSyn : Handler :=
  let h := h.checkPassiveBuffers.checkActiveBuffers
  if h.activeMessage then { h with request := (h.request.requestBus h.sourceAddress false).1 }
  else h

def passiveReceiveMaster (byte : UInt8) (response : Sequence) : Handler :=
  if byte ≠ Symbols.syn then
    if headerByteOk h.passiveMaster.size byte then
      let h := h.bufferMaster byte
      if 5 + h.passiveMasterDbx + 1 ≤ h.passiveMaster.size then
        let h := h.createPassiveMaster
        if h.passiveTelegram.masterState = .seqOk then h.acceptMaster response
        else h.rejectMaster
      else h
    else h.callPassiveReset
  else h.receiveSyn

def passiveReceiveMasterAcknowledge (byte : UInt8) : Handler :=
  if byte = Symbols.ack then
    if h.passiveTelegram.telegramType = .masterMaster then
      h.callOnTelegram .passive .masterMaster h.passiveTelegram.master.bytes
          h.passiveTelegram.slave.bytes
        |>.callPassiveReset
        |>.transitionTo .passiveReceiveMaster
    else h.transitionTo .passiveReceiveSlave
  else if byte ≠ Symbols.syn ∧ !h.passiveMasterRepeated then
    { h.forgetMaster with passiveMasterRepeated := true }.transitionTo .passiveReceiveMaster
  else
    h.callOnError .error .errorPassiveMasterAck h.passiveTelegram.masterState
        h.passiveMaster.bytes h.passiveSlave.bytes
      |>.callPassiveReset
      |>.transitionTo .passiveReceiveMaster

/-- Append one byte to the slave buffer and keep the expected length. -/
@[simps] def bufferSlave (byte : UInt8) : Handler :=
  { h with passiveSlave := h.passiveSlave.pushBack byte true
           passiveSlaveDbx := nextDbx ((h.passiveSlave.pushBack byte true).size = 1)
             byte byte h.passiveSlaveDbx }

def passiveReceiveSlave (byte : UInt8) : Handler :=
  if h.passiveSlave.empty ∧ SequenceLimits.maxDataBytes < byte then h.callPassiveReset
  else
    let h := h.bufferSlave byte
    if 1 + h.passiveSlaveDbx + 1 ≤ h.passiveSlave.size then
      let h := h.createPassiveSlave
      let h := if h.passiveTelegram.slaveState ≠ .seqOk then
        h.callOnError .error .errorPassiveSlave h.passiveTelegram.slaveState
          h.passiveMaster.bytes h.passiveSlave.bytes else h
      h.transitionTo .passiveReceiveSlaveAcknowledge
    else h

def passiveReceiveSlaveAcknowledge (byte : UInt8) : Handler :=
  if byte = Symbols.ack then
    h.callOnTelegram .passive .masterSlave h.passiveTelegram.master.bytes
        h.passiveTelegram.slave.bytes
      |>.callPassiveReset
      |>.transitionTo .passiveReceiveMaster
  else if byte = Symbols.nak ∧ !h.passiveSlaveRepeated then
    { h with passiveSlaveRepeated := true, passiveSlave := {}, passiveSlaveDbx := 0 }
      |>.transitionTo .passiveReceiveSlave
  else
    h.callOnError .error .errorPassiveSlaveAck h.passiveTelegram.slaveState
        h.passiveMaster.bytes h.passiveSlave.bytes
      |>.callPassiveReset
      |>.transitionTo .passiveReceiveMaster

def reactiveSendMasterPositiveAcknowledge : Handler :=
  if h.passiveTelegram.telegramType = .masterMaster then
    h.callOnTelegram .reactive .masterMaster h.passiveTelegram.master.bytes
        h.passiveTelegram.slave.bytes
      |>.callPassiveReset
      |>.transitionTo .passiveReceiveMaster
  else if h.passiveSlave.size ≤ h.passiveSlaveIndex then
    h.callOnError .error .illegalFsmTransition h.passiveTelegram.masterState
        h.passiveMaster.bytes h.passiveSlave.bytes
      |>.callPassiveReset
      |>.transitionTo .passiveReceiveMaster
  else
    h.touch .passiveSlave h.passiveSlaveIndex
      |>.callWrite (h.passiveSlave.get h.passiveSlaveIndex)
      |>.transitionTo .reactiveSendSlave

/-- The transition comes first here, so that an error is reported from the new state. -/
def reactiveSendMasterNegativeAcknowledge : Handler :=
  let h := h.transitionTo .passiveReceiveMaster
  if !h.passiveMasterRepeated then { h with passiveMasterRepeated := true }
  else
    h.callOnError .error .errorReactiveMasterAck h.passiveTelegram.masterState
        h.passiveMaster.bytes h.passiveSlave.bytes
      |>.callPassiveReset

/-- The received echo is not compared. -/
def reactiveSendSlave : Handler :=
  let h := { h with passiveSlaveIndex := h.passiveSlaveIndex + 1 }
  if h.passiveSlave.size ≤ h.passiveSlaveIndex then
    h.transitionTo .reactiveReceiveSlaveAcknowledge
  else
    h.touch .passiveSlave h.passiveSlaveIndex
      |>.callWrite (h.passiveSlave.get h.passiveSlaveIndex)

def reactiveReceiveSlaveAcknowledge (byte : UInt8) : Handler :=
  if byte = Symbols.ack then
    h.callOnTelegram .reactive .masterSlave h.passiveTelegram.master.bytes
        h.passiveTelegram.slave.bytes
      |>.callPassiveReset
      |>.transitionTo .passiveReceiveMaster
  else if byte = Symbols.nak ∧ !h.passiveSlaveRepeated then
    { h.touch .passiveSlave 0 with passiveSlaveRepeated := true, passiveSlaveIndex := 0 }
      |>.callWrite (h.passiveSlave.get 0)
      |>.transitionTo .reactiveSendSlave
  else
    h.callOnError .error .errorReactiveSlaveAck h.passiveTelegram.slaveState
        h.passiveMaster.bytes h.passiveSlave.bytes
      |>.callPassiveReset
      |>.transitionTo .passiveReceiveMaster

/-- What the lambdas of `requestBus` share: report the loss and drop the message. -/
@[simps] def dropMessage : Handler :=
  { h with activeMessage := false
           activeTelegram := h.activeTelegram.clear
           activeMaster := {}
           log := h.log ++ [.lost, .clear .active] }

def arbitrationWon : Handler :=
  let h := { h with activeMaster :=
    (h.activeTelegram.master.pushBack h.activeTelegram.masterCrc false).extend }
  if 1 < h.activeMaster.size then
    { h.emit .won with activeMasterIndex := 1 }.touch .activeMaster 1
      |>.callWrite (h.activeMaster.get 1)
      |>.transitionTo .activeSendMaster
  else h.dropMessage.callWrite Symbols.syn |>.transitionTo .releaseBus

/-- The byte that was read is the address of the winner and starts its master part. -/
def arbitrationLost (byte : UInt8) : Handler :=
  { h.dropMessage with passiveMaster := h.passiveMaster.pushBack byte true }
    |>.transitionTo .passiveReceiveMaster

def arbitrationError : Handler := h.dropMessage.transitionTo .passiveReceiveMaster

def requestBus (byte : UInt8) : Handler :=
  match h.lastResult with
  | .observeSyn => h.arbitrationError
  | .observeData => h.arbitrationError
  | .firstSyn => h
  | .firstWon => h.arbitrationWon
  | .firstRetry => h
  | .firstLost => h.arbitrationLost byte
  | .firstError => h.arbitrationLost byte
  | .retrySyn => h
  | .retryError => h.arbitrationError
  | .secondWon => h.arbitrationWon
  | .secondLost => h.arbitrationLost byte
  | .secondError => h.arbitrationLost byte

/-- The common end of a finished active exchange. -/
def endActive : Handler :=
  h.callActiveReset.callWrite Symbols.syn |>.transitionTo .releaseBus

/-- Echo check: the index still points at the byte that was sent last. -/
def activeSendMaster (byte : UInt8) : Handler :=
  if h.activeMaster.size ≤ h.activeMasterIndex then
    h.callOnError .error .illegalFsmTransition h.activeTelegram.masterState
        h.activeMaster.bytes h.activeSlave.bytes
      |>.callActiveReset
      |>.transitionTo .passiveReceiveMaster
  else
    let h := h.touch .activeMaster h.activeMasterIndex
    if byte ≠ h.activeMaster.get h.activeMasterIndex then
      h.callOnError .error .errorActiveMasterEcho h.activeTelegram.masterState
          h.activeMaster.bytes h.activeSlave.bytes
        |>.callActiveReset
        |>.transitionTo .passiveReceiveMaster
    else
      let h := { h with activeMasterIndex := h.activeMasterIndex + 1 }
      if h.activeMaster.size ≤ h.activeMasterIndex then
        if h.activeTelegram.telegramType = .broadcast then
          h.callOnTelegram .active .broadcast h.activeMaster.bytes h.activeSlave.bytes
            |>.endActive
        else h.transitionTo .activeReceiveMasterAcknowledge
      else
        h.touch .activeMaster h.activeMasterIndex
          |>.callWrite (h.activeMaster.get h.activeMasterIndex)

def activeReceiveMasterAcknowledge (byte : UInt8) : Handler :=
  if byte = Symbols.ack then
    if h.activeTelegram.telegramType = .masterMaster then
      h.callOnTelegram .active .masterMaster h.activeMaster.bytes h.activeSlave.bytes
        |>.endActive
    else h.transitionTo .activeReceiveSlave
  else if byte = Symbols.nak ∧ !h.activeMasterRepeated then
    { h.touch .activeMaster 0 with activeMasterRepeated := true, activeMasterIndex := 0 }
      |>.callWrite (h.activeMaster.get 0)
      |>.transitionTo .activeSendMaster
  else
    h.callOnError .error .errorActiveMasterAck h.activeTelegram.masterState
        h.activeMaster.bytes h.activeSlave.bytes
      |>.endActive

@[simps] def bufferActiveSlave (byte : UInt8) : Handler :=
  { h with activeSlave := h.activeSlave.pushBack byte true
           activeSlaveDbx := nextDbx ((h.activeSlave.pushBack byte true).size = 1)
             byte byte h.activeSlaveDbx }

/-- Report a slave part that cannot be used and ask for it again. -/
def rejectSlave (sequenceState : SequenceState) (slaveView : List UInt8) : Handler :=
  { h.callOnError .error .errorActiveSlave sequenceState h.activeMaster.bytes slaveView with
    activeSlave := {}, activeSlaveDbx := 0 }
    |>.callWrite Symbols.nak
    |>.transitionTo .activeSendSlaveNegativeAcknowledge

def activeReceiveSlave (byte : UInt8) : Handler :=
  if h.activeSlave.empty ∧ SequenceLimits.maxDataBytes < byte then h.rejectSlave .errDataByte []
  else
    let h := h.bufferActiveSlave byte
    if 1 + h.activeSlaveDbx + 1 ≤ h.activeSlave.size then
      let h := h.createActiveSlave
      if h.activeTelegram.slaveState = .seqOk then
        h.callWrite Symbols.ack |>.transitionTo .activeSendSlavePositiveAcknowledge
      else h.rejectSlave h.activeTelegram.slaveState h.activeSlave.bytes
    else h

def activeSendSlavePositiveAcknowledge : Handler :=
  h.callOnTelegram .active .masterSlave h.activeTelegram.master.bytes
      h.activeTelegram.slave.bytes
    |>.endActive

def activeSendSlaveNegativeAcknowledge : Handler :=
  if !h.activeSlaveRepeated then
    { h with activeSlaveRepeated := true }.transitionTo .activeReceiveSlave
  else
    h.callOnError .error .errorActiveSlaveAck h.activeTelegram.slaveState
        h.activeMaster.bytes h.activeSlave.bytes
      |>.endActive

def releaseBus : Handler := h.transitionTo .passiveReceiveMaster

/-- The table of state functions. -/
def dispatch (byte : UInt8) (response : Sequence) : Handler :=
  match h.state with
  | .passiveReceiveMaster => h.passiveReceiveMaster byte response
  | .passiveReceiveMasterAcknowledge => h.passiveReceiveMasterAcknowledge byte
  | .passiveReceiveSlave => h.passiveReceiveSlave byte
  | .passiveReceiveSlaveAcknowledge => h.passiveReceiveSlaveAcknowledge byte
  | .reactiveSendMasterPositiveAcknowledge => h.reactiveSendMasterPositiveAcknowledge
  | .reactiveSendMasterNegativeAcknowledge => h.reactiveSendMasterNegativeAcknowledge
  | .reactiveSendSlave => h.reactiveSendSlave
  | .reactiveReceiveSlaveAcknowledge => h.reactiveReceiveSlaveAcknowledge byte
  | .requestBus => h.requestBus byte
  | .activeSendMaster => h.activeSendMaster byte
  | .activeReceiveMasterAcknowledge => h.activeReceiveMasterAcknowledge byte
  | .activeReceiveSlave => h.activeReceiveSlave byte
  | .activeSendSlavePositiveAcknowledge => h.activeSendSlavePositiveAcknowledge
  | .activeSendSlaveNegativeAcknowledge => h.activeSendSlaveNegativeAcknowledge
  | .releaseBus => h.releaseBus

/-- Hand the deferred byte to the bus. -/
def flush : Handler :=
  match h.pendingWrite with
  | some byte => h.emit (.write byte)
  | none => h

theorem flush_cases : h.flush = h ∨ ∃ byte, h.flush = h.emit (.write byte) := by
  unfold flush
  split
  · exact .inr ⟨_, rfl⟩
  · exact .inl rfl

/-- The deferred byte is the only thing that is added. -/
theorem flush_eq : ∃ log, h.flush = { h with log } := by
  obtain hflush | ⟨byte, hflush⟩ := h.flush_cases
  · exact ⟨h.log, hflush⟩
  · exact ⟨_, hflush⟩

@[simp] theorem flush_state : h.flush.state = h.state := by
  obtain ⟨log, hflush⟩ := h.flush_eq
  rw [hflush]

@[simp] theorem flush_request : h.flush.request = h.request := by
  obtain ⟨log, hflush⟩ := h.flush_eq
  rw [hflush]

@[simp] theorem flush_sourceAddress : h.flush.sourceAddress = h.sourceAddress := by
  obtain ⟨log, hflush⟩ := h.flush_eq
  rw [hflush]

/-- Consume one byte together with the arbitration result for it. -/
def run (result : RequestResult) (byte : UInt8) (response : Sequence) : Handler :=
  { h with lastResult := result, pendingWrite := none }.dispatch byte response |>.flush

def onBusRequested : Handler :=
  if h.activeMessage ∧ h.state ≠ .requestBus then h.transitionTo .requestBus else h

/-- A spurious start bit drops what both sides have collected; the state stays. -/
def onStartBit : Handler := h.callActiveReset.callPassiveReset

end Handler

end Ebus
