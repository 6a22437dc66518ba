import Ebus.Core.Handler.States

/-!
# What one step can do

`Branch h byte response h'` lists the branches of the state functions, one rule
for each: its guard, and the engine it leads to with all transitions resolved.
`dispatch_branch` says that the list is complete. Invariants of the engine are
proved by cases over these rules; they do not unfold the state functions.
-/

namespace Ebus

namespace Handler

/-- The engine when a complete master part has just been checked. -/
@[simps! request lastResult pendingWrite sourceAddress targetAddress passiveMasterRepeated
  passiveSlave passiveSlaveDbx passiveSlaveIndex passiveSlaveRepeated activeMessage activeTelegram
  activeMaster activeMasterIndex activeMasterRepeated activeSlave activeSlaveDbx
  activeSlaveRepeated state]
def checkedMaster (h : Handler) (byte : UInt8) : Handler :=
  (h.bufferMaster byte).createPassiveMaster

/-- The engine when a complete slave part has just been checked. -/
@[simps! request lastResult pendingWrite sourceAddress targetAddress passiveMaster
  passiveMasterDbx passiveMasterRepeated passiveSlaveIndex passiveSlaveRepeated activeMessage
  activeTelegram activeMaster activeMasterIndex activeMasterRepeated activeSlave activeSlaveDbx
  activeSlaveRepeated state]
def checkedSlave (h : Handler) (byte : UInt8) : Handler :=
  (h.bufferSlave byte).createPassiveSlave

@[simps! request lastResult pendingWrite sourceAddress targetAddress passiveTelegram
  passiveMaster passiveMasterDbx passiveMasterRepeated passiveSlave passiveSlaveDbx
  passiveSlaveIndex passiveSlaveRepeated activeMessage activeMaster activeMasterIndex
  activeMasterRepeated activeSlaveRepeated state]
def checkedActiveSlave (h : Handler) (byte : UInt8) : Handler :=
  (h.bufferActiveSlave byte).createActiveSlave

/-- The byte just buffered completes the master part. -/
def CompletesMaster (h : Handler) (byte : UInt8) : Prop :=
  byte ≠ Symbols.syn ∧ headerByteOk h.passiveMaster.size byte = true ∧
    5 + (h.bufferMaster byte).passiveMasterDbx + 1 ≤ (h.bufferMaster byte).passiveMaster.size

/-- The engine when the reactive callback has answered and the answer is checked. -/
@[simps! request lastResult pendingWrite sourceAddress targetAddress passiveMaster
  passiveMasterDbx passiveMasterRepeated passiveSlaveDbx passiveSlaveIndex passiveSlaveRepeated
  activeMessage activeTelegram activeMaster activeMasterIndex activeMasterRepeated activeSlave
  activeSlaveDbx activeSlaveRepeated state]
def answered (h : Handler) (response : Sequence) : Handler :=
  { h.emit (.reactive h.passiveTelegram.master.bytes) with
    passiveSlave := response }.createPassiveSlave

section Checked

variable (h : Handler) (byte : UInt8) (response : Sequence)

@[simp] theorem checkedMaster_passiveTelegram : (h.checkedMaster byte).passiveTelegram =
    (h.passiveTelegram.createMaster (h.passiveMaster.pushBack byte true)).1 := rfl

@[simp] theorem checkedMaster_passiveMaster : (h.checkedMaster byte).passiveMaster =
    (h.passiveMaster.pushBack byte true).reduce := rfl

@[simp] theorem checkedMaster_passiveMasterDbx : (h.checkedMaster byte).passiveMasterDbx =
    (h.bufferMaster byte).passiveMasterDbx := rfl

@[simp] theorem checkedSlave_passiveTelegram : (h.checkedSlave byte).passiveTelegram =
    (h.passiveTelegram.createSlave (h.passiveSlave.pushBack byte true)).1 := rfl

@[simp] theorem checkedSlave_passiveSlave : (h.checkedSlave byte).passiveSlave =
    (h.passiveSlave.pushBack byte true).reduce := rfl

@[simp] theorem checkedActiveSlave_activeTelegram : (h.checkedActiveSlave byte).activeTelegram =
    (h.activeTelegram.createSlave (h.activeSlave.pushBack byte true)).1 := rfl

@[simp] theorem checkedActiveSlave_activeSlave : (h.checkedActiveSlave byte).activeSlave =
    (h.activeSlave.pushBack byte true).reduce := rfl

@[simp] theorem answered_passiveTelegram : (h.answered response).passiveTelegram =
    (h.passiveTelegram.createSlave response).1 := rfl

@[simp] theorem answered_passiveSlave : (h.answered response).passiveSlave =
    response.reduce := rfl

end Checked

/-- The wire form of a checked answer, as it is sent. -/
def answerBytes (h : Handler) : Sequence :=
  (h.passiveTelegram.slave.pushBack h.passiveTelegram.slaveCrc false).extend

/-- The wire form of the own message. -/
def messageBytes (h : Handler) : Sequence :=
  (h.activeTelegram.master.pushBack h.activeTelegram.masterCrc false).extend

inductive Branch (h : Handler) (byte : UInt8) (response : Sequence) : Handler → Prop where
  -- passive_receive_master
  | rejectedByte (hs : h.state = .passiveReceiveMaster) (hbyte : byte ≠ Symbols.syn)
      (hok : headerByteOk h.passiveMaster.size byte = false) :
      Branch h byte response h.callPassiveReset
  | buffered (hs : h.state = .passiveReceiveMaster) (hbyte : byte ≠ Symbols.syn)
      (hok : headerByteOk h.passiveMaster.size byte = true)
      (hmore : ¬ CompletesMaster h byte) :
      Branch h byte response (h.bufferMaster byte)
  | broadcast {m : Handler} (hs : h.state = .passiveReceiveMaster)
      (hm : m = h.checkedMaster byte) (hdone : CompletesMaster h byte)
      (hstate : m.passiveTelegram.masterState = .seqOk)
      (htype : m.passiveTelegram.telegramType = .broadcast) :
      Branch h byte response
        (m.callOnTelegram .passive .broadcast m.passiveTelegram.master.bytes
          m.passiveTelegram.slave.bytes).callPassiveReset
  | forSource {m : Handler} (hs : h.state = .passiveReceiveMaster)
      (hm : m = h.checkedMaster byte) (hdone : CompletesMaster h byte)
      (hstate : m.passiveTelegram.masterState = .seqOk)
      (htype : m.passiveTelegram.telegramType ≠ .broadcast)
      (haddr : m.passiveMaster.get 1 = m.sourceAddress) :
      Branch h byte response
        (((m.touch .passiveMaster 1).callWrite Symbols.ack).goto
          .reactiveSendMasterPositiveAcknowledge)
  | forTarget {m a : Handler} (hs : h.state = .passiveReceiveMaster)
      (hm : m = h.checkedMaster byte) (hdone : CompletesMaster h byte)
      (hstate : m.passiveTelegram.masterState = .seqOk)
      (htype : m.passiveTelegram.telegramType ≠ .broadcast)
      (hother : m.passiveMaster.get 1 ≠ m.sourceAddress)
      (haddr : m.passiveMaster.get 1 = m.targetAddress)
      (ha : a = ((m.touch .passiveMaster 1).touch .passiveMaster 1).answered response)
      (hslave : a.passiveTelegram.slaveState = .seqOk) :
      Branch h byte response
        (({ a with passiveSlave := a.answerBytes }.callWrite Symbols.ack).goto
          .reactiveSendMasterPositiveAcknowledge)
  | badAnswer {m a : Handler} (hs : h.state = .passiveReceiveMaster)
      (hm : m = h.checkedMaster byte) (hdone : CompletesMaster h byte)
      (hstate : m.passiveTelegram.masterState = .seqOk)
      (htype : m.passiveTelegram.telegramType ≠ .broadcast)
      (hother : m.passiveMaster.get 1 ≠ m.sourceAddress)
      (haddr : m.passiveMaster.get 1 = m.targetAddress)
      (ha : a = ((m.touch .passiveMaster 1).touch .passiveMaster 1).answered response)
      (hslave : a.passiveTelegram.slaveState ≠ .seqOk) :
      Branch h byte response
        (((a.callOnError .error .errorReactiveSlave a.passiveTelegram.slaveState
          a.passiveMaster.bytes a.passiveSlave.bytes).callPassiveReset.callWrite
            Symbols.syn).goto .releaseBus)
  | observed {m : Handler} (hs : h.state = .passiveReceiveMaster)
      (hm : m = h.checkedMaster byte) (hdone : CompletesMaster h byte)
      (hstate : m.passiveTelegram.masterState = .seqOk)
      (htype : m.passiveTelegram.telegramType ≠ .broadcast)
      (hother : m.passiveMaster.get 1 ≠ m.sourceAddress)
      (hother' : m.passiveMaster.get 1 ≠ m.targetAddress) :
      Branch h byte response
        (((m.touch .passiveMaster 1).touch .passiveMaster 1).goto
          .passiveReceiveMasterAcknowledge)
  | refused {m t : Handler} (hs : h.state = .passiveReceiveMaster)
      (hm : m = h.checkedMaster byte) (hdone : CompletesMaster h byte)
      (hstate : m.passiveTelegram.masterState ≠ .seqOk)
      (ht : m.passiveMaster.get 1 = m.sourceAddress ∧ t = m.touch .passiveMaster 1 ∨
        m.passiveMaster.get 1 = m.targetAddress ∧
          t = (m.touch .passiveMaster 1).touch .passiveMaster 1) :
      Branch h byte response
        (((t.callOnError .error .errorReactiveMaster t.passiveTelegram.masterState
          t.passiveMaster.bytes t.passiveSlave.bytes).forgetMaster.callWrite
            Symbols.nak).goto .reactiveSendMasterNegativeAcknowledge)
  | observedBad {m : Handler} (hs : h.state = .passiveReceiveMaster)
      (hm : m = h.checkedMaster byte) (hdone : CompletesMaster h byte)
      (hstate : m.passiveTelegram.masterState ≠ .seqOk)
      (htype : m.passiveTelegram.telegramType = .masterMaster ∨
        m.passiveTelegram.telegramType = .masterSlave) :
      Branch h byte response
        (((m.touch .passiveMaster 1).touch .passiveMaster 1).goto
          .passiveReceiveMasterAcknowledge)
  | dropped {m t : Handler} (hs : h.state = .passiveReceiveMaster)
      (hm : m = h.checkedMaster byte) (hdone : CompletesMaster h byte)
      (hstate : m.passiveTelegram.masterState ≠ .seqOk)
      (ht : t = (m.touch .passiveMaster 1).touch .passiveMaster 1) :
      Branch h byte response
        (t.callOnError .error .errorPassiveMaster t.passiveTelegram.masterState
          t.passiveMaster.bytes t.passiveSlave.bytes).callPassiveReset
  | syn (hs : h.state = .passiveReceiveMaster) (hbyte : byte = Symbols.syn) :
      Branch h byte response h.receiveSyn
  -- passive_receive_master_acknowledge
  | ackedMasterMaster (hs : h.state = .passiveReceiveMasterAcknowledge)
      (hbyte : byte = Symbols.ack)
      (htype : h.passiveTelegram.telegramType = .masterMaster) :
      Branch h byte response
        ((h.callOnTelegram .passive .masterMaster h.passiveTelegram.master.bytes
          h.passiveTelegram.slave.bytes).callPassiveReset.goto .passiveReceiveMaster)
  | ackedMaster (hs : h.state = .passiveReceiveMasterAcknowledge) (hbyte : byte = Symbols.ack)
      (htype : h.passiveTelegram.telegramType ≠ .masterMaster) :
      Branch h byte response (h.goto .passiveReceiveSlave)
  | nackedMaster (hs : h.state = .passiveReceiveMasterAcknowledge)
      (hbyte : byte ≠ Symbols.ack) (hsyn : byte ≠ Symbols.syn)
      (hrep : h.passiveMasterRepeated = false) :
      Branch h byte response
        ({ h.forgetMaster with passiveMasterRepeated := true }.goto .passiveReceiveMaster)
  | badMasterAck (hs : h.state = .passiveReceiveMasterAcknowledge)
      (hbyte : byte ≠ Symbols.ack)
      (hrep : byte ≠ Symbols.syn → h.passiveMasterRepeated = true) :
      Branch h byte response
        ((h.callOnError .error .errorPassiveMasterAck h.passiveTelegram.masterState
          h.passiveMaster.bytes h.passiveSlave.bytes).callPassiveReset.goto
            .passiveReceiveMaster)
  -- passive_receive_slave
  | rejectedSlave (hs : h.state = .passiveReceiveSlave) (hempty : h.passiveSlave.bytes = [])
      (hbyte : SequenceLimits.maxDataBytes < byte) :
      Branch h byte response h.callPassiveReset
  | bufferedSlave (hs : h.state = .passiveReceiveSlave)
      (hok : h.passiveSlave.bytes = [] → byte ≤ SequenceLimits.maxDataBytes)
      (hmore : (h.bufferSlave byte).passiveSlave.size <
        1 + (h.bufferSlave byte).passiveSlaveDbx + 1) :
      Branch h byte response (h.bufferSlave byte)
  | observedSlave {m : Handler} (hs : h.state = .passiveReceiveSlave)
      (hok : h.passiveSlave.bytes = [] → byte ≤ SequenceLimits.maxDataBytes)
      (hdone : 1 + (h.bufferSlave byte).passiveSlaveDbx + 1 ≤
        (h.bufferSlave byte).passiveSlave.size)
      (hm : m = h.checkedSlave byte) (hstate : m.passiveTelegram.slaveState = .seqOk) :
      Branch h byte response (m.goto .passiveReceiveSlaveAcknowledge)
  | observedBadSlave {m : Handler} (hs : h.state = .passiveReceiveSlave)
      (hok : h.passiveSlave.bytes = [] → byte ≤ SequenceLimits.maxDataBytes)
      (hdone : 1 + (h.bufferSlave byte).passiveSlaveDbx + 1 ≤
        (h.bufferSlave byte).passiveSlave.size)
      (hm : m = h.checkedSlave byte) (hstate : m.passiveTelegram.slaveState ≠ .seqOk) :
      Branch h byte response
        ((m.callOnError .error .errorPassiveSlave m.passiveTelegram.slaveState
          m.passiveMaster.bytes m.passiveSlave.bytes).goto .passiveReceiveSlaveAcknowledge)
  -- passive_receive_slave_acknowledge
  | ackedSlave (hs : h.state = .passiveReceiveSlaveAcknowledge) (hbyte : byte = Symbols.ack) :
      Branch h byte response
        ((h.callOnTelegram .passive .masterSlave h.passiveTelegram.master.bytes
          h.passiveTelegram.slave.bytes).callPassiveReset.goto .passiveReceiveMaster)
  | nackedSlave (hs : h.state = .passiveReceiveSlaveAcknowledge) (hbyte : byte = Symbols.nak)
      (hrep : h.passiveSlaveRepeated = false) :
      Branch h byte response
        ({ h with passiveSlaveRepeated := true, passiveSlave := {},
                  passiveSlaveDbx := 0 }.goto .passiveReceiveSlave)
  | badSlaveAck (hs : h.state = .passiveReceiveSlaveAcknowledge) (hbyte : byte ≠ Symbols.ack)
      (hrep : byte = Symbols.nak → h.passiveSlaveRepeated = true) :
      Branch h byte response
        ((h.callOnError .error .errorPassiveSlaveAck h.passiveTelegram.slaveState
          h.passiveMaster.bytes h.passiveSlave.bytes).callPassiveReset.goto
            .passiveReceiveMaster)
  -- reactive_send_master_positive_acknowledge
  | receivedMasterMaster (hs : h.state = .reactiveSendMasterPositiveAcknowledge)
      (htype : h.passiveTelegram.telegramType = .masterMaster) :
      Branch h byte response
        ((h.callOnTelegram .reactive .masterMaster h.passiveTelegram.master.bytes
          h.passiveTelegram.slave.bytes).callPassiveReset.goto .passiveReceiveMaster)
  | nothingToSend (hs : h.state = .reactiveSendMasterPositiveAcknowledge)
      (htype : h.passiveTelegram.telegramType ≠ .masterMaster)
      (hindex : h.passiveSlave.size ≤ h.passiveSlaveIndex) :
      Branch h byte response
        ((h.callOnError .error .illegalFsmTransition h.passiveTelegram.masterState
          h.passiveMaster.bytes h.passiveSlave.bytes).callPassiveReset.goto
            .passiveReceiveMaster)
  | sendsFirst (hs : h.state = .reactiveSendMasterPositiveAcknowledge)
      (htype : h.passiveTelegram.telegramType ≠ .masterMaster)
      (hindex : h.passiveSlaveIndex < h.passiveSlave.size) :
      Branch h byte response
        (((h.touch .passiveSlave h.passiveSlaveIndex).callWrite
          (h.passiveSlave.get h.passiveSlaveIndex)).goto .reactiveSendSlave)
  -- reactive_send_master_negative_acknowledge
  | awaitsRepetition (hs : h.state = .reactiveSendMasterNegativeAcknowledge)
      (hrep : h.passiveMasterRepeated = false) :
      Branch h byte response
        { h.goto .passiveReceiveMaster with passiveMasterRepeated := true }
  | refusedTwice (hs : h.state = .reactiveSendMasterNegativeAcknowledge)
      (hrep : h.passiveMasterRepeated = true) :
      Branch h byte response
        ((h.goto .passiveReceiveMaster).callOnError .error .errorReactiveMasterAck
          h.passiveTelegram.masterState h.passiveMaster.bytes
          h.passiveSlave.bytes).callPassiveReset
  -- reactive_send_slave
  | sentSlave (hs : h.state = .reactiveSendSlave)
      (hindex : h.passiveSlave.size ≤ h.passiveSlaveIndex + 1) :
      Branch h byte response
        ({ h with passiveSlaveIndex := h.passiveSlaveIndex + 1 }.goto
          .reactiveReceiveSlaveAcknowledge)
  | sendsNext (hs : h.state = .reactiveSendSlave)
      (hindex : h.passiveSlaveIndex + 1 < h.passiveSlave.size) :
      Branch h byte response
        (({ h with passiveSlaveIndex := h.passiveSlaveIndex + 1 }.touch .passiveSlave
          (h.passiveSlaveIndex + 1)).callWrite
            (h.passiveSlave.get (h.passiveSlaveIndex + 1)))
  -- reactive_receive_slave_acknowledge
  | answerAcked (hs : h.state = .reactiveReceiveSlaveAcknowledge) (hbyte : byte = Symbols.ack) :
      Branch h byte response
        ((h.callOnTelegram .reactive .masterSlave h.passiveTelegram.master.bytes
          h.passiveTelegram.slave.bytes).callPassiveReset.goto .passiveReceiveMaster)
  | answerNacked (hs : h.state = .reactiveReceiveSlaveAcknowledge) (hbyte : byte = Symbols.nak)
      (hrep : h.passiveSlaveRepeated = false) :
      Branch h byte response
        (({ h.touch .passiveSlave 0 with
            passiveSlaveRepeated := true, passiveSlaveIndex := 0 }.callWrite
              (h.passiveSlave.get 0)).goto .reactiveSendSlave)
  | badAnswerAck (hs : h.state = .reactiveReceiveSlaveAcknowledge) (hbyte : byte ≠ Symbols.ack)
      (hrep : byte = Symbols.nak → h.passiveSlaveRepeated = true) :
      Branch h byte response
        ((h.callOnError .error .errorReactiveSlaveAck h.passiveTelegram.slaveState
          h.passiveMaster.bytes h.passiveSlave.bytes).callPassiveReset.goto
            .passiveReceiveMaster)
  -- request_bus
  | waits (hs : h.state = .requestBus)
      (hresult : h.lastResult = .firstSyn ∨ h.lastResult = .firstRetry ∨
        h.lastResult = .retrySyn) :
      Branch h byte response h
  | won {m : Handler} (hs : h.state = .requestBus)
      (hresult : h.lastResult = .firstWon ∨ h.lastResult = .secondWon)
      (hm : m = { h with activeMaster := h.messageBytes }) (hsize : 1 < m.activeMaster.size) :
      Branch h byte response
        ((({ m.emit .won with activeMasterIndex := 1 }.touch .activeMaster 1).callWrite
          (m.activeMaster.get 1)).goto .activeSendMaster)
  | wonEmpty {m : Handler} (hs : h.state = .requestBus)
      (hresult : h.lastResult = .firstWon ∨ h.lastResult = .secondWon)
      (hm : m = { h with activeMaster := h.messageBytes }) (hsize : m.activeMaster.size ≤ 1) :
      Branch h byte response ((m.dropMessage.callWrite Symbols.syn).goto .releaseBus)
  | lost (hs : h.state = .requestBus)
      (hresult : h.lastResult = .firstLost ∨ h.lastResult = .firstError ∨
        h.lastResult = .secondLost ∨ h.lastResult = .secondError) :
      Branch h byte response
        ({ h.dropMessage with passiveMaster := h.passiveMaster.pushBack byte true }.goto
          .passiveReceiveMaster)
  | failed (hs : h.state = .requestBus)
      (hresult : h.lastResult = .observeSyn ∨ h.lastResult = .observeData ∨
        h.lastResult = .retryError) :
      Branch h byte response (h.dropMessage.goto .passiveReceiveMaster)
  -- active_send_master
  | nothingSent (hs : h.state = .activeSendMaster)
      (hindex : h.activeMaster.size ≤ h.activeMasterIndex) :
      Branch h byte response
        ((h.callOnError .error .illegalFsmTransition h.activeTelegram.masterState
          h.activeMaster.bytes h.activeSlave.bytes).callActiveReset.goto .passiveReceiveMaster)
  | badEcho {t : Handler} (hs : h.state = .activeSendMaster)
      (hindex : h.activeMasterIndex < h.activeMaster.size)
      (hbyte : byte ≠ h.activeMaster.get h.activeMasterIndex)
      (ht : t = h.touch .activeMaster h.activeMasterIndex) :
      Branch h byte response
        ((t.callOnError .error .errorActiveMasterEcho t.activeTelegram.masterState
          t.activeMaster.bytes t.activeSlave.bytes).callActiveReset.goto .passiveReceiveMaster)
  | sentBroadcast {t : Handler} (hs : h.state = .activeSendMaster)
      (hindex : h.activeMasterIndex < h.activeMaster.size)
      (hbyte : byte = h.activeMaster.get h.activeMasterIndex)
      (hlast : h.activeMaster.size ≤ h.activeMasterIndex + 1)
      (htype : h.activeTelegram.telegramType = .broadcast)
      (ht : t = { h.touch .activeMaster h.activeMasterIndex with
                  activeMasterIndex := h.activeMasterIndex + 1 }) :
      Branch h byte response
        (((t.callOnTelegram .active .broadcast t.activeMaster.bytes
          t.activeSlave.bytes).callActiveReset.callWrite Symbols.syn).goto .releaseBus)
  | sentMaster (hs : h.state = .activeSendMaster)
      (hindex : h.activeMasterIndex < h.activeMaster.size)
      (hbyte : byte = h.activeMaster.get h.activeMasterIndex)
      (hlast : h.activeMaster.size ≤ h.activeMasterIndex + 1)
      (htype : h.activeTelegram.telegramType ≠ .broadcast) :
      Branch h byte response
        ({ h.touch .activeMaster h.activeMasterIndex with
           activeMasterIndex := h.activeMasterIndex + 1 }.goto .activeReceiveMasterAcknowledge)
  | sendsMaster (hs : h.state = .activeSendMaster)
      (hindex : h.activeMasterIndex + 1 < h.activeMaster.size)
      (hbyte : byte = h.activeMaster.get h.activeMasterIndex) :
      Branch h byte response
        (({ h.touch .activeMaster h.activeMasterIndex with
            activeMasterIndex := h.activeMasterIndex + 1 }.touch .activeMaster
              (h.activeMasterIndex + 1)).callWrite
                (h.activeMaster.get (h.activeMasterIndex + 1)))
  -- active_receive_master_acknowledge
  | deliveredMasterMaster (hs : h.state = .activeReceiveMasterAcknowledge)
      (hbyte : byte = Symbols.ack)
      (htype : h.activeTelegram.telegramType = .masterMaster) :
      Branch h byte response
        (((h.callOnTelegram .active .masterMaster h.activeMaster.bytes
          h.activeSlave.bytes).callActiveReset.callWrite Symbols.syn).goto .releaseBus)
  | deliveredMaster (hs : h.state = .activeReceiveMasterAcknowledge)
      (hbyte : byte = Symbols.ack)
      (htype : h.activeTelegram.telegramType ≠ .masterMaster) :
      Branch h byte response (h.goto .activeReceiveSlave)
  | resendsMaster (hs : h.state = .activeReceiveMasterAcknowledge)
      (hbyte : byte = Symbols.nak) (hrep : h.activeMasterRepeated = false) :
      Branch h byte response
        (({ h.touch .activeMaster 0 with
            activeMasterRepeated := true, activeMasterIndex := 0 }.callWrite
              (h.activeMaster.get 0)).goto .activeSendMaster)
  | undelivered (hs : h.state = .activeReceiveMasterAcknowledge) (hbyte : byte ≠ Symbols.ack)
      (hrep : byte = Symbols.nak → h.activeMasterRepeated = true) :
      Branch h byte response
        (((h.callOnError .error .errorActiveMasterAck h.activeTelegram.masterState
          h.activeMaster.bytes h.activeSlave.bytes).callActiveReset.callWrite
            Symbols.syn).goto .releaseBus)
  -- active_receive_slave
  | rejectedActiveSlave (hs : h.state = .activeReceiveSlave)
      (hempty : h.activeSlave.bytes = []) (hbyte : SequenceLimits.maxDataBytes < byte) :
      Branch h byte response
        (({ h.callOnError .error .errorActiveSlave .errDataByte h.activeMaster.bytes [] with
            activeSlave := {}, activeSlaveDbx := 0 }.callWrite Symbols.nak).goto
              .activeSendSlaveNegativeAcknowledge)
  | bufferedActiveSlave (hs : h.state = .activeReceiveSlave)
      (hok : h.activeSlave.bytes = [] → byte ≤ SequenceLimits.maxDataBytes)
      (hmore : (h.bufferActiveSlave byte).activeSlave.size <
        1 + (h.bufferActiveSlave byte).activeSlaveDbx + 1) :
      Branch h byte response (h.bufferActiveSlave byte)
  | receivedSlave {m : Handler} (hs : h.state = .activeReceiveSlave)
      (hok : h.activeSlave.bytes = [] → byte ≤ SequenceLimits.maxDataBytes)
      (hdone : 1 + (h.bufferActiveSlave byte).activeSlaveDbx + 1 ≤
        (h.bufferActiveSlave byte).activeSlave.size)
      (hm : m = h.checkedActiveSlave byte) (hstate : m.activeTelegram.slaveState = .seqOk) :
      Branch h byte response
        ((m.callWrite Symbols.ack).goto .activeSendSlavePositiveAcknowledge)
  | receivedBadSlave {m : Handler} (hs : h.state = .activeReceiveSlave)
      (hok : h.activeSlave.bytes = [] → byte ≤ SequenceLimits.maxDataBytes)
      (hdone : 1 + (h.bufferActiveSlave byte).activeSlaveDbx + 1 ≤
        (h.bufferActiveSlave byte).activeSlave.size)
      (hm : m = h.checkedActiveSlave byte) (hstate : m.activeTelegram.slaveState ≠ .seqOk) :
      Branch h byte response
        (({ m.callOnError .error .errorActiveSlave m.activeTelegram.slaveState
              m.activeMaster.bytes m.activeSlave.bytes with
            activeSlave := {}, activeSlaveDbx := 0 }.callWrite Symbols.nak).goto
              .activeSendSlaveNegativeAcknowledge)
  -- active_send_slave_positive_acknowledge
  | exchanged (hs : h.state = .activeSendSlavePositiveAcknowledge) :
      Branch h byte response
        (((h.callOnTelegram .active .masterSlave h.activeTelegram.master.bytes
          h.activeTelegram.slave.bytes).callActiveReset.callWrite Symbols.syn).goto .releaseBus)
  -- active_send_slave_negative_acknowledge
  | awaitsSlave (hs : h.state = .activeSendSlaveNegativeAcknowledge)
      (hrep : h.activeSlaveRepeated = false) :
      Branch h byte response ({ h with activeSlaveRepeated := true }.goto .activeReceiveSlave)
  | noSlave (hs : h.state = .activeSendSlaveNegativeAcknowledge)
      (hrep : h.activeSlaveRepeated = true) :
      Branch h byte response
        (((h.callOnError .error .errorActiveSlaveAck h.activeTelegram.slaveState
          h.activeMaster.bytes h.activeSlave.bytes).callActiveReset.callWrite
            Symbols.syn).goto .releaseBus)
  -- release_bus
  | released (hs : h.state = .releaseBus) :
      Branch h byte response (h.goto .passiveReceiveMaster)

/-- The check of the passive buffers leaves the own message alone. -/
theorem checkPassiveBuffers_kept (h : Handler) :
    h.checkPassiveBuffers.request = h.request ∧
      h.checkPassiveBuffers.sourceAddress = h.sourceAddress ∧
      h.checkPassiveBuffers.state = h.state ∧
      h.checkPassiveBuffers.activeMessage = h.activeMessage ∧
      h.checkPassiveBuffers.activeMaster = h.activeMaster ∧
      h.checkPassiveBuffers.activeSlave = h.activeSlave := by
  unfold checkPassiveBuffers
  split <;> simp

theorem checkActiveBuffers_kept (h : Handler) :
    h.checkActiveBuffers.request = h.request ∧
      h.checkActiveBuffers.sourceAddress = h.sourceAddress ∧
      h.checkActiveBuffers.state = h.state := by
  unfold checkActiveBuffers
  split <;> simp

/-- The rule for a SYN: what holds of the engine is to be kept by the two buffer
checks, where they find something, and by the request for the bus. -/
theorem receiveSyn_rule {h : Handler} {P : Handler → Prop} (start : P h)
    (passive : 0 < h.passiveMaster.size ∨ 0 < h.passiveSlave.size → ∀ state,
      P (h.callOnError .info .checkPassiveBuffers state h.passiveMaster.bytes
        h.passiveSlave.bytes).callPassiveReset)
    (active : ∀ a : Handler, P a → 0 < a.activeMaster.size ∨ 0 < a.activeSlave.size →
      ∀ state, P (a.callOnError .info .checkActiveBuffers state a.activeMaster.bytes
        a.activeSlave.bytes).callActiveReset)
    (request : ∀ a : Handler, P a → a.activeMessage = true →
      P { a with request := (a.request.requestBus a.sourceAddress false).1 }) :
    P h.receiveSyn := by
  have hpassive : P h.checkPassiveBuffers := by
    unfold checkPassiveBuffers
    split
    · rename_i hfull
      exact passive hfull _
    · exact start
  have hactive : P h.checkPassiveBuffers.checkActiveBuffers := by
    unfold checkActiveBuffers
    split
    · rename_i hfull
      exact active _ hpassive hfull _
    · exact hpassive
  unfold receiveSyn
  dsimp only
  split
  · rename_i hmessage
    exact request _ hactive hmessage
  · exact hactive

theorem receiveSyn_state (h : Handler) : h.receiveSyn.state = h.state := by
  apply receiveSyn_rule (P := fun a => a.state = h.state) rfl
  · exact fun _ _ => rfl
  · exact fun _ ha _ _ => ha
  · exact fun _ ha _ => ha

theorem receiveSyn_sourceAddress (h : Handler) :
    h.receiveSyn.sourceAddress = h.sourceAddress := by
  apply receiveSyn_rule (P := fun a => a.sourceAddress = h.sourceAddress) rfl
  · exact fun _ _ => rfl
  · exact fun _ ha _ _ => ha
  · exact fun _ ha _ => ha

section Completeness

variable {h : Handler} {byte : UInt8} {response : Sequence}

private theorem acceptMaster_branch {m : Handler} (hs : h.state = .passiveReceiveMaster)
    (hm : m = h.checkedMaster byte) (hdone : CompletesMaster h byte)
    (hstate : m.passiveTelegram.masterState = .seqOk) :
    Branch h byte response (m.acceptMaster response) := by
  have hms : m.state = .passiveReceiveMaster := by simp [hm, hs]
  unfold acceptMaster
  by_cases htype : m.passiveTelegram.telegramType = .broadcast
  · rw [if_pos htype]
    exact .broadcast hs hm hdone hstate htype
  · rw [if_neg htype]
    by_cases hsrc : m.passiveMaster.get 1 = m.sourceAddress
    · rw [if_pos (by simpa using hsrc), transitionTo_of_permitted (by simp [hms, transitionMasks])]
      exact .forSource hs hm hdone hstate htype hsrc
    · rw [if_neg (by simpa using hsrc)]
      by_cases htgt : m.passiveMaster.get 1 = m.targetAddress
      · rw [if_pos (by simpa using htgt)]
        generalize ha : ((m.touch .passiveMaster 1).touch .passiveMaster 1).answered response = a
        have has : a.state = .passiveReceiveMaster := by simp [← ha, hms]
        change Branch h byte response (if _ then _ else _)
        rw [answered] at ha
        rw [ha]
        by_cases hslave : a.passiveTelegram.slaveState = .seqOk
        · rw [if_pos hslave, transitionTo_of_permitted (by simp [has, transitionMasks])]
          exact .forTarget hs hm hdone hstate htype hsrc htgt ha.symm hslave
        · rw [if_neg hslave, transitionTo_of_permitted (by simp [has, transitionMasks])]
          exact .badAnswer hs hm hdone hstate htype hsrc htgt ha.symm hslave
      · rw [if_neg (by simpa using htgt),
          transitionTo_of_permitted (by simp [hms, transitionMasks])]
        exact .observed hs hm hdone hstate htype hsrc htgt

private theorem rejectMaster_branch {m : Handler} (hs : h.state = .passiveReceiveMaster)
    (hm : m = h.checkedMaster byte) (hdone : CompletesMaster h byte)
    (hstate : m.passiveTelegram.masterState ≠ .seqOk) :
    Branch h byte response m.rejectMaster := by
  have hms : m.state = .passiveReceiveMaster := by simp [hm, hs]
  unfold rejectMaster
  by_cases hsrc : m.passiveMaster.get 1 = m.sourceAddress
  · rw [if_pos (by simpa using hsrc)]
    dsimp only
    rw [transitionTo_of_permitted (by simp [hms, transitionMasks])]
    exact .refused hs hm hdone hstate (.inl ⟨hsrc, rfl⟩)
  · rw [if_neg (by simpa using hsrc)]
    by_cases htgt : m.passiveMaster.get 1 = m.targetAddress
    · rw [if_pos (by simpa using htgt)]
      dsimp only
      rw [transitionTo_of_permitted (by simp [hms, transitionMasks])]
      exact .refused hs hm hdone hstate (.inr ⟨htgt, rfl⟩)
    · rw [if_neg (by simpa using htgt)]
      by_cases htype : m.passiveTelegram.telegramType = .masterMaster ∨
          m.passiveTelegram.telegramType = .masterSlave
      · rw [if_pos (by simpa using htype),
          transitionTo_of_permitted (by simp [hms, transitionMasks])]
        exact .observedBad hs hm hdone hstate htype
      · rw [if_neg (by simpa using htype)]
        exact .dropped hs hm hdone hstate rfl

private theorem passiveReceiveMaster_branch (hs : h.state = .passiveReceiveMaster) :
    Branch h byte response (h.passiveReceiveMaster byte response) := by
  unfold passiveReceiveMaster
  by_cases hbyte : byte = Symbols.syn
  · rw [if_neg (not_not.mpr hbyte)]
    exact .syn hs hbyte
  · rw [if_pos hbyte]
    by_cases hok : headerByteOk h.passiveMaster.size byte = true
    · rw [if_pos hok]
      by_cases hlen : 5 + (h.bufferMaster byte).passiveMasterDbx + 1 ≤
          (h.bufferMaster byte).passiveMaster.size
      · rw [if_pos hlen]
        have hdone : CompletesMaster h byte := ⟨hbyte, hok, hlen⟩
        change Branch h byte response
          (if (h.checkedMaster byte).passiveTelegram.masterState = .seqOk then _ else _)
        by_cases hstate : (h.checkedMaster byte).passiveTelegram.masterState = .seqOk
        · rw [if_pos hstate]
          exact acceptMaster_branch hs rfl hdone hstate
        · rw [if_neg hstate]
          exact rejectMaster_branch hs rfl hdone hstate
      · rw [if_neg hlen]
        exact .buffered hs hbyte hok (fun hdone => hlen hdone.2.2)
    · rw [if_neg hok]
      exact .rejectedByte hs hbyte (by simpa using hok)

private theorem passiveReceiveMasterAcknowledge_branch
    (hs : h.state = .passiveReceiveMasterAcknowledge) :
    Branch h byte response (h.passiveReceiveMasterAcknowledge byte) := by
  unfold passiveReceiveMasterAcknowledge
  by_cases hack : byte = Symbols.ack
  · rw [if_pos hack]
    by_cases htype : h.passiveTelegram.telegramType = .masterMaster
    · rw [if_pos htype, transitionTo_of_permitted (by simp [hs, transitionMasks])]
      exact .ackedMasterMaster hs hack htype
    · rw [if_neg htype, transitionTo_of_permitted (by simp [hs, transitionMasks])]
      exact .ackedMaster hs hack htype
  · rw [if_neg hack]
    by_cases hrep : byte ≠ Symbols.syn ∧ !h.passiveMasterRepeated
    · rw [if_pos hrep, transitionTo_of_permitted (by simp [hs, transitionMasks])]
      exact .nackedMaster hs hack hrep.1 (by simpa using hrep.2)
    · rw [if_neg hrep, transitionTo_of_permitted (by simp [hs, transitionMasks])]
      exact .badMasterAck hs hack (by simpa using hrep)

private theorem slave_hok {s : Sequence} (h : ¬ (s.empty ∧ SequenceLimits.maxDataBytes < byte)) :
    s.bytes = [] → byte ≤ SequenceLimits.maxDataBytes := by
  intro hnil
  by_contra hlt
  exact h ⟨by simp [Sequence.empty, hnil], UInt8.not_le.mp hlt⟩

private theorem passiveReceiveSlave_branch (hs : h.state = .passiveReceiveSlave) :
    Branch h byte response (h.passiveReceiveSlave byte) := by
  unfold passiveReceiveSlave
  by_cases hbad : h.passiveSlave.empty ∧ SequenceLimits.maxDataBytes < byte
  · rw [if_pos hbad]
    exact .rejectedSlave hs (by simpa [Sequence.empty] using hbad.1) hbad.2
  · rw [if_neg hbad]
    have hok := slave_hok hbad
    by_cases hlen : 1 + (h.bufferSlave byte).passiveSlaveDbx + 1 ≤
        (h.bufferSlave byte).passiveSlave.size
    · rw [if_pos hlen]
      change Branch h byte response (transitionTo
        (if (h.checkedSlave byte).passiveTelegram.slaveState ≠ .seqOk then _
          else h.checkedSlave byte) _)
      by_cases hstate : (h.checkedSlave byte).passiveTelegram.slaveState = .seqOk
      · rw [if_neg (not_not.mpr hstate),
          transitionTo_of_permitted (by simp [hs, transitionMasks])]
        exact .observedSlave hs hok hlen rfl hstate
      · rw [if_pos hstate, transitionTo_of_permitted (by
          simp [createPassiveSlave, bufferSlave, hs, transitionMasks])]
        exact .observedBadSlave hs hok hlen rfl hstate
    · rw [if_neg hlen]
      exact .bufferedSlave hs hok (by omega)

private theorem passiveReceiveSlaveAcknowledge_branch
    (hs : h.state = .passiveReceiveSlaveAcknowledge) :
    Branch h byte response (h.passiveReceiveSlaveAcknowledge byte) := by
  unfold passiveReceiveSlaveAcknowledge
  by_cases hack : byte = Symbols.ack
  · rw [if_pos hack, transitionTo_of_permitted (by simp [hs, transitionMasks])]
    exact .ackedSlave hs hack
  · rw [if_neg hack]
    by_cases hrep : byte = Symbols.nak ∧ !h.passiveSlaveRepeated
    · rw [if_pos hrep, transitionTo_of_permitted (by simp [hs, transitionMasks])]
      exact .nackedSlave hs hrep.1 (by simpa using hrep.2)
    · rw [if_neg hrep, transitionTo_of_permitted (by simp [hs, transitionMasks])]
      exact .badSlaveAck hs hack (by simpa using hrep)

private theorem reactiveSendMasterPositiveAcknowledge_branch
    (hs : h.state = .reactiveSendMasterPositiveAcknowledge) :
    Branch h byte response h.reactiveSendMasterPositiveAcknowledge := by
  unfold reactiveSendMasterPositiveAcknowledge
  by_cases htype : h.passiveTelegram.telegramType = .masterMaster
  · rw [if_pos htype, transitionTo_of_permitted (by simp [hs, transitionMasks])]
    exact .receivedMasterMaster hs htype
  · rw [if_neg htype]
    by_cases hindex : h.passiveSlave.size ≤ h.passiveSlaveIndex
    · rw [if_pos hindex, transitionTo_of_permitted (by simp [hs, transitionMasks])]
      exact .nothingToSend hs htype hindex
    · rw [if_neg hindex, transitionTo_of_permitted (by simp [hs, transitionMasks])]
      exact .sendsFirst hs htype (by omega)

private theorem reactiveSendMasterNegativeAcknowledge_branch
    (hs : h.state = .reactiveSendMasterNegativeAcknowledge) :
    Branch h byte response h.reactiveSendMasterNegativeAcknowledge := by
  unfold reactiveSendMasterNegativeAcknowledge
  rw [transitionTo_of_permitted (by simp [hs, transitionMasks])]
  by_cases hrep : h.passiveMasterRepeated = true
  · rw [if_neg (by simpa using hrep)]
    exact .refusedTwice hs hrep
  · rw [if_pos (by simpa using hrep)]
    exact .awaitsRepetition hs (by simpa using hrep)

private theorem reactiveSendSlave_branch (hs : h.state = .reactiveSendSlave) :
    Branch h byte response h.reactiveSendSlave := by
  unfold reactiveSendSlave
  by_cases hindex : h.passiveSlave.size ≤ h.passiveSlaveIndex + 1
  · rw [if_pos hindex, transitionTo_of_permitted (by simp [hs, transitionMasks])]
    exact .sentSlave hs hindex
  · rw [if_neg hindex]
    exact .sendsNext hs (by omega)

private theorem reactiveReceiveSlaveAcknowledge_branch
    (hs : h.state = .reactiveReceiveSlaveAcknowledge) :
    Branch h byte response (h.reactiveReceiveSlaveAcknowledge byte) := by
  unfold reactiveReceiveSlaveAcknowledge
  by_cases hack : byte = Symbols.ack
  · rw [if_pos hack, transitionTo_of_permitted (by simp [hs, transitionMasks])]
    exact .answerAcked hs hack
  · rw [if_neg hack]
    by_cases hrep : byte = Symbols.nak ∧ !h.passiveSlaveRepeated
    · rw [if_pos hrep, transitionTo_of_permitted (by simp [hs, transitionMasks])]
      exact .answerNacked hs hrep.1 (by simpa using hrep.2)
    · rw [if_neg hrep, transitionTo_of_permitted (by simp [hs, transitionMasks])]
      exact .badAnswerAck hs hack (by simpa using hrep)

private theorem arbitrationWon_branch (hs : h.state = .requestBus)
    (hresult : h.lastResult = .firstWon ∨ h.lastResult = .secondWon) :
    Branch h byte response h.arbitrationWon := by
  unfold arbitrationWon
  by_cases hsize : 1 < h.messageBytes.size
  · rw [if_pos (by exact hsize), transitionTo_of_permitted (by simp [hs, transitionMasks])]
    exact .won hs hresult rfl hsize
  · rw [if_neg (by exact hsize), transitionTo_of_permitted (by simp [hs, transitionMasks])]
    exact .wonEmpty hs hresult rfl (Nat.not_lt.mp hsize)

private theorem requestBus_branch (hs : h.state = .requestBus) :
    Branch h byte response (h.requestBus byte) := by
  have hlost (hresult : h.lastResult = .firstLost ∨ h.lastResult = .firstError ∨
      h.lastResult = .secondLost ∨ h.lastResult = .secondError) :
      Branch h byte response (h.arbitrationLost byte) := by
    unfold arbitrationLost
    rw [transitionTo_of_permitted (by simp [hs, transitionMasks])]
    exact .lost hs hresult
  have hfailed (hresult : h.lastResult = .observeSyn ∨ h.lastResult = .observeData ∨
      h.lastResult = .retryError) : Branch h byte response h.arbitrationError := by
    unfold arbitrationError
    rw [transitionTo_of_permitted (by simp [hs, transitionMasks])]
    exact .failed hs hresult
  unfold Handler.requestBus
  split <;> rename_i hresult
  · exact hfailed (.inl hresult)
  · exact hfailed (.inr (.inl hresult))
  · exact .waits hs (.inl hresult)
  · exact arbitrationWon_branch hs (.inl hresult)
  · exact .waits hs (.inr (.inl hresult))
  · exact hlost (.inl hresult)
  · exact hlost (.inr (.inl hresult))
  · exact .waits hs (.inr (.inr hresult))
  · exact hfailed (.inr (.inr hresult))
  · exact arbitrationWon_branch hs (.inr hresult)
  · exact hlost (.inr (.inr (.inl hresult)))
  · exact hlost (.inr (.inr (.inr hresult)))

private theorem activeSendMaster_branch (hs : h.state = .activeSendMaster) :
    Branch h byte response (h.activeSendMaster byte) := by
  unfold activeSendMaster
  by_cases hindex : h.activeMaster.size ≤ h.activeMasterIndex
  · rw [if_pos hindex, transitionTo_of_permitted (by simp [hs, transitionMasks])]
    exact .nothingSent hs hindex
  · rw [if_neg hindex]
    have hlt := Nat.not_le.mp hindex
    by_cases hbyte : byte = h.activeMaster.get h.activeMasterIndex
    · rw [if_neg (by simpa using hbyte)]
      by_cases hlast : h.activeMaster.size ≤ h.activeMasterIndex + 1
      · rw [if_pos (by simpa using hlast)]
        by_cases htype : h.activeTelegram.telegramType = .broadcast
        · rw [if_pos (by simpa using htype)]
          unfold endActive
          rw [transitionTo_of_permitted (by simp [hs, transitionMasks])]
          exact .sentBroadcast hs hlt hbyte hlast htype rfl
        · rw [if_neg (by simpa using htype),
            transitionTo_of_permitted (by simp [hs, transitionMasks])]
          exact .sentMaster hs hlt hbyte hlast htype
      · rw [if_neg (by simpa using hlast)]
        exact .sendsMaster hs (Nat.not_le.mp hlast) hbyte
    · rw [if_pos (by simpa using hbyte), transitionTo_of_permitted (by simp [hs, transitionMasks])]
      exact .badEcho hs hlt hbyte rfl

private theorem activeReceiveMasterAcknowledge_branch
    (hs : h.state = .activeReceiveMasterAcknowledge) :
    Branch h byte response (h.activeReceiveMasterAcknowledge byte) := by
  unfold activeReceiveMasterAcknowledge endActive
  by_cases hack : byte = Symbols.ack
  · rw [if_pos hack]
    by_cases htype : h.activeTelegram.telegramType = .masterMaster
    · rw [if_pos htype, transitionTo_of_permitted (by simp [hs, transitionMasks])]
      exact .deliveredMasterMaster hs hack htype
    · rw [if_neg htype, transitionTo_of_permitted (by simp [hs, transitionMasks])]
      exact .deliveredMaster hs hack htype
  · rw [if_neg hack]
    by_cases hrep : byte = Symbols.nak ∧ !h.activeMasterRepeated
    · rw [if_pos hrep, transitionTo_of_permitted (by simp [hs, transitionMasks])]
      exact .resendsMaster hs hrep.1 (by simpa using hrep.2)
    · rw [if_neg hrep, transitionTo_of_permitted (by simp [hs, transitionMasks])]
      exact .undelivered hs hack (by simpa using hrep)

private theorem activeReceiveSlave_branch (hs : h.state = .activeReceiveSlave) :
    Branch h byte response (h.activeReceiveSlave byte) := by
  unfold activeReceiveSlave rejectSlave
  by_cases hbad : h.activeSlave.empty ∧ SequenceLimits.maxDataBytes < byte
  · rw [if_pos hbad, transitionTo_of_permitted (by simp [hs, transitionMasks])]
    exact .rejectedActiveSlave hs (by simpa [Sequence.empty] using hbad.1) hbad.2
  · rw [if_neg hbad]
    have hok := slave_hok hbad
    by_cases hlen : 1 + (h.bufferActiveSlave byte).activeSlaveDbx + 1 ≤
        (h.bufferActiveSlave byte).activeSlave.size
    · rw [if_pos hlen]
      by_cases hstate : (h.checkedActiveSlave byte).activeTelegram.slaveState = .seqOk
      · rw [if_pos (by exact hstate), transitionTo_of_permitted (by
          simp [createActiveSlave, bufferActiveSlave, hs, transitionMasks])]
        exact .receivedSlave hs hok hlen rfl hstate
      · rw [if_neg (by exact hstate), transitionTo_of_permitted (by
          simp [createActiveSlave, bufferActiveSlave, hs, transitionMasks])]
        exact .receivedBadSlave hs hok hlen rfl hstate
    · rw [if_neg hlen]
      exact .bufferedActiveSlave hs hok (by omega)

private theorem activeSendSlavePositiveAcknowledge_branch
    (hs : h.state = .activeSendSlavePositiveAcknowledge) :
    Branch h byte response h.activeSendSlavePositiveAcknowledge := by
  unfold activeSendSlavePositiveAcknowledge endActive
  rw [transitionTo_of_permitted (by simp [hs, transitionMasks])]
  exact .exchanged hs

private theorem activeSendSlaveNegativeAcknowledge_branch
    (hs : h.state = .activeSendSlaveNegativeAcknowledge) :
    Branch h byte response h.activeSendSlaveNegativeAcknowledge := by
  unfold activeSendSlaveNegativeAcknowledge endActive
  by_cases hrep : h.activeSlaveRepeated = true
  · rw [if_neg (by simpa using hrep), transitionTo_of_permitted (by simp [hs, transitionMasks])]
    exact .noSlave hs hrep
  · rw [if_pos (by simpa using hrep), transitionTo_of_permitted (by simp [hs, transitionMasks])]
    exact .awaitsSlave hs (by simpa using hrep)

private theorem releaseBus_branch (hs : h.state = .releaseBus) :
    Branch h byte response h.releaseBus := by
  unfold Handler.releaseBus
  rw [transitionTo_of_permitted (by simp [hs, transitionMasks])]
  exact .released hs

/-- Every step takes one of the branches. -/
theorem dispatch_branch (h : Handler) (byte : UInt8) (response : Sequence) :
    Branch h byte response (h.dispatch byte response) := by
  unfold dispatch
  split <;> rename_i hs
  · exact passiveReceiveMaster_branch hs
  · exact passiveReceiveMasterAcknowledge_branch hs
  · exact passiveReceiveSlave_branch hs
  · exact passiveReceiveSlaveAcknowledge_branch hs
  · exact reactiveSendMasterPositiveAcknowledge_branch hs
  · exact reactiveSendMasterNegativeAcknowledge_branch hs
  · exact reactiveSendSlave_branch hs
  · exact reactiveReceiveSlaveAcknowledge_branch hs
  · exact requestBus_branch hs
  · exact activeSendMaster_branch hs
  · exact activeReceiveMasterAcknowledge_branch hs
  · exact activeReceiveSlave_branch hs
  · exact activeSendSlavePositiveAcknowledge_branch hs
  · exact activeSendSlaveNegativeAcknowledge_branch hs
  · exact releaseBus_branch hs

end Completeness

end Handler

end Ebus
