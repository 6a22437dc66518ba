import Mathlib.Tactic.MkIffOfInductiveProp
import Ebus.Core.BusHandler

/-!
# Which verdicts a state can rely on

A telegram is reported several bytes after its parts were checked. This module
relates each state to the verdicts that the stored telegrams carry in it, for the
observed and answered traffic (`PassiveVerdicts`) and for the own message
(`ActiveVerdicts`). Both come in two forms: an invariant between events, and the
weaker fact that one step relies on (`PassiveReady`, `ActiveReady`), which leaves
out what the consumed byte makes irrelevant.

The set `good` of master verdicts that an observed acknowledge may follow is a
parameter: the engine itself does not look at the verdict there.
-/

namespace Ebus

namespace Handler

/-- Both telegrams are well formed; this holds in every run. -/
structure TelegramsWellFormed (h : Handler) : Prop where
  passive : h.passiveTelegram.WellFormed
  active : h.activeTelegram.WellFormed

theorem Branch.telegramsWellFormed {h d : Handler} {byte : UInt8} {response : Sequence}
    (hi : TelegramsWellFormed h) (hb : Branch h byte response d) : TelegramsWellFormed d := by
  obtain ⟨hp, ha⟩ := hi
  have hmaster := hp.createMaster (h.passiveMaster.pushBack byte true)
  have hslave := hp.createSlave (h.passiveSlave.pushBack byte true)
  have hactive := ha.createSlave (h.activeSlave.pushBack byte true)
  cases hb
  case syn =>
    apply receiveSyn_rule ⟨hp, ha⟩
    · intro _ _
      exact ⟨by simp, by simpa using ha⟩
    · intro a hinv _ _
      exact ⟨by simpa using hinv.passive, by simp⟩
    · intro a hinv _
      exact ⟨hinv.passive, hinv.active⟩
  case refused ht =>
    obtain ⟨-, rfl⟩ | ⟨-, rfl⟩ := ht <;> subst_vars <;> constructor <;> simp [ha]
  all_goals
    subst_vars
    constructor <;> simp [hp, ha, hmaster, hslave, hactive, hmaster.createSlave response]

theorem TelegramsWellFormed.ready {h : Handler} (hi : TelegramsWellFormed h)
    (event : BusEvent) : TelegramsWellFormed (h.ready event) := by
  cases hstart : event.startBit with
  | false =>
      obtain ⟨request, hready⟩ := h.ready_of_quiet event hstart
      rw [hready]
      exact ⟨hi.passive, hi.active⟩
  | true =>
      obtain ⟨request, -, hready⟩ := h.ready_of_startBit event hstart
      rw [hready]
      constructor <;> simp

theorem TelegramsWellFormed.flush {h : Handler} (hi : TelegramsWellFormed h) :
    TelegramsWellFormed h.flush := by
  obtain ⟨log, hflush⟩ := h.flush_eq
  rw [hflush]
  exact ⟨hi.passive, hi.active⟩

theorem TelegramsWellFormed.onBusEvent {h : Handler} (hi : TelegramsWellFormed h)
    (event : BusEvent) (response : Sequence) :
    TelegramsWellFormed (BusHandler.onBusEvent h event response) := by
  obtain ⟨d, hbranch, heq⟩ := BusHandler.onBusEvent_branch h event response
  rw [heq]
  exact (hbranch.telegramsWellFormed (hi.ready event)).flush

/-- Between events: while an acknowledge or a slave part is awaited the master part
has a good verdict, and while the own answer is sent both parts have passed. -/
@[mk_iff] structure PassiveVerdicts (good : SequenceState → Prop) (h : Handler) : Prop where
  observed : h.state = .passiveReceiveSlave ∨ h.state = .passiveReceiveSlaveAcknowledge →
    good h.passiveTelegram.masterState
  answering : h.state = .reactiveSendMasterPositiveAcknowledge ∨ h.state = .reactiveSendSlave ∨
    h.state = .reactiveReceiveSlaveAcknowledge → h.passiveTelegram.masterState = .seqOk
  answer : h.state = .reactiveSendMasterPositiveAcknowledge ∧
      h.passiveTelegram.telegramType ≠ .masterMaster ∨
    h.state = .reactiveSendSlave ∨ h.state = .reactiveReceiveSlaveAcknowledge →
    h.passiveTelegram.slaveState = .seqOk
  address : isMaster h.sourceAddress = true

/-- What one step relies on. -/
structure PassiveReady (good : SequenceState → Prop) (h : Handler) (byte : UInt8) : Prop where
  acked : h.state = .passiveReceiveMasterAcknowledge → byte = Symbols.ack →
    good h.passiveTelegram.masterState
  slave : h.state = .passiveReceiveSlave → good h.passiveTelegram.masterState
  count : h.state = .passiveReceiveSlave → h.passiveSlave.bytes = [] →
    byte ≤ SequenceLimits.maxDataBytes
  slaveAck : h.state = .passiveReceiveSlaveAcknowledge → byte = Symbols.ack ∨ byte = Symbols.nak →
    good h.passiveTelegram.masterState
  received : h.state = .reactiveSendMasterPositiveAcknowledge →
    h.passiveTelegram.telegramType = .masterMaster → h.passiveTelegram.masterState = .seqOk
  sending : (h.state = .reactiveSendMasterPositiveAcknowledge ∧
      h.passiveTelegram.telegramType ≠ .masterMaster ∧ h.passiveSlaveIndex < h.passiveSlave.size) ∨
    h.state = .reactiveSendSlave ∨
    (h.state = .reactiveReceiveSlaveAcknowledge ∧ (byte = Symbols.ack ∨ byte = Symbols.nak)) →
    h.passiveTelegram.masterState = .seqOk ∧ h.passiveTelegram.slaveState = .seqOk
  address : isMaster h.sourceAddress = true

theorem PassiveVerdicts.weaken {good : SequenceState → Prop} {h : Handler} {byte : UInt8}
    (hi : PassiveVerdicts good h)
    (acked : h.state = .passiveReceiveMasterAcknowledge → byte = Symbols.ack →
      good h.passiveTelegram.masterState)
    (count : h.state = .passiveReceiveSlave → h.passiveSlave.bytes = [] →
      byte ≤ SequenceLimits.maxDataBytes) : PassiveReady good h byte := by
  refine ⟨acked, fun hs => hi.observed (.inl hs), count, fun hs _ => hi.observed (.inr hs),
    fun hs _ => hi.answering (.inl hs), ?_, hi.address⟩
  rintro (⟨hs, htype, -⟩ | hs | ⟨hs, -⟩)
  · exact ⟨hi.answering (.inl hs), hi.answer (.inl ⟨hs, htype⟩)⟩
  · exact ⟨hi.answering (.inr (.inl hs)), hi.answer (.inr (.inl hs))⟩
  · exact ⟨hi.answering (.inr (.inr hs)), hi.answer (.inr (.inr hs))⟩

private theorem typeOf_master {address : UInt8} (h : isMaster address = true) :
    typeOf address = .masterMaster := by
  have hbroad : address ≠ Symbols.broad := by
    rintro rfl
    exact absurd h (by decide)
  rw [typeOf, if_neg hbroad, if_pos h]

/-- A message for the own master address is of type master-master. -/
theorem forSource_type {h : Handler} {byte : UInt8}
    (hwf : h.passiveTelegram.WellFormed) (haddress : isMaster h.sourceAddress = true)
    (hok : (h.checkedMaster byte).passiveTelegram.masterState = .seqOk)
    (htarget : (h.checkedMaster byte).passiveMaster.get 1 = h.sourceAddress) :
    (h.checkedMaster byte).passiveTelegram.telegramType = .masterMaster := by
  simp only [checkedMaster_passiveTelegram, checkedMaster_passiveMaster] at hok htarget ⊢
  have hwf' := hwf.createMaster (h.passiveMaster.pushBack byte true)
  obtain ⟨hlow, -⟩ := (hwf'.master (.inl hok)).length_bounds
  rw [hwf'.kind hok]
  have hsecond : (h.passiveMaster.pushBack byte true).reduce.get 1 =
      (h.passiveTelegram.createMaster (h.passiveMaster.pushBack byte true)).1.master.bytes.getD
        1 0 := by
    obtain heq | heq := Telegram.createMaster_seqOk hok
    · rw [Sequence.get, heq]
    · rw [Sequence.get, heq, Telegram.getD_concat (by omega)]
  rw [← hsecond, htarget]
  exact typeOf_master haddress

theorem Branch.passiveVerdicts {good : SequenceState → Prop} {h d : Handler} {byte : UInt8}
    {response : Sequence} (hok : good .seqOk) (hwf : TelegramsWellFormed h)
    (hr : PassiveReady good h byte) (hb : Branch h byte response d) :
    PassiveVerdicts good d := by
  have htype := @forSource_type h byte hwf.passive hr.address
  obtain ⟨acked, slave, count, slaveAck, received, sending, address⟩ := hr
  cases hb
  case syn hs _ =>
    have hstate : h.receiveSyn.state = .passiveReceiveMaster := h.receiveSyn_state.trans hs
    refine ⟨by simp [hstate], by simp [hstate], by simp [hstate], ?_⟩
    rw [receiveSyn_sourceAddress]
    exact address
  case forSource hs hm hdone hstate _ haddr =>
    subst hm
    have hmm := htype hstate haddr
    constructor <;> simp_all
  case rejectedSlave hs hempty hbyte =>
    exact absurd (count hs hempty) (UInt8.not_le.mpr hbyte)
  case refused ht =>
    obtain ⟨-, rfl⟩ | ⟨-, rfl⟩ := ht <;> subst_vars <;> simp_all [passiveVerdicts_iff]
  case forTarget hm _ _ _ _ _ ha _ =>
    subst ha hm
    simp_all [passiveVerdicts_iff]
  all_goals
    clear hwf htype count
    subst_vars
    simp [passiveVerdicts_iff, *]

/-- A message is accepted and the buffer holds its wire form. -/
def Sending (h : Handler) : Prop :=
  h.activeMessage = true ∧
    h.activeMaster.bytes = Sequence.wire h.activeTelegram.master.bytes

/-- Between events: an accepted message has passed its check, and the states of the
exchange are only entered for one. -/
@[mk_iff] structure ActiveVerdicts (h : Handler) : Prop where
  accepted : h.activeMessage = true → h.activeTelegram.masterState = .seqOk
  waiting : h.state = .requestBus → h.activeMessage = true
  sending : h.state = .activeSendMaster ∧ h.activeMaster.bytes ≠ [] ∨
    h.state = .activeReceiveMasterAcknowledge ∨ h.state = .activeReceiveSlave ∨
    h.state = .activeSendSlavePositiveAcknowledge ∨
    h.state = .activeSendSlaveNegativeAcknowledge → h.Sending
  slave : h.state = .activeSendSlavePositiveAcknowledge → h.activeTelegram.slaveState = .seqOk

/-- What one step relies on. -/
structure ActiveReady (h : Handler) (byte : UInt8) : Prop where
  accepted : h.activeMessage = true → h.activeTelegram.masterState = .seqOk
  waiting : h.state = .requestBus →
    h.activeMessage = true ∨ h.lastResult = .observeSyn ∨ h.lastResult = .observeData
  sending : h.state = .activeSendMaster ∧ h.activeMaster.bytes ≠ [] ∨
    h.state = .activeReceiveMasterAcknowledge ∧
      (byte = Symbols.ack ∨ h.activeMaster.bytes ≠ []) ∨
    h.state = .activeReceiveSlave ∨ h.state = .activeSendSlavePositiveAcknowledge ∨
    h.state = .activeSendSlaveNegativeAcknowledge → h.Sending
  slave : h.state = .activeSendSlavePositiveAcknowledge → h.activeTelegram.slaveState = .seqOk

theorem ActiveVerdicts.weaken {h : Handler} (hi : ActiveVerdicts h) (byte : UInt8) :
    ActiveReady h byte := by
  refine ⟨hi.accepted, fun hs => .inl (hi.waiting hs), ?_, hi.slave⟩
  rintro (hs | ⟨hs, -⟩ | hs)
  · exact hi.sending (.inl hs)
  · exact hi.sending (.inr (.inl hs))
  · exact hi.sending (.inr (.inr hs))

/-- The bytes that are sent are the wire form of the accepted message. -/
theorem messageBytes_eq {h : Handler} (hwf : h.activeTelegram.WellFormed)
    (hok : h.activeTelegram.masterState = .seqOk) :
    h.messageBytes.bytes = Sequence.wire h.activeTelegram.master.bytes := by
  unfold messageBytes
  rw [Sequence.extend_of_logical rfl, hwf.crc hok]
  rfl

theorem Branch.activeVerdicts {h d : Handler} {byte : UInt8} {response : Sequence}
    (hwf : TelegramsWellFormed h) (hr : ActiveReady h byte) (hb : Branch h byte response d) :
    ActiveVerdicts d := by
  have hwire := fun hok => messageBytes_eq hwf.active (h := h) hok
  obtain ⟨accepted, waiting, sending, slave⟩ := hr
  unfold Sending at sending
  cases hb
  case syn hs _ =>
    have hstate : h.receiveSyn.state = .passiveReceiveMaster := h.receiveSyn_state.trans hs
    refine ⟨?_, by simp [hstate], by simp [hstate], by simp [hstate]⟩
    apply receiveSyn_rule (P := fun a => a.activeMessage = true →
      a.activeTelegram.masterState = .seqOk) accepted
    · intro _ _
      simpa using accepted
    · intro a _ _ _
      simp
    · intro a ha _
      exact ha
  case won hs hresult hm hsize =>
    subst hm
    have hmessage : h.activeMessage = true := by
      obtain hmsg | hobserve | hobserve := waiting hs
      · exact hmsg
      · simp [hobserve] at hresult
      · simp [hobserve] at hresult
    refine ⟨by simpa using accepted, by simp, fun _ => ?_, by simp⟩
    exact ⟨by simpa using hmessage, by simpa using hwire (accepted hmessage)⟩
  case waits hs hresult =>
    refine ⟨accepted, fun _ => ?_, by simp [hs], by simp [hs]⟩
    obtain hmsg | hobserve | hobserve := waiting hs
    · exact hmsg
    · simp [hobserve] at hresult
    · simp [hobserve] at hresult
  case sentMaster hs hindex _ _ _ =>
    have hne : h.activeMaster.bytes ≠ [] := List.ne_nil_of_length_pos (Nat.zero_lt_of_lt hindex)
    exact ⟨by simpa using accepted, by simp, fun _ => sending (.inl ⟨hs, hne⟩), by simp⟩
  case sendsMaster hs _ _ =>
    refine ⟨by simpa using accepted, by simp [hs], fun hstate => sending (.inl ⟨hs, ?_⟩),
      by simp [hs]⟩
    simpa [hs] using hstate
  case resendsMaster hs _ _ =>
    refine ⟨by simpa using accepted, by simp, fun hstate => sending (.inr (.inl ⟨hs, .inr ?_⟩)),
      by simp⟩
    simpa using hstate
  case refused ht =>
    obtain ⟨-, rfl⟩ | ⟨-, rfl⟩ := ht <;> subst_vars <;> simp_all [activeVerdicts_iff]
  case receivedSlave hm _ =>
    subst hm
    simp_all [activeVerdicts_iff, Sending]
  all_goals
    clear hwf hwire
    subst_vars
    simp [activeVerdicts_iff, Sending, *]
  all_goals exact accepted

/-- The invariant of both sides, for runs. -/
structure Verdicts (good : SequenceState → Prop) (h : Handler) : Prop where
  telegrams : TelegramsWellFormed h
  passive : PassiveVerdicts good h
  active : ActiveVerdicts h

/-- What one step relies on. -/
structure Ready (good : SequenceState → Prop) (h : Handler) (byte : UInt8) : Prop where
  telegrams : TelegramsWellFormed h
  passive : PassiveReady good h byte
  active : ActiveReady h byte

variable {good : SequenceState → Prop} {h : Handler} {event : BusEvent}

/-- An acknowledge follows a good master part, and a slave part starts with a count. -/
def ObservedInOrder (good : SequenceState → Prop) (h : Handler) (event : BusEvent) : Prop :=
  (h.requestedState event = .passiveReceiveMasterAcknowledge → event.byte = Symbols.ack →
    good h.passiveTelegram.masterState) ∧
  (h.requestedState event = .passiveReceiveSlave → h.passiveSlave.bytes = [] →
    event.byte ≤ SequenceLimits.maxDataBytes)

/-- The start bits after which no half-empty exchange is continued: the states that go
on without a look at their buffers are left out, and so are the acknowledges that
lead to one of them or to a report. -/
def RecoverableStartBit (h : Handler) (event : BusEvent) : Prop :=
  h.requestedState event ∉ [.passiveReceiveSlave, .reactiveSendSlave, .activeReceiveSlave,
    .activeSendSlavePositiveAcknowledge, .activeSendSlaveNegativeAcknowledge] ∧
  (event.byte = Symbols.ack → h.requestedState event ∉ [.passiveReceiveMasterAcknowledge,
    .passiveReceiveSlaveAcknowledge, .reactiveReceiveSlaveAcknowledge,
    .activeReceiveMasterAcknowledge]) ∧
  (event.byte = Symbols.nak → h.requestedState event ∉ [.passiveReceiveSlaveAcknowledge,
    .reactiveReceiveSlaveAcknowledge])

instance (good : SequenceState → Prop) [DecidablePred good] (h : Handler) (event : BusEvent) :
    Decidable (ObservedInOrder good h event) := inferInstanceAs (Decidable (_ ∧ _))

instance (h : Handler) (event : BusEvent) : Decidable (RecoverableStartBit h event) :=
  inferInstanceAs (Decidable (_ ∧ _))

theorem Verdicts.ready_of_quiet (hi : Verdicts good h) (hquiet : event.startBit = false)
    (horder : ObservedInOrder good h event) : Ready good (h.ready event) event.byte := by
  obtain ⟨request, hready⟩ := h.ready_of_quiet event hquiet
  obtain ⟨hacked, hcount⟩ := horder
  obtain ⟨telegrams, passive, active⟩ := hi
  refine ⟨telegrams.ready event, ?_, ?_⟩
  · rw [hready]
    refine PassiveVerdicts.weaken ?_ hacked hcount
    by_cases hstate : h.requestedState event = h.state
    · rw [hstate]
      exact ⟨passive.observed, passive.answering, passive.answer, passive.address⟩
    · have hrequest : h.requestedState event = .requestBus := by
        unfold requestedState at hstate ⊢
        split <;> simp_all
      constructor <;> simp [hrequest, passive.address]
  · rw [hready]
    apply ActiveVerdicts.weaken
    unfold requestedState
    split
    · rename_i hflag
      exact ⟨active.accepted, fun _ => hflag.2.2, by simp, by simp⟩
    · exact ⟨active.accepted, active.waiting, active.sending, active.slave⟩

theorem Verdicts.ready_of_startBit (hi : Verdicts good h) (hstart : event.startBit = true)
    (hsafe : RecoverableStartBit h event) : Ready good (h.ready event) event.byte := by
  obtain ⟨request, hresult, hready⟩ := h.ready_of_startBit event hstart
  obtain ⟨hstate, hack, hnak⟩ := hsafe
  refine ⟨hi.telegrams.ready event, ?_, ?_⟩
  · rw [hready]
    constructor
    case address => exact hi.passive.address
    all_goals simp_all [Sequence.size]
    all_goals grind
  · rw [hready]
    constructor <;> simp_all
    all_goals grind

theorem Branch.verdicts {d : Handler} {byte : UInt8} {response : Sequence} (hok : good .seqOk)
    (hr : Ready good h byte) (hb : Branch h byte response d) : Verdicts good d :=
  ⟨hb.telegramsWellFormed hr.telegrams, hb.passiveVerdicts hok hr.telegrams hr.passive,
    hb.activeVerdicts hr.telegrams hr.active⟩

/-- The arbitration and the log play no part in the verdicts. -/
theorem Verdicts.congr {request : Request} {log : List Effect} (hi : Verdicts good h) :
    Verdicts good { h with request, log } := by
  obtain ⟨⟨hp, ha⟩, ⟨h1, h2, h3, h4⟩, ⟨h5, h6, h7, h8⟩⟩ := hi
  exact ⟨⟨hp, ha⟩, ⟨h1, h2, h3, h4⟩, ⟨h5, h6, h7, h8⟩⟩

theorem Verdicts.flush (hi : Verdicts good h) : Verdicts good h.flush := by
  obtain heq | ⟨byte, heq⟩ := h.flush_cases
  · rwa [heq]
  · rw [heq]
    exact hi.congr

theorem Verdicts.reset (hi : Verdicts good h) : Verdicts good h.reset := by
  rw [reset_eq]
  refine ⟨⟨by simp, by simp⟩, ?_, ?_⟩
  · constructor <;> simp [hi.passive.address]
  · constructor <;> simp

theorem TelegramsWellFormed.sendActiveMessage (hi : TelegramsWellFormed h)
    (message : List UInt8) : TelegramsWellFormed (h.sendActiveMessage message).1 := by
  obtain heq | ⟨t, rfl, -, -, heq⟩ | ⟨t, rfl, -, -, heq⟩ :=
    h.sendActiveMessage_cases message <;> rw [heq]
  · exact hi
  · exact ⟨hi.passive, hi.active.createMaster _⟩
  · exact ⟨hi.passive, hi.active.createMaster _⟩

/-- A new message is only taken when the states of an exchange are not in use. -/
theorem ActiveVerdicts.sendActiveMessage (hi : ActiveVerdicts h) (message : List UInt8) :
    ActiveVerdicts (h.sendActiveMessage message).1 := by
  have hidle (hmsg : h.activeMessage = false) : ¬ h.Sending := by
    rintro ⟨hsend, -⟩
    simp [hmsg] at hsend
  have hwait (hmsg : h.activeMessage = false) : h.state ≠ .requestBus := by
    intro hs
    simp [hi.waiting hs] at hmsg
  obtain heq | ⟨t, -, hmsg, -, heq⟩ | ⟨t, -, hmsg, hok, heq⟩ := h.sendActiveMessage_cases message
  · rw [heq]
    exact hi
  · rw [heq]
    exact ⟨by simp [hmsg], fun hs => absurd hs (hwait hmsg),
      fun hs => absurd (hi.sending hs) (hidle hmsg),
      fun hs => absurd (hi.sending (.inr (.inr (.inr (.inl hs))))) (hidle hmsg)⟩
  · rw [heq]
    exact ⟨fun _ => hok, fun hs => absurd hs (hwait hmsg),
      fun hs => absurd (hi.sending hs) (hidle hmsg),
      fun hs => absurd (hi.sending (.inr (.inr (.inr (.inl hs))))) (hidle hmsg)⟩

theorem Verdicts.sendActiveMessage (hi : Verdicts good h) (message : List UInt8) :
    Verdicts good (h.sendActiveMessage message).1 := by
  refine ⟨hi.telegrams.sendActiveMessage message, ?_, hi.active.sendActiveMessage message⟩
  obtain ⟨observed, answering, answer, address⟩ := hi.passive
  obtain heq | ⟨t, -, -, -, heq⟩ | ⟨t, -, -, -, heq⟩ :=
    h.sendActiveMessage_cases message <;> rw [heq]
  all_goals exact ⟨observed, answering, answer, address⟩

theorem verdicts_create (address : UInt8) (request : Request) :
    Verdicts good (Handler.create address request) := by
  refine ⟨⟨by simp [Handler.create], by simp [Handler.create]⟩, ?_, ?_⟩
  · constructor
    case address =>
      simp only [Handler.create]
      split
      · assumption
      · decide
    all_goals simp [Handler.create]
  · constructor <;> simp [Handler.create]

end Handler

end Ebus
