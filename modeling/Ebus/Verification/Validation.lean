import Ebus.Protocol.Counting
import Ebus.Verification.Verdicts

/-!
# Only checked telegrams are reported

The log records every check that a telegram makes and every time it is cleared, so
that the parts checked in the exchange in progress can be read off it (`exchange`).
A report is validated when its master part, and for a master-slave telegram its
slave part, has passed its check in that exchange. The engine reports telegrams for
which this fails; `ValidatesReports` lists the steps that lead there, and the main
theorem is that runs without them report validated telegrams only.
-/

namespace Ebus

/-- The inputs and verdicts of the last checks in an exchange. -/
structure Exchange where
  master : Option (List UInt8 × SequenceState) := none
  slave : Option (List UInt8 × SequenceState) := none
  deriving DecidableEq, Repr

namespace Exchange

/-- A master part starts an exchange; clearing the telegram ends it. -/
def next (side : Side) (x : Exchange) : Effect → Exchange
  | .createMaster s input verdict => if s = side then { master := some (input, verdict) } else x
  | .createSlave s input verdict =>
      if s = side then { x with slave := some (input, verdict) } else x
  | .clear s => if s = side then {} else x
  | _ => x

end Exchange

/-- The exchange in progress on one side, read off the log. -/
def exchange (side : Side) (log : List Effect) : Exchange := log.foldl (Exchange.next side) {}

@[simp] theorem exchange_append (side : Side) (log new : List Effect) :
    exchange side (log ++ new) = new.foldl (Exchange.next side) (exchange side log) :=
  List.foldl_append

/-- A part followed by its check sum, as it is received. -/
def withCrc (part : List UInt8) : List UInt8 := part ++ [Sequence.calculateCRC part false]

/-- The part has passed its check, with or without a check sum behind it. -/
def PassedCheck (entry : Option (List UInt8 × SequenceState)) (part : List UInt8) : Prop :=
  entry = some (part, .seqOk) ∨ entry = some (withCrc part, .seqOk)

/-- The side of the engine that makes a report. -/
def ProtocolInfo.side (info : ProtocolInfo) : Side :=
  if info.messageType = .active then .active else .passive

/-- The report carries parts that have passed their checks in this exchange; a received
master part has been compared with its check sum. An own message may be reported in
its wire form. -/
structure Validated (before : List Effect) (info : ProtocolInfo) : Prop where
  master : ∃ part, MasterPart part ∧
    (info.masterView = part ∨ info.messageType = .active ∧
      info.masterView = Sequence.wire part) ∧
    PassedCheck (exchange info.side before).master part ∧
    (info.messageType ≠ .active →
      (exchange info.side before).master = some (withCrc part, .seqOk))
  slave : info.telegramType = .masterSlave →
    SlavePart info.slaveView ∧ PassedCheck (exchange info.side before).slave info.slaveView

/-- A validated report has a master part in its view. -/
theorem Validated.masterView_ne_nil {before : List Effect} {info : ProtocolInfo}
    (h : Validated before info) : info.masterView ≠ [] := by
  obtain ⟨part, hpart, hview, -⟩ := h.master
  obtain hview | ⟨-, hview⟩ := hview
  · rw [hview]
    exact hpart.ne_nil
  · rw [hview]
    intro hnil
    have := Sequence.code.stuff_eq_nil_iff.mp hnil
    simp at this

/-- Every reported telegram is validated. -/
def Effect.ReportsValidated (before : List Effect) : Effect → Prop
  | .protocol info => info.isError = false → Validated before info
  | _ => True

namespace Handler

/-- The telegrams agree with the log: what carries the verdict `seqOk` has been checked
in the exchange in progress. For slave parts this is only claimed in the states that
are entered after their check. -/
@[mk_iff] structure Linked (h : Handler) : Prop where
  master : h.passiveTelegram.masterState = .seqOk →
    (exchange .passive h.log).master = some (withCrc h.passiveTelegram.master.bytes, .seqOk)
  slave : h.state = .passiveReceiveSlaveAcknowledge ∨
      h.state = .reactiveSendMasterPositiveAcknowledge ∧
        h.passiveTelegram.telegramType ≠ .masterMaster ∨
      h.state = .reactiveSendSlave ∨ h.state = .reactiveReceiveSlaveAcknowledge →
    h.passiveTelegram.slaveState = .seqOk →
    SlavePart h.passiveTelegram.slave.bytes ∧
      PassedCheck (exchange .passive h.log).slave h.passiveTelegram.slave.bytes
  message : h.activeTelegram.masterState = .seqOk →
    PassedCheck (exchange .active h.log).master h.activeTelegram.master.bytes
  answer : h.state = .activeSendSlavePositiveAcknowledge →
    h.activeTelegram.slaveState = .seqOk →
    SlavePart h.activeTelegram.slave.bytes ∧
      PassedCheck (exchange .active h.log).slave h.activeTelegram.slave.bytes
  counted : Counted h.passiveMaster.bytes h.passiveMasterDbx

section Counting

variable {h : Handler} {byte : UInt8}

theorem counted_bufferMaster (hi : Counted h.passiveMaster.bytes h.passiveMasterDbx)
    (hok : headerByteOk h.passiveMaster.size byte = true) :
    Counted (h.bufferMaster byte).passiveMaster.bytes (h.bufferMaster byte).passiveMasterDbx := by
  simp only [bufferMaster_passiveMaster, bufferMaster_passiveMasterDbx, nextDbx,
    Sequence.pushBack, Sequence.size, Sequence.get, List.length_append, List.length_singleton]
  obtain hlen | hlen | hlen := Nat.lt_trichotomy h.passiveMaster.bytes.length 4
  · exact counted_of_short (by simp; omega)
  · have hbyte : byte ≤ SequenceLimits.maxDataBytes := by
      simpa [headerByteOk, Sequence.size, hlen] using hok
    have hget : (h.passiveMaster.bytes ++ [byte]).getD 4 0 = byte := by
      simp [List.getD_eq_getElem?_getD, ← hlen]
    have hle : byte.toNat ≤ 16 := Telegram.not_maxDataBytes_lt_iff.mp (UInt8.not_lt.mpr hbyte)
    have hne : byte ≠ Symbols.ext := by
      rintro rfl
      exact absurd hle (by decide)
    rw [hget]
    simpa [hlen, hne] using counted_of_five hlen hle
  · rw [decide_eq_false (by omega)]
    exact hi.push (by omega) byte

/-- A master part that passes its check was followed by the right check sum. -/
theorem checkedMaster_input (hi : Counted h.passiveMaster.bytes h.passiveMasterDbx)
    (hwf : h.passiveTelegram.WellFormed) (hdone : CompletesMaster h byte)
    (hok : (h.checkedMaster byte).passiveTelegram.masterState = .seqOk) :
    (h.checkedMaster byte).passiveMaster.bytes =
      withCrc (h.checkedMaster byte).passiveTelegram.master.bytes := by
  have hcounted := counted_bufferMaster hi hdone.2.1
  have hpart := (hwf.createMaster (h.passiveMaster.pushBack byte true)).master (.inl hok)
  obtain heq | heq := Telegram.createMaster_seqOk hok
  · exact absurd heq (hcounted.checked hdone.2.2 hpart)
  · exact heq

end Counting

section Exchanges

variable (h : Handler) (byte : UInt8) (response : Sequence) (side : Side)

theorem exchange_bufferMaster :
    exchange side (h.bufferMaster byte).log = exchange side h.log := by
  rw [bufferMaster_log, exchange_append]
  split <;> rfl

@[simp] theorem exchange_checkedMaster_passive :
    exchange .passive (h.checkedMaster byte).log =
      { master := some ((h.checkedMaster byte).passiveMaster.bytes,
          (h.checkedMaster byte).passiveTelegram.masterState) } := by
  rw [checkedMaster, createPassiveMaster_log, exchange_append]
  rfl

@[simp] theorem exchange_checkedMaster_active :
    exchange .active (h.checkedMaster byte).log = exchange .active h.log := by
  rw [checkedMaster, createPassiveMaster_log, exchange_append, exchange_bufferMaster]
  rfl

@[simp] theorem exchange_checkedSlave_passive :
    exchange .passive (h.checkedSlave byte).log =
      { exchange .passive h.log with
        slave := some ((h.checkedSlave byte).passiveSlave.bytes,
          (h.checkedSlave byte).passiveTelegram.slaveState) } := by
  rw [checkedSlave, createPassiveSlave_log, exchange_append]
  rfl

@[simp] theorem exchange_checkedSlave_active :
    exchange .active (h.checkedSlave byte).log = exchange .active h.log := by
  rw [checkedSlave, createPassiveSlave_log, exchange_append]
  rfl

@[simp] theorem exchange_checkedActiveSlave_active :
    exchange .active (h.checkedActiveSlave byte).log =
      { exchange .active h.log with
        slave := some ((h.checkedActiveSlave byte).activeSlave.bytes,
          (h.checkedActiveSlave byte).activeTelegram.slaveState) } := by
  rw [checkedActiveSlave, createActiveSlave_log, exchange_append]
  rfl

@[simp] theorem exchange_checkedActiveSlave_passive :
    exchange .passive (h.checkedActiveSlave byte).log = exchange .passive h.log := by
  rw [checkedActiveSlave, createActiveSlave_log, exchange_append]
  rfl

@[simp] theorem exchange_answered_passive :
    exchange .passive (h.answered response).log =
      { exchange .passive h.log with
        slave := some ((h.answered response).passiveSlave.bytes,
          (h.answered response).passiveTelegram.slaveState) } := by
  rw [answered, createPassiveSlave_log, exchange_append, emit_log, exchange_append]
  rfl

@[simp] theorem exchange_answered_active :
    exchange .active (h.answered response).log = exchange .active h.log := by
  rw [answered, createPassiveSlave_log, exchange_append, emit_log, exchange_append]
  rfl

end Exchanges

section Step

variable {h d : Handler} {byte : UInt8} {response : Sequence}

/-- A slave part that passes its check is the one that the exchange records. -/
private theorem slave_passed {t : Telegram} {s : Sequence}
    (hok : (t.createSlave s).1.slaveState = .seqOk) :
    SlavePart (t.createSlave s).1.slave.bytes ∧
      PassedCheck (some (s.reduce.bytes, (t.createSlave s).1.slaveState))
        (t.createSlave s).1.slave.bytes := by
  obtain ⟨hpart, hinput⟩ := Telegram.createSlave_seqOk hok
  refine ⟨hpart, ?_⟩
  rw [hok]
  obtain heq | heq := hinput
  · exact .inl (by rw [heq])
  · exact .inr (by rw [heq, withCrc])

theorem Branch.linked (hwf : TelegramsWellFormed h) (haddress : isMaster h.sourceAddress = true)
    (hi : Linked h)
    (hloss : h.state = .requestBus → h.lastResult = .firstLost ∨ h.lastResult = .firstError ∨
      h.lastResult = .secondLost ∨ h.lastResult = .secondError → h.passiveMaster.size < 4)
    (hb : Branch h byte response d) : Linked d := by
  have hmaster (hdone : CompletesMaster h byte)
      (hok : (h.checkedMaster byte).passiveTelegram.masterState = .seqOk) :
      (exchange .passive (h.checkedMaster byte).log).master =
        some (withCrc (h.checkedMaster byte).passiveTelegram.master.bytes, .seqOk) := by
    rw [exchange_checkedMaster_passive, checkedMaster_input hi.counted hwf.passive hdone hok, hok]
  have hbuffered := fun hok => @counted_bufferMaster h byte hi.counted hok
  obtain ⟨master, slave, message, answer, counted⟩ := hi
  have hreduced := fun hok => (hbuffered hok).reduce
  have htype := @forSource_type h byte hwf.passive haddress
  have hshort : Counted [] 0 := counted_of_short (by simp)
  cases hb
  case buffered hs _ hok _ =>
    refine ⟨?_, by simp [hs], ?_, by simp [hs], hbuffered hok⟩
    · rw [exchange_bufferMaster]
      exact master
    · rw [exchange_bufferMaster]
      exact message
  case forSource hs hm hdone hstate _ haddr =>
    subst hm
    refine ⟨?_, ?_, by simpa [Exchange.next] using message, by simp, hreduced hdone.2.1⟩
    · simpa [Exchange.next] using hmaster hdone
    · have hkind := htype hstate haddr
      rw [checkedMaster_passiveTelegram] at hkind
      simp [hkind]
  case forTarget hs hm hdone hstate _ _ _ ha hslave =>
    subst hm ha
    refine ⟨?_, ?_, by simpa [Exchange.next] using message, by simp, hreduced hdone.2.1⟩
    · simpa [Exchange.next] using hmaster hdone
    · intro _ hok
      simpa [Exchange.next] using slave_passed hslave
  case observed hs hm hdone hstate _ _ _ =>
    subst hm
    refine ⟨?_, by simp, by simpa [Exchange.next] using message, by simp, hreduced hdone.2.1⟩
    simpa [Exchange.next] using hmaster hdone
  case observedBad hs hm hdone hstate _ =>
    subst hm
    refine ⟨fun hok => absurd hok hstate, by simp, by simpa [Exchange.next] using message,
      by simp, hreduced hdone.2.1⟩
  case refused ht =>
    obtain ⟨-, rfl⟩ | ⟨-, rfl⟩ := ht <;> subst_vars <;> simp_all [linked_iff, Exchange.next]
  case observedSlave hs _ _ hm hstate =>
    subst hm
    refine ⟨by simpa using master, ?_, by simpa using message, by simp, by simpa using counted⟩
    intro _ hok
    simpa using slave_passed hstate
  case lost hs hresult =>
    refine ⟨by simpa [Exchange.next] using master, by simp, by simp, by simp, ?_⟩
    have hsize := hloss hs hresult
    unfold Sequence.size at hsize
    apply counted_of_short
    simp [Sequence.pushBack]
    omega
  case receivedSlave hs _ _ hm hstate =>
    subst hm
    refine ⟨by simpa using master, by simp, by simpa using message, ?_, by simpa using counted⟩
    intro _ hok
    simpa using slave_passed hstate
  case syn =>
    clear hwf haddress hloss hmaster htype hbuffered hreduced
    apply receiveSyn_rule (P := Linked) ⟨master, slave, message, answer, counted⟩
    · intro _ _
      constructor <;> simp_all [Exchange.next]
    · rintro a ⟨master, slave, message, answer, counted⟩ _ _
      constructor <;> simp_all [Exchange.next]
    · rintro a ⟨master, slave, message, answer, counted⟩ _
      exact ⟨master, slave, message, answer, counted⟩
  -- no other branch completes a part
  all_goals
    clear hwf haddress hloss hmaster htype hbuffered hreduced
    subst_vars
    simp_all [linked_iff, Exchange.next]

/-- A report of observed or answered traffic. -/
private theorem validated_passive {t : Telegram} {log : List Effect} {info : ProtocolInfo}
    (hside : info.messageType ≠ .active) (hview : info.masterView = t.master.bytes)
    (hpart : MasterPart t.master.bytes)
    (hmaster : (exchange .passive log).master = some (withCrc t.master.bytes, .seqOk))
    (hslave : info.telegramType = .masterSlave →
      SlavePart info.slaveView ∧ PassedCheck (exchange .passive log).slave info.slaveView) :
    Validated log info := by
  have hpassive : info.side = .passive := if_neg hside
  refine ⟨⟨t.master.bytes, hpart, .inl hview, ?_, ?_⟩, ?_⟩
  · rw [hpassive]
    exact .inr hmaster
  · intro _
    rw [hpassive]
    exact hmaster
  · rw [hpassive]
    exact hslave

/-- A report of an own message. -/
private theorem validated_active {t : Telegram} {log : List Effect} {info : ProtocolInfo}
    (hside : info.messageType = .active)
    (hview : info.masterView = t.master.bytes ∨ info.masterView = Sequence.wire t.master.bytes)
    (hpart : MasterPart t.master.bytes)
    (hmaster : PassedCheck (exchange .active log).master t.master.bytes)
    (hslave : info.telegramType = .masterSlave →
      SlavePart info.slaveView ∧ PassedCheck (exchange .active log).slave info.slaveView) :
    Validated log info := by
  have hactive : info.side = .active := if_pos hside
  refine ⟨⟨t.master.bytes, hpart, hview.imp_right fun h => ⟨hside, h⟩, ?_, ?_⟩, ?_⟩
  · rw [hactive]
    exact hmaster
  · exact fun hne => absurd hside hne
  · rw [hactive]
    exact hslave

private theorem atEach_report {log : List Effect} {info : ProtocolInfo} {side : Side}
    (hlog : Log.AtEach Effect.ReportsValidated log) (hreport : Validated log info) :
    Log.AtEach Effect.ReportsValidated (log ++ [.protocol info] ++ [.clear side]) := by
  simp [hlog, hreport, Effect.ReportsValidated]

theorem Branch.validated (hr : Ready (· = .seqOk) h byte) (hi : Linked h)
    (hacked : h.state = .passiveReceiveSlaveAcknowledge → byte = Symbols.ack →
      h.passiveTelegram.slaveState = .seqOk)
    (hlog : Log.AtEach Effect.ReportsValidated h.log) (hb : Branch h byte response d) :
    Log.AtEach Effect.ReportsValidated d.log := by
  obtain ⟨⟨hp, ha⟩, passive, active⟩ := hr
  have hcreated := hp.createMaster (h.passiveMaster.pushBack byte true)
  have hchecked : Log.AtEach Effect.ReportsValidated (h.checkedMaster byte).log := by
    simp only [checkedMaster, createPassiveMaster_log, bufferMaster_log, Log.atEach_append]
    refine ⟨⟨hlog, ?_⟩, by simp [Effect.ReportsValidated]⟩
    split <;> simp [Effect.ReportsValidated]
  have hmaster (hok : h.passiveTelegram.masterState = .seqOk) :
      MasterPart h.passiveTelegram.master.bytes := hp.master (.inl hok)
  cases hb
  case buffered =>
    simp only [bufferMaster_log, Log.atEach_append]
    refine ⟨hlog, ?_⟩
    split <;> simp [Effect.ReportsValidated]
  case broadcast hm hdone hstate _ =>
    subst hm
    refine atEach_report hchecked ?_
    refine validated_passive (by simp) rfl (hcreated.master (.inl hstate)) ?_ (by simp)
    rw [exchange_checkedMaster_passive, checkedMaster_input hi.counted hp hdone hstate, hstate]
  case syn =>
    apply receiveSyn_rule (P := fun a => Log.AtEach Effect.ReportsValidated a.log) hlog
    · intro _ _
      simp [hlog, Effect.ReportsValidated]
    · intro a halog _ _
      simp [halog, Effect.ReportsValidated]
    · intro a halog _
      exact halog
  case refused ht =>
    obtain ⟨-, rfl⟩ | ⟨-, rfl⟩ := ht <;> subst_vars <;>
      simp [hchecked, Effect.ReportsValidated]
  case ackedMasterMaster hs hbyte _ =>
    have hok := passive.acked hs hbyte
    exact atEach_report hlog
      (validated_passive (by simp) rfl (hmaster hok) (hi.master hok) (by simp))
  case ackedSlave hs hbyte =>
    have hok := passive.slaveAck hs (.inl hbyte)
    exact atEach_report hlog (validated_passive (by simp) rfl (hmaster hok) (hi.master hok)
      fun _ => hi.slave (.inl hs) (hacked hs hbyte))
  case receivedMasterMaster hs htype =>
    have hok := passive.received hs htype
    exact atEach_report hlog
      (validated_passive (by simp) rfl (hmaster hok) (hi.master hok) (by simp))
  case answerAcked hs hbyte =>
    obtain ⟨hok, hslave⟩ := passive.sending (.inr (.inr ⟨hs, .inl hbyte⟩))
    exact atEach_report hlog (validated_passive (by simp) rfl (hmaster hok) (hi.master hok)
      fun _ => hi.slave (.inr (.inr (.inr hs))) hslave)
  case sentBroadcast hs hindex _ _ _ ht =>
    have hne : h.activeMaster.bytes ≠ [] := List.ne_nil_of_length_pos (Nat.zero_lt_of_lt hindex)
    obtain ⟨hmsg, hwire⟩ := active.sending (.inl ⟨hs, hne⟩)
    have hok := active.accepted hmsg
    subst ht
    refine atEach_report (by simp [hlog, Effect.ReportsValidated]) ?_
    refine validated_active rfl (.inr hwire) (ha.master (.inl hok)) ?_ (by simp)
    simpa [Exchange.next] using hi.message hok
  case deliveredMasterMaster hs hbyte _ =>
    obtain ⟨hmsg, hwire⟩ := active.sending (.inr (.inl ⟨hs, .inl hbyte⟩))
    have hok := active.accepted hmsg
    exact atEach_report hlog
      (validated_active rfl (.inr hwire) (ha.master (.inl hok)) (hi.message hok) (by simp))
  case exchanged hs =>
    have hok := active.accepted (active.sending (.inr (.inr (.inr (.inl hs))))).1
    exact atEach_report hlog
      (validated_active rfl (.inl rfl) (ha.master (.inl hok)) (hi.message hok)
        fun _ => hi.answer hs (active.slave hs))
  all_goals
    subst_vars
    simp [hlog, hchecked, Effect.ReportsValidated, answered, checkedSlave, checkedActiveSlave]

end Step

section Whole

variable {h : Handler} {event : BusEvent}

theorem Linked.ready (hi : Linked h) (event : BusEvent) : Linked (h.ready event) := by
  cases hstart : event.startBit with
  | false =>
      obtain ⟨request, hready⟩ := h.ready_of_quiet event hstart
      rw [hready]
      unfold requestedState
      split
      · exact ⟨hi.master, by simp, hi.message, by simp, hi.counted⟩
      · exact ⟨hi.master, hi.slave, hi.message, hi.answer, hi.counted⟩
  | true =>
      obtain ⟨request, -, hready⟩ := h.ready_of_startBit event hstart
      rw [hready]
      exact ⟨by simp, by simp, by simp, by simp, counted_of_short (by simp)⟩

theorem Linked.flush (hi : Linked h) : Linked h.flush := by
  obtain heq | ⟨byte, heq⟩ := h.flush_cases
  · rwa [heq]
  · rw [heq]
    simpa [linked_iff, Exchange.next] using hi

theorem Linked.reset : Linked h.reset := by
  rw [reset_eq]
  exact ⟨by simp, by simp, by simp, by simp, counted_of_short (by simp)⟩

theorem Linked.sendActiveMessage {good : SequenceState → Prop} (hv : Verdicts good h)
    (hi : Linked h) (message : List UInt8) : Linked (h.sendActiveMessage message).1 := by
  have hidle (hmsg : h.activeMessage = false) :
      h.state ≠ .activeSendSlavePositiveAcknowledge := by
    intro hs
    simp [(hv.active.sending (.inr (.inr (.inr (.inl hs))))).1] at hmsg
  obtain heq | ⟨t, ht, hmsg, hbad, heq⟩ | ⟨t, ht, hmsg, hok, heq⟩ :=
    h.sendActiveMessage_cases message
  · rwa [heq]
  · rw [heq]
    exact ⟨by simpa [Exchange.next] using hi.master, by simpa [Exchange.next] using hi.slave,
      by simp [hbad], fun hs => absurd hs (hidle hmsg), hi.counted⟩
  · rw [heq]
    refine ⟨by simpa [Exchange.next] using hi.master, by simpa [Exchange.next] using hi.slave,
      fun _ => ?_, fun hs => absurd hs (hidle hmsg), hi.counted⟩
    subst ht
    have hinput := Telegram.createMaster_seqOk hok
    rw [Sequence.reduce_of_logical rfl] at hinput
    obtain hinput | hinput := hinput
    · exact .inl (by simpa [Exchange.next, Telegram.createMasterFrom] using hinput)
    · exact .inr (by simpa [Exchange.next, Telegram.createMasterFrom, withCrc] using hinput)

/-- Arbitration is not lost while the head of another master part is still buffered; the
byte of the winner would go into the middle of it without being counted. -/
def LosesCleanly (h : Handler) (event : BusEvent) : Prop :=
  h.requestedState event = .requestBus →
    (h.ready event).lastResult = .firstLost ∨ (h.ready event).lastResult = .firstError ∨
      (h.ready event).lastResult = .secondLost ∨ (h.ready event).lastResult = .secondError →
    h.passiveMaster.size < 4

instance (h : Handler) (event : BusEvent) : Decidable (LosesCleanly h event) :=
  inferInstanceAs (Decidable (_ → _ → _))

end Whole

end Handler

namespace BusHandler

/-- The steps that keep reports validated: an acknowledge, of a master or of a slave
part, is only observed after a part that has passed its check, a slave part starts
with a count, arbitration is lost cleanly and start bits are recoverable. -/
def ValidatesReports (h : Handler) : Action → Prop
  | .busEvent event _ =>
      if event.startBit then h.RecoverableStartBit event
      else h.ObservedInOrder (· = .seqOk) event ∧
        (h.requestedState event = .passiveReceiveSlaveAcknowledge → event.byte = Symbols.ack →
          h.passiveTelegram.slaveState = .seqOk) ∧
        h.LosesCleanly event
  | _ => True

instance (h : Handler) : (action : Action) → Decidable (ValidatesReports h action)
  | .busEvent _ _ => inferInstanceAs (Decidable (ite _ _ _))
  | .sendActiveMessage _ | .resetHandler | .requestExternal _ | .resetRequest
  | .setLockCounter _ => .isTrue trivial

structure ValidatedReports (h : Handler) : Prop where
  verdicts : h.Verdicts (· = .seqOk)
  linked : h.Linked
  reports : Log.AtEach Effect.ReportsValidated h.log

/-- What the flags of an event leave for its step. -/
private theorem ready_of_validates {h : Handler} {event : BusEvent} {response : Sequence}
    (hi : ValidatedReports h) (hok : ValidatesReports h (.busEvent event response)) :
    Handler.Ready (· = .seqOk) (h.ready event) event.byte ∧
    ((h.ready event).state = .requestBus → (h.ready event).lastResult = .firstLost ∨
      (h.ready event).lastResult = .firstError ∨ (h.ready event).lastResult = .secondLost ∨
      (h.ready event).lastResult = .secondError → (h.ready event).passiveMaster.size < 4) ∧
    ((h.ready event).state = .passiveReceiveSlaveAcknowledge → event.byte = Symbols.ack →
      (h.ready event).passiveTelegram.slaveState = .seqOk) ∧
    Log.AtEach Effect.ReportsValidated (h.ready event).log := by
  cases hstart : event.startBit with
  | false =>
      simp only [ValidatesReports, hstart, Bool.false_eq_true, if_false] at hok
      obtain ⟨horder, hacked, hloss⟩ := hok
      have hready := hi.verdicts.ready_of_quiet hstart horder
      unfold Handler.LosesCleanly at hloss
      obtain ⟨request, hstate⟩ := h.ready_of_quiet event hstart
      rw [hstate] at hready hloss ⊢
      exact ⟨hready, hloss, hacked, hi.reports⟩
  | true =>
      simp only [ValidatesReports, hstart, if_true] at hok
      have hready := hi.verdicts.ready_of_startBit hstart hok
      obtain ⟨request, hresult, hstate⟩ := h.ready_of_startBit event hstart
      rw [hstate] at hready ⊢
      refine ⟨hready, ?_, ?_, by simp [hi.reports, Effect.ReportsValidated]⟩
      · intro _ hlost
        obtain hres | hres := hresult <;> simp [hres] at hlost
      · intro hs hbyte
        change h.requestedState event = _ at hs
        exact absurd (by simp [hs]) (hok.2.1 hbyte)

private theorem onBusEvent_validatedReports {h : Handler} {event : BusEvent}
    (hi : ValidatedReports h) (response : Sequence)
    (hok : ValidatesReports h (.busEvent event response)) :
    ValidatedReports (onBusEvent h event response) := by
  obtain ⟨hready, hloss, hacked, hlog⟩ := ready_of_validates hi hok
  obtain ⟨d, hbranch, heq⟩ := onBusEvent_branch h event response
  have hlinked := hi.linked.ready event
  have hlogged := hbranch.validated hready hlinked hacked hlog
  rw [heq]
  refine ⟨(hbranch.verdicts (by rfl) hready).flush,
    (hbranch.linked hready.telegrams hready.passive.address hlinked hloss).flush, ?_⟩
  obtain hflush | ⟨byte, hflush⟩ := d.flush_cases
  · rwa [hflush]
  · rw [hflush]
    simp [hlogged, Effect.ReportsValidated]

theorem step_validatedReports (h : Handler) (action : Action) (hi : ValidatedReports h)
    (hok : ValidatesReports h action) : ValidatedReports (step h action) := by
  cases action with
  | busEvent event response => exact onBusEvent_validatedReports hi response hok
  | sendActiveMessage message =>
      obtain ⟨verdicts, linked, reports⟩ := hi
      refine ⟨verdicts.sendActiveMessage message, linked.sendActiveMessage verdicts message, ?_⟩
      rw [step]
      obtain heq | ⟨t, -, -, -, heq⟩ | ⟨t, -, -, -, heq⟩ := h.sendActiveMessage_cases message <;>
        rw [heq] <;> simp [reports, Effect.ReportsValidated]
  | resetHandler =>
      refine ⟨hi.verdicts.reset, Handler.Linked.reset, ?_⟩
      rw [step, Handler.reset_eq]
      simp [hi.reports, Effect.ReportsValidated]
  | requestExternal address =>
      obtain ⟨verdicts, ⟨h1, h2, h3, h4, h5⟩, reports⟩ := hi
      exact ⟨verdicts.congr, ⟨h1, h2, h3, h4, h5⟩, reports⟩
  | resetRequest =>
      obtain ⟨verdicts, ⟨h1, h2, h3, h4, h5⟩, reports⟩ := hi
      exact ⟨verdicts.congr, ⟨h1, h2, h3, h4, h5⟩, reports⟩
  | setLockCounter lockCounter =>
      obtain ⟨verdicts, ⟨h1, h2, h3, h4, h5⟩, reports⟩ := hi
      exact ⟨verdicts.congr, ⟨h1, h2, h3, h4, h5⟩, reports⟩

/-- In every run of such steps each reported telegram is validated by the checks that
the log records before it, and its master part is not empty. -/
theorem run_reports_validated (address : UInt8) (request : Request) (actions : List Action)
    (meets : Runs.Meets step ValidatesReports (Handler.create address request) actions)
    (before after : List Effect) (info : ProtocolInfo)
    (logged : (Runs.run step (Handler.create address request) actions).log =
      before ++ .protocol info :: after)
    (telegram : info.isError = false) :
    Validated before info ∧ info.masterView ≠ [] := by
  have hinv : ValidatedReports (Runs.run step (Handler.create address request) actions) := by
    refine Runs.invariant step_validatedReports ?_ meets
    refine ⟨Handler.verdicts_create address request, ?_, Log.atEach_nil _⟩
    constructor <;> simp [Handler.create, counted_of_short]
  have hvalid : Validated before info := hinv.reports before _ after logged telegram
  exact ⟨hvalid, hvalid.masterView_ne_nil⟩

/-- The log of an observed master-master message with check sum `crc` and a positive
acknowledge, up to the report. -/
def beforeReport (crc : UInt8) (verdict : SequenceState) : List Effect :=
  [.access .passiveMaster 4 5,
    .createMaster .passive [0x03, 0x10, 0x07, 0x04, 0x00, crc] verdict,
    .access .passiveMaster 1 6, .access .passiveMaster 1 6]

def observedMasterMaster : ProtocolInfo :=
  { messageType := .passive, telegramType := .masterMaster
    handlerState := .passiveReceiveMasterAcknowledge
    masterView := [0x03, 0x10, 0x07, 0x04, 0x00] }

/-- With the right check sum the message is reported and validated. -/
theorem run_reports_validated_masterMaster :
    Runs.Meets step ValidatesReports (Handler.create 0xff {})
      (feed [0xaa, 0x03, 0x10, 0x07, 0x04, 0x00, 0x13, 0x00]) ∧
    Validated (beforeReport 0x13 .seqOk) observedMasterMaster :=
  ⟨by decide +kernel,
    (run_reports_validated 0xff {} (feed [0xaa, 0x03, 0x10, 0x07, 0x04, 0x00, 0x13, 0x00])
      (by decide +kernel) (beforeReport 0x13 .seqOk) [.clear .passive] observedMasterMaster
      (by decide +kernel) rfl).1⟩

/-- With a wrong check sum it is reported as well. -/
theorem report_not_validated_of_bad_crc :
    ¬ ∀ before after info, (Runs.run step (Handler.create 0xff {})
        (feed [0xaa, 0x03, 0x10, 0x07, 0x04, 0x00, 0x00, 0x00])).log =
          before ++ .protocol info :: after →
      info.isError = false → Validated before info := by
  intro hall
  have hvalid := hall (beforeReport 0x00 .errCrcInvalid) [.clear .passive] observedMasterMaster
    (by decide +kernel) rfl
  obtain ⟨part, -, -, -, hpassed⟩ := hvalid.master
  have hverdict : (exchange observedMasterMaster.side
      (beforeReport 0x00 .errCrcInvalid)).master =
        some ([0x03, 0x10, 0x07, 0x04, 0x00, 0x00], .errCrcInvalid) := rfl
  rw [hverdict] at hpassed
  have hstate := (Prod.mk.inj (Option.some.inj (hpassed (by decide)))).2
  cases hstate

end BusHandler

end Ebus
