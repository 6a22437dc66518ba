import Ebus.App.Scheduler
import Ebus.Verification.Verdicts

/-!
# The form of reported telegrams

Receivers of the protocol callback index into the views they get, so that a view has
to hold the logical part: unescaped and without check sum. The report sites take
their views from different buffers. All sites but two pass on the parts that the
telegram has stored; own broadcasts and own master-master messages are reported from
the wire buffer. This module names the steps that report something else than a
logical part and proves that runs without them only report logical parts, which fit
the buffers of `ProtocolEvent`.
-/

namespace Ebus

/-- A reported telegram has logical parts as its views. -/
def Effect.Logical : Effect → Prop
  | .protocol info => info.isError = false →
      MasterPart info.masterView ∧ (info.slaveView = [] ∨ SlavePart info.slaveView)
  | _ => True

namespace Handler

/-- The byte completes an own broadcast or master-master message. -/
def CompletesUnanswered (h : Handler) (event : BusEvent) : Prop :=
  (h.requestedState event = .activeSendMaster ∧ h.activeTelegram.telegramType = .broadcast ∧
    h.activeMaster.size = h.activeMasterIndex + 1 ∧
    event.byte = h.activeMaster.get h.activeMasterIndex) ∨
  (h.requestedState event = .activeReceiveMasterAcknowledge ∧
    h.activeTelegram.telegramType = .masterMaster ∧ event.byte = Symbols.ack)

instance (h : Handler) (event : BusEvent) : Decidable (CompletesUnanswered h event) :=
  inferInstanceAs (Decidable (_ ∨ _))

section Step

variable {h d : Handler} {byte : UInt8} {response : Sequence}

/-- The new entries of one step, when no own message without slave part completes. -/
theorem Branch.logical (hr : Ready Telegram.Stored h byte)
    (hbroadcast : h.state = .activeSendMaster → h.activeTelegram.telegramType = .broadcast →
      h.activeMaster.size = h.activeMasterIndex + 1 →
      byte ≠ h.activeMaster.get h.activeMasterIndex)
    (hmaster : h.state = .activeReceiveMasterAcknowledge →
      h.activeTelegram.telegramType = .masterMaster → byte ≠ Symbols.ack)
    (hlog : Log.Each Effect.Logical h.log) (hb : Branch h byte response d) :
    Log.Each Effect.Logical d.log := by
  obtain ⟨⟨hp, ha⟩, passive, active⟩ := hr
  have hslave := hp.slave
  have hcreated := hp.createMaster (h.passiveMaster.pushBack byte true)
  have hchecked : Log.Each Effect.Logical (h.checkedMaster byte).log := by
    simp only [checkedMaster, createPassiveMaster_log, bufferMaster_log, Log.each_append]
    refine ⟨⟨hlog, ?_⟩, by simp [Effect.Logical]⟩
    split <;> simp [Effect.Logical]
  cases hb
  case buffered =>
    simp only [bufferMaster_log, Log.each_append]
    refine ⟨hlog, ?_⟩
    split <;> simp [Effect.Logical]
  case broadcast hm hdone hstate _ =>
    subst hm
    simp only [checkedMaster_passiveTelegram] at hstate
    simp [hchecked, Effect.Logical, hcreated.master (.inl hstate), hcreated.slave]
  case syn =>
    apply receiveSyn_rule (P := fun a => Log.Each Effect.Logical a.log) hlog
    · intro _ _
      simp [hlog, Effect.Logical]
    · intro a halog _ _
      simp [halog, Effect.Logical]
    · intro a halog _
      exact halog
  case refused ht =>
    obtain ⟨-, rfl⟩ | ⟨-, rfl⟩ := ht <;> subst_vars <;> simp [hchecked, Effect.Logical]
  case ackedMasterMaster hs hbyte _ =>
    simp [hlog, Effect.Logical, hp.master (passive.acked hs hbyte), hslave]
  case ackedSlave hs hbyte =>
    simp [hlog, Effect.Logical, hp.master (passive.slaveAck hs (.inl hbyte)), hslave]
  case receivedMasterMaster hs htype =>
    simp [hlog, Effect.Logical, hp.master (.inl (passive.received hs htype)), hslave]
  case answerAcked hs hbyte =>
    have hok := passive.sending (.inr (.inr ⟨hs, .inl hbyte⟩))
    simp [hlog, Effect.Logical, hp.master (.inl hok.1), hslave]
  case sentBroadcast hs hindex hbyte hlast htype _ =>
    exact absurd hbyte (hbroadcast hs htype (by omega))
  case deliveredMasterMaster hs hbyte htype => exact absurd hbyte (hmaster hs htype)
  case exchanged hs =>
    have hsending := active.sending (.inr (.inr (.inr (.inl hs))))
    simp [hlog, Effect.Logical, ha.master (.inl (active.accepted hsending.1)), ha.slave]
  all_goals
    subst_vars
    simp [hlog, hchecked, Effect.Logical, answered, checkedSlave, checkedActiveSlave]

end Step

end Handler

namespace BusHandler

/-- The steps that report logical parts only. The acknowledge of a master part that was
too long to be stored, a count above sixteen in place of a slave part and the end of
an own message without slave part are left out. -/
def ReportsLogical (h : Handler) : Action → Prop
  | .busEvent event _ => event.startBit = false ∧ h.ObservedInOrder Telegram.Stored event ∧
      ¬ h.CompletesUnanswered event
  | _ => True

instance (h : Handler) : (action : Action) → Decidable (ReportsLogical h action)
  | .busEvent _ _ => inferInstanceAs (Decidable (_ ∧ _))
  | .sendActiveMessage _ | .resetHandler | .requestExternal _ | .resetRequest
  | .setLockCounter _ => .isTrue trivial

/-- The invariant of runs without start bits. -/
structure LogicalReports (h : Handler) : Prop where
  verdicts : h.Verdicts Telegram.Stored
  reports : Log.Each Effect.Logical h.log

theorem step_logicalReports (h : Handler) (action : Action) (hi : LogicalReports h)
    (hok : ReportsLogical h action) : LogicalReports (step h action) := by
  obtain ⟨verdicts, reports⟩ := hi
  cases action with
  | busEvent event response =>
      obtain ⟨hquiet, horder, hunanswered⟩ := hok
      obtain ⟨d, hbranch, heq⟩ := onBusEvent_branch h event response
      have hready := verdicts.ready_of_quiet hquiet horder
      have hlog : Log.Each Effect.Logical d.log := by
        obtain ⟨request, hstate⟩ := h.ready_of_quiet event hquiet
        apply hbranch.logical hready
        · rw [hstate]
          intro hs htype hlast hbyte
          exact hunanswered (.inl ⟨hs, htype, hlast, hbyte⟩)
        · rw [hstate]
          intro hs htype hbyte
          exact hunanswered (.inr ⟨hs, htype, hbyte⟩)
        · rw [hstate]
          exact reports
      rw [step, heq]
      refine ⟨(hbranch.verdicts (.inl rfl) hready).flush, ?_⟩
      obtain hflush | ⟨byte, hflush⟩ := d.flush_cases
      · rwa [hflush]
      · rw [hflush]
        simp [hlog, Effect.Logical]
  | sendActiveMessage message =>
      refine ⟨verdicts.sendActiveMessage message, ?_⟩
      rw [step]
      obtain heq | ⟨t, -, -, -, heq⟩ | ⟨t, -, -, -, heq⟩ := h.sendActiveMessage_cases message <;>
        rw [heq] <;> simp [reports, Effect.Logical]
  | resetHandler =>
      refine ⟨verdicts.reset, ?_⟩
      rw [step, Handler.reset_eq]
      simp [reports, Effect.Logical]
  | requestExternal address => exact ⟨verdicts.congr, reports⟩
  | resetRequest => exact ⟨verdicts.congr, reports⟩
  | setLockCounter lockCounter => exact ⟨verdicts.congr, reports⟩

/-- Every telegram reported in such a run has logical views, and these are copied into
protocol events without a loss. -/
theorem run_views_logical (address : UInt8) (request : Request) (actions : List Action)
    (meets : Runs.Meets step ReportsLogical (Handler.create address request) actions)
    (info : ProtocolInfo)
    (reported : Effect.protocol info ∈
      (Runs.run step (Handler.create address request) actions).log)
    (telegram : info.isError = false) :
    MasterPart info.masterView ∧
    info.masterView.length = 5 + (info.masterView.getD 4 0).toNat ∧
    info.masterView.length ≤ 21 ∧
    (info.slaveView = [] ∨
      info.slaveView.length = 1 + (info.slaveView.getD 0 0).toNat ∧
      info.slaveView.length ≤ 17) ∧
    ∀ scheduler : Scheduler,
      (scheduler.onHandlerProtocol info).master = info.masterView ∧
      (scheduler.onHandlerProtocol info).slave = info.slaveView := by
  have hinv : LogicalReports (Runs.run step (Handler.create address request) actions) :=
    Runs.invariant step_logicalReports
      ⟨Handler.verdicts_create address request, Log.each_nil _⟩ meets
  have hviews : MasterPart info.masterView ∧
      (info.slaveView = [] ∨ SlavePart info.slaveView) :=
    hinv.reports.of_mem reported telegram
  obtain ⟨hmaster, hslave⟩ := hviews
  have hmasterLength := hmaster.length_bounds
  have hslaveLength : info.slaveView.length ≤ 17 := by
    obtain hnil | hpart := hslave
    · simp [hnil]
    · exact hpart.length_bounds.2
  refine ⟨hmaster, hmaster.length, hmasterLength.2, ?_, ?_⟩
  · exact hslave.imp_right fun hpart => ⟨hpart.length, hslaveLength⟩
  · intro scheduler
    have hcopy {view : List UInt8} (hlen : view.length ≤ 24) :
        StaticSequence.assign SequenceLimits.modelCapacity view = view :=
      List.take_of_length_le hlen
    simp only [Scheduler.onHandlerProtocol, telegram, Bool.false_eq_true, if_false]
    exact ⟨hcopy (by omega), hcopy (by omega)⟩

/-- An observed broadcast is reported in logical form. -/
theorem run_views_logical_broadcast :
    Runs.Meets step ReportsLogical (Handler.create 0xff {})
      (feed [0xaa, 0x03, 0xfe, 0x07, 0x04, 0x00, 0x31, 0xaa]) ∧
    MasterPart [0x03, 0xfe, 0x07, 0x04, 0x00] :=
  ⟨by decide +kernel,
    (run_views_logical 0xff {} (feed [0xaa, 0x03, 0xfe, 0x07, 0x04, 0x00, 0x31, 0xaa])
      (by decide +kernel)
      { messageType := .passive, telegramType := .broadcast
        masterView := [0x03, 0xfe, 0x07, 0x04, 0x00] } (by decide +kernel) rfl).1⟩

/-- An own broadcast is reported in wire form: one byte too long. -/
theorem views_not_logical_of_own_broadcast :
    ¬ ∀ info, Effect.protocol info ∈ (Runs.run step (Handler.create 0xff {})
        (.sendActiveMessage [0xfe, 0x07, 0x04, 0x00] :: obtainBus 0xff ++
          feed [0xfe, 0x07, 0x04, 0x00, 0x94])).log →
      info.isError = false →
      info.masterView.length = 5 + (info.masterView.getD 4 0).toNat := by
  intro hlogical
  have hlength := hlogical
    { messageType := .active, telegramType := .broadcast, handlerState := .activeSendMaster
      masterView := [0xff, 0xfe, 0x07, 0x04, 0x00, 0x94] } (by decide +kernel) rfl
  exact absurd hlength (by decide)

end BusHandler

end Ebus
