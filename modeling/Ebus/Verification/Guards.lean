import Ebus.Verification.Leftovers
import Ebus.Core.Reader

/-!
# The guards of the engine

Two state functions check the index they are about to read with, and every transition is
checked against the table. The transitions of all branches are permitted. The guards rely
on counters that earlier states have left: the one of the answer is only cleared together
with the observed traffic, and an arbitration for the own message that interrupts an answer
does not do that. This module says what keeps the guards quiet.
-/

namespace Ebus

/-- No report of a broken state machine. -/
def Effect.Lawful : Effect → Prop
  | .protocol info => info.protocolError ≠ .illegalFsmTransition
  | _ => True

instance : (e : Effect) → Decidable e.Lawful
  | .protocol info => inferInstanceAs (Decidable (info.protocolError ≠ .illegalFsmTransition))
  | .write _ | .won | .lost | .reactive _ | .accepted _ | .createMaster _ _ _
  | .createSlave _ _ _ | .clear _ | .access _ _ _ => .isTrue trivial

namespace Handler

/-- The own answer is on its way, and the index counts its bytes. -/
def answering : HandlerState → Bool
  | .reactiveSendSlave | .reactiveReceiveSlaveAcknowledge => true
  | _ => false

/-- What the guards rely on between events. -/
@[mk_iff] structure Guarded (h : Handler) : Prop where
  address : isMaster h.sourceAddress = true
  index : answering h.state = false → h.passiveSlaveIndex = 0
  answer : h.state = .reactiveSendMasterPositiveAcknowledge →
    h.passiveTelegram.telegramType ≠ .masterMaster → 0 < h.passiveSlave.size
  sending : h.state = .activeSendMaster → h.activeMasterIndex < h.activeMaster.size
  message : h.state = .activeReceiveMasterAcknowledge → 0 < h.activeMaster.size

/-- The flag of an own request does not come while bytes of an own answer are out. -/
def AnswerUndisturbed (h : Handler) (event : BusEvent) : Prop :=
  event.busRequest = true → h.request.externalBusRequest = false → h.activeMessage = true →
    h.passiveSlaveIndex = 0

instance (h : Handler) (event : BusEvent) : Decidable (h.AnswerUndisturbed event) :=
  inferInstanceAs (Decidable (_ → _))

section Step

variable {h d : Handler} {byte : UInt8} {response : Sequence}

theorem Branch.guarded (hwf : TelegramsWellFormed h) (hi : Guarded h)
    (hb : Branch h byte response d) : Guarded d := by
  have htype := @forSource_type h byte hwf.passive hi.address
  obtain ⟨address, index, answer, sending, message⟩ := hi
  cases hb
  case forSource hs hm _ hok haddr _ =>
    subst hm
    have hmm := htype hok (by assumption)
    simp_all [guarded_iff, answering]
  case refused ht =>
    obtain ⟨-, rfl⟩ | ⟨-, rfl⟩ := ht <;> subst_vars <;> simp_all [guarded_iff, answering]
  case forTarget a hs hm _ _ _ _ _ ha _ =>
    have hwf' : a.passiveTelegram.WellFormed := by
      rw [ha, hm]
      exact (hwf.passive.createMaster (h.passiveMaster.pushBack byte true)).createSlave response
    obtain ⟨hpos, -⟩ := answerBytes_size hwf'
    clear hwf'
    generalize a.answerBytes = wire at *
    subst ha hm
    simp_all [guarded_iff, answering]
  case syn hs _ =>
    have hkept : h.receiveSyn.state = .passiveReceiveMaster ∧ Guarded h.receiveSyn := by
      apply receiveSyn_rule (P := fun a => a.state = .passiveReceiveMaster ∧ Guarded a)
        ⟨hs, address, index, answer, sending, message⟩
      · intro _ _
        simp_all [guarded_iff, answering]
      · rintro a ⟨has, address, index, answer, sending, message⟩ _ _
        refine ⟨by simpa using has, ?_⟩
        constructor <;> simp_all [answering]
      · rintro a ⟨has, address, index, answer, sending, message⟩ _
        exact ⟨has, address, index, answer, sending, message⟩
    exact hkept.2
  all_goals
    clear hwf htype
    subst_vars
    simp [guarded_iff, answering, *]
  all_goals omega

/-- Behind quiet guards a step makes no report about the state machine. -/
theorem Branch.lawful (hi : Guarded h) (hlog : Log.Each Effect.Lawful h.log)
    (hb : Branch h byte response d) : Log.Each Effect.Lawful d.log := by
  have hbuffered : Log.Each Effect.Lawful (h.bufferMaster byte).log := by
    rw [bufferMaster_log, Log.each_append]
    refine ⟨hlog, ?_⟩
    split <;> simp [Effect.Lawful]
  have hchecked : Log.Each Effect.Lawful (h.checkedMaster byte).log := by
    rw [checkedMaster, createPassiveMaster_log, Log.each_append]
    exact ⟨hbuffered, by simp [Effect.Lawful]⟩
  cases hb
  case buffered => exact hbuffered
  case syn =>
    apply receiveSyn_rule (P := fun a => Log.Each Effect.Lawful a.log) hlog
    · intro _ _
      simp [hlog, Effect.Lawful]
    · intro a ha _ _
      simp [ha, Effect.Lawful]
    · intro a ha _
      exact ha
  case refused ht =>
    obtain ⟨-, rfl⟩ | ⟨-, rfl⟩ := ht <;> subst_vars <;> simp [hchecked, Effect.Lawful]
  case nothingToSend hs htype hindex =>
    -- a fresh answer is not empty and its index is zero
    have hzero := hi.index (by rw [hs]; rfl)
    have hpos := hi.answer hs htype
    omega
  case nothingSent hs hindex =>
    have hlt := hi.sending hs
    omega
  all_goals
    subst_vars
    simp_all [Effect.Lawful, answered, checkedSlave, checkedActiveSlave]

end Step

/-- The flags of an event that does not disturb an answer. -/
theorem Guarded.ready {h : Handler} (hi : Guarded h) {event : BusEvent}
    (hquiet : event.startBit = false) (hkept : h.AnswerUndisturbed event) :
    Guarded (h.ready event) := by
  obtain ⟨request, hready⟩ := h.ready_of_quiet event hquiet
  rw [hready]
  unfold requestedState
  split
  · rename_i hflag
    exact ⟨hi.address, fun _ => hkept hflag.1 hflag.2.1 hflag.2.2, by simp, by simp, by simp⟩
  · exact ⟨hi.address, hi.index, hi.answer, hi.sending, hi.message⟩

theorem Guarded.flush {h : Handler} (hi : Guarded h) : Guarded h.flush := by
  obtain ⟨log, hflush⟩ := h.flush_eq
  rw [hflush]
  exact ⟨hi.address, hi.index, hi.answer, hi.sending, hi.message⟩

/-- An event without a start bit that does not disturb an answer. -/
theorem Guarded.onBusEvent {h : Handler} (hwf : TelegramsWellFormed h) (hi : Guarded h)
    {event : BusEvent} (response : Sequence) (hquiet : event.startBit = false)
    (hkept : h.AnswerUndisturbed event) (hlog : Log.Each Effect.Lawful h.log) :
    Guarded (BusHandler.onBusEvent h event response) ∧
      Log.Each Effect.Lawful (BusHandler.onBusEvent h event response).log := by
  obtain ⟨d, hb, heq⟩ := BusHandler.onBusEvent_branch h event response
  have hguarded : Guarded (h.ready event) := hi.ready hquiet hkept
  have hlawful : Log.Each Effect.Lawful (h.ready event).log := by
    obtain ⟨request, hready⟩ := h.ready_of_quiet event hquiet
    rw [hready]
    exact hlog
  have hlog' := hb.lawful hguarded hlawful
  rw [heq]
  refine ⟨(hb.guarded (hwf.ready event) hguarded).flush, ?_⟩
  obtain hflush | ⟨b, hflush⟩ := d.flush_cases <;> rw [hflush]
  · exact hlog'
  · simp [hlog', Effect.Lawful]

theorem Guarded.sendActiveMessage {h : Handler} (hi : Guarded h) (message : List UInt8) :
    Guarded (h.sendActiveMessage message).1 := by
  obtain ⟨address, index, answer, sending, message'⟩ := hi
  obtain heq | ⟨t, -, -, -, heq⟩ | ⟨t, -, -, -, heq⟩ := h.sendActiveMessage_cases message <;>
    rw [heq]
  all_goals exact ⟨address, index, answer, sending, message'⟩

theorem guarded_create (address : UInt8) (request : Request) :
    Guarded (create address request) := by
  constructor <;> simp [create]
  split
  · assumption
  · decide

end Handler

namespace Line

/-- No start bit, and a flag only for a SYN that found a request pending: with this byte or
with the one right after it. -/
def Flagged (l : Line) : Action → Prop
  | .busEvent event _ =>
      event.startBit = false ∧
        (event.busRequest = true → l.flag ≠ .none ∨ l.pendingSyn event.byte = true)
  | .suppressedSyn =>
      l.handler.request.busRequest = true ∧ l.handler.request.externalBusRequest = true
  | _ => True

instance (l : Line) : (action : Action) → Decidable (l.Flagged action)
  | .busEvent _ _ => inferInstanceAs (Decidable (_ ∧ _))
  | .suppressedSyn => inferInstanceAs (Decidable (_ ∧ _))
  | .sendActiveMessage _ => .isTrue trivial
  | .requestExternal _ => .isTrue trivial
  | .resetRequest => .isTrue trivial
  | .setLockCounter _ => .isTrue trivial

/-- The flag of an own request does not come in the middle of an own answer. -/
def AnswersUndisturbed (l : Line) : Action → Prop
  | .busEvent event _ => l.handler.AnswerUndisturbed event
  | _ => True

instance (l : Line) : (action : Action) → Decidable (l.AnswersUndisturbed action)
  | .busEvent event _ => inferInstanceAs (Decidable (l.handler.AnswerUndisturbed event))
  | .suppressedSyn | .sendActiveMessage _ | .requestExternal _ | .resetRequest
  | .setLockCounter _ => .isTrue trivial

/-- The guards are quiet, and have been quiet in the last event. -/
structure Quiet (l : Line) : Prop where
  telegrams : l.handler.TelegramsWellFormed
  guarded : l.handler.Guarded
  lawful : Log.Each Effect.Lawful l.handler.log

theorem Quiet.step {l : Line} (hi : l.Quiet) {action : Action}
    (hok : l.Flagged action ∧ l.AnswersUndisturbed action) : (Line.step l action).Quiet := by
  obtain ⟨hflagged, hkept⟩ := hok
  obtain ⟨telegrams, guarded, lawful⟩ := hi
  obtain ⟨address, index, answer, sending, message⟩ := guarded
  cases action with
  | busEvent event response =>
      have hwf : Handler.TelegramsWellFormed { l.handler with log := [] } :=
        ⟨telegrams.passive, telegrams.active⟩
      obtain ⟨hguarded, hlawful⟩ := Handler.Guarded.onBusEvent hwf
        ⟨address, index, answer, sending, message⟩ response hflagged.1 hkept (Log.each_nil _)
      exact ⟨hwf.onBusEvent event response, hguarded, hlawful⟩
  | sendActiveMessage m =>
      refine ⟨telegrams.sendActiveMessage m,
        Handler.Guarded.sendActiveMessage ⟨address, index, answer, sending, message⟩ m, ?_⟩
      obtain heq | ⟨t, -, -, -, heq⟩ | ⟨t, -, -, -, heq⟩ := l.handler.sendActiveMessage_cases m <;>
        simp [Line.step, Line.sendActiveMessage, heq, lawful, Effect.Lawful]
  | suppressedSyn =>
      exact ⟨telegrams, ⟨address, index, answer, sending, message⟩, lawful⟩
  | requestExternal a =>
      exact ⟨⟨telegrams.passive, telegrams.active⟩,
        ⟨address, index, answer, sending, message⟩, lawful⟩
  | resetRequest =>
      exact ⟨⟨telegrams.passive, telegrams.active⟩,
        ⟨address, index, answer, sending, message⟩, lawful⟩
  | setLockCounter n =>
      exact ⟨⟨telegrams.passive, telegrams.active⟩,
        ⟨address, index, answer, sending, message⟩, lawful⟩

/-- In a run in which no own answer is disturbed by the own request, no event makes the
engine report a broken state machine. -/
theorem run_lawful (address : UInt8) (actions : List Action)
    (hok : Runs.Meets step (fun l action => l.Flagged action ∧ l.AnswersUndisturbed action)
      (create address) actions) :
    ∀ e ∈ (Runs.run step (create address) actions).handler.log, e.Lawful := by
  have hquiet := Runs.invariant (I := Quiet) (fun _ _ hi hok => hi.step hok)
    ⟨by constructor <;> simp [create, Handler.create], Handler.guarded_create address {},
      Log.each_nil _⟩ hok
  exact fun e he => hquiet.lawful.of_mem he

/-- A message that waits for the bus when the lock counter of the default configuration has
run out. -/
def waiting : List Action :=
  .sendActiveMessage [0x08, 0x07, 0x04, 0x00] :: feed [0xaa, 0xaa, 0xaa]

/-- A read request for the own slave address up to the echo of the acknowledge. -/
def asked (response : List UInt8) : List Action :=
  [0x03, 0x04, 0x07, 0x04, 0x00, 0x4a, 0x00].map fun byte =>
    .busEvent { byte } { bytes := response }

/-- The answer is complete before the flag comes. -/
def answeredInTime : List Action :=
  waiting ++ asked [0x01, 0x55] ++ feed [0x01, 0x55, 0xce, 0x00] ++
    [.busEvent { byte := 0xaa, busRequest := true } {}] ++ feed [0xff]

theorem run_lawful_answeredInTime :
    (Runs.run step (create 0xff) answeredInTime).handler.state = .activeSendMaster ∧
      ∀ e ∈ (Runs.run step (create 0xff) answeredInTime).handler.log, e.Lawful :=
  ⟨by decide +kernel, run_lawful 0xff answeredInTime (by decide +kernel)⟩

/-- A SYN in the middle of the answer starts the own arbitration, which is lost; the next
bytes are taken for a bad master part and rejected, and a new request is answered with the
index of the old answer. -/
def disturbed : List Action :=
  waiting ++ asked [0x01, 0x55] ++ feed [0x01, 0x55] ++
    [.busEvent { byte := 0xaa, busRequest := true } {}] ++ feed [0x03, 0x04, 0xff] ++
    asked [0x00, 0x00]

theorem not_lawful_disturbed :
    ¬ ∀ (address : UInt8) (actions : List Action),
      Runs.Meets step Flagged (create address) actions →
      ∀ e ∈ (Runs.run step (create address) actions).handler.log, e.Lawful := by
  intro hall
  exact absurd (hall 0xff disturbed (by decide +kernel)) (by decide +kernel)

end Line

end Ebus
