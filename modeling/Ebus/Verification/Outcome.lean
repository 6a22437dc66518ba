import Mathlib.Data.List.Induction
import Ebus.Verification.Engagement
import Ebus.Verification.Verdicts

/-!
# The outcome of an own message

The scheduler hands one message to the engine and waits for a notification that ends
it: the loss of the arbitration, an active telegram, or one of the errors after which
the exchange is over. `outcomes` reads off the log whether a message is open; it has
no value once a notification comes without an open message, or a message is accepted
before the last one has ended.

The engine keeps its flag `activeMessage` in step with that, except where a start bit
clears the flag in a state that has nothing to report, and where an arbitration is
lost while bytes of a slave part are left over, which the next SYN reports again.
-/

namespace Ebus

/-- The report ends the exchange of the own message. A rejected slave part does not:
it is asked for once more. -/
def ProtocolInfo.endsActive (info : ProtocolInfo) : Bool :=
  if info.isError then
    match info.protocolError with
    | .errorActiveMasterEcho | .errorActiveMasterAck | .errorActiveSlaveAck
    | .checkActiveBuffers => true
    | .illegalFsmTransition => info.handlerState = .activeSendMaster
    | _ => false
  else info.messageType = .active

namespace Effect

/-- A notification that ends the own message. -/
def terminal : Effect → Bool
  | .lost => true
  | .protocol info => info.endsActive
  | _ => false

def isAccepted : Effect → Bool
  | .accepted _ => true
  | _ => false

/-- Whether a message is open behind the entry. -/
def follow (waiting : Option Bool) (e : Effect) : Option Bool :=
  if e.isAccepted then (if waiting = some false then some true else none)
  else if e.terminal then (if waiting = some true then some false else none)
  else waiting

/-- Whether a message is open at the end of the log; none if notifications and
messages do not alternate. -/
def outcomes (log : List Effect) : Option Bool := log.foldl follow (some false)

@[simp] theorem outcomes_append (log new : List Effect) :
    outcomes (log ++ new) = new.foldl follow (outcomes log) := List.foldl_append ..

/-- Every message has one notification, except for the one that is still open. -/
theorem count_terminal {log : List Effect} {waiting : Bool} (h : outcomes log = some waiting) :
    log.countP isAccepted = log.countP terminal + waiting.toNat := by
  induction log using List.reverseRecOn generalizing waiting with
  | nil =>
      obtain rfl : false = waiting := by simpa [outcomes] using h
      rfl
  | append_singleton log e ih =>
      rw [outcomes_append] at h
      simp only [List.foldl_cons, List.foldl_nil, follow] at h
      rw [List.countP_append, List.countP_append, List.countP_singleton, List.countP_singleton]
      cases hopen : e.isAccepted with
      | true =>
          have hend : e.terminal = false := by cases e <;> simp_all [isAccepted, terminal]
          simp only [hopen, if_true, Option.ite_none_right_eq_some, Option.some.injEq] at h
          obtain ⟨hlog, rfl⟩ := h
          simp [hend, ih hlog]
      | false =>
          cases hend : e.terminal with
          | true =>
              simp only [hopen, hend, Bool.false_eq_true, if_false, if_true,
                Option.ite_none_right_eq_some, Option.some.injEq] at h
              obtain ⟨hlog, rfl⟩ := h
              simp [ih hlog]
          | false =>
              simp only [hopen, hend, Bool.false_eq_true, if_false] at h
              simp [ih h]

end Effect

namespace Handler

open Effect

/-- Between events: the flag agrees with the log, and the buffers of the own message
are empty unless the engine is engaged with it. -/
@[mk_iff] structure Settled (h : Handler) : Prop where
  outcome : outcomes h.log = some h.activeMessage
  accepted : h.activeMessage = true → h.activeTelegram.masterState = .seqOk
  engaged : h.state.engaged = true → h.activeMessage = true
  idle : h.state.engaged = false → h.activeMaster.bytes = [] ∧ h.activeSlave.bytes = []

section Step

variable {h d : Handler} {byte : UInt8} {response : Sequence}

theorem outcomes_bufferMaster : outcomes (h.bufferMaster byte).log = outcomes h.log := by
  rw [bufferMaster_log, outcomes_append]
  split <;> simp [follow, isAccepted, terminal]

@[simp] theorem outcomes_checkedMaster :
    outcomes (h.checkedMaster byte).log = outcomes h.log := by
  rw [checkedMaster, createPassiveMaster_log, outcomes_append, outcomes_bufferMaster]
  simp [follow, isAccepted, terminal]

/-- An accepted message has bytes to send. -/
theorem one_lt_messageBytes (hwf : h.activeTelegram.WellFormed)
    (hok : h.activeTelegram.masterState = .seqOk) : 1 < h.messageBytes.size := by
  have hlength := (hwf.master (.inl hok)).length_bounds
  rw [Sequence.size, messageBytes_eq hwf hok, Sequence.wire, Sequence.stuff_eq,
    EscapeCode.length_stuff, List.length_append]
  omega

/-- A step that starts in agreement with the log ends so, if no arbitration is lost over
the remains of a slave part. -/
theorem Branch.settled (hwf : TelegramsWellFormed h) (hi : Settled h)
    (hclean : h.state = .requestBus → h.activeSlave.bytes ≠ [] →
      h.lastResult ∈ [.firstSyn, .firstRetry, .retrySyn, .firstWon, .secondWon])
    (hb : Branch h byte response d) : Settled d := by
  have hsize := @one_lt_messageBytes h hwf.active
  obtain ⟨outcome, accepted, engaged, idle⟩ := hi
  cases hb
  case buffered =>
    exact ⟨outcomes_bufferMaster.trans outcome, accepted, engaged, idle⟩
  case syn hs _ =>
    obtain ⟨hmaster, hslave⟩ := idle (by simp [hs, HandlerState.engaged])
    have hkept : h.receiveSyn.Settled ∧ h.receiveSyn.activeMaster.bytes = [] ∧
        h.receiveSyn.activeSlave.bytes = [] := by
      apply receiveSyn_rule (P := fun a => Settled a ∧ a.activeMaster.bytes = [] ∧
        a.activeSlave.bytes = []) ⟨⟨outcome, accepted, engaged, idle⟩, hmaster, hslave⟩
      · intro _ _
        simp_all [settled_iff, follow, isAccepted, terminal, ProtocolInfo.endsActive]
      · rintro a ⟨-, ham, has⟩ hfull
        simp [Sequence.size, ham, has] at hfull
      · rintro a ⟨⟨h1, h2, h3, h4⟩, hempty⟩ _
        exact ⟨⟨h1, h2, h3, h4⟩, hempty⟩
    exact hkept.1
  case refused ht =>
    obtain ⟨-, rfl⟩ | ⟨-, rfl⟩ := ht <;> subst_vars <;>
      simp_all [settled_iff, follow, isAccepted, terminal, ProtocolInfo.endsActive,
        HandlerState.engaged]
  case wonEmpty hs _ hm hshort =>
    subst hm
    have hok := accepted (engaged (by simp [hs, HandlerState.engaged]))
    exact absurd (hsize hok) (Nat.not_lt.mpr hshort)
  case lost hs hresult =>
    have hslave : h.activeSlave.bytes = [] := by
      by_contra hne
      have hkeeps := hclean hs hne
      obtain hr | hr | hr | hr := hresult <;> simp [hr] at hkeeps
    simp_all [settled_iff, follow, isAccepted, terminal, HandlerState.engaged]
  case failed hs hresult =>
    have hslave : h.activeSlave.bytes = [] := by
      by_contra hne
      have hkeeps := hclean hs hne
      obtain hr | hr | hr := hresult <;> simp [hr] at hkeeps
    simp_all [settled_iff, follow, isAccepted, terminal, HandlerState.engaged]
  all_goals
    clear hwf hsize hclean
    subst_vars
    simp [settled_iff, follow, isAccepted, terminal, ProtocolInfo.endsActive,
      HandlerState.engaged, answered, checkedSlave, checkedActiveSlave, *]
  all_goals exact accepted

/-- The step behind a start bit that has cleared an open message: in some states the
byte makes the engine notice, and it reports the end in the same event. -/
theorem Branch.settled_of_cleared (hopen : outcomes h.log = some true)
    (hmaster : h.activeMaster.bytes = []) (hslave : h.activeSlave.bytes = [])
    (hresult : h.lastResult = .observeSyn ∨ h.lastResult = .observeData)
    (hnotice : h.state = .requestBus ∨ h.state = .activeSendMaster ∨
      h.state = .activeSendSlavePositiveAcknowledge ∨
      h.state = .activeReceiveMasterAcknowledge ∧ byte ≠ Symbols.ack ∧ byte ≠ Symbols.nak)
    (hb : Branch h byte response d) : Settled d := by
  have hfails {result : RequestResult} (hr : h.lastResult = result) :
      result = .observeSyn ∨ result = .observeData := hr ▸ hresult
  cases hb
  case waits hs hr => obtain hr | hr | hr := hr <;> simpa using hfails hr
  case won hs hr _ _ => obtain hr | hr := hr <;> simpa using hfails hr
  case wonEmpty hs hr _ _ => obtain hr | hr := hr <;> simpa using hfails hr
  case lost hs hr => obtain hr | hr | hr | hr := hr <;> simpa using hfails hr
  case failed =>
    simp [settled_iff, hopen, hslave, follow, isAccepted, terminal, HandlerState.engaged]
  case nothingSent hs _ =>
    simp [settled_iff, hs, hopen, follow, isAccepted, terminal, ProtocolInfo.endsActive,
      HandlerState.engaged]
  case undelivered =>
    simp [settled_iff, hopen, follow, isAccepted, terminal, ProtocolInfo.endsActive,
      HandlerState.engaged]
  case exchanged =>
    simp [settled_iff, hopen, follow, isAccepted, terminal, ProtocolInfo.endsActive,
      HandlerState.engaged]
  all_goals simp_all [Sequence.size]

end Step

section Run

variable (h : Handler) (event : BusEvent)

/-- The start bit ends an open message with a notification: the arbitration fails, or
the byte meets a state that reports what it misses. -/
def NoticesStartBit : Prop :=
  h.requestedState event = .requestBus ∨ h.requestedState event = .activeSendMaster ∨
  h.requestedState event = .activeSendSlavePositiveAcknowledge ∨
  h.requestedState event = .activeReceiveMasterAcknowledge ∧ event.byte ≠ Symbols.ack ∧
    event.byte ≠ Symbols.nak

/-- The event ends the arbitration without the bus, over the remains of a slave part. -/
def LosesOverSlave : Prop :=
  h.requestedState event = .requestBus ∧ h.activeSlave.bytes ≠ [] ∧
    (h.ready event).lastResult ∉ [.firstSyn, .firstRetry, .retrySyn, .firstWon, .secondWon]

instance : Decidable (NoticesStartBit h event) := inferInstanceAs (Decidable (_ ∨ _))

instance : Decidable (LosesOverSlave h event) := inferInstanceAs (Decidable (_ ∧ _))

end Run

/-- The flags of an event without a start bit only move the engine to the arbitration. -/
theorem Settled.ready_of_quiet {h : Handler} {event : BusEvent} (hi : h.Settled)
    (hquiet : event.startBit = false) : (h.ready event).Settled := by
  obtain ⟨request, hready⟩ := h.ready_of_quiet event hquiet
  rw [hready]
  obtain ⟨outcome, accepted, engaged, idle⟩ := hi
  unfold requestedState
  split
  · rename_i hflag
    exact ⟨outcome, accepted, fun _ => hflag.2.2, by simp [HandlerState.engaged]⟩
  · exact ⟨outcome, accepted, engaged, idle⟩

end Handler

namespace BusHandler

open Effect

/-- The steps that keep the flag and the notifications together. -/
def NotifiesOutcome (h : Handler) : Action → Prop
  | .busEvent event _ =>
      if event.startBit then h.activeMessage = true → h.NoticesStartBit event
      else ¬ h.LosesOverSlave event
  | .resetHandler => h.activeMessage = false
  | _ => True

instance (h : Handler) : (action : Action) → Decidable (NotifiesOutcome h action)
  | .busEvent _ _ => inferInstanceAs (Decidable (ite _ _ _))
  | .resetHandler => inferInstanceAs (Decidable (h.activeMessage = false))
  | .sendActiveMessage _ | .requestExternal _ | .resetRequest | .setLockCounter _ =>
      .isTrue trivial

/-- The invariant of runs. -/
structure OneOutcome (h : Handler) : Prop where
  telegrams : h.TelegramsWellFormed
  settled : h.Settled

theorem onBusEvent_settled {h : Handler} {event : BusEvent} {response : Sequence}
    (hi : OneOutcome h) (hok : NotifiesOutcome h (.busEvent event response)) :
    (onBusEvent h event response).Settled := by
  obtain ⟨telegrams, settled⟩ := hi
  obtain ⟨d, hbranch, heq⟩ := onBusEvent_branch h event response
  have hsettled : d.Settled := by
    cases hstart : event.startBit with
    | false =>
        simp only [NotifiesOutcome, hstart, Bool.false_eq_true, if_false] at hok
        obtain ⟨request, hready⟩ := h.ready_of_quiet event hstart
        refine hbranch.settled (telegrams.ready event) (settled.ready_of_quiet hstart) ?_
        intro hs hne
        by_contra hlost
        exact hok ⟨by simpa [hready] using hs, by simpa [hready] using hne, hlost⟩
    | true =>
        simp only [NotifiesOutcome, hstart, if_true] at hok
        obtain ⟨request, hresult, hready⟩ := h.ready_of_startBit event hstart
        cases hmessage : h.activeMessage with
        | true =>
            have hopen := settled.outcome
            rw [hready] at hbranch
            apply hbranch.settled_of_cleared
            case hnotice => exact hok hmessage
            case hresult => exact hresult
            all_goals simp [hopen, hmessage, follow, isAccepted, terminal]
        | false =>
            have hstate : h.requestedState event = h.state := by
              simp [Handler.requestedState, hmessage]
            have hidle : h.state.engaged = false := by
              by_contra hengaged
              simp [settled.engaged (by simpa using hengaged)] at hmessage
            refine hbranch.settled (telegrams.ready event) ?_ ?_
            · rw [hready]
              simp [Handler.settled_iff, hstate, hidle, settled.outcome, hmessage, follow,
                isAccepted, terminal]
            · simp [hready]
  rw [heq]
  obtain ⟨outcome, accepted, engaged, idle⟩ := hsettled
  obtain hflush | ⟨byte, hflush⟩ := d.flush_cases <;> rw [hflush]
  · exact ⟨outcome, accepted, engaged, idle⟩
  · exact ⟨by simpa [follow, isAccepted, terminal] using outcome, accepted, engaged, idle⟩

theorem step_oneOutcome (h : Handler) (action : Action) (hi : OneOutcome h)
    (hok : NotifiesOutcome h action) : OneOutcome (step h action) := by
  obtain ⟨telegrams, settled⟩ := hi
  obtain ⟨outcome, accepted, engaged, idle⟩ := settled
  cases action with
  | busEvent event response =>
      exact ⟨telegrams.onBusEvent event response,
        onBusEvent_settled ⟨telegrams, outcome, accepted, engaged, idle⟩ hok⟩
  | sendActiveMessage message =>
      rw [step]
      obtain heq | ⟨t, ht, hmsg, -, heq⟩ | ⟨t, ht, hmsg, hpassed, heq⟩ :=
        h.sendActiveMessage_cases message <;> rw [heq]
      · exact ⟨telegrams, outcome, accepted, engaged, idle⟩
      · refine ⟨⟨telegrams.passive, ht ▸ telegrams.active.createMaster _⟩, ?_⟩
        refine ⟨?_, by simp [hmsg], engaged, idle⟩
        simpa [follow, isAccepted, terminal] using outcome
      · refine ⟨⟨telegrams.passive, ht ▸ telegrams.active.createMaster _⟩, ?_⟩
        refine ⟨?_, fun _ => hpassed, fun _ => rfl, idle⟩
        simp [follow, isAccepted, terminal, outcome, hmsg]
  | resetHandler =>
      have hmsg : h.activeMessage = false := hok
      rw [step, Handler.reset_eq]
      refine ⟨⟨by simp, by simp⟩, ?_⟩
      simp [Handler.settled_iff, outcome, hmsg, follow, isAccepted, terminal,
        HandlerState.engaged]
  | requestExternal address =>
      exact ⟨⟨telegrams.1, telegrams.2⟩, ⟨outcome, accepted, engaged, idle⟩⟩
  | resetRequest => exact ⟨⟨telegrams.1, telegrams.2⟩, ⟨outcome, accepted, engaged, idle⟩⟩
  | setLockCounter lockCounter =>
      exact ⟨⟨telegrams.1, telegrams.2⟩, ⟨outcome, accepted, engaged, idle⟩⟩

/-- At every point of such a run the flag says whether the last accepted message is
still without its notification, and every earlier one has had exactly one. -/
theorem run_one_outcome (address : UInt8) (request : Request) (actions : List Action)
    (meets : Runs.Meets step NotifiesOutcome (Handler.create address request) actions) :
    let h := Runs.run step (Handler.create address request) actions
    outcomes h.log = some h.activeMessage ∧
    h.log.countP isAccepted = h.log.countP terminal + h.activeMessage.toNat := by
  have hstart : OneOutcome (Handler.create address request) := by
    refine ⟨⟨by simp [Handler.create], by simp [Handler.create]⟩, ?_⟩
    simp [Handler.settled_iff, Handler.create, outcomes, HandlerState.engaged]
  have hinv := Runs.invariant step_oneOutcome hstart meets
  exact ⟨hinv.settled.outcome, count_terminal hinv.settled.outcome⟩

/-- An own broadcast, and a start bit during the arbitration for a second message. -/
def broadcastThenStartBit : List Action :=
  .sendActiveMessage [0xfe, 0x07, 0x04, 0x00] :: obtainBus 0xff ++
    feed [0xfe, 0x07, 0x04, 0x00, 0x94, 0xaa] ++
    [.sendActiveMessage [0xfe, 0x07, 0x04, 0x00],
      .busEvent { byte := 0xaa, busRequest := true, startBit := true } {}]

theorem run_one_outcome_broadcastThenStartBit :
    Runs.Meets step NotifiesOutcome (Handler.create 0xff {}) broadcastThenStartBit ∧
    outcomes (Runs.run step (Handler.create 0xff {}) broadcastThenStartBit).log =
      some (Runs.run step (Handler.create 0xff {}) broadcastThenStartBit).activeMessage ∧
    (Runs.run step (Handler.create 0xff {}) broadcastThenStartBit).log.countP isAccepted = 2 :=
  have hmeets : Runs.Meets step NotifiesOutcome (Handler.create 0xff {}) broadcastThenStartBit := by
    decide +kernel
  ⟨hmeets, (run_one_outcome 0xff {} broadcastThenStartBit hmeets).1, by decide +kernel⟩

/-- A start bit while a message waits for the bus: the flag is cleared, nothing is
reported. -/
theorem outcome_missing_after_startBit :
    ¬ ∀ actions, outcomes (Runs.run step (Handler.create 0xff {}) actions).log =
      some (Runs.run step (Handler.create 0xff {}) actions).activeMessage := by
  intro hall
  have hflag := hall [.sendActiveMessage [0xfe, 0x07, 0x04, 0x00],
    .busEvent { byte := 0xaa, startBit := true } {}]
  exact absurd hflag (by decide +kernel)

end BusHandler

end Ebus
