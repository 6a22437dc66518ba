import Mathlib.Tactic.MkIffOfInductiveProp
import Ebus.Verification.Engagement

/-!
# The bus stays silent unless addressed

Without an own message the engine writes only as a receiver. The bytes it writes then are
spread over many events: the acknowledge of a master part, and an answer that is sent on
whatever is read meanwhile. Each of them goes back to the master part that was completed last.
-/

namespace Ebus

/-- The master part that an observed telegram has checked. -/
def Effect.completedMaster : Effect → Option (List UInt8)
  | .createMaster .passive input _ => some input
  | _ => none

@[simp] theorem Effect.completedMaster_eq_none :
    won.completedMaster = none ∧ lost.completedMaster = none ∧
      (∀ byte, (write byte).completedMaster = none) ∧
      (∀ info, (protocol info).completedMaster = none) ∧
      (∀ master, (reactive master).completedMaster = none) ∧
      (∀ master, (accepted master).completedMaster = none) ∧
      (∀ input verdict, (createMaster .active input verdict).completedMaster = none) ∧
      (∀ side input verdict, (createSlave side input verdict).completedMaster = none) ∧
      (∀ side, (clear side).completedMaster = none) ∧
      ∀ buffer index size, (access buffer index size).completedMaster = none := by
  simp [completedMaster]

/-- The master part that was completed last. -/
def lastMaster (log : List Effect) : Option (List UInt8) :=
  (log.filterMap Effect.completedMaster).getLast?

/-- The second byte of a master part is one of the two addresses. -/
def Addressed (source target : UInt8) (log : List Effect) : Prop :=
  ∃ input, lastMaster log = some input ∧ (input.getD 1 0 = source ∨ input.getD 1 0 = target)

/-- Whenever a byte is written, the last master part was for one of the two addresses. -/
def WritesAddressed (source target : UInt8) : List Effect → Prop :=
  Log.AtEach fun before e => e.written.isSome = true → Addressed source target before

section Logs

variable {source target : UInt8} {log new : List Effect}

/-- Effects that complete no master part. -/
@[simp] theorem addressed_append (hnew : new.filterMap Effect.completedMaster = []) :
    Addressed source target (log ++ new) ↔ Addressed source target log := by
  simp [Addressed, lastMaster, hnew]

/-- Effects that write nothing. -/
@[simp] theorem writesAddressed_append (hnew : new.filterMap Effect.written = []) :
    WritesAddressed source target (log ++ new) ↔ WritesAddressed source target log := by
  rw [WritesAddressed, Log.atEach_append]
  refine and_iff_left ?_
  intro before e after heq hwritten
  have hnone : e.written = none := by
    rw [List.filterMap_eq_nil_iff] at hnew
    exact hnew e (heq ▸ by simp)
  simp [hnone] at hwritten

theorem writesAddressed_concat {e : Effect} (h : WritesAddressed source target log)
    (he : Addressed source target log) : WritesAddressed source target (log ++ [e]) := by
  rw [WritesAddressed, Log.atEach_append]
  exact ⟨h, by simpa using fun _ => he⟩

end Logs

namespace Handler

/-- The states in which the engine sends for a master part that it has taken. -/
def replying : HandlerState → Bool
  | .reactiveSendMasterPositiveAcknowledge | .reactiveSendSlave
  | .reactiveReceiveSlaveAcknowledge => true
  | _ => false

/-- What holds between events of an engine without a message. -/
structure Receiving (h : Handler) : Prop where
  idle : h.busy = false
  writes : WritesAddressed h.sourceAddress h.targetAddress h.log
  reply : replying h.state = true → Addressed h.sourceAddress h.targetAddress h.log

/-- A step behind which the deferred byte is yet to be written. -/
@[mk_iff] structure Replies (h d : Handler) : Prop where
  source : d.sourceAddress = h.sourceAddress
  target : d.targetAddress = h.targetAddress
  idle : d.busy = false
  writes : WritesAddressed h.sourceAddress h.targetAddress d.log
  pending : d.pendingWrite.isSome = true → Addressed h.sourceAddress h.targetAddress d.log
  reply : replying d.state = true → Addressed h.sourceAddress h.targetAddress d.log

section Step

variable {h d : Handler} {byte : UInt8} {response : Sequence}

theorem Branch.replies (hi : Receiving h) (hquiet : h.pendingWrite = none)
    (hb : Branch h byte response d) : Replies h d := by
  obtain ⟨idle, writes, reply⟩ := hi
  have hbuffered : WritesAddressed h.sourceAddress h.targetAddress (h.bufferMaster byte).log := by
    rw [bufferMaster_log]
    split
    · simpa using writes
    · simpa using writes
  have hchecked : WritesAddressed h.sourceAddress h.targetAddress (h.checkedMaster byte).log := by
    rw [checkedMaster, createPassiveMaster_log, writesAddressed_append rfl]
    exact hbuffered
  have hown (hzz : (h.checkedMaster byte).passiveMaster.get 1 = h.sourceAddress ∨
      (h.checkedMaster byte).passiveMaster.get 1 = h.targetAddress) :
      Addressed h.sourceAddress h.targetAddress (h.checkedMaster byte).log := by
    refine ⟨(h.checkedMaster byte).passiveMaster.bytes, ?_, hzz⟩
    rw [checkedMaster, createPassiveMaster_log, lastMaster, List.filterMap_append]
    exact List.getLast?_concat ..
  simp only [busy, Bool.or_eq_false_iff] at idle
  cases hb
  case buffered hs _ _ _ =>
    exact ⟨rfl, rfl, by simp [busy, idle], hbuffered, by simp [hquiet], by simp [hs, replying]⟩
  case syn hs _ =>
    apply receiveSyn_rule (P := Replies h)
    · exact ⟨rfl, rfl, by simp [busy, idle], writes, by simp [hquiet], by simp [hs, replying]⟩
    · intro _ _
      constructor <;> simp_all [busy, replying]
    · intro a ha _ _
      simp_all [replies_iff, busy]
    · intro a ha _
      exact ⟨ha.source, ha.target, ha.idle, ha.writes, ha.pending, ha.reply⟩
  case refused ht =>
    obtain ⟨haddr, rfl⟩ | ⟨haddr, rfl⟩ := ht <;> subst_vars <;> constructor <;>
      simp_all [busy, replying, HandlerState.engaged]
  case forSource hs hm _ _ _ haddr =>
    subst hm
    have haddressed := hown (.inl haddr)
    simp_all [replies_iff, busy, replying,
      HandlerState.engaged]
  case forTarget hs hm _ _ _ _ haddr ha _ =>
    subst ha hm
    have haddressed := hown (.inr haddr)
    simp_all [replies_iff, busy, replying,
      HandlerState.engaged, answered]
  case badAnswer hs hm _ _ _ _ haddr ha _ =>
    subst ha hm
    have haddressed := hown (.inr haddr)
    simp_all [replies_iff, busy, replying,
      HandlerState.engaged, answered]
  -- the other branches answer nothing that is addressed to the engine
  all_goals
    clear hown hbuffered
    subst_vars
    simp_all [replies_iff, busy, replying,
      HandlerState.engaged, checkedSlave]

end Step

/-- The flags of an event do not concern an engine without a message. -/
theorem Receiving.ready {h : Handler} (hi : Receiving h) (event : BusEvent) :
    Receiving (h.ready event) ∧ (h.ready event).pendingWrite = none ∧
      (h.ready event).sourceAddress = h.sourceAddress ∧
      (h.ready event).targetAddress = h.targetAddress := by
  obtain ⟨idle, writes, reply⟩ := hi
  have hidle : (h.ready event).busy = false := by
    by_contra hbusy
    have := ready_busy (by simpa using hbusy)
    simp [idle] at this
  have hstate : h.requestedState event = h.state := by
    simp only [busy, Bool.or_eq_false_iff] at idle
    simp [requestedState, idle.1]
  cases hstart : event.startBit with
  | false =>
      obtain ⟨request, hready⟩ := h.ready_of_quiet event hstart
      rw [hready, hstate] at hidle ⊢
      exact ⟨⟨hidle, writes, reply⟩, rfl, rfl, rfl⟩
  | true =>
      obtain ⟨request, -, hready⟩ := h.ready_of_startBit event hstart
      rw [hready, hstate] at hidle ⊢
      refine ⟨⟨hidle, ?_, fun hs => ?_⟩, rfl, rfl, rfl⟩
      · simpa using writes
      · simpa using reply hs

theorem Receiving.onBusEvent {h : Handler} (hi : Receiving h) (event : BusEvent)
    (response : Sequence) :
    Receiving (BusHandler.onBusEvent h event response) ∧
      (BusHandler.onBusEvent h event response).sourceAddress = h.sourceAddress ∧
      (BusHandler.onBusEvent h event response).targetAddress = h.targetAddress := by
  obtain ⟨d, hb, heq⟩ := BusHandler.onBusEvent_branch h event response
  obtain ⟨hready, hquiet, hsource, htarget⟩ := hi.ready event
  obtain ⟨source, target, idle, writes, pending, reply⟩ := hb.replies hready hquiet
  rw [← source, ← target] at writes pending reply
  rw [hsource] at source
  rw [htarget] at target
  rw [heq]
  unfold flush
  split
  · rename_i byte hbyte
    have hown := pending (by simp [hbyte])
    refine ⟨⟨idle, writesAddressed_concat writes hown, fun hs => ?_⟩, source, target⟩
    simpa using reply hs
  · exact ⟨⟨idle, writes, reply⟩, source, target⟩

end Handler

namespace BusHandler

/-- No message is handed over for transmission. -/
def Unsent (_ : Handler) : Action → Prop
  | .sendActiveMessage _ => False
  | _ => True

instance (h : Handler) : (action : Action) → Decidable (Unsent h action)
  | .sendActiveMessage _ => .isFalse id
  | .busEvent _ _ => .isTrue trivial
  | .resetHandler => .isTrue trivial
  | .requestExternal _ => .isTrue trivial
  | .resetRequest => .isTrue trivial
  | .setLockCounter _ => .isTrue trivial

theorem step_receiving {h : Handler} {action : Action} (hi : h.Receiving)
    (hunsent : Unsent h action) :
    (step h action).Receiving ∧ (step h action).sourceAddress = h.sourceAddress ∧
      (step h action).targetAddress = h.targetAddress := by
  cases action with
  | busEvent event response => exact hi.onBusEvent event response
  | sendActiveMessage message => exact hunsent.elim
  | resetHandler =>
      rw [step, Handler.reset_eq]
      refine ⟨⟨?_, ?_, ?_⟩, rfl, rfl⟩
      · simp [Handler.busy, HandlerState.engaged]
      · simpa using hi.writes
      · simp [Handler.replying]
  | requestExternal address => exact ⟨⟨hi.idle, hi.writes, hi.reply⟩, rfl, rfl⟩
  | resetRequest => exact ⟨⟨hi.idle, hi.writes, hi.reply⟩, rfl, rfl⟩
  | setLockCounter lockCounter => exact ⟨⟨hi.idle, hi.writes, hi.reply⟩, rfl, rfl⟩

/-- Without an own message the engine writes only when the master part completed last was for
one of its addresses, whatever is on the bus and whatever flags come. -/
theorem run_silent_unless_addressed (address : UInt8) (request : Request)
    (actions : List Action)
    (hunsent : Runs.Meets step Unsent (Handler.create address request) actions) :
    WritesAddressed (Handler.create address request).sourceAddress
      (Handler.create address request).targetAddress
      (Runs.run step (Handler.create address request) actions).log := by
  have hi := Runs.invariant (I := fun h : Handler => h.Receiving ∧
      h.sourceAddress = (Handler.create address request).sourceAddress ∧
      h.targetAddress = (Handler.create address request).targetAddress)
    (fun h action hi hok => by
      obtain ⟨hreceiving, hsource, htarget⟩ := step_receiving hi.1 hok
      exact ⟨hreceiving, hsource.trans hi.2.1, htarget.trans hi.2.2⟩)
    ⟨⟨by simp [Handler.create, Handler.busy, HandlerState.engaged],
      by simp [Handler.create, WritesAddressed], by simp [Handler.create, Handler.replying]⟩,
      rfl, rfl⟩ hunsent
  obtain ⟨hreceiving, hsource, htarget⟩ := hi
  rw [← hsource, ← htarget]
  exact hreceiving.writes

/-- A read request for the own slave address, answered under a flag and a start bit. -/
def answeredUnderNoise : List Action :=
  ([0x03, 0x04, 0x07, 0x04, 0x00, 0x4a, 0x00, 0x01].map fun byte =>
    .busEvent { byte } { bytes := [0x01, 0x55] }) ++
    [.busEvent { byte := 0xaa, busRequest := true } {},
      .busEvent { byte := 0x55, startBit := true } {}]

theorem run_silent_unless_addressed_underNoise :
    WritesAddressed 0xff 0x04
      (Runs.run step (Handler.create 0xff {}) answeredUnderNoise).log ∧
    (Runs.run step (Handler.create 0xff {}) answeredUnderNoise).log.filterMap Effect.written =
      [0x00, 0x01, 0x55, 0xce] :=
  ⟨run_silent_unless_addressed 0xff {} answeredUnderNoise (by decide),
    by decide +kernel⟩

end BusHandler

end Ebus
