import Ebus.Core.BusHandler

/-!
# Reads by index

The state functions read their buffers with an unchecked `operator[]`. Which reads
are inside the buffer depends on what earlier states have stored, and a start bit
empties all buffers without leaving the state. This module says which start bits
are harmless and proves that all reads of a run with harmless start bits are inside.
-/

namespace Ebus

/-- A read stays inside its buffer; other effects are no reads. -/
def Effect.Inside : Effect → Prop
  | .access _ index size => index < size
  | _ => True

namespace Handler

/-- The buffers that the states after this one rely on are not empty. -/
structure BuffersFilled (h : Handler) : Prop where
  reads : Log.Each Effect.Inside h.log
  answer : h.state = .reactiveSendSlave ∨ h.state = .reactiveReceiveSlaveAcknowledge →
    0 < h.passiveSlave.size
  message : h.state = .activeReceiveMasterAcknowledge → 0 < h.activeMaster.size

/-- What one step relies on: less than `BuffersFilled`, since an acknowledge other
than NAK reads nothing. -/
structure ReadsCovered (h : Handler) (byte : UInt8) : Prop where
  reads : Log.Each Effect.Inside h.log
  sending : h.state = .reactiveSendSlave → 0 < h.passiveSlave.size
  answer : h.state = .reactiveReceiveSlaveAcknowledge → byte = Symbols.nak →
    0 < h.passiveSlave.size
  message : h.state = .activeReceiveMasterAcknowledge → byte = Symbols.nak →
    0 < h.activeMaster.size

theorem BuffersFilled.covered {h : Handler} (hi : BuffersFilled h) (byte : UInt8) :
    ReadsCovered h byte :=
  ⟨hi.reads, fun hs => hi.answer (.inl hs), fun hs _ => hi.answer (.inr hs),
    fun hs _ => hi.message hs⟩

/-- A start bit is harmless unless it empties the buffer that a later NAK, or the
NAK of the same event, makes the engine send again. -/
def HarmlessStartBit (h : Handler) (event : BusEvent) : Prop :=
  event.startBit = true →
    h.requestedState event ≠ .reactiveSendSlave ∧
    (event.byte = Symbols.nak →
      h.requestedState event ≠ .reactiveReceiveSlaveAcknowledge ∧
      h.requestedState event ≠ .activeReceiveMasterAcknowledge)

instance (h : Handler) (event : BusEvent) : Decidable (HarmlessStartBit h event) :=
  inferInstanceAs (Decidable (_ → _))

/-- A complete master part has at least six bytes, of which reduction leaves three. -/
theorem checkedMaster_size {h : Handler} {byte : UInt8} (hdone : CompletesMaster h byte) :
    1 < (h.checkedMaster byte).passiveMaster.size := by
  have hraw := hdone.2.2
  have hreduced := Sequence.size_le_two_mul_reduce (h.bufferMaster byte).passiveMaster
  change 1 < (h.bufferMaster byte).passiveMaster.reduce.size
  omega

private theorem bufferMaster_reads {h : Handler} {byte : UInt8}
    (reads : Log.Each Effect.Inside h.log) : Log.Each Effect.Inside (h.bufferMaster byte).log := by
  simp only [bufferMaster_log, Log.each_append]
  refine ⟨reads, ?_⟩
  split
  · rename_i hsize
    simp [Effect.Inside, hsize]
  · simp

private theorem checkedMaster_reads {h : Handler} {byte : UInt8}
    (reads : Log.Each Effect.Inside h.log) : Log.Each Effect.Inside (h.checkedMaster byte).log := by
  simp only [checkedMaster, createPassiveMaster_log, Log.each_append]
  exact ⟨bufferMaster_reads reads, by simp [Effect.Inside]⟩

private theorem receiveSyn_filled {h : Handler} (hs : h.state = .passiveReceiveMaster)
    (reads : Log.Each Effect.Inside h.log) : BuffersFilled h.receiveSyn := by
  have hstate : h.receiveSyn.state = .passiveReceiveMaster := h.receiveSyn_state.trans hs
  refine ⟨?_, by simp [hstate], by simp [hstate]⟩
  apply receiveSyn_rule (P := fun a => Log.Each Effect.Inside a.log) reads
  · intro _ _
    simp [reads, Effect.Inside]
  · intro a hreads _ _
    simp [hreads, Effect.Inside]
  · intro a ha _
    exact ha

/-- One step with covered reads makes reads inside only and leaves filled buffers. -/
theorem Branch.buffersFilled {h d : Handler} {byte : UInt8} {response : Sequence}
    (hi : ReadsCovered h byte) (hb : Branch h byte response d) : BuffersFilled d := by
  obtain ⟨reads, sending, answer, message⟩ := hi
  have hchecked : Log.Each Effect.Inside (h.checkedMaster byte).log := checkedMaster_reads reads
  have hsize : CompletesMaster h byte → 1 < (h.passiveMaster.pushBack byte true).reduce.size :=
    checkedMaster_size
  cases hb
  case buffered hs _ _ _ =>
    exact ⟨bufferMaster_reads reads, by simp [hs], by simp [hs]⟩
  case syn hs _ => exact receiveSyn_filled hs reads
  -- an index below the size also says that the buffer is not empty
  case sendsFirst hindex =>
    exact ⟨by simp [reads, hindex, Effect.Inside], fun _ => Nat.zero_lt_of_lt hindex, by simp⟩
  case sentMaster hindex _ _ _ =>
    exact ⟨by simp [reads, hindex, Effect.Inside], by simp, fun _ => Nat.zero_lt_of_lt hindex⟩
  case sendsMaster hs hindex _ =>
    have hread := Nat.lt_of_succ_lt hindex
    exact ⟨by simp [reads, hindex, hread, Effect.Inside], by simp [hs], by simp [hs]⟩
  case won hm hlong =>
    subst hm
    exact ⟨by simpa [reads, Effect.Inside] using hlong, by simp, by simp⟩
  case refused ht =>
    obtain ⟨-, rfl⟩ | ⟨-, rfl⟩ := ht <;> constructor <;> simp_all [Effect.Inside]
  -- a master part that is complete is long enough to be read
  all_goals
    first
    | replace hsize := hsize ‹CompletesMaster h byte›
    | clear hsize hchecked
    subst_vars
    constructor <;>
      simp [Effect.Inside, checkedSlave, checkedActiveSlave, answered, *]

/-- The flags of an event leave the reads of its step covered. -/
theorem BuffersFilled.ready {h : Handler} {event : BusEvent} (hi : BuffersFilled h)
    (harmless : HarmlessStartBit h event) : ReadsCovered (h.ready event) event.byte := by
  cases hstart : event.startBit with
  | false =>
      obtain ⟨request, hready⟩ := h.ready_of_quiet event hstart
      rw [hready]
      apply BuffersFilled.covered
      unfold requestedState
      split
      · exact ⟨hi.reads, by simp, by simp⟩
      · exact ⟨hi.reads, hi.answer, hi.message⟩
  | true =>
      obtain ⟨request, -, hready⟩ := h.ready_of_startBit event hstart
      obtain ⟨hsend, hnak⟩ := harmless hstart
      rw [hready]
      refine ⟨by simp [hi.reads, Effect.Inside], fun hs => absurd hs hsend, ?_, ?_⟩
      · exact fun hs hbyte => absurd hs (hnak hbyte).1
      · exact fun hs hbyte => absurd hs (hnak hbyte).2

theorem BuffersFilled.flush {h : Handler} (hi : BuffersFilled h) : BuffersFilled h.flush := by
  unfold Handler.flush
  split
  · exact ⟨by simp [hi.reads, Effect.Inside], hi.answer, hi.message⟩
  · exact hi

theorem BuffersFilled.reset {h : Handler} (hi : BuffersFilled h) : BuffersFilled h.reset := by
  rw [reset_eq]
  constructor <;> simp [hi.reads, Effect.Inside]

theorem BuffersFilled.sendActiveMessage {h : Handler} (hi : BuffersFilled h)
    (message : List UInt8) : BuffersFilled (h.sendActiveMessage message).1 := by
  obtain heq | ⟨t, -, -, -, heq⟩ | ⟨t, -, -, -, heq⟩ := h.sendActiveMessage_cases message
  · rwa [heq]
  · rw [heq]
    exact ⟨by simp [hi.reads, Effect.Inside], hi.answer, hi.message⟩
  · rw [heq]
    exact ⟨by simp [hi.reads, Effect.Inside], hi.answer, hi.message⟩

end Handler

namespace BusHandler

/-- The side condition on runs: every start bit is harmless. -/
def StartBitsHarmless (h : Handler) : Action → Prop
  | .busEvent event _ => h.HarmlessStartBit event
  | _ => True

instance (h : Handler) : (action : Action) → Decidable (StartBitsHarmless h action)
  | .busEvent event _ => inferInstanceAs (Decidable (h.HarmlessStartBit event))
  | .sendActiveMessage _ | .resetHandler | .requestExternal _ | .resetRequest
  | .setLockCounter _ => .isTrue trivial

theorem step_buffersFilled (h : Handler) (action : Action) (hi : h.BuffersFilled)
    (harmless : StartBitsHarmless h action) : (step h action).BuffersFilled := by
  cases action with
  | busEvent event response =>
      obtain ⟨d, hbranch, heq⟩ := onBusEvent_branch h event response
      rw [step, heq]
      exact (hbranch.buffersFilled (hi.ready harmless)).flush
  | sendActiveMessage message => exact hi.sendActiveMessage message
  | resetHandler => exact hi.reset
  | requestExternal address => exact ⟨hi.reads, hi.answer, hi.message⟩
  | resetRequest => exact ⟨hi.reads, hi.answer, hi.message⟩
  | setLockCounter lockCounter => exact ⟨hi.reads, hi.answer, hi.message⟩

/-- In every run with harmless start bits all indexed reads are inside their buffers. -/
theorem run_reads_inside (address : UInt8) (request : Request) (actions : List Action)
    (harmless : Runs.Meets step StartBitsHarmless (Handler.create address request) actions) :
    ∀ buffer index size,
      Effect.access buffer index size ∈
        (Runs.run step (Handler.create address request) actions).log → index < size := by
  have hfilled : (Runs.run step (Handler.create address request) actions).BuffersFilled :=
    Runs.invariant step_buffersFilled ⟨Log.each_nil _, by simp [Handler.create],
      by simp [Handler.create]⟩ harmless
  intro buffer index size hmem
  exact hfilled.reads.of_mem hmem

/-- A read request for the own slave address and the echoes of its answer `01 55`, up
to the point where the acknowledge of the answer is due. -/
def answeredRead : List Action :=
  [0x03, 0x04, 0x07, 0x04, 0x00, 0x4a, 0x00, 0x01, 0x55, 0xce].map fun byte =>
    .busEvent { byte } { bytes := [0x01, 0x55] }

/-- With a start bit on an acknowledge that is positive, all reads are inside. -/
theorem run_reads_inside_answeredRead :
    Runs.Meets step StartBitsHarmless (Handler.create 0xff {})
      (answeredRead ++ [.busEvent { byte := 0x00, startBit := true } {}]) ∧
    ∀ buffer index size,
      Effect.access buffer index size ∈ (Runs.run step (Handler.create 0xff {})
        (answeredRead ++ [.busEvent { byte := 0x00, startBit := true } {}])).log →
      index < size :=
  ⟨by decide +kernel, run_reads_inside 0xff {} _ (by decide +kernel)⟩

/-- With a start bit on a negative acknowledge, the engine reads the first byte of an
empty slave buffer. -/
theorem reads_not_inside_after_startBit :
    ¬ ∀ buffer index size,
      Effect.access buffer index size ∈ (Runs.run step (Handler.create 0xff {})
        (answeredRead ++ [.busEvent { byte := 0xff, startBit := true } {}])).log →
      index < size := by
  intro hinside
  have hread : 0 < 0 := hinside .passiveSlave 0 0 (by decide +kernel)
  exact Nat.lt_irrefl 0 hread

end BusHandler

end Ebus
