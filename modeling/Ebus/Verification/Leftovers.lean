import Mathlib.Tactic.MkIffOfInductiveProp
import Ebus.Verification.Verdicts

/-!
# What the engine can be left with

Facts about the buffers and counters that hold in every run, whatever flags and resets
come: a start bit may clear the buffers of an exchange that the engine goes on with, and
an arbitration may leave the remains of observed traffic behind. They bound how long the
engine can go on by itself.
-/

namespace Ebus

namespace Handler

/-- The states of an exchange that a slave part may follow. -/
def beforeSlave : HandlerState → Bool
  | .activeSendMaster | .activeReceiveMasterAcknowledge | .activeReceiveSlave
  | .activeSendSlaveNegativeAcknowledge => true
  | _ => false

/-- Between events, in every run: an exchange without a message has lost its buffers to
a start bit, an answer has a bounded length, and an empty buffer leaves no trace, the
repetition of a slave part apart. -/
@[mk_iff] structure Leftovers (h : Handler) : Prop where
  address : isMaster h.sourceAddress = true
  exchange : beforeSlave h.state = true → h.activeMessage = false →
    h.activeMaster.bytes = [] ∧ h.activeSlaveDbx + 2 ≤ h.activeSlave.size + 17
  answer : h.state = .reactiveSendSlave ∨ h.state = .reactiveReceiveSlaveAcknowledge ∨
    h.state = .reactiveSendMasterPositiveAcknowledge ∧
      h.passiveTelegram.telegramType ≠ .masterMaster → h.passiveSlave.size ≤ 36
  master : h.passiveMaster.bytes = [] →
    h.passiveMaster.extended = false ∧ h.passiveMasterDbx = 0 ∧
      h.passiveTelegram.masterHalf = {}
  slave : h.passiveSlave.bytes = [] →
    h.passiveSlave.extended = false ∧ h.passiveSlaveDbx = 0 ∧
      (h.passiveSlaveRepeated = false → h.passiveTelegram.slaveHalf = {})

section Step

variable {h d : Handler} {byte : UInt8} {response : Sequence}

/-- The answer that is sent: at most seventeen bytes and a check sum, stuffed. -/
theorem answerBytes_size {a : Handler} (hwf : a.passiveTelegram.WellFormed) :
    0 < a.answerBytes.size ∧ a.answerBytes.size ≤ 36 := by
  have hlength : a.passiveTelegram.slave.bytes.length ≤ 17 := by
    obtain hnil | hpart := hwf.slave
    · simp [hnil]
    · exact hpart.length_bounds.2
  have hstuffed := EscapeCode.length_stuff Sequence.code
    (a.passiveTelegram.slave.bytes ++ [a.passiveTelegram.slaveCrc])
  have hcount := List.countP_le_length (p := Sequence.code.stuffed)
    (l := a.passiveTelegram.slave.bytes ++ [a.passiveTelegram.slaveCrc])
  simp only [List.length_append, List.length_singleton] at hstuffed hcount
  rw [answerBytes, Sequence.extend_of_logical rfl, Sequence.size, Sequence.stuff_eq]
  simp only [Sequence.pushBack]
  omega

/-- The bytes that a slave part still lacks only become fewer. -/
theorem outstanding_pushBack {s : Sequence} {byte : UInt8} {dbx : Nat}
    (hcount : s.bytes = [] → byte ≤ SequenceLimits.maxDataBytes) (hdbx : dbx + 2 ≤ s.size + 17) :
    nextDbx ((s.pushBack byte true).size = 1) byte byte dbx + 2 ≤
      (s.pushBack byte true).size + 17 := by
  have hsize : (s.pushBack byte true).size = s.size + 1 := by
    simp [Sequence.size, Sequence.pushBack]
  rw [hsize, nextDbx]
  by_cases hempty : s.size = 0
  · have hle : byte.toNat ≤ 16 :=
      UInt8.le_iff_toNat_le.mp (hcount (List.length_eq_zero_iff.mp hempty))
    have hplain : byte ≠ Symbols.ext := by
      rintro rfl
      exact absurd hle (by decide)
    simp [hempty, hplain]
    omega
  · simp only [Nat.add_eq_right, hempty, decide_false, Bool.false_eq_true, if_false]
    split <;> omega

/-- The engine waits for the bus with a message only; a start bit makes the arbitration
fail in the same event. -/
def AwaitsBus (h : Handler) : Prop := h.state = .requestBus →
  h.activeMessage = true ∨ h.lastResult = .observeSyn ∨ h.lastResult = .observeData

theorem Branch.requestBus_message (hwait : AwaitsBus h) (hb : Branch h byte response d)
    (hs : d.state = .requestBus) : d.activeMessage = true := by
  cases hb
  case waits hs' hresult =>
    obtain hmessage | hobserve | hobserve := hwait hs'
    · exact hmessage
    · simp [hobserve] at hresult
    · simp [hobserve] at hresult
  case syn hs' _ =>
    rw [receiveSyn_state, hs'] at hs
    cases hs
  case refused => simp at hs
  all_goals
    subst_vars
    simp_all

theorem pushed_ne_nil (s : Sequence) (byte : UInt8) : (s.pushBack byte true).bytes ≠ [] := by
  simp [Sequence.pushBack]

theorem reduced_ne_nil (s : Sequence) (byte : UInt8) :
    (s.pushBack byte true).reduce.bytes ≠ [] := by
  rw [Ne, Sequence.reduce_eq_nil_iff]
  exact pushed_ne_nil s byte

/-- The bytes that a slave part may still lack. -/
def Lacks (s : Sequence) (dbx : Nat) : Prop := dbx + 2 ≤ s.size + 17

theorem lacks_iff {s : Sequence} {dbx : Nat} : Lacks s dbx ↔ dbx + 2 ≤ s.size + 17 := Iff.rfl

theorem lacks_nil : Lacks {} 0 := by simp [Lacks, Sequence.size]

/-- The length of a stuffed answer. -/
def Short (s : Sequence) : Prop := s.size ≤ 36

theorem short_iff {s : Sequence} : Short s ↔ s.size ≤ 36 := Iff.rfl

theorem Branch.leftovers (hwf : TelegramsWellFormed h) (hwait : AwaitsBus h)
    (hi : Leftovers h) (hb : Branch h byte response d) : Leftovers d := by
  have htype := @forSource_type h byte hwf.passive hi.address
  -- no branch but two changes a bound, so that both stay folded
  rw [leftovers_iff, ← lacks_iff, ← short_iff] at hi ⊢
  obtain ⟨address, exchange, answer, master, slave⟩ := hi
  cases hb
  case forSource hs hm _ hok haddr _ =>
    subst hm
    have hmm := htype hok (by assumption)
    simp_all [beforeSlave, reduced_ne_nil]
  case refused ht =>
    obtain ⟨-, rfl⟩ | ⟨-, rfl⟩ := ht <;> subst_vars <;> simp_all [beforeSlave]
  case forTarget a hs hm _ _ _ _ _ ha _ =>
    have hwf' : a.passiveTelegram.WellFormed := by
      rw [ha, hm]
      exact (hwf.passive.createMaster (h.passiveMaster.pushBack byte true)).createSlave response
    obtain ⟨hpos, hshort⟩ := answerBytes_size hwf'
    rw [← short_iff] at hshort
    have hne : a.answerBytes.bytes ≠ [] := List.ne_nil_of_length_pos hpos
    clear hwf'
    generalize a.answerBytes = wire at *
    subst ha hm
    simp_all [beforeSlave, reduced_ne_nil]
  case syn hs _ =>
    have hkept : h.receiveSyn.state = .passiveReceiveMaster ∧ Leftovers h.receiveSyn := by
      apply receiveSyn_rule (P := fun a => a.state = .passiveReceiveMaster ∧ Leftovers a)
        ⟨hs, address, exchange, answer, master, slave⟩
      · intro _ _
        simp [leftovers_iff, hs, beforeSlave, address]
      · rintro a ⟨has, address, exchange, answer, master, slave⟩ _ _
        refine ⟨by simpa using has, ?_⟩
        constructor <;> simp_all [beforeSlave]
      · rintro a ⟨has, address, exchange, answer, master, slave⟩ _
        exact ⟨has, address, exchange, answer, master, slave⟩
    exact (leftovers_iff _).mp hkept.2
  case won hs hresult hm _ =>
    subst hm
    have hmessage : h.activeMessage = true := by
      obtain hmessage | hobserve | hobserve := hwait hs
      · exact hmessage
      · simp [hobserve] at hresult
      · simp [hobserve] at hresult
    simp_all [beforeSlave]
  case bufferedActiveSlave hs hok _ =>
    have hpush := fun hmessage => lacks_iff.mpr <|
      outstanding_pushBack hok (exchange (by simp [hs, beforeSlave]) hmessage).2
    simp_all [beforeSlave]
  all_goals
    clear hwf hwait htype
    subst_vars
    simp [beforeSlave, pushed_ne_nil, reduced_ne_nil, lacks_nil, *]
  all_goals
    first
    | exact slave
    | exact master
    | exact ⟨master, slave⟩
    | simp_all [beforeSlave]

end Step

/-- The invariant of all runs. -/
structure Bounded (h : Handler) : Prop where
  telegrams : TelegramsWellFormed h
  waiting : h.state = .requestBus → h.activeMessage = true
  leftovers : Leftovers h

theorem Bounded.ready {h : Handler} (hi : Bounded h) (event : BusEvent) :
    AwaitsBus (h.ready event) ∧ Leftovers (h.ready event) := by
  obtain ⟨telegrams, waiting, address, exchange, answer, master, slave⟩ := hi
  cases hstart : event.startBit with
  | false =>
      obtain ⟨request, hready⟩ := h.ready_of_quiet event hstart
      rw [hready]
      unfold requestedState
      split
      · rename_i hflag
        refine ⟨fun _ => .inl hflag.2.2, address, ?_, ?_, master, slave⟩
        · simp [beforeSlave]
        · simp
      · exact ⟨fun hs => .inl (waiting hs), address, exchange, answer, master, slave⟩
  | true =>
      obtain ⟨request, hresult, hready⟩ := h.ready_of_startBit event hstart
      rw [hready]
      refine ⟨fun _ => .inr hresult, ?_⟩
      simp [leftovers_iff, address, Sequence.size]

theorem Bounded.step (h : Handler) (action : BusHandler.Action) (hi : Bounded h) :
    Bounded (BusHandler.step h action) := by
  cases action with
  | busEvent event response =>
      obtain ⟨d, hbranch, heq⟩ := BusHandler.onBusEvent_branch h event response
      obtain ⟨hwait, hready⟩ := hi.ready event
      have hwaiting := hbranch.requestBus_message hwait
      obtain ⟨address, exchange, answer, master, slave⟩ :=
        hbranch.leftovers (hi.telegrams.ready event) hwait hready
      obtain ⟨log, hflush⟩ := d.flush_eq
      refine ⟨hi.telegrams.onBusEvent event response, ?_, ?_⟩
      · rw [BusHandler.step, heq, hflush]
        exact hwaiting
      · rw [BusHandler.step, heq, hflush]
        exact ⟨address, exchange, answer, master, slave⟩
  | sendActiveMessage message =>
      obtain ⟨telegrams, waiting, address, exchange, answer, master, slave⟩ := hi
      rw [BusHandler.step]
      obtain heq | ⟨t, ht, -, -, heq⟩ | ⟨t, ht, -, -, heq⟩ :=
        h.sendActiveMessage_cases message <;> rw [heq]
      · exact ⟨telegrams, waiting, address, exchange, answer, master, slave⟩
      · exact ⟨⟨telegrams.passive, ht ▸ telegrams.active.createMaster _⟩, waiting, address,
          exchange, answer, master, slave⟩
      · exact ⟨⟨telegrams.passive, ht ▸ telegrams.active.createMaster _⟩, fun _ => rfl, address,
          by simp, answer, master, slave⟩
  | resetHandler =>
      rw [BusHandler.step, Handler.reset_eq]
      refine ⟨⟨by simp, by simp⟩, by simp, ?_⟩
      simp [leftovers_iff, hi.leftovers.address, beforeSlave]
  | requestExternal address =>
      exact ⟨⟨hi.1.1, hi.1.2⟩, hi.2, ⟨hi.3.1, hi.3.2, hi.3.3, hi.3.4, hi.3.5⟩⟩
  | resetRequest => exact ⟨⟨hi.1.1, hi.1.2⟩, hi.2, ⟨hi.3.1, hi.3.2, hi.3.3, hi.3.4, hi.3.5⟩⟩
  | setLockCounter lockCounter =>
      exact ⟨⟨hi.1.1, hi.1.2⟩, hi.2, ⟨hi.3.1, hi.3.2, hi.3.3, hi.3.4, hi.3.5⟩⟩

theorem bounded_create (address : UInt8) (request : Request) :
    Bounded (Handler.create address request) := by
  have haddress : isMaster (Handler.create address request).sourceAddress = true :=
    (@verdicts_create (fun _ => True) address request).passive.address
  refine ⟨⟨by simp [Handler.create], by simp [Handler.create]⟩, by simp [Handler.create], ?_⟩
  exact ⟨haddress, by simp [Handler.create, beforeSlave], by simp [Handler.create],
    by simp [Handler.create], by simp [Handler.create]⟩

end Handler

end Ebus
