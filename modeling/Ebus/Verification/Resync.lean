import Ebus.Verification.Engagement
import Ebus.Verification.Leftovers

/-!
# Silence

On an idle bus SYN follows SYN. This module asks whether that brings the engine back
to where it started, with nothing left on its passive side.

Most states give up at the first SYN or count their way to an acknowledge. Two places
do not recover: a slave part that has not begun takes the SYN for its count and resets
the buffers without leaving the state, and the check of the buffers at a SYN leaves the
repeat flags alone when the buffers are empty. `Wedged` names these states; all others
are resynchronised after at most forty SYNs.
-/

namespace Ebus

/-- Everything that observed and answered traffic leaves in the engine. -/
structure PassiveSide where
  telegram : Telegram := {}
  master : Sequence := {}
  masterDbx : Nat := 0
  masterRepeated : Bool := false
  slave : Sequence := {}
  slaveDbx : Nat := 0
  slaveIndex : Nat := 0
  slaveRepeated : Bool := false
  deriving DecidableEq, Repr

namespace Handler

def passiveSide (h : Handler) : PassiveSide where
  telegram := h.passiveTelegram
  master := h.passiveMaster
  masterDbx := h.passiveMasterDbx
  masterRepeated := h.passiveMasterRepeated
  slave := h.passiveSlave
  slaveDbx := h.passiveSlaveDbx
  slaveIndex := h.passiveSlaveIndex
  slaveRepeated := h.passiveSlaveRepeated

/-- The engine listens and its passive side is as in a new one: both buffers are empty,
both repeat flags are cleared, and nothing else is left over. -/
def Resynced (h : Handler) : Prop := h.state = .passiveReceiveMaster ∧ h.passiveSide = {}

instance (h : Handler) : Decidable h.Resynced := inferInstanceAs (Decidable (_ ∧ _))

/-- A SYN without flags. -/
def syn (h : Handler) : Handler := BusHandler.onBusEvent h { byte := Symbols.syn } {}

/-- What a SYN does is one branch; the arbitration and the log play no part below. -/
theorem syn_rule {h : Handler} {P : Handler → Prop}
    (branch : ∀ request log d, Branch { h with request, lastResult := request.result
                                               pendingWrite := none } Symbols.syn {} d →
      P { d with log }) : P h.syn := by
  obtain ⟨d, hbranch, heq⟩ := BusHandler.onBusEvent_branch h { byte := Symbols.syn } {}
  obtain ⟨request, hready⟩ := h.ready_of_quiet { byte := Symbols.syn } rfl
  have hstate : h.requestedState { byte := Symbols.syn } = h.state := by simp [requestedState]
  rw [hready, hstate] at hbranch
  rw [syn, heq]
  obtain ⟨log, hflush⟩ := d.flush_eq
  rw [hflush]
  exact branch request log d hbranch

/-- A SYN completes no master part. -/
theorem not_completesMaster_syn (h : Handler) : ¬ h.CompletesMaster Symbols.syn :=
  fun hdone => hdone.1 rfl

theorem callPassiveReset_passiveSide (h : Handler) : h.callPassiveReset.passiveSide = {} := by
  simp [passiveSide]

/-- The check at a SYN resets the passive side if it finds a byte in its buffers. -/
theorem receiveSyn_passiveSide (h : Handler) :
    h.receiveSyn.passiveSide =
      if 0 < h.passiveMaster.size ∨ 0 < h.passiveSlave.size then {} else h.passiveSide := by
  have hactive (a : Handler) : a.checkActiveBuffers.passiveSide = a.passiveSide := by
    unfold checkActiveBuffers
    split <;> simp [passiveSide]
  have hpassive : h.checkPassiveBuffers.passiveSide =
      if 0 < h.passiveMaster.size ∨ 0 < h.passiveSlave.size then {} else h.passiveSide := by
    unfold checkPassiveBuffers
    split
    · exact callPassiveReset_passiveSide _
    · rfl
  have hside := (hactive h.checkPassiveBuffers).trans hpassive
  unfold receiveSyn
  dsimp only
  split
  · exact hside
  · exact hside

section Silence

variable {h : Handler}

theorem syn_passiveReceiveMaster (hs : h.state = .passiveReceiveMaster) :
    h.syn.state = .passiveReceiveMaster ∧ h.syn.passiveSide =
      if 0 < h.passiveMaster.size ∨ 0 < h.passiveSlave.size then {} else h.passiveSide := by
  apply syn_rule (P := fun a => a.state = .passiveReceiveMaster ∧ a.passiveSide = _)
  intro request log d hb
  cases hb
  case syn =>
    exact ⟨(receiveSyn_state _).trans hs, receiveSyn_passiveSide _⟩
  case rejectedByte hbyte _ => exact absurd rfl hbyte
  case buffered hbyte _ _ => exact absurd rfl hbyte
  all_goals first
    | exact absurd (by assumption) (not_completesMaster_syn _)
    | simp_all

/-- The states that give up at a SYN. -/
theorem syn_gives_up (hs : h.state = .passiveReceiveMasterAcknowledge ∨
    h.state = .passiveReceiveSlaveAcknowledge ∨ h.state = .reactiveReceiveSlaveAcknowledge) :
    h.syn.Resynced := by
  apply syn_rule
  intro request log d hb
  cases hb
  case badMasterAck => exact ⟨rfl, by simp [passiveSide]⟩
  case badSlaveAck => exact ⟨rfl, by simp [passiveSide]⟩
  case badAnswerAck => exact ⟨rfl, by simp [passiveSide]⟩
  case nackedMaster hsyn _ => exact absurd rfl hsyn
  case ackedMasterMaster hbyte _ => exact absurd hbyte (by decide)
  case ackedMaster hbyte _ => exact absurd hbyte (by decide)
  case ackedSlave hbyte => exact absurd hbyte (by decide)
  case nackedSlave hbyte _ => exact absurd hbyte (by decide)
  case answerAcked hbyte => exact absurd hbyte (by decide)
  case answerNacked hbyte _ => exact absurd hbyte (by decide)
  all_goals simp_all

/-- A slave part that has not begun: everything is reset, but the state stays. -/
theorem syn_slave_empty (hs : h.state = .passiveReceiveSlave) (hempty : h.passiveSlave.bytes = []) :
    h.syn.state = .passiveReceiveSlave ∧ h.syn.passiveSide = {} := by
  apply syn_rule (P := fun a => a.state = .passiveReceiveSlave ∧ a.passiveSide = {})
  intro request log d hb
  cases hb
  case rejectedSlave => exact ⟨by simpa using hs, by simp [passiveSide]⟩
  case bufferedSlave hok _ => exact absurd (hok hempty) (by decide)
  case observedSlave hok _ _ _ => exact absurd (hok hempty) (by decide)
  case observedBadSlave hok _ _ _ => exact absurd (hok hempty) (by decide)
  all_goals simp_all

/-- A SYN in a slave part that has begun counts as one data byte. -/
theorem pushBack_syn {s : Sequence} (hbegun : s.bytes ≠ []) (dbx : Nat) :
    (s.pushBack Symbols.syn true).size = s.size + 1 ∧
    nextDbx ((s.pushBack Symbols.syn true).size = 1) Symbols.syn Symbols.syn dbx = dbx := by
  have hsize : (s.pushBack Symbols.syn true).size = s.size + 1 := by
    simp [Sequence.size, Sequence.pushBack]
  have hne : s.size ≠ 0 := fun h0 => hbegun (List.length_eq_zero_iff.mp h0)
  refine ⟨hsize, ?_⟩
  rw [nextDbx, hsize]
  simp [hne, Symbols.syn, Symbols.ext]

/-- A slave part that has begun takes the SYN for a data byte. -/
theorem syn_slave (hs : h.state = .passiveReceiveSlave) (hbegun : h.passiveSlave.bytes ≠ []) :
    if h.passiveSlaveDbx + 2 ≤ h.passiveSlave.size + 1 then
      h.syn.state = .passiveReceiveSlaveAcknowledge
    else h.syn.state = .passiveReceiveSlave ∧ h.syn.passiveSlave.bytes ≠ [] ∧
      h.syn.passiveSlave.size = h.passiveSlave.size + 1 ∧
      h.syn.passiveSlaveDbx = h.passiveSlaveDbx := by
  obtain ⟨hsize, hdbx⟩ := pushBack_syn hbegun h.passiveSlaveDbx
  apply syn_rule (P := fun a => if h.passiveSlaveDbx + 2 ≤ h.passiveSlave.size + 1 then
      a.state = .passiveReceiveSlaveAcknowledge
    else a.state = .passiveReceiveSlave ∧ a.passiveSlave.bytes ≠ [] ∧
      a.passiveSlave.size = h.passiveSlave.size + 1 ∧ a.passiveSlaveDbx = h.passiveSlaveDbx)
  intro request log d hb
  cases hb
  case rejectedSlave hempty _ => exact absurd hempty hbegun
  case bufferedSlave hmore =>
    simp only [bufferSlave_passiveSlave, bufferSlave_passiveSlaveDbx, hdbx] at hmore
    rw [hsize] at hmore
    rw [if_neg (by omega)]
    exact ⟨by simpa using hs, by simp [Sequence.pushBack], by simpa using hsize,
      by simpa using hdbx⟩
  case observedSlave hdone hm _ =>
    simp only [bufferSlave_passiveSlave, bufferSlave_passiveSlaveDbx, hdbx] at hdone
    rw [hsize] at hdone
    rw [if_pos (by omega)]
    rfl
  case observedBadSlave hdone hm _ =>
    simp only [bufferSlave_passiveSlave, bufferSlave_passiveSlaveDbx, hdbx] at hdone
    rw [hsize] at hdone
    rw [if_pos (by omega)]
    rfl
  all_goals simp_all

/-- The engine is about to answer: it gives up, or sends the first byte. -/
theorem syn_answer (hs : h.state = .reactiveSendMasterPositiveAcknowledge) :
    h.syn.Resynced ∨ h.passiveTelegram.telegramType ≠ .masterMaster ∧
      h.syn.state = .reactiveSendSlave ∧ h.syn.passiveSlave = h.passiveSlave := by
  apply syn_rule (P := fun a => a.Resynced ∨ h.passiveTelegram.telegramType ≠ .masterMaster ∧
    a.state = .reactiveSendSlave ∧ a.passiveSlave = h.passiveSlave)
  intro request log d hb
  cases hb
  case receivedMasterMaster => exact .inl ⟨rfl, by simp [passiveSide]⟩
  case nothingToSend => exact .inl ⟨rfl, by simp [passiveSide]⟩
  case sendsFirst htype _ => exact .inr ⟨htype, rfl, rfl⟩
  all_goals simp_all

/-- The echo of a byte of the answer is not compared. -/
theorem syn_sends (hs : h.state = .reactiveSendSlave) :
    h.syn.state = .reactiveReceiveSlaveAcknowledge ∨
    h.passiveSlaveIndex + 1 < h.passiveSlave.size ∧ h.syn.state = .reactiveSendSlave ∧
      h.syn.passiveSlave = h.passiveSlave ∧ h.syn.passiveSlaveIndex = h.passiveSlaveIndex + 1 := by
  apply syn_rule (P := fun a => a.state = .reactiveReceiveSlaveAcknowledge ∨
    h.passiveSlaveIndex + 1 < h.passiveSlave.size ∧ a.state = .reactiveSendSlave ∧
      a.passiveSlave = h.passiveSlave ∧ a.passiveSlaveIndex = h.passiveSlaveIndex + 1)
  intro request log d hb
  cases hb
  case sentSlave => exact .inl rfl
  case sendsNext hindex => exact .inr ⟨hindex, hs, rfl, rfl⟩
  all_goals simp_all

/-- After its NAK the engine listens again, with the repeat flag set. -/
theorem syn_refused (hs : h.state = .reactiveSendMasterNegativeAcknowledge) :
    if h.passiveMasterRepeated then h.syn.Resynced
    else h.syn.state = .passiveReceiveMaster ∧
      h.syn.passiveSide = { h.passiveSide with masterRepeated := true } := by
  apply syn_rule (P := fun a => if h.passiveMasterRepeated then a.Resynced
    else a.state = .passiveReceiveMaster ∧
      a.passiveSide = { h.passiveSide with masterRepeated := true })
  intro request log d hb
  cases hb
  case awaitsRepetition hrep =>
    rw [if_neg (by simpa using hrep)]
    exact ⟨rfl, rfl⟩
  case refusedTwice hrep =>
    rw [if_pos (by simpa using hrep)]
    exact ⟨rfl, by simp [passiveSide]⟩
  all_goals simp_all

/-- The states of the own message and the release of the bus leave the passive side
alone. -/
theorem syn_engaged (hs : h.state = .releaseBus ∨ h.state.exchanging = true) :
    (h.syn.state = .passiveReceiveMaster ∨ h.syn.state = .releaseBus ∨
      h.syn.state.exchanging = true) ∧ h.syn.passiveSide = h.passiveSide := by
  apply syn_rule (P := fun a => (a.state = .passiveReceiveMaster ∨ a.state = .releaseBus ∨
    a.state.exchanging = true) ∧ a.passiveSide = h.passiveSide)
  intro request log d hb
  cases hb
  all_goals
    subst_vars
    simp_all [HandlerState.exchanging, HandlerState.engaged, passiveSide]

theorem syn_releaseBus (hs : h.state = .releaseBus) : h.syn.state = .passiveReceiveMaster := by
  apply syn_rule (P := fun a => a.state = .passiveReceiveMaster)
  intro request log d hb
  cases hb
  case released => rfl
  all_goals simp_all

/-- How far a SYN takes the states of the own message; only the wait for a slave part
can go on. -/
theorem syn_progress (hs : h.state.exchanging = true)
    (hmaster : h.state = .activeSendMaster → h.activeMaster.bytes = []) :
    (h.state = .activeSendMaster ∧ h.syn.state = .passiveReceiveMaster) ∨
    (h.state ≠ .activeReceiveSlave ∧ h.syn.state = .releaseBus) ∨
    (h.state = .activeSendSlaveNegativeAcknowledge ∧ h.activeSlaveRepeated = false ∧
      h.syn.state = .activeReceiveSlave ∧ h.syn.activeSlaveRepeated = true ∧
      h.syn.activeSlave = h.activeSlave ∧ h.syn.activeSlaveDbx = h.activeSlaveDbx) ∨
    (h.state = .activeReceiveSlave ∧
      (h.syn.state = .activeSendSlavePositiveAcknowledge ∨
        h.syn.state = .activeSendSlaveNegativeAcknowledge ∧ h.syn.activeSlave.bytes = [] ∧
          h.syn.activeSlaveRepeated = h.activeSlaveRepeated ∨
        h.activeSlave.bytes ≠ [] ∧ h.activeSlave.size + 1 < h.activeSlaveDbx + 2 ∧
          h.syn.state = .activeReceiveSlave ∧ h.syn.activeSlave.bytes ≠ [] ∧
          h.syn.activeSlave.size = h.activeSlave.size + 1 ∧
          h.syn.activeSlaveDbx = h.activeSlaveDbx)) := by
  apply syn_rule (P := fun a =>
    (h.state = .activeSendMaster ∧ a.state = .passiveReceiveMaster) ∨
    (h.state ≠ .activeReceiveSlave ∧ a.state = .releaseBus) ∨
    (h.state = .activeSendSlaveNegativeAcknowledge ∧ h.activeSlaveRepeated = false ∧
      a.state = .activeReceiveSlave ∧ a.activeSlaveRepeated = true ∧
      a.activeSlave = h.activeSlave ∧ a.activeSlaveDbx = h.activeSlaveDbx) ∨
    (h.state = .activeReceiveSlave ∧
      (a.state = .activeSendSlavePositiveAcknowledge ∨
        a.state = .activeSendSlaveNegativeAcknowledge ∧ a.activeSlave.bytes = [] ∧
          a.activeSlaveRepeated = h.activeSlaveRepeated ∨
        h.activeSlave.bytes ≠ [] ∧ h.activeSlave.size + 1 < h.activeSlaveDbx + 2 ∧
          a.state = .activeReceiveSlave ∧ a.activeSlave.bytes ≠ [] ∧
          a.activeSlave.size = h.activeSlave.size + 1 ∧ a.activeSlaveDbx = h.activeSlaveDbx)))
  intro request log d hb
  cases hb
  case deliveredMasterMaster hbyte _ => exact absurd hbyte (by decide)
  case deliveredMaster hbyte _ => exact absurd hbyte (by decide)
  case resendsMaster hbyte _ => exact absurd hbyte (by decide)
  case badEcho hs' hindex _ _ => simp [Sequence.size, hmaster hs'] at hindex
  case sentBroadcast hs' hindex _ _ _ _ => simp [Sequence.size, hmaster hs'] at hindex
  case sentMaster hs' hindex _ _ _ => simp [Sequence.size, hmaster hs'] at hindex
  case sendsMaster hs' hindex _ => simp [Sequence.size, hmaster hs'] at hindex
  case bufferedActiveSlave hs' hok hmore =>
    have hbegun : h.activeSlave.bytes ≠ [] := fun hempty => absurd (hok hempty) (by decide)
    obtain ⟨hsize, hdbx⟩ := pushBack_syn hbegun h.activeSlaveDbx
    simp only [bufferActiveSlave_activeSlave, bufferActiveSlave_activeSlaveDbx, hdbx] at hmore
    rw [hsize] at hmore
    refine .inr (.inr (.inr ⟨hs', .inr (.inr ⟨hbegun, by omega, hs', ?_, ?_, ?_⟩)⟩))
    · simp [Sequence.pushBack]
    · simpa using hsize
    · simpa using hdbx
  all_goals first
    | exact absurd (‹h.state = _› ▸ hs) (by decide)
    | (subst_vars; simp_all [HandlerState.exchanging, HandlerState.engaged])

end Silence

/-- An idle bus. -/
def silence (n : Nat) : List BusHandler.Action := BusHandler.feed (List.replicate n Symbols.syn)

/-- The engine resynchronises within `n` SYNs. -/
def Within (n : Nat) (h : Handler) : Prop :=
  ∃ m ≤ n, (Runs.run BusHandler.step h (silence m)).Resynced

theorem run_silence_succ (h : Handler) (n : Nat) :
    Runs.run BusHandler.step h (silence (n + 1)) =
      Runs.run BusHandler.step h.syn (silence n) := rfl

section Within

variable {h : Handler} {n : Nat}

theorem Within.of_syn (hw : Within n h.syn) : Within (n + 1) h := by
  obtain ⟨m, hm, hsync⟩ := hw
  exact ⟨m + 1, Nat.succ_le_succ hm, hsync⟩

theorem Within.mono {k : Nat} (hw : Within n h) (hle : n ≤ k) : Within k h := by
  obtain ⟨m, hm, hsync⟩ := hw
  exact ⟨m, Nat.le_trans hm hle, hsync⟩

theorem within_of_syn (hsync : h.syn.Resynced) : Within 1 h := ⟨1, Nat.le_refl 1, hsync⟩

/-- The next SYN in `passiveReceiveMaster` leaves nothing behind. -/
def Clears (side : PassiveSide) : Prop :=
  0 < side.master.size ∨ 0 < side.slave.size ∨ side = {}

theorem within_passiveReceiveMaster (hs : h.state = .passiveReceiveMaster)
    (hclears : Clears h.passiveSide) : Within 1 h := by
  obtain ⟨hstate, hside⟩ := syn_passiveReceiveMaster hs
  refine within_of_syn ⟨hstate, ?_⟩
  rw [hside]
  split
  · rfl
  · rename_i hempty
    obtain hmaster | hslave | hfresh := hclears
    · exact absurd (.inl hmaster) hempty
    · exact absurd (.inr hslave) hempty
    · exact hfresh

theorem within_slave (k : Nat) (hs : h.state = .passiveReceiveSlave)
    (hbegun : h.passiveSlave.bytes ≠ [])
    (hleft : h.passiveSlaveDbx + 2 ≤ h.passiveSlave.size + (k + 1)) : Within (k + 2) h := by
  induction k generalizing h with
  | zero =>
      have hstep := syn_slave hs hbegun
      rw [if_pos hleft] at hstep
      exact (within_of_syn (syn_gives_up (.inr (.inl hstep)))).of_syn
  | succ k ih =>
      have hstep := syn_slave hs hbegun
      split at hstep
      · exact (within_of_syn (syn_gives_up (.inr (.inl hstep)))).of_syn.mono (by omega)
      · obtain ⟨hstate, hbegun', hsize, hdbx⟩ := hstep
        exact (ih hstate hbegun' (by omega)).of_syn

theorem within_sends (k : Nat) (hs : h.state = .reactiveSendSlave)
    (hleft : h.passiveSlave.size ≤ h.passiveSlaveIndex + 1 + k) : Within (k + 2) h := by
  induction k generalizing h with
  | zero =>
      obtain hstate | ⟨hmore, -⟩ := syn_sends hs
      · exact (within_of_syn (syn_gives_up (.inr (.inr hstate)))).of_syn
      · omega
  | succ k ih =>
      obtain hstate | ⟨hmore, hstate, hslave, hindex⟩ := syn_sends hs
      · exact (within_of_syn (syn_gives_up (.inr (.inr hstate)))).of_syn.mono (by omega)
      · refine (ih hstate ?_).of_syn
        rw [hslave, hindex]
        omega

theorem within_releaseBus (hs : h.state = .releaseBus) (hclears : Clears h.passiveSide) :
    Within 2 h := by
  obtain ⟨-, hside⟩ := syn_engaged (.inl hs)
  exact (within_passiveReceiveMaster (syn_releaseBus hs) (hside ▸ hclears)).of_syn

/-- The states of the own message that do not wait for a slave part. -/
theorem within_exchange (hs : h.state.exchanging = true)
    (hmaster : h.state = .activeSendMaster → h.activeMaster.bytes = [])
    (hslave : h.state ≠ .activeReceiveSlave)
    (hrepeated : h.state = .activeSendSlaveNegativeAcknowledge → h.activeSlaveRepeated = true)
    (hclears : Clears h.passiveSide) : Within 3 h := by
  obtain ⟨-, hside⟩ := syn_engaged (.inr hs)
  obtain ⟨-, hstate⟩ | ⟨-, hstate⟩ | ⟨hnak, hfirst, -⟩ | ⟨hars, -⟩ := syn_progress hs hmaster
  · exact (within_passiveReceiveMaster hstate (hside ▸ hclears)).of_syn.mono (by omega)
  · exact (within_releaseBus hstate (hside ▸ hclears)).of_syn
  · rw [hrepeated hnak] at hfirst
    cases hfirst
  · exact absurd hars hslave

/-- The wait for a slave part that was asked for a second time and has not begun. -/
theorem within_repeated (hs : h.state = .activeReceiveSlave) (hempty : h.activeSlave.bytes = [])
    (hrepeated : h.activeSlaveRepeated = true) (hclears : Clears h.passiveSide) : Within 4 h := by
  have hexchanging : h.state.exchanging = true := by rw [hs]; rfl
  obtain ⟨-, hside⟩ := syn_engaged (.inr hexchanging)
  obtain ⟨hasm, -⟩ | ⟨hars, -⟩ | ⟨hnak, -⟩ | ⟨-, hstate | ⟨hstate, -, hrep⟩ | ⟨hbegun, -⟩⟩ :=
    syn_progress hexchanging (by simp [hs])
  · simp [hs] at hasm
  · exact absurd hs hars
  · simp [hs] at hnak
  · exact (within_exchange (by rw [hstate]; rfl) (by simp [hstate]) (by simp [hstate])
      (by simp [hstate]) (hside ▸ hclears)).of_syn
  · exact (within_exchange (by rw [hstate]; rfl) (by simp [hstate]) (by simp [hstate])
      (fun _ => hrep.trans hrepeated) (hside ▸ hclears)).of_syn
  · exact absurd hempty hbegun

theorem within_nacked (hs : h.state = .activeSendSlaveNegativeAcknowledge)
    (hempty : h.activeSlave.bytes = []) (hclears : Clears h.passiveSide) : Within 5 h := by
  have hexchanging : h.state.exchanging = true := by rw [hs]; rfl
  obtain ⟨-, hside⟩ := syn_engaged (.inr hexchanging)
  obtain ⟨hasm, -⟩ | ⟨-, hstate⟩ | ⟨-, -, hstate, hrep, hslave, -⟩ | ⟨hars, -⟩ :=
    syn_progress hexchanging (by simp [hs])
  · simp [hs] at hasm
  · exact (within_releaseBus hstate (hside ▸ hclears)).of_syn.mono (by omega)
  · exact (within_repeated hstate (by rw [hslave]; exact hempty) hrep (hside ▸ hclears)).of_syn
  · simp [hs] at hars

/-- The wait for a slave part ends with an acknowledge, or goes on by one byte. -/
theorem syn_receives (hs : h.state = .activeReceiveSlave) (hclears : Clears h.passiveSide) :
    Within 5 h.syn ∨ h.activeSlave.size + 1 < h.activeSlaveDbx + 2 ∧
      h.syn.state = .activeReceiveSlave ∧ h.syn.activeSlave.size = h.activeSlave.size + 1 ∧
      h.syn.activeSlaveDbx = h.activeSlaveDbx ∧ Clears h.syn.passiveSide := by
  have hexchanging : h.state.exchanging = true := by rw [hs]; rfl
  obtain ⟨-, hside⟩ := syn_engaged (.inr hexchanging)
  obtain ⟨hasm, -⟩ | ⟨hars, -⟩ | ⟨hnak, -⟩ |
      ⟨-, hstate | ⟨hstate, hempty, -⟩ | ⟨-, hmore, hstate, -, hsize, hdbx⟩⟩ :=
    syn_progress hexchanging (by simp [hs])
  · simp [hs] at hasm
  · exact absurd hs hars
  · simp [hs] at hnak
  · refine .inl ((within_exchange (by rw [hstate]; rfl) ?_ ?_ ?_ (hside ▸ hclears)).mono
      (by omega)) <;> simp [hstate]
  · exact .inl (within_nacked hstate hempty (hside ▸ hclears))
  · exact .inr ⟨hmore, hstate, hsize, hdbx, hside ▸ hclears⟩

/-- What is outstanding of a slave part is filled with SYNs. -/
theorem within_receives (k : Nat) (hs : h.state = .activeReceiveSlave)
    (hleft : h.activeSlaveDbx + 2 ≤ h.activeSlave.size + (k + 1))
    (hclears : Clears h.passiveSide) : Within (k + 6) h := by
  induction k generalizing h with
  | zero =>
      obtain hends | ⟨hmore, -⟩ := syn_receives hs hclears
      · exact hends.of_syn
      · omega
  | succ k ih =>
      obtain hends | ⟨hmore, hstate, hsize, hdbx, hclears'⟩ := syn_receives hs hclears
      · exact hends.of_syn.mono (by omega)
      · exact (ih hstate (by omega) hclears').of_syn

end Within

/-- The engine does not recover within `n` SYNs: it waits for a slave part that has not
begun, or lacks too many bytes of one because its counter is left over from another; or
the passive side has lost its buffers but not its repeat flags or the index of an
answer, or is about to. -/
def Wedged (n : Nat) (h : Handler) : Prop :=
  (h.state = .passiveReceiveSlave ∧
    (h.passiveSlave.bytes = [] ∨ h.passiveSlave.size + n ≤ h.passiveSlaveDbx + 2)) ∨
  ((h.state = .passiveReceiveMaster ∨ h.state = .releaseBus ∨ h.state.exchanging = true) ∧
    h.passiveMaster.bytes = [] ∧ h.passiveSlave.bytes = [] ∧
    (h.passiveMasterRepeated = true ∨ h.passiveSlaveRepeated = true ∨
      h.passiveSlaveIndex ≠ 0)) ∨
  (h.state = .reactiveSendMasterNegativeAcknowledge ∧ h.passiveMasterRepeated = false ∧
    h.passiveMaster.bytes = [] ∧ h.passiveSlave.bytes = [])

instance (n : Nat) (h : Handler) : Decidable (Wedged n h) := inferInstanceAs (Decidable (_ ∨ _))

theorem Wedged.not_resynced {n : Nat} {h : Handler} (hw : Wedged n h) : ¬ h.Resynced := by
  rintro ⟨hstate, hside⟩
  obtain ⟨hs, -⟩ | ⟨-, -, -, hflags⟩ | ⟨hs, -⟩ := hw
  · simp [hstate] at hs
  · simp only [passiveSide, PassiveSide.mk.injEq] at hside
    simp [hside] at hflags
  · simp [hstate] at hs

/-- The repeat flags and the index survive without their buffers. -/
theorem wedged_of_side {n : Nat} {h d : Handler}
    (hstate : d.state = .passiveReceiveMaster ∨ d.state = .releaseBus ∨
      d.state.exchanging = true)
    (hside : d.passiveSide = h.passiveSide) (hmaster : h.passiveMaster.bytes = [])
    (hslave : h.passiveSlave.bytes = [])
    (hflags : h.passiveMasterRepeated = true ∨ h.passiveSlaveRepeated = true ∨
      h.passiveSlaveIndex ≠ 0) : Wedged n d := by
  simp only [passiveSide, PassiveSide.mk.injEq] at hside
  obtain ⟨-, hm, -, hmr, hs, -, hi, hsr⟩ := hside
  refine .inr (.inl ⟨hstate, by rw [hm, hmaster], by rw [hs, hslave], ?_⟩)
  rw [hmr, hsr, hi]
  exact hflags

/-- A SYN does not get a wedged engine out; at most it fills one more byte. -/
theorem Wedged.syn {n : Nat} {h : Handler} (hw : Wedged (n + 1) h) :
    Wedged n h.syn ∨ n = 0 ∧ ¬ h.syn.Resynced := by
  obtain ⟨hs, hslave⟩ | ⟨hs, hmaster, hslave, hflags⟩ | ⟨hs, hrep, hmaster, hslave⟩ := hw
  · by_cases hempty : h.passiveSlave.bytes = []
    · obtain ⟨hstate, hside⟩ := syn_slave_empty hs hempty
      simp only [passiveSide, PassiveSide.mk.injEq] at hside
      exact .inl (.inl ⟨hstate, .inl (by rw [hside.2.2.2.2.1])⟩)
    · have hleft := hslave.resolve_left hempty
      have hstep := syn_slave hs hempty
      split at hstep
      · refine .inr ⟨by omega, ?_⟩
        rintro ⟨hstate, -⟩
        simp [hstep] at hstate
      · obtain ⟨hstate, -, hsize, hdbx⟩ := hstep
        exact .inl (.inl ⟨hstate, .inr (by omega)⟩)
  · refine .inl ?_
    obtain hprm | hengaged := hs
    · obtain ⟨hstate, hside⟩ := syn_passiveReceiveMaster hprm
      rw [if_neg (by simp [Sequence.size, hmaster, hslave])] at hside
      exact wedged_of_side (.inl hstate) hside hmaster hslave hflags
    · obtain ⟨hstate, hside⟩ := syn_engaged hengaged
      exact wedged_of_side hstate hside hmaster hslave hflags
  · have hstep := syn_refused hs
    rw [if_neg (by simpa using hrep)] at hstep
    exact .inl (@wedged_of_side n { h with passiveMasterRepeated := true } _ (.inl hstep.1)
      hstep.2 hmaster hslave (.inl rfl))

theorem not_within_of_wedged {n : Nat} {h : Handler} (hw : Wedged n h) : ¬ Within n h := by
  rintro ⟨m, hm, hsync⟩
  induction m generalizing h n with
  | zero => exact hw.not_resynced hsync
  | succ m ih =>
      obtain ⟨n, rfl⟩ : ∃ k, n = k + 1 := ⟨n - 1, by omega⟩
      rw [run_silence_succ] at hsync
      obtain hnext | ⟨rfl, hlast⟩ := hw.syn
      · exact ih hnext (by omega) hsync
      · obtain rfl : m = 0 := by omega
        exact hlast hsync

/-- Without buffers, flags and index nothing is left on the passive side. -/
theorem Leftovers.side_eq {h : Handler} (hi : Leftovers h)
    (hmaster : h.passiveMaster.bytes = []) (hslave : h.passiveSlave.bytes = [])
    (hmr : h.passiveMasterRepeated = false) (hsr : h.passiveSlaveRepeated = false)
    (hindex : h.passiveSlaveIndex = 0) : h.passiveSide = {} := by
  obtain ⟨hm, hmdbx, hmhalf⟩ := hi.master hmaster
  obtain ⟨hs, hsdbx, hshalf⟩ := hi.slave hslave
  have hempty {s : Sequence} (hbytes : s.bytes = []) (hext : s.extended = false) : s = {} := by
    cases s
    simp_all
  simp only [passiveSide, PassiveSide.mk.injEq]
  exact ⟨Telegram.eq_empty_of_halves hmhalf (hshalf hsr), hempty hmaster hm, hmdbx, hmr,
    hempty hslave hs, hsdbx, hindex, hsr⟩

theorem clears_of_not_wedged {n : Nat} {h : Handler} (hi : Leftovers h)
    (hs : h.state = .passiveReceiveMaster ∨ h.state = .releaseBus ∨ h.state.exchanging = true)
    (hw : ¬ Wedged n h) : Clears h.passiveSide := by
  by_cases hmaster : h.passiveMaster.bytes = []
  · by_cases hslave : h.passiveSlave.bytes = []
    · have hflags : ¬ (h.passiveMasterRepeated = true ∨ h.passiveSlaveRepeated = true ∨
          h.passiveSlaveIndex ≠ 0) :=
        fun hflags => hw (.inr (.inl ⟨hs, hmaster, hslave, hflags⟩))
      simp only [not_or, Bool.not_eq_true, not_not] at hflags
      exact .inr (.inr (hi.side_eq hmaster hslave hflags.1 hflags.2.1 hflags.2.2))
    · exact .inr (.inl (List.length_pos_of_ne_nil hslave))
  · exact .inl (List.length_pos_of_ne_nil hmaster)

theorem within_of_not_wedged {n : Nat} (hn : 40 ≤ n) {h : Handler} (hi : Bounded h)
    (hidle : h.activeMessage = false) (hw : ¬ Wedged n h) : Within n h := by
  have hclears := clears_of_not_wedged (n := n) hi.leftovers
  have hexchange := fun hs => hi.leftovers.exchange hs hidle
  cases hs : h.state with
  | passiveReceiveMaster =>
      exact (within_passiveReceiveMaster hs (hclears (.inl hs) hw)).mono (by omega)
  | passiveReceiveMasterAcknowledge =>
      exact (within_of_syn (syn_gives_up (.inl hs))).mono (by omega)
  | passiveReceiveSlave =>
      have hnot : ¬ (h.passiveSlave.bytes = [] ∨
          h.passiveSlave.size + n ≤ h.passiveSlaveDbx + 2) := fun hbad => hw (.inl ⟨hs, hbad⟩)
      obtain ⟨hbegun, hleft⟩ := not_or.mp hnot
      exact (within_slave (n - 2) hs hbegun (by omega)).mono (by omega)
  | passiveReceiveSlaveAcknowledge =>
      exact (within_of_syn (syn_gives_up (.inr (.inl hs)))).mono (by omega)
  | reactiveSendMasterPositiveAcknowledge =>
      obtain hsync | ⟨htype, hstate, hslave⟩ := syn_answer hs
      · exact (within_of_syn hsync).mono (by omega)
      · have hsize := hi.leftovers.answer (.inr (.inr ⟨hs, htype⟩))
        refine (within_sends 35 hstate ?_).of_syn.mono (by omega)
        rw [hslave]
        omega
  | reactiveSendMasterNegativeAcknowledge =>
      have hstep := syn_refused hs
      split at hstep
      · exact (within_of_syn hstep).mono (by omega)
      · rename_i hrep
        obtain ⟨hstate, hside⟩ := hstep
        refine (within_passiveReceiveMaster hstate ?_).of_syn.mono (by omega)
        rw [hside]
        by_cases hmaster : h.passiveMaster.bytes = []
        · refine .inr (.inl (List.length_pos_of_ne_nil fun hslave => hw ?_))
          exact .inr (.inr ⟨hs, by simpa using hrep, hmaster, hslave⟩)
        · exact .inl (List.length_pos_of_ne_nil hmaster)
  | reactiveSendSlave =>
      have hsize := hi.leftovers.answer (.inl hs)
      exact (within_sends 35 hs (by omega)).mono (by omega)
  | reactiveReceiveSlaveAcknowledge =>
      exact (within_of_syn (syn_gives_up (.inr (.inr hs)))).mono (by omega)
  | requestBus =>
      rw [hi.waiting hs] at hidle
      cases hidle
  | activeSendMaster =>
      have hstate : h.state.exchanging = true := by rw [hs]; rfl
      refine (within_exchange hstate (fun _ => (hexchange (by rw [hs]; rfl)).1) ?_ ?_
        (hclears (.inr (.inr hstate)) hw)).mono (by omega) <;> simp [hs]
  | activeReceiveMasterAcknowledge =>
      have hstate : h.state.exchanging = true := by rw [hs]; rfl
      refine (within_exchange hstate ?_ ?_ ?_ (hclears (.inr (.inr hstate)) hw)).mono
        (by omega) <;> simp [hs]
  | activeReceiveSlave =>
      have hstate : h.state.exchanging = true := by rw [hs]; rfl
      exact (within_receives 16 hs (hexchange (by rw [hs]; rfl)).2
        (hclears (.inr (.inr hstate)) hw)).mono (by omega)
  | activeSendSlavePositiveAcknowledge =>
      have hstate : h.state.exchanging = true := by rw [hs]; rfl
      refine (within_exchange hstate ?_ ?_ ?_ (hclears (.inr (.inr hstate)) hw)).mono
        (by omega) <;> simp [hs]
  | activeSendSlaveNegativeAcknowledge =>
      have hstate : h.state.exchanging = true := by rw [hs]; rfl
      obtain ⟨-, hside⟩ := syn_engaged (.inr hstate)
      have hclear := hside ▸ hclears (.inr (.inr hstate)) hw
      obtain ⟨hasm, -⟩ | ⟨-, hnext⟩ | ⟨-, -, hnext, -, hslave, hdbx⟩ | ⟨hars, -⟩ :=
        syn_progress hstate (by simp [hs])
      · simp [hs] at hasm
      · exact (within_releaseBus hnext hclear).of_syn.mono (by omega)
      · refine (within_receives 16 hnext ?_ hclear).of_syn.mono (by omega)
        rw [hslave, hdbx]
        exact (hexchange (by rw [hs]; rfl)).2
      · simp [hs] at hars
  | releaseBus =>
      exact (within_releaseBus hs (hclears (.inr (.inl hs)) hw)).mono (by omega)

end Handler

namespace BusHandler

/-- After any run that leaves no message pending, silence resynchronises the engine
within `n` SYNs exactly if it is not wedged. -/
theorem silence_resyncs_iff (address : UInt8) (request : Request) (actions : List Action)
    (n : Nat) (hn : 40 ≤ n)
    (idle : (Runs.run step (Handler.create address request) actions).activeMessage = false) :
    (∃ m ≤ n, (Runs.run step (Runs.run step (Handler.create address request) actions)
      (Handler.silence m)).Resynced) ↔
    ¬ (Runs.run step (Handler.create address request) actions).Wedged n := by
  have hinv : Handler.Bounded (Runs.run step (Handler.create address request) actions) :=
    Runs.invariant_always Handler.Bounded.step (Handler.bounded_create address request) actions
  constructor
  · intro hwithin hwedged
    exact Handler.not_within_of_wedged hwedged hwithin
  · exact Handler.within_of_not_wedged hn hinv idle

/-- The traffic stops in the middle of a slave part. -/
theorem silence_resyncs_brokenSlave :
    ∃ m ≤ 40, (Runs.run step (Runs.run step (Handler.create 0xff {})
      (feed [0xaa, 0x03, 0x08, 0x07, 0x04, 0x00, 0xf4, 0x00, 0x02, 0x11]))
      (Handler.silence m)).Resynced :=
  (silence_resyncs_iff 0xff {} _ 40 (by decide) (by decide +kernel)).mpr (by decide +kernel)

/-- A master part is refused by its receiver, and its sender does not repeat it: the
repeat flag stays set however long the silence lasts. -/
theorem not_resynced_of_nak :
    ¬ ∃ n, ∀ actions,
      (Runs.run step (Handler.create 0xff {}) actions).activeMessage = false →
      ∃ m ≤ n, (Runs.run step (Runs.run step (Handler.create 0xff {}) actions)
        (Handler.silence m)).Resynced := by
  rintro ⟨n, hall⟩
  have hwithin := hall (feed [0xaa, 0x03, 0x08, 0x07, 0x04, 0x00, 0xf4, 0xff])
    (by decide +kernel)
  refine Handler.not_within_of_wedged (.inr (.inl ?_)) hwithin
  decide +kernel

end BusHandler

end Ebus
