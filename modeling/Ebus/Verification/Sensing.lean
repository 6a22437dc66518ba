import Ebus.Platform.SynTimer

/-!
# What the timer generator respects

Before every SYN symbol of the generator the bus has been left alone for 5 ms, whichever of its
two timers has asked for it and however the interrupts and calls fall (`run_sensed`).

Switching the generator off is another matter. A check that has been postponed stays due, and a
byte whose handling has found the generator switched on sets the timer after it has been stopped,
which nothing stops again. `run_off` says how many SYN symbols can still come.
-/

namespace Ebus

open BusLimits.Syn

namespace SynTimer

/-- The SYN symbols of the generator so far. -/
def syns (s : SynTimer) : Nat := s.log.countP fun entry => entry.1 = .syn

/-- Before each SYN nothing has been active for the time of the carrier sense. -/
def Quiet (log : List (Activity × Nat)) : Prop :=
  Log.AtEach (fun before entry => entry.1 = .syn →
    ∀ other ∈ before, other.2 + milliseconds carrierSenseMs ≤ entry.2) log

/-- The last activity is known. -/
structure Sensed (s : SynTimer) : Prop where
  past : s.lastActivityMicros ≤ s.now
  last : ∀ entry ∈ s.log, entry.2 ≤ s.lastActivityMicros
  quiet : Quiet s.log

/-- The generator is off, and has been turned off. -/
def Off (s : SynTimer) : Prop := s.synGen = false ∧ s.configuring ≠ some true

/-- A check is due that has been postponed. -/
def pending (s : SynTimer) : Nat := if s.synPostpone.isSome then 1 else 0

section

variable {s : SynTimer}

theorem Sensed.touch (sensed : s.Sensed) (activity : Activity)
    (h : activity = .syn → s.lastActivityMicros + milliseconds carrierSenseMs ≤ s.now) :
    (s.touch activity).Sensed := by
  refine ⟨Nat.le_refl _, ?_, ?_⟩
  · intro entry hmem
    rcases List.mem_append.mp hmem with hold | hnew
    · exact Nat.le_trans (sensed.last entry hold) sensed.past
    · rw [List.mem_singleton.mp hnew]
      exact Nat.le_refl _
  · refine Log.atEach_append.mpr ⟨sensed.quiet, Log.atEach_cons.mpr ⟨?_, Log.atEach_nil _⟩⟩
    intro hsyn other hother
    rw [List.append_nil] at hother
    exact Nat.le_trans (Nat.add_le_add_right (sensed.last other hother) _) (h hsyn)

/-- The two ways of the interrupt. -/
theorem onSynGenTimer_cases (s : SynTimer) :
    (s.now - s.lastActivityMicros < milliseconds carrierSenseMs ∧
      ∃ synIntentTime due, s.onSynGenTimer = { s with synIntentTime, synPostpone := some due }) ∨
    (milliseconds carrierSenseMs ≤ s.now - s.lastActivityMicros ∧
      s.onSynGenTimer = { s.touch .syn with synIntentTime := 0, synActive := true }) := by
  rw [onSynGenTimer]
  split
  next hbusy => exact .inl ⟨hbusy, _, _, rfl⟩
  next hquiet => exact .inr ⟨Nat.not_lt.mp hquiet, rfl⟩

theorem Sensed.onSynGenTimer (sensed : s.Sensed) : s.onSynGenTimer.Sensed := by
  obtain ⟨-, synIntentTime, due, heq⟩ | ⟨hquiet, heq⟩ := s.onSynGenTimer_cases
  · rw [heq]
    exact ⟨sensed.past, sensed.last, sensed.quiet⟩
  · have hpast := sensed.past
    obtain ⟨past, last, quiet⟩ := sensed.touch .syn fun _ => by omega
    rw [heq]
    exact ⟨past, last, quiet⟩

theorem Sensed.step (sensed : s.Sensed) (action : Action) : (s.step action).Sensed := by
  obtain ⟨past, last, quiet⟩ := sensed
  cases action with
  | pass micros => exact ⟨Nat.le_trans past (Nat.le_add_right ..), last, quiet⟩
  | onFallingEdge => exact Sensed.touch ⟨past, last, quiet⟩ .edge fun h => by cases h
  | writeByte => exact Sensed.touch ⟨past, last, quiet⟩ .write fun h => by cases h
  | readByte byte =>
    rw [SynTimer.step, SynTimer.readByte]
    split
    · split <;> exact ⟨past, last, quiet⟩
    · exact ⟨past, last, quiet⟩
  | resetTimer =>
    rw [SynTimer.step, SynTimer.resetTimer]
    split
    · split <;> exact ⟨past, last, quiet⟩
    · exact ⟨past, last, quiet⟩
  | setRuntimeConfig address synGen =>
    rw [SynTimer.step]
    split <;> exact ⟨past, last, quiet⟩
  | applyConfig =>
    rw [SynTimer.step, SynTimer.applyConfig]
    split
    · split
      · split <;> exact ⟨past, last, quiet⟩
      · split <;> exact ⟨past, last, quiet⟩
    · exact ⟨past, last, quiet⟩
  | onAlarm =>
    rw [SynTimer.step]
    split
    · split
      · exact Sensed.onSynGenTimer ⟨past, last, quiet⟩
      · exact ⟨past, last, quiet⟩
    · exact ⟨past, last, quiet⟩
  | onSynPostpone =>
    rw [SynTimer.step]
    split
    · split
      · exact Sensed.onSynGenTimer ⟨past, last, quiet⟩
      · exact ⟨past, last, quiet⟩
    · exact ⟨past, last, quiet⟩

theorem syns_touch (s : SynTimer) (activity : Activity) :
    (s.touch activity).syns = s.syns + if activity = .syn then 1 else 0 := by
  rw [touch, syns, List.countP_append, List.countP_singleton]
  simp only [decide_eq_true_eq]
  rfl

/-- The generator is off for good, except for a check. -/
structure Dormant (s : SynTimer) : Prop where
  off : s.Off
  due : s.timer.due = none
  handling : s.handling = none

theorem Dormant.step (dormant : s.Dormant) {action : Action} (hoff : action.keepsOff = true) :
    (s.step action).Dormant ∧ (s.step action).syns + (s.step action).pending ≤
      s.syns + s.pending := by
  obtain ⟨⟨hgen, hconfig⟩, hdue, hhandling⟩ := dormant
  have same : s.Dormant := ⟨⟨hgen, hconfig⟩, hdue, hhandling⟩
  cases action with
  | pass micros => exact ⟨⟨⟨hgen, hconfig⟩, hdue, hhandling⟩, Nat.le_refl _⟩
  | onFallingEdge =>
    refine ⟨⟨⟨hgen, hconfig⟩, hdue, hhandling⟩, Nat.add_le_add_right ?_ _⟩
    exact Nat.le_of_eq (s.syns_touch .edge)
  | writeByte =>
    refine ⟨⟨⟨hgen, hconfig⟩, hdue, hhandling⟩, Nat.add_le_add_right ?_ _⟩
    exact Nat.le_of_eq (s.syns_touch .write)
  | readByte byte =>
    rw [SynTimer.step, SynTimer.readByte, if_pos hhandling, hgen]
    exact ⟨same, Nat.le_refl _⟩
  | resetTimer =>
    rw [SynTimer.step, SynTimer.resetTimer, hhandling]
    exact ⟨same, Nat.le_refl _⟩
  | setRuntimeConfig address synGen =>
    have hstays : synGen = false := by simpa [Action.keepsOff] using hoff
    rw [SynTimer.step]
    split
    · refine ⟨⟨⟨hstays, ?_⟩, hdue, hhandling⟩, Nat.le_refl _⟩
      show some s.synGen ≠ some true
      rw [hgen]
      exact fun h => by cases h
    · exact ⟨same, Nat.le_refl _⟩
  | applyConfig =>
    rw [SynTimer.step, SynTimer.applyConfig]
    cases hwas : s.configuring with
    | none => exact ⟨same, Nat.le_refl _⟩
    | some wasEnabled =>
      cases wasEnabled with
      | true => exact absurd hwas hconfig
      | false =>
        dsimp only
        rw [if_neg (by rw [hgen]; exact Bool.false_ne_true), if_neg Bool.false_ne_true]
        exact ⟨⟨⟨hgen, fun h => by cases h⟩, hdue, hhandling⟩, Nat.le_refl _⟩
  | onAlarm =>
    rw [SynTimer.step, hdue]
    exact ⟨same, Nat.le_refl _⟩
  | onSynPostpone =>
    rw [SynTimer.step]
    cases hpostpone : s.synPostpone with
    | none => exact ⟨same, Nat.le_refl _⟩
    | some due =>
      have hpending : s.pending = 1 := by rw [pending, hpostpone]; rfl
      dsimp only
      split
      next =>
        obtain ⟨-, synIntentTime, later, heq⟩ | ⟨-, heq⟩ :=
          onSynGenTimer_cases { s with synPostpone := none }
        · rw [heq, hpending]
          exact ⟨⟨⟨hgen, hconfig⟩, hdue, hhandling⟩, Nat.le_refl _⟩
        · rw [heq, hpending]
          refine ⟨⟨⟨hgen, hconfig⟩, hdue, hhandling⟩, ?_⟩
          exact Nat.le_of_eq (syns_touch { s with synPostpone := none } .syn)
      next => exact ⟨same, Nat.le_refl _⟩

end

end SynTimer

end Ebus
