import Mathlib.Algebra.Order.Ring.Int
import Ebus.App.ConfigValidator
import Ebus.App.Scheduler

/-!
# Times of the scheduler

What a validated configuration makes of the times that the scheduler computes. The sum of two
timeouts is taken in 32 bits, and the pause behind the tenth attempt is the longest that a clock
can count.
-/

namespace Ebus

namespace Scheduler

/-- The greatest number of ticks. -/
def ticksMax : Int := 2 ^ 63 - 1

/-- What the controller sets from its configuration. -/
def configure (s : Scheduler) (config : RuntimeConfig.Scheduler) : Scheduler :=
  ((s.setMaxAttempts config.maxAttempts).setBaseBackoff config.baseBackoffMs).setTotalTimeout
    config.totalTimeoutMs

/-- What is claimed of the times, for every state of the scheduler and every reading of the clock
below half of its range. -/
structure InRange (config : RuntimeConfig.Scheduler) : Prop where
  total : config.fsmTimeoutMs.toNat + config.baseBackoffMs.toNat ≤ config.totalTimeoutMs.toNat
  mono : ∀ (s : Scheduler) (j k : UInt8), 1 ≤ j → j ≤ k → k < config.maxAttempts →
    (s.configure config).backoffDuration j ≤ (s.configure config).backoffDuration k
  due : ∀ (s : Scheduler) (k : UInt8) (now : Int), 1 ≤ k → k < config.maxAttempts → 0 ≤ now →
    now < 2 ^ 62 → now + (s.configure config).backoffDuration k ≤ ticksMax
  retried : ∀ (s : Scheduler) (event : ProtocolEvent) (now : Int), 0 ≤ now → now < 2 ^ 62 →
    ∀ item ∈ ((s.configure config).injectProtocolEvent event now).1.scheduledItems,
      item ∈ s.scheduledItems ∨ now ≤ item.due ∧ item.due ≤ ticksMax

variable {config : RuntimeConfig.Scheduler} (s : Scheduler)

theorem configure_maxAttempts (h : 1 ≤ config.maxAttempts) :
    (s.configure config).maxAttempts = config.maxAttempts := by
  have hne : config.maxAttempts ≠ 0 := by
    intro hzero
    rw [hzero] at h
    exact absurd h (by decide)
  exact if_neg hne

variable (config) in
/-- A pause that is computed is far from the end of the range. -/
theorem configure_baseBackoff_bounds :
    0 ≤ (s.configure config).baseBackoff ∧ (s.configure config).baseBackoff < 2 ^ 32 * 1000 := by
  have hlt := (if config.baseBackoffMs = 0 then 1 else config.baseBackoffMs).toNat_lt
  have hbase : (s.configure config).baseBackoff =
      (if config.baseBackoffMs = 0 then 1 else config.baseBackoffMs).toNat * 1000 := rfl
  rw [hbase]
  omega

theorem backoffDuration_of_le {k : UInt8} (hpos : 1 ≤ k) (hk : k ≤ 10) :
    s.backoffDuration k = s.baseBackoff * 2 ^ (k.toNat - 1) := by
  have hzero : k ≠ 0 := by
    rintro rfl
    exact absurd hpos (by decide)
  rw [backoffDuration, if_neg hzero, if_neg (UInt8.not_lt.mpr hk)]

theorem backoffDuration_of_lt {k : UInt8} (hk : 10 < k) : s.backoffDuration k = ticksMax := by
  have hzero : k ≠ 0 := by
    rintro rfl
    exact absurd hk (by decide)
  rw [backoffDuration, if_neg hzero, if_pos hk, ticksMax]

variable (config) in
theorem backoffDuration_bounds {k : UInt8} (hpos : 1 ≤ k) (hk : k ≤ 10) :
    0 ≤ (s.configure config).backoffDuration k ∧
      (s.configure config).backoffDuration k < 2 ^ 32 * 1000 * 2 ^ 9 := by
  obtain ⟨hnonneg, hlt⟩ := s.configure_baseBackoff_bounds config
  have hexp : k.toNat - 1 ≤ 9 := by
    have hle := UInt8.le_iff_toNat_le.mp hk
    have hten : (10 : UInt8).toNat = 10 := rfl
    omega
  have hpow : (2 : Int) ^ (k.toNat - 1) ≤ 2 ^ 9 := pow_le_pow_right₀ (by decide) hexp
  have hpowPos : (0 : Int) < 2 ^ (k.toNat - 1) := Int.pow_pos (by decide)
  rw [backoffDuration_of_le _ hpos hk]
  refine ⟨Int.mul_nonneg hnonneg hpowPos.le, ?_⟩
  exact Int.mul_lt_mul hlt hpow hpowPos (by decide)

theorem backoffDuration_mono {j k : UInt8} (hpos : 1 ≤ j) (hjk : j ≤ k) :
    (s.configure config).backoffDuration j ≤ (s.configure config).backoffDuration k := by
  by_cases hk : k ≤ 10
  · rw [backoffDuration_of_le _ hpos (UInt8.le_trans hjk hk),
      backoffDuration_of_le _ (UInt8.le_trans hpos hjk) hk]
    refine Int.mul_le_mul_of_nonneg_left ?_ (s.configure_baseBackoff_bounds config).1
    have hle := UInt8.le_iff_toNat_le.mp hjk
    exact pow_le_pow_right₀ (by decide) (Nat.sub_le_sub_right hle 1)
  · rw [backoffDuration_of_lt _ (UInt8.not_le.mp hk)]
    by_cases hj : j ≤ 10
    · exact (s.backoffDuration_bounds config hpos hj).2.le.trans (by decide)
    · exact (backoffDuration_of_lt _ (UInt8.not_le.mp hj)).le

theorem now_add_backoffDuration_le {k : UInt8} {now : Int} (hk : k ≤ 10) (hnow : now < 2 ^ 62) :
    now + (s.configure config).backoffDuration k ≤ ticksMax := by
  have hlimit : (2 : Int) ^ 62 + 2 ^ 32 * 1000 * 2 ^ 9 ≤ ticksMax := by decide
  by_cases hpos : 1 ≤ k
  · have hlt := (s.backoffDuration_bounds config hpos hk).2
    omega
  · have hzero : k = 0 := by
      rw [UInt8.not_le] at hpos
      exact UInt8.lt_one_iff.mp hpos
    rw [hzero, backoffDuration, if_pos rfl, ticksMax]
    omega

theorem backoffDuration_nonneg (k : UInt8) : 0 ≤ (s.configure config).backoffDuration k := by
  rw [backoffDuration]
  split
  · exact Int.le_refl 0
  · split
    · decide
    · exact Int.mul_nonneg (s.configure_baseBackoff_bounds config).1 (Int.pow_pos (by decide)).le

/-- A retry puts one item into the queue, for after its pause. -/
theorem mem_injectProtocolEvent {event : ProtocolEvent} {now : Int} {item : Item}
    (h : item ∈ (s.injectProtocolEvent event now).1.scheduledItems) :
    item ∈ s.scheduledItems ∨
      item.attempts < s.maxAttempts ∧ item.due = now + s.backoffDuration item.attempts := by
  obtain hsame | ⟨active, -, -, -, ⟨-, hattempts, hretry⟩ | ⟨-, hidle⟩⟩ :=
    s.injectProtocolEvent_cases event now
  · exact .inl (hsame ▸ h)
  · rw [hretry, requeue] at h
    split at h
    · exact .inl h
    · obtain hmem | hmem := List.mem_append.mp h
      · exact .inl hmem
      · rw [List.mem_singleton.mp hmem]
        exact .inr ⟨hattempts, rfl⟩
  · rw [hidle] at h
    exact .inl h

end Scheduler

namespace ConfigValidator

open Scheduler (InRange ticksMax)

variable {posix : Bool} {config : EbusConfig}

/-- What `validate` has checked of the scheduler. -/
theorem validate_scheduler (h : validate posix config = true) :
    1 ≤ config.runtime.scheduler.maxAttempts ∧
      config.runtime.scheduler.fsmTimeoutMs + config.runtime.scheduler.baseBackoffMs ≤
        config.runtime.scheduler.totalTimeoutMs := by
  simp only [validate, validateScheduler, Bool.and_eq_true, decide_eq_true_eq] at h
  exact ⟨h.1.1.2.1.1.1.1, h.1.1.2.2⟩

/-- A validated configuration keeps the times in range if and only if the sum of the timeouts fits
into 32 bits and there is no eleventh pause. -/
theorem inRange_iff (h : validate posix config = true) :
    InRange config.runtime.scheduler ↔
      config.runtime.scheduler.fsmTimeoutMs.toNat +
          config.runtime.scheduler.baseBackoffMs.toNat < 2 ^ 32 ∧
        config.runtime.scheduler.maxAttempts ≤ 11 := by
  obtain ⟨hattempts, htotal⟩ := validate_scheduler h
  generalize config.runtime.scheduler = config at hattempts htotal ⊢
  constructor
  · intro hrange
    refine ⟨Nat.lt_of_le_of_lt hrange.total config.totalTimeoutMs.toNat_lt, ?_⟩
    by_contra hmany
    have hpause := hrange.due {} 11 1 (by decide) (UInt8.not_le.mp hmany) (by decide) (by decide)
    rw [Scheduler.backoffDuration_of_lt _ (by decide), ticksMax] at hpause
    exact absurd hpause (by decide)
  · rintro ⟨hsum, hfew⟩
    have hten {k : UInt8} (hk : k < config.maxAttempts) : k ≤ 10 := by
      have hlt := UInt8.lt_iff_toNat_lt.mp (UInt8.lt_of_lt_of_le hk hfew)
      exact UInt8.le_iff_toNat_le.mpr (Nat.le_of_lt_succ hlt)
    refine ⟨?_, fun s j k hpos hjk _ => s.backoffDuration_mono hpos hjk, ?_, ?_⟩
    · have hle := UInt32.le_iff_toNat_le.mp htotal
      rwa [UInt32.toNat_add, Nat.mod_eq_of_lt hsum] at hle
    · intro s k now _ hk _ hnow
      exact s.now_add_backoffDuration_le (hten hk) hnow
    · intro s event now _ hnow item hitem
      obtain hmem | ⟨hlt, hdue⟩ := (s.configure config).mem_injectProtocolEvent hitem
      · exact .inl hmem
      · rw [s.configure_maxAttempts hattempts] at hlt
        refine .inr ⟨?_, ?_⟩
        · rw [hdue]
          exact Int.le_add_of_nonneg_right (s.backoffDuration_nonneg item.attempts)
        · rw [hdue]
          exact s.now_add_backoffDuration_le (hten hlt) hnow

/-- The default configuration. -/
theorem inRange_iff_default :
    validate true {} = true ∧ InRange ({} : EbusConfig).runtime.scheduler := by
  have hvalid : validate true {} = true := by decide
  exact ⟨hvalid, (inRange_iff hvalid).mpr (by decide)⟩

/-- Twelve attempts are accepted; the pause behind the eleventh one is too long. -/
theorem not_inRange :
    ¬ ∀ (posix : Bool) (config : EbusConfig), validate posix config = true →
      InRange config.runtime.scheduler := by
  intro h
  have hrange := h true { runtime.scheduler := { maxAttempts := 12 } } (by decide)
  have hpause := hrange.due {} 11 1 (by decide) (by decide) (by decide) (by decide)
  rw [Scheduler.backoffDuration_of_lt _ (by decide), ticksMax] at hpause
  exact absurd hpause (by decide)

end ConfigValidator

end Ebus
