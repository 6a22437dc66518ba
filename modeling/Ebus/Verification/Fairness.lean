import Ebus.Lib.Run
import Ebus.Core.Request

/-!
# The lock counter and the other masters

After a won arbitration a master leaves the bus to others until as many SYN bytes have passed
as its lock counter says. A SYN does not count if a single byte stands between it and the SYN
before: that byte is the address of an arbitration without a winner. The machine keeps a
count of its own for that, which is preset where an arbitration ends. This module compares
it with the bytes that were really processed.
-/

namespace Ebus

namespace Request

/-- The arbitration is won. -/
def won (r : Request) : Bool := r.result = .firstWon || r.result = .secondWon

/-- What one byte does to the lock counter and to the count of bytes, a rule for each case. -/
inductive Tally (r : Request) (byte : UInt8) (d : Request) : Prop where
  | wins (hwon : d.won = true) (hlock : d.lockCounter = r.lockCounterMax)
      (hcount : d.bytesSinceSyn = 0)
  | observedSyn (hwon : d.won = false) (hs : r.state = .observe) (hbyte : byte = Symbols.syn)
      (hlock : d.lockCounter = if r.bytesSinceSyn ≠ 1 ∧ 0 < r.lockCounter then
        r.lockCounter - 1 else r.lockCounter)
      (hcount : d.bytesSinceSyn = 0)
  | observedByte (hwon : d.won = false) (hs : r.state = .observe) (hbyte : byte ≠ Symbols.syn)
      (hlock : d.lockCounter = r.lockCounter) (hcount : d.bytesSinceSyn = r.bytesSinceSyn + 1)
  | arbitratedSyn (hwon : d.won = false) (hs : r.state = .first ∨ r.state = .retry)
      (hbyte : byte = Symbols.syn) (hlock : d.lockCounter = r.lockCounter)
      (hcount : d.bytesSinceSyn = 0)
  | arbitratedByte (hwon : d.won = false) (hs : r.state ≠ .observe) (hbyte : byte ≠ Symbols.syn)
      (hlock : d.lockCounter = r.lockCounter) (hcount : d.bytesSinceSyn = 1)
  /-- the second round ends with a SYN, which is taken for an address -/
  | unansweredSyn (hwon : d.won = false) (hs : r.state = .second) (hbyte : byte = Symbols.syn)
      (haddress : byte ≠ r.requestAddress) (hlock : d.lockCounter = r.lockCounter)
      (hcount : d.bytesSinceSyn = 1)

section Lock

variable (r : Request)

@[simp] theorem transitionTo_lock (next : RequestState) :
    (r.transitionTo next).lockCounter = r.lockCounter ∧
      (r.transitionTo next).lockCounterMax = r.lockCounterMax ∧
      (r.transitionTo next).bytesSinceSyn = r.bytesSinceSyn := by
  unfold transitionTo
  split
  · exact ⟨rfl, rfl, rfl⟩
  · split <;> exact ⟨rfl, rfl, rfl⟩

theorem run_tally (byte : UInt8) : Tally r byte (r.run byte) := by
  unfold run
  cases hs : r.state with
  | observe =>
      dsimp only
      unfold observe
      split
      · exact .observedSyn rfl hs (by assumption) rfl rfl
      · exact .observedByte rfl hs (by assumption) rfl rfl
  | first =>
      dsimp only
      unfold first
      split
      · exact .arbitratedSyn rfl (.inl hs) (by assumption) (by simp) rfl
      · split
        · exact .wins rfl (by simp) rfl
        · split
          · split
            · exact .arbitratedByte rfl (by simp [hs]) (by assumption) (by simp) rfl
            · exact .arbitratedByte rfl (by simp [hs]) (by assumption) (by simp) rfl
          · exact .arbitratedByte rfl (by simp [hs]) (by assumption) (by simp) rfl
  | retry =>
      dsimp only
      unfold retry
      split
      · exact .arbitratedSyn rfl (.inr hs) (by assumption) (by simp) rfl
      · exact .arbitratedByte rfl (by simp [hs]) (by assumption) (by simp) rfl
  | second =>
      dsimp only
      unfold second
      split
      · exact .wins rfl (by simp) rfl
      · rename_i haddress
        by_cases hsyn : byte = Symbols.syn
        · split
          · exact .unansweredSyn rfl hs hsyn haddress (by simp) rfl
          · exact .unansweredSyn rfl hs hsyn haddress (by simp) rfl
        · split
          · exact .arbitratedByte rfl (by simp [hs]) hsyn (by simp) rfl
          · exact .arbitratedByte rfl (by simp [hs]) hsyn (by simp) rfl

theorem run_lockCounterMax (byte : UInt8) : (r.run byte).lockCounterMax = r.lockCounterMax := by
  unfold run observe first retry second
  cases r.state <;> dsimp only <;> repeat' split
  all_goals simp

/-- The counter stays in its range. -/
structure Bounded (r : Request) : Prop where
  counter : r.lockCounter ≤ r.lockCounterMax
  max : r.lockCounterMax ≤ 25

end Lock

theorem Bounded.of_eq {r d : Request} (hi : Bounded r)
    (hmax : d.lockCounterMax = r.lockCounterMax)
    (hlock : d.lockCounter ≤ r.lockCounter ∨ d.lockCounter = r.lockCounterMax) : Bounded d := by
  refine ⟨?_, hmax ▸ hi.max⟩
  rw [hmax]
  obtain hle | heq := hlock
  · exact UInt8.le_trans hle hi.counter
  · rw [heq]
    exact UInt8.le_refl _

/-- A SYN takes at most one off the counter, and never below zero. -/
theorem counted_toNat (lock : UInt8) (counts : Prop) [Decidable counts] :
    (if counts ∧ 0 < lock then lock - 1 else lock).toNat ≤ lock.toNat ∧
      lock.toNat ≤ (if counts ∧ 0 < lock then lock - 1 else lock).toNat + 1 := by
  split
  · rename_i hpos
    have hone : 1 ≤ lock.toNat := UInt8.lt_iff_toNat_lt.mp hpos.2
    have hle : (1 : UInt8) ≤ lock := UInt8.le_iff_toNat_le.mpr hone
    rw [UInt8.toNat_sub_of_le _ _ hle]
    constructor
    · exact Nat.sub_le _ _
    · exact Nat.le_add_of_sub_le (Nat.le_refl _)
  · exact ⟨Nat.le_refl _, Nat.le_succ _⟩

theorem Bounded.run {r : Request} (hi : Bounded r) (byte : UInt8) : Bounded (r.run byte) := by
  refine hi.of_eq (r.run_lockCounterMax byte) ?_
  cases r.run_tally byte with
  | wins _ hlock => exact .inr hlock
  | observedSyn _ _ _ hlock =>
      refine .inl ?_
      rw [hlock, UInt8.le_iff_toNat_le]
      exact (counted_toNat _ _).1
  | observedByte _ _ _ hlock => exact .inl (hlock ▸ UInt8.le_refl _)
  | arbitratedSyn _ _ _ hlock => exact .inl (hlock ▸ UInt8.le_refl _)
  | arbitratedByte _ _ _ hlock => exact .inl (hlock ▸ UInt8.le_refl _)
  | unansweredSyn _ _ _ _ hlock => exact .inl (hlock ▸ UInt8.le_refl _)

theorem Bounded.setLockCounter {r : Request} (lockCounter : UInt8) :
    Bounded (r.setLockCounter lockCounter) := by
  unfold Request.setLockCounter
  refine ⟨?_, ?_⟩
  · dsimp only
    split
    · exact UInt8.le_refl _
    · exact UInt8.not_lt.mp (by assumption)
  · exact Std.min_le_right

/-- A request, the flag of the reader and a start bit leave the counters alone. -/
theorem call_lock (r : Request) {c : Call} (hc : (∃ address isExternal,
    c = .requestBus address isExternal) ∨ c = .busRequestCompleted ∨ c = .startBit) :
    (r.call c).lockCounter = r.lockCounter ∧ (r.call c).lockCounterMax = r.lockCounterMax ∧
      (r.call c).bytesSinceSyn = r.bytesSinceSyn := by
  obtain ⟨address, isExternal, rfl⟩ | rfl | rfl := hc
  · unfold call requestBus
    dsimp only
    split <;> exact ⟨rfl, rfl, rfl⟩
  · unfold call busRequestCompleted
    dsimp only
    split <;> simp
  · simp [call, startBit]

theorem Bounded.call {r : Request} (hi : Bounded r) (c : Call) : Bounded (r.call c) := by
  have hkept (hc : (∃ address isExternal, c = .requestBus address isExternal) ∨
      c = .busRequestCompleted ∨ c = .startBit) : Bounded (r.call c) := by
    obtain ⟨hlock, hmax, -⟩ := r.call_lock hc
    exact hi.of_eq hmax (.inl (hlock ▸ UInt8.le_refl _))
  cases c with
  | requestBus address isExternal => exact hkept (.inl ⟨address, isExternal, rfl⟩)
  | busRequestCompleted => exact hkept (.inr (.inl rfl))
  | run byte => exact hi.run byte
  | startBit => exact hkept (.inr (.inr rfl))
  | reset =>
      exact hi.of_eq (by simp [Request.call, Request.reset])
        (.inr (by simp [Request.call, Request.reset]))
  | setLockCounter lockCounter => exact .setLockCounter lockCounter

end Request

/-- The machine beside a count of what it was given. No function of the machine reads it. -/
structure Tracked where
  request : Request := {}
  /-- bytes since the last SYN, the last win and the last reset -/
  bytes : Nat := 0
  /-- the lock counter to wait for: that of the last win, until another one is set -/
  locked : Option Nat := none
  /-- SYN bytes observed since that win, each with another number of bytes than one before it -/
  passed : Nat := 0
  deriving DecidableEq, Repr

namespace Tracked

open Request (Call)

def run (t : Tracked) (byte : UInt8) : Tracked :=
  let request := t.request.run byte
  if request.won then
    { request, bytes := 0, locked := some t.request.lockCounterMax.toNat, passed := 0 }
  else if byte = Symbols.syn then
    { t with request, bytes := 0
             passed := if t.request.state = .observe ∧ t.bytes ≠ 1 then t.passed + 1
               else t.passed }
  else { t with request, bytes := t.bytes + 1 }

def step (t : Tracked) : Call → Tracked
  | .run byte => t.run byte
  | .reset => { t with request := t.request.reset, bytes := 0 }
  | .setLockCounter lockCounter =>
      { t with request := t.request.setLockCounter lockCounter, locked := none }
  | call => { t with request := t.request.call call }

/-- No SYN is processed where the second round awaits an address. -/
def Answered (t : Tracked) : Call → Prop
  | .run byte => byte = Symbols.syn → t.request.state = .second → byte = t.request.requestAddress
  | _ => True

instance (t : Tracked) : (call : Call) → Decidable (t.Answered call)
  | .run _ => inferInstanceAs (Decidable (_ → _ → _))
  | .requestBus _ _ | .busRequestCompleted | .startBit | .reset | .setLockCounter _ =>
      .isTrue trivial

/-- A request is accepted only when the lock counter of the last win has passed. -/
def Fair (t : Tracked) : Prop :=
  ∀ lock, t.locked = some lock → t.request.busAvailable = true → lock ≤ t.passed

/-- The machine's own count is right where it matters, and what is left of the lock counter
is still to pass. -/
structure Waits (t : Tracked) : Prop where
  none : t.bytes = 0 → t.request.bytesSinceSyn = 0
  one : t.bytes = 1 → t.request.bytesSinceSyn = 1
  locked : ∀ lock, t.locked = some lock → lock = t.request.lockCounterMax.toNat ∧
    lock ≤ t.passed + t.request.lockCounter.toNat

theorem Waits.fair {t : Tracked} (hi : t.Waits) : t.Fair := by
  intro lock hlock havailable
  have hzero : t.request.lockCounter = 0 := by
    simp only [Request.busAvailable, Bool.and_eq_true, beq_iff_eq] at havailable
    exact havailable.1.2
  have hle := (hi.locked lock hlock).2
  rw [hzero] at hle
  exact hle

theorem Waits.run {t : Tracked} (hi : t.Waits) {byte : UInt8} (hok : t.Answered (.run byte)) :
    (t.run byte).Waits := by
  have htally := t.request.run_tally byte
  have hmax := t.request.run_lockCounterMax byte
  unfold Tracked.run
  generalize t.request.run byte = d at *
  cases htally with
  | wins hwon hlock hcount =>
      rw [if_pos hwon]
      refine ⟨fun _ => hcount, by simp, ?_⟩
      rintro lock hlocked
      obtain rfl := Option.some.inj hlocked
      dsimp only
      rw [hmax, hlock]
      exact ⟨rfl, Nat.le_add_left _ _⟩
  | observedSyn hwon hs hbyte hlock hcount =>
      rw [if_neg (by simp [hwon]), if_pos hbyte]
      refine ⟨fun _ => hcount, by simp, fun lock hlocked => ?_⟩
      obtain ⟨hsame, hle⟩ := hi.locked lock hlocked
      refine ⟨by rw [hmax]; exact hsame, ?_⟩
      have hcounted : t.request.lockCounter.toNat ≤ d.lockCounter.toNat +
          if t.bytes ≠ 1 then 1 else 0 := by
        rw [hlock]
        by_cases hone : t.bytes = 1
        · rw [if_neg (by simp [hi.one hone])]
          exact Nat.le_add_right _ _
        · rw [if_pos hone]
          exact (Request.counted_toNat _ _).2
      simp only [hs, true_and]
      split at hcounted <;> simp_all <;> omega
  | observedByte hwon hs hbyte hlock hcount =>
      rw [if_neg (by simp [hwon]), if_neg hbyte]
      refine ⟨by simp, fun hone => ?_, fun lock hlocked => ?_⟩
      · have hzero : t.bytes = 0 := by simpa using hone
        rw [hcount, hi.none hzero]
        rfl
      · rw [hmax, hlock]
        exact hi.locked lock hlocked
  | arbitratedSyn hwon hs hbyte hlock hcount =>
      have hnot : t.request.state ≠ .observe := by
        obtain hs | hs := hs <;> simp [hs]
      rw [if_neg (by simp [hwon]), if_pos hbyte, if_neg (fun h => hnot h.1)]
      refine ⟨fun _ => hcount, by simp, fun lock hlocked => ?_⟩
      rw [hmax, hlock]
      exact hi.locked lock hlocked
  | arbitratedByte hwon hs hbyte hlock hcount =>
      rw [if_neg (by simp [hwon]), if_neg hbyte]
      refine ⟨by simp, fun _ => hcount, fun lock hlocked => ?_⟩
      rw [hmax, hlock]
      exact hi.locked lock hlocked
  | unansweredSyn hwon hs hbyte haddress _ _ => exact absurd (hok hbyte hs) haddress

theorem Waits.step {t : Tracked} (hi : t.Waits) {call : Call} (hok : t.Answered call) :
    (Tracked.step t call).Waits := by
  have hkept (hc : (∃ address isExternal, call = .requestBus address isExternal) ∨
      call = .busRequestCompleted ∨ call = .startBit) :
      Waits { t with request := t.request.call call } := by
    obtain ⟨hlock, hmax, hcount⟩ := t.request.call_lock hc
    refine ⟨fun h => hcount.trans (hi.none h), fun h => hcount.trans (hi.one h), ?_⟩
    dsimp only
    rw [hmax, hlock]
    exact hi.locked
  cases call with
  | requestBus address isExternal => exact hkept (.inl ⟨address, isExternal, rfl⟩)
  | busRequestCompleted => exact hkept (.inr (.inl rfl))
  | run byte => exact hi.run hok
  | startBit => exact hkept (.inr (.inr rfl))
  | reset =>
      have hnext : Tracked.step t .reset = { t with request := t.request.reset, bytes := 0 } := rfl
      rw [hnext]
      refine ⟨fun _ => by simp [Request.reset], fun hone => absurd hone Nat.zero_ne_one, ?_⟩
      intro lock hlocked
      obtain ⟨hsame, -⟩ := hi.locked lock hlocked
      simp only [Request.reset, Request.transitionTo_lock]
      exact ⟨hsame, by omega⟩
  | setLockCounter lockCounter =>
      refine ⟨hi.none, hi.one, fun lock hlocked => ?_⟩
      cases hlocked

theorem step_request (t : Tracked) (call : Call) :
    (step t call).request = t.request.call call := by
  cases call with
  | run byte =>
      change (t.run byte).request = t.request.run byte
      unfold run
      dsimp only
      split
      · rfl
      · split <;> rfl
  | _ => rfl

/-- The counter stays in its range under all calls. If no second round ends with a SYN, then
after a win no request is accepted before as many SYN bytes have passed as the lock counter
said. -/
theorem run_fair (calls : List Call) :
    (Runs.run step {} calls).request.Bounded ∧
      (Runs.Meets step Answered {} calls → (Runs.run step {} calls).Fair) := by
  constructor
  · refine Runs.invariant_always (I := fun t : Tracked => t.request.Bounded)
      (fun t call hi => ?_) ?_ calls
    · rw [step_request]
      exact hi.call call
    · exact Request.Bounded.mk (by decide) (by decide)
  · intro hok
    exact (Runs.invariant (I := Waits) (fun _ _ hi hok => hi.step hok)
      ⟨fun _ => rfl, by simp, by simp⟩ hok).fair

/-- A win with the lock counter at one, a collision that ends in a lost second round, and
the SYN that frees the bus again. -/
def secondRoundLost : List Call :=
  [.setLockCounter 1, .run 0xaa, .requestBus 0xff false, .busRequestCompleted, .run 0xff,
    .run 0xaa, .requestBus 0xff false, .busRequestCompleted, .run 0x3f, .busRequestCompleted,
    .run 0xaa, .run 0x10, .run 0xaa, .run 0xaa]

theorem run_fair_secondRoundLost :
    (Runs.run step {} secondRoundLost).request.busAvailable = true ∧
      (Runs.run step {} secondRoundLost).locked = some 1 ∧
      (Runs.run step {} secondRoundLost).Fair :=
  ⟨by decide +kernel, by decide +kernel, (run_fair secondRoundLost).2 (by decide +kernel)⟩

/-- The second round ends with a SYN that is counted as a byte. The byte of a collision behind
it makes two, so that the SYN of the collision passes. -/
def secondRoundUnanswered : List Call :=
  [.setLockCounter 1, .run 0xaa, .requestBus 0xff false, .busRequestCompleted,
    .requestBus 0xff false, .run 0xff, .busRequestCompleted, .run 0x3f, .busRequestCompleted,
    .run 0xaa, .run 0xaa, .run 0x10, .run 0xaa]

theorem not_fair_secondRoundUnanswered :
    ¬ ∀ calls : List Call, (Runs.run step {} calls).request.Bounded ∧
      (Runs.run step {} calls).Fair := by
  intro hall
  have hpassed := (hall secondRoundUnanswered).2 1 (by decide) (by decide)
  exact absurd hpassed (by decide)

end Tracked

end Ebus
