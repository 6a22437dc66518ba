import Ebus.Utils.TimingStats

/-!
# Samples of several threads

However the calls of the threads mix, the counters lose no sample: when no call is under way they
show the last one, the greatest, the sum and the number of all. In between, what a counter lacks
is carried by the threads that are in a call. No thread waits for another.
-/

namespace Ebus.TimingStats

/-- What a thread at its place has still to put into the greatest value, the sum and the number. -/
def Place.pendingMax : Place → Nat
  | .addSum value _ | .loadMax value _ | .exchange value .. => value.toNat
  | _ => 0

def Place.pendingSum : Place → UInt64
  | .addSum value _ => value.toUInt64
  | _ => 0

def Place.pendingCount : Place → UInt64
  | .addSum .. | .loadMax .. | .exchange .. | .addCount _ => 1
  | _ => 0

def Place.Clearing : Place → Prop
  | .clearMax | .clearSum | .clearCount | .clearMark => True
  | _ => False

/-- The counters show what they showed before the samples, and the samples. -/
structure Exact (before : TimingStats) (r : Recorded) : Prop where
  last : r.stats.last = r.samples.getLastD before.last
  max : r.stats.max.toNat =
    r.samples.foldl (fun top value => Max.max top value.toNat) before.max.toNat
  sum : r.stats.sum = r.samples.foldl (fun total value => total + value.toUInt64) before.sum
  count : r.stats.count = before.count + UInt64.ofNat r.samples.length

@[simp] theorem pendingMax_updateMax (value current : UInt32) (marking : Bool) :
    (Recorded.updateMax value current marking).pendingMax =
      if current < value then value.toNat else 0 := by
  unfold Recorded.updateMax
  split <;> rfl

@[simp] theorem pendingSum_updateMax (value current : UInt32) (marking : Bool) :
    (Recorded.updateMax value current marking).pendingSum = 0 := by
  unfold Recorded.updateMax
  split <;> rfl

@[simp] theorem pendingCount_updateMax (value current : UInt32) (marking : Bool) :
    (Recorded.updateMax value current marking).pendingCount = 1 := by
  unfold Recorded.updateMax
  split <;> rfl

/-- Behind the test of the loop, the value is either carried or no greater than the counter. -/
theorem max_updateMax (value current : UInt32) (marking : Bool) :
    Max.max (Recorded.updateMax value current marking).pendingMax current.toNat =
      Max.max value.toNat current.toNat := by
  rw [pendingMax_updateMax]
  split
  next => rfl
  next hnot =>
    rw [Nat.zero_max, Nat.max_eq_right (Nat.not_lt.mp fun h => hnot (UInt32.lt_iff_toNat_lt.mpr h))]

/-- One operation of a thread: it trades between the counters and what it carries, or it stores
a new sample and carries all of it. -/
inductive Moves (r : Recorded) (p : Place) (after : Recorded × Place) : Prop where
  | trades (samples : after.1.samples = r.samples) (last : after.1.stats.last = r.stats.last)
      (max : Max.max after.2.pendingMax after.1.stats.max.toNat =
        Max.max p.pendingMax r.stats.max.toNat)
      (sum : after.2.pendingSum + after.1.stats.sum = p.pendingSum + r.stats.sum)
      (count : after.2.pendingCount + after.1.stats.count = p.pendingCount + r.stats.count)
  | brings (value : UInt32) (samples : after.1.samples = r.samples ++ [value])
      (last : after.1.stats.last = value)
      (max : Max.max after.2.pendingMax after.1.stats.max.toNat =
        Max.max value.toNat (Max.max p.pendingMax r.stats.max.toNat))
      (sum : after.2.pendingSum + after.1.stats.sum = value.toUInt64 + (p.pendingSum + r.stats.sum))
      (count : after.2.pendingCount + after.1.stats.count = 1 + (p.pendingCount + r.stats.count))

/-- A thread that carries nothing moves on without touching the counters. -/
theorem Moves.idle {r r' : Recorded} {p p' : Place} (samples : r'.samples = r.samples)
    (last : r'.stats.last = r.stats.last) (max : r'.stats.max = r.stats.max)
    (sum : r'.stats.sum = r.stats.sum) (count : r'.stats.count = r.stats.count)
    (hmax : p'.pendingMax = p.pendingMax) (hsum : p'.pendingSum = p.pendingSum)
    (hcount : p'.pendingCount = p.pendingCount) : Moves r p (r', p') :=
  .trades samples last (by rw [hmax, max]) (by rw [hsum, sum]) (by rw [hcount, count])

theorem addSample_moves (r : Recorded) {p : Place} (value : UInt32) (marking : Bool)
    (hmax : p.pendingMax = 0) (hsum : p.pendingSum = 0) (hcount : p.pendingCount = 0) :
    Moves r p (r.addSample value marking) := by
  refine .brings value rfl rfl ?_ ?_ ?_
  · rw [hmax, Nat.zero_max]
    rfl
  · rw [hsum, UInt64.zero_add]
    rfl
  · rw [hcount, UInt64.zero_add]
    rfl

theorem call_moves (r : Recorded) {call : Call} (hreset : call ≠ .reset) :
    Moves r .idle (r.call call) ∧ ¬(r.call call).2.Clearing := by
  cases call with
  | addSample value => exact ⟨addSample_moves r value false rfl rfl rfl, id⟩
  | addDurationWithTime beginning ending =>
    exact ⟨addSample_moves r _ false rfl rfl rfl, id⟩
  | markBegin beginning => exact ⟨.idle rfl rfl rfl rfl rfl rfl rfl rfl, id⟩
  | markEnd ending =>
    simp only [Recorded.call]
    split
    · exact ⟨.idle rfl rfl rfl rfl rfl rfl rfl rfl, id⟩
    · exact ⟨.idle rfl rfl rfl rfl rfl rfl rfl rfl, id⟩
  | reset => exact absurd rfl hreset

theorem not_clearing_updateMax (value current : UInt32) (marking : Bool) :
    ¬(Recorded.updateMax value current marking).Clearing := by
  unfold Recorded.updateMax
  split <;> exact id

theorem resume_moves (r : Recorded) (spurious : Bool) {p : Place} (hclear : ¬p.Clearing) :
    Moves r p (r.resume spurious p) ∧ ¬(r.resume spurious p).2.Clearing := by
  cases p with
  | idle => exact ⟨.idle rfl rfl rfl rfl rfl rfl rfl rfl, id⟩
  | mark => exact ⟨.idle rfl rfl rfl rfl rfl rfl rfl rfl, id⟩
  | measure endUs => exact ⟨.idle rfl rfl rfl rfl rfl rfl rfl rfl, id⟩
  | sample value => exact ⟨addSample_moves r value true rfl rfl rfl, id⟩
  | addSum value marking =>
    refine ⟨.trades rfl rfl rfl ?_ rfl, id⟩
    show 0 + (r.stats.sum + value.toUInt64) = value.toUInt64 + r.stats.sum
    rw [UInt64.zero_add, UInt64.add_comm]
  | loadMax value marking =>
    refine ⟨.trades rfl rfl (max_updateMax ..) ?_ ?_, not_clearing_updateMax value _ marking⟩
    · rw [show (r.resume spurious (.loadMax value marking)).2.pendingSum = 0 from
        pendingSum_updateMax ..]
      rfl
    · rw [show (r.resume spurious (.loadMax value marking)).2.pendingCount = 1 from
        pendingCount_updateMax ..]
      rfl
  | exchange value current above marking =>
    simp only [Recorded.resume]
    split
    next hcurrent =>
      -- the exchange has found the value it has loaded, which is below the sample
      refine ⟨.trades rfl rfl ?_ rfl rfl, id⟩
      show Max.max 0 value.toNat = Max.max value.toNat r.stats.max.toNat
      rw [Nat.zero_max, hcurrent.1, Nat.max_eq_left (UInt32.lt_iff_toNat_lt.mp above).le]
    next =>
      refine ⟨.trades rfl rfl (max_updateMax ..) ?_ ?_, not_clearing_updateMax value _ marking⟩
      · rw [pendingSum_updateMax]
        rfl
      · rw [pendingCount_updateMax]
        rfl
  | addCount marking =>
    cases marking with
    | false =>
      refine ⟨.trades rfl rfl rfl rfl ?_, id⟩
      show 0 + (r.stats.count + 1) = 1 + r.stats.count
      rw [UInt64.zero_add, UInt64.add_comm]
    | true =>
      refine ⟨.trades rfl rfl rfl rfl ?_, id⟩
      show 0 + (r.stats.count + 1) = 1 + r.stats.count
      rw [UInt64.zero_add, UInt64.add_comm]
  | unmark => exact ⟨.idle rfl rfl rfl rfl rfl rfl rfl rfl, id⟩
  | clearMax => exact absurd trivial hclear
  | clearSum => exact absurd trivial hclear
  | clearCount => exact absurd trivial hclear
  | clearMark => exact absurd trivial hclear

namespace Sampling

variable {ι : Type*}

section

variable [Fintype ι]

/-- The counters and what the threads carry make up the samples. -/
structure Balanced (before : TimingStats) (s : Sampling ι) : Prop where
  last : s.shared.stats.last = s.shared.samples.getLastD before.last
  max : s.balance Max.max (·.stats.max.toNat) Place.pendingMax =
    s.shared.samples.foldl (fun top value => Max.max top value.toNat) before.max.toNat
  sum : s.balance (fun a b : UInt64 => a + b) (·.stats.sum) Place.pendingSum =
    s.shared.samples.foldl (fun total value => total + value.toUInt64) before.sum
  count : s.balance (fun a b : UInt64 => a + b) (·.stats.count) Place.pendingCount =
    before.count + UInt64.ofNat s.shared.samples.length
  clearing : ∀ i, ¬(s.place i).Clearing

theorem Balanced.move [DecidableEq ι] {before : TimingStats} {s : Sampling ι} {i : ι}
    {after : Recorded × Place} (balanced : Balanced before s) (moves : Moves s.shared (s.place i) after)
    (hclear : ¬after.2.Clearing) : Balanced before (s.move i after) := by
  have clearing : ∀ j, ¬((s.move i after).place j).Clearing :=
    Threads.forall_move (P := fun _ (p : Place) => ¬p.Clearing) balanced.clearing hclear
      fun _ h => h
  cases moves with
  | trades samples last max sum count =>
    refine ⟨?_, ?_, ?_, ?_, clearing⟩
    · rw [Threads.move_shared, last, samples, balanced.last]
    · rw [Threads.balance_move max, balanced.max, Threads.move_shared, samples]
    · rw [Threads.balance_move sum, balanced.sum, Threads.move_shared, samples]
    · rw [Threads.balance_move count, balanced.count, Threads.move_shared, samples]
  | brings value samples last max sum count =>
    refine ⟨?_, ?_, ?_, ?_, clearing⟩
    · rw [Threads.move_shared, last, samples, List.getLastD_concat]
    · rw [Threads.balance_move_brings max, balanced.max, Threads.move_shared, samples,
        List.foldl_concat, Nat.max_comm]
    · rw [Threads.balance_move_brings sum, balanced.sum, Threads.move_shared, samples,
        List.foldl_concat, UInt64.add_comm]
    · rw [Threads.balance_move_brings count, balanced.count, Threads.move_shared, samples,
        List.length_append, List.length_singleton, UInt64.ofNat_add, UInt64.add_comm 1,
        UInt64.add_assoc]
      rfl

theorem Balanced.step [DecidableEq ι] {before : TimingStats} {s : Sampling ι} {action : Action ι}
    (balanced : Balanced before s) (hreset : ∀ i, action ≠ .call i .reset) :
    Balanced before (s.step action) := by
  cases action with
  | call i call =>
    simp only [Sampling.step]
    split
    next hidle =>
      have hcall : call ≠ .reset := fun h => hreset i (by rw [h])
      obtain ⟨moves, hclear⟩ := call_moves s.shared hcall
      exact balanced.move (hidle ▸ moves) hclear
    next => exact balanced
  | resume i spurious =>
    obtain ⟨moves, hclear⟩ := resume_moves s.shared spurious (balanced.clearing i)
    exact balanced.move moves hclear

theorem Balanced.exact {before : TimingStats} {s : Sampling ι} (balanced : Balanced before s)
    (quiet : ∀ i, s.place i = .idle) : Exact before s.shared where
  last := balanced.last
  max := by
    rw [← balanced.max, Threads.balance_quiet Nat.zero_max fun i => by rw [quiet i]; rfl]
  sum := by
    rw [← balanced.sum, Threads.balance_quiet UInt64.zero_add fun i => by rw [quiet i]; rfl]
  count := by
    rw [← balanced.count, Threads.balance_quiet UInt64.zero_add fun i => by rw [quiet i]; rfl]

end

/-- How many operations a thread at its place has still to do when nobody interferes. -/
def remaining (r : Recorded) : Place → Nat
  | .idle => 0
  | .mark | .unmark | .clearMark => 1
  | .addCount _ | .clearCount => 2
  | .exchange _ current .. => if r.stats.max = current then 3 else 4
  | .clearSum => 3
  | .loadMax .. | .clearMax => 4
  | .addSum .. => 5
  | .sample _ => 6
  | .measure _ => 7

theorem remaining_le (r : Recorded) (p : Place) : remaining r p ≤ 7 := by
  cases p with
  | exchange value current above marking =>
    simp only [remaining]
    split <;> decide
  | _ => simp only [remaining]; decide

variable [DecidableEq ι]

end Sampling

end Ebus.TimingStats
