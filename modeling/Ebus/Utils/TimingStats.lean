import Ebus.Lib.Threads
import Ebus.Lib.Run
import Mathlib.Order.Lattice

/-!
# Timing statistics

`TimingStats` is a handful of atomic counters that several threads write without a lock: the
readers and writers of the bus add samples, whoever resets the metrics clears them. A call is a
sequence of atomic operations, between any two of which other threads may go on; the place of a
thread is the operation it does next. An exchange may fail although the value is the expected one.

Calls that read the counters are left out: they do not change them.
-/

namespace Ebus

structure TimingStats where
  last : UInt32 := 0
  max : UInt32 := 0
  sum : UInt64 := 0
  count : UInt64 := 0
  marked : Bool := false
  beginTimeUs : UInt64 := 0
  deriving DecidableEq, Repr

namespace TimingStats

inductive Place where
  | idle
  /-- `markBegin` has stored the time. -/
  | mark
  /-- `markEnd` has seen the mark. -/
  | measure (endUs : UInt64)
  | sample (value : UInt32)
  /-- In `addSample`; behind it `markEnd` takes the mark away. -/
  | addSum (value : UInt32) (marking : Bool)
  | loadMax (value : UInt32) (marking : Bool)
  | exchange (value current : UInt32) (above : current < value) (marking : Bool)
  | addCount (marking : Bool)
  | unmark
  /-- `reset` has still to clear these. -/
  | clearMax
  | clearSum
  | clearCount
  | clearMark
  deriving DecidableEq

/-- A point of time is a number of nanoseconds. -/
inductive Call where
  | addSample (value : UInt32)
  | addDurationWithTime (beginning ending : Int)
  | markBegin (beginning : Int)
  | markEnd (ending : Int)
  | reset
  deriving DecidableEq, Repr

def microseconds (time : Int) : Int := time.tdiv 1000

/-- The counters, and the samples so far in the order in which they were stored. -/
structure Recorded where
  stats : TimingStats := {}
  samples : List UInt32 := []

namespace Recorded

def addSample (r : Recorded) (value : UInt32) (marking : Bool) : Recorded × Place :=
  ({ stats := { r.stats with last := value }, samples := r.samples ++ [value] },
    .addSum value marking)

/-- The condition of the loop of `updateMaxAtomic`. -/
def updateMax (value current : UInt32) (marking : Bool) : Place :=
  if above : current < value then .exchange value current above marking else .addCount marking

/-- The first operation of a call. -/
def call (r : Recorded) : Call → Recorded × Place
  | .addSample value => r.addSample value false
  | .addDurationWithTime beginning ending =>
    r.addSample (UInt32.ofInt (microseconds (ending - beginning))) false
  | .markBegin beginning =>
    ({ r with stats.beginTimeUs := UInt64.ofInt (microseconds beginning) }, .mark)
  | .markEnd ending =>
    (r, if r.stats.marked then .measure (UInt64.ofInt (microseconds ending)) else .idle)
  | .reset => ({ r with stats.last := 0 }, .clearMax)

/-- The operation a thread does at its place, and where it stands then. -/
def resume (r : Recorded) (spurious : Bool) : Place → Recorded × Place
  | .idle => (r, .idle)
  | .mark => ({ r with stats.marked := true }, .idle)
  | .measure endUs => (r, .sample (endUs - r.stats.beginTimeUs).toUInt32)
  | .sample value => r.addSample value true
  | .addSum value marking =>
    ({ r with stats.sum := r.stats.sum + value.toUInt64 }, .loadMax value marking)
  | .loadMax value marking => (r, updateMax value r.stats.max marking)
  | .exchange value current _ marking =>
    if r.stats.max = current ∧ !spurious then
      ({ r with stats.max := value }, .addCount marking)
    else (r, updateMax value r.stats.max marking)
  | .addCount marking =>
    ({ r with stats.count := r.stats.count + 1 }, if marking then .unmark else .idle)
  | .unmark => ({ r with stats.marked := false }, .idle)
  | .clearMax => ({ r with stats.max := 0 }, .clearSum)
  | .clearSum => ({ r with stats.sum := 0 }, .clearCount)
  | .clearCount => ({ r with stats.count := 0 }, .clearMark)
  | .clearMark => ({ r with stats.marked := false }, .idle)

end Recorded

abbrev Sampling (ι : Type*) := Threads ι Recorded Place

namespace Sampling

variable {ι : Type*}

inductive Action (ι : Type*) where
  | call (i : ι) (call : Call)
  | resume (i : ι) (spurious : Bool)
  deriving DecidableEq

variable [DecidableEq ι]

/-- A thread calls again when its last call has returned. -/
def step (s : Sampling ι) : Action ι → Sampling ι
  | .call i call => if s.place i = .idle then s.move i (s.shared.call call) else s
  | .resume i spurious => s.move i (s.shared.resume spurious (s.place i))

def run (s : Sampling ι) (actions : List (Action ι)) : Sampling ι := Runs.run step s actions

def start (stats : TimingStats) : Sampling ι := ⟨{ stats }, fun _ => .idle⟩

end Sampling

end TimingStats

end Ebus
