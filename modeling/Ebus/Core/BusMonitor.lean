import Ebus.Core.Request
import Mathlib.Data.List.Perm.Basic

/-!
# What the bus monitor counts

The counters of the arbitration and the table of the addresses with the most errors. The counters
are advanced by `Request` in the branches that its model has; here is what each call adds to them.
Other counters, the histories, which nobody reads back, and the utilization, which is a float, are
left out. Timing statistics are in their own module.
-/

namespace Ebus

structure RequestMetrics where
  wonTotal : UInt32 := 0
  lostTotal : UInt32 := 0
  collisions : UInt32 := 0
  arbitrationErrors : UInt32 := 0
  firstSyn : UInt32 := 0
  busRequestBlocked : UInt32 := 0
  lockCounterReset : UInt32 := 0
  deriving DecidableEq, Repr

namespace RequestMetrics

/-- The attempts that `toJson` relates its rates to. -/
def attempts (m : RequestMetrics) : UInt32 :=
  m.wonTotal + m.lostTotal + m.collisions + m.arbitrationErrors + m.firstSyn

variable (m : RequestMetrics) (r : Request)

def first (byte : UInt8) : RequestMetrics :=
  if byte = Symbols.syn then { m with firstSyn := m.firstSyn + 1 }
  else if byte = r.requestAddress then { m with wonTotal := m.wonTotal + 1 }
  else if isMaster byte then
    if byte &&& 0x0f = r.requestAddress &&& 0x0f then { m with collisions := m.collisions + 1 }
    else { m with lostTotal := m.lostTotal + 1 }
  else { m with arbitrationErrors := m.arbitrationErrors + 1 }

def retry (byte : UInt8) : RequestMetrics :=
  if byte = Symbols.syn then m else { m with arbitrationErrors := m.arbitrationErrors + 1 }

def second (byte : UInt8) : RequestMetrics :=
  if byte = r.requestAddress then { m with wonTotal := m.wonTotal + 1 }
  else if isMaster byte then { m with lostTotal := m.lostTotal + 1 }
  else { m with arbitrationErrors := m.arbitrationErrors + 1 }

def run (byte : UInt8) : RequestMetrics :=
  match r.state with
  | .observe => m
  | .first => m.first r byte
  | .retry => m.retry byte
  | .second => m.second r byte

/-- What a call adds that the machine gets in the state `r`. -/
def call : Request.Call → RequestMetrics
  | .requestBus _ _ =>
    if r.busAvailable then m else { m with busRequestBlocked := m.busRequestBlocked + 1 }
  | .run byte => m.run r byte
  | .reset => { m with lockCounterReset := m.lockCounterReset + 1 }
  | .busRequestCompleted | .startBit | .setLockCounter _ => m

end RequestMetrics

structure ErrorAddressStats where
  address : UInt8 := 0xff
  count : UInt32 := 0
  lastSeenUs : UInt64 := 0
  deriving DecidableEq, Repr

namespace SystemMetricsLimits

def topErrorAddressesCount : Nat := 3

end SystemMetricsLimits

/-- The order of the table. -/
def ErrorAddressStats.before (a b : ErrorAddressStats) : Bool :=
  if a.count ≠ b.count then b.count < a.count else b.lastSeenUs < a.lastSeenUs

/-- A sorting algorithm; entries that the order does not tell apart may change places. -/
structure Sorting where
  sort : List ErrorAddressStats → List ErrorAddressStats
  perm : ∀ top, (sort top).Perm top
  sorted : ∀ top, (sort top).Pairwise fun a b => b.before a = false

structure HandlerMetrics where
  lastErrorAddress : UInt8 := 0xff
  topErrors : List ErrorAddressStats :=
    List.replicate SystemMetricsLimits.topErrorAddressesCount {}
  deriving Repr

namespace HandlerMetrics

/-- The loop over the table: the first entry of the address, else the first of those with the
least count among the entries passed. -/
def findEntry (top : List ErrorAddressStats) (address : UInt8) : (left i minIdx : Nat) → Nat × Bool
  | 0, _, minIdx => (minIdx, false)
  | left + 1, i, minIdx =>
    if (top.getD i {}).address = address then (i, true)
    else findEntry top address left (i + 1)
      (if (top.getD i {}).count < (top.getD minIdx {}).count then i else minIdx)

def recordHandlerError (m : HandlerMetrics) (sorting : Sorting) (address : UInt8)
    (nowUs : UInt64) : HandlerMetrics :=
  let (idx, found) := findEntry m.topErrors address m.topErrors.length 0 0
  let entry : ErrorAddressStats :=
    if found then
      { m.topErrors.getD idx {} with
        count := (m.topErrors.getD idx {}).count + 1, lastSeenUs := nowUs }
    else { address, count := 1, lastSeenUs := nowUs }
  { lastErrorAddress := address, topErrors := sorting.sort (m.topErrors.set idx entry) }

end HandlerMetrics

end Ebus
