import Ebus.Lib.BoundedQueue
import Ebus.Lib.Run

/-!
# The queues of the reactor

Producers hand bus events and protocol events to the reactor thread through two bounded
queues and wake it through a third one. One `bus_byte` signal stands for one bus event.
A push into a full queue discards the oldest entry and tries again.

Each queue operation is atomic, the calls are not: a call in progress is its place in the
code, and between two of its operations any other thread may go on. Any number of calls
may be in progress. Events are the numbers of the calls that brought them, and each queue
carries its history (`BoundedQueue`); no function of the model reads it.

What the reactor does with an event after taking it, the shutdown of the queues and the
peak counters are left out. Counters for telemetry do not overflow.
-/

namespace Ebus

namespace ReactorLimits

def signalQueueSize : Nat := 16
def protocolQueueSize : Nat := 8
def busQueueSize : Nat := 16

end ReactorLimits

inductive ReactorSignal where
  | shutdown
  | busByte
  | protocolReady
  | timerWakeup
  | userRequest
  | callbackReady
  deriving DecidableEq, Repr

namespace Queues

/-- The operations of a push, in the order of the code. -/
inductive Point where
  | push
  | discard
  | pushAgain
  | count
  | signal
  deriving DecidableEq, Repr

/-- A call in progress: its next operation and what it was called with. -/
inductive Call where
  | onBusEventInfo (next : Point) (event : Nat)
  | pushProtocolEvent (next : Point) (event : Nat)
  | pushSignal (next : Point) (signal : ReactorSignal)
  deriving DecidableEq, Repr

end Queues

open Queues

structure Queues where
  signals : BoundedQueue ReactorSignal ReactorLimits.signalQueueSize := .empty
  protocol : BoundedQueue Nat ReactorLimits.protocolQueueSize := .empty
  bus : BoundedQueue Nat ReactorLimits.busQueueSize := .empty
  signalQueueDropped : Nat := 0
  protocolQueueDropped : Nat := 0
  busQueueDropped : Nat := 0
  calls : List Call := []
  /-- the signal that the reactor thread has taken and not yet processed -/
  current : Option ReactorSignal := none
  /-- the calls of `onBusEventInfo` and of `pushProtocolEvent` so far -/
  busPushed : Nat := 0
  protocolPushed : Nat := 0
  deriving DecidableEq, Repr

namespace Queues

inductive Action where
  | onBusEventInfo
  | pushProtocolEvent
  | pushSignal (signal : ReactorSignal)
  /-- a call in progress makes its next operation -/
  | goOn (call : Call)
  /-- the reactor takes a signal -/
  | popSignal
  | processSignal
  /-- one round of the loop in `processPublicEvents` -/
  | processPublicEvent
  deriving DecidableEq, Repr

/-- The next operation of `onBusEventInfo`. The answer of the second push is not used. -/
def onBusEventInfo (q : Queues) (event : Nat) : Point → Queues × Option Call
  | .push =>
      match q.bus.tryPush event with
      | some bus => ({ q with bus }, some (.onBusEventInfo .signal event))
      | none => (q, some (.onBusEventInfo .discard event))
  | .discard =>
      match q.bus.discard with
      | some bus => ({ q with bus }, some (.onBusEventInfo .pushAgain event))
      | none => (q, some (.onBusEventInfo .count event))
  | .pushAgain =>
      ({ q with bus := (q.bus.tryPush event).getD q.bus }, some (.onBusEventInfo .count event))
  | .count =>
      ({ q with busQueueDropped := q.busQueueDropped + 1 }, some (.onBusEventInfo .signal event))
  | .signal => ({ q with signals := (q.signals.tryPush .busByte).getD q.signals }, none)

/-- The next operation of `pushProtocolEvent`. -/
def pushProtocolEvent (q : Queues) (event : Nat) : Point → Queues × Option Call
  | .push =>
      match q.protocol.tryPush event with
      | some protocol => ({ q with protocol }, some (.pushProtocolEvent .signal event))
      | none => (q, some (.pushProtocolEvent .discard event))
  | .discard =>
      match q.protocol.discard with
      | some protocol => ({ q with protocol }, some (.pushProtocolEvent .pushAgain event))
      | none => (q, some (.pushProtocolEvent .count event))
  | .pushAgain =>
      match q.protocol.tryPush event with
      | some protocol => ({ q with protocol }, some (.pushProtocolEvent .signal event))
      | none => (q, some (.pushProtocolEvent .count event))
  | .count => ({ q with protocolQueueDropped := q.protocolQueueDropped + 1 }, none)
  | .signal => ({ q with signals := (q.signals.tryPush .callbackReady).getD q.signals }, none)

/-- The next operation of `pushSignal`. -/
def pushSignal (q : Queues) (signal : ReactorSignal) : Point → Queues × Option Call
  | .push =>
      match q.signals.tryPush signal with
      | some signals => ({ q with signals }, none)
      | none => (q, some (.pushSignal .discard signal))
  | .discard =>
      match q.signals.discard with
      | some signals => ({ q with signals }, some (.pushSignal .pushAgain signal))
      | none => (q, some (.pushSignal .count signal))
  | .pushAgain =>
      match q.signals.tryPush signal with
      | some signals => ({ q with signals }, none)
      | none => (q, some (.pushSignal .count signal))
  | .count | .signal => ({ q with signalQueueDropped := q.signalQueueDropped + 1 }, none)

def next (q : Queues) : Call → Queues × Option Call
  | .onBusEventInfo point event => q.onBusEventInfo event point
  | .pushProtocolEvent point event => q.pushProtocolEvent event point
  | .pushSignal point signal => q.pushSignal signal point

def goOn (q : Queues) (call : Call) : Queues :=
  let result := next { q with calls := q.calls.erase call } call
  { result.1 with calls := result.2.toList ++ result.1.calls }

/-- `processBusByte` for the signal of a bus event; the other ones only wake the thread. -/
def processSignal (q : Queues) : Queues :=
  match q.current with
  | some .busByte =>
      match q.bus.tryPop with
      | some (_, bus) => { q with bus, current := none }
      | none => { q with current := none }
  | _ => { q with current := none }

/-- The reactor thread processes a signal before it takes the next one or an event. -/
def step (q : Queues) : Action → Queues
  | .onBusEventInfo =>
      { q with calls := .onBusEventInfo .push q.busPushed :: q.calls, busPushed := q.busPushed + 1 }
  | .pushProtocolEvent =>
      { q with calls := .pushProtocolEvent .push q.protocolPushed :: q.calls
               protocolPushed := q.protocolPushed + 1 }
  | .pushSignal signal => { q with calls := .pushSignal .push signal :: q.calls }
  | .goOn call => if call ∈ q.calls then q.goOn call else q
  | .popSignal =>
      match q.current, q.signals.tryPop with
      | none, some (signal, signals) => { q with signals, current := some signal }
      | _, _ => q
  | .processSignal => q.processSignal
  | .processPublicEvent =>
      match q.current, q.protocol.tryPop with
      | none, some (_, protocol) => { q with protocol }
      | _, _ => q

end Queues

end Ebus
