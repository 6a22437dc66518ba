import Ebus.App.Queues

/-!
# The thread of the reactor

`start` creates a thread that runs the loop of the reactor, `stop` sends it a shutdown signal,
shuts the signal queue down, clears `running_` and waits for the thread. Every operation on a
queue or on `running_` is a step of its own, and the producers of `Queues` may come between any
two of them: their calls appear here as the queue operations they consist of, in any order.

A wait for a signal may end at any moment without one, for the timeout. What the loop does
besides, the scheduler, the polls and the public events, does not touch this state. Only one
thread starts and stops the reactor, and it starts it when there is no thread. Peak counters and
the counters of dropped entries are left out; `Queues` has the latter.
-/

namespace Ebus

namespace ReactorLimits

def reactorYieldBurstLimit : Nat := 10

end ReactorLimits

namespace ReactorThread

/-- Where the thread is in `run`. -/
inductive Place where
  /-- before `running_` is set -/
  | begin
  /-- at the test of the loop -/
  | check
  /-- in the wait for a signal -/
  | wait
  /-- with a signal, taken by the inner loop or before it -/
  | process (signal : ReactorSignal) (inner : Bool)
  /-- at the test of the inner loop after a signal -/
  | test
  /-- at the attempt of the inner loop to take a signal -/
  | drain
  | finished
  deriving DecidableEq, Repr

/-- Where a call of `stop` is. -/
inductive Stopping where
  | push
  | discard
  | pushAgain
  | shutdown
  | store
  | join
  deriving DecidableEq, Repr

end ReactorThread

open ReactorThread

structure ReactorThread where
  signals : BoundedQueue ReactorSignal ReactorLimits.signalQueueSize := .empty
  isShutdown : Bool := false
  /-- bus events; those delivered have gone to the trace callback -/
  bus : BoundedQueue Nat ReactorLimits.busQueueSize := .empty
  running : Bool := false
  burstCount : Nat := 0
  worker : Option Place := none
  stopping : Option Stopping := none
  deriving DecidableEq, Repr

namespace ReactorThread

inductive Action where
  | start
  | stop
  /-- the call of `stop` goes on -/
  | goOn
  /-- the thread goes on; whether a wait is over -/
  | work (timedOut : Bool)
  | pushSignal (signal : ReactorSignal)
  | discardSignal
  | pushBus (event : Nat)
  | discardBus
  deriving DecidableEq, Repr

def Action.isWork : Action → Bool
  | .work _ => true
  | _ => false

/-- The calls of the thread that owns the reactor. -/
def Action.isOwn : Action → Bool
  | .start | .stop | .goOn => true
  | _ => false

variable (s : ReactorThread)

/-- `tryPush` of the signal queue. -/
def tryPushSignal (signal : ReactorSignal) : Option ReactorThread :=
  if s.isShutdown then none
  else (s.signals.tryPush signal).map fun signals => { s with signals }

def discardSignal : ReactorThread :=
  if s.isShutdown then s else { s with signals := s.signals.discard.getD s.signals }

/-- `processBusByte`: one event goes to the callback. -/
def processBusByte : ReactorThread :=
  match s.bus.tryPop with
  | some (_, bus) => { s with bus }
  | none => s

/-- The other signals only wake the thread. -/
def processSignal : ReactorSignal → ReactorThread
  | .shutdown => { s with running := false }
  | .busByte => s.processBusByte
  | _ => s

/-- `pop`: entries are still handed out after a shutdown. -/
def pop (timedOut : Bool) : ReactorThread :=
  match s.signals.tryPop with
  | some (signal, signals) => { s with signals, worker := some (.process signal false) }
  | none =>
      if s.isShutdown || timedOut then { s with burstCount := 0, worker := some .check } else s

/-- `tryPop` of the inner loop: no entry is handed out after a shutdown. -/
def drain : ReactorThread :=
  if s.isShutdown then { s with worker := some .check }
  else
    match s.signals.tryPop with
    | some (signal, signals) => { s with signals, worker := some (.process signal true) }
    | none => { s with worker := some .check }

/-- A large burst is interrupted. -/
def yieldBurst : ReactorThread :=
  if ReactorLimits.reactorYieldBurstLimit < s.burstCount + 1 then
    { s with burstCount := 0, worker := some .check }
  else { s with burstCount := s.burstCount + 1, worker := some .drain }

/-- The next operation of `run`. -/
def run (timedOut : Bool) : Place → ReactorThread
  | .begin => { s with running := true, burstCount := 0, worker := some .check }
  | .check => { s with worker := some (if s.running then .wait else .finished) }
  | .wait => s.pop timedOut
  | .process signal inner =>
      { s.processSignal signal with worker := some (if inner then .test else .drain) }
  | .test => if s.running then s.yieldBurst else { s with worker := some .finished }
  | .drain => s.drain
  | .finished => s

/-- The next operation of `stop`. -/
def stop : Stopping → ReactorThread
  | .push =>
      match s.tryPushSignal .shutdown with
      | some pushed => { pushed with stopping := some .shutdown }
      | none => { s with stopping := some .discard }
  | .discard => { s.discardSignal with stopping := some .pushAgain }
  | .pushAgain => { (s.tryPushSignal .shutdown).getD s with stopping := some .shutdown }
  | .shutdown => { s with isShutdown := true, stopping := some .store }
  | .store => { s with running := false, stopping := some .join }
  | .join =>
      if s.worker = none ∨ s.worker = some .finished then
        { s with worker := none, stopping := none }
      else s

def step (s : ReactorThread) : Action → ReactorThread
  | .start =>
      if s.stopping = none ∧ s.worker = none then { s with worker := some .begin } else s
  | .stop => if s.stopping = none then { s with stopping := some .push } else s
  | .goOn => (s.stopping.map s.stop).getD s
  | .work timedOut => (s.worker.map (s.run timedOut)).getD s
  | .pushSignal signal => (s.tryPushSignal signal).getD s
  | .discardSignal => s.discardSignal
  | .pushBus event => { s with bus := (s.bus.tryPush event).getD s.bus }
  | .discardBus => { s with bus := s.bus.discard.getD s.bus }

end ReactorThread

end Ebus
