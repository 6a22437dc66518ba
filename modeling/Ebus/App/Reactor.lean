import Ebus.App.Queues
import Ebus.App.Scheduler

/-!
# Engine and scheduler together

The callbacks of the engine post events, which wait in a queue until the reactor loop
hands them to the scheduler. Bus events, calls of `enqueueAt`, ticks and deliveries
come in any order, so that an event may wait for any time. A push into the full queue
discards the oldest event, and loses its own when another push takes the room again; the
events of one call are put into the queue together, so that it may be longer for a moment.

Each posted event carries what it was about: the callback, the session that was in
progress, and the session whose message the engine was exchanging. These records, the
fields that they are taken from and the history are not in the source; no function of
the model reads them.
-/

namespace Ebus

structure Posted where
  event : ProtocolEvent
  /-- none for the errors that the scheduler posts itself -/
  effect : Option Effect
  session : Option Nat
  exchanging : Option Nat
  deriving DecidableEq, Repr

/-- What happens to a session, by the number of its `enqueueAt` call. -/
inductive Milestone where
  /-- its message is passed to `sendActiveMessage` -/
  | handed (ticket : Nat)
  /-- the engine reports an active telegram for its message -/
  | succeeded (ticket : Nat)
  deriving DecidableEq, Repr

structure Reactor where
  handler : Handler
  scheduler : Scheduler := {}
  protocolQueue : List Posted := []
  /-- the session whose message the engine has accepted last -/
  accepted : Option Nat := none
  /-- the session for whose message the engine has won the bus last -/
  exchanging : Option Nat := none
  history : List Milestone := []
  deriving DecidableEq, Repr

namespace Scheduler

/-- The session in progress. -/
def activeTicket (s : Scheduler) : Option Nat := s.activeItem.map fun active => active.item.ticket

end Scheduler

namespace Reactor

inductive Action where
  | busEvent (event : BusEvent) (response : Sequence)
  | requestExternal (address : UInt8)
  | enqueueAt (priority : UInt8) (message : List UInt8) (due : Int) (pollId : UInt16)
  | tick (now : Int)
  /-- one round of the loop in `processPublicEvents` -/
  | processPublicEvent (now : Int)
  /-- `pushProtocolEvent` has found its queue full, and this event goes -/
  | discardEvent (index : Nat)
  deriving DecidableEq, Repr

/-- The event that a callback posts. -/
def post (r : Reactor) (exchanging : Option Nat) (effect : Effect) : Option Posted :=
  (r.scheduler.onEffect effect).map fun event =>
    { event, effect := some effect, session := r.scheduler.activeTicket, exchanging }

/-- The milestone that an effect of the engine is. -/
def milestone (exchanging : Option Nat) (effect : Effect) : Option Milestone :=
  if effect.isActiveTelegram then exchanging.map .succeeded else none

def busEvent (r : Reactor) (event : BusEvent) (response : Sequence) : Reactor :=
  let handler := BusHandler.onBusEvent { r.handler with log := [] } event response
  let exchanging := if .won ∈ handler.log then r.accepted else r.exchanging
  { r with
    handler, exchanging
    protocolQueue := r.protocolQueue ++ handler.log.filterMap (r.post exchanging)
    history := r.history ++ handler.log.filterMap (milestone exchanging) }

/-- Neither `Handler.reset` nor `sendActiveMessage` makes a callback. -/
def tick (r : Reactor) (now : Int) : Reactor :=
  let ticked := r.scheduler.tick r.handler now
  let session := ticked.scheduler.activeTicket
  let started := if r.scheduler.activeItem = none then session else none
  { r with
    handler := ticked.handler, scheduler := ticked.scheduler
    protocolQueue := r.protocolQueue ++ ticked.sink.map fun event =>
      { event, effect := none, session, exchanging := r.exchanging }
    accepted := if started ≠ none ∧ ticked.handler.activeMessage then started else r.accepted
    history := r.history ++ started.toList.map .handed }

def processPublicEvent (r : Reactor) (now : Int) : Reactor :=
  match r.protocolQueue with
  | [] => r
  | posted :: rest =>
      { r with scheduler := (r.scheduler.injectProtocolEvent posted.event now).1
               protocolQueue := rest }

def discardEvent (r : Reactor) (index : Nat) : Reactor :=
  if ReactorLimits.protocolQueueSize ≤ r.protocolQueue.length then
    { r with protocolQueue := r.protocolQueue.eraseIdx index }
  else r

def step (r : Reactor) : Action → Reactor
  | .busEvent event response => r.busEvent event response
  | .requestExternal address =>
      { r with handler := { r.handler with
          request := (r.handler.request.requestBus address true).1 } }
  | .enqueueAt priority message due pollId =>
      { r with scheduler := (r.scheduler.enqueueAt priority message due pollId).1 }
  | .tick now => r.tick now
  | .processPublicEvent now => r.processPublicEvent now
  | .discardEvent index => r.discardEvent index

/-- The start: the engine is new, the scheduler has its configuration. -/
def create (address : UInt8) (request : Request) (scheduler : Scheduler) : Reactor :=
  { handler := Handler.create address request, scheduler }

/-- Bytes that arrive without flags; the reactive callback has no answer. -/
def feed (bytes : List UInt8) : List Action := bytes.map fun byte => .busEvent { byte } {}

/-- A broadcast is enqueued and handed to the engine. -/
def startBroadcast : List Action := [.enqueueAt 1 [0xfe, 0x07, 0x04, 0x00] 0 0, .tick 0]

/-- The traffic in which a waiting message gets the bus. -/
def obtainBus (address : UInt8) : List Action :=
  feed [0xaa, 0xaa, 0xaa] ++ [.busEvent { byte := 0xaa, busRequest := true } {}] ++ feed [address]

end Reactor

end Ebus
