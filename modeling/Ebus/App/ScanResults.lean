import Ebus.App.Reactor

/-!
# What the device scanner is told

`processPublicEvents` reports every telegram and every error that names a session to the
device scanner, broadcasts apart. The address of the report is the second byte of the
master part in the event, whoever has built the event.

`Scans` keeps beside the reactor the messages that were enqueued and the calls of
`onScanResult`; no function of the model reads these records. A device scanner is taken
to be attached. The answer to an inquiry of existence is one more call of `enqueueAt`.
-/

namespace Ebus

/-- A call of `onScanResult`. The byte is read without a look at the length of the view; there
is no address when the view is too short. -/
structure ScanResult where
  posted : Posted
  address : Option UInt8
  success : Bool
  deriving DecidableEq, Repr

structure Scans where
  reactor : Reactor
  /-- the session id and the message of each `enqueueAt` call -/
  enqueued : List (UInt32 × List UInt8) := []
  results : List ScanResult := []
  deriving DecidableEq, Repr

namespace Scans

inductive Action where
  | reactor (action : Reactor.Action)
  /-- `pushProtocolEvent` has found its queue full -/
  | discardEvent
  deriving DecidableEq, Repr

def isBroadcast (event : ProtocolEvent) : Bool :=
  event.type = .telegram && event.telegramType = .broadcast

/-- What the loop in `processPublicEvents` tells the scanner about an event. -/
def scanResult (posted : Posted) : Option ScanResult :=
  let event := posted.event
  match event.type with
  | .telegram =>
      if 0 < event.sessionId ∧ isBroadcast event = false then
        some { posted, address := event.master[1]?, success := true }
      else none
  | .error =>
      if 0 < event.sessionId ∧ isBroadcast event = false then
        some { posted, address := event.master[1]?, success := false }
      else none
  | .won | .lost => none

/-- The message that an action enqueues, with the session id that it gets. -/
def enqueuedBy (r : Reactor) : Reactor.Action → List (UInt32 × List UInt8)
  | .enqueueAt _ message _ _ => [(r.scheduler.nextSessionId, message)]
  | _ => []

/-- The call that an action makes. -/
def resultsOf (r : Reactor) : Reactor.Action → List ScanResult
  | .processPublicEvent _ => (r.protocolQueue.head?.bind scanResult).toList
  | _ => []

def step (d : Scans) : Action → Scans
  | .reactor action =>
      { reactor := Reactor.step d.reactor action
        enqueued := d.enqueued ++ enqueuedBy d.reactor action
        results := d.results ++ resultsOf d.reactor action }
  | .discardEvent =>
      { d with reactor := { d.reactor with protocolQueue := d.reactor.protocolQueue.tail } }

/-- The start: everything is new, the scheduler has its configuration. -/
def create (address : UInt8) (request : Request) (maxAttempts : UInt8)
    (baseBackoff totalTimeout : Int) : Scans :=
  { reactor := Reactor.create address request { maxAttempts, baseBackoff, totalTimeout } }

end Scans

end Ebus
