import Ebus.Core.Handler.Branches
import Ebus.Lib.Run

/-!
# Events

`BusHandler` feeds what the byte reader delivers to the arbitration machine and
then to the protocol engine. `Action` lists everything that can happen to the
pair from outside; a run is a list of actions.
-/

namespace Ebus

/-- One delivery of the byte reader: the byte, and whether the own address was
written or a spurious start bit was seen since the last one. -/
structure BusEvent where
  byte : UInt8
  busRequest : Bool := false
  startBit : Bool := false
  deriving DecidableEq, Repr

namespace Handler

variable (h : Handler) (event : BusEvent)

/-- `Request::busRequestCompleted` with the callback to the user that asked. The
external user is not part of the engine. -/
def busRequestCompleted : Handler :=
  let isExternal := h.request.externalBusRequest
  let h := { h with request := h.request.busRequestCompleted }
  if isExternal then h else h.onBusRequested

/-- `Request::startBit` with its callback. -/
def startBit : Handler := { h with request := h.request.startBit }.onStartBit

def afterBusRequest : Handler := if event.busRequest then h.busRequestCompleted else h

def afterFlags : Handler :=
  if event.startBit then (h.afterBusRequest event).startBit else h.afterBusRequest event

/-- The arbitration machine consumes the byte before the engine does. -/
def afterRequest (byte : UInt8) : Handler := { h with request := h.request.run byte }

end Handler

namespace BusHandler

/-- `response` is what the reactive callback would leave in the slave buffer. -/
def onBusEvent (h : Handler) (event : BusEvent) (response : Sequence) : Handler :=
  let h := (h.afterFlags event).afterRequest event.byte
  h.run h.request.result event.byte response

inductive Action where
  | busEvent (event : BusEvent) (response : Sequence)
  | sendActiveMessage (message : List UInt8)
  | resetHandler
  /-- the other user of the bus asks for it -/
  | requestExternal (address : UInt8)
  | resetRequest
  | setLockCounter (lockCounter : UInt8)
  deriving DecidableEq, Repr

def step (h : Handler) : Action → Handler
  | .busEvent event response => onBusEvent h event response
  | .sendActiveMessage message => (h.sendActiveMessage message).1
  | .resetHandler => h.reset
  | .requestExternal address => { h with request := (h.request.requestBus address true).1 }
  | .resetRequest => { h with request := h.request.reset }
  | .setLockCounter lockCounter => { h with request := h.request.setLockCounter lockCounter }

/-- Bytes that arrive without flags; the reactive callback has no answer. -/
def feed (bytes : List UInt8) : List Action := bytes.map fun byte => .busEvent { byte } {}

/-- The traffic in which a waiting message gets the bus: the lock counter of the default
configuration runs out, the address is written behind the next SYN and read back. -/
def obtainBus (address : UInt8) : List Action :=
  feed [0xaa, 0xaa, 0xaa] ++ [.busEvent { byte := 0xaa, busRequest := true } {}] ++ feed [address]

end BusHandler

namespace Handler

variable (h : Handler) (event : BusEvent)

/-- The state in which the byte of an event is consumed: a finished write of the own
address leads to `requestBus` from anywhere. -/
def requestedState : HandlerState :=
  if event.busRequest = true ∧ h.request.externalBusRequest = false ∧ h.activeMessage = true
  then .requestBus else h.state

/-- The engine just before its state function is called. -/
def ready : Handler :=
  let h := (h.afterFlags event).afterRequest event.byte
  { h with lastResult := h.request.result, pendingWrite := none }

theorem afterBusRequest_eq : h.afterBusRequest event =
    { h with request := if event.busRequest then h.request.busRequestCompleted else h.request,
             state := h.requestedState event } := by
  unfold afterBusRequest requestedState busRequestCompleted onBusRequested
  by_cases hreq : event.busRequest = true
  · by_cases hext : h.request.externalBusRequest = true
    · simp [hreq, hext]
    · by_cases hmsg : h.activeMessage = true
      · by_cases hstate : h.state = .requestBus
        · simp [hreq, hext, hmsg, ← hstate]
        · simp only [hreq, hext, hmsg, if_true, hstate, ne_eq, not_false_eq_true, and_self]
          rw [transitionTo_of_permitted (mem_transitionMasks_requestBus _)]
          simp [goto]
      · simp [hreq, hext, hmsg]
  · simp [hreq]

/-- Without a start bit only the state and the arbitration have moved. -/
theorem ready_of_quiet (hquiet : event.startBit = false) :
    ∃ request, h.ready event =
      { h with request, lastResult := request.result, pendingWrite := none
               state := h.requestedState event } := by
  refine ⟨(if event.busRequest then h.request.busRequestCompleted else h.request).run
    event.byte, ?_⟩
  simp [ready, afterFlags, hquiet, afterBusRequest_eq, afterRequest]

/-- After a start bit both sides are empty and the arbitration observes the bus. -/
theorem ready_of_startBit (hstart : event.startBit = true) :
    ∃ request : Request,
      (request.result = .observeSyn ∨ request.result = .observeData) ∧
      h.ready event =
        { h.callActiveReset.callPassiveReset with
          request, lastResult := request.result, pendingWrite := none
          state := h.requestedState event } := by
  refine ⟨(Request.startBit (if event.busRequest then h.request.busRequestCompleted
    else h.request)).run event.byte, ?_, ?_⟩
  · exact Request.run_startBit_result _ _
  · simp [ready, afterFlags, hstart, afterBusRequest_eq, afterRequest, startBit, onStartBit,
      callActiveReset, callPassiveReset]

end Handler

namespace BusHandler

/-- An event takes one branch from the engine that its flags have prepared, and
hands over the byte that this branch has left to write. -/
theorem onBusEvent_branch (h : Handler) (event : BusEvent) (response : Sequence) :
    ∃ d, Handler.Branch (h.ready event) event.byte response d ∧
      onBusEvent h event response = d.flush :=
  ⟨_, Handler.dispatch_branch _ _ _, rfl⟩

end BusHandler

end Ebus
