import Ebus.Core.BusHandler

/-!
# The byte reader in front of the engine

When a SYN arrives while a request for the bus is pending, the byte reader writes the
requested address and raises a flag. The flag is handed over with the event of this SYN
or, when the write is timed, with the event right after it; for the external user the
event of the SYN itself is suppressed. `Line` puts this bookkeeping beside the engine,
and `Produced` says which events the readers can produce.

`Line` also records the exchange that the engine has won the bus for last: the master
part it is about and, for each event from the won arbitration on, the byte received, what
the engine did and where this left it. No function of the model reads these records.
-/

namespace Ebus

/-- The flag of the byte that was read last. -/
inductive FlagDue where
  /-- it was no SYN with a request pending -/
  | none
  /-- the flag was handed over with it -/
  | delivered
  /-- the flag comes with the next event -/
  | due
  deriving DecidableEq, Repr

/-- One event of an own exchange. -/
structure Turn where
  byte : UInt8
  effects : List Effect
  state : HandlerState
  deriving DecidableEq, Repr

structure Line where
  handler : Handler
  flag : FlagDue := .none
  /-- the master part that `sendActiveMessage` has accepted last -/
  message : List UInt8 := []
  /-- the master part of the exchange below -/
  sending : List UInt8 := []
  turns : List Turn := []
  deriving DecidableEq, Repr

namespace Turn

def writes (t : Turn) : List UInt8 := t.effects.filterMap Effect.written

end Turn

namespace Line

inductive Action where
  | busEvent (event : BusEvent) (response : Sequence)
  /-- a SYN whose event is suppressed -/
  | suppressedSyn
  | sendActiveMessage (message : List UInt8)
  | requestExternal (address : UInt8)
  | resetRequest
  | setLockCounter (lockCounter : UInt8)
  deriving DecidableEq, Repr

/-- The byte makes the reader write the requested address. -/
def pendingSyn (l : Line) (byte : UInt8) : Bool :=
  byte == Symbols.syn && l.handler.request.busRequest

def busEvent (l : Line) (event : BusEvent) (response : Sequence) : Line :=
  let handler := BusHandler.onBusEvent { l.handler with log := [] } event response
  let turn : Turn := { byte := event.byte, effects := handler.log, state := handler.state }
  { l with
    handler
    flag := if l.pendingSyn event.byte then (if event.busRequest then .delivered else .due)
      else .none
    sending := if .won ∈ handler.log then l.message else l.sending
    turns := if .won ∈ handler.log then [turn]
      else if l.handler.state.exchanging then l.turns ++ [turn] else l.turns }

def sendActiveMessage (l : Line) (message : List UInt8) : Line :=
  let (handler, accepted) := l.handler.sendActiveMessage message
  { l with handler
           message := if accepted then handler.activeTelegram.master.bytes else l.message }

def step (l : Line) : Action → Line
  | .busEvent event response => l.busEvent event response
  | .suppressedSyn => { l with flag := .due }
  | .sendActiveMessage message => l.sendActiveMessage message
  | .requestExternal address =>
      { l with handler := BusHandler.step l.handler (.requestExternal address) }
  | .resetRequest => { l with handler := BusHandler.step l.handler .resetRequest }
  | .setLockCounter lockCounter =>
      { l with handler := BusHandler.step l.handler (.setLockCounter lockCounter) }

/-- The events of the byte readers: no start bit; a flag that is due comes with the next
event, and no flag comes that belongs neither to this byte nor to the one before. -/
def Produced (l : Line) : Action → Prop
  | .busEvent event _ =>
      event.startBit = false ∧ (l.flag = .due → event.busRequest = true) ∧
        (event.busRequest = true → l.flag ≠ .none ∨ l.pendingSyn event.byte = true)
  | .suppressedSyn =>
      l.handler.request.busRequest = true ∧ l.handler.request.externalBusRequest = true
  | _ => True

instance (l : Line) : (action : Action) → Decidable (l.Produced action)
  | .busEvent _ _ => inferInstanceAs (Decidable (_ ∧ _ ∧ _))
  | .suppressedSyn => inferInstanceAs (Decidable (_ ∧ _))
  | .sendActiveMessage _ => .isTrue trivial
  | .requestExternal _ => .isTrue trivial
  | .resetRequest => .isTrue trivial
  | .setLockCounter _ => .isTrue trivial

/-- The start: engine and arbitration are new. -/
def create (address : UInt8) : Line := { handler := Handler.create address {} }

/-- Bytes that arrive without flags; the reactive callback has no answer. -/
def feed (bytes : List UInt8) : List Action := bytes.map fun byte => .busEvent { byte } {}

end Line

end Ebus
