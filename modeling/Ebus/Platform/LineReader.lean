import Ebus.Core.Reader

/-!
# The reader thread

The loop of `readerThread` beside the engine that takes its events: behind a SYN with a request
pending it starts the task of `armRequestTimer`, and every event takes the flag with it. The task
writes the address 200 µs later and raises the flag; that may be before the event of the SYN is
made, but not behind the next byte, which takes the line 4167 µs (`Timely`). The reader of
`BusSimulation` is the same, and so is that of `BusEsp` with its alarm, as long as the start bit of
the SYN is where it is expected.
-/

namespace Ebus

structure LineReader where
  line : Line
  /-- `bus_request_flag_` -/
  busRequestFlag : Bool := false
  /-- the task of `armRequestTimer` is under way -/
  armed : Bool := false
  deriving DecidableEq, Repr

namespace LineReader

inductive Action where
  /-- one round of the loop; the task may be so `fast` that its flag comes with this event -/
  | byte (byte : UInt8) (response : Sequence) (fast : Bool)
  /-- the task has written the address and raises the flag -/
  | requestTimer
  | sendActiveMessage (message : List UInt8)
  | requestExternal (address : UInt8)
  | resetRequest
  | setLockCounter (lockCounter : UInt8)
  deriving DecidableEq, Repr

/-- The flag when the event is made. -/
def flagNow (t : LineReader) (byte : UInt8) (fast : Bool) : Bool :=
  t.busRequestFlag || t.line.pendingSyn byte && fast

/-- The SYN that an external user writes behind. -/
def suppresses (t : LineReader) (byte : UInt8) : Bool :=
  t.line.pendingSyn byte && t.line.handler.request.externalBusRequest

/-- What the line takes of an action. -/
def handed (t : LineReader) : Action → List Line.Action
  | .byte byte response fast =>
      if t.suppresses byte then [.suppressedSyn]
      else [.busEvent { byte, busRequest := t.flagNow byte fast } response]
  | .requestTimer => []
  | .sendActiveMessage message => [.sendActiveMessage message]
  | .requestExternal address => [.requestExternal address]
  | .resetRequest => [.resetRequest]
  | .setLockCounter lockCounter => [.setLockCounter lockCounter]

def step (t : LineReader) (action : Action) : LineReader :=
  let line := Runs.run Line.step t.line (t.handed action)
  match action with
  | .byte byte _ fast =>
      { line
        busRequestFlag := t.suppresses byte && t.flagNow byte fast
        armed := t.armed || t.line.pendingSyn byte && !fast }
  | .requestTimer =>
      if t.armed then { line, busRequestFlag := true } else t
  | _ => { t with line }

/-- The task of the SYN before has written when a byte has come. -/
def Timely (t : LineReader) : Action → Prop
  | .byte _ _ _ => t.armed = false
  | _ => True

instance (t : LineReader) : (action : Action) → Decidable (t.Timely action)
  | .byte _ _ _ => inferInstanceAs (Decidable (_ = _))
  | .requestTimer | .sendActiveMessage _ | .requestExternal _ | .resetRequest
  | .setLockCounter _ => .isTrue trivial

def create (address : UInt8) : LineReader := { line := Line.create address }

/-- What the line takes of a run. -/
def handedRun (t : LineReader) : List Action → List Line.Action
  | [] => []
  | action :: rest => t.handed action ++ (t.step action).handedRun rest

end LineReader

end Ebus
