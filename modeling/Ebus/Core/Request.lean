import Ebus.Protocol.Symbols

/-!
# The arbitration state machine

`Request` decides when the own master address may be written behind a SYN and
what the bus answered. It is a passive machine: `run` consumes one received byte,
`requestBus` and `busRequestCompleted` are called by the two users of the bus and
by the byte reader. The telemetry counters of the source are left out.
-/

namespace Ebus

structure Request where
  lockCounterMax : UInt8 := 3
  lockCounter : UInt8 := 3
  bytesSinceSyn : UInt32 := 0
  requestAddress : UInt8 := 0
  busRequest : Bool := false
  externalBusRequest : Bool := false
  state : RequestState := .observe
  result : RequestResult := .observeSyn
  deriving DecidableEq, Repr

namespace Request

/-- The states each state may be left for; the rows of `transition_masks`. -/
def transitionMasks : RequestState → List RequestState
  | .observe => [.observe, .first]
  | .first => [.observe, .first, .retry]
  | .retry => [.observe, .second]
  | .second => [.observe]

def transitionTo (r : Request) (next : RequestState) : Request :=
  if next = r.state then r
  else if next ∈ transitionMasks r.state then { r with state := next }
  else { r with state := .observe }

def reset (r : Request) : Request :=
  { r with lockCounter := r.lockCounterMax, bytesSinceSyn := 0, busRequest := false }
    |>.transitionTo .observe

def setLockCounter (r : Request) (lockCounter : UInt8) : Request :=
  let lockCounterMax := min lockCounter 25
  { r with lockCounterMax,
           lockCounter := if lockCounterMax < r.lockCounter then lockCounterMax
             else r.lockCounter }

def busAvailable (r : Request) : Bool :=
  r.result = .observeSyn && r.lockCounter == 0 && !r.busRequest

/-- A request for the bus: the answer is whether any request is pending now. -/
def requestBus (r : Request) (address : UInt8) (isExternal : Bool) : Request × Bool :=
  let r := if r.busAvailable then
    { r with requestAddress := address, externalBusRequest := isExternal, busRequest := true }
    else r
  (r, r.busRequest)

/-- The byte reader has written the address. The caller then notifies the user
named by `externalBusRequest`. -/
def busRequestCompleted (r : Request) : Request :=
  let r := { r with busRequest := false }
  if r.state = .observe then r.transitionTo .first else r

/-- A spurious start bit: abort whatever is pending and observe the bus. -/
def startBit (r : Request) : Request :=
  let r := { r with busRequest := false }.transitionTo .observe
  { r with result := .observeSyn }

def observe (r : Request) (byte : UInt8) : Request :=
  if byte = Symbols.syn then
    let lockCounter :=
      if r.bytesSinceSyn ≠ 1 ∧ 0 < r.lockCounter then r.lockCounter - 1 else r.lockCounter
    { r with lockCounter, result := .observeSyn, bytesSinceSyn := 0 }
  else { r with result := .observeData, bytesSinceSyn := r.bytesSinceSyn + 1 }

def first (r : Request) (byte : UInt8) : Request :=
  if byte = Symbols.syn then
    { r.transitionTo .first with result := .firstSyn, bytesSinceSyn := 0 }
  else if byte = r.requestAddress then
    { { r with lockCounter := r.lockCounterMax }.transitionTo .observe with
      result := .firstWon, bytesSinceSyn := 0 }
  else if isMaster byte then
    if byte &&& 0x0f = r.requestAddress &&& 0x0f then
      { r.transitionTo .retry with
        busRequest := true, result := .firstRetry, bytesSinceSyn := 1 }
    else { r.transitionTo .observe with result := .firstLost, bytesSinceSyn := 1 }
  else { r.transitionTo .observe with result := .firstError, bytesSinceSyn := 1 }

def retry (r : Request) (byte : UInt8) : Request :=
  if byte = Symbols.syn then
    { r.transitionTo .second with result := .retrySyn, bytesSinceSyn := 0 }
  else { r.transitionTo .observe with result := .retryError, bytesSinceSyn := 1 }

def second (r : Request) (byte : UInt8) : Request :=
  if byte = r.requestAddress then
    { { r with lockCounter := r.lockCounterMax }.transitionTo .observe with
      result := .secondWon, bytesSinceSyn := 0 }
  else if isMaster byte then
    { r.transitionTo .observe with result := .secondLost, bytesSinceSyn := 1 }
  else { r.transitionTo .observe with result := .secondError, bytesSinceSyn := 1 }

/-- Consume one byte; the answer is the `result` field afterwards. -/
def run (r : Request) (byte : UInt8) : Request :=
  match r.state with
  | .observe => r.observe byte
  | .first => r.first byte
  | .retry => r.retry byte
  | .second => r.second byte

@[simp] theorem transitionTo_observe_state (r : Request) :
    (r.transitionTo .observe).state = .observe := by
  unfold transitionTo
  cases hstate : r.state <;> simp [hstate, transitionMasks]

/-- A start bit leaves the machine observing, whatever it was doing. -/
theorem run_startBit_result (r : Request) (byte : UInt8) :
    (r.startBit.run byte).result = .observeSyn ∨ (r.startBit.run byte).result = .observeData := by
  have hstate : r.startBit.state = .observe := by simp [startBit]
  rw [run, hstate]
  simp only [observe]
  split
  · exact .inl rfl
  · exact .inr rfl

/-- What can be called from outside, each call one step. -/
inductive Call where
  | requestBus (address : UInt8) (isExternal : Bool)
  | busRequestCompleted
  | run (byte : UInt8)
  | startBit
  | reset
  | setLockCounter (lockCounter : UInt8)
  deriving DecidableEq, Repr

def call (r : Request) : Call → Request
  | .requestBus address isExternal => (r.requestBus address isExternal).1
  | .busRequestCompleted => r.busRequestCompleted
  | .run byte => r.run byte
  | .startBit => r.startBit
  | .reset => r.reset
  | .setLockCounter lockCounter => r.setLockCounter lockCounter

end Request

end Ebus
