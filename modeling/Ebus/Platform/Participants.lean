import Ebus.Core.Request
import Mathlib.Logic.Function.Basic

/-!
# Several arbitration machines on one line

The readers of all participants take the same bytes from the line, each for its own machine. A
reader that takes a SYN while a request is pending has the requested address written. All who
do so write at the same time, and the line is active-low: of each bit it shows the lowest level.

A participant is the arbitration half of a device (`Participant.read_eq_engine`); what its engine
or its client does with the result is left out, except that either may ask for the bus.
-/

namespace Ebus

structure Participant where
  request : Request := {}
  /-- `bus_request_flag_` -/
  busRequestFlag : Bool := false
  /-- the task of `armRequestTimer` is under way, and its flag has been handed over already -/
  armed : Bool := false
  reported : Bool := false
  deriving DecidableEq, Repr

namespace Participant

/-- One round of the reader. The SYN behind which an external user writes is suppressed; otherwise
the task may be so `fast` that its flag comes with the event of the SYN. -/
def read (p : Participant) (byte : UInt8) (fast : Bool) : Participant :=
  let pending := byte == Symbols.syn && p.request.busRequest
  if pending && p.request.externalBusRequest then { p with armed := true }
  else
    let flag := p.busRequestFlag || pending && fast
    { request := (if flag then p.request.busRequestCompleted else p.request).run byte
      armed := p.armed || pending
      reported := p.reported || pending && fast }

/-- The task writes the address and raises the flag. -/
def written (p : Participant) : Participant :=
  if p.armed then
    { p with busRequestFlag := p.busRequestFlag || !p.reported, armed := false, reported := false }
  else p

/-- The machine has told that the bus is won. -/
def Won (p : Participant) : Prop :=
  p.request.result = .firstWon ∨ p.request.result = .secondWon

instance (p : Participant) : Decidable p.Won := inferInstanceAs (Decidable (_ ∨ _))

end Participant

/-- What an active-low line shows when the bytes are written at once. -/
def lineLevel (bytes : List UInt8) : UInt8 := bytes.foldr (· &&& ·) 0xff

structure Participants (ι : Type*) where
  members : List ι
  participant : ι → Participant

namespace Participants

variable {ι : Type*}

/-- Those whose tasks are about to write. -/
def writers (s : Participants ι) : List ι := s.members.filter fun i => (s.participant i).armed

/-- The addresses are written, and what the line shows is read by everybody. -/
def contend (s : Participants ι) : Participants ι :=
  if s.writers = [] then s
  else
    let level := lineLevel (s.writers.map fun i => (s.participant i).request.requestAddress)
    { s with participant := fun i => (s.participant i).written.read level false }

/-- A byte from the line and, behind a SYN, the addresses of those who want the bus. -/
def byte (s : Participants ι) (byte : UInt8) (fast : ι → Bool) : Participants ι :=
  { s with participant := fun i => (s.participant i).read byte (fast i) }.contend

def update [DecidableEq ι] (s : Participants ι) (i : ι) (f : Request → Request) : Participants ι :=
  { s with participant := Function.update s.participant i
             { s.participant i with request := f (s.participant i).request } }

inductive Action (ι : Type*) where
  | byte (byte : UInt8) (fast : ι → Bool)
  | requestBus (i : ι) (address : UInt8) (isExternal : Bool)
  | startBit (i : ι)
  | reset (i : ι)
  | setLockCounter (i : ι) (lockCounter : UInt8)

def step [DecidableEq ι] (s : Participants ι) : Action ι → Participants ι
  | .byte byte fast => s.byte byte fast
  | .requestBus i address isExternal => s.update i fun r => (r.requestBus address isExternal).1
  | .startBit i => s.update i Request.startBit
  | .reset i => s.update i Request.reset
  | .setLockCounter i lockCounter => s.update i (·.setLockCounter lockCounter)

end Participants

end Ebus
