import Mathlib.Algebra.Group.Nat.Defs
import Ebus.App.Client

/-!
# The ring of outgoing bytes

What a client is to send lies in a ring of `maxBufferSize` cells. When there is no room the oldest
bytes are dropped; `flushOutgoingData` writes to the socket in one or two parts. `size_t` has 64
bits and wraps. An allocation of half of the address space or more fails, so there is no such
client. What the socket makes of a call of `write` is an input.
-/

namespace Ebus

namespace Enhanced

/-- `11cc ccdd 10dd dddd`. -/
def encode (command value : UInt8) : UInt8 × UInt8 :=
  ((0xc0 : UInt8) ||| (command <<< 2) ||| (value >>> 6), (0x80 : UInt8) ||| (value &&& 0x3f))

def maxSequenceLen : Nat := 2

end Enhanced

namespace SizeT

def size : Nat := 2 ^ 64

def add (a b : Nat) : Nat := (a + b) % size
def sub (a b : Nat) : Nat := (a + size - b) % size

end SizeT

/-- What a call of `write` does; it writes what it was given at most. -/
inductive Written where
  | bytes (n : Nat)
  /-- nothing for now: the buffer of the socket is full, or a signal came -/
  | wouldBlock
  | failed
  deriving DecidableEq, Repr

structure Outbound where
  type : ClientType
  /-- the socket is valid -/
  connected : Bool := true
  maxBufferSize : Nat
  outboundBuffer : Nat → UInt8
  head : Nat := 0
  count : Nat := 0
  /-- the bytes that the socket has taken; not in the source -/
  sent : List UInt8 := []
  /-- a subtraction has wrapped; not in the source -/
  wrapped : Bool := false

namespace Outbound

variable (d : Outbound)

/-- The new array is not initialized. -/
def create (type : ClientType) (maxBuffer : Nat) (cells : Nat → UInt8) : Option Outbound :=
  if maxBuffer < 2 ^ 63 then some { type, maxBufferSize := maxBuffer, outboundBuffer := cells }
  else none

def stop : Outbound := { d with connected := false }

def store (byte : UInt8) : Outbound :=
  { d with
    outboundBuffer := Function.update d.outboundBuffer
      (SizeT.add d.head d.count % d.maxBufferSize) byte
    count := SizeT.add d.count 1 }

def dropOldest (n : Nat) : Outbound :=
  { d with
    head := SizeT.add d.head n % d.maxBufferSize, count := SizeT.sub d.count n
    wrapped := d.wrapped || d.count < n }

/-- `enqueueOutgoingData` of the read-only and the regular client. -/
def enqueueBytes (data : List UInt8) : Outbound :=
  let d :=
    if d.maxBufferSize < SizeT.add d.count data.length then
      d.dropOldest (SizeT.sub (SizeT.add d.count data.length) d.maxBufferSize)
    else d
  data.foldl store d

def pushByte (byte : UInt8) : Outbound :=
  let d := if d.maxBufferSize ≤ d.count then d.dropOldest 1 else d
  d.store byte

/-- The loop that makes room for a sequence. -/
def makeRoom : Nat → Outbound → Outbound
  | 0, d => d
  | fuel + 1, d =>
      if d.maxBufferSize < SizeT.add d.count Enhanced.maxSequenceLen then
        makeRoom fuel (d.dropOldest 1)
      else d

/-- `enqueueOutgoingData` of the enhanced client. -/
def enqueueSequence (command value : UInt8) : Outbound :=
  let d := makeRoom (d.count + 2) d
  if command = Enhanced.Response.received.code ∧ value < Enhanced.dataThreshold then
    d.pushByte value
  else
    let (first, second) := Enhanced.encode command value
    (d.pushByte first).pushByte second

def enqueueOutgoingData (data : List UInt8) : Outbound :=
  if !d.connected || data.isEmpty then d
  else
    match d.type with
    | .readOnly | .regular => d.enqueueBytes data
    | .enhanced =>
        match data with
        | [] => d
        -- a single byte from the broadcast loop: always a received notification
        | [byte] => d.enqueueSequence Enhanced.Response.received.code byte
        | command :: value :: _ => d.enqueueSequence command value

/-- The part that is written next. -/
def partLen : Nat := min d.count (SizeT.sub d.maxBufferSize d.head)

/-- The socket has taken the first bytes of the part. -/
def wrote (n : Nat) : Outbound :=
  { d with
    head := SizeT.add d.head n % d.maxBufferSize, count := SizeT.sub d.count n
    sent := d.sent ++ (List.range n).map fun i => d.outboundBuffer (d.head + i)
    wrapped := d.wrapped || d.maxBufferSize < d.head || d.count < n }

/-- The loop of `flushLocked`; where there is no further answer the socket would block. -/
def flushLoop : List Written → Outbound → Outbound × Bool
  | [], d => (d, true)
  | answer :: answers, d =>
      if d.count = 0 then (d, true)
      else
        match answer with
        | .bytes n =>
            let n := min n d.partLen
            if n = 0 then (d, true)
            else if n < d.partLen then (d.wrote n, true)
            else flushLoop answers (d.wrote n)
        | .wouldBlock => (d, true)
        | .failed => (d.stop, false)

def flushOutgoingData (answers : List Written) : Outbound × Bool :=
  if !d.connected then (d, false) else flushLoop answers d

/-- What the threads do with a client; each call holds its mutex. -/
inductive Action where
  /-- a byte of the bus -/
  | enqueueByte (byte : UInt8)
  /-- a response of two bytes, of an enhanced client only -/
  | createEnhancedResponse (response : Enhanced.Response) (value : UInt8)
  | flushOutgoingData (answers : List Written)
  | stop
  deriving DecidableEq, Repr

/-- The bytes that an action passes to `enqueueOutgoingData`. -/
def view (type : ClientType) : Action → List UInt8
  | .enqueueByte byte => [byte]
  | .createEnhancedResponse response value =>
      if type = .enhanced then [response.code, value] else []
  | _ => []

def step (d : Outbound) (action : Action) : Outbound :=
  match action with
  | .enqueueByte _ | .createEnhancedResponse _ _ => d.enqueueOutgoingData (view d.type action)
  | .flushOutgoingData answers => (d.flushOutgoingData answers).1
  | .stop => d.stop

end Outbound

end Ebus
