import Ebus.Models.Device
import Ebus.Platform.Queue
import Ebus.Utils.CircularBuffer

/-!
# The automated responder of the simulated bus

`BusSimulator` hears every byte of the bus. It keeps the last ones in a circular buffer, compares
its end with the triggers of its reactions and queues the answer of the first one that matches;
a thread of its own takes the answers from the queue and writes them. `VirtualBus` makes the
reactions and the messages that it is given.

A push into the full queue waits: here the call is not possible until there is room. What the
thread does with an answer, and so the wait for a SYN symbol, and the conversion of the texts of
`VirtualBus` are left out.
-/

namespace Ebus

namespace SimulationLimits

def outboundQueueCapacity : Nat := 16

end SimulationLimits

namespace SequenceLimits

def defaultCapacity : Nat := 64

end SequenceLimits

structure MockReaction where
  id : UInt32 := 0
  trigger : Sequence
  action : Sequence
  /-- 0 for ever, -1 for never -/
  repeatCount : Int := 1
  delayMs : UInt32 := 0
  deriving DecidableEq, Repr

/-- What is to be written, as much of it as an item holds. -/
structure ResponseItem where
  data : List UInt8
  delayMs : UInt32 := 0
  delayUs : UInt32 := 0
  waitForSyn : Bool := false
  deriving DecidableEq, Repr

structure BusSimulator where
  nextReactionId : UInt32
  writeHistory : CircularBuffer UInt8 SequenceLimits.defaultCapacity
  reactions : List MockReaction
  outboundQueue : QueuePosix ResponseItem SimulationLimits.outboundQueueCapacity

def Sequence.logicallyEquals (s other : Sequence) : Bool :=
  if s.extended = other.extended then s.bytes == other.bytes
  else s.reduce.bytes == other.reduce.bytes

namespace ResponseItem

/-- The bytes that fit into an item. -/
def fill (bytes : List UInt8) : List UInt8 := bytes.take SequenceLimits.defaultCapacity

/-- What a reaction has written. -/
def ofReaction (reaction : MockReaction) : ResponseItem :=
  { data := fill reaction.action.bytes, delayMs := reaction.delayMs }

def requestDelayUs : UInt32 := 200

def rawByte (byte : UInt8) : ResponseItem := { data := [byte] }

def masterMessage (source : UInt8) (payload : List UInt8) : ResponseItem :=
  { data := fill (frameMaster source payload).bytes, delayUs := requestDelayUs
    waitForSyn := true }

/-- Each part is put behind the sequence in the form that this one has. -/
def masterSlaveMessage (source : UInt8) (masterPayload slavePayload : List UInt8) :
    ResponseItem :=
  let full := ({} : Sequence).append (frameMaster source masterPayload)
  let full := full.pushBack Symbols.ack false
  let full := full.append (frameSlave slavePayload)
  let full := (full.pushBack Symbols.ack false).pushBack Symbols.syn false
  { data := fill full.bytes, delayUs := requestDelayUs, waitForSyn := true }

end ResponseItem

namespace MockReaction

/-- The count of a reaction that has answered. -/
def used (reaction : MockReaction) : MockReaction :=
  if 0 < reaction.repeatCount then
    let repeatCount := reaction.repeatCount - 1
    { reaction with repeatCount := if repeatCount = 0 then -1 else repeatCount }
  else reaction

/-- `addSlaveReaction`. -/
def slaveReaction (source : UInt8) (trigger reaction : List UInt8) (repeatCount : Int)
    (delayMs : UInt32) : MockReaction :=
  { trigger := frameMaster source trigger
    action := (({} : Sequence).pushBack Symbols.ack false).append (frameSlave reaction)
    repeatCount, delayMs }

/-- `addAckReaction` and `addNakReaction`. -/
def replyReaction (symbol source : UInt8) (trigger : List UInt8) (repeatCount : Int)
    (delayMs : UInt32) : MockReaction :=
  { trigger := frameMaster source trigger
    action := ({} : Sequence).pushBack symbol false
    repeatCount, delayMs }

def ackReaction := replyReaction Symbols.ack

def nakReaction := replyReaction Symbols.nak

/-- `addMasterAckReaction`. -/
def masterAckReaction (trigger : List UInt8) (repeatCount : Int) (delayMs : UInt32) :
    MockReaction :=
  { trigger := frameSlave trigger
    action := (({} : Sequence).pushBack Symbols.ack false).pushBack Symbols.syn false
    repeatCount, delayMs }

/-- `addMasterNakReaction`. -/
def masterNakReaction (trigger : List UInt8) (repeatCount : Int) (delayMs : UInt32) :
    MockReaction :=
  { trigger := frameSlave trigger
    action := ({} : Sequence).pushBack Symbols.nak false
    repeatCount, delayMs }

/-- `addFullTelegramReaction`. The byte behind the master part sets the form of the trigger. -/
def fullTelegramReaction (source : UInt8) (master slave : List UInt8) (actionByte : UInt8)
    (repeatCount : Int) (delayMs : UInt32) : MockReaction :=
  let trigger := (frameMaster source master).pushBack Symbols.ack false
  let action := ({} : Sequence).pushBack actionByte false
  { trigger := (trigger.append (frameSlave slave)).extend
    action := if actionByte = Symbols.ack then action.pushBack Symbols.syn false else action
    repeatCount, delayMs }

end MockReaction

namespace BusSimulator

def create : BusSimulator where
  nextReactionId := 0
  writeHistory := .create (by decide)
  reactions := []
  outboundQueue :=
    { buffer := fun _ => { data := [] }, head := 0, tail := 0, size := 0, shutdown := false
      bounded := Nat.zero_le _
      behind := rfl }

inductive Action where
  | onRead (byte : UInt8)
  | addMockReaction (reaction : MockReaction)
  | removeById (id : UInt32)
  | removeByTrigger (trigger : Sequence)
  | clear
  /-- `injectRawByte`, `injectMasterMessage` or `injectMasterSlaveMessage` -/
  | inject (item : ResponseItem)
  /-- the thread takes an item -/
  | pop
  | stop
  deriving DecidableEq, Repr

/-- `tryPush` of the queue. -/
def tryPush (queue : QueuePosix ResponseItem SimulationLimits.outboundQueueCapacity)
    (item : ResponseItem) : Option (QueuePosix ResponseItem SimulationLimits.outboundQueueCapacity) :=
  if queue.shutdown then none
  else if h : queue.size < SimulationLimits.outboundQueueCapacity then some (queue.put item h)
  else none

/-- Whether the history ends with a trigger. -/
def triggered (history : CircularBuffer UInt8 SequenceLimits.defaultCapacity)
    (trigger : Sequence) : Bool :=
  trigger.size ≤ history.size &&
    matchesAt history.view trigger.bytes (history.size - trigger.size)

/-- The loop of `onRead` over the reactions. It ends with the first answer that is queued. -/
def react (history : CircularBuffer UInt8 SequenceLimits.defaultCapacity)
    (queue : QueuePosix ResponseItem SimulationLimits.outboundQueueCapacity) :
    List MockReaction →
      List MockReaction × QueuePosix ResponseItem SimulationLimits.outboundQueueCapacity
  | [] => ([], queue)
  | reaction :: rest =>
      let next :=
        let result := react history queue rest
        (reaction :: result.1, result.2)
      if reaction.repeatCount = -1 then next
      else if triggered history reaction.trigger then
        match tryPush queue (.ofReaction reaction) with
        | some pushed => (reaction.used :: rest, pushed)
        | none => next
      else next

def onRead (s : BusSimulator) (byte : UInt8) : BusSimulator :=
  let writeHistory := (s.writeHistory.pushImpl byte).1
  let result := react writeHistory s.outboundQueue s.reactions
  { s with writeHistory, reactions := result.1, outboundQueue := result.2 }

def addMockReaction (s : BusSimulator) (reaction : MockReaction) : BusSimulator :=
  let id := s.nextReactionId + 1
  { s with nextReactionId := id, reactions := s.reactions ++ [{ reaction with id }] }

def clear (s : BusSimulator) : BusSimulator :=
  { s with reactions := [], writeHistory := s.writeHistory.clear
           outboundQueue := s.outboundQueue.clear }

def step (s : BusSimulator) : Action → BusSimulator
  | .onRead byte => s.onRead byte
  | .addMockReaction reaction => s.addMockReaction reaction
  | .removeById id => { s with reactions := s.reactions.filter fun r => r.id ≠ id }
  | .removeByTrigger trigger =>
      { s with reactions := s.reactions.filter fun r => !r.trigger.logicallyEquals trigger }
  | .clear => s.clear
  | .inject item => { s with outboundQueue := (tryPush s.outboundQueue item).getD s.outboundQueue }
  | .pop =>
      if h : 0 < s.outboundQueue.size then { s with outboundQueue := s.outboundQueue.advance h }
      else s
  | .stop => { s with outboundQueue := { s.outboundQueue with shutdown := true } }

end BusSimulator

end Ebus
