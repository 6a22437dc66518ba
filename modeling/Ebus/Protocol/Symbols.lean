import Mathlib.Tactic.Common

/-!
# Bus symbols, addresses and the check sum

The byte level of the bus: the reserved symbols and their escape codes, the
address classes, the enumerations that the state machines share, and the
table-driven 8-bit CRC. Everything here is a pure function on bytes, written
with the bit operations of the source so that it can be evaluated.
-/

namespace Ebus

namespace Symbols

def zero : UInt8 := 0x00
def syn : UInt8 := 0xaa
def ext : UInt8 := 0xa9
def synExt : UInt8 := 0x01
def extExt : UInt8 := 0x00
def ack : UInt8 := 0x00
def nak : UInt8 := 0xff
def broad : UInt8 := 0xfe

/-- The two bytes that are stuffed on the wire. -/
def needsEscape (byte : UInt8) : Bool := byte == syn || byte == ext

/-- The second byte of the pair `ext, escaped byte` that stands for `byte`. -/
def escape (byte : UInt8) : UInt8 := if byte = syn then synExt else extExt

/-- Undo one escape pair, or report that the two bytes are none. -/
def unescape (b1 b2 : UInt8) : Option UInt8 :=
  if b1 ≠ ext then none
  else if b2 = synExt then some syn
  else if b2 = extExt then some ext
  else none

theorem needsEscape_iff {byte : UInt8} : needsEscape byte = true ↔ byte = syn ∨ byte = ext := by
  simp [needsEscape]

theorem unescape_escape {byte : UInt8} (h : needsEscape byte = true) :
    unescape ext (escape byte) = some byte := by
  obtain rfl | rfl := needsEscape_iff.mp h <;> decide

theorem needsEscape_of_unescape {b1 b2 byte : UInt8} (h : unescape b1 b2 = some byte) :
    needsEscape byte = true := by
  rw [needsEscape_iff]
  unfold unescape at h
  split_ifs at h
  · exact .inl (Option.some.inj h).symm
  · exact .inr (Option.some.inj h).symm

theorem escape_ne_ext (byte : UInt8) : escape byte ≠ ext := by
  unfold escape
  split <;> decide

theorem syn_ne_escape (byte : UInt8) : syn ≠ escape byte := by
  unfold escape
  split <;> decide

theorem unescape_of_ne_ext {b1 b2 : UInt8} (h : b1 ≠ ext) : unescape b1 b2 = none := by
  simp [unescape, h]

end Symbols

inductive TelegramType where
  | undefined
  | broadcast
  | masterMaster
  | masterSlave
  deriving DecidableEq, Repr

inductive MessageType where
  | undefined
  | active
  | passive
  | reactive
  deriving DecidableEq, Repr

inductive LogLevel where
  | none
  | error
  | info
  | debug
  deriving DecidableEq, Repr

inductive SequenceState where
  | seqEmpty
  | seqOk
  | errSeqTooShort
  | errSeqTooLong
  | errSourceAddress
  | errTargetAddress
  | errDataByte
  | errCrcInvalid
  | errAckInvalid
  | errAckMissing
  | errAckNegative
  deriving DecidableEq, Repr

inductive HandlerState where
  | passiveReceiveMaster
  | passiveReceiveMasterAcknowledge
  | passiveReceiveSlave
  | passiveReceiveSlaveAcknowledge
  | reactiveSendMasterPositiveAcknowledge
  | reactiveSendMasterNegativeAcknowledge
  | reactiveSendSlave
  | reactiveReceiveSlaveAcknowledge
  | requestBus
  | activeSendMaster
  | activeReceiveMasterAcknowledge
  | activeReceiveSlave
  | activeSendSlavePositiveAcknowledge
  | activeSendSlaveNegativeAcknowledge
  | releaseBus
  deriving DecidableEq, Repr

inductive RequestState where
  | observe
  | first
  | retry
  | second
  deriving DecidableEq, Repr

inductive RequestResult where
  | observeSyn
  | observeData
  | firstSyn
  | firstWon
  | firstRetry
  | firstLost
  | firstError
  | retrySyn
  | retryError
  | secondWon
  | secondLost
  | secondError
  deriving DecidableEq, Repr

inductive ProtocolError where
  | none
  | errorPassiveMaster
  | errorPassiveMasterAck
  | errorPassiveSlave
  | errorPassiveSlaveAck
  | errorReactiveMaster
  | errorReactiveMasterAck
  | errorReactiveSlave
  | errorReactiveSlaveAck
  | errorActiveMasterEcho
  | errorActiveMaster
  | errorActiveMasterAck
  | errorActiveSlave
  | errorActiveSlaveAck
  | checkPassiveBuffers
  | checkActiveBuffers
  | illegalFsmTransition
  | handlerBusy
  | invalidMessage
  | fsmTimeout
  | arbitrationLost
  | totalTransferTimeout
  deriving DecidableEq, Repr

/-- A nibble of a master address is `0`, `1`, `3`, `7` or `f`: adding one to it
leaves no common bit. -/
def masterNibble (nibble : UInt8) : Bool := (nibble + 1) &&& nibble == 0

def isMaster (byte : UInt8) : Bool :=
  masterNibble ((byte >>> 4) &&& 0x0f) && masterNibble (byte &&& 0x0f)

def isSlave (byte : UInt8) : Bool :=
  !isMaster byte && byte != Symbols.syn && byte != Symbols.ext && byte != Symbols.broad

def isTarget (byte : UInt8) : Bool := byte != Symbols.syn && byte != Symbols.ext

/-- The slave address that belongs to a master address. -/
def slaveOf (byte : UInt8) : UInt8 :=
  if byte = 0xff then 0x04
  else if !isMaster byte then byte
  else
    let result := byte + 5
    if isSlave result then result else byte

/-- The master address that belongs to a slave address. -/
def masterOf (byte : UInt8) : UInt8 :=
  if byte = 0x04 then 0xff
  else if byte < 5 then byte
  else
    let potential := byte - 5
    if isMaster potential then potential else byte

def typeOf (byte : UInt8) : TelegramType :=
  if byte = Symbols.broad then .broadcast
  else if isMaster byte then .masterMaster
  else .masterSlave

theorem isTarget_iff {byte : UInt8} :
    isTarget byte = true ↔ byte ≠ Symbols.syn ∧ byte ≠ Symbols.ext := by
  simp [isTarget]

theorem needsEscape_eq_false_iff {byte : UInt8} :
    Symbols.needsEscape byte = false ↔ byte ≠ Symbols.syn ∧ byte ≠ Symbols.ext := by
  simp [Symbols.needsEscape]

/-- No master address has to be stuffed. -/
theorem needsEscape_of_isMaster {byte : UInt8} (h : isMaster byte = true) :
    Symbols.needsEscape byte = false := by
  rw [needsEscape_eq_false_iff]
  constructor <;> rintro rfl <;> revert h <;> decide

theorem needsEscape_of_isTarget {byte : UInt8} (h : isTarget byte = true) :
    Symbols.needsEscape byte = false := by
  rw [isTarget_iff] at h
  exact needsEscape_eq_false_iff.mpr h

theorem typeOf_ne_undefined (byte : UInt8) : typeOf byte ≠ .undefined := by
  unfold typeOf
  split
  · decide
  · split <;> decide

namespace SequenceLimits

def maxDataBytes : UInt8 := 16
def modelCapacity : Nat := 24

end SequenceLimits

/-- A count of data bytes is never a byte that has to be stuffed. -/
theorem needsEscape_of_le_maxDataBytes {byte : UInt8}
    (h : byte.toNat ≤ SequenceLimits.maxDataBytes.toNat) :
    Symbols.needsEscape byte = false := by
  rw [needsEscape_eq_false_iff]
  constructor <;> rintro rfl <;> revert h <;> decide

/-- One entry of the CRC table for the polynomial `0x9b`: eight shift steps. -/
def calculateCrcEntry (index : UInt8) : UInt8 :=
  let shift := fun crc : UInt8 =>
    if crc &&& 0x80 != 0 then (crc <<< 1) ^^^ 0x9b else crc <<< 1
  shift (shift (shift (shift (shift (shift (shift (shift index)))))))

/-- The generated table, indexed by a byte. -/
def crcTable (index : UInt8) : UInt8 := calculateCrcEntry index

def calcCRC (byte init : UInt8) : UInt8 := crcTable init ^^^ byte

end Ebus
