import Ebus.Protocol.Sequence

/-!
# A device on the bus

What is known of the participant with one slave address: the answer to the identification
07h 04h and, for devices of one vendor, four further blocks B5h 09h 24h to 27h. What is made of this
data for display is left out.
-/

namespace Ebus

/-- Whether the bytes of `search` stand at `index`. -/
def matchesAt (container search : List UInt8) (index : Nat) : Bool :=
  search.isEmpty ||
    (index < container.length && index + search.length ≤ container.length &&
      (container.drop index).take search.length == search)

structure Device where
  slave : UInt8 := 0
  identified : Bool := false
  messageCount : UInt32 := 0
  vec070400 : List UInt8 := []
  vecB5090124 : List UInt8 := []
  vecB5090125 : List UInt8 := []
  vecB5090126 : List UInt8 := []
  vecB5090127 : List UInt8 := []
  deriving DecidableEq, Repr

namespace Device

def vendorVaillant : UInt8 := 0xb5

/-- The request for the identification. -/
def identification : List UInt8 := [0x07, 0x04, 0x00]

/-- The requests for the four blocks of the vendor. -/
def commandPrefixes : List (List UInt8) :=
  [[0xb5, 0x09, 0x01, 0x24], [0xb5, 0x09, 0x01, 0x25], [0xb5, 0x09, 0x01, 0x26],
    [0xb5, 0x09, 0x01, 0x27]]

/-- A command to a slave, byte by byte. -/
def commandTo (slave : UInt8) (request : List UInt8) : Sequence :=
  request.foldl (fun s byte => s.pushBack byte false) (({} : Sequence).pushBack slave false)

def createScanCommand (slave : UInt8) : Sequence := commandTo slave identification

variable (d : Device)

def storageFields : List (List UInt8) :=
  [d.vecB5090124, d.vecB5090125, d.vecB5090126, d.vecB5090127]

/-- What an answer is kept as; the first request that matches decides. -/
def store (masterView slaveView : List UInt8) : Device :=
  if matchesAt masterView identification 2 then { d with vec070400 := slaveView }
  else if matchesAt masterView [0xb5, 0x09, 0x01, 0x24] 2 then { d with vecB5090124 := slaveView }
  else if matchesAt masterView [0xb5, 0x09, 0x01, 0x25] 2 then { d with vecB5090125 := slaveView }
  else if matchesAt masterView [0xb5, 0x09, 0x01, 0x26] 2 then { d with vecB5090126 := slaveView }
  else if matchesAt masterView [0xb5, 0x09, 0x01, 0x27] 2 then { d with vecB5090127 := slaveView }
  else d

def update (slaveAddr : UInt8) (masterView slaveView : List UInt8) : Device :=
  let d := { d with slave := slaveAddr, messageCount := d.messageCount + 1 }
  if slaveView.isEmpty then d
  else
    let d := d.store masterView slaveView
    if !d.vec070400.isEmpty then { d with identified := true } else d

def isVaillant : Bool := 1 < d.vec070400.length && d.vec070400.getD 1 0 == vendorVaillant

/-- The first block from `cursor` on that is missing. -/
def missingBlock (cursor : Nat) : Option Nat :=
  (List.range' cursor (4 - cursor)).find? fun i => (d.storageFields.getD i []).isEmpty

def vendorCommand (i : Nat) : Sequence := commandTo d.slave (commandPrefixes.getD i [])

/-- The command, if there is one, and the cursor for the next call. -/
def getNextPendingVendorCommand (cursor : Nat) : Option Sequence × Nat :=
  if d.isVaillant then
    match d.missingBlock cursor with
    | some i => (some (d.vendorCommand i), i + 1)
    | none => (none, 4)
  else (none, 4)

def getFirstPendingVendorCommand : Option Sequence :=
  if d.isVaillant then (d.missingBlock 0).map d.vendorCommand else none

@[simp] theorem bytes_commandTo (slave : UInt8) (request : List UInt8) :
    (commandTo slave request).bytes = slave :: request := by
  have hall (s : Sequence) :
      (request.foldl (fun s byte => s.pushBack byte false) s).bytes = s.bytes ++ request := by
    induction request generalizing s with
    | nil => exact (List.append_nil _).symm
    | cons byte rest ih =>
        rw [List.foldl_cons, ih]
        exact List.append_assoc ..
  exact hall _

end Device

end Ebus
