import Mathlib.Data.Finset.Card
import Mathlib.Data.Finset.Insert
import Ebus.Models.Device

/-!
# The table of devices

`DeviceManager` keeps a `Device` for each participant that has been seen, in a pool of limited size,
and with a monitor attached also the addresses that have been observed. A slot of the pool is never
given back. Of the metrics of the monitor only the two counters of devices are kept.
-/

namespace Ebus

namespace DeviceLimits

/-- The default of a value that is set when the library is built. -/
def maxDevices : Nat := 16

end DeviceLimits

structure DeviceMetrics where
  unknownDevices : UInt32 := 0
  identifiedDevices : UInt32 := 0
  deriving DecidableEq, Repr

/-- What `update` is called with: the master part of a telegram has at least two bytes. -/
structure MasterView where
  source : UInt8
  target : UInt8
  data : List UInt8 := []
  deriving DecidableEq, Repr

def MasterView.bytes (v : MasterView) : List UInt8 := v.source :: v.target :: v.data

structure DeviceManager where
  ownAddress : UInt8 := 0xff
  /-- the metrics of the monitor, if there is one -/
  monitor : Option DeviceMetrics := none
  maxDevices : Nat := DeviceLimits.maxDevices
  devicePool : Nat → Device := fun _ => {}
  /-- the slot of a slave address; the source has -1 for none -/
  addressMap : UInt8 → Option Nat := fun _ => none
  poolUsage : Nat := 0
  identifiedDevices : Finset UInt8 := ∅
  masters : Finset UInt8 := ∅
  slaves : Finset UInt8 := ∅

namespace DeviceManager

variable (m : DeviceManager)

def setOwnAddress (address : UInt8) : DeviceManager := { m with ownAddress := address }

def isNew (addr : UInt8) : Bool :=
  let sa := if isSlave addr then addr else slaveOf addr
  decide (masterOf sa ∉ m.masters) && decide (sa ∉ m.slaves)

def countUnknown (addr slave : UInt8) (metrics : DeviceMetrics) : DeviceMetrics :=
  if m.isNew addr && decide (slave ∉ m.identifiedDevices) then
    { metrics with unknownDevices := metrics.unknownDevices + 1 }
  else metrics

/-- What is done for the monitor: without one the addresses are not recorded. -/
def observe (source target : UInt8) : DeviceManager :=
  match m.monitor with
  | none => m
  | some metrics =>
      let m' :=
        { m with
          monitor := some (m.countUnknown source (slaveOf source) metrics)
          masters := insert source m.masters }
      if isSlave target then
        { m' with
          monitor := m'.monitor.map (m'.countUnknown target target)
          slaves := insert target m'.slaves }
      else m'

/-- A new device is counted as identified, and one less as unknown. -/
def recordIdentified (usage : Nat) (metrics : DeviceMetrics) : DeviceMetrics :=
  { unknownDevices :=
      if 0 < metrics.unknownDevices then metrics.unknownDevices - 1 else metrics.unknownDevices
    identifiedDevices := .ofNat usage }

def updateDevice (idx : Nat) (slaveAddr : UInt8) (masterView slaveView : List UInt8) :
    DeviceManager :=
  { m with
    devicePool := Function.update m.devicePool idx
      ((m.devicePool idx).update slaveAddr masterView slaveView) }

/-- The next slot of the pool for an address that has none. -/
def allocate (slaveAddr : UInt8) : DeviceManager :=
  { m with
    poolUsage := m.poolUsage + 1
    addressMap := Function.update m.addressMap slaveAddr (some m.poolUsage)
    identifiedDevices := insert slaveAddr m.identifiedDevices
    monitor := m.monitor.map (recordIdentified (m.poolUsage + 1)) }

def updateEntry (slaveAddr : UInt8) (masterView slaveView : List UInt8) : DeviceManager :=
  if slaveAddr = slaveOf m.ownAddress then m
  else
    match m.addressMap slaveAddr with
    | some idx => m.updateDevice idx slaveAddr masterView slaveView
    | none =>
        if m.maxDevices ≤ m.poolUsage then m
        else (m.allocate slaveAddr).updateDevice m.poolUsage slaveAddr masterView slaveView

/-- The activity of the source. -/
def updateSource (masterView : MasterView) : DeviceManager :=
  if isMaster masterView.source then
    m.updateEntry (slaveOf masterView.source) masterView.bytes []
  else m

/-- The activity of the target, which is a master, a slave or neither. -/
def updateTarget (masterView : MasterView) (slaveView : List UInt8) : DeviceManager :=
  if isMaster masterView.target then
    m.updateEntry (slaveOf masterView.target) masterView.bytes []
  else if isSlave masterView.target then
    m.updateEntry masterView.target masterView.bytes slaveView
  else m

def update (masterView : MasterView) (slaveView : List UInt8) : DeviceManager :=
  ((m.observe masterView.source masterView.target).updateSource masterView).updateTarget
    masterView slaveView

def device (addr : UInt8) : Option Device := (m.addressMap addr).map m.devicePool

def getNextPendingVendorCommandForDevice (deviceAddr : UInt8) (cursor : Nat) :
    Option Sequence × Nat :=
  match m.device deviceAddr with
  | some d => if cursor < 4 then d.getNextPendingVendorCommand cursor else (none, 4)
  | none => (none, 4)

/-- The first device from `startAddr` on for which a command is pending, and the command; else
256. -/
def findNextPendingVendorCommand (startAddr : Nat) : Nat × Option Sequence :=
  let pending (addr : Nat) := (m.device (.ofNat addr)).bind Device.getFirstPendingVendorCommand
  match (List.range' startAddr (256 - startAddr)).find? fun addr => (pending addr).isSome with
  | some addr => (addr, pending addr)
  | none => (256, none)

def isIdentified (addr : UInt8) : Bool := (m.device addr).any Device.identified

def needsDeepScan (addr : UInt8) : Bool :=
  m.isIdentified addr && decide ((m.findNextPendingVendorCommand addr.toNat).1 < 256)

/-- The slave addresses of the observed participants. -/
def getObservedSlaves : Finset UInt8 :=
  (m.masters.filter fun i => i ≠ m.ownAddress).image slaveOf ∪
    m.slaves.filter fun i => i ≠ slaveOf m.ownAddress

inductive Action where
  | setOwnAddress (address : UInt8)
  | update (masterView : MasterView) (slaveView : List UInt8)
  deriving DecidableEq, Repr

def step : Action → DeviceManager
  | .setOwnAddress address => m.setOwnAddress address
  | .update masterView slaveView => m.update masterView slaveView

end DeviceManager

end Ebus
