import Ebus.App.DeviceManager
import Ebus.Lib.Loop

/-!
# The scanner

`DeviceScanner` says which command is to be sent next to find and to identify devices. Requested
addresses come first, then all addresses in turn, then, at intervals after the start, the addresses
that have been observed. Failing addresses are on cooldown, those that keep failing in quarantine.

Clock readings are the ticks of the source, signed microseconds in 64 bits; arithmetic on them
wraps. Each pass of the loop in `nextCommand` has a reading of its own. What only status reports
use is left out. A scanner without a manager is not modelled; it has no commands.
-/

namespace Ebus

namespace Clock

/-- `Clock::time_point::min()`. -/
def timePointMin : Int64 := Int64.minValue

def seconds (n : UInt32) : Int64 := 1000000 * .ofNat n.toNat

end Clock

/-- One reading of the clock, and the answer of the busy predicate. -/
structure Reading where
  now : Int64
  busy : Bool := false
  deriving DecidableEq, Repr

structure DeviceScanner where
  ownAddress : UInt8
  pendingDeepScans : Finset UInt8 := ∅
  failedScans : Finset UInt8 := ∅
  quarantinedScans : Finset UInt8 := ∅
  lastFailureResetTime : Int64 := Clock.timePointMin
  scanCooldownDuration : Int64 := Clock.seconds 60
  initialScanDelay : Int64 := Clock.seconds 10
  startupScanInterval : Int64 := Clock.seconds 60
  nextStartupScanTime : Int64 := Clock.timePointMin
  fullScan : Bool := false
  fullScanAddress : Nat := 0
  scanOnStartup : Bool := false
  startupScanCount : UInt8 := 0
  maxStartupScans : UInt8 := 5
  /-- 256 for none -/
  currentDeepScanAddress : Nat := 256
  currentDeepScanVendorCursor : Nat := 0
  scanAttemptCounters : UInt8 → UInt8 := fun _ => 0
  failureResets : UInt32 := 0
  lastScanAttempt : Int64 := Clock.timePointMin

namespace DeviceScanner

/-- Thirty minutes. -/
def epoch : Int64 := Clock.seconds 1800

/-- An address that fails ten times is put into quarantine. -/
def maxAttempts : UInt8 := 10

def addresses : List UInt8 := (List.range 256).map .ofNat

variable (s : DeviceScanner)

def stop : DeviceScanner :=
  { s with
    fullScan := false
    pendingDeepScans := ∅
    failedScans := ∅
    quarantinedScans := ∅
    lastFailureResetTime := Clock.timePointMin
    scanAttemptCounters := fun _ => 0
    currentDeepScanAddress := 256 }

def setOwnAddress (address : UInt8) : DeviceScanner := { s with ownAddress := address }

def setScanOnStartup (enable : Bool) (now : Int64) : DeviceScanner :=
  if enable then
    { s with
      scanOnStartup := true, startupScanCount := 0
      nextStartupScanTime := now + s.initialScanDelay }
  else { s with scanOnStartup := false }

def setMaxStartupScans (max : UInt8) : DeviceScanner := { s with maxStartupScans := max }

def setInitialScanDelay (delay : UInt32) : DeviceScanner :=
  { s with initialScanDelay := Clock.seconds delay }

def setStartupScanInterval (interval : UInt32) : DeviceScanner :=
  { s with startupScanInterval := Clock.seconds interval }

def initFullScan (enable : Bool) : DeviceScanner :=
  if enable then { s with fullScan := true, fullScanAddress := 0 } else { s with fullScan := false }

def scanAddressInternal (address : UInt8) : DeviceScanner × Bool :=
  if address = slaveOf s.ownAddress then (s, false)
  else if address ∈ s.pendingDeepScans then (s, true)
  else
    ({ s with
      pendingDeepScans := insert address s.pendingDeepScans
      failedScans := s.failedScans.erase address
      quarantinedScans := s.quarantinedScans.erase address }, true)

def scanAddress (address : UInt8) : DeviceScanner × Bool := s.scanAddressInternal address

def scanAddresses (addresses : List UInt8) : DeviceScanner × Bool :=
  addresses.foldl (fun r address =>
    let next := r.1.scanAddressInternal address
    (next.1, r.2 && next.2)) (s, true)

/-- The observed addresses in ascending order. -/
def scanObservedDevices (m : DeviceManager) : DeviceScanner × Bool :=
  (addresses.filter (· ∈ m.getObservedSlaves)).foldl (fun r address =>
    let next := r.1.scanAddressInternal address
    (next.1, r.2 || next.2)) (s, false)

def onScanResult (m : DeviceManager) (address : UInt8) (success : Bool) : DeviceScanner :=
  let attempts := s.scanAttemptCounters address + 1
  let counted (value : UInt8) := Function.update s.scanAttemptCounters address value
  if !success then
    let s := { s with failedScans := insert address s.failedScans }
    if maxAttempts ≤ attempts then
      { s with
        quarantinedScans := insert address s.quarantinedScans, scanAttemptCounters := counted 0 }
    else { s with scanAttemptCounters := counted attempts }
  else
    let s := { s with failedScans := s.failedScans.erase address }
    if m.needsDeepScan address then
      if attempts < maxAttempts then
        { s with
          pendingDeepScans := insert address s.pendingDeepScans
          scanAttemptCounters := counted attempts }
      else
        { s with
          quarantinedScans := insert address s.quarantinedScans, scanAttemptCounters := counted 0 }
    else { s with scanAttemptCounters := counted 0 }

/-- The batch reset of the cooldowns. -/
def cooldownReset (now : Int64) : DeviceScanner :=
  if s.failedScans.Nonempty ∧ now - s.lastFailureResetTime > s.scanCooldownDuration then
    { s with failedScans := ∅, lastFailureResetTime := now }
  else s

def epochReset (now : Int64) : DeviceScanner :=
  if now - s.lastScanAttempt > epoch then
    { s with
      failedScans := ∅
      quarantinedScans := ∅
      scanAttemptCounters := fun _ => 0
      failureResets := s.failureResets + 1 }
  else s

def resets (now : Int64) : DeviceScanner := (s.cooldownReset now).epochReset now

/-- The lowest pending address becomes the current one, unless there is one. -/
def takePending : DeviceScanner :=
  if s.currentDeepScanAddress = 256 then
    match addresses.find? (· ∈ s.pendingDeepScans) with
    | some i =>
        { s with
          currentDeepScanAddress := i.toNat
          currentDeepScanVendorCursor := 0
          pendingDeepScans := s.pendingDeepScans.erase i }
    | none => s
  else s

def dropCurrent : DeviceScanner := { s with currentDeepScanAddress := 256 }

/-- One pass of the loop over the addresses that are to be identified. -/
def deepScanBody (m : DeviceManager) (now : Int64) (s : DeviceScanner) :
    DeviceScanner ⊕ (DeviceScanner × Option Sequence) :=
  if s.currentDeepScanAddress < 256 ∨ s.pendingDeepScans.Nonempty then
    let s := s.takePending
    if s.currentDeepScanAddress = 256 then .inr (s, none)
    else
      let addr : UInt8 := .ofNat s.currentDeepScanAddress
      if addr ∈ s.failedScans ∨ addr ∈ s.quarantinedScans then .inl s.dropCurrent
      else if !m.isIdentified addr then
        let cmd := Device.createScanCommand addr
        if !cmd.empty then .inr ({ s with lastScanAttempt := now }.dropCurrent, some cmd)
        else .inl s.dropCurrent
      else
        match m.getNextPendingVendorCommandForDevice addr s.currentDeepScanVendorCursor with
        | (some cmd, cursor) =>
            .inr ({ s with currentDeepScanVendorCursor := cursor, lastScanAttempt := now },
              some cmd)
        | (none, cursor) => .inl { s with currentDeepScanVendorCursor := cursor }.dropCurrent
  else .inr (s, none)

def deepScan (m : DeviceManager) (now : Int64) (fuel : Nat) (s : DeviceScanner) :
    Option (DeviceScanner × Option Sequence) :=
  Loop.run (fun s => some (deepScanBody m now s)) fuel s

/-- One pass of the loop over all addresses. -/
def fullScanBody (m : DeviceManager) (now : Int64) (s : DeviceScanner) :
    DeviceScanner ⊕ (DeviceScanner × Option Sequence) :=
  if s.fullScanAddress < 256 then
    let addr : UInt8 := .ofNat s.fullScanAddress
    let s := { s with fullScanAddress := s.fullScanAddress + 1 }
    if !isSlave addr ∨ addr = slaveOf s.ownAddress then .inl s
    else if addr ∈ s.failedScans ∨ addr ∈ s.quarantinedScans then .inl s
    else if !m.isIdentified addr then
      let cmd := Device.createScanCommand addr
      if !cmd.empty then .inr ({ s with lastScanAttempt := now }, some cmd) else .inl s
    else .inl s
  else .inr ({ s with fullScan := false }, none)

def sweep (m : DeviceManager) (now : Int64) (fuel : Nat) (s : DeviceScanner) :
    Option (DeviceScanner × Option Sequence) :=
  if s.fullScan then Loop.run (fun s => some (fullScanBody m now s)) fuel s else some (s, none)

/-- The pass over the observed devices after the start; whether the loop goes on. -/
def startupScan (m : DeviceManager) (now : Int64) (s : DeviceScanner) : DeviceScanner × Bool :=
  if s.scanOnStartup ∧ s.nextStartupScanTime ≤ now then
    if s.maxStartupScans ≤ s.startupScanCount then ({ s with scanOnStartup := false }, false)
    else
      let (s, added) := s.scanObservedDevices m
      ({ s with
        startupScanCount := s.startupScanCount + 1
        nextStartupScanTime := now + s.startupScanInterval }, added)
  else (s, false)

/-- One pass of the outer loop, with the number of passes that its inner loops may need. -/
def nextCommandBody (m : DeviceManager) (reading : Reading) (fuel : Nat) (s : DeviceScanner) :
    Option (DeviceScanner ⊕ (DeviceScanner × Sequence)) := do
  let (s, deep) ← (s.resets reading.now).deepScan m reading.now fuel
  if let some cmd := deep then return .inr (s, cmd)
  if reading.busy then return .inr (s, {})
  let (s, full) ← s.sweep m reading.now fuel
  if let some cmd := full then return .inr (s, cmd)
  let (s, added) := s.startupScan m reading.now
  return if added then .inl s else .inr (s, {})

/-- The loop; the passes are counted for their readings. -/
def nextCommandLoop (m : DeviceManager) (readings : Nat → Reading) (fuel : Nat) :
    Nat → DeviceScanner × Nat → Option (DeviceScanner × Sequence) :=
  Loop.run fun (s, n) =>
    (nextCommandBody m (readings n) fuel s).map (Sum.map (fun s => (s, n + 1)) id)

def nextCommand (m : DeviceManager) (readings : Nat → Reading) (fuel : Nat) (s : DeviceScanner) :
    Option (DeviceScanner × Sequence) :=
  nextCommandLoop m readings fuel fuel (s, 0)

end DeviceScanner

end Ebus
