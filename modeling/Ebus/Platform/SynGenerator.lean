import Ebus.Lib.Run
import Ebus.Protocol.Symbols
import Mathlib.Logic.Function.Basic

/-!
# The SYN generator

When the bus is silent a participant may put SYN symbols on it. Its thread waits for a point in
time that every byte moves away: by 50 ms when the byte is a SYN and this participant has been
generating them, and otherwise by a time that grows with the own address, so that one
participant comes first. The thread gives the lock back before it writes; what it does between
taking and giving back the lock is one step, as is each call of the other threads.

Times are counts of microseconds, the ticks of `Clock`. The start of the clock is 0, which the
source also uses for a time that is not set. `SynGenerator` keeps of the bus only what the
generator needs; its samples for telemetry are left out except for the count of postponements.
-/

namespace Ebus

namespace BusLimits.Syn

def baseMs : Nat := 50
def toleranceMs : Nat := 5
def addressFactorMs : Nat := 10
def postponeMs : Nat := 2
def carrierSenseMs : Nat := 5
def serializationDelayMs : Nat := 4

end BusLimits.Syn

open BusLimits.Syn

/-- Ticks of the clock. -/
def milliseconds (n : Nat) : Nat := 1000 * n

/-- Where the thread of the generator is. -/
inductive SynPoint where
  | stopped
  | check
  | write
  | fallback
  deriving DecidableEq, Repr

structure SynGenerator where
  address : UInt8
  synGen : Bool
  isOpen : Bool := false
  running : Bool := false
  synRunning : Bool := false
  thread : SynPoint := .stopped
  currentTUnique : Nat
  lastActivityTime : Nat := 0
  nextSynExpiry : Nat := 0
  synIntentTime : Nat := 0
  synActive : Bool := false
  synPostponedCount : Nat := 0
  deriving DecidableEq, Repr

namespace SynGenerator

def tUnique (address : UInt8) : Nat :=
  milliseconds baseMs + milliseconds (address.toNat * addressFactorMs) + milliseconds toleranceMs

/-- A bus that has its configuration and is not open yet. -/
def create (address : UInt8) (synGen : Bool) : SynGenerator :=
  { address, synGen, currentTUnique := tUnique address }

/-- The thread that has been there before has ended. -/
def start (g : SynGenerator) (now : Nat) : SynGenerator :=
  if g.isOpen = true ∨ g.thread ≠ .stopped then g
  else if g.synGen then
    { g with isOpen := true
             running := true
             currentTUnique := tUnique g.address
             nextSynExpiry := now + tUnique g.address
             synActive := false
             synRunning := true
             thread := .check }
  else { g with isOpen := true, running := true }

/-- The thread sees the flag when it comes round. -/
def stop (g : SynGenerator) : SynGenerator :=
  { g with isOpen := false, running := false, synRunning := false }

/-- The reader has met the end of the device. -/
def readerEnds (g : SynGenerator) : SynGenerator := { g with running := false }

def resetSynTimerInternal (g : SynGenerator) (now : Nat) (byte : UInt8) : SynGenerator :=
  if g.synActive = true ∧ byte = Symbols.syn then
    { g with lastActivityTime := now, nextSynExpiry := now + milliseconds baseMs }
  else
    { g with lastActivityTime := now
             synActive := false
             nextSynExpiry := now + g.currentTUnique }

/-- The part of `writeByte` that has the lock. -/
def writeByte (g : SynGenerator) (now : Nat) (byte : UInt8) : SynGenerator :=
  { g with lastActivityTime := now
           synActive := if byte ≠ Symbols.syn then false else g.synActive
           nextSynExpiry := now + g.currentTUnique + milliseconds serializationDelayMs }

/-- What a change of the switch does to the thread. An open bus restarts its timer. -/
def manageThread (g : SynGenerator) (now : Nat) (wasEnabled : Bool) : SynGenerator :=
  if g.isOpen = false ∨ g.running = false then g
  else if g.synGen then
    if wasEnabled = false ∧ g.synRunning = false ∧ g.thread = .stopped then
      { g with synRunning := true
               nextSynExpiry := now + g.currentTUnique
               synActive := false
               thread := .check }
    else if g.synRunning then g.resetSynTimerInternal now Symbols.syn
    else g
  else if wasEnabled then { g with synRunning := false }
  else g

/-- The address and the switch of the generator in a new configuration. -/
def setRuntimeConfig (g : SynGenerator) (now : Nat) (address : UInt8) (synGen : Bool) :
    SynGenerator :=
  { g with address, synGen, currentTUnique := tUnique address }.manageThread now g.synGen

/-- The next step of `synThread`. At `write` it calls `writeByte`. -/
def synThread (g : SynGenerator) (now : Nat) : SynGenerator :=
  match g.thread with
  | .stopped => g
  | .check =>
      if g.synRunning = false then { g with thread := .stopped }
      else if now < g.nextSynExpiry then g
      else if now - g.lastActivityTime < milliseconds carrierSenseMs then
        { g with synPostponedCount := g.synPostponedCount + 1
                 synIntentTime := if g.synIntentTime = 0 then now else g.synIntentTime
                 nextSynExpiry := now + milliseconds postponeMs }
      else { g with synIntentTime := 0, synActive := true, thread := .write }
  | .write => { g.writeByte now Symbols.syn with thread := .fallback }
  | .fallback =>
      if g.nextSynExpiry ≤ now then
        { g with nextSynExpiry := now + g.currentTUnique, thread := .check }
      else { g with thread := .check }

theorem base_le_tUnique (address : UInt8) : milliseconds baseMs ≤ tUnique address := by
  unfold tUnique
  omega

/-- A byte that is no echo of the own SYN gives the others time to come first. -/
theorem resetSynTimerInternal_passive {g : SynGenerator} (h : g.synActive = false) (now : Nat)
    (byte : UInt8) : g.resetSynTimerInternal now byte =
      { g with lastActivityTime := now, nextSynExpiry := now + g.currentTUnique } := by
  unfold resetSynTimerInternal
  simp only [h, Bool.false_eq_true, false_and, if_false]

/-- How far a byte moves the next SYN away. -/
theorem resetSynTimerInternal_expiry (g : SynGenerator) (now : Nat) (byte : UInt8)
    (h : milliseconds baseMs ≤ g.currentTUnique) :
    now + milliseconds baseMs ≤ (g.resetSynTimerInternal now byte).nextSynExpiry ∧
    (g.resetSynTimerInternal now byte).nextSynExpiry ≤ now + g.currentTUnique := by
  unfold resetSynTimerInternal
  split
  · exact ⟨Nat.le_refl _, Nat.add_le_add_left h now⟩
  · exact ⟨Nat.add_le_add_left h now, Nat.le_refl _⟩

/-- What a byte leaves alone. -/
theorem resetSynTimerInternal_frame (g : SynGenerator) (now : Nat) (byte : UInt8) :
    (g.resetSynTimerInternal now byte).thread = g.thread ∧
    (g.resetSynTimerInternal now byte).synRunning = g.synRunning ∧
    (g.resetSynTimerInternal now byte).currentTUnique = g.currentTUnique ∧
    (g.resetSynTimerInternal now byte).lastActivityTime = now ∧
    (g.resetSynTimerInternal now byte).synPostponedCount = g.synPostponedCount := by
  unfold resetSynTimerInternal
  split
  · exact ⟨rfl, rfl, rfl, rfl, rfl⟩
  · exact ⟨rfl, rfl, rfl, rfl, rfl⟩

end SynGenerator

end Ebus
