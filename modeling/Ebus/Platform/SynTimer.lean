import Ebus.Platform.SynGenerator

/-!
# The SYN generator on a hardware timer

On the microcontroller the generator has no thread. A timer of the hardware that reloads itself
interrupts the program when it reaches its alarm, and the interrupt writes the SYN symbol, unless
the bus has been active within the last 5 ms: then a second timer, of the software, checks again
2 ms later, and goes on doing so. Falling edges of the bus are interrupts as well.

An interrupt is one step. The handling of a byte reads the configuration, gives it back and sets
the timer later, and so does a change of the configuration: these are two steps each, and anything
may come between them. The calls that stop, set and start the timer are one step. An alarm may
come late. The arbitration timer and the samples for telemetry are left out; the log records what
has been active on the bus, and no function of the model reads it.
-/

namespace Ebus

open BusLimits.Syn

/-- A timer that counts microseconds up to an alarm and starts over there. -/
structure GpTimer where
  /-- when the alarm comes; a timer that does not run has none -/
  due : Option Nat := none
  alarmCount : Nat := 0
  /-- the count of a timer that does not run -/
  rawCount : Nat := 0
  deriving DecidableEq, Repr

namespace GpTimer

variable (timer : GpTimer)

def stop (now : Nat) : GpTimer :=
  match timer.due with
  | some due => { timer with due := none, rawCount := timer.alarmCount - (due - now) }
  | none => timer

/-- Set the alarm and start; the count stays as it is. -/
def start (now alarmCount : Nat) : GpTimer :=
  match timer.due with
  | some due => { timer with due := some (due + alarmCount - timer.alarmCount), alarmCount }
  | none => { timer with due := some (now + (alarmCount - timer.rawCount)), alarmCount }

/-- Stop, set the count to 0, set the alarm and start. -/
def restart (now alarmCount : Nat) : GpTimer :=
  { due := some (now + alarmCount), alarmCount, rawCount := 0 }

end GpTimer

/-- What makes the bus active. -/
inductive Activity where
  | edge
  | write
  | syn
  deriving DecidableEq, Repr

structure SynTimer where
  now : Nat := 0
  synGen : Bool
  synBaseUs : Nat
  synUniqueUs : Nat
  lastActivityMicros : Nat := 0
  synIntentTime : Nat := 0
  synActive : Bool := false
  timer : GpTimer := {}
  /-- when the check of the software timer is due -/
  synPostpone : Option Nat := none
  /-- a byte whose handling has found the generator switched on, with the two intervals -/
  handling : Option (UInt8 × Nat × Nat) := none
  /-- a change of the configuration, with whether the generator was on before -/
  configuring : Option Bool := none
  log : List (Activity × Nat) := []
  deriving DecidableEq, Repr

namespace SynTimer

inductive Action where
  | pass (micros : Nat)
  | onFallingEdge
  | writeByte
  /-- the bus thread handles a byte, and sets the timer for it -/
  | readByte (byte : UInt8)
  | resetTimer
  | setRuntimeConfig (address : UInt8) (synGen : Bool)
  | applyConfig
  | onAlarm
  | onSynPostpone
  deriving DecidableEq, Repr

/-- Everything but a configuration that switches the generator on. -/
def Action.keepsOff : Action → Bool
  | .setRuntimeConfig _ synGen => !synGen
  | _ => true

variable (s : SynTimer)

def touch (activity : Activity) : SynTimer :=
  { s with lastActivityMicros := s.now, log := s.log ++ [(activity, s.now)] }

/-- A SYN is written, or a check is started; one that is under way is not started again. -/
def onSynGenTimer : SynTimer :=
  if s.now - s.lastActivityMicros < milliseconds carrierSenseMs then
    { s with synIntentTime := if s.synIntentTime = 0 then s.now else s.synIntentTime
             synPostpone := some (s.synPostpone.getD (s.now + milliseconds postponeMs)) }
  else { s.touch .syn with synIntentTime := 0, synActive := true }

def readByte (byte : UInt8) : SynTimer :=
  if s.synGen then { s with handling := some (byte, s.synBaseUs, s.synUniqueUs) } else s

def resetTimer : SynTimer :=
  match s.handling with
  | some (byte, base, unique) =>
      if s.synActive = true ∧ byte = Symbols.syn then
        { s with handling := none, timer := .restart s.now base }
      else { s with handling := none, synActive := false, timer := .restart s.now unique }
  | none => s

def setRuntimeConfig (address : UInt8) (synGen : Bool) : SynTimer :=
  { s with configuring := some s.synGen
           synGen
           synBaseUs := milliseconds baseMs
           synUniqueUs := SynGenerator.tUnique address }

def applyConfig : SynTimer :=
  match s.configuring with
  | some wasEnabled =>
      if s.synGen then
        if wasEnabled then { s with configuring := none, timer := .restart s.now s.synUniqueUs }
        else
          { s with configuring := none, synActive := false
                   timer := s.timer.start s.now s.synUniqueUs }
      else if wasEnabled then { s with configuring := none, timer := s.timer.stop s.now }
      else { s with configuring := none }
  | none => s

/-- One call at a time handles bytes, and one changes the configuration. -/
def step (s : SynTimer) : Action → SynTimer
  | .pass micros => { s with now := s.now + micros }
  | .onFallingEdge => s.touch .edge
  | .writeByte => s.touch .write
  | .readByte byte => if s.handling = none then s.readByte byte else s
  | .resetTimer => s.resetTimer
  | .setRuntimeConfig address synGen =>
      if s.configuring = none then s.setRuntimeConfig address synGen else s
  | .applyConfig => s.applyConfig
  | .onAlarm =>
      match s.timer.due with
      | some due =>
          if due ≤ s.now then
            let timer := { s.timer with due := some (due + s.timer.alarmCount) }
            { s with timer }.onSynGenTimer
          else s
      | none => s
  | .onSynPostpone =>
      match s.synPostpone with
      | some due => if due ≤ s.now then { s with synPostpone := none }.onSynGenTimer else s
      | none => s

end SynTimer

end Ebus
