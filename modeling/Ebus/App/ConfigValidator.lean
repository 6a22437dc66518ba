import Ebus.App.Config

/-!
# Validation of a configuration

`ConfigValidator` checks a configuration and, on its own, a text that is to be merged into one. The
file name of the bus is checked on POSIX systems only, apart from the simulation.
-/

namespace Ebus

open Chars (ofString)

namespace RequestLimits

def lockCounterMax : UInt8 := 25

end RequestLimits

namespace BusLimits

def windowMinUs : UInt16 := 4000
def windowMaxUs : UInt16 := 5000
def offsetMaxUs : UInt16 := 500

end BusLimits

structure BusConfig where
  device : List UInt8 := ofString "/dev/null"
  deriving DecidableEq, Repr

structure EbusConfig where
  runtime : RuntimeConfig := {}
  bus : BusConfig := {}
  deriving DecidableEq, Repr

namespace ConfigValidator

def validateBus (bus : RuntimeConfig.Bus) : Bool :=
  BusLimits.windowMinUs ≤ bus.windowUs && bus.windowUs ≤ BusLimits.windowMaxUs &&
    bus.offsetUs ≤ BusLimits.offsetMaxUs && bus.watchdogTimeoutMs ≠ 0

/-- The sum of the timeouts is one of 32 bits. -/
def validateScheduler (scheduler : RuntimeConfig.Scheduler) : Bool :=
  1 ≤ scheduler.maxAttempts && scheduler.baseBackoffMs ≠ 0 && scheduler.fsmTimeoutMs ≠ 0 &&
    scheduler.fsmTimeoutMs < scheduler.totalTimeoutMs &&
    scheduler.fsmTimeoutMs + scheduler.baseBackoffMs ≤ scheduler.totalTimeoutMs

def validatePorts (network : RuntimeConfig.Network) : Bool :=
  network.portRegular ≠ 0 && network.portReadonly ≠ 0 && network.portEnhanced ≠ 0 &&
    network.portRegular ≠ network.portReadonly && network.portRegular ≠ network.portEnhanced &&
    network.portReadonly ≠ network.portEnhanced

def validateNetwork (network : RuntimeConfig.Network) : Bool :=
  network.outboundBufferSize ≠ 0 && network.sessionTimeoutMs ≠ 0 &&
    network.transmitTimeoutMs ≠ 0 && (!network.enableServer || validatePorts network)

def validate (posix : Bool) (config : EbusConfig) : Bool :=
  let r := config.runtime
  isMaster r.address && r.lockCounter ≤ RequestLimits.lockCounterMax && validateBus r.bus &&
    validateScheduler r.scheduler && validateNetwork r.network &&
    (!posix || config.bus.device ≠ [])

section Text
variable (type : IntType) (json : List UInt8) (path : String) (ok : Int → Bool)

/-- A number at the path, parsed strictly, has to pass the check. -/
def strictNumber : Bool :=
  let (token, r) := JsonReader.get json (ofString path)
  if token = .number then (r.asNumStrict type).any ok else true

/-- A number or a string. -/
def strictScalar : Bool :=
  let (token, r) := JsonReader.get json (ofString path)
  if token = .number ∨ token = .string then (r.asNumStrict type).any ok else true

/-- A number, as far as it can be parsed. -/
def number : Bool :=
  let (token, r) := JsonReader.get json (ofString path)
  if token = .number then ok (r.asNum type) else true

end Text

/-- The number of values of a `uint32_t`. -/
def wrap : Int := 2 ^ 32

end ConfigValidator

end Ebus
