import Ebus.Protocol.Symbols
import Ebus.Utils.JsonReader
import Ebus.Utils.JsonWriter

/-!
# The runtime configuration

`RuntimeConfig` with its defaults, `toJson` as the calls that it makes of the writer, and
`mergeFromJson` with a callback for each object of the text. `size_t` has 64 bits.
-/

namespace Ebus

open Chars (ofString)

namespace LogLevel

/-- The underlying type of the enumeration is `uint8_t`. -/
def toUInt8 : LogLevel → UInt8
  | .none => 0
  | .error => 1
  | .info => 2
  | .debug => 3

/-- `toString` of a level, which may come from a cast and be no enumerator. -/
def toString (level : UInt8) : List UInt8 :=
  if level = none.toUInt8 then ofString "none"
  else if level = error.toUInt8 then ofString "error"
  else if level = info.toUInt8 then ofString "info"
  else if level = debug.toUInt8 then ofString "debug"
  else ofString "unknown level"

end LogLevel

namespace RuntimeConfig

structure Bus where
  windowUs : UInt16 := 4300
  offsetUs : UInt16 := 80
  watchdogTimeoutMs : UInt32 := 250
  synGen : Bool := false
  deriving DecidableEq, Repr

structure Network where
  sessionTimeoutMs : UInt32 := 500
  transmitTimeoutMs : UInt32 := 250
  outboundBufferSize : UInt64 := 4096
  enableServer : Bool := false
  portRegular : UInt16 := 3333
  portReadonly : UInt16 := 3334
  portEnhanced : UInt16 := 3335
  deriving DecidableEq, Repr

structure Device where
  scanOnStartup : Bool := false
  initialDelayS : UInt32 := 10
  startupIntervalS : UInt32 := 60
  maxStartupScans : UInt8 := 5
  deriving DecidableEq, Repr

structure Scheduler where
  maxAttempts : UInt8 := 3
  baseBackoffMs : UInt32 := 100
  fsmTimeoutMs : UInt32 := 1000
  totalTimeoutMs : UInt32 := 2000
  maxItems : UInt64 := 8
  deriving DecidableEq, Repr

structure Poll where
  maxItems : UInt64 := 64
  deriving DecidableEq, Repr

end RuntimeConfig

structure RuntimeConfig where
  /-- the underlying value -/
  logLevel : UInt8 := LogLevel.error.toUInt8
  address : UInt8 := 0xff
  lockCounter : UInt8 := 3
  systemInquiry : Bool := false
  systemResponse : Bool := true
  bus : RuntimeConfig.Bus := {}
  network : RuntimeConfig.Network := {}
  device : RuntimeConfig.Device := {}
  scheduler : RuntimeConfig.Scheduler := {}
  poll : RuntimeConfig.Poll := {}
  deriving DecidableEq, Repr

namespace Integral

theorem bounds {n : Nat} (h : n < 2 ^ 64) :
    IntType.int64.min ≤ (n : Int) ∧ (n : Int) ≤ IntType.uint64.max := by
  have hmin : IntType.int64.min = -2 ^ 63 := rfl
  have hmax : IntType.uint64.max = 2 ^ 64 - 1 := rfl
  rw [hmin, hmax]
  omega

def ofNat (n : Nat) (h : n < 2 ^ 64) : Integral := ⟨n, (bounds h).1, (bounds h).2⟩

def ofUInt8 (n : UInt8) : Integral := ofNat n.toNat (Nat.lt_trans n.toNat_lt (by decide))
def ofUInt16 (n : UInt16) : Integral := ofNat n.toNat (Nat.lt_trans n.toNat_lt (by decide))
def ofUInt32 (n : UInt32) : Integral := ofNat n.toNat (Nat.lt_trans n.toNat_lt (by decide))
def ofUInt64 (n : UInt64) : Integral := ofNat n.toNat n.toNat_lt

end Integral

namespace RuntimeConfig

open JsonWriter

section Fields
variable (key : String)

def field (value : Scalar) : Call := .writeField (ofString key) value
def field8 (value : UInt8) : Call := field key (.integer (.ofUInt8 value))
def field16 (value : UInt16) : Call := field key (.integer (.ofUInt16 value))
def field32 (value : UInt32) : Call := field key (.integer (.ofUInt32 value))
def field64 (value : UInt64) : Call := field key (.integer (.ofUInt64 value))
def fieldBool (value : Bool) : Call := field key (.boolean value)

/-- The scope of an object: a key, its fields, and the end of it. -/
def scope (fields : List Call) : List Call :=
  [.appendKey (ofString key), .startObject] ++ fields ++ [.endObject]

end Fields

/-- The calls of the writer that `toJson` makes. -/
def toJson (c : RuntimeConfig) : List Call :=
  [.startObject,
    field "log_level" (.string (LogLevel.toString c.logLevel)),
    field8 "address" c.address,
    field8 "lock_counter" c.lockCounter,
    fieldBool "system_inquiry" c.systemInquiry,
    fieldBool "system_response" c.systemResponse] ++
  scope "bus"
    [field16 "window_us" c.bus.windowUs,
      field16 "offset_us" c.bus.offsetUs,
      field32 "watchdog_timeout_ms" c.bus.watchdogTimeoutMs,
      fieldBool "syn_gen" c.bus.synGen] ++
  scope "network"
    [field32 "session_timeout_ms" c.network.sessionTimeoutMs,
      field32 "transmit_timeout_ms" c.network.transmitTimeoutMs,
      field64 "outbound_buffer_size" c.network.outboundBufferSize,
      fieldBool "enable_server" c.network.enableServer,
      field16 "port_regular" c.network.portRegular,
      field16 "port_readonly" c.network.portReadonly,
      field16 "port_enhanced" c.network.portEnhanced] ++
  scope "device"
    [fieldBool "scan_on_startup" c.device.scanOnStartup,
      field32 "initial_delay_s" c.device.initialDelayS,
      field32 "startup_interval_s" c.device.startupIntervalS,
      field8 "max_startup_scans" c.device.maxStartupScans] ++
  scope "scheduler"
    [field8 "max_attempts" c.scheduler.maxAttempts,
      field32 "base_backoff_ms" c.scheduler.baseBackoffMs,
      field32 "fsm_timeout_ms" c.scheduler.fsmTimeoutMs,
      field32 "total_timeout_ms" c.scheduler.totalTimeoutMs] ++
  [.endObject]

/-- What a callback gives back: whether it took the value, and what it changed. -/
abbrev Taken := Bool × RuntimeConfig × JsonReader

section Callbacks
variable (c : RuntimeConfig) (r : JsonReader)

/-- A number in the range of its type; `set` is not called for anything else. -/
def takeNumber (type : IntType) (set : Int → RuntimeConfig) : Taken :=
  let r := r.next.2
  match r.asNumStrict type with
  | some value => (true, set value, r)
  | none => (false, c, r)

def takeBool (set : Bool → RuntimeConfig) : Taken :=
  let r := r.next.2
  (true, set r.asBool, r)

/-- A nested object; any other value is passed over. -/
def takeObject (func : List UInt8 → RuntimeConfig → JsonReader → Taken) : Taken :=
  let (token, r) := r.next
  if token = .objectStart then
    let (c, r) := r.forEachField func c
    (true, c, r)
  else (true, c, r)

def takeLogLevel : Taken :=
  let (token, r) := r.next
  if token = .number then
    match r.asNumStrict .int32 with
    | some value => (true, { c with logLevel := UInt8.ofInt value }, r)
    | none => (false, c, r)
  else if token = .string then
    if r.value = ofString "none" then (true, { c with logLevel := LogLevel.none.toUInt8 }, r)
    else if r.value = ofString "error" then (true, { c with logLevel := LogLevel.error.toUInt8 }, r)
    else if r.value = ofString "info" then (true, { c with logLevel := LogLevel.info.toUInt8 }, r)
    else if r.value = ofString "debug" then (true, { c with logLevel := LogLevel.debug.toUInt8 }, r)
    else (false, c, r)
  else (false, c, r)

-- what a callback does with a key is one of these
attribute [irreducible] takeNumber takeBool takeObject takeLogLevel

def busField (key : List UInt8) : Taken :=
  if key = ofString "window_us" then
    takeNumber c r .uint16 fun value => { c with bus.windowUs := UInt16.ofInt value }
  else if key = ofString "offset_us" then
    takeNumber c r .uint16 fun value => { c with bus.offsetUs := UInt16.ofInt value }
  else if key = ofString "watchdog_timeout_ms" then
    takeNumber c r .uint32 fun value => { c with bus.watchdogTimeoutMs := UInt32.ofInt value }
  else if key = ofString "syn_gen" then
    takeBool r fun value => { c with bus.synGen := value }
  else (false, c, r)

def networkField (key : List UInt8) : Taken :=
  if key = ofString "session_timeout_ms" then
    takeNumber c r .uint32 fun value => { c with network.sessionTimeoutMs := UInt32.ofInt value }
  else if key = ofString "transmit_timeout_ms" then
    takeNumber c r .uint32 fun value => { c with network.transmitTimeoutMs := UInt32.ofInt value }
  else if key = ofString "outbound_buffer_size" then
    takeNumber c r .uint64 fun value => { c with network.outboundBufferSize := UInt64.ofInt value }
  else if key = ofString "enable_server" then
    takeBool r fun value => { c with network.enableServer := value }
  else if key = ofString "port_regular" then
    takeNumber c r .uint16 fun value => { c with network.portRegular := UInt16.ofInt value }
  else if key = ofString "port_readonly" then
    takeNumber c r .uint16 fun value => { c with network.portReadonly := UInt16.ofInt value }
  else if key = ofString "port_enhanced" then
    takeNumber c r .uint16 fun value => { c with network.portEnhanced := UInt16.ofInt value }
  else (false, c, r)

def deviceField (key : List UInt8) : Taken :=
  if key = ofString "scan_on_startup" then
    takeBool r fun value => { c with device.scanOnStartup := value }
  else if key = ofString "initial_delay_s" then
    takeNumber c r .uint32 fun value => { c with device.initialDelayS := UInt32.ofInt value }
  else if key = ofString "startup_interval_s" then
    takeNumber c r .uint32 fun value => { c with device.startupIntervalS := UInt32.ofInt value }
  else if key = ofString "max_startup_scans" then
    takeNumber c r .int32 fun value => { c with device.maxStartupScans := UInt8.ofInt value }
  else (false, c, r)

def schedulerField (key : List UInt8) : Taken :=
  if key = ofString "max_attempts" then
    takeNumber c r .int32 fun value => { c with scheduler.maxAttempts := UInt8.ofInt value }
  else if key = ofString "base_backoff_ms" then
    takeNumber c r .uint32 fun value => { c with scheduler.baseBackoffMs := UInt32.ofInt value }
  else if key = ofString "fsm_timeout_ms" then
    takeNumber c r .uint32 fun value => { c with scheduler.fsmTimeoutMs := UInt32.ofInt value }
  else if key = ofString "total_timeout_ms" then
    takeNumber c r .uint32 fun value => { c with scheduler.totalTimeoutMs := UInt32.ofInt value }
  else (false, c, r)

def rootField (key : List UInt8) : Taken :=
  if key = ofString "log_level" then takeLogLevel c r
  else if key = ofString "address" then
    takeNumber c r .int32 fun value => { c with address := UInt8.ofInt value }
  else if key = ofString "lock_counter" then
    takeNumber c r .int32 fun value => { c with lockCounter := UInt8.ofInt value }
  else if key = ofString "system_inquiry" then
    takeBool r fun value => { c with systemInquiry := value }
  else if key = ofString "system_response" then
    takeBool r fun value => { c with systemResponse := value }
  else if key = ofString "bus" then takeObject c r fun key c r => busField c r key
  else if key = ofString "network" then takeObject c r fun key c r => networkField c r key
  else if key = ofString "device" then takeObject c r fun key c r => deviceField c r key
  else if key = ofString "scheduler" then takeObject c r fun key c r => schedulerField c r key
  else (false, c, r)

end Callbacks

def mergeFromJson (c : RuntimeConfig) (json : List UInt8) : Bool × RuntimeConfig :=
  let (token, r) := (JsonReader.ofText json).next
  if token = .objectStart then (true, (r.forEachField (fun key c r => rootField c r key) c).1)
  else (false, c)

def fromJson (json : List UInt8) : RuntimeConfig := (mergeFromJson {} json).2

end RuntimeConfig

end Ebus
