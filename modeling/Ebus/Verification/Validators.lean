import Ebus.App.ConfigValidator
import Ebus.Verification.Merging
import Ebus.Verification.Navigation
import Ebus.Verification.Numerals

/-!
# The two validators

The text is checked on its own, before it is merged. What that ensures is the rule of each field
whose last member is the one that `get` finds, given in a form that `validateJson` looks at and in
the range of the field. The check takes a number for an `int` that the merge casts to a byte, and no
string for most fields. The rules on several fields depend on the configuration that the text is
merged into.
-/

namespace Ebus

open Json
open JsonReader
open Chars (ofString)

namespace RuntimeConfig

namespace Field

/-- The rule of a field alone. -/
def Valid : Field → Int → Prop
  | .address, n => isMaster (UInt8.ofInt n) = true
  | .lockCounter, n => n ≤ RequestLimits.lockCounterMax.toNat
  | .windowUs, n => BusLimits.windowMinUs.toNat ≤ n ∧ n ≤ BusLimits.windowMaxUs.toNat
  | .offsetUs, n => n ≤ BusLimits.offsetMaxUs.toNat
  | .maxAttempts, n => 1 ≤ n
  | .watchdogTimeoutMs, n | .baseBackoffMs, n | .fsmTimeoutMs, n | .outboundBufferSize, n
  | .sessionTimeoutMs, n | .transmitTimeoutMs, n => n ≠ 0
  | _, _ => True

instance : (f : Field) → (n : Int) → Decidable (f.Valid n)
  | .address, n => inferInstanceAs (Decidable (isMaster (UInt8.ofInt n) = true))
  | .lockCounter, n => inferInstanceAs (Decidable (n ≤ RequestLimits.lockCounterMax.toNat))
  | .windowUs, n =>
      inferInstanceAs
        (Decidable (BusLimits.windowMinUs.toNat ≤ n ∧ n ≤ BusLimits.windowMaxUs.toNat))
  | .offsetUs, n => inferInstanceAs (Decidable (n ≤ BusLimits.offsetMaxUs.toNat))
  | .maxAttempts, n => inferInstanceAs (Decidable (1 ≤ n))
  | .watchdogTimeoutMs, n | .baseBackoffMs, n | .fsmTimeoutMs, n | .outboundBufferSize, n
  | .sessionTimeoutMs, n | .transmitTimeoutMs, n => inferInstanceAs (Decidable (n ≠ 0))
  | .logLevel, _ | .systemInquiry, _ | .systemResponse, _ | .synGen, _ | .enableServer, _
  | .portRegular, _ | .portReadonly, _ | .portEnhanced, _ | .scanOnStartup, _ | .initialDelayS, _
  | .startupIntervalS, _ | .maxStartupScans, _ | .totalTimeoutMs, _ => .isTrue trivial

/-- The names that lead to the field. -/
def route (f : Field) : List (List UInt8) :=
  match f.inSection with
  | none => [f.name]
  | some s => [s.name, f.name]

/-- The path that `get` is called with. -/
def path (f : Field) : List UInt8 :=
  match f.inSection with
  | none => f.name
  | some s => s.name ++ 0x2e :: f.name

/-- The values that are checked in a text. -/
def Examines : Field → Document .value → Prop
  | _, .number _ => True
  | .address, .string _ | .windowUs, .string _ | .offsetUs, .string _ => True
  | _, _ => False

/-- The last member at the path is the one that `get` finds, its value is checked, and the field
holds it as it is. -/
def Examined (f : Field) (members : Document .members) : Prop :=
  ∀ v, (f.values members).getLast? = some v →
    (Document.object members).follow parseIndex f.route = some v ∧ f.Examines v ∧
      ∀ n, f.parse v = some n → f.Holds n

/-- The value of the field after the merge. -/
def merged (f : Field) (c : RuntimeConfig) (members : Document .members) : Int :=
  f.stored (f.values members) (f.get c)

end Field

section Rules
variable (value : Field → Int)

/-- The total timeout leaves room for an attempt and the pause behind it; the sum wraps. -/
def TimeoutsFit : Prop :=
  value .fsmTimeoutMs < value .totalTimeoutMs ∧
    (value .fsmTimeoutMs + value .baseBackoffMs) % ConfigValidator.wrap ≤ value .totalTimeoutMs

/-- The ports of a server are there and distinct. -/
def PortsFit : Prop :=
  value .enableServer = 1 →
    value .portRegular ≠ 0 ∧ value .portReadonly ≠ 0 ∧ value .portEnhanced ≠ 0 ∧
      value .portRegular ≠ value .portReadonly ∧ value .portRegular ≠ value .portEnhanced ∧
      value .portReadonly ≠ value .portEnhanced

end Rules

end RuntimeConfig

namespace ConfigValidator

open RuntimeConfig

section Text
variable {json : List UInt8} {path : String} {type : IntType} {ok : Int → Bool}
variable {text : List UInt8} {n : Int}

/-- What `get` is in front of is a number or a string with this text. -/
structure Shows (token : Token) (text : List UInt8) (result : Token × JsonReader) : Prop where
  token : result.1 = token
  value : result.2.value = text

end Text

/-- The check of a field alone. -/
def check (json : List UInt8) : Field → Bool
  | .address => strictScalar .int32 json "address" fun value => isMaster (UInt8.ofInt value)
  | .lockCounter => strictNumber .int32 json "lock_counter"
      fun value => value ≤ RequestLimits.lockCounterMax.toNat
  | .windowUs => strictScalar .int32 json "bus.window_us" fun value =>
      BusLimits.windowMinUs.toNat ≤ value && value ≤ BusLimits.windowMaxUs.toNat
  | .offsetUs => strictScalar .int32 json "bus.offset_us"
      fun value => value ≤ BusLimits.offsetMaxUs.toNat
  | .watchdogTimeoutMs => number .int32 json "bus.watchdog_timeout_ms" fun value => value ≠ 0
  | .maxAttempts => number .int32 json "scheduler.max_attempts" fun value => 1 ≤ value
  | .baseBackoffMs => number .uint32 json "scheduler.base_backoff_ms" fun value => value ≠ 0
  | .fsmTimeoutMs => number .uint32 json "scheduler.fsm_timeout_ms" fun value => value ≠ 0
  | .outboundBufferSize =>
      number .uint64 json "network.outbound_buffer_size" fun value => value ≠ 0
  | .sessionTimeoutMs => number .uint32 json "network.session_timeout_ms" fun value => value ≠ 0
  | .transmitTimeoutMs => number .uint32 json "network.transmit_timeout_ms" fun value => value ≠ 0
  | _ => true

section Examined
variable {json : List UInt8} {members : Document .members} {f : Field} {v : Document .value}
variable {n : Int}

end Examined

section Merged
variable {members : Document .members} {f : Field} {v : Document .value} {c : RuntimeConfig}
variable {n : Int}

end Merged

/-- The configuration with the text merged into it. -/
def merge (config : EbusConfig) (json : List UInt8) : EbusConfig :=
  { config with runtime := (config.runtime.mergeFromJson json).2 }

/-- The text is one of an object whose members can be parsed for the fields, and the values that it
leads to have the rules that a check of the text does not ensure. -/
structure Agrees (c : RuntimeConfig) (json : List UInt8) (members : Document .members) : Prop where
  text : IsText json (.object members)
  parseable : Parseable members
  unexamined : ∀ f : Field, ¬ f.Examined members → f.Valid (f.merged c members)
  timeouts : TimeoutsFit fun f => f.merged c members
  ports : PortsFit fun f => f.merged c members

end ConfigValidator

end Ebus
