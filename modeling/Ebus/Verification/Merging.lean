import Ebus.App.Config
import Ebus.Verification.Pieces
import Ebus.Verification.Writing

/-!
# Merging a text into the configuration

The fields of the configuration with their paths, what each of them can take, and the callbacks of
`mergeFromJson` in these terms. As long as the members at the paths of the fields can be parsed, each
of them sets its field and nothing else is touched (`stores_mergeFromJson`). What is parsed need not
be in the range of the field; where it is, the field holds it as it is.
-/

namespace Ebus

open Json
open JsonReader
open Chars (ofString)

namespace RuntimeConfig

inductive Field where
  | logLevel
  | address
  | lockCounter
  | systemInquiry
  | systemResponse
  | windowUs
  | offsetUs
  | watchdogTimeoutMs
  | synGen
  | sessionTimeoutMs
  | transmitTimeoutMs
  | outboundBufferSize
  | enableServer
  | portRegular
  | portReadonly
  | portEnhanced
  | scanOnStartup
  | initialDelayS
  | startupIntervalS
  | maxStartupScans
  | maxAttempts
  | baseBackoffMs
  | fsmTimeoutMs
  | totalTimeoutMs
  deriving DecidableEq, Repr

/-- The objects that fields are in. -/
inductive Section where
  | bus
  | network
  | device
  | scheduler
  deriving DecidableEq, Repr

def Section.name : Section → List UInt8
  | .bus => ofString "bus"
  | .network => ofString "network"
  | .device => ofString "device"
  | .scheduler => ofString "scheduler"

def Section.func : Section → List UInt8 → RuntimeConfig → JsonReader → Taken
  | .bus, key, c, r => busField c r key
  | .network, key, c, r => networkField c r key
  | .device, key, c, r => deviceField c r key
  | .scheduler, key, c, r => schedulerField c r key

/-- How a field is read. -/
inductive Kind where
  | level
  | number (type : IntType)
  | bool
  deriving DecidableEq, Repr

namespace Field

def inSection : Field → Option Section
  | .logLevel | .address | .lockCounter | .systemInquiry | .systemResponse => none
  | .windowUs | .offsetUs | .watchdogTimeoutMs | .synGen => some .bus
  | .sessionTimeoutMs | .transmitTimeoutMs | .outboundBufferSize | .enableServer
  | .portRegular | .portReadonly | .portEnhanced => some .network
  | .scanOnStartup | .initialDelayS | .startupIntervalS | .maxStartupScans => some .device
  | .maxAttempts | .baseBackoffMs | .fsmTimeoutMs | .totalTimeoutMs => some .scheduler

def name : Field → List UInt8
  | .logLevel => ofString "log_level"
  | .address => ofString "address"
  | .lockCounter => ofString "lock_counter"
  | .systemInquiry => ofString "system_inquiry"
  | .systemResponse => ofString "system_response"
  | .windowUs => ofString "window_us"
  | .offsetUs => ofString "offset_us"
  | .watchdogTimeoutMs => ofString "watchdog_timeout_ms"
  | .synGen => ofString "syn_gen"
  | .sessionTimeoutMs => ofString "session_timeout_ms"
  | .transmitTimeoutMs => ofString "transmit_timeout_ms"
  | .outboundBufferSize => ofString "outbound_buffer_size"
  | .enableServer => ofString "enable_server"
  | .portRegular => ofString "port_regular"
  | .portReadonly => ofString "port_readonly"
  | .portEnhanced => ofString "port_enhanced"
  | .scanOnStartup => ofString "scan_on_startup"
  | .initialDelayS => ofString "initial_delay_s"
  | .startupIntervalS => ofString "startup_interval_s"
  | .maxStartupScans => ofString "max_startup_scans"
  | .maxAttempts => ofString "max_attempts"
  | .baseBackoffMs => ofString "base_backoff_ms"
  | .fsmTimeoutMs => ofString "fsm_timeout_ms"
  | .totalTimeoutMs => ofString "total_timeout_ms"

/-- The type that the number is parsed as. -/
def kind : Field → Kind
  | .logLevel => .level
  | .address | .lockCounter | .maxStartupScans | .maxAttempts => .number .int32
  | .windowUs | .offsetUs | .portRegular | .portReadonly | .portEnhanced => .number .uint16
  | .watchdogTimeoutMs | .sessionTimeoutMs | .transmitTimeoutMs | .initialDelayS
  | .startupIntervalS | .baseBackoffMs | .fsmTimeoutMs | .totalTimeoutMs => .number .uint32
  | .outboundBufferSize => .number .uint64
  | .systemInquiry | .systemResponse | .synGen | .enableServer | .scanOnStartup => .bool

/-- The number of values of the field's type. -/
def bound : Field → Int
  | .logLevel | .address | .lockCounter | .maxStartupScans | .maxAttempts => 2 ^ 8
  | .windowUs | .offsetUs | .portRegular | .portReadonly | .portEnhanced => 2 ^ 16
  | .watchdogTimeoutMs | .sessionTimeoutMs | .transmitTimeoutMs | .initialDelayS
  | .startupIntervalS | .baseBackoffMs | .fsmTimeoutMs | .totalTimeoutMs => 2 ^ 32
  | .outboundBufferSize => 2 ^ 64
  | .systemInquiry | .systemResponse | .synGen | .enableServer | .scanOnStartup => 2

/-- The value of a field as a number; `true` is one. -/
def get : Field → RuntimeConfig → Int
  | .logLevel, c => c.logLevel.toNat
  | .address, c => c.address.toNat
  | .lockCounter, c => c.lockCounter.toNat
  | .systemInquiry, c => c.systemInquiry.toInt
  | .systemResponse, c => c.systemResponse.toInt
  | .windowUs, c => c.bus.windowUs.toNat
  | .offsetUs, c => c.bus.offsetUs.toNat
  | .watchdogTimeoutMs, c => c.bus.watchdogTimeoutMs.toNat
  | .synGen, c => c.bus.synGen.toInt
  | .sessionTimeoutMs, c => c.network.sessionTimeoutMs.toNat
  | .transmitTimeoutMs, c => c.network.transmitTimeoutMs.toNat
  | .outboundBufferSize, c => c.network.outboundBufferSize.toNat
  | .enableServer, c => c.network.enableServer.toInt
  | .portRegular, c => c.network.portRegular.toNat
  | .portReadonly, c => c.network.portReadonly.toNat
  | .portEnhanced, c => c.network.portEnhanced.toNat
  | .scanOnStartup, c => c.device.scanOnStartup.toInt
  | .initialDelayS, c => c.device.initialDelayS.toNat
  | .startupIntervalS, c => c.device.startupIntervalS.toNat
  | .maxStartupScans, c => c.device.maxStartupScans.toNat
  | .maxAttempts, c => c.scheduler.maxAttempts.toNat
  | .baseBackoffMs, c => c.scheduler.baseBackoffMs.toNat
  | .fsmTimeoutMs, c => c.scheduler.fsmTimeoutMs.toNat
  | .totalTimeoutMs, c => c.scheduler.totalTimeoutMs.toNat

/-- The cast to the type of the field, stored. -/
def set : Field → Int → RuntimeConfig → RuntimeConfig
  | .logLevel, n, c => { c with logLevel := UInt8.ofInt n }
  | .address, n, c => { c with address := UInt8.ofInt n }
  | .lockCounter, n, c => { c with lockCounter := UInt8.ofInt n }
  | .systemInquiry, n, c => { c with systemInquiry := decide (n ≠ 0) }
  | .systemResponse, n, c => { c with systemResponse := decide (n ≠ 0) }
  | .windowUs, n, c => { c with bus.windowUs := UInt16.ofInt n }
  | .offsetUs, n, c => { c with bus.offsetUs := UInt16.ofInt n }
  | .watchdogTimeoutMs, n, c => { c with bus.watchdogTimeoutMs := UInt32.ofInt n }
  | .synGen, n, c => { c with bus.synGen := decide (n ≠ 0) }
  | .sessionTimeoutMs, n, c => { c with network.sessionTimeoutMs := UInt32.ofInt n }
  | .transmitTimeoutMs, n, c => { c with network.transmitTimeoutMs := UInt32.ofInt n }
  | .outboundBufferSize, n, c => { c with network.outboundBufferSize := UInt64.ofInt n }
  | .enableServer, n, c => { c with network.enableServer := decide (n ≠ 0) }
  | .portRegular, n, c => { c with network.portRegular := UInt16.ofInt n }
  | .portReadonly, n, c => { c with network.portReadonly := UInt16.ofInt n }
  | .portEnhanced, n, c => { c with network.portEnhanced := UInt16.ofInt n }
  | .scanOnStartup, n, c => { c with device.scanOnStartup := decide (n ≠ 0) }
  | .initialDelayS, n, c => { c with device.initialDelayS := UInt32.ofInt n }
  | .startupIntervalS, n, c => { c with device.startupIntervalS := UInt32.ofInt n }
  | .maxStartupScans, n, c => { c with device.maxStartupScans := UInt8.ofInt n }
  | .maxAttempts, n, c => { c with scheduler.maxAttempts := UInt8.ofInt n }
  | .baseBackoffMs, n, c => { c with scheduler.baseBackoffMs := UInt32.ofInt n }
  | .fsmTimeoutMs, n, c => { c with scheduler.fsmTimeoutMs := UInt32.ofInt n }
  | .totalTimeoutMs, n, c => { c with scheduler.totalTimeoutMs := UInt32.ofInt n }

/-- What the callback for the field does. -/
def take (f : Field) (c : RuntimeConfig) (r : JsonReader) : Taken :=
  match f.kind with
  | .level => takeLogLevel c r
  | .number type => takeNumber c r type fun n => f.set n c
  | .bool => takeBool r fun value => f.set value.toInt c

/-- The type of the field holds the number. -/
def Holds (f : Field) (n : Int) : Prop := 0 ≤ n ∧ n < f.bound

theorem toNat_emod_emod (n : Int) (bits : Nat) :
    (((n % 2 ^ bits).toNat % 2 ^ bits : Nat) : Int) = n % 2 ^ bits := by
  have hpos : (0 : Int) < 2 ^ bits := Int.pow_pos (by decide)
  have hcast : ((2 ^ bits : Nat) : Int) = 2 ^ bits := by simp
  rw [Int.natCast_emod, Int.toNat_of_nonneg (Int.emod_nonneg n (Int.ne_of_gt hpos)), hcast]
  exact Int.emod_emod_of_dvd n (Int.dvd_refl _)

/-- A number is stored up to a multiple of the bound. -/
theorem get_set_emod (f : Field) (n : Int) (c : RuntimeConfig) (h : f.kind ≠ .bool) :
    f.get (f.set n c) = n % f.bound := by
  have h8 : ((UInt8.ofInt n).toNat : Int) = n % 2 ^ 8 := by
    rw [UInt8.ofInt, UInt8.toNat_ofNat']
    exact toNat_emod_emod n 8
  have h16 : ((UInt16.ofInt n).toNat : Int) = n % 2 ^ 16 := by
    rw [UInt16.ofInt, UInt16.toNat_ofNat']
    exact toNat_emod_emod n 16
  have h32 : ((UInt32.ofInt n).toNat : Int) = n % 2 ^ 32 := by
    rw [UInt32.ofInt, UInt32.toNat_ofNat']
    exact toNat_emod_emod n 32
  have h64 : ((UInt64.ofInt n).toNat : Int) = n % 2 ^ 64 := by
    rw [UInt64.ofInt, UInt64.toNat_ofNat']
    exact toNat_emod_emod n 64
  cases f <;> first | exact absurd rfl h | exact h8 | exact h16 | exact h32 | exact h64

/-- A value in the range of the field is held as it is. -/
theorem get_set {f : Field} {n : Int} (h : f.Holds n) (c : RuntimeConfig) :
    f.get (f.set n c) = n := by
  by_cases hkind : f.kind = .bool
  · have hbool (h : 0 ≤ n ∧ n < 2) : (decide (n ≠ 0)).toInt = n := by
      obtain rfl | rfl : n = 0 ∨ n = 1 := by omega
      · rfl
      · rfl
    cases f <;> first | exact hbool h | cases hkind
  · rw [get_set_emod f n c hkind]
    exact Int.emod_eq_of_lt h.1 h.2

/-- The other fields keep their values. -/
theorem get_set_of_ne {f g : Field} (h : f ≠ g) (n : Int) (c : RuntimeConfig) :
    f.get (g.set n c) = f.get c := by
  cases g <;> cases f <;> first | rfl | exact absurd rfl h

def all : List Field :=
  [.logLevel, .address, .lockCounter, .systemInquiry, .systemResponse, .windowUs, .offsetUs,
    .watchdogTimeoutMs, .synGen, .sessionTimeoutMs, .transmitTimeoutMs, .outboundBufferSize,
    .enableServer, .portRegular, .portReadonly, .portEnhanced, .scanOnStartup, .initialDelayS,
    .startupIntervalS, .maxStartupScans, .maxAttempts, .baseBackoffMs, .fsmTimeoutMs,
    .totalTimeoutMs]

theorem mem_all (f : Field) : f ∈ all := by
  cases f <;> decide

instance decidableForall {P : Field → Prop} [DecidablePred P] : Decidable (∀ f, P f) :=
  decidable_of_iff (∀ f ∈ all, P f) ⟨fun h f => h f f.mem_all, fun h f _ => h f⟩

/-- No two keys are equal, not even in different sections. -/
theorem nodup_names : (all.map name).Nodup := by decide +kernel

theorem eq_of_name {f g : Field} (h : f.name = g.name) : f = g :=
  List.inj_on_of_nodup_map nodup_names f.mem_all g.mem_all h

end Field

/-- In its section a field's name is the key that its callback is for. -/
theorem func_name {s : Section} {f : Field} (h : f.inSection = some s) (c : RuntimeConfig)
    (r : JsonReader) : s.func f.name c r = f.take c r := by
  cases f <;> cases h <;>
    first | rfl | exact congrArg (takeBool r) (funext fun value => by cases value <;> rfl)

theorem func_other {s : Section} {key : List UInt8}
    (h : ∀ f : Field, f.inSection = some s → key ≠ f.name) (c : RuntimeConfig) (r : JsonReader) :
    s.func key c r = (false, c, r) := by
  cases s with
  | bus =>
      exact (if_neg (h .windowUs rfl)).trans <| (if_neg (h .offsetUs rfl)).trans <|
        (if_neg (h .watchdogTimeoutMs rfl)).trans (if_neg (h .synGen rfl))
  | network =>
      exact (if_neg (h .sessionTimeoutMs rfl)).trans <|
        (if_neg (h .transmitTimeoutMs rfl)).trans <|
        (if_neg (h .outboundBufferSize rfl)).trans <| (if_neg (h .enableServer rfl)).trans <|
        (if_neg (h .portRegular rfl)).trans <| (if_neg (h .portReadonly rfl)).trans
          (if_neg (h .portEnhanced rfl))
  | device =>
      exact (if_neg (h .scanOnStartup rfl)).trans <| (if_neg (h .initialDelayS rfl)).trans <|
        (if_neg (h .startupIntervalS rfl)).trans (if_neg (h .maxStartupScans rfl))
  | scheduler =>
      exact (if_neg (h .maxAttempts rfl)).trans <| (if_neg (h .baseBackoffMs rfl)).trans <|
        (if_neg (h .fsmTimeoutMs rfl)).trans (if_neg (h .totalTimeoutMs rfl))

theorem rootField_name {f : Field} (h : f.inSection = none) (c : RuntimeConfig)
    (r : JsonReader) : rootField c r f.name = f.take c r := by
  cases f <;> cases h <;>
    first | rfl | exact congrArg (takeBool r) (funext fun value => by cases value <;> rfl)

theorem rootField_section (s : Section) (c : RuntimeConfig) (r : JsonReader) :
    rootField c r s.name = takeObject c r s.func := by
  cases s <;> rfl

theorem rootField_other {key : List UInt8} (h : ∀ f : Field, f.inSection = none → key ≠ f.name)
    (h' : ∀ s : Section, key ≠ s.name) (c : RuntimeConfig) (r : JsonReader) :
    rootField c r key = (false, c, r) :=
  (if_neg (h .logLevel rfl)).trans <| (if_neg (h .address rfl)).trans <|
    (if_neg (h .lockCounter rfl)).trans <| (if_neg (h .systemInquiry rfl)).trans <|
    (if_neg (h .systemResponse rfl)).trans <| (if_neg (h' .bus)).trans <|
    (if_neg (h' .network)).trans <| (if_neg (h' .device)).trans (if_neg (h' .scheduler))

/-- A number, or a string that is parsed as one. -/
def numberOf (type : IntType) (v : Document .value) : Option Int :=
  if isScalar v then Chars.toNumStrict type (firstReport v).2 else none

/-- A number, or the name of a level. -/
def levelOf : Document .value → Option Int
  | .number text => Chars.toNumStrict .int32 text
  | .string s =>
      if s = ofString "none" then some 0
      else if s = ofString "error" then some 1
      else if s = ofString "info" then some 2
      else if s = ofString "debug" then some 3
      else none
  | _ => none

def boolOf : Document .value → Option Int
  | .bool value => some value.toInt
  | _ => none

/-- The value that is usable for the field. -/
def Field.read (f : Field) (v : Document .value) : Option Int :=
  match f.kind with
  | .level => levelOf v
  | .number type => numberOf type v
  | .bool => boolOf v

/-- What the callback for the field makes of a value; any scalar will do for a boolean. -/
def Field.parse (f : Field) (v : Document .value) : Option Int :=
  match f.kind with
  | .level => levelOf v
  | .number type => numberOf type v
  | .bool => if isScalar v then some (decide ((firstReport v).2 = Lexeme.trueText)).toInt else none

/-- A usable value in the range of the field. -/
def Field.Takes (f : Field) (v : Document .value) : Prop := ∃ n, f.read v = some n ∧ f.Holds n

instance (f : Field) (n : Int) : Decidable (f.Holds n) :=
  inferInstanceAs (Decidable (0 ≤ n ∧ n < f.bound))

instance (f : Field) (v : Document .value) : Decidable (f.Takes v) :=
  match hread : f.read v with
  | some n => decidable_of_iff (f.Holds n) (by simp [Field.Takes, hread])
  | none => .isFalse (by simp [Field.Takes, hread])

section Taking
variable {c : RuntimeConfig} {r : JsonReader} {v : Document .value} {rest : List Piece} {n : Int}

theorem isScalar_of_numberOf {type : IntType} (h : numberOf type v = some n) :
    isScalar v = true := by
  rw [numberOf] at h
  split at h
  · assumption
  · cases h

/-- What a callback parses of a scalar, whether it can use it or not. -/
theorem asNumStrict_next (type : IntType) (h : Sees r (.value v :: rest))
    (hv : isScalar v = true) :
    r.next.2.asNumStrict type = numberOf type v ∧ Sees r.next.2 rest := by
  obtain ⟨r', hnext, hvalue, hsees⟩ := h.exists_next hv
  rw [hnext]
  refine ⟨?_, hsees⟩
  rw [numberOf, if_pos hv, ← hvalue]
  rfl

theorem takeNumber_read {type : IntType} {set : Int → RuntimeConfig} (h : Sees r (.value v :: rest))
    (hread : numberOf type v = some n) :
    ∃ r', takeNumber c r type set = (true, set n, r') ∧ Sees r' rest := by
  obtain ⟨hparse, hrest⟩ := asNumStrict_next type h (isScalar_of_numberOf hread)
  refine ⟨r.next.2, ?_, hrest⟩
  simp only [takeNumber, hparse, hread]

theorem takeBool_scalar {set : Bool → RuntimeConfig} (h : Sees r (.value v :: rest))
    (hv : isScalar v = true) :
    ∃ r', takeBool r set = (true, set (decide ((firstReport v).2 = Lexeme.trueText)), r') ∧
      Sees r' rest := by
  obtain ⟨r', hnext, hvalue, hsees⟩ := h.exists_next hv
  refine ⟨r', ?_, hsees⟩
  simp only [takeBool, hnext, asBool, hvalue]

theorem levelOf_string {s : List UInt8} (h : levelOf (.string s) = some n) :
    (s = ofString "none" ∧ n = 0) ∨ (s = ofString "error" ∧ n = 1) ∨
      (s = ofString "info" ∧ n = 2) ∨ (s = ofString "debug" ∧ n = 3) := by
  rw [levelOf] at h
  by_cases hnone : s = ofString "none"
  · exact .inl ⟨hnone, by simpa [hnone] using h.symm⟩
  rw [if_neg hnone] at h
  by_cases herror : s = ofString "error"
  · exact .inr (.inl ⟨herror, by simpa [herror] using h.symm⟩)
  rw [if_neg herror] at h
  by_cases hinfo : s = ofString "info"
  · exact .inr (.inr (.inl ⟨hinfo, by simpa [hinfo] using h.symm⟩))
  rw [if_neg hinfo] at h
  by_cases hdebug : s = ofString "debug"
  · exact .inr (.inr (.inr ⟨hdebug, by simpa [hdebug] using h.symm⟩))
  rw [if_neg hdebug] at h
  cases h

theorem takeLogLevel_read (h : Sees r (.value v :: rest)) (hread : levelOf v = some n) :
    ∃ r', takeLogLevel c r = (true, Field.logLevel.set n c, r') ∧ Sees r' rest := by
  cases v with
  | number text =>
      obtain ⟨r', hnext, hvalue, hsees⟩ := h.exists_next rfl
      have hnum : r'.asNumStrict .int32 = some n := (congrArg _ hvalue).trans hread
      refine ⟨r', ?_, hsees⟩
      simp only [takeLogLevel, hnext, firstReport, if_true, hnum]
      rfl
  | string s =>
      obtain ⟨r', hnext, hvalue, hsees⟩ := h.exists_next rfl
      refine ⟨r', ?_, hsees⟩
      have hs : r'.value = s := hvalue
      simp only [takeLogLevel, hnext, firstReport, reduceCtorEq, if_false, if_true, hs]
      obtain ⟨rfl, rfl⟩ | ⟨rfl, rfl⟩ | ⟨rfl, rfl⟩ | ⟨rfl, rfl⟩ := levelOf_string hread <;> rfl
  | _ => cases hread

theorem take_parse {f : Field} (h : Sees r (.value v :: rest)) (hparse : f.parse v = some n) :
    ∃ r', f.take c r = (true, f.set n c, r') ∧ Sees r' rest := by
  rw [Field.parse] at hparse
  rw [Field.take]
  cases hkind : f.kind with
  | level =>
      rw [hkind] at hparse
      have hf : f = .logLevel := by
        cases f <;> first | rfl | cases hkind
      subst hf
      exact takeLogLevel_read h hparse
  | number type =>
      rw [hkind] at hparse
      exact takeNumber_read h hparse
  | bool =>
      rw [hkind] at hparse
      obtain ⟨hv, hn⟩ := Option.ite_none_right_eq_some.mp hparse
      obtain rfl := Option.some.inj hn
      exact takeBool_scalar h hv

/-- What is usable is parsed as it is. -/
theorem Field.parse_of_read {f : Field} (hread : f.read v = some n) : f.parse v = some n := by
  rw [Field.read] at hread
  rw [Field.parse]
  cases hkind : f.kind with
  | level => rwa [hkind] at hread
  | number type => rwa [hkind] at hread
  | bool =>
      rw [hkind] at hread
      cases v with
      | bool value => cases value <;> exact hread
      | _ => cases hread

/-- What is parsed is stored up to a multiple of the bound. -/
theorem Field.get_set_parse {f : Field} (hparse : f.parse v = some n) (c : RuntimeConfig) :
    f.get (f.set n c) = n % f.bound := by
  by_cases hkind : f.kind = .bool
  · rw [Field.parse, hkind] at hparse
    obtain ⟨-, hn⟩ := Option.ite_none_right_eq_some.mp hparse
    have hrange : n = 0 ∨ n = 1 := by
      rw [← Option.some.inj hn]
      cases decide ((firstReport v).2 = Lexeme.trueText)
      · exact .inl rfl
      · exact .inr rfl
    have hbound : f.bound = 2 := by
      cases f <;> first | rfl | cases hkind
    have hholds : f.Holds n := by
      rw [Field.Holds, hbound]
      omega
    rw [get_set hholds]
    exact (Int.emod_eq_of_lt hholds.1 hholds.2).symm
  · exact get_set_emod f n c hkind

end Taking

/-- The values in a container of members that stand at a name. -/
def inner (name : List UInt8) : Document .value → List (Document .value)
  | .object members => members.toMembers.flatMap fun (key, v) => if key = name then [v] else []
  | _ => []

/-- The value for a field, in one member of a section. -/
def Section.valuesOf (s : Section) (f : Field) (member : List UInt8 × Document .value) :
    List (Document .value) :=
  if f.inSection = some s ∧ member.1 = f.name then [member.2] else []

/-- The values at the path of a field, in one member of the root. -/
def Field.valuesOf (f : Field) (member : List UInt8 × Document .value) : List (Document .value) :=
  match f.inSection with
  | none => if member.1 = f.name then [member.2] else []
  | some s => if member.1 = s.name then inner f.name member.2 else []

/-- The values at the path of a field, in the order of the text. -/
def Field.values (f : Field) (members : Document .members) : List (Document .value) :=
  members.toMembers.flatMap f.valuesOf

/-- Nothing but the field is changed, and that one takes the last of the values that are usable. -/
def Updates (values : Field → List (Document .value)) (c c' : RuntimeConfig) : Prop :=
  ∀ f : Field, f.get c' = ((values f).filterMap f.read).getLast?.getD (f.get c)

/-- What a field holds of the values at its path: the last that can be parsed, up to a multiple of
the bound. -/
def Field.stored (f : Field) (values : List (Document .value)) (old : Int) : Int :=
  ((values.filterMap f.parse).getLast?.map fun n => n % f.bound).getD old

/-- Nothing but the fields is changed, each by what can be parsed for it. -/
def Stores (values : Field → List (Document .value)) (c c' : RuntimeConfig) : Prop :=
  ∀ f : Field, f.get c' = f.stored (values f) (f.get c)

theorem Stores.congr {values values' : Field → List (Document .value)} {c c' : RuntimeConfig}
    (h : Stores values c c') (heq : ∀ f, values' f = values f) : Stores values' c c' :=
  fun f => heq f ▸ h f

theorem Stores.refl {values : Field → List (Document .value)} (h : ∀ f, values f = [])
    (c : RuntimeConfig) : Stores values c c := fun f => by rw [h f]; rfl

theorem Stores.trans {values values' : Field → List (Document .value)} {c c' c'' : RuntimeConfig}
    (h : Stores values c c') (h' : Stores values' c' c'') :
    Stores (fun f => values f ++ values' f) c c'' := by
  intro f
  rw [h' f, h f, Field.stored, Field.stored, Field.stored, List.filterMap_append,
    List.getLast?_append]
  cases ((values' f).filterMap f.parse).getLast? <;> rfl

/-- A run of steps that each store their values. -/
theorem Stores.steps {values : Field → List UInt8 × Document .value → List (Document .value)}
    {members : List (List UInt8 × Document .value)} {c c' : RuntimeConfig}
    (h : Steps (fun key v => Stores fun f => values f (key, v)) members c c') :
    Stores (fun f => members.flatMap (values f)) c c' := by
  induction h with
  | nil state => exact .refl (fun _ => rfl) state
  | cons hstep _ ih => exact hstep.trans ih

/-- A field that is given a value. -/
theorem Stores.set {values : Field → List (Document .value)} {f : Field} {v : Document .value}
    {n : Int} (hparse : f.parse v = some n) (hf : values f = [v])
    (hother : ∀ g, g ≠ f → values g = []) (c : RuntimeConfig) :
    Stores values c (f.set n c) := by
  intro g
  by_cases hg : g = f
  · subst hg
    rw [hf, Field.stored, List.filterMap_cons, hparse, Field.get_set_parse hparse]
    rfl
  · rw [hother g hg, Field.get_set_of_ne hg]
    rfl

/-- The members of an object of fields: the ones at the name of a field can be parsed. -/
def Section.Reads (s : Section) (v : Document .value) : Prop :=
  isScalar v = true ∨ ∃ members, v = .object members ∧
    ∀ member ∈ members.toMembers, ∀ f : Field, f.inSection = some s → member.1 = f.name →
      ∃ n, f.parse member.2 = some n

/-- Each member at a path that is known can be parsed. -/
def Parseable (members : Document .members) : Prop :=
  ∀ member ∈ members.toMembers,
    (∀ f : Field, f.inSection = none → member.1 = f.name → ∃ n, f.parse member.2 = some n) ∧
    ∀ s : Section, member.1 = s.name → s.Reads member.2

/-- The members of an object of fields: the ones at the name of a field can be taken. -/
def Section.Takes (s : Section) (v : Document .value) : Prop :=
  isScalar v = true ∨ ∃ members, v = .object members ∧
    ∀ member ∈ members.toMembers, ∀ f : Field, f.inSection = some s → member.1 = f.name →
      f.Takes member.2

/-- Each member at a path that is known can be taken. -/
def Mergeable (members : Document .members) : Prop :=
  ∀ member ∈ members.toMembers,
    (∀ f : Field, f.inSection = none → member.1 = f.name → f.Takes member.2) ∧
    ∀ s : Section, member.1 = s.name → s.Takes member.2

theorem Section.stepsMember {s : Section} {key : List UInt8} {v : Document .value}
    (h : ∀ f : Field, f.inSection = some s → key = f.name → ∃ n, f.parse v = some n) :
    StepsMember s.func (fun key v => Stores fun f => s.valuesOf f (key, v)) key v := by
  intro c r rest hsees
  by_cases hknown : ∃ f : Field, f.inSection = some s ∧ key = f.name
  · obtain ⟨f, hf, rfl⟩ := hknown
    obtain ⟨n, hparse⟩ := h f hf rfl
    obtain ⟨r', htake, hrest⟩ := take_parse (c := c) hsees hparse
    refine ⟨true, f.set n c, r', (func_name hf c r).trans htake, ?_, hrest⟩
    refine .set hparse (if_pos ⟨hf, rfl⟩) (fun g hg => if_neg fun hsame => hg ?_) c
    exact Field.eq_of_name hsame.2.symm
  · refine ⟨false, c, r, func_other (fun f hf hkey => hknown ⟨f, hf, hkey⟩) c r, ?_, hsees⟩
    exact .refl (fun f => if_neg fun hf => hknown ⟨f, hf⟩) c

/-- An object of fields is merged member by member. -/
theorem Section.takeObject_stores {s : Section} {v : Document .value} (h : s.Reads v)
    {c : RuntimeConfig} {r : JsonReader} {rest : List Piece} (hsees : Sees r (.value v :: rest)) :
    ∃ c' r', takeObject c r s.func = (true, c', r') ∧ Sees r' rest ∧
      Stores (fun f => if f.inSection = some s then inner f.name v else []) c c' := by
  obtain hv | ⟨members, rfl, hmembers⟩ := h
  · obtain ⟨r', hnext, -, hrest⟩ := hsees.exists_next hv
    refine ⟨c, r', ?_, hrest, .refl (fun f => ?_) c⟩
    · have hne : (firstReport v).1 ≠ .objectStart := by
        cases v with
        | object _ | array _ => cases hv
        | _ => simp [firstReport]
      simp only [takeObject, hnext, hne, if_false]
    · cases v <;> first | exact ite_self _ | cases hv
  · have hnext : r.next = (.objectStart, r.next.2) := Prod.ext hsees.token rfl
    have hinside := hsees.next.2
    rw [inside, List.append_assoc, List.singleton_append] at hinside
    obtain ⟨c', r', hloop, hrest, hsteps⟩ := forEachField_steps c
      (fun member hmember => Section.stepsMember (hmembers member hmember)) hinside
    refine ⟨c', r', ?_, hrest, ?_⟩
    · generalize r.next.2 = r₁ at hnext hloop
      simp only [takeObject, hnext, if_true, hloop]
    · refine (Stores.steps hsteps).congr fun f => ?_
      by_cases hf : f.inSection = some s
      · have hvalues : s.valuesOf f = fun member => if member.1 = f.name then [member.2] else [] :=
          funext fun member => by rw [Section.valuesOf, hf]; simp
        rw [if_pos hf, hvalues]
        rfl
      · rw [if_neg hf]
        exact (List.flatMap_eq_nil_iff.mpr fun member _ => if_neg fun h => hf h.1).symm

theorem Section.name_ne (s : Section) (f : Field) : s.name ≠ f.name := by
  cases s <;> cases f <;> decide

theorem Section.eq_of_name {s t : Section} (h : s.name = t.name) : s = t := by
  cases s <;> cases t <;> first | rfl | (revert h; decide)

theorem stepsMember_root {key : List UInt8} {v : Document .value}
    (h : ∀ f : Field, f.inSection = none → key = f.name → ∃ n, f.parse v = some n)
    (hsection : ∀ s : Section, key = s.name → s.Reads v) :
    StepsMember (fun key c r => rootField c r key)
      (fun key v => Stores fun f => f.valuesOf (key, v)) key v := by
  intro c r rest hsees
  by_cases hknown : ∃ f : Field, f.inSection = none ∧ key = f.name
  · obtain ⟨f, hf, rfl⟩ := hknown
    obtain ⟨n, hparse⟩ := h f hf rfl
    obtain ⟨r', htake, hrest⟩ := take_parse (c := c) hsees hparse
    refine ⟨true, f.set n c, r', (rootField_name hf c r).trans htake, ?_, hrest⟩
    refine .set hparse (by simp [Field.valuesOf, hf]) (fun g hg => ?_) c
    cases hsection : g.inSection with
    | none =>
        have hne : f.name ≠ g.name := fun heq =>
          hg (Field.eq_of_name heq.symm)
        simp [Field.valuesOf, hsection, hne]
    | some s => simp [Field.valuesOf, hsection, (s.name_ne f).symm]
  · by_cases hs : ∃ s : Section, key = s.name
    · obtain ⟨s, rfl⟩ := hs
      obtain ⟨c', r', htake, hrest, hstores⟩ :=
        Section.takeObject_stores (c := c) (hsection s rfl) hsees
      refine ⟨true, c', r', (rootField_section s c r).trans htake, ?_, hrest⟩
      refine hstores.congr fun f => ?_
      cases hf : f.inSection with
      | none => simp [Field.valuesOf, hf, s.name_ne f]
      | some t =>
          have hiff : s.name = t.name ↔ t = s :=
            ⟨fun h => (Section.eq_of_name h).symm, fun h => h ▸ rfl⟩
          simp [Field.valuesOf, hf, hiff]
    · refine ⟨false, c, r, rootField_other (fun f hf hkey => hknown ⟨f, hf, hkey⟩)
        (fun s hkey => hs ⟨s, hkey⟩) c r, .refl (fun f => ?_) c, hsees⟩
      cases hf : f.inSection with
      | none =>
          have hne : key ≠ f.name := fun hkey => hknown ⟨f, hf, hkey⟩
          simp [Field.valuesOf, hf, hne]
      | some s =>
          have hne : key ≠ s.name := fun hkey => hs ⟨s, hkey⟩
          simp [Field.valuesOf, hf, hne]

/-- The whole text is merged member by member. -/
theorem stores_mergeFromJson {json : List UInt8} {members : Document .members}
    (htext : IsText json (.object members)) (hparseable : Parseable members) (c : RuntimeConfig) :
    Stores (fun f => f.values members) c (c.mergeFromJson json).2 := by
  have hsees := htext.sees
  have hnext : (ofText json).next = (.objectStart, (ofText json).next.2) :=
    Prod.ext hsees.token rfl
  have hinside := hsees.next.2
  rw [inside, List.append_assoc, List.singleton_append] at hinside
  obtain ⟨c', r', hloop, -, hsteps⟩ := forEachField_steps c
    (fun member hmember =>
      stepsMember_root (hparseable member hmember).1 (hparseable member hmember).2) hinside
  have hmerge : c.mergeFromJson json = (true, c') := by
    generalize (ofText json).next.2 = r at hnext hloop
    simp only [mergeFromJson, hnext, if_true, hloop]
  rw [hmerge]
  exact Stores.steps hsteps

/-- What can be taken can be parsed. -/
theorem Mergeable.parseable {members : Document .members} (h : Mergeable members) :
    Parseable members := by
  have hparse {f : Field} {v : Document .value} (htakes : f.Takes v) : ∃ n, f.parse v = some n := by
    obtain ⟨n, hread, -⟩ := htakes
    exact ⟨n, Field.parse_of_read hread⟩
  intro member hmember
  obtain ⟨hroot, hsection⟩ := h member hmember
  refine ⟨fun f hf hname => hparse (hroot f hf hname), fun s hname => ?_⟩
  refine (hsection s hname).imp_right ?_
  rintro ⟨fields, hobject, hfields⟩
  exact ⟨fields, hobject, fun field hfield f hf hname => hparse (hfields field hfield f hf hname)⟩

/-- What stands at the path of a field. -/
theorem mem_values_iff {members : Document .members} {f : Field} {v : Document .value} :
    v ∈ f.values members ↔
      (f.inSection = none ∧ (f.name, v) ∈ members.toMembers) ∨
        ∃ s fields, f.inSection = some s ∧ (s.name, Document.object fields) ∈ members.toMembers ∧
          (f.name, v) ∈ fields.toMembers := by
  have hmem {name : List UInt8} {ms : List (List UInt8 × Document .value)} :
      v ∈ ms.flatMap (fun (key, u) => if key = name then [u] else []) ↔ (name, v) ∈ ms := by
    simp only [List.mem_flatMap, Prod.exists]
    constructor
    · rintro ⟨key, u, hms, hv⟩
      split at hv
      · rename_i hkey
        rwa [List.mem_singleton.mp hv, ← hkey]
      · cases hv
    · intro hms
      exact ⟨name, v, hms, by simp⟩
  rw [Field.values]
  cases hf : f.inSection with
  | none =>
      have hvalues : f.valuesOf = fun (key, u) => if key = f.name then [u] else [] :=
        funext fun member => by simp only [Field.valuesOf, hf]
      simp [hvalues, hmem]
  | some s =>
      have hvalues : f.valuesOf = fun (key, u) => if key = s.name then inner f.name u else [] :=
        funext fun member => by simp only [Field.valuesOf, hf]
      simp only [hvalues, List.mem_flatMap, Prod.exists, reduceCtorEq, false_and, false_or,
        Option.some.injEq]
      constructor
      · rintro ⟨key, u, hms, hv⟩
        split at hv
        · rename_i hkey
          subst hkey
          cases u with
          | object fields => exact ⟨s, fields, rfl, hms, hmem.mp hv⟩
          | _ => cases hv
        · cases hv
      · rintro ⟨_, fields, rfl, hms, hv⟩
        refine ⟨_, _, hms, ?_⟩
        rw [if_pos rfl]
        exact hmem.mpr hv

/-- What stands at the path of a field can be taken by it. -/
theorem takes_of_mergeable {members : Document .members} {f : Field} {v : Document .value}
    (h : Mergeable members) (hv : v ∈ f.values members) : f.Takes v := by
  obtain ⟨hf, hmember⟩ | ⟨s, fields, hf, hmember, hfield⟩ := mem_values_iff.mp hv
  · exact (h _ hmember).1 f hf rfl
  · obtain hscalar | ⟨_, hobject, hfields⟩ := (h _ hmember).2 s rfl
    · cases hscalar
    · cases hobject
      exact hfields _ hfield f hf rfl

/-- Values that can be taken are stored as they are. -/
theorem Field.stored_of_takes {f : Field} {values : List (Document .value)}
    (h : ∀ v ∈ values, f.Takes v) (old : Int) :
    f.stored values old = (values.filterMap f.read).getLast?.getD old := by
  have hsame : values.filterMap f.parse = values.filterMap f.read := by
    refine List.filterMap_congr fun v hv => ?_
    obtain ⟨n, hread, -⟩ := h v hv
    rw [hread, Field.parse_of_read hread]
  rw [Field.stored, hsame]
  cases hlast : (values.filterMap f.read).getLast? with
  | none => rfl
  | some n =>
      obtain ⟨v, hv, hread⟩ := List.mem_filterMap.mp (List.mem_of_getLast? hlast)
      obtain ⟨m, hread', hholds⟩ := h v hv
      obtain rfl : m = n := Option.some.inj (hread'.symm.trans hread)
      exact Int.emod_eq_of_lt hholds.1 hholds.2

/-- A string, an object and a number, for the examples. -/
def severalText : List UInt8 :=
  ofString "\x7b\"address\":\"0x03\",\"bus\":\x7b\"window_us\":4400\x7d,\"lock_counter\":9\x7d"

def severalMembers : Document .members :=
  .member (ofString "address") (.string (ofString "0x03")) <|
    .member (ofString "bus") (.object <|
      .member (ofString "window_us") (.number (ofString "4400")) .noMembers) <|
    .member (ofString "lock_counter") (.number (ofString "9")) .noMembers

theorem isText_several : IsText severalText (.object severalMembers) := by
  refine isText_of_lexemes (by decide +kernel) ?_
  simp only [severalMembers, Document.lexemes, Document.isEmpty, if_true, Bool.false_eq_true,
    if_false, List.append_nil, List.cons_append, List.nil_append, List.forall_mem_cons]
  have hwindow : NumberText (ofString "4400") := Chars.numberText_toChars 4400
  have hcounter : NumberText (ofString "9") := Chars.numberText_toChars 9
  exact ⟨trivial, stringContent_key ⟨ofString "address", by decide +kernel⟩, trivial,
    stringContent_key ⟨ofString "0x03", by decide +kernel⟩, trivial,
    stringContent_key ⟨ofString "bus", by decide +kernel⟩, trivial, trivial,
    stringContent_key ⟨ofString "window_us", by decide +kernel⟩, trivial, hwindow, trivial, trivial,
    stringContent_key ⟨ofString "lock_counter", by decide +kernel⟩, trivial, hcounter, trivial,
    List.forall_mem_nil _⟩

theorem mergeable_several : Mergeable severalMembers := by
  simp only [Mergeable, severalMembers, Document.toMembers, List.forall_mem_cons]
  refine ⟨⟨by decide +kernel, fun _ _ => .inl rfl⟩, ⟨by decide +kernel, fun s hname => ?_⟩,
    ⟨by decide +kernel, fun _ _ => .inl rfl⟩, List.forall_mem_nil _⟩
  refine .inr ⟨_, rfl, ?_⟩
  simp only [Document.toMembers, List.forall_mem_cons]
  refine ⟨?_, List.forall_mem_nil _⟩
  cases s with
  | bus => decide +kernel
  | _ => exact absurd hname (by decide)

/-- Each field holds the last of the usable values at its path, or its old value. -/
def MergesFields (c : RuntimeConfig) (json : List UInt8) (members : Document .members) : Prop :=
  Updates (fun f => f.values members) c (c.mergeFromJson json).2

/-- If every member at a known path can be taken, the fields are merged independently. -/
theorem mergesFields {json : List UInt8} {members : Document .members}
    (htext : IsText json (.object members)) (hmergeable : Mergeable members) (c : RuntimeConfig) :
    MergesFields c json members := fun f =>
  (stores_mergeFromJson htext hmergeable.parseable c f).trans
    (Field.stored_of_takes (fun _ => takes_of_mergeable hmergeable) _)

theorem mergesFields_several :
    IsText severalText (.object severalMembers) ∧ Mergeable severalMembers ∧
      MergesFields {} severalText severalMembers :=
  ⟨isText_several, mergeable_several, mergesFields isText_several mergeable_several {}⟩

/-- With `{"address":"zz","lock_counter":9}` the lock counter stays as it is. -/
theorem not_mergesFields :
    ¬ ∀ (c : RuntimeConfig) (json : List UInt8) (members : Document .members),
      IsText json (.object members) → MergesFields c json members := by
  intro h
  have htext : IsText (ofString "\x7b\"address\":\"zz\",\"lock_counter\":9\x7d")
      (.object (.member (ofString "address") (.string (ofString "zz"))
        (.member (ofString "lock_counter") (.number [0x39]) .noMembers))) := by
    refine isText_of_lexemes rfl ?_
    simp only [Document.lexemes, Document.isEmpty, if_true, Bool.false_eq_true, if_false,
      List.append_nil, List.cons_append, List.nil_append, List.forall_mem_cons]
    exact ⟨trivial, stringContent_key ⟨ofString "address", by decide +kernel⟩, trivial,
      stringContent_key ⟨ofString "zz", by decide +kernel⟩, trivial,
      stringContent_key ⟨ofString "lock_counter", by decide +kernel⟩, trivial,
      numberText_digit (by decide), trivial, List.forall_mem_nil _⟩
  have hmerges := h {} _ _ htext .lockCounter
  have hlast : ((Field.lockCounter.values (.member (ofString "address") (.string (ofString "zz"))
      (.member (ofString "lock_counter") (.number [0x39]) .noMembers))).filterMap
      Field.lockCounter.read).getLast? = some 9 := by
    simp only [Field.values, Document.toMembers, List.flatMap_cons, List.flatMap_nil]
    decide
  rw [hlast] at hmerges
  have hresult : Field.lockCounter.get (mergeFromJson {}
      (ofString "\x7b\"address\":\"zz\",\"lock_counter\":9\x7d")).2 = 3 := by decide +kernel
  rw [hresult] at hmerges
  cases hmerges

end RuntimeConfig

end Ebus
