import Ebus.App.Config
import Ebus.Verification.Writing

/-!
# The configuration through its text

The writer's text of a configuration has the tokens of a tree. The reader is followed token by
token: `Pending` says which tokens are still to come, `Consumes` what a callback makes of the
tokens of a value, and `Handles` what `forEachField` makes of the members of an object.
-/

namespace Ebus

open Json

namespace JsonReader

/-- The tokens of a text that is there as a whole, from the position of the reader. -/
def Pending (r : JsonReader) (reports : List (Token × List UInt8)) : Prop :=
  r.ended = true ∧ ∃ items trailing, Ahead r [] items trailing ∧
    tokens (items.map Spaced.lexeme) = reports

theorem Pending.next {r : JsonReader} {token : Token} {value : List UInt8}
    {reports : List (Token × List UInt8)} (h : Pending r ((token, value) :: reports)) :
    ∃ r', r.next = (token, r') ∧ (token.hasValue = true → r'.value = value) ∧
      Pending r' reports ∧ r'.rest.length < r.rest.length := by
  obtain ⟨hended, items, trailing, hahead, htokens⟩ := h
  cases hahead.next with
  | «end» hnil =>
      rw [hnil] at htokens
      cases htokens
  | waits hopen =>
      rw [hopen] at hended
      cases hended
  | reports lexeme others trailing' hreports htokens' =>
      obtain ⟨items', trailing'', hahead', halike⟩ := hreports.ahead
      obtain ⟨hfirst, htail⟩ := List.cons.inj (htokens'.symm.trans htokens)
      have hreport := hreports.report.mpr fun hat => not_keyAt_zero hat.2
      rw [hfirst, report, Prod.mk.injEq] at hreport
      obtain ⟨rfl, hvalue⟩ := hreport
      refine ⟨r.next.2, rfl, fun hhas => ?_, ?_, hreports.shorter⟩
      · rwa [if_pos hhas] at hvalue
      · exact ⟨hreports.ended.trans hended, items', trailing'', hahead', by
          rw [halike.lexemes, htail]⟩

section Fields
variable {σ : Type}

/-- What a callback does with the tokens of a value: it takes them, and goes on from there. -/
def Consumes (take : JsonReader → Bool × σ × JsonReader) (value : List (Token × List UInt8))
    (state : σ) : Prop :=
  ∀ r reports, Pending r (value ++ reports) →
    ∃ r', take r = (true, state, r') ∧ Pending r' reports ∧ r'.rest.length < r.rest.length

/-- A callback takes the members of an object one after the other. -/
inductive Handles (func : List UInt8 → σ → JsonReader → Bool × σ × JsonReader) :
    σ → List (Token × List UInt8) → σ → Prop
  | nil (state : σ) : Handles func state [] state
  | cons {state state' state'' : σ} {key : List UInt8} {value members : List (Token × List UInt8)}
      (hvalue : Consumes (func key state) value state')
      (hmembers : Handles func state' members state'') :
      Handles func state ((.key, key) :: (value ++ members)) state''

variable {func : List UInt8 → σ → JsonReader → Bool × σ × JsonReader}

/-- By induction on the members: a round of the loop takes one of them. -/
theorem Handles.fieldLoop {state state' : σ} {members reports : List (Token × List UInt8)}
    (h : Handles func state members state') {fuel : Nat} {r : JsonReader}
    (hpending : Pending r (members ++ (.objectEnd, []) :: reports)) (hfuel : r.rest.length < fuel) :
    ∃ r', JsonReader.fieldLoop func fuel state r = (state', r') ∧ Pending r' reports ∧
      r'.rest.length < r.rest.length := by
  induction h generalizing fuel r with
  | nil state =>
      obtain ⟨fuel, rfl⟩ : ∃ k, fuel = k + 1 := ⟨fuel - 1, by omega⟩
      obtain ⟨r', hnext, -, hpending', hshorter⟩ := Pending.next hpending
      refine ⟨r', ?_, hpending', hshorter⟩
      rw [JsonReader.fieldLoop, hnext]
      rfl
  | cons hvalue _ ih =>
      obtain ⟨fuel, rfl⟩ : ∃ k, fuel = k + 1 := ⟨fuel - 1, by omega⟩
      rw [List.cons_append, List.append_assoc] at hpending
      obtain ⟨r₁, hnext, hkey, hpending₁, hshorter₁⟩ := hpending.next
      obtain ⟨r₂, htake, hpending₂, hshorter₂⟩ := hvalue r₁ _ hpending₁
      obtain ⟨r', hloop, hpending', hshorter'⟩ := ih hpending₂ (show r₂.rest.length < fuel by omega)
      refine ⟨r', ?_, hpending', by omega⟩
      rw [JsonReader.fieldLoop, hnext]
      simp only [reduceCtorEq, or_self, if_false, if_true, hkey rfl, htake, hloop]

theorem Handles.forEachField {state state' : σ} {members reports : List (Token × List UInt8)}
    (h : Handles func state members state') {r : JsonReader}
    (hpending : Pending r (members ++ (.objectEnd, []) :: reports)) :
    ∃ r', JsonReader.forEachField r func state = (state', r') ∧ Pending r' reports ∧
      r'.rest.length < r.rest.length :=
  h.fieldLoop hpending (Nat.lt_succ_self _)

theorem Handles.member {state state' state'' : σ} {key : Key} {value : Tree .value}
    {members : Tree .members} (hvalue : Consumes (func key.bytes state) value.tokens state')
    (hmembers : Handles func state' members.tokens state'') :
    Handles func state (Tree.member key value members).tokens state'' :=
  .cons hvalue hmembers

end Fields

end JsonReader

namespace RuntimeConfig

open JsonReader

section Kinds
variable {c : RuntimeConfig}

theorem consumes_number {type : IntType} {set : Int → RuntimeConfig} {n : Integral}
    (h : type.Holds n.value) :
    Consumes (fun r => takeNumber c r type set) (Tree.scalar (.integer n)).tokens
      (set n.value) := by
  intro r reports hpending
  obtain ⟨r', hnext, hvalue, hpending', hshorter⟩ := Pending.next hpending
  refine ⟨r', ?_, hpending', hshorter⟩
  have hnum : r'.asNumStrict type = some n.value := by
    rw [asNumStrict, hvalue rfl]
    exact Chars.toNumStrict_toChars h
  simp only [takeNumber, hnext, hnum]

theorem consumes_bool {set : Bool → RuntimeConfig} (value : Bool) :
    Consumes (fun r => takeBool r set) (Tree.scalar (.boolean value)).tokens (set value) := by
  intro r reports hpending
  cases value with
  | true =>
      obtain ⟨r', hnext, hvalue, hpending', hshorter⟩ := Pending.next hpending
      refine ⟨r', ?_, hpending', hshorter⟩
      simp only [takeBool, hnext, asBool, hvalue rfl, decide_true]
  | false =>
      obtain ⟨r', hnext, hvalue, hpending', hshorter⟩ := Pending.next hpending
      refine ⟨r', ?_, hpending', hshorter⟩
      have hne : Lexeme.falseText ≠ Lexeme.trueText := by decide
      simp only [takeBool, hnext, asBool, hvalue rfl, hne, decide_false]

theorem consumes_object {func : List UInt8 → RuntimeConfig → JsonReader → Taken}
    {members : Tree .members} {c' : RuntimeConfig} (h : Handles func c members.tokens c') :
    Consumes (fun r => takeObject c r func) (Tree.object members).tokens c' := by
  intro r reports hpending
  rw [Tree.tokens, List.cons_append, List.append_assoc] at hpending
  obtain ⟨r₁, hnext, -, hpending₁, hshorter₁⟩ := hpending.next
  obtain ⟨r', hfields, hpending', hshorter'⟩ := h.forEachField hpending₁
  refine ⟨r', ?_, hpending', by omega⟩
  simp only [takeObject, hnext, if_true, hfields]

end Kinds

theorem consumes_logLevel (c : RuntimeConfig) (level : LogLevel) :
    Consumes (takeLogLevel c) (Tree.scalar (.string (LogLevel.toString level.toUInt8))).tokens
      { c with logLevel := level.toUInt8 } := by
  intro r reports hpending
  obtain ⟨r', hnext, hvalue, hpending', hshorter⟩ := Pending.next hpending
  refine ⟨r', ?_, hpending', hshorter⟩
  simp only [takeLogLevel, hnext, hvalue rfl]
  cases level <;> rfl

section Widths

/-- What is written of an unsigned number is in the range of the type it is read with. -/
theorem holds_ofNat {type : IntType} {n : Nat} (h : n < 2 ^ 64) (hmin : type.min ≤ 0)
    (hmax : (n : Int) ≤ type.max) : type.Holds (Integral.ofNat n h).value :=
  ⟨hmin.trans (Int.natCast_nonneg n), hmax⟩

theorem toNat_emod {n k : Nat} (h : n < 2 ^ k) : ((n : Int) % 2 ^ k).toNat = n := by
  have hpow : ((2 : Int) ^ k) = ((2 ^ k : Nat) : Int) := by simp
  rw [hpow, ← Int.natCast_emod, Int.toNat_natCast, Nat.mod_eq_of_lt h]

@[simp] theorem ofInt_ofUInt8 (x : UInt8) : UInt8.ofInt (Integral.ofUInt8 x).value = x := by
  rw [Integral.ofUInt8, Integral.ofNat, UInt8.ofInt, toNat_emod x.toNat_lt, UInt8.ofNat_toNat]

@[simp] theorem ofInt_ofUInt16 (x : UInt16) : UInt16.ofInt (Integral.ofUInt16 x).value = x := by
  rw [Integral.ofUInt16, Integral.ofNat, UInt16.ofInt, toNat_emod x.toNat_lt, UInt16.ofNat_toNat]

@[simp] theorem ofInt_ofUInt32 (x : UInt32) : UInt32.ofInt (Integral.ofUInt32 x).value = x := by
  rw [Integral.ofUInt32, Integral.ofNat, UInt32.ofInt, toNat_emod x.toNat_lt, UInt32.ofNat_toNat]

@[simp] theorem ofInt_ofUInt64 (x : UInt64) : UInt64.ofInt (Integral.ofUInt64 x).value = x := by
  rw [Integral.ofUInt64, Integral.ofNat, UInt64.ofInt, toNat_emod x.toNat_lt, UInt64.ofNat_toNat]

variable {c : RuntimeConfig} {set : Int → RuntimeConfig}

/-- A byte is read as an `int` and cast. -/
theorem consumes8 (x : UInt8) :
    Consumes (fun r => takeNumber c r .int32 set) (Tree.scalar (.integer (.ofUInt8 x))).tokens
      (set (Integral.ofUInt8 x).value) := by
  refine consumes_number (holds_ofNat _ (by decide) ?_)
  have hlt := x.toNat_lt
  have hmax : IntType.int32.max = 2 ^ 31 - 1 := rfl
  omega

theorem consumes16 (x : UInt16) :
    Consumes (fun r => takeNumber c r .uint16 set) (Tree.scalar (.integer (.ofUInt16 x))).tokens
      (set (Integral.ofUInt16 x).value) := by
  refine consumes_number (holds_ofNat _ (by decide) ?_)
  have hlt := x.toNat_lt
  have hmax : IntType.uint16.max = 2 ^ 16 - 1 := rfl
  omega

theorem consumes32 (x : UInt32) :
    Consumes (fun r => takeNumber c r .uint32 set) (Tree.scalar (.integer (.ofUInt32 x))).tokens
      (set (Integral.ofUInt32 x).value) := by
  refine consumes_number (holds_ofNat _ (by decide) ?_)
  have hlt := x.toNat_lt
  have hmax : IntType.uint32.max = 2 ^ 32 - 1 := rfl
  omega

theorem consumes64 (x : UInt64) :
    Consumes (fun r => takeNumber c r .uint64 set) (Tree.scalar (.integer (.ofUInt64 x))).tokens
      (set (Integral.ofUInt64 x).value) := by
  refine consumes_number (holds_ofNat _ (by decide) ?_)
  have hlt := x.toNat_lt
  have hmax : IntType.uint64.max = 2 ^ 64 - 1 := rfl
  omega

end Widths

section Members
variable (name : String)
  (hplain : ((Chars.ofString name).all fun c => (escapeOf c).isNone) = true)

def member (value : Tree .value) (rest : Tree .members) : Tree .members :=
  .member ⟨Chars.ofString name, hplain⟩ value rest

def scalar (value : Scalar) (rest : Tree .members) : Tree .members :=
  member name hplain (.scalar value) rest

end Members

def Bus.members (bus : Bus) : Tree .members :=
  scalar "window_us" (by decide) (.integer (.ofUInt16 bus.windowUs)) <|
  scalar "offset_us" (by decide) (.integer (.ofUInt16 bus.offsetUs)) <|
  scalar "watchdog_timeout_ms" (by decide) (.integer (.ofUInt32 bus.watchdogTimeoutMs)) <|
  scalar "syn_gen" (by decide) (.boolean bus.synGen) .noMembers

def Network.members (network : Network) : Tree .members :=
  scalar "session_timeout_ms" (by decide) (.integer (.ofUInt32 network.sessionTimeoutMs)) <|
  scalar "transmit_timeout_ms" (by decide) (.integer (.ofUInt32 network.transmitTimeoutMs)) <|
  scalar "outbound_buffer_size" (by decide) (.integer (.ofUInt64 network.outboundBufferSize)) <|
  scalar "enable_server" (by decide) (.boolean network.enableServer) <|
  scalar "port_regular" (by decide) (.integer (.ofUInt16 network.portRegular)) <|
  scalar "port_readonly" (by decide) (.integer (.ofUInt16 network.portReadonly)) <|
  scalar "port_enhanced" (by decide) (.integer (.ofUInt16 network.portEnhanced)) .noMembers

def Device.members (device : Device) : Tree .members :=
  scalar "scan_on_startup" (by decide) (.boolean device.scanOnStartup) <|
  scalar "initial_delay_s" (by decide) (.integer (.ofUInt32 device.initialDelayS)) <|
  scalar "startup_interval_s" (by decide) (.integer (.ofUInt32 device.startupIntervalS)) <|
  scalar "max_startup_scans" (by decide) (.integer (.ofUInt8 device.maxStartupScans)) .noMembers

def Scheduler.members (scheduler : Scheduler) : Tree .members :=
  scalar "max_attempts" (by decide) (.integer (.ofUInt8 scheduler.maxAttempts)) <|
  scalar "base_backoff_ms" (by decide) (.integer (.ofUInt32 scheduler.baseBackoffMs)) <|
  scalar "fsm_timeout_ms" (by decide) (.integer (.ofUInt32 scheduler.fsmTimeoutMs)) <|
  scalar "total_timeout_ms" (by decide) (.integer (.ofUInt32 scheduler.totalTimeoutMs)) .noMembers

def members (c : RuntimeConfig) : Tree .members :=
  scalar "log_level" (by decide) (.string (LogLevel.toString c.logLevel)) <|
  scalar "address" (by decide) (.integer (.ofUInt8 c.address)) <|
  scalar "lock_counter" (by decide) (.integer (.ofUInt8 c.lockCounter)) <|
  scalar "system_inquiry" (by decide) (.boolean c.systemInquiry) <|
  scalar "system_response" (by decide) (.boolean c.systemResponse) <|
  member "bus" (by decide) (.object c.bus.members) <|
  member "network" (by decide) (.object c.network.members) <|
  member "device" (by decide) (.object c.device.members) <|
  member "scheduler" (by decide) (.object c.scheduler.members) .noMembers

/-- `toJson` writes the tree of the configuration. -/
theorem script_toJson (c : RuntimeConfig) : Script (.object c.members) c.toJson := by
  have hbus : Script c.bus.members
      [field16 "window_us" c.bus.windowUs, field16 "offset_us" c.bus.offsetUs,
        field32 "watchdog_timeout_ms" c.bus.watchdogTimeoutMs, fieldBool "syn_gen" c.bus.synGen] :=
    .field _ _ <| .field _ _ <| .field _ _ <| .field _ _ .noMembers
  have hnetwork : Script c.network.members
      [field32 "session_timeout_ms" c.network.sessionTimeoutMs,
        field32 "transmit_timeout_ms" c.network.transmitTimeoutMs,
        field64 "outbound_buffer_size" c.network.outboundBufferSize,
        fieldBool "enable_server" c.network.enableServer,
        field16 "port_regular" c.network.portRegular,
        field16 "port_readonly" c.network.portReadonly,
        field16 "port_enhanced" c.network.portEnhanced] :=
    .field _ _ <| .field _ _ <| .field _ _ <| .field _ _ <| .field _ _ <| .field _ _ <|
      .field _ _ .noMembers
  have hdevice : Script c.device.members
      [fieldBool "scan_on_startup" c.device.scanOnStartup,
        field32 "initial_delay_s" c.device.initialDelayS,
        field32 "startup_interval_s" c.device.startupIntervalS,
        field8 "max_startup_scans" c.device.maxStartupScans] :=
    .field _ _ <| .field _ _ <| .field _ _ <| .field _ _ .noMembers
  have hscheduler : Script c.scheduler.members
      [field8 "max_attempts" c.scheduler.maxAttempts,
        field32 "base_backoff_ms" c.scheduler.baseBackoffMs,
        field32 "fsm_timeout_ms" c.scheduler.fsmTimeoutMs,
        field32 "total_timeout_ms" c.scheduler.totalTimeoutMs] :=
    .field _ _ <| .field _ _ <| .field _ _ <| .field _ _ .noMembers
  have hmembers : Script c.members _ :=
    .field _ _ <| .field _ _ <| .field _ _ <| .field _ _ <| .field _ _ <|
      .member _ (.object hbus) <| .member _ (.object hnetwork) <| .member _ (.object hdevice) <|
        .member _ (.object hscheduler) .noMembers
  exact .object hmembers

theorem handles_bus (c : RuntimeConfig) (bus : Bus) :
    Handles (fun key c r => busField c r key) c bus.members.tokens { c with bus } := by
  have h : Handles (fun key c r => busField c r key) c bus.members.tokens _ :=
    .member (consumes16 bus.windowUs) <| .member (consumes16 bus.offsetUs) <|
      .member (consumes32 bus.watchdogTimeoutMs) <| .member (consumes_bool bus.synGen) (.nil _)
  simpa only [ofInt_ofUInt16, ofInt_ofUInt32] using h

theorem handles_network (c : RuntimeConfig) (network : Network) :
    Handles (fun key c r => networkField c r key) c network.members.tokens { c with network } := by
  have h : Handles (fun key c r => networkField c r key) c network.members.tokens _ :=
    .member (consumes32 network.sessionTimeoutMs) <|
      .member (consumes32 network.transmitTimeoutMs) <|
        .member (consumes64 network.outboundBufferSize) <|
          .member (consumes_bool network.enableServer) <|
            .member (consumes16 network.portRegular) <|
              .member (consumes16 network.portReadonly) <|
                .member (consumes16 network.portEnhanced) (.nil _)
  simpa only [ofInt_ofUInt16, ofInt_ofUInt32, ofInt_ofUInt64] using h

theorem handles_device (c : RuntimeConfig) (device : Device) :
    Handles (fun key c r => deviceField c r key) c device.members.tokens { c with device } := by
  have h : Handles (fun key c r => deviceField c r key) c device.members.tokens _ :=
    .member (consumes_bool device.scanOnStartup) <| .member (consumes32 device.initialDelayS) <|
      .member (consumes32 device.startupIntervalS) <|
        .member (consumes8 device.maxStartupScans) (.nil _)
  simpa only [ofInt_ofUInt8, ofInt_ofUInt32] using h

/-- The number of items is not written. -/
theorem handles_scheduler (c : RuntimeConfig) (scheduler : Scheduler) :
    Handles (fun key c r => schedulerField c r key) c scheduler.members.tokens
      { c with scheduler := { scheduler with maxItems := c.scheduler.maxItems } } := by
  have h : Handles (fun key c r => schedulerField c r key) c scheduler.members.tokens _ :=
    .member (consumes8 scheduler.maxAttempts) <| .member (consumes32 scheduler.baseBackoffMs) <|
      .member (consumes32 scheduler.fsmTimeoutMs) <|
        .member (consumes32 scheduler.totalTimeoutMs) (.nil _)
  simpa only [ofInt_ofUInt8, ofInt_ofUInt32] using h

/-- The fields that `toJson` writes from `c`, the others from `d`. -/
def onto (c d : RuntimeConfig) : RuntimeConfig :=
  { c with
    scheduler := { c.scheduler with maxItems := d.scheduler.maxItems }
    poll := d.poll }

theorem handles_root (c d : RuntimeConfig) {level : LogLevel}
    (hlevel : c.logLevel = level.toUInt8) :
    Handles (fun key c r => rootField c r key) d c.members.tokens (c.onto d) := by
  have h : Handles (fun key c r => rootField c r key) d c.members.tokens _ :=
    .member (hlevel ▸ consumes_logLevel d level) <| .member (consumes8 c.address) <|
      .member (consumes8 c.lockCounter) <| .member (consumes_bool c.systemInquiry) <|
        .member (consumes_bool c.systemResponse) <|
          .member (consumes_object (handles_bus _ c.bus)) <|
            .member (consumes_object (handles_network _ c.network)) <|
              .member (consumes_object (handles_device _ c.device)) <|
                .member (consumes_object (handles_scheduler _ c.scheduler)) (.nil _)
  simp only [ofInt_ofUInt8] at h
  exact h

/-- A text with the tokens of `c` is merged into any configuration. -/
theorem mergeFromJson_text (c d : RuntimeConfig) {level : LogLevel}
    (hlevel : c.logLevel = level.toUInt8) {items : List Spaced} {trailing : List UInt8}
    (hlinear : Linear (items.map Spaced.lexeme)) (hspacing : Spacing items trailing)
    (htokens : tokens (items.map Spaced.lexeme) = (Tree.object c.members).tokens) :
    d.mergeFromJson (text items trailing) = (true, c.onto d) := by
  have hstart : Ahead { rest := text items trailing, ended := true } [] items trailing :=
    ⟨hlinear, hspacing, List.append_nil _, fun _ => rfl⟩
  obtain ⟨items', trailing', hahead, halike⟩ := hstart.skipWhitespace
  have hpending : Pending (ofText (text items trailing)) (Tree.object c.members).tokens :=
    ⟨rfl, items', trailing', hahead, by rw [halike.lexemes, htokens]⟩
  obtain ⟨r, hnext, -, hpending', -⟩ := Pending.next hpending
  obtain ⟨r', hfields, -, -⟩ := (handles_root c d hlevel).forEachField hpending'
  simp only [mergeFromJson, hnext, if_true, hfields]

/-- A configuration survives its text: read on its own, with the defaults for what is not
written, and merged into any other one. -/
theorem fromJson_toJson (c : RuntimeConfig)
    (hlevel : ∃ level : LogLevel, c.logLevel = level.toUInt8) (pretty : Bool) :
    ∃ w, JsonWriter.run { pretty } c.toJson = some w ∧
      fromJson w.close.flatten = c.onto {} ∧
      ∀ d : RuntimeConfig, d.mergeFromJson w.close.flatten = (true, c.onto d) := by
  obtain ⟨level, hlevel⟩ := hlevel
  obtain ⟨w, items, trailing, hrun, hderives, hspacing, htext, htokens⟩ :=
    c.script_toJson.exists_text pretty
  have hmerge (d : RuntimeConfig) : d.mergeFromJson w.close.flatten = (true, c.onto d) :=
    htext ▸ mergeFromJson_text c d hlevel hderives.linear hspacing htokens
  refine ⟨w, hrun, ?_, hmerge⟩
  rw [fromJson, hmerge]

theorem fromJson_toJson_default :
    ∃ w, JsonWriter.run { pretty := true } (toJson { logLevel := 3, address := 8 }) = some w ∧
      fromJson w.close.flatten = { logLevel := 3, address := 8 } ∧
      ∀ d : RuntimeConfig, d.mergeFromJson w.close.flatten =
        (true, onto { logLevel := 3, address := 8 } d) :=
  fromJson_toJson { logLevel := 3, address := 8 } ⟨.debug, rfl⟩ true

end RuntimeConfig

end Ebus
