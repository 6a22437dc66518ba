import Ebus.Verification.PollTexts
import Ebus.Verification.NumberSlots

/-!
# Numbers of a configuration and of poll items

Which members of a document the two merges hand to their callbacks, and that the numbers are stored
as they are if and only if those members fit their fields. A member that its callback cannot parse is
skipped twice; the reader then stands somewhere else in the document than the loop takes it to be,
and may take any member for one of the object that it is in. Such documents are told by `KeepsPlace`.
-/

namespace Ebus

open Json
open JsonReader
open Chars (ofString)

namespace RuntimeConfig

/-- The field as one for numbers, if it is no boolean. -/
def Field.slot (f : Field) : Option (Slot RuntimeConfig) :=
  match f.kind with
  | .level => some ⟨.int32, f.get, fun n => 0 ≤ n ∧ n ≤ LogLevel.debug.toUInt8.toNat⟩
  | .number type => some ⟨type, f.get, f.Holds⟩
  | .bool => none

/-- The calls that `mergeFromJson` makes for the members of the text. -/
def rootCalls (c : RuntimeConfig) (json : List UInt8) : List (Call RuntimeConfig) :=
  if (ofText json).next.1 = .objectStart then
    fieldCalls (fun key c r => rootField c r key) c (ofText json).next.2
  else []

/-- The callback for the field is called while the text is merged. -/
inductive Handled (c : RuntimeConfig) (json : List UInt8) : Field → Call RuntimeConfig → Prop
  | root {f : Field} {call : Call RuntimeConfig} (hcall : call ∈ rootCalls c json)
      (hsection : f.inSection = none) (hkey : call.key = f.name) : Handled c json f call
  /-- While the object of a section is read. -/
  | inner {s : Section} {f : Field} {outer call : Call RuntimeConfig}
      (houter : outer ∈ rootCalls c json) (hname : outer.key = s.name)
      (hstart : outer.reader.next.1 = .objectStart)
      (hcall : call ∈ fieldCalls s.func outer.before outer.reader.next.2)
      (hsection : f.inSection = some s) (hkey : call.key = f.name) : Handled c json f call

variable {c : RuntimeConfig} {json : List UInt8} {doc : Document .value}

theorem takeNumber_eq (r : JsonReader) (type : IntType) (set : Int → RuntimeConfig) :
    takeNumber c r type set =
      match r.next.2.asNumStrict type with
      | some value => (true, set value, r.next.2)
      | none => (false, c, r.next.2) := by
  cases hparse : r.next.2.asNumStrict type with
  | none => simp only [takeNumber, hparse]
  | some value => simp only [takeNumber, hparse]

theorem takeLogLevel_number {r : JsonReader} (h : r.next.1 = .number) :
    takeLogLevel c r =
      match r.next.2.asNumStrict .int32 with
      | some value => (true, Field.logLevel.set value c, r.next.2)
      | none => (false, c, r.next.2) := by
  rw [takeLogLevel]
  exact if_pos h

theorem Handled.take {f : Field} {call : Call RuntimeConfig} (h : Handled c json f call) :
    ∃ behind, f.take call.before call.reader = (call.taken, call.after, behind) := by
  cases h with
  | root hcall hsection hkey =>
      rw [rootCalls] at hcall
      split at hcall
      · obtain ⟨behind, hmade⟩ := made_of_mem hcall
        exact ⟨behind, by rw [← rootField_name hsection, ← hkey]; exact hmade⟩
      · cases hcall
  | inner _ _ _ hcall hsection hkey =>
      obtain ⟨behind, hmade⟩ := made_of_mem hcall
      exact ⟨behind, by rw [← func_name hsection, ← hkey]; exact hmade⟩

theorem Handled.stores {f : Field} {call : Call RuntimeConfig} {slot : Slot RuntimeConfig}
    (h : Handled c json f call) (hslot : slot ∈ f.slot) : slot.Stores call f.bound := by
  have hparsed {type : IntType} {behind : JsonReader} (hkind : f.kind ≠ .bool)
      (heq : (match call.reader.next.2.asNumStrict type with
        | some value => (true, f.set value call.before, call.reader.next.2)
        | none => (false, call.before, call.reader.next.2)) = (call.taken, call.after, behind)) :
      (call.taken = true ↔ ∃ n, call.reader.next.2.asNumStrict type = some n) ∧
        ∀ n, call.reader.next.2.asNumStrict type = some n → f.get call.after = n % f.bound := by
    cases hparse : call.reader.next.2.asNumStrict type with
    | none =>
        rw [hparse] at heq
        have htaken : call.taken = false := (congrArg Prod.fst heq).symm
        simp [htaken]
    | some value =>
        rw [hparse] at heq
        have htaken : call.taken = true := (congrArg Prod.fst heq).symm
        have hafter : call.after = f.set value call.before :=
          (congrArg (fun taken => taken.2.1) heq).symm
        refine ⟨by simp [htaken], fun n hn => ?_⟩
        rw [hafter, f.get_set_emod value call.before hkind, Option.some.inj hn]
  obtain ⟨behind, htake⟩ := h.take
  rw [Field.take] at htake
  rw [Field.slot] at hslot
  cases hkind : f.kind with
  | level =>
      rw [hkind] at htake hslot
      obtain rfl := Option.some.inj hslot
      have hf : f = .logLevel := by
        cases f <;> first | rfl | cases hkind
      subst hf
      have hstores (hnumber : call.reader.next.1 = .number) :=
        hparsed (by simp [hkind]) ((takeLogLevel_number hnumber).symm.trans htake)
      exact ⟨fun hnumber => (hstores hnumber).1, fun hnumber => (hstores hnumber).2⟩
  | number type =>
      rw [hkind] at htake hslot
      obtain rfl := Option.some.inj hslot
      have hstores := hparsed (by simp [hkind]) ((takeNumber_eq _ _ _).symm.trans htake)
      exact ⟨fun _ => hstores.1, fun _ => hstores.2⟩
  | bool =>
      rw [hkind] at hslot
      cases hslot

section Placed
variable {members : Document .members}

end Placed

end RuntimeConfig

namespace PollManager

open RuntimeConfig (numberOf isScalar_of_numberOf asNumStrict_next)

/-- The readers of the objects that `mergeFromJson` reads. -/
def textReaders (json : List UInt8) : List JsonReader :=
  if (ofText json).next.1 = .arrayStart then
    (objectReaders ((ofText json).next.2.rest.length + 1) (ofText json).next.2).1
  else []

def prioritySlot : Slot JsonItem :=
  ⟨.int32, fun item => item.priority.toNat, fun n => 0 ≤ n ∧ n < 2 ^ 8⟩

def intervalSlot : Slot JsonItem :=
  ⟨.uint32, fun item => item.intervalMs.toNat, fun n => 0 ≤ n ∧ n < 2 ^ 32⟩

/-- The slot of a key. -/
def slotOf (key : List UInt8) : Option (Slot JsonItem) :=
  if key = ofString "priority" then some prioritySlot
  else if key = ofString "interval_ms" then some intervalSlot
  else none

/-- The callback is called while an object of the text is read. -/
def Handled (json : List UInt8) (call : Call JsonItem) : Prop :=
  ∃ r ∈ textReaders json, call ∈ fieldCalls itemField {} r

theorem Handled.stores {json : List UInt8} {call : Call JsonItem} {slot : Slot JsonItem}
    (h : Handled json call) (hslot : slot ∈ slotOf call.key) :
    ∃ bound, slot.Stores call bound ∧ ∀ n, slot.Allows n → 0 ≤ n ∧ n < bound := by
  obtain ⟨r, -, hcall⟩ := h
  obtain ⟨behind, hmade⟩ := made_of_mem hcall
  have hparsed {type : IntType} {bound : Int} {get : JsonItem → Int} {Allows : Int → Prop}
      {set : Int → JsonItem} (hset : ∀ n, get (set n) = n % bound)
      (heq : (match call.reader.next.2.asNumStrict type with
        | some value => (true, set value, call.reader.next.2)
        | none => (false, { call.before with ok := false }, call.reader.next.2)) =
          (call.taken, call.after, behind)) : (Slot.mk type get Allows).Stores call bound := by
    cases hparse : call.reader.next.2.asNumStrict type with
    | none =>
        rw [hparse] at heq
        have htaken : call.taken = false := (congrArg Prod.fst heq).symm
        exact ⟨fun _ => by simp [htaken, hparse], fun _ n hn => by simp [hparse] at hn⟩
    | some value =>
        rw [hparse] at heq
        have htaken : call.taken = true := (congrArg Prod.fst heq).symm
        have hafter : call.after = set value := (congrArg (fun taken => taken.2.1) heq).symm
        refine ⟨fun _ => by simp [htaken, hparse], fun _ n hn => ?_⟩
        have hvalue : value = n := Option.some.inj (hparse.symm.trans hn)
        exact (congrArg get hafter).trans (hvalue ▸ hset value)
  rw [slotOf] at hslot
  by_cases hpriority : call.key = ofString "priority"
  · rw [if_pos hpriority] at hslot
    obtain rfl := Option.some.inj hslot
    refine ⟨2 ^ 8, hparsed (fun n => ?_)
      ((itemField_priority call.before call.reader hpriority).symm.trans hmade), fun n hn => hn⟩
    exact RuntimeConfig.Field.get_set_emod .address n {} (by decide)
  · rw [if_neg hpriority] at hslot
    by_cases hinterval : call.key = ofString "interval_ms"
    · rw [if_pos hinterval] at hslot
      obtain rfl := Option.some.inj hslot
      refine ⟨2 ^ 32, hparsed (fun n => ?_)
        ((itemField_interval call.before call.reader hinterval).symm.trans hmade), fun n hn => hn⟩
      exact RuntimeConfig.Field.get_set_emod .totalTimeoutMs n {} (by decide)
    · rw [if_neg hinterval] at hslot
      cases hslot

section Readers
variable {json : List UInt8} {doc : Document .value} {r : JsonReader}

end Readers

section Fit
variable {json : List UInt8} {doc : Document .value}

end Fit

end PollManager

end Ebus
