import Ebus.App.PollManager
import Ebus.Utils.JsonReader

/-!
# Poll items from a text

`PollManager::mergeFromJson` on the text itself. The loop over the array reads an object with a
callback and registers its item before it goes on; the clock is read in each `addPollItem` call.
-/

namespace Ebus

open Chars (ofString)

namespace PollManager

/-- The characters of a `std::string` that was assigned from the text. -/
def charsOf (bytes : List UInt8) : List Char := bytes.map fun c => Char.ofNat c.toNat

/-- The callback for the members of an object. -/
def itemField (key : List UInt8) (item : JsonItem) (r : JsonReader) :
    Bool × JsonItem × JsonReader :=
  if key = ofString "priority" then
    let r := r.next.2
    match r.asNumStrict .int32 with
    | some value => (true, { item with priority := UInt8.ofInt value }, r)
    | none => (false, { item with ok := false }, r)
  else if key = ofString "message" then
    let r := r.next.2
    (true, { item with message := charsOf r.value }, r)
  else if key = ofString "interval_ms" then
    let r := r.next.2
    match r.asNumStrict .uint32 with
    | some value => (true, { item with intervalMs := UInt32.ofInt value }, r)
    | none => (false, { item with ok := false }, r)
  else (false, item, r)

variable (m : PollManager)

/-- What follows the callbacks for an object. -/
def mergeItem (item : JsonItem) (now : Int) : PollManager :=
  if item.ok ∧ item.message ≠ [] then
    (m.addPollItem item.priority item.bytes item.intervalMs now).1
  else m

/-- The loop of `mergeFromJson`; `now` is the clock reading of each `addPollItem` call. -/
def mergeLoop (now : Nat → Int) : Nat → PollManager → JsonReader → PollManager × Bool
  | 0, m, _ => (m, true)
  | fuel + 1, m, r =>
      let (token, r) := r.next
      if token = .arrayEnd ∨ token = .end then (m, true)
      else if token = .error then (m, false)
      else if token = .objectStart then
        let (item, r) := r.forEachField itemField {}
        mergeLoop now fuel (m.mergeItem item (now m.tickets)) r
      else mergeLoop now fuel m r.skipValue

/-- Each round takes a byte at least. -/
def mergeFromText (now : Nat → Int) (json : List UInt8) : PollManager × Bool :=
  let (token, r) := (JsonReader.ofText json).next
  if token = .arrayStart then mergeLoop now (r.rest.length + 1) m r else (m, false)

/-- The readers behind the start of each object that the loop reads. -/
def objectReaders : Nat → JsonReader → List JsonReader × Bool
  | 0, _ => ([], true)
  | fuel + 1, r =>
      let (token, r) := r.next
      if token = .arrayEnd ∨ token = .end then ([], true)
      else if token = .error then ([], false)
      else if token = .objectStart then
        let (readers, wellFormed) := objectReaders fuel (r.forEachField itemField {}).2
        (r :: readers, wellFormed)
      else objectReaders fuel r.skipValue

/-- The item of an object. -/
def readItem (r : JsonReader) : JsonItem := (r.forEachField itemField {}).1

section Fields
variable {key : List UInt8} (item : JsonItem) (r : JsonReader)

theorem itemField_priority (h : key = ofString "priority") :
    itemField key item r =
      match r.next.2.asNumStrict .int32 with
      | some value => (true, { item with priority := UInt8.ofInt value }, r.next.2)
      | none => (false, { item with ok := false }, r.next.2) :=
  if_pos h

theorem itemField_message (h : key = ofString "message") :
    itemField key item r = (true, { item with message := charsOf r.next.2.value }, r.next.2) :=
  (if_neg (by rw [h]; decide)).trans (if_pos h)

theorem itemField_interval (h : key = ofString "interval_ms") :
    itemField key item r =
      match r.next.2.asNumStrict .uint32 with
      | some value => (true, { item with intervalMs := UInt32.ofInt value }, r.next.2)
      | none => (false, { item with ok := false }, r.next.2) :=
  (if_neg (by rw [h]; decide)).trans <| (if_neg (by rw [h]; decide)).trans (if_pos h)

theorem itemField_other (hpriority : key ≠ ofString "priority")
    (hmessage : key ≠ ofString "message") (hinterval : key ≠ ofString "interval_ms") :
    itemField key item r = (false, item, r) :=
  (if_neg hpriority).trans <| (if_neg hmessage).trans (if_neg hinterval)

end Fields

/-- What is read does not depend on what is registered. By induction on the fuel. -/
theorem mergeLoop_eq (now : Nat → Int) (fuel : Nat) (r : JsonReader) :
    mergeLoop now fuel m r =
      ((objectReaders fuel r).1.foldl (fun m r => m.mergeItem (readItem r) (now m.tickets)) m,
        (objectReaders fuel r).2) := by
  induction fuel generalizing m r with
  | zero => rfl
  | succ fuel ih =>
      rw [mergeLoop, objectReaders]
      generalize r.next = next
      obtain ⟨token, r⟩ := next
      dsimp only
      split
      · rfl
      · split
        · rfl
        · split
          · exact ih _ _
          · exact ih _ _

/-- What the callbacks make of an object is a fold over fields. -/
theorem exists_fields (fuel : Nat) (item : JsonItem) (r : JsonReader) :
    ∃ fields : List JsonField,
      (JsonReader.fieldLoop itemField fuel item r).1 = fields.foldl JsonItem.field item := by
  have hfield (key : List UInt8) (item : JsonItem) (r : JsonReader) :
      ∃ field, (itemField key item r).2.1 = item.field field := by
    by_cases hpriority : key = ofString "priority"
    · rw [itemField_priority item r hpriority]
      cases r.next.2.asNumStrict .int32 with
      | some value => exact ⟨.priority (some value), rfl⟩
      | none => exact ⟨.priority none, rfl⟩
    by_cases hmessage : key = ofString "message"
    · rw [itemField_message item r hmessage]
      exact ⟨.message _, rfl⟩
    by_cases hinterval : key = ofString "interval_ms"
    · rw [itemField_interval item r hinterval]
      cases r.next.2.asNumStrict .uint32 with
      | some value => exact ⟨.intervalMs (some (UInt32.ofInt value)), rfl⟩
      | none => exact ⟨.intervalMs none, rfl⟩
    · rw [itemField_other item r hpriority hmessage hinterval]
      exact ⟨.other, rfl⟩
  induction fuel generalizing item r with
  | zero => exact ⟨[], rfl⟩
  | succ fuel ih =>
      rw [JsonReader.fieldLoop]
      generalize r.next = next
      obtain ⟨token, r⟩ := next
      dsimp only
      split
      · exact ⟨[], rfl⟩
      · split
        · obtain ⟨field, hcall⟩ := hfield r.value item r
          obtain ⟨fields, hloop⟩ := ih (itemField r.value item r).2.1
            (if (itemField r.value item r).1 then (itemField r.value item r).2.2
              else (itemField r.value item r).2.2.skipValue)
          exact ⟨field :: fields, by rw [hloop, hcall, List.foldl_cons]⟩
        · exact ih item r

/-- Merging a text is merging the objects that are found in it. -/
theorem exists_jsonText (now : Nat → Int) (json : List UInt8) :
    ∃ text, m.mergeFromText now json = m.mergeFromJson text := by
  have hobjects (readers : List JsonReader) (m : PollManager) : ∃ objects : List JsonObject,
      readers.foldl (fun m r => m.mergeItem (readItem r) (now m.tickets)) m =
        objects.foldl mergeObject m := by
    induction readers generalizing m with
    | nil => exact ⟨[], rfl⟩
    | cons r readers ih =>
        obtain ⟨fields, hfields⟩ := exists_fields (r.rest.length + 1) {} r
        obtain ⟨objects, hfold⟩ := ih (m.mergeItem (readItem r) (now m.tickets))
        have hitem : (JsonObject.mk fields (now m.tickets)).item = readItem r := hfields.symm
        refine ⟨⟨fields, now m.tickets⟩ :: objects, ?_⟩
        rw [List.foldl_cons, List.foldl_cons, hfold, mergeObject, hitem, mergeItem]
  rw [mergeFromText]
  generalize (JsonReader.ofText json).next = next
  obtain ⟨token, r⟩ := next
  dsimp only
  split
  · obtain ⟨objects, hfold⟩ := hobjects (objectReaders (r.rest.length + 1) r).1 m
    exact ⟨.array objects (objectReaders (r.rest.length + 1) r).2, by
      rw [mergeLoop_eq, hfold, mergeFromJson]⟩
  · exact ⟨.noArray, rfl⟩

end PollManager

end Ebus
