import Mathlib.Data.List.Nodup
import Ebus.Lib.Heap
import Ebus.Lib.Run
import Ebus.Protocol.Symbols

/-!
# The registry of recurring commands

`PollManager` keeps its items in a fixed vector that is used as a binary heap, the
item that is due first at the front. Adding an item and handing out the due ones go
through the heap operations; removing an item by its id and purging the items for the
own address erase from the middle of the vector and shift what is behind.

Times are clock readings in microseconds as unbounded integers. The clock is monotone.
The argument of `mergeFromJson` is what the text reader finds in a text; `mergeFromText` is the
same on the text itself. The peak counter for telemetry is left out.
-/

namespace Ebus

namespace PollLimits

def maxItems : Nat := 64

end PollLimits

/-- One millisecond. -/
def millisecond : Int := 1000

structure PollItem where
  pollId : UInt16
  priority : UInt8
  message : List UInt8
  interval : Int
  nextDue : Int
  /-- number of the `addPollItem` call that made the item; read by no function -/
  ticket : Nat
  deriving DecidableEq, Repr

namespace PollItem

/-- `Greater`: due later, or with a greater id. -/
def greater (lhs rhs : PollItem) : Bool :=
  if lhs.nextDue ≠ rhs.nextDue then rhs.nextDue < lhs.nextDue else rhs.pollId < lhs.pollId

/-- The order of the heap: an item may stand above one that it is not greater than. -/
def NotAfter (a b : PollItem) : Prop := a.greater b = false

instance : DecidableRel NotAfter := fun a b => inferInstanceAs (Decidable (a.greater b = false))

theorem notAfter_iff (a b : PollItem) :
    NotAfter a b ↔ a.nextDue < b.nextDue ∨ a.nextDue = b.nextDue ∧ a.pollId ≤ b.pollId := by
  unfold NotAfter greater
  by_cases hdue : a.nextDue = b.nextDue
  · simp [hdue, UInt16.not_lt]
  · simp only [hdue, ne_eq, not_false_eq_true, if_true, decide_eq_false_iff_not, false_and,
      or_false]
    omega

instance : Std.Total NotAfter where
  total a b := by
    rw [notAfter_iff, notAfter_iff]
    obtain hlt | heq | hgt := Int.lt_trichotomy a.nextDue b.nextDue
    · exact .inl (.inl hlt)
    · obtain hle | hle := UInt16.le_total a.pollId b.pollId
      · exact .inl (.inr ⟨heq, hle⟩)
      · exact .inr (.inr ⟨heq.symm, hle⟩)
    · exact .inr (.inl hgt)

instance : IsTrans PollItem NotAfter where
  trans a b c := by
    intro hab hbc
    rw [notAfter_iff] at hab hbc ⊢
    obtain hlt | ⟨heq, hle⟩ := hab
    · obtain hlt' | ⟨heq', -⟩ := hbc
      · exact .inl (Int.lt_trans hlt hlt')
      · exact .inl (heq' ▸ hlt)
    · obtain hlt' | ⟨heq', hle'⟩ := hbc
      · exact .inl (heq ▸ hlt')
      · exact .inr ⟨heq.trans heq', UInt16.le_trans hle hle'⟩

theorem NotAfter.nextDue_le {a b : PollItem} (h : NotAfter a b) : a.nextDue ≤ b.nextDue := by
  obtain hlt | ⟨heq, -⟩ := (notAfter_iff a b).mp h
  · exact Int.le_of_lt hlt
  · exact Int.le_of_eq heq

/-- The next due time after the item was handed out. -/
def rearm (item : PollItem) (now : Int) : PollItem :=
  let nextDue := now + item.interval
  { item with nextDue := if nextDue ≤ now then now + millisecond else nextDue }

/-- The item would poll the own slave address. -/
def polls (message : List UInt8) (slave : UInt8) : Bool := message.head? = some slave

end PollItem

def hexDigit (c : Char) : Option UInt8 :=
  if '0' ≤ c ∧ c ≤ '9' then some (UInt8.ofNat (c.toNat - '0'.toNat))
  else if 'a' ≤ c ∧ c ≤ 'f' then some (UInt8.ofNat (c.toNat - 'a'.toNat + 10))
  else if 'A' ≤ c ∧ c ≤ 'F' then some (UInt8.ofNat (c.toNat - 'A'.toNat + 10))
  else none

/-- The bytes of a text in hex; a pair that starts with no digit is zero. -/
def toBytes : List Char → List UInt8
  | high :: low :: rest =>
      (match hexDigit high, hexDigit low with
        | some h, some l => h * 16 + l
        | some h, none => h
        | none, _ => 0) :: toBytes rest
  | _ => []

structure PollManager where
  items : List PollItem := []
  ownAddress : UInt8 := 0xff
  nextPollId : UInt16 := 1
  /-- number of calls of `addPollItem` so far; not in the source -/
  tickets : Nat := 0
  deriving DecidableEq, Repr

namespace PollManager

variable (m : PollManager)

def setOwnAddress (address : UInt8) : PollManager :=
  { m with ownAddress := address
           items := m.items.filter fun item => !PollItem.polls item.message (slaveOf address) }

/-- The id for the next item and the counter behind it; zero is skipped. -/
def takeId : UInt16 × UInt16 :=
  if m.nextPollId = 0 then (1, 2) else (m.nextPollId, m.nextPollId + 1)

/-- The item is taken: it does not poll the own address and there is room. -/
def accepts (message : List UInt8) : Bool :=
  !PollItem.polls message (slaveOf m.ownAddress) && decide (m.items.length < PollLimits.maxItems)

/-- The answer is the id of the item, or zero. -/
def addPollItem (priority : UInt8) (message : List UInt8) (intervalMs : UInt32) (now : Int) :
    PollManager × UInt16 :=
  let intervalMs := if intervalMs = 0 then 1 else intervalMs
  if m.accepts message then
    let (pollId, nextPollId) := m.takeId
    let item : PollItem :=
      { pollId, priority, message, interval := intervalMs.toNat * millisecond, nextDue := now
        ticket := m.tickets }
    ({ m with items := Heap.pushHeap PollItem.NotAfter m.items item, nextPollId
              tickets := m.tickets + 1 }, pollId)
  else ({ m with tickets := m.tickets + 1 }, 0)

/-- The first item with the id is erased. -/
def removePollItem (id : UInt16) : PollManager :=
  { m with items := m.items.eraseP fun item => item.pollId = id }

def clear : PollManager := { m with items := [] }

/-- A field of an object in the text, with the value as far as it could be read. -/
inductive JsonField where
  | priority (value : Option Int)
  | message (hex : List Char)
  | intervalMs (value : Option UInt32)
  | other
  deriving DecidableEq, Repr

/-- What `addPollItem` is called with for an object. -/
structure JsonItem where
  priority : UInt8 := 5
  message : List Char := []
  intervalMs : UInt32 := 1000
  ok : Bool := true
  deriving DecidableEq, Repr

def JsonItem.field (item : JsonItem) : JsonField → JsonItem
  | .priority (some value) => { item with priority := UInt8.ofInt value }
  | .message hex => { item with message := hex }
  | .intervalMs (some value) => { item with intervalMs := value }
  | .priority none | .intervalMs none => { item with ok := false }
  | .other => item

/-- Size of the buffer for the bytes. -/
def hexBuffer : Nat := 64

/-- One object of the array: its fields, and the clock reading of its `addPollItem` call. -/
structure JsonObject where
  fields : List JsonField
  now : Int
  deriving DecidableEq, Repr

def JsonObject.item (object : JsonObject) : JsonItem := object.fields.foldl JsonItem.field {}

def JsonItem.bytes (item : JsonItem) : List UInt8 := (toBytes item.message).take hexBuffer

def mergeObject (object : JsonObject) : PollManager :=
  if object.item.ok ∧ object.item.message ≠ [] then
    (m.addPollItem object.item.priority object.item.bytes object.item.intervalMs object.now).1
  else m

/-- What is found in a text: no array at all, or the objects up to the end of the array or
up to an error. -/
inductive JsonText where
  | noArray
  | array (objects : List JsonObject) (wellFormed : Bool)
  deriving DecidableEq, Repr

def mergeFromJson : JsonText → PollManager × Bool
  | .noArray => (m, false)
  | .array objects wellFormed => (objects.foldl mergeObject m, wellFormed)

/-- What one round of the loop in `processDueItems` sees: the clock at its test, the answer
of the busy predicate, and the clock after the callback. -/
structure Round where
  reading : Int
  busy : Bool
  finished : Int
  mono : reading ≤ finished
  deriving DecidableEq, Repr

/-- An item that the callback was given, with the reading that found it due. -/
structure Handout where
  item : PollItem
  reading : Int
  deriving DecidableEq, Repr

/-- Why the loop has ended. -/
inductive LoopEnd where
  | empty
  | notDue (reading : Int)
  | busy
  /-- there was no further round -/
  | running
  deriving DecidableEq, Repr

/-- What a call of `processDueItems` does. -/
structure Batch where
  handed : List Handout
  ended : LoopEnd
  left : List PollItem
  deriving DecidableEq, Repr

def drain (items : List PollItem) : List Round → Batch
  | [] => { handed := [], ended := if items = [] then .empty else .running, left := items }
  | round :: rounds =>
      match Heap.popHeap PollItem.NotAfter items with
      | none => { handed := [], ended := .empty, left := items }
      | some (top, others) =>
          if round.reading < top.nextDue then
            { handed := [], ended := .notDue round.reading, left := items }
          else if round.busy then { handed := [], ended := .busy, left := items }
          else
            let batch := drain
              (Heap.pushHeap PollItem.NotAfter others (top.rearm round.finished)) rounds
            { batch with handed := { item := top, reading := round.reading } :: batch.handed }

def processDueItems (rounds : List Round) : PollManager × Batch :=
  let batch := drain m.items rounds
  ({ m with items := batch.left }, batch)

/-- None stands for the greatest time point. -/
def nextDueTime (busy : Bool) : Option Int :=
  if busy then none else m.items.head?.map PollItem.nextDue

/-- The item that `addPollItem` makes. -/
def made (priority : UInt8) (message : List UInt8) (intervalMs : UInt32) (now : Int) : PollItem :=
  { pollId := m.takeId.1, priority, message
    interval := (if intervalMs = 0 then 1 else intervalMs).toNat * millisecond, nextDue := now
    ticket := m.tickets }

theorem addPollItem_cases (priority : UInt8) (message : List UInt8) (intervalMs : UInt32)
    (now : Int) :
    (m.accepts message = false ∧
      m.addPollItem priority message intervalMs now = ({ m with tickets := m.tickets + 1 }, 0)) ∨
    (m.accepts message = true ∧
      m.addPollItem priority message intervalMs now =
        ({ m with
           items := Heap.pushHeap PollItem.NotAfter m.items
             (m.made priority message intervalMs now)
           nextPollId := m.takeId.2, tickets := m.tickets + 1 }, m.takeId.1)) := by
  unfold addPollItem
  cases haccepts : m.accepts message with
  | false => exact .inl ⟨rfl, by simp⟩
  | true => exact .inr ⟨rfl, by simp [made]⟩

/-- An object is left out, or its item is added. -/
theorem mergeObject_cases (object : JsonObject) :
    (¬ (object.item.ok = true ∧ object.item.message ≠ []) ∧ m.mergeObject object = m) ∨
    (object.item.ok = true ∧ object.item.message ≠ [] ∧
      m.mergeObject object = (m.addPollItem object.item.priority object.item.bytes
        object.item.intervalMs object.now).1) := by
  unfold mergeObject
  by_cases hasks : object.item.ok = true ∧ object.item.message ≠ []
  · exact .inr ⟨hasks.1, hasks.2, if_pos hasks⟩
  · exact .inl ⟨hasks, if_neg hasks⟩

theorem takeId_ne_zero : m.takeId.1 ≠ 0 := by
  unfold takeId
  split
  · decide
  · assumption

end PollManager

namespace Polling

/-- A call of `addPollItem`: its number, its answer, the ids that were in use, and whether
its item is registered after it. -/
structure Answer where
  ticket : Nat
  pollId : UInt16
  held : List UInt16
  added : Bool
  deriving DecidableEq, Repr

end Polling

/-- The registry with what its callers have seen. No function of the model reads these
records. -/
structure Polling where
  manager : PollManager := {}
  answers : List Polling.Answer := []
  batches : List PollManager.Batch := []
  deriving DecidableEq, Repr

namespace Polling

inductive Action where
  | addPollItem (priority : UInt8) (message : List UInt8) (intervalMs : UInt32) (now : Int)
  | removePollItem (id : UInt16)
  | setOwnAddress (address : UInt8)
  | mergeFromJson (text : PollManager.JsonText)
  | processDueItems (rounds : List PollManager.Round)
  | clear
  deriving DecidableEq, Repr

def ids (d : Polling) : List UInt16 := d.manager.items.map PollItem.pollId

/-- What the caller of `addPollItem` learns. -/
def answer (d : Polling) (result : PollManager × UInt16) : Answer :=
  { ticket := d.manager.tickets, pollId := result.2, held := d.ids
    added := d.manager.tickets ∈ result.1.items.map PollItem.ticket }

def addPollItem (d : Polling) (priority : UInt8) (message : List UInt8) (intervalMs : UInt32)
    (now : Int) : Polling :=
  let result := d.manager.addPollItem priority message intervalMs now
  { d with manager := result.1, answers := d.answers ++ [d.answer result] }

def step (d : Polling) : Action → Polling
  | .addPollItem priority message intervalMs now => d.addPollItem priority message intervalMs now
  | .removePollItem id => { d with manager := d.manager.removePollItem id }
  | .setOwnAddress address => { d with manager := d.manager.setOwnAddress address }
  | .mergeFromJson text => { d with manager := (d.manager.mergeFromJson text).1 }
  | .processDueItems rounds =>
      let result := d.manager.processDueItems rounds
      { d with manager := result.1, batches := d.batches ++ [result.2] }
  | .clear => { d with manager := d.manager.clear }

end Polling

end Ebus
