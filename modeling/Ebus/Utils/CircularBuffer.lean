import Ebus.Lib.Circular
import Ebus.Lib.Run
import Mathlib.Data.List.GetD

/-!
# The circular buffer of the diagnostics

The histories of bus events, of errors and of what the simulator has heard are circular buffers
that give up their oldest entry when they are full. Each carries the proof that its head is one
of its cells. The mutex around every operation is left out: one operation is one step.
-/

namespace Ebus

structure CircularBuffer (α : Type*) (capacity : Nat) where
  buffer : Nat → α
  head : Nat
  size : Nat
  inside : head < capacity
  bounded : size ≤ capacity

namespace CircularBuffer

variable {α : Type*} {capacity : Nat}

def create [Inhabited α] (h : 0 < capacity) : CircularBuffer α capacity where
  buffer := fun _ => default
  head := 0
  size := 0
  inside := h
  bounded := Nat.zero_le _

/-- Whether an entry has been overwritten is the second answer. -/
def pushImpl (b : CircularBuffer α capacity) (item : α) : CircularBuffer α capacity × Bool :=
  if h : b.size = capacity then
    ({ buffer := Function.update b.buffer b.head item
       head := (b.head + 1) % capacity
       size := b.size
       inside := Nat.mod_lt _ (Nat.zero_lt_of_lt b.inside)
       bounded := b.bounded }, true)
  else
    ({ buffer := Function.update b.buffer ((b.head + b.size) % capacity) item
       head := b.head
       size := b.size + 1
       inside := b.inside
       bounded := Nat.lt_of_le_of_ne b.bounded h }, false)

def tryPop (b : CircularBuffer α capacity) : Option (α × CircularBuffer α capacity) :=
  if b.size = 0 then none
  else some (b.buffer b.head,
    { buffer := b.buffer
      head := (b.head + 1) % capacity
      size := b.size - 1
      inside := Nat.mod_lt _ (Nat.zero_lt_of_lt b.inside)
      bounded := (Nat.sub_le _ _).trans b.bounded })

def clear (b : CircularBuffer α capacity) : CircularBuffer α capacity :=
  { b with head := 0, size := 0
           inside := Nat.zero_lt_of_lt b.inside
           bounded := Nat.zero_le _ }

/-- `operator[]`. -/
def get [Inhabited α] (b : CircularBuffer α capacity) (index : Nat) : α :=
  if b.size ≤ index then default else b.buffer ((b.head + index) % capacity)

/-- The entries in the order in which `forEach` visits them. -/
def view (b : CircularBuffer α capacity) : List α :=
  Circular.contents b.buffer capacity b.head b.size

inductive Action (α : Type*) where
  | push (item : α)
  | tryPop
  | clear
  deriving DecidableEq, Repr

def step (b : CircularBuffer α capacity) : Action α → CircularBuffer α capacity
  | .push item => (b.pushImpl item).1
  | .tryPop => (b.tryPop.map Prod.snd).getD b
  | .clear => b.clear

@[simp] theorem length_view (b : CircularBuffer α capacity) : b.view.length = b.size :=
  Circular.length_contents ..

@[simp] theorem view_create [Inhabited α] (h : 0 < capacity) :
    (create h : CircularBuffer α capacity).view = [] := rfl

@[simp] theorem view_clear (b : CircularBuffer α capacity) : b.clear.view = [] := rfl

/-- An entry is put behind the others, and one more than fit pushes the first one out. -/
theorem view_pushImpl (b : CircularBuffer α capacity) (item : α) :
    (b.pushImpl item).1.view = (b.view ++ [item]).drop (b.size + 1 - capacity) := by
  rw [pushImpl]
  split
  next hfull =>
    have hhead : b.head % capacity = b.head := Nat.mod_eq_of_lt b.inside
    have hpos : 0 < capacity := Nat.zero_lt_of_lt b.inside
    have hone : b.size + 1 - capacity = 1 := by rw [hfull, Nat.add_sub_cancel_left]
    have hoverwrite := @Circular.contents_overwrite α b.buffer capacity b.head item hpos
    rw [hhead] at hoverwrite
    have hview : b.view = Circular.contents b.buffer capacity b.head capacity := by
      rw [view, hfull]
    have hle : 1 ≤ b.view.length := by
      rw [length_view, hfull]
      exact hpos
    show Circular.contents (Function.update b.buffer b.head item) capacity
      ((b.head + 1) % capacity) b.size = _
    rw [hone, List.drop_append_of_le_length hle, hview, hfull]
    exact hoverwrite
  next hroom =>
    have hlt : b.size < capacity := Nat.lt_of_le_of_ne b.bounded hroom
    have hnone : b.size + 1 - capacity = 0 := Nat.sub_eq_zero_of_le hlt
    rw [hnone, List.drop_zero]
    exact Circular.contents_push item hlt

/-- The first entry is taken, if there is one. -/
theorem view_tryPop (b : CircularBuffer α capacity) :
    (b.step .tryPop).view = b.view.drop 1 := by
  rw [step, tryPop]
  split
  next hempty =>
    have hnil : b.view = [] := List.eq_nil_of_length_eq_zero ((length_view b).trans hempty)
    show b.view = b.view.drop 1
    rw [hnil]
    rfl
  next => exact Circular.contents_drop 1

theorem view_get [Inhabited α] (b : CircularBuffer α capacity) (index : Nat) :
    b.get index = b.view.getD index default := by
  rw [get]
  split
  next hout => rw [List.getD_eq_default _ _ (by rw [length_view]; exact hout)]
  next hin =>
    have hlt : index < b.view.length := by rw [length_view]; exact Nat.not_le.mp hin
    rw [List.getD_eq_getElem _ _ hlt]
    simp only [view, Circular.contents, List.getElem_map, List.getElem_range]

end CircularBuffer

end Ebus
