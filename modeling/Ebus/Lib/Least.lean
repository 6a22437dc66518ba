import Mathlib.Order.BoundedOrder.Lattice
import Mathlib.Order.Lattice
import Mathlib.Order.MinMax

/-!
# Least values and wired lines

Several participants pull at one line, and each pulls with a value of its own. When the line
combines values as a minimum, what it shows is the least of them, and somebody has it.
-/

namespace Least

variable {α : Type*} [LinearOrder α] [OrderTop α]

/-- The least of the values; without any the line is idle. -/
def least (values : List α) : α := values.foldr min ⊤

@[simp] theorem least_nil : least ([] : List α) = ⊤ := rfl

@[simp] theorem least_cons (a : α) (values : List α) :
    least (a :: values) = min a (least values) := rfl

theorem least_le {values : List α} {a : α} (h : a ∈ values) : least values ≤ a := by
  induction values with
  | nil => exact absurd h List.not_mem_nil
  | cons b values ih =>
      obtain rfl | hmem := List.mem_cons.mp h
      · exact min_le_left _ _
      · exact (min_le_right _ _).trans (ih hmem)

theorem least_mem {values : List α} (h : values ≠ []) : least values ∈ values := by
  induction values with
  | nil => exact absurd rfl h
  | cons a values ih =>
      cases values with
      | nil =>
          rw [least_cons, least_nil, min_top_right]
          exact List.mem_cons_self
      | cons b rest =>
          rw [least_cons]
          obtain hleft | hright := min_choice a (least (b :: rest))
          · rw [hleft]
            exact List.mem_cons_self
          · rw [hright]
            exact List.mem_cons_of_mem _ (ih (List.cons_ne_nil _ _))

/-- A line on which a code of two parts is shown: it combines codes as the minimum combines the
parts, each for itself. So the least first part and the least second part need not be of one
participant. -/
theorem foldr_code {α₁ α₂ β γ : Type*} [LinearOrder α₁] [OrderTop α₁] [LinearOrder α₂]
    [OrderTop α₂] (op : γ → γ → γ) (decode : α₁ → α₂ → γ)
    (hop : ∀ a b c d, op (decode a b) (decode c d) = decode (min a c) (min b d))
    (first : β → α₁) (second : β → α₂) (items : List β) :
    (items.map fun b => decode (first b) (second b)).foldr op (decode ⊤ ⊤) =
      decode (least (items.map first)) (least (items.map second)) := by
  induction items with
  | nil => rfl
  | cons b items ih =>
      show op (decode (first b) (second b))
        ((items.map fun b => decode (first b) (second b)).foldr op (decode ⊤ ⊤)) = _
      rw [ih, hop]
      rfl

end Least
