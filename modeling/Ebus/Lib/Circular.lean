import Mathlib.Data.List.Basic
import Mathlib.Data.Nat.ModEq
import Mathlib.Logic.Function.Basic

/-!
# Circular storage

`count` entries that lie one behind the other in `capacity` cells, from `head` on and around the
end. Putting one behind them, taking some from the front, and the part of them that is in one
piece.
-/

namespace Circular

variable {α : Type*} (cells : Nat → α) (capacity head count : Nat)

def contents : List α := (List.range count).map fun i => cells ((head + i) % capacity)

@[simp] theorem length_contents : (contents cells capacity head count).length = count := by
  simp [contents]

@[simp] theorem contents_zero : contents cells capacity head 0 = [] := rfl

variable {cells capacity head count}

/-- The cell behind the entries is none of theirs. -/
theorem slot_ne {i : Nat} (hi : i < count) (hcount : count < capacity) :
    (head + i) % capacity ≠ (head + count) % capacity := by
  intro heq
  have hmod : i ≡ count [MOD capacity] := Nat.ModEq.add_left_cancel' head heq
  exact absurd (Nat.ModEq.eq_of_lt_of_lt hmod (hi.trans hcount) hcount) hi.ne

theorem contents_push (a : α) (h : count < capacity) :
    contents (Function.update cells ((head + count) % capacity) a) capacity head (count + 1) =
      contents cells capacity head count ++ [a] := by
  rw [contents, List.range_succ, List.map_append, List.map_singleton, Function.update_self]
  congr 1
  refine List.map_congr_left fun i hi => ?_
  exact Function.update_of_ne (slot_ne (List.mem_range.mp hi) h) a cells

theorem contents_drop (k : Nat) :
    contents cells capacity ((head + k) % capacity) (count - k) =
      (contents cells capacity head count).drop k := by
  refine List.ext_getElem (by simp) fun i hi hi' => ?_
  simp only [contents, List.getElem_map, List.getElem_range, List.getElem_drop]
  rw [Nat.mod_add_mod, Nat.add_assoc]

/-- Where all cells are taken, a new entry takes the place of the first one. -/
theorem contents_overwrite (a : α) (h : 0 < capacity) :
    contents (Function.update cells (head % capacity) a) capacity ((head + 1) % capacity)
        capacity = (contents cells capacity head capacity).drop 1 ++ [a] := by
  have hlast : ((head + 1) % capacity + (capacity - 1)) % capacity = head % capacity := by
    rw [Nat.mod_add_mod, Nat.add_assoc, Nat.add_sub_cancel' h, Nat.add_mod_right]
  have hpush := @contents_push α cells capacity ((head + 1) % capacity) (capacity - 1) a
    (Nat.sub_lt h Nat.one_pos)
  rw [hlast, Nat.sub_add_cancel h, contents_drop] at hpush
  exact hpush

/-- What lies in front of the end of the cells is one piece. -/
theorem contents_take {k : Nat} (hcount : k ≤ count) (hend : head + k ≤ capacity) :
    (List.range k).map (fun i => cells (head + i)) =
      (contents cells capacity head count).take k := by
  refine List.ext_getElem (by simp [hcount]) fun i hi _ => ?_
  have hk : i < k := by simpa using hi
  simp only [contents, List.getElem_map, List.getElem_range, List.getElem_take]
  rw [Nat.mod_eq_of_lt (by omega)]

end Circular
