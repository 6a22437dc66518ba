import Mathlib.Logic.Function.Basic
import Mathlib.Tactic.Common

/-!
# Slots that are handed out in order

A map from keys to slots of a pool of which the first `used` ones are taken. A key without a slot
gets the next one, and no slot is given back.
-/

namespace Slots

variable {κ : Type*} (map : κ → Option Nat) (used : Nat)

/-- Each taken slot belongs to exactly one key. -/
structure Valid : Prop where
  lt : ∀ {k i}, map k = some i → i < used
  injective : ∀ {k k' i}, map k = some i → map k' = some i → k = k'
  onto : ∀ {i}, i < used → ∃ k, map k = some i

variable {map used}

theorem valid_empty : Valid (fun _ : κ => none) 0 where
  lt h := by cases h
  injective h := by cases h
  onto h := absurd h (Nat.not_lt_zero _)

variable [DecidableEq κ]

theorem update_eq_some {k k' : κ} {i j : Nat}
    (h : Function.update map k (some j) k' = some i) :
    k' = k ∧ i = j ∨ k' ≠ k ∧ map k' = some i := by
  by_cases heq : k' = k
  · rw [heq, Function.update_self] at h
    exact .inl ⟨heq, (Option.some.inj h).symm⟩
  · rw [Function.update_of_ne heq] at h
    exact .inr ⟨heq, h⟩

/-- The key with the new slot had none; the others keep theirs. -/
theorem Valid.alloc (h : Valid map used) {k : κ} (hk : map k = none) :
    Valid (Function.update map k (some used)) (used + 1) where
  lt hk' := by
    obtain ⟨-, rfl⟩ | ⟨-, hold⟩ := update_eq_some hk'
    · exact Nat.lt_succ_self _
    · exact Nat.lt_succ_of_lt (h.lt hold)
  injective := by
    intro k' k'' i h' h''
    obtain ⟨rfl, rfl⟩ | ⟨hne, hold⟩ := update_eq_some h'
    · obtain ⟨rfl, -⟩ | ⟨-, hold⟩ := update_eq_some h''
      · rfl
      · exact absurd (h.lt hold) (Nat.lt_irrefl _)
    · obtain ⟨rfl, rfl⟩ | ⟨-, hold'⟩ := update_eq_some h''
      · exact absurd (h.lt hold) (Nat.lt_irrefl _)
      · exact h.injective hold hold'
  onto := by
    intro i hi
    obtain hlt | rfl := Nat.lt_succ_iff_lt_or_eq.mp hi
    · obtain ⟨k', hk'⟩ := h.onto hlt
      refine ⟨k', ?_⟩
      rw [Function.update_of_ne, hk']
      rintro rfl
      rw [hk] at hk'
      cases hk'
    · exact ⟨k, Function.update_self ..⟩

theorem update_of_some {k k' : κ} {i j : Nat} (hk : map k = none) (h : map k' = some i) :
    Function.update map k (some j) k' = some i := by
  rw [Function.update_of_ne, h]
  rintro rfl
  rw [hk] at h
  cases h

end Slots
