import Mathlib.Tactic.Common
import Mathlib.Data.List.Basic
import Mathlib.Logic.Function.Basic

/-!
# Running check sums over an arbitrary alphabet

A check sum is folded over a text symbol by symbol. Where a step loses nothing of the
state and tells any two symbols apart, a text with one changed symbol never has the
check sum of the original: the states part at the change, and no common suffix brings
them together again.
-/

namespace Checksum

variable {σ α : Type*} {step : σ → α → σ}

/-- A text keeps apart what its symbols keep apart. -/
theorem foldl_injective (hstate : ∀ a, Function.Injective (step · a)) (xs : List α) :
    Function.Injective (xs.foldl step) := by
  induction xs with
  | nil => exact Function.injective_id
  | cons a xs ih =>
      intro s t h
      exact hstate a (ih h)

/-- The texts agree before and behind one symbol. -/
inductive SingleChange : List α → List α → Prop
  | mk (front : List α) {a b : α} (back : List α) (hne : a ≠ b) :
      SingleChange (front ++ a :: back) (front ++ b :: back)

theorem singleChange_of_existsUnique {xs ys : List α} (hlen : xs.length = ys.length)
    (h : ∃! i : Nat, xs[i]? ≠ ys[i]?) : SingleChange xs ys := by
  obtain ⟨i, hi, honly⟩ := h
  have hsame (j : Nat) (hj : j ≠ i) : xs[j]? = ys[j]? := by
    by_contra hne
    exact hj (honly j hne)
  have hx : i < xs.length := by
    by_contra hge
    apply hi
    rw [List.getElem?_eq_none (by omega), List.getElem?_eq_none (by omega)]
  have hy : i < ys.length := hlen ▸ hx
  have hfront : ys.take i = xs.take i := by
    apply List.ext_getElem?
    intro j
    rw [List.getElem?_take, List.getElem?_take]
    split
    · exact (hsame j (by omega)).symm
    · rfl
  have hback : ys.drop (i + 1) = xs.drop (i + 1) := by
    apply List.ext_getElem?
    intro j
    rw [List.getElem?_drop, List.getElem?_drop]
    exact (hsame _ (by omega)).symm
  have hne : xs[i] ≠ ys[i] := by
    intro heq
    apply hi
    rw [List.getElem?_eq_getElem hx, List.getElem?_eq_getElem hy, heq]
  have hxs : xs = xs.take i ++ xs[i] :: xs.drop (i + 1) := by
    rw [← List.drop_eq_getElem_cons hx, List.take_append_drop]
  have hys : ys = xs.take i ++ ys[i] :: xs.drop (i + 1) := by
    rw [← hfront, ← hback, ← List.drop_eq_getElem_cons hy, List.take_append_drop]
  rw [hxs, hys]
  exact .mk _ _ hne

/-- One changed symbol changes the check sum, whatever follows it. -/
theorem foldl_ne_of_singleChange (hstate : ∀ a, Function.Injective (step · a))
    (hsymbol : ∀ s, Function.Injective (step s)) {xs ys : List α} (h : SingleChange xs ys)
    (init : σ) : xs.foldl step init ≠ ys.foldl step init := by
  obtain ⟨front, back, hne⟩ := h
  rw [List.foldl_append, List.foldl_append, List.foldl_cons, List.foldl_cons]
  intro heq
  exact hne (hsymbol _ (foldl_injective hstate back heq))

end Checksum
