import Mathlib.Data.List.Basic
import Mathlib.Tactic.Common

/-!
# Lists taken two at a time

The pairs that start at the even positions; a last element without a partner is in none of them.
A loop that counts the pairs reads each at twice its number, and a loop that fills a buffer writes
what it reads over the front of it.
-/

namespace Pairs

variable {α β : Type*}

def pairs : List α → List (α × α)
  | [] => []
  | [_] => []
  | a :: b :: rest => (a, b) :: pairs rest

@[simp] theorem length_pairs (l : List α) : (pairs l).length = l.length / 2 := by
  fun_induction pairs l with
  | case1 => exact (Nat.zero_div 2).symm
  | case2 => exact (Nat.div_eq_of_lt (Nat.lt_succ_self 1)).symm
  | case3 a b rest ih =>
      simp only [List.length_cons, ih]
      omega

theorem getElem?_pairs {l : List α} {i : Nat} {pair : α × α} :
    (pairs l)[i]? = some pair ↔ l[i * 2]? = some pair.1 ∧ l[i * 2 + 1]? = some pair.2 := by
  fun_induction pairs l generalizing i with
  | case1 => simp
  | case2 a => simp
  | case3 a b rest ih =>
      cases i with
      | zero => simp [Prod.ext_iff]
      | succ i =>
          have hnext : (i + 1) * 2 = i * 2 + 1 + 1 := by omega
          rw [hnext]
          exact ih

theorem drop_eq_cons_cons {l : List α} {i : Nat} (h : i + 1 < l.length) :
    l.drop i = l[i] :: l[i + 1] :: l.drop (i + 2) := by
  rw [List.drop_eq_getElem_cons (Nat.lt_of_succ_lt h), List.drop_eq_getElem_cons h]

/-- The two elements at the number of a pair. -/
theorem take_drop {l : List α} {i : Nat} {pair : α × α} (h : (pairs l)[i]? = some pair) :
    (l.drop (i * 2)).take 2 = [pair.1, pair.2] := by
  obtain ⟨hfirst, hsecond⟩ := getElem?_pairs.mp h
  obtain ⟨_, hfirst⟩ := List.getElem?_eq_some_iff.mp hfirst
  obtain ⟨hlt, hsecond⟩ := List.getElem?_eq_some_iff.mp hsecond
  rw [drop_eq_cons_cons hlt, hfirst, hsecond]
  rfl

theorem pairs_cons_cons (a b : α) (rest : List α) : pairs (a :: b :: rest) = (a, b) :: pairs rest :=
  rfl

theorem pairs_of_length_lt {l : List α} (h : l.length < 2) : pairs l = [] := by
  rw [← List.length_eq_zero_iff, length_pairs]
  omega

theorem pairs_flatMap (f g : β → α) (l : List β) :
    pairs (l.flatMap fun b => [f b, g b]) = l.map fun b => (f b, g b) := by
  induction l with
  | nil => rfl
  | cons b l ih =>
      rw [List.map_cons, ← ih]
      rfl

/-- A map over the pairs by their numbers. -/
theorem map_range (f : List α → β) (l : List α) {n : Nat} (h : n ≤ l.length / 2) :
    (List.range n).map (fun i => f ((l.drop (i * 2)).take 2)) =
      ((pairs l).take n).map fun pair => f [pair.1, pair.2] := by
  refine List.ext_getElem (by simp [h]) fun i hi hi' => ?_
  have hpair : i < (pairs l).length := by
    simp only [List.length_map, List.length_range] at hi
    rw [length_pairs]
    omega
  simp only [List.getElem_map, List.getElem_range, List.getElem_take]
  rw [take_drop (List.getElem?_eq_getElem hpair)]

/-- Filling a buffer from the front. -/
theorem foldl_set (f : Nat → β) (out : List β) {n : Nat} (h : n ≤ out.length) :
    (List.range n).foldl (fun out i => out.set i (f i)) out =
      (List.range n).map f ++ out.drop n := by
  induction n with
  | zero => rfl
  | succ n ih =>
      have hlength : ((List.range n).map f).length = n := by simp
      have hset : (out.drop n).set 0 (f n) = f n :: out.drop (n + 1) := by
        rw [List.drop_eq_getElem_cons h, List.set_cons_zero]
      rw [List.range_succ, List.foldl_append, ih (Nat.le_of_succ_le h), List.map_append,
        List.append_assoc, List.foldl_cons, List.foldl_nil,
        List.set_append_right _ _ (Nat.le_of_eq hlength), hlength, Nat.sub_self, hset]
      rfl

end Pairs
