import Mathlib.Tactic.Common
import Mathlib.Data.List.Basic

/-!
# Escape codes over an arbitrary alphabet

A transmitted symbol is either itself or the pair of a reserved escape symbol
and a code symbol. The encoder is total; the decoder keeps a symbol that starts
no valid pair, which is what a receiver does that may see malformed input.

Three facts are used by protocol proofs: decoding inverts encoding in front of any
continuation; the escape symbol occurs exactly once for each stuffed symbol and
never last, so that a receiver can count it to find the end of a frame; and on
malformed input decoding removes at most one symbol for each escape it sees.
-/

/-- An escape code: which symbols are stuffed, and how their pair is completed. -/
structure EscapeCode (α : Type*) where
  esc : α
  stuffed : α → Bool
  code : α → α
  decode : α → Option α
  stuffed_esc : stuffed esc = true
  decode_code : ∀ a, stuffed a = true → decode (code a) = some a
  code_ne_esc : ∀ a, stuffed a = true → code a ≠ esc
  stuffed_of_decode : ∀ b a, decode b = some a → stuffed a = true

namespace EscapeCode

variable {α : Type*} (c : EscapeCode α)

/-- Encode, from the last symbol to the first. -/
def stuff (xs : List α) : List α :=
  xs.foldr (fun a rest => if c.stuffed a then c.esc :: c.code a :: rest else a :: rest) []

@[simp] theorem stuff_nil : c.stuff [] = [] := rfl

@[simp] theorem stuff_cons (a : α) (xs : List α) :
    c.stuff (a :: xs) = if c.stuffed a then c.esc :: c.code a :: c.stuff xs
      else a :: c.stuff xs := rfl

theorem stuff_append (xs ys : List α) : c.stuff (xs ++ ys) = c.stuff xs ++ c.stuff ys := by
  induction xs with
  | nil => rfl
  | cons a xs ih =>
      simp only [List.cons_append, stuff_cons, ih]
      split <;> rfl

/-- Symbols outside the stuffed set are transmitted unchanged. -/
theorem stuff_eq_self {xs : List α} (h : ∀ a ∈ xs, c.stuffed a = false) : c.stuff xs = xs := by
  induction xs with
  | nil => rfl
  | cons a xs ih =>
      rw [stuff_cons, if_neg (by simp [h a (by simp)]), ih (fun b hb => h b (by simp [hb]))]

theorem length_stuff (xs : List α) : (c.stuff xs).length = xs.length + xs.countP c.stuffed := by
  induction xs with
  | nil => rfl
  | cons a xs ih =>
      rw [stuff_cons, List.countP_cons]
      by_cases h : c.stuffed a = true
      · simp only [h, if_true, List.length_cons, ih]
        omega
      · simp only [h, List.length_cons]
        simp only [Bool.false_eq_true, if_false, List.length_cons, ih]
        omega

theorem stuff_eq_nil_iff {xs : List α} : c.stuff xs = [] ↔ xs = [] := by
  cases xs with
  | nil => simp
  | cons a xs => simp only [stuff_cons]; split <;> simp

/-- The last transmitted symbol is never the escape symbol. -/
theorem getLast?_stuff_ne_esc (xs : List α) : (c.stuff xs).getLast? ≠ some c.esc := by
  induction xs with
  | nil => simp
  | cons a xs ih =>
      rw [stuff_cons]
      by_cases hxs : c.stuff xs = []
      · by_cases h : c.stuffed a = true
        · simp [h, hxs, c.code_ne_esc a h]
        · have hne : a ≠ c.esc := by
            rintro rfl
            exact h c.stuffed_esc
          simp [h, hxs, hne]
      · obtain ⟨x, ys, hx⟩ := List.exists_cons_of_ne_nil hxs
        rw [hx] at ih ⊢
        split <;> simpa [List.getLast?_cons_cons] using ih

section Decode

variable [DecidableEq α]

/-- Decode from the first symbol on; a symbol that starts no pair is kept. -/
def unstuff : List α → List α
  | [] => []
  | [a] => [a]
  | a :: b :: rest =>
      if a = c.esc then
        match c.decode b with
        | some u => u :: unstuff rest
        | none => a :: unstuff (b :: rest)
      else a :: unstuff (b :: rest)

theorem unstuff_nil : c.unstuff [] = [] := rfl

theorem unstuff_cons_of_ne {a : α} (h : a ≠ c.esc) (rest : List α) :
    c.unstuff (a :: rest) = a :: c.unstuff rest := by
  cases rest with
  | nil => rfl
  | cons b rest => exact if_neg h

theorem unstuff_esc_cons (b : α) (rest : List α) :
    c.unstuff (c.esc :: b :: rest) = match c.decode b with
      | some u => u :: c.unstuff rest
      | none => c.esc :: c.unstuff (b :: rest) :=
  if_pos rfl

theorem unstuff_of_decode {b u : α} (h : c.decode b = some u) (rest : List α) :
    c.unstuff (c.esc :: b :: rest) = u :: c.unstuff rest := by
  rw [unstuff_esc_cons, h]

theorem unstuff_of_undecodable {b : α} (h : c.decode b = none) (rest : List α) :
    c.unstuff (c.esc :: b :: rest) = c.esc :: c.unstuff (b :: rest) := by
  rw [unstuff_esc_cons, h]

theorem unstuff_pair {a : α} (h : c.stuffed a = true) (rest : List α) :
    c.unstuff (c.esc :: c.code a :: rest) = a :: c.unstuff rest :=
  c.unstuff_of_decode (c.decode_code a h) rest

/-- Decoding inverts encoding, whatever the wire carries afterwards. -/
theorem unstuff_stuff_append (xs rest : List α) :
    c.unstuff (c.stuff xs ++ rest) = xs ++ c.unstuff rest := by
  induction xs with
  | nil => rfl
  | cons a xs ih =>
      rw [stuff_cons]
      by_cases h : c.stuffed a = true
      · rw [if_pos h]
        simp only [List.cons_append]
        rw [unstuff_pair c h, ih]
      · rw [if_neg h]
        simp only [List.cons_append]
        have hne : a ≠ c.esc := by
          rintro rfl
          exact h c.stuffed_esc
        rw [unstuff_cons_of_ne c hne, ih]

theorem unstuff_stuff (xs : List α) : c.unstuff (c.stuff xs) = xs := by
  simpa [unstuff_nil] using c.unstuff_stuff_append xs []

theorem unstuff_eq_self {xs : List α} (h : c.esc ∉ xs) : c.unstuff xs = xs := by
  induction xs with
  | nil => rfl
  | cons a xs ih =>
      simp only [List.mem_cons, not_or] at h
      rw [unstuff_cons_of_ne c (Ne.symm h.1), ih h.2]

theorem unstuff_ne_nil {xs : List α} (h : xs ≠ []) : c.unstuff xs ≠ [] := by
  match xs with
  | [] => exact absurd rfl h
  | [a] => exact List.cons_ne_nil _ _
  | a :: b :: rest =>
      by_cases ha : a = c.esc
      · rw [ha, unstuff_esc_cons]
        split <;> exact List.cons_ne_nil _ _
      · rw [c.unstuff_cons_of_ne ha]
        exact List.cons_ne_nil _ _

/-- A pair shrinks to one symbol, so decoding at most halves the length. -/
theorem length_le_two_mul_unstuff (xs : List α) :
    xs.length ≤ 2 * (c.unstuff xs).length := by
  fun_induction unstuff c xs with
  | case1 => simp
  | case2 a => simp
  | case3 b rest u hu ih =>
      simp only [List.length_cons]
      omega
  | case4 b rest hu ih =>
      simp only [List.length_cons] at ih ⊢
      omega
  | case5 a b rest h ih =>
      simp only [List.length_cons] at ih ⊢
      omega

/-- Each removed symbol is accounted for by an escape symbol. -/
theorem length_le_unstuff_add_count (xs : List α) :
    xs.length ≤ (c.unstuff xs).length + xs.count c.esc := by
  fun_induction unstuff c xs with
  | case1 => simp
  | case2 a => simp
  | case3 b rest u hu ih =>
      simp only [List.length_cons, List.count_cons_self]
      have : rest.count c.esc ≤ (b :: rest).count c.esc := List.count_le_count_cons
      omega
  | case4 b rest hu ih =>
      simp only [List.length_cons, List.count_cons_self] at ih ⊢
      omega
  | case5 a b rest h ih =>
      simp only [List.length_cons, List.count_cons_of_ne h] at ih ⊢
      omega

theorem length_unstuff_le (xs : List α) : (c.unstuff xs).length ≤ xs.length := by
  fun_induction unstuff c xs with
  | case1 => simp
  | case2 a => simp
  | case3 b rest u hu ih =>
      simp only [List.length_cons]
      omega
  | case4 b rest hu ih =>
      simp only [List.length_cons] at ih ⊢
      omega
  | case5 a b rest h ih =>
      simp only [List.length_cons] at ih ⊢
      omega

/-- Decoding makes no escape symbols: a pair stands for at most one. -/
theorem count_esc_unstuff_le (xs : List α) : (c.unstuff xs).count c.esc ≤ xs.count c.esc := by
  fun_induction unstuff c xs with
  | case1 => simp
  | case2 a => simp
  | case3 b rest u hu ih =>
      have hone : (u :: c.unstuff rest).count c.esc ≤ (c.unstuff rest).count c.esc + 1 := by
        rw [List.count_cons]
        split <;> omega
      have hrest : rest.count c.esc ≤ (b :: rest).count c.esc := List.count_le_count_cons
      rw [List.count_cons_self]
      omega
  | case4 b rest hu ih =>
      rw [List.count_cons_self, List.count_cons_self]
      omega
  | case5 a b rest h ih => rwa [List.count_cons_of_ne h, List.count_cons_of_ne h]

/-- Where the decoded text starts with plain symbols, the wire starts with the same. -/
theorem unstuff_of_plain_take {xs : List α} {n : Nat}
    (h : ∀ a ∈ (c.unstuff xs).take n, c.stuffed a = false) :
    c.unstuff xs = xs.take n ++ c.unstuff (xs.drop n) := by
  induction n generalizing xs with
  | zero => simp
  | succ n ih =>
      have hkept {a : α} {rest : List α} (hxs : c.unstuff (a :: rest) = a :: c.unstuff rest)
          (hplain : ∀ x ∈ (c.unstuff (a :: rest)).take (n + 1), c.stuffed x = false) :
          c.unstuff (a :: rest) =
            (a :: rest).take (n + 1) ++ c.unstuff ((a :: rest).drop (n + 1)) := by
        rw [hxs] at hplain ⊢
        rw [List.take_succ_cons, List.drop_succ_cons, List.cons_append, ← ih]
        intro x hx
        exact hplain x (by simp [hx])
      match xs with
      | [] => simp [unstuff_nil]
      | [a] => exact hkept rfl h
      | a :: b :: rest =>
          by_cases ha : a = c.esc
          · subst ha
            cases hd : c.decode b with
            | some u =>
                -- a decoded pair is a stuffed symbol at the front
                have hplain := h u (by simp [c.unstuff_of_decode hd])
                rw [c.stuffed_of_decode b u hd] at hplain
                cases hplain
            | none => exact hkept (c.unstuff_of_undecodable hd rest) h
          · exact hkept (c.unstuff_cons_of_ne ha _) h

theorem count_esc_stuff (xs : List α) : (c.stuff xs).count c.esc = xs.countP c.stuffed := by
  induction xs with
  | nil => rfl
  | cons a xs ih =>
      rw [stuff_cons, List.countP_cons]
      by_cases h : c.stuffed a = true
      · simp [h, ih, c.code_ne_esc a h]
      · have hne : a ≠ c.esc := by
          rintro rfl
          exact h c.stuffed_esc
        simp [h, ih, hne]

/-- What an encoder can have sent. -/
inductive Coded : List α → Prop
  | nil : Coded []
  | plain {a : α} {rest : List α} : c.stuffed a = false → Coded rest → Coded (a :: rest)
  | pair {a : α} {rest : List α} : c.stuffed a = true → Coded rest →
      Coded (c.esc :: c.code a :: rest)

omit [DecidableEq α] in
theorem coded_stuff (xs : List α) : c.Coded (c.stuff xs) := by
  induction xs with
  | nil => exact .nil
  | cons a xs ih =>
      rw [stuff_cons]
      split
      · exact .pair ‹_› ih
      · exact .plain (Bool.eq_false_iff.mpr ‹_›) ih

/-- On what an encoder can have sent, encoding inverts decoding. -/
theorem Coded.stuff_unstuff {xs : List α} (h : c.Coded xs) : c.stuff (c.unstuff xs) = xs := by
  induction h with
  | nil => rfl
  | @plain a rest ha _ ih =>
      have hne : a ≠ c.esc := by
        rintro rfl
        rw [c.stuffed_esc] at ha
        cases ha
      rw [c.unstuff_cons_of_ne hne, stuff_cons, if_neg (by simp [ha]), ih]
  | @pair a rest ha _ ih => rw [c.unstuff_pair ha, stuff_cons, if_pos ha, ih]

theorem Coded.unstuff_append {xs : List α} (h : c.Coded xs) (ys : List α) :
    c.unstuff (xs ++ ys) = c.unstuff xs ++ c.unstuff ys := by
  have happend := c.unstuff_stuff_append (c.unstuff xs) ys
  rwa [h.stuff_unstuff] at happend

/-- A receiver that counts escape symbols has not seen the whole frame before
its last symbol: what is outstanding holds fewer escapes than symbols. -/
theorem count_esc_suffix_lt {xs front back : List α} (h : c.stuff xs = front ++ back)
    (hback : back ≠ []) : back.count c.esc < back.length := by
  have hlast := c.getLast?_stuff_ne_esc xs
  rw [h, List.getLast?_append_of_ne_nil _ hback] at hlast
  refine Nat.lt_of_le_of_ne List.count_le_length ?_
  intro heq
  have hall := List.count_eq_length.mp heq
  obtain ⟨last, hmem⟩ : ∃ last, back.getLast? = some last :=
    ⟨_, List.getLast?_eq_getLast_of_ne_nil hback⟩
  exact hlast (by rw [hmem, ← hall last (List.mem_of_getLast? hmem)])

end Decode

end EscapeCode
