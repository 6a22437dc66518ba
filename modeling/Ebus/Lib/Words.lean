import Mathlib.Tactic.Common
import Mathlib.Data.List.Basic

/-!
# Streams of words

A reader takes the value of one word from the front of a stream; which word that is does not depend
on what follows it. `Whole` streams are those that are read to their end. What stands before and
behind whole streams is read independently of them.
-/

/-- What reads one word at a time. -/
structure WordReader (α β : Type*) where
  next : List α → Option (β × List α)
  /-- a word has a letter, and it is the word whatever stands behind it -/
  word : ∀ {l b rest}, next l = some (b, rest) →
    ∃ w, w ≠ [] ∧ l = w ++ rest ∧ ∀ rest', next (w ++ rest') = some (b, rest')

namespace WordReader

variable {α β : Type*} (r : WordReader α β)

theorem length_lt {l rest : List α} {b : β} (h : r.next l = some (b, rest)) :
    rest.length < l.length := by
  obtain ⟨w, hw, rfl, -⟩ := r.word h
  rw [List.length_append]
  exact Nat.lt_add_of_pos_left (List.length_pos_iff.mpr hw)

theorem next_append {l rest : List α} {b : β} (h : r.next l = some (b, rest)) (l' : List α) :
    r.next (l ++ l') = some (b, rest ++ l') := by
  obtain ⟨w, -, rfl, hword⟩ := r.word h
  rw [List.append_assoc]
  exact hword _

/-- The values of the words in front; what does not start with a word is left. -/
def values (l : List α) : List β :=
  match _ : r.next l with
  | none => []
  | some (b, rest) => b :: values rest
termination_by l.length
decreasing_by exact r.length_lt ‹_›

variable {r}

theorem values_of_some {l rest : List α} {b : β} (h : r.next l = some (b, rest)) :
    r.values l = b :: r.values rest := by
  rw [values]
  split
  · simp_all
  · simp_all

theorem values_of_none {l : List α} (h : r.next l = none) : r.values l = [] := by
  rw [values]
  split
  · rfl
  · simp_all

@[simp] theorem next_nil : r.next [] = none := by
  cases h : r.next [] with
  | none => rfl
  | some read => exact absurd (r.length_lt h) (Nat.not_lt_zero _)

@[simp] theorem values_nil : r.values [] = [] := values_of_none next_nil

variable (r) in
/-- Words and nothing else. -/
inductive Whole : List α → Prop
  | nil : Whole []
  | cons {l rest b} : r.next l = some (b, rest) → Whole rest → Whole l

namespace Whole

variable {l l' : List α}

theorem append (h : Whole r l) (h' : Whole r l') : Whole r (l ++ l') := by
  induction h with
  | nil => exact h'
  | cons hnext _ ih => exact .cons (r.next_append hnext l') ih

/-- What stands behind words of a whole stream is whole. -/
theorem of_append (hboth : Whole r (l ++ l')) (h : Whole r l) : Whole r l' := by
  induction h with
  | nil => exact hboth
  | cons hnext _ ih =>
      have hread := r.next_append hnext l'
      generalize _ ++ l' = both at hboth hread
      cases hboth with
      | nil => exact absurd (r.length_lt hread) (Nat.not_lt_zero _)
      | cons hread' hrest =>
          rw [hread] at hread'
          cases hread'
          exact ih hrest

theorem single {b : β} (h : r.next l = some (b, [])) : Whole r l := .cons h .nil

end Whole

theorem values_append {l : List α} (h : Whole r l) (l' : List α) :
    r.values (l ++ l') = r.values l ++ r.values l' := by
  induction h with
  | nil => rw [values_nil, List.nil_append, List.nil_append]
  | cons hnext _ ih =>
      rw [values_of_some hnext, values_of_some (r.next_append hnext l'), ih, List.cons_append]

/-- The end of a stream does not change what is read before it. -/
theorem values_prefix (l l' : List α) : r.values l <+: r.values (l ++ l') := by
  induction l using WordReader.values.induct r with
  | case1 l hnext =>
      rw [values_of_none hnext]
      exact List.nil_prefix
  | case2 l b rest hnext ih =>
      rw [values_of_some hnext, values_of_some (r.next_append hnext l')]
      exact List.cons_prefix_cons.mpr ⟨rfl, ih⟩

theorem values_single {l : List α} {b : β} (h : r.next l = some (b, [])) : r.values l = [b] := by
  rw [values_of_some h, values_nil]

end WordReader
