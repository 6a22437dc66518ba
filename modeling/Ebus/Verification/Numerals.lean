import Mathlib.Data.Nat.Digits.Lemmas
import Ebus.Utils.Chars
import Ebus.Lib.Json

/-!
# Numbers and their texts

What `toChars` prints is a number of a text and is read back by `fromChars`, for every integral
type that holds the value.
-/

namespace Ebus.Chars

open Json

/-- The character of a decimal digit. -/
def digitChar (digit : Nat) : UInt8 := UInt8.ofNat (0x30 + digit)

theorem digitChar_spec : ∀ digit < 10, digitValue (digitChar digit) = some digit ∧
    isDigit (digitChar digit) = true ∧ (digitChar digit = 0x30 → digit = 0) := by decide

/-- The digits of a number as they are written, from the highest one. -/
def numeral (n : Nat) : List Nat := if n = 0 then [0] else (Nat.digits 10 n).reverse

theorem decimal_eq {fuel n : Nat} (hfuel : n < fuel) :
    decimal fuel n = (numeral n).map digitChar := by
  induction fuel generalizing n with
  | zero => omega
  | succ fuel ih =>
      rw [decimal, numeral]
      by_cases hn : n = 0
      · rw [hn]
        rfl
      by_cases hlt : n < 10
      · rw [if_pos hlt, if_neg hn, Nat.digits_of_lt 10 n hn hlt]
        rfl
      · have hdiv : n / 10 ≠ 0 := by omega
        rw [if_neg hlt, if_neg hn, Nat.digits_def' (by decide) (by omega), ih (by omega), numeral,
          if_neg hdiv, List.reverse_cons, List.map_append]
        rfl

theorem lt_of_mem_numeral {n digit : Nat} (h : digit ∈ numeral n) : digit < 10 := by
  rw [numeral] at h
  split at h
  · rw [List.mem_singleton.mp h]
    decide
  · exact Nat.digits_lt_base (by decide) (List.mem_reverse.mp h)

theorem numeral_ne_nil (n : Nat) : numeral n ≠ [] := by
  by_cases hn : n = 0
  · simp [numeral, hn]
  · simp [numeral, hn, Nat.digits_ne_nil_iff_ne_zero]

theorem length_numeral {n k : Nat} (hk : 0 < k) (hn : n < 10 ^ k) : (numeral n).length ≤ k := by
  rw [numeral]
  split
  · exact hk
  · rw [List.length_reverse]
    exact (Nat.digits_length_le_iff (by decide) n).mpr hn

/-- There are no leading zeros. -/
theorem head_numeral {n : Nat} (hn : n ≠ 0) : (numeral n).head? ≠ some 0 := by
  have hlast := Nat.getLast_digit_ne_zero 10 hn
  rw [numeral, if_neg hn, List.head?_reverse,
    List.getLast?_eq_getLast_of_ne_nil (Nat.digits_ne_nil_iff_ne_zero.mpr hn)]
  exact fun h => hlast (Option.some.inj h)

/-- The sum that `from_chars` takes of the digits. -/
def magnitude (digits : List Nat) : Int :=
  digits.foldl (fun (value : Int) (digit : Nat) => value * (10 : Nat) + digit) 0

theorem magnitude_numeral (n : Nat) : magnitude (numeral n) = n := by
  by_cases hn : n = 0
  · rw [hn]
    rfl
  have hstep : (fun (digit : Nat) (value : Int) => value * (10 : Nat) + digit) =
      fun (digit : Nat) (value : Int) => (digit : Int) + (10 : Nat) * value := by
    funext digit value
    rw [Int.add_comm, Int.mul_comm]
  rw [magnitude, numeral, if_neg hn, List.foldl_reverse, hstep, ← Nat.ofDigits_eq_foldr,
    ← Nat.coe_ofDigits ℤ, Nat.ofDigits_digits]

theorem spanDigits_map {digits : List Nat} (h : ∀ digit ∈ digits, digit < 10) :
    spanDigits 10 (digits.map digitChar) = (digits, []) := by
  induction digits with
  | nil => rfl
  | cons digit digits ih =>
      have hdigit := h digit List.mem_cons_self
      have hrest := ih fun d hd => h d (List.mem_cons_of_mem _ hd)
      rw [List.map_cons, spanDigits, (digitChar_spec digit hdigit).1]
      simp only [hdigit, if_true, hrest]

theorem toChars_eq (value : Int) :
    toChars value =
      if value < 0 then 0x2d :: (numeral value.natAbs).map digitChar
      else (numeral value.natAbs).map digitChar := by
  rw [toChars, decimal_eq (Nat.lt_succ_self _)]

theorem digits_numeral (n : Nat) : Digits ((numeral n).map digitChar) := by
  refine ⟨by simpa using numeral_ne_nil n, fun char hmem => ?_⟩
  obtain ⟨digit, hdigit, rfl⟩ := List.mem_map.mp hmem
  exact (digitChar_spec digit (lt_of_mem_numeral hdigit)).2.1

theorem numberText_toChars (value : Int) : NumberText (toChars value) := by
  have hdigits := digits_numeral value.natAbs
  have hhead : (numeral value.natAbs).map digitChar = [0x30] ∨
      ((numeral value.natAbs).map digitChar).head? ≠ some 0x30 := by
    by_cases hzero : value.natAbs = 0
    · rw [hzero]
      exact .inl rfl
    · refine .inr fun h => ?_
      rw [List.head?_map, Option.map_eq_some_iff] at h
      obtain ⟨digit, hfirst, hdigit⟩ := h
      have hlt := lt_of_mem_numeral (List.mem_of_mem_head? hfirst)
      have hdigit := (digitChar_spec digit hlt).2.2 hdigit
      exact head_numeral hzero (hdigit ▸ hfirst)
  rw [toChars_eq]
  split
  · exact ⟨[0x2d], _, [], [], by simp, .inr rfl, hdigits, hhead, .inl rfl, .inl rfl⟩
  · exact ⟨[], _, [], [], by simp, .inl rfl, hdigits, hhead, .inl rfl, .inl rfl⟩

theorem length_toChars {value : Int} {k : Nat} (hk : 0 < k) (h : value.natAbs < 10 ^ k) :
    (toChars value).length ≤ k + 1 := by
  have hlength := length_numeral hk h
  rw [toChars_eq]
  split
  · rw [List.length_cons, List.length_map]
    omega
  · rw [List.length_map]
    omega

/-- A type reads back each value that it holds. -/
theorem fromChars_toChars {type : IntType} {value : Int} (h : type.Holds value) :
    fromChars type 10 (toChars value) = some (value, []) := by
  have hspan : spanDigits 10 ((numeral value.natAbs).map digitChar) = (numeral value.natAbs, []) :=
    spanDigits_map fun _ hmem => lt_of_mem_numeral hmem
  have hempty : (numeral value.natAbs).isEmpty = false := by
    simpa using numeral_ne_nil value.natAbs
  have hmagnitude := magnitude_numeral value.natAbs
  rw [magnitude] at hmagnitude
  rw [toChars_eq, fromChars]
  by_cases hneg : value < 0
  · have hsigned : type.signed = true := by
      rw [← Bool.not_eq_false]
      intro hunsigned
      have hmin := h.1
      rw [IntType.min, if_neg (by simp [hunsigned])] at hmin
      omega
    have habs : -(value.natAbs : Int) = value := by omega
    simp only [hneg, if_true, hsigned, List.head?_cons, beq_self_eq_true, Bool.and_self,
      List.tail_cons, hspan, hempty, Bool.false_eq_true, if_false, hmagnitude, habs, h]
  · have hhead : (((numeral value.natAbs).map digitChar).head? == some 0x2d) = false := by
      rw [beq_eq_false_iff_ne]
      intro hminus
      have hdigit := (digits_numeral value.natAbs).2 _ (List.mem_of_mem_head? hminus)
      revert hdigit
      decide
    have habs : (value.natAbs : Int) = value := by omega
    simp only [hneg, if_false, hhead, Bool.and_false, Bool.false_eq_true, hspan, hempty,
      hmagnitude, habs, h, if_true]

/-- Neither a prefix nor the word for a missing value is mistaken for a number. -/
theorem toNumStrict_toChars {type : IntType} {value : Int} (h : type.Holds value) :
    toNumStrict type (toChars value) = some value := by
  have hfrom := fromChars_toChars h
  have hmem : ∀ char ∈ toChars value, isDigit char = true ∨ char = 0x2d := by
    intro char hmem
    have hdigits := (digits_numeral value.natAbs).2
    rw [toChars_eq] at hmem
    split at hmem
    · obtain rfl | hmem := List.mem_cons.mp hmem
      · exact .inr rfl
      · exact .inl (hdigits char hmem)
    · exact .inl (hdigits char hmem)
  have hne : toChars value ≠ [] := by
    obtain ⟨c, rest, hcons, -⟩ := (numberText_toChars value).exists_cons
    rw [hcons]
    exact List.cons_ne_nil _ _
  have hword : toChars value ≠ ofString "null" := by
    intro hnull
    have hn := hmem 0x6e (by rw [hnull]; decide)
    revert hn
    decide
  have hsecond (c : UInt8) (hc : ¬ (isDigit c = true ∨ c = 0x2d)) : (toChars value)[1]? ≠ some c :=
    fun hget => hc (hmem c (List.mem_of_getElem? hget))
  rw [toNumStrict, if_neg (not_or.mpr ⟨hne, hword⟩)]
  simp only [hsecond 0x78 (by decide), hsecond 0x58 (by decide), or_self, and_false, decide_false,
    Bool.false_eq_true, if_false, hfrom]

end Ebus.Chars
