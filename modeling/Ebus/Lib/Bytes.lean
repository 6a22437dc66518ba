import Mathlib.Tactic.Common
import Mathlib.Data.List.Basic
import Mathlib.Algebra.Group.Nat.Defs

/-!
# Integers as bytes, the low byte first

Two pure functions between natural numbers and their bytes, inverse to each other below
`256 ^ n`, and the loops with shifts that programs write for them: collecting bytes with
`or`, taking them apart with a right shift, and swapping the byte order with masks.
-/

namespace Bytes

/-- The number with these bytes, the low byte first. -/
def ofBytes : List UInt8 → Nat
  | [] => 0
  | byte :: rest => byte.toNat + 256 * ofBytes rest

/-- The lowest `n` bytes, the low byte first. -/
def toBytes : Nat → Nat → List UInt8
  | 0, _ => []
  | n + 1, v => UInt8.ofNat v :: toBytes n (v / 256)

@[simp] theorem ofBytes_nil : ofBytes [] = 0 := rfl

@[simp] theorem ofBytes_cons (byte : UInt8) (rest : List UInt8) :
    ofBytes (byte :: rest) = byte.toNat + 256 * ofBytes rest := rfl

theorem ofBytes_lt (bytes : List UInt8) : ofBytes bytes < 256 ^ bytes.length := by
  induction bytes with
  | nil => exact Nat.one_pos
  | cons byte rest ih =>
      have hbyte := byte.toNat_lt
      rw [ofBytes_cons, List.length_cons, Nat.pow_succ]
      omega

theorem ofBytes_append (front back : List UInt8) :
    ofBytes (front ++ back) = ofBytes front + 256 ^ front.length * ofBytes back := by
  induction front with
  | nil => simp
  | cons byte front ih =>
      rw [List.cons_append, ofBytes_cons, ofBytes_cons, ih, List.length_cons, Nat.pow_succ',
        Nat.mul_add, Nat.mul_assoc, Nat.add_assoc]

@[simp] theorem length_toBytes (n v : Nat) : (toBytes n v).length = n := by
  induction n generalizing v with
  | zero => rfl
  | succ n ih => rw [toBytes, List.length_cons, ih]

theorem toBytes_ofBytes (bytes : List UInt8) : toBytes bytes.length (ofBytes bytes) = bytes := by
  induction bytes with
  | nil => rfl
  | cons byte rest ih =>
      have hbyte := byte.toNat_lt
      rw [List.length_cons, toBytes, ofBytes_cons]
      have hdiv : (byte.toNat + 256 * ofBytes rest) / 256 = ofBytes rest := by omega
      have hlow : UInt8.ofNat (byte.toNat + 256 * ofBytes rest) = byte := by
        apply UInt8.toNat_inj.mp
        rw [UInt8.toNat_ofNat']
        omega
      rw [hdiv, ih, hlow]

theorem ofBytes_toBytes {n v : Nat} (h : v < 256 ^ n) : ofBytes (toBytes n v) = v := by
  induction n generalizing v with
  | zero =>
      rw [Nat.pow_zero] at h
      rw [toBytes, ofBytes_nil]
      omega
  | succ n ih =>
      rw [Nat.pow_succ] at h
      rw [toBytes, ofBytes_cons, UInt8.toNat_ofNat', ih (by omega)]
      omega

theorem pow_eq (n : Nat) : 256 ^ n = 2 ^ (8 * n) := by
  rw [Nat.pow_mul]

theorem or_shiftLeft {low : Nat} (n high : Nat) (h : low < 256 ^ n) :
    low ||| high <<< (8 * n) = low + 256 ^ n * high := by
  rw [pow_eq] at h ⊢
  rw [Nat.or_comm, ← Nat.shiftLeft_add_eq_or_of_lt h, Nat.shiftLeft_eq, Nat.mul_comm, Nat.add_comm]

/-- Collecting bytes with shifts. -/
theorem foldl_or_eq (bytes : List UInt8) {n : Nat} (h : n ≤ bytes.length) :
    (List.range n).foldl (fun v i => v ||| (bytes.getD i 0).toNat <<< (8 * i)) 0 =
      ofBytes (bytes.take n) := by
  induction n with
  | zero => rfl
  | succ n ih =>
      have hlt : n < bytes.length := h
      have hlow := ofBytes_lt (bytes.take n)
      rw [List.length_take, Nat.min_eq_left (by omega)] at hlow
      rw [List.range_succ, List.foldl_append, List.foldl_cons, List.foldl_nil, ih (by omega),
        or_shiftLeft n _ hlow, List.take_add_one, ofBytes_append, List.length_take,
        Nat.min_eq_left (by omega), List.getElem?_eq_getElem hlt, List.getD_eq_getElem?_getD,
        List.getElem?_eq_getElem hlt]
      simp

/-- Taking a number apart with shifts. -/
theorem map_shiftRight_eq (n v : Nat) :
    (List.range n).map (fun i => UInt8.ofNat (v >>> (8 * i) &&& 0xff)) = toBytes n v := by
  induction n generalizing v with
  | zero => rfl
  | succ n ih =>
      have hlow (w : Nat) : UInt8.ofNat (w &&& 0xff) = UInt8.ofNat w := by
        apply UInt8.toNat_inj.mp
        rw [UInt8.toNat_ofNat', UInt8.toNat_ofNat', Nat.and_two_pow_sub_one_eq_mod w 8]
        omega
      rw [List.range_succ_eq_map, List.map_cons, List.map_map, toBytes, ← ih]
      simp only [hlow]
      congr 1
      apply List.map_congr_left
      intro i _
      rw [Function.comp_apply, Nat.mul_succ, Nat.add_comm, Nat.shiftRight_add,
        Nat.shiftRight_eq_div_pow v 8]

/-- A mask selects the byte that it stands for. -/
theorem and_shiftLeft (v mask k : Nat) : v &&& mask <<< k = (v >>> k &&& mask) <<< k := by
  apply Nat.eq_of_testBit_eq
  intro i
  rw [Nat.testBit_and, Nat.testBit_shiftLeft, Nat.testBit_shiftLeft, Nat.testBit_and,
    Nat.testBit_shiftRight]
  by_cases h : k ≤ i
  · simp [h]
  · simp [h]

end Bytes
