import Ebus.Models.DataTypes

/-!
# Rounding of fixed-point values

A fixed-point number of millionths becomes an integer by adding half a unit and dividing.
The division truncates toward zero, so the added half rounds up only where the sum is not
negative. Below minus one half the result is the next integer above, and the nearest one
only for the values that lie exactly between two integers.
-/

namespace Ebus

/-- `r` is one of the integers nearest to `n / den`. -/
def Nearest (den r n : Int) : Prop := 2 * (den * r - n).natAbs ≤ den

/-- Not below minus one half, or exactly half-way between two integers. -/
def RoundsUp (den n : Int) : Prop := -den ≤ 2 * n ∨ den ∣ n + den / 2

instance (den n : Int) : Decidable (RoundsUp den n) := inferInstanceAs (Decidable (_ ∨ _))

/-- A type whose values are multiples of a fraction. -/
def Meta.Scaled (m : Meta) : Prop :=
  m.isNumeric = true ∧ m.isFloat = false ∧ m.scale ≠ ⟨1, 1⟩

instance (m : Meta) : Decidable m.Scaled := inferInstanceAs (Decidable (_ ∧ _))

/-- The remainder of a truncating division has the sign of the dividend. -/
theorem tmod_nonneg_iff {n den : Int} : 0 ≤ n.tmod den ↔ 0 ≤ n ∨ den ∣ n := by
  constructor
  · intro h
    by_cases hn : 0 ≤ n
    · exact .inl hn
    · have hneg : 0 ≤ (-n).tmod den := Int.tmod_nonneg den (by omega)
      rw [Int.neg_tmod] at hneg
      exact .inr (Int.dvd_of_tmod_eq_zero (by omega))
  · rintro (h | h)
    · exact Int.tmod_nonneg den h
    · exact Int.le_of_eq (Int.tmod_eq_zero_of_dvd h).symm

theorem nearest_tdiv_iff (half : Int) (hpos : 0 < half) (n : Int) :
    Nearest (2 * half) ((n + half).tdiv (2 * half)) n ↔ RoundsUp (2 * half) n := by
  have hdiv := Int.mul_tdiv_add_tmod (n + half) (2 * half)
  have hlt := Int.tmod_lt_of_pos (n + half) (show 0 < 2 * half by omega)
  have hhalf : 2 * half / 2 = half := by omega
  have hsign : 0 ≤ (n + half).tmod (2 * half) ↔ 0 ≤ n + half ∨ 2 * half ∣ n + half :=
    tmod_nonneg_iff
  unfold Nearest RoundsUp
  rw [hhalf]
  generalize 2 * half * (n + half).tdiv (2 * half) = product at hdiv ⊢
  generalize (n + half).tmod (2 * half) = remainder at hdiv hlt hsign
  rw [show -(2 * half) ≤ 2 * n ↔ 0 ≤ n + half by omega, ← hsign]
  omega

theorem toInt_asInt64_int64 {x : Int64} (h : x.toInt.natAbs ≤ 2 ^ 62) :
    (asInt64 (.int64 x)).toInt = (x.toInt + 500000).tdiv 1000000 := by
  have hhalf : Int64.ofInt FixedPointLimits.fixedPointScale / 2 = 500000 := by decide
  have hsum : (x + 500000).toInt = x.toInt + 500000 := by
    rw [Int64.toInt_add]
    exact Int.bmod_eq_of_le_mul_two (by simp; omega) (by simp; omega)
  rw [asInt64, hhalf, Int64.toInt_div_of_ne_right _ _ (by decide), hsum]
  rfl

theorem tdiv_eq_ite (a den : Int) :
    a.tdiv den = if 0 ≤ a then a / den else -(-a / den) := by
  split
  · rename_i ha
    exact Int.tdiv_eq_ediv_of_nonneg ha
  · rename_i ha
    have hneg : (-a).tdiv den = -a / den := Int.tdiv_eq_ediv_of_nonneg (by omega)
    rw [Int.neg_tdiv] at hneg
    omega

/-- The two divisions together are one: the millionths that are cut off do not matter. -/
theorem tdiv_tdiv_scale {raw den : Int} (hden : den = 2 ∨ den = 16 ∨ den = 256) :
    ((raw * 1000000).tdiv den + 500000).tdiv 1000000 = (raw + den / 2).tdiv den := by
  obtain rfl | rfl | rfl := hden
  · simp only [tdiv_eq_ite]
    split <;> split <;> split <;> omega
  · simp only [tdiv_eq_ite]
    split <;> split <;> split <;> omega
  · simp only [tdiv_eq_ite]
    split <;> split <;> split <;> omega

structure IsScaled (m : Meta) : Prop where
  size : m.size = 1 ∨ m.size = 2
  num : m.scale.num = 1
  den : m.scale.den = 2 ∨ m.scale.den = 16 ∨ m.scale.den = 256
  notBcd : m.dt ≠ .bcd

theorem isScaled_of_mem {m : Meta} (hmem : m ∈ metaTable) (hscaled : m.Scaled) : IsScaled m := by
  have hall : ∀ m ∈ metaTable, m.Scaled → (m.size = 1 ∨ m.size = 2) ∧ m.scale.num = 1 ∧
      (m.scale.den = 2 ∨ m.scale.den = 16 ∨ m.scale.den = 256) ∧ m.dt ≠ .bcd := by decide
  obtain ⟨hsize, hnum, hden, hbcd⟩ := hall m hmem hscaled
  exact ⟨hsize, hnum, hden, hbcd⟩

section Scaled

variable {dt : DataType} {m : Meta} (hfor : metaFor dt = some m) (hscaled : m.Scaled)

include hfor hscaled in
theorem decode_scaled {data : List UInt8} (e : Endian) (hdata : m.size ≤ data.length)
    (hvalue : bitPattern m data (m.flip e) ≠ m.replacementValue) :
    decode dt data e = some (.int64 (Int64.ofInt
      ((rawValue m data (m.flip e) * 1000000).tdiv m.scale.den))) := by
  obtain ⟨hmem, rfl⟩ := mem_of_metaFor hfor
  have hm := isScaled_of_mem hmem hscaled
  obtain ⟨hnumeric, hfloat, -⟩ := hscaled
  have hden : m.scale.den ≠ 1 := by
    obtain hden | hden | hden := hm.den <;> omega
  simp only [decode, hfor, if_neg (Nat.not_lt.mpr hdata), hnumeric, hfloat, hm.num,
    beq_eq_false_iff_ne.mpr hvalue, if_neg hm.notBcd, Bool.not_true, Bool.and_false,
    Bool.false_eq_true, if_false, Int.mul_one]
  rw [if_pos (.inr hden)]
  rfl

theorem natAbs_rawValue_lt (hsize : m.size = 1 ∨ m.size = 2) {data : List UInt8}
    (hdata : m.size ≤ data.length) (flip : Bool) : (rawValue m data flip).natAbs < 65536 := by
  unfold rawValue
  obtain hone | htwo := hsize
  · have hbyte := (data.getD 0 0).toNat_lt
    rw [if_pos hone]
    split
    · have hlow := Int.le_bmod (x := (data.getD 0 0).toNat) (m := 0x100) (by decide)
      have hhigh := Int.bmod_lt (x := (data.getD 0 0).toNat) (m := 0x100) (by decide)
      omega
    · omega
  · rw [htwo] at hdata
    have hread : readInt 2 data flip < 0x10000 := by
      have hlt := Bytes.ofBytes_lt (orient flip (data.take 2))
      rw [length_orient, List.length_take, Nat.min_eq_left hdata] at hlt
      rwa [readInt_eq (.inl rfl) hdata]
    rw [if_neg (by omega), if_pos htwo]
    split
    · have hlow := Int.le_bmod (x := readInt 2 data flip) (m := 0x10000) (by decide)
      have hhigh := Int.bmod_lt (x := readInt 2 data flip) (m := 0x10000) (by decide)
      omega
    · omega

/-- A fixed-point number is far from the limits of its type. -/
theorem toInt_fixed (hm : IsScaled m) {data : List UInt8} (hdata : m.size ≤ data.length)
    (flip : Bool) :
    (Int64.ofInt ((rawValue m data flip * 1000000).tdiv m.scale.den)).toInt =
        (rawValue m data flip * 1000000).tdiv m.scale.den ∧
      ((rawValue m data flip * 1000000).tdiv m.scale.den).natAbs ≤ 2 ^ 62 := by
  have hraw := natAbs_rawValue_lt hm.size hdata flip
  generalize rawValue m data flip = raw at hraw ⊢
  have hfixed : ((raw * 1000000).tdiv m.scale.den).natAbs ≤ 2 ^ 62 := by
    rw [tdiv_eq_ite]
    obtain hden | hden | hden := hm.den <;> rw [hden] <;> split <;> omega
  exact ⟨Int64.toInt_ofInt_of_le (by omega) (by omega), hfixed⟩

include hfor hscaled in
theorem nearest_decode_iff {data : List UInt8} (e : Endian) (hdata : m.size ≤ data.length)
    (hvalue : bitPattern m data (m.flip e) ≠ m.replacementValue) :
    ∃ v, decode dt data e = some v ∧
      (Nearest m.scale.den (asInt64 v).toInt (m.scale.num * rawValue m data (m.flip e)) ↔
        RoundsUp m.scale.den (m.scale.num * rawValue m data (m.flip e))) := by
  refine ⟨_, decode_scaled hfor hscaled e hdata hvalue, ?_⟩
  have hm := isScaled_of_mem (mem_of_metaFor hfor).1 hscaled
  obtain ⟨hexact, hfixed⟩ := toInt_fixed hm hdata (m.flip e)
  rw [hm.num, Int.one_mul, toInt_asInt64_int64 (by rwa [hexact]), hexact, tdiv_tdiv_scale hm.den]
  generalize rawValue m data (m.flip e) = raw
  obtain hden | hden | hden := hm.den <;> rw [hden]
  · exact nearest_tdiv_iff 1 (by decide) raw
  · exact nearest_tdiv_iff 8 (by decide) raw
  · exact nearest_tdiv_iff 128 (by decide) raw

end Scaled

/-- The result is a nearest integer exactly for the values from minus one half on and for
those half-way between two integers. -/
theorem rounding_iff (x : Int64) (dt : DataType) (m : Meta) (e : Endian) (data : List UInt8) :
    (x.toInt.natAbs ≤ 2 ^ 62 →
      (Nearest 1000000 (asInt64 (.int64 x)).toInt x.toInt ↔ RoundsUp 1000000 x.toInt)) ∧
    (metaFor dt = some m → m.Scaled → m.size ≤ data.length →
      bitPattern m data (m.flip e) ≠ m.replacementValue →
      ∃ v, decode dt data e = some v ∧
        (Nearest m.scale.den (asInt64 v).toInt (m.scale.num * rawValue m data (m.flip e)) ↔
          RoundsUp m.scale.den (m.scale.num * rawValue m data (m.flip e)))) := by
  refine ⟨?_, ?_⟩
  · intro hx
    rw [toInt_asInt64_int64 hx]
    exact nearest_tdiv_iff 500000 (by decide) x.toInt
  · intro hfor hscaled hdata hvalue
    exact nearest_decode_iff hfor hscaled e hdata hvalue

def data2b : Meta := ⟨.data2b, 2, true, true, false, true, 0x8000, false, ⟨1, 256⟩⟩

theorem metaFor_data2b : metaFor .data2b = some data2b := (metaFor_eq .data2b).trans rfl

/-- Five eighths, once from the bus and once as it is. -/
theorem rounding_iff_positive :
    Nearest 1000000 (asInt64 (.int64 625000)).toInt 625000 ∧
    ∃ v, decode .data2b [0xa0, 0x00] .little = some v ∧ Nearest 256 (asInt64 v).toInt 160 := by
  obtain ⟨hvalue, hdecode⟩ := rounding_iff 625000 .data2b data2b .little [0xa0, 0x00]
  obtain ⟨v, hv, hiff⟩ := hdecode metaFor_data2b (by decide) (by decide) (by decide)
  exact ⟨(hvalue (by decide)).mpr (by decide), v, hv, hiff.mpr (by decide)⟩

/-- Minus six tenths becomes zero, and minus five eighths from the bus as well. -/
theorem not_nearest_negative :
    (¬ ∀ x : Int64, x.toInt.natAbs ≤ 2 ^ 62 →
      Nearest 1000000 (asInt64 (.int64 x)).toInt x.toInt) ∧
    (¬ ∀ dt m e data, metaFor dt = some m → m.Scaled → m.size ≤ data.length →
      bitPattern m data (m.flip e) ≠ m.replacementValue →
      ∃ v, decode dt data e = some v ∧
        Nearest m.scale.den (asInt64 v).toInt (m.scale.num * rawValue m data (m.flip e))) := by
  constructor
  · intro hall
    exact absurd (hall (-600000) (by decide)) (by unfold Nearest; decide)
  · intro hall
    have hscaled : data2b.Scaled := by decide
    obtain ⟨v, hv, hnearest⟩ := hall .data2b data2b .little [0x60, 0xff] metaFor_data2b hscaled
      (by decide) (by decide)
    have hdata : data2b.size ≤ [(0x60 : UInt8), 0xff].length := by decide
    obtain ⟨w, hw, hiff⟩ := nearest_decode_iff metaFor_data2b hscaled .little hdata (by decide)
    rw [hv] at hw
    cases hw
    exact absurd (hiff.mp hnearest) (by decide)

end Ebus
