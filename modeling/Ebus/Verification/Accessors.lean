import Ebus.Verification.Rounding
import Ebus.Verification.Values

/-!
# The two integer accessors

`asInt64` takes a fixed-point number for what it stands for, `getAs` for an integer of
millionths. `getAs` also casts the limits of its type before it compares, and the upper one of
`uint64_t` becomes minus one. `Suited` says for which values the two agree all the same.
-/

namespace Ebus

/-- The types that `getAs` is called with. -/
def IntType.Standard (type : IntType) : Prop :=
  type.bits = 8 ∨ type.bits = 16 ∨ type.bits = 32 ∨ type.bits = 64

/-- What `getAs` gives is what `asInt64` gives, and there is nothing exactly if that does not fit
into the type. -/
def Agree (type : IntType) (v : DataValue) : Prop :=
  (∀ x, getAs type v = some x → x = (asInt64 v).toInt) ∧
    (getAs type v = none ↔ ¬ type.Holds (asInt64 v).toInt)

/-- An integer, for any type but `uint64_t` unless it is negative; a fixed-point number that is
zero or, when rounded, lies outside of the type. -/
def Suited (type : IntType) : DataValue → Prop
  | .int64 raw =>
      (type ≠ .uint64 ∧ raw.toInt = 0) ∨
        (type.max + 1) * 1000000 ≤ raw.toInt + 500000 ∨
        raw.toInt + 500000 ≤ (type.min - 1) * 1000000
  | v => ∃ n, v.integer? = some n ∧ (type ≠ .uint64 ∨ n < 0)

theorem castTo_eq {type : IntType} (hbits : 0 < type.bits) {value : Int}
    (h : type.Holds value) : castTo type value = value := by
  obtain ⟨signed, bits⟩ := type
  obtain ⟨k, rfl⟩ : ∃ k, bits = k + 1 := ⟨bits - 1, (Nat.sub_add_cancel hbits).symm⟩
  have hhalf : ((2 ^ (k + 1) : Nat) : Int) = 2 * 2 ^ k := by
    rw [Nat.pow_succ, Nat.mul_comm]
    simp
  cases signed with
  | true =>
      obtain ⟨hmin, hmax⟩ := h
      change -2 ^ k ≤ value at hmin
      change value ≤ 2 ^ k - 1 at hmax
      refine Int.bmod_eq_of_le_mul_two ?_ ?_ <;> rw [hhalf] <;> omega
  | false =>
      obtain ⟨hmin, hmax⟩ := h
      change 0 ≤ value at hmin
      change value ≤ 2 ^ (k + 1) - 1 at hmax
      have hlt : value < 2 ^ (k + 1) := by omega
      exact Int.emod_eq_of_lt hmin hlt

section Casts

variable {type : IntType} (htype : type.Standard)

include htype in
theorem IntType.Standard.cases : type = .uint64 ∨
    type ≠ .uint64 ∧ -2 ^ 63 ≤ type.min ∧ type.min ≤ 0 ∧ 0 ≤ type.max ∧ type.max < 2 ^ 63 := by
  obtain ⟨signed, bits⟩ := type
  obtain rfl | rfl | rfl | rfl := htype <;> cases signed
  case inr.inr.inr.false => exact .inl rfl
  all_goals exact .inr (by decide)

include htype in
/-- The limits of `uint64_t` leave nothing between them. -/
theorem getAsInteger_eq {n : Int} (hlow : -2 ^ 63 ≤ n) (hhigh : n < 2 ^ 63) :
    getAsInteger type n = if type ≠ .uint64 ∧ type.Holds n then some n else none := by
  have hval : (Int64.ofInt n).toInt = n := Int64.toInt_ofInt_of_le hlow hhigh
  have hbits : 0 < type.bits := by
    obtain h | h | h | h := htype <;> omega
  obtain rfl | ⟨hne, hmin, hmin', hmax', hmax⟩ := htype.cases
  · have hmin : (Int64.ofInt IntType.uint64.min).toInt = 0 := by decide
    have hmax : (Int64.ofInt IntType.uint64.max).toInt = -1 := by decide
    have hnone : ¬ (Int64.ofInt IntType.uint64.min ≤ Int64.ofInt n ∧
        Int64.ofInt n ≤ Int64.ofInt IntType.uint64.max) := by
      rw [Int64.le_iff_toInt_le, Int64.le_iff_toInt_le, hmin, hmax]
      omega
    rw [getAsInteger, if_neg hnone, if_neg fun h => h.1 rfl]
  · have hmin : (Int64.ofInt type.min).toInt = type.min :=
      Int64.toInt_ofInt_of_le hmin (by omega)
    have hmax : (Int64.ofInt type.max).toInt = type.max :=
      Int64.toInt_ofInt_of_le (by omega) hmax
    have hbounds : (Int64.ofInt type.min ≤ Int64.ofInt n ∧ Int64.ofInt n ≤ Int64.ofInt type.max) ↔
        type.Holds n := by
      rw [Int64.le_iff_toInt_le, Int64.le_iff_toInt_le, hmin, hmax, hval]
      rfl
    simp only [getAsInteger, hbounds, hval, hne, ne_eq, not_false_eq_true, true_and]
    by_cases hn : type.Holds n
    · rw [if_pos hn, if_pos hn, castTo_eq hbits hn]
    · rw [if_neg hn, if_neg hn]

end Casts

section Kinds

variable {type : IntType} (htype : type.Standard)

include htype in
theorem agree_integer_iff {v : DataValue} {n : Int} (h : v.integer? = some n) :
    Agree type v ↔ type ≠ .uint64 ∨ n < 0 := by
  have hsmall : -2 ^ 63 ≤ n ∧ n < 2 ^ 63 := by
    rw [← Meta.toInt_asInt64 h]
    exact ⟨(asInt64 v).le_toInt, (asInt64 v).toInt_lt⟩
  have hget : getAs type v = getAsInteger type n := by
    cases v <;> cases h <;> rfl
  rw [Agree, hget, Meta.toInt_asInt64 h, getAsInteger_eq htype hsmall.1 hsmall.2]
  obtain rfl | ⟨hne, -⟩ := htype.cases
  · have hmax : IntType.uint64.max = 2 ^ 64 - 1 := rfl
    have hmin : IntType.uint64.min = 0 := rfl
    have hholds : ¬ IntType.uint64.Holds n ↔ n < 0 := by
      rw [IntType.Holds, hmax, hmin]
      omega
    simp [hholds]
  · by_cases hn : type.Holds n <;> simp [hne, hn]

include htype in
theorem agree_int64_iff {raw : Int64} (hraw : raw.toInt.natAbs ≤ 2 ^ 62) :
    Agree type (.int64 raw) ↔ Suited type (.int64 raw) := by
  have hget : getAs type (.int64 raw) = getAsInteger type raw.toInt := rfl
  rw [Agree, Suited, hget, toInt_asInt64_int64 hraw,
    getAsInteger_eq htype raw.le_toInt raw.toInt_lt]
  generalize raw.toInt = n at hraw
  -- beyond a limit of the type is the rounded number exactly if the sum is a whole unit beyond it
  have hround : (n + 500000).tdiv 1000000 =
      if 0 ≤ n + 500000 then (n + 500000) / 1000000 else -(-(n + 500000) / 1000000) :=
    tdiv_eq_ite _ _
  obtain rfl | ⟨hne, hmin, hmin', hmax', hmax⟩ := htype.cases
  · have hmax : IntType.uint64.max = 2 ^ 64 - 1 := rfl
    have hmin : IntType.uint64.min = 0 := rfl
    simp only [ne_eq, not_true_eq_false, false_and, if_false, reduceCtorEq, false_implies,
      implies_true, true_and, true_iff, false_or, IntType.Holds, hmin, hmax, hround]
    split <;> omega
  · simp only [ne_eq, hne, not_false_eq_true, true_and, IntType.Holds, hround]
    by_cases hn : type.min ≤ n ∧ n ≤ type.max
    · rw [if_pos hn]
      simp only [Option.some.injEq, forall_eq', reduceCtorEq, false_iff, not_not]
      split <;> omega
    · rw [if_neg hn]
      simp only [reduceCtorEq, false_implies, implies_true, true_and, true_iff]
      split <;> omega

end Kinds

/-- An integer or scaled type gives nothing, a fixed-point number or an integer. -/
theorem decode_kinds {dt : DataType} {m : Meta} {data : List UInt8} {e : Endian} {v : DataValue}
    (hfor : metaFor dt = some m) (hnumeric : m.isNumeric = true) (hfloat : m.isFloat = false)
    (h : decode dt data e = some v) :
    v = .null ∨ (∃ raw : Int64, v = .int64 raw ∧ raw.toInt.natAbs ≤ 2 ^ 62) ∨
      ∃ n, v.integer? = some n := by
  have hdata := Meta.size_le_of_decode hfor h
  simp only [decode, hfor, if_neg (Nat.not_lt.mpr hdata), hnumeric, hfloat, Bool.not_true,
    Bool.not_false, Bool.true_and, Bool.false_eq_true, if_false] at h
  split at h
  · exact .inl (Option.some.inj h).symm
  split at h
  · split at h
    · cases h
    · exact .inr (.inr (by rw [← Option.some.inj h]; exact ⟨_, rfl⟩))
  split at h
  · rename_i hscale
    have hscaled : m.Scaled := by
      refine ⟨hnumeric, hfloat, fun hone => ?_⟩
      rw [hone] at hscale
      exact hscale.elim (absurd rfl) (absurd rfl)
    have hm := isScaled_of_mem (mem_of_metaFor hfor).1 hscaled
    obtain ⟨hexact, hfixed⟩ := toInt_fixed hm hdata (m.flip e)
    rw [hm.num, Int.mul_one] at h
    refine .inr (.inl ⟨_, (Option.some.inj h).symm, ?_⟩)
    rwa [FixedPointLimits.fixedPointScale, hexact]
  · have hsized : ∃ n, (sizedValue m (rawValue m data (m.flip e))).integer? = some n := by
      unfold sizedValue
      split
      · split <;> exact ⟨_, rfl⟩
      split
      · split <;> exact ⟨_, rfl⟩
      split <;> exact ⟨_, rfl⟩
    exact .inr (.inr (Option.some.inj h ▸ hsized))

/-- The two accessors agree exactly on the values that suit the type. -/
theorem getAs_agrees_iff {dt : DataType} {m : Meta} {data : List UInt8} {e : Endian}
    {v : DataValue} {type : IntType} (htype : type.Standard) (hfor : metaFor dt = some m)
    (hnumeric : m.isNumeric = true) (hfloat : m.isFloat = false)
    (h : decode dt data e = some v) : Agree type v ↔ Suited type v := by
  obtain rfl | ⟨raw, rfl, hraw⟩ | ⟨n, hn⟩ := decode_kinds hfor hnumeric hfloat h
  · -- zero fits into every type
    refine iff_of_false (fun hagree => hagree.2.mp rfl ?_) (fun ⟨_, hnone, _⟩ => by cases hnone)
    have hzero : (asInt64 .null).toInt = 0 := rfl
    obtain rfl | ⟨-, -, hmin, hmax, -⟩ := htype.cases
    · exact (by decide : IntType.uint64.Holds 0)
    · exact hzero ▸ ⟨hmin, hmax⟩
  · exact agree_int64_iff htype hraw
  · have hsuited : Suited type v ↔ ∃ n, v.integer? = some n ∧ (type ≠ .uint64 ∨ n < 0) := by
      cases v <;> first | rfl | cases hn
    rw [hsuited, agree_integer_iff htype hn]
    simp [hn]

def int8 : Meta := ⟨.int8, 1, true, true, false, true, 0x80, false, ⟨1, 1⟩⟩

theorem metaFor_int8 : metaFor .int8 = some int8 := (metaFor_eq .int8).trans rfl

/-- Minus 127 is the same number for both. -/
theorem getAs_agrees_iff_negative : Agree .int16 (.int8 (-127)) := by
  have hdecode : decode .int8 [0x81] .little = some (.int8 (-127)) := by
    simp only [decode, metaFor_int8]
    rfl
  exact (getAs_agrees_iff (.inr (.inl rfl)) metaFor_int8 rfl rfl hdecode).mpr
    ⟨_, rfl, .inl (by decide)⟩

def data1c : Meta := ⟨.data1c, 1, true, false, false, true, 0xff, false, ⟨1, 2⟩⟩

theorem metaFor_data1c : metaFor .data1c = some data1c := (metaFor_eq .data1c).trans rfl

/-- The byte `0x04` of `DATA1C` is two, and two million for `getAs`. -/
theorem not_getAs_agrees :
    ¬ ∀ (dt : DataType) (m : Meta) (data : List UInt8) (e : Endian) (v : DataValue)
      (type : IntType), type.Standard → metaFor dt = some m → m.isNumeric = true →
        m.isFloat = false → decode dt data e = some v → Agree type v := by
  intro hall
  have hdecode : decode .data1c [0x04] .little = some (.int64 2000000) := by
    simp only [decode, metaFor_data1c]
    rfl
  have hagree := hall _ _ _ _ _ .uint32 (.inr (.inr (.inl rfl))) metaFor_data1c rfl rfl hdecode
  have hsame := hagree.1 2000000 rfl
  revert hsame
  decide

end Ebus
