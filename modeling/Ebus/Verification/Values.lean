import Ebus.Models.DataTypes

/-!
# Round trips of unscaled values

Between the bytes of a field and its value there are two switches of the byte order, the
extension of the sign and the pattern that stands for no value. For the sized integers all
of it goes through the pattern: the number that the bytes make, low byte first. Decoding
and encoding are each a function of the pattern, and these are inverse to each other.
-/

namespace Ebus

open Bytes

/-- The integer that a value holds; a fixed-point number is none. -/
def DataValue.integer? : DataValue → Option Int
  | .uint8 value => some value.toNat
  | .int8 value => some value.toInt
  | .uint16 value => some value.toNat
  | .int16 value => some value.toInt
  | .uint32 value => some value.toNat
  | .int32 value => some value.toInt
  | _ => none

namespace Meta

def Unscaled (m : Meta) : Prop := m.isFloat = false ∧ m.scale = ⟨1, 1⟩

/-- The range of a numeric type: two decimal digits, or the integers of its size. -/
def InRange (m : Meta) (value : Int) : Prop :=
  if m.dt = .bcd then 0 ≤ value ∧ value ≤ 99
  else (IntType.mk m.isSigned (8 * m.size)).Holds value

/-- A numeric type that is neither float nor scaled nor decimal. -/
structure Sized (m : Meta) : Prop where
  size : m.size = 1 ∨ m.size = 2 ∨ m.size = 4
  numeric : m.isNumeric = true
  isFloat : m.isFloat = false
  scale : m.scale = ⟨1, 1⟩
  replaced : m.hasReplacement = true
  replacement : m.replacementValue < 256 ^ m.size
  notBcd : m.dt ≠ .bcd

instance (m : Meta) : Decidable m.Unscaled := inferInstanceAs (Decidable (_ ∧ _))

instance (m : Meta) (value : Int) : Decidable (m.InRange value) :=
  inferInstanceAs (Decidable (if m.dt = .bcd then 0 ≤ value ∧ value ≤ 99
    else (IntType.mk m.isSigned (8 * m.size)).Holds value))

theorem sized_of_mem {m : Meta} (hmem : m ∈ metaTable) (hunscaled : m.Unscaled)
    (hnumeric : m.isNumeric = true) (hbcd : m.dt ≠ .bcd) : m.Sized := by
  have hall : ∀ m ∈ metaTable, m.Unscaled → m.isNumeric = true → m.dt ≠ .bcd →
      (m.size = 1 ∨ m.size = 2 ∨ m.size = 4) ∧ m.hasReplacement = true ∧
        m.replacementValue < 256 ^ m.size := by decide
  obtain ⟨hsize, hreplaced, hreplacement⟩ := hall m hmem hunscaled hnumeric hbcd
  exact ⟨hsize, hnumeric, hunscaled.1, hunscaled.2, hreplaced, hreplacement, hbcd⟩

/-- The integer of the type that has the pattern. -/
def ofPattern (m : Meta) (pattern : Nat) : Int :=
  if m.isSigned then Int.bmod pattern (256 ^ m.size) else pattern

def toPattern (m : Meta) (value : Int) : Nat := (value % (256 ^ m.size : Nat)).toNat

section Sized

variable {m : Meta} (hm : m.Sized)

theorem toPattern_lt (m : Meta) (value : Int) : m.toPattern value < 256 ^ m.size := by
  have hpos : 0 < 256 ^ m.size := Nat.pow_pos (by decide)
  unfold toPattern
  generalize 256 ^ m.size = bound at hpos ⊢
  have hlt := Int.emod_lt_of_pos value (b := bound) (by omega)
  omega

theorem toPattern_ofPattern {pattern : Nat} (h : pattern < 256 ^ m.size) :
    m.toPattern (m.ofPattern pattern) = pattern := by
  unfold toPattern ofPattern
  generalize 256 ^ m.size = bound at h ⊢
  split
  · rw [Int.bmod_emod, Int.emod_eq_of_lt (by omega) (by omega)]
    omega
  · rw [Int.emod_eq_of_lt (by omega) (by omega)]
    omega

include hm in
/-- Half of the patterns are negative where the type is signed. -/
theorem Sized.fits_iff (value : Int) :
    m.InRange value ↔ if m.isSigned then
      -(256 ^ m.size : Nat) ≤ 2 * value ∧ 2 * value < (256 ^ m.size : Nat)
    else 0 ≤ value ∧ value < (256 ^ m.size : Nat) := by
  unfold InRange IntType.Holds IntType.min IntType.max
  rw [if_neg hm.notBcd]
  obtain hsize | hsize | hsize := hm.size <;> rw [hsize] <;> cases m.isSigned <;> simp <;> omega

include hm in
theorem Sized.ofPattern_toPattern {value : Int} (h : m.InRange value) :
    m.ofPattern (m.toPattern value) = value := by
  rw [hm.fits_iff] at h
  have hpos : 0 < 256 ^ m.size := Nat.pow_pos (by decide)
  unfold toPattern ofPattern
  generalize 256 ^ m.size = bound at h hpos ⊢
  have hcast : (((value % (bound : Int)).toNat : Nat) : Int) = value % bound :=
    Int.toNat_of_nonneg (Int.emod_nonneg _ (by omega))
  rw [hcast]
  split
  · rename_i hsigned
    rw [if_pos hsigned] at h
    rw [Int.emod_bmod]
    exact Int.bmod_eq_of_le_mul_two (by omega) (by omega)
  · rename_i hsigned
    rw [if_neg hsigned] at h
    exact Int.emod_eq_of_lt h.1 h.2

include hm in
theorem Sized.inRange_ofPattern {pattern : Nat} (h : pattern < 256 ^ m.size) :
    m.InRange (m.ofPattern pattern) := by
  rw [hm.fits_iff]
  have heven : 256 ^ m.size % 2 = 0 := by
    obtain hsize | hsize | hsize := hm.size <;> simp [hsize]
  unfold ofPattern
  generalize 256 ^ m.size = bound at h heven ⊢
  split
  · have hlow := Int.le_bmod (x := pattern) (m := bound) (by omega)
    have hhigh := Int.bmod_lt (x := pattern) (m := bound) (by omega)
    omega
  · omega

include hm in
theorem Sized.bitPattern_eq {data : List UInt8} (hdata : m.size ≤ data.length) (flip : Bool) :
    bitPattern m data flip = ofBytes (orient flip (data.take m.size)) := by
  unfold bitPattern
  obtain hsize | hsize | hsize := hm.size <;> rw [hsize] at hdata ⊢
  · cases data with
    | nil => cases hdata
    | cons byte rest => cases flip <;> simp [orient]
  · exact readInt_eq (.inl rfl) hdata flip
  · exact readInt_eq (.inr rfl) hdata flip

include hm in
theorem Sized.rawValue_eq {data : List UInt8} (hdata : m.size ≤ data.length) (flip : Bool) :
    rawValue m data flip = m.ofPattern (ofBytes (orient flip (data.take m.size))) := by
  rw [← hm.bitPattern_eq hdata]
  unfold rawValue bitPattern ofPattern
  obtain hsize | hsize | hsize := hm.size <;> simp [hsize]

theorem toNat_ofInt_uint8 {value : Int} (hpos : 0 ≤ value) (hlt : value < 0x100) :
    ((UInt8.ofInt value).toNat : Int) = value := by
  rw [UInt8.ofInt, UInt8.toNat_ofNat']
  omega

theorem toNat_ofInt_uint16 {value : Int} (hpos : 0 ≤ value) (hlt : value < 0x10000) :
    ((UInt16.ofInt value).toNat : Int) = value := by
  rw [UInt16.ofInt, UInt16.toNat_ofNat']
  omega

theorem toNat_ofInt_uint32 {value : Int} (hpos : 0 ≤ value) (hlt : value < 0x100000000) :
    ((UInt32.ofInt value).toNat : Int) = value := by
  rw [UInt32.ofInt, UInt32.toNat_ofNat']
  omega

include hm in
theorem Sized.sizedValue_integer {raw : Int} (h : m.InRange raw) :
    (sizedValue m raw).integer? = some raw := by
  rw [hm.fits_iff] at h
  unfold sizedValue
  cases hsigned : m.isSigned with
  | true =>
      rw [if_pos hsigned] at h
      obtain hsize | hsize | hsize := hm.size <;> rw [hsize] at h ⊢
      · exact congrArg some (Int8.toInt_ofInt_of_le (by omega) (by omega))
      · exact congrArg some (Int16.toInt_ofInt_of_le (by omega) (by omega))
      · exact congrArg some (Int32.toInt_ofInt_of_le (by omega) (by omega))
  | false =>
      rw [if_neg (by rw [hsigned]; decide)] at h
      obtain hsize | hsize | hsize := hm.size <;> rw [hsize] at h ⊢
      · exact congrArg some (toNat_ofInt_uint8 h.1 h.2)
      · exact congrArg some (toNat_ofInt_uint16 h.1 h.2)
      · exact congrArg some (toNat_ofInt_uint32 h.1 h.2)

theorem toInt_asInt64 {v : DataValue} {value : Int} (h : v.integer? = some value) :
    (asInt64 v).toInt = value := by
  cases v <;> cases h
  case uint8 arg =>
    have := arg.toNat_lt
    exact Int64.toInt_ofInt_of_le (by omega) (by omega)
  case int8 arg =>
    have := arg.le_toInt
    have := arg.toInt_lt
    exact Int64.toInt_ofInt_of_le (by omega) (by omega)
  case uint16 arg =>
    have := arg.toNat_lt
    exact Int64.toInt_ofInt_of_le (by omega) (by omega)
  case int16 arg =>
    have := arg.le_toInt
    have := arg.toInt_lt
    exact Int64.toInt_ofInt_of_le (by omega) (by omega)
  case uint32 arg =>
    have := arg.toNat_lt
    exact Int64.toInt_ofInt_of_le (by omega) (by omega)
  case int32 arg =>
    have := arg.le_toInt
    have := arg.toInt_lt
    exact Int64.toInt_ofInt_of_le (by omega) (by omega)

theorem integerScale_one (val : Int64) : integerScale val 1 1 = val := by
  have hhalf : (1 : Int).tdiv 2 = 0 := rfl
  simp [integerScale, hhalf]

include hm in
theorem Sized.unscale_integer {v : DataValue} {value : Int} (h : v.integer? = some value) :
    unscale m v = asInt64 v := by
  cases v <;> cases h <;> simp only [unscale, hm.scale, integerScale_one]

include hm in
theorem Sized.validateRange_iff (raw : Int64) :
    validateRange raw m.size m.isSigned = true ↔ m.InRange raw.toInt := by
  unfold validateRange inRange InRange
  rw [if_neg hm.notBcd]
  obtain hsize | hsize | hsize := hm.size <;> rw [hsize] <;> exact decide_eq_true_iff

theorem orient_singleton (flip : Bool) (byte : UInt8) : orient flip [byte] = [byte] := by
  cases flip <;> rfl

include hm in
theorem Sized.encodeInt_eq (raw : Int64) (flip : Bool) :
    encodeInt m raw flip = if m.InRange raw.toInt then
      ({ bytes := orient flip (Bytes.toBytes m.size (m.toPattern raw.toInt)) } : Sequence)
      else {} := by
  have hpattern := toPattern_lt m raw.toInt
  have hvalid := hm.validateRange_iff raw
  by_cases hrange : m.InRange raw.toInt
  · rw [if_pos hrange, encodeInt, hvalid.mpr hrange]
    obtain hsize | hsize | hsize := hm.size
    · have hbytes : Bytes.toBytes m.size (m.toPattern raw.toInt) = [UInt8.ofInt raw.toInt] := by
        rw [toPattern, hsize]
        rfl
      rw [hbytes, orient_singleton, hsize]
      rfl
    · rw [hsize] at hpattern
      rw [hsize, ← writeInt_eq (.inl rfl) hpattern, toPattern, hsize]
      rfl
    · rw [hsize] at hpattern
      rw [hsize, ← writeInt_eq (.inr rfl) hpattern, toPattern, hsize]
      rfl
  · rw [if_neg hrange, encodeInt, Bool.eq_false_iff.mpr fun h => hrange (hvalid.mp h)]
    rfl

include hm in
theorem Sized.encodeNull_eq (flip : Bool) :
    encodeNull m flip = { bytes := orient flip (Bytes.toBytes m.size m.replacementValue) } := by
  have hpattern := hm.replacement
  rw [encodeNull, hm.replaced]
  obtain hsize | hsize | hsize := hm.size <;> rw [hsize] at hpattern ⊢
  · rw [Bytes.toBytes, Bytes.toBytes, orient_singleton]
    rfl
  · have hmod : m.replacementValue % 65536 = m.replacementValue := Nat.mod_eq_of_lt hpattern
    rw [← writeInt_eq (.inl rfl) hpattern, hmod]
    rfl
  · have hmod : m.replacementValue % 4294967296 = m.replacementValue :=
      Nat.mod_eq_of_lt hpattern
    rw [← writeInt_eq (.inr rfl) hpattern, hmod]
    rfl

variable {dt : DataType} (hfor : metaFor dt = some m)

include hm hfor in
theorem Sized.dt_ne : dt ≠ .bcd := by
  rw [← (mem_of_metaFor hfor).2]
  exact hm.notBcd

include hm hfor in
/-- What a sized integer decodes to depends on the pattern only. -/
theorem Sized.decode_eq {data : List UInt8} (hdata : m.size ≤ data.length) (e : Endian) :
    decode dt data e =
      if ofBytes (orient (m.flip e) (data.take m.size)) = m.replacementValue then some .null
      else some (sizedValue m
        (m.ofPattern (ofBytes (orient (m.flip e) (data.take m.size))))) := by
  have hdt := hm.dt_ne hfor
  rw [← hm.rawValue_eq hdata, ← hm.bitPattern_eq hdata]
  simp only [decode, hfor, if_neg (Nat.not_lt.mpr hdata), hm.numeric, hm.isFloat, hm.replaced,
    hm.scale, if_neg hdt, Bool.not_true, Bool.not_false, Bool.true_and, Bool.false_eq_true,
    if_false, beq_iff_eq, ne_eq, not_true_eq_false, or_self]

include hm hfor in
theorem Sized.encode_integer {v : DataValue} {value : Int} (h : v.integer? = some value)
    (e : Endian) :
    encode dt v e = if m.InRange value then
      ({ bytes := orient (m.flip e) (Bytes.toBytes m.size (m.toPattern value)) } : Sequence)
      else {} := by
  have hdt := hm.dt_ne hfor
  have hnull : isNull v = false := by
    cases v <;> cases h <;> rfl
  have hauto : dt ≠ .autoDetect := by
    rintro rfl
    cases hfor
  rw [← toInt_asInt64 h, ← hm.encodeInt_eq, ← hm.unscale_integer h]
  simp only [encode, if_neg hauto, hfor, hm.numeric, hnull, Bool.and_false, Bool.false_eq_true,
    if_false, Bool.not_true, if_neg hdt, hm.isFloat]

include hm hfor in
theorem Sized.encode_null (e : Endian) :
    encode dt .null e =
      { bytes := orient (m.flip e) (Bytes.toBytes m.size m.replacementValue) } := by
  have hauto : dt ≠ .autoDetect := by
    rintro rfl
    cases hfor
  rw [← hm.encodeNull_eq]
  simp only [encode, if_neg hauto, hfor, hm.numeric, isNull, Bool.and_true, if_true]

include hfor in
theorem size_le_of_decode {data : List UInt8} {e : Endian} {v : DataValue}
    (h : decode dt data e = some v) : m.size ≤ data.length := by
  by_contra hshort
  simp only [decode, hfor, if_pos (Nat.not_le.mp hshort)] at h
  cases h

include hm hfor in
theorem Sized.encode_decode {data : List UInt8} {e : Endian} {v : DataValue}
    (h : decode dt data e = some v) : encode dt v e = { bytes := data.take m.size } := by
  have hdata := size_le_of_decode hfor h
  have hlength : (orient (m.flip e) (data.take m.size)).length = m.size := by
    rw [length_orient, List.length_take, Nat.min_eq_left hdata]
  have hpattern := ofBytes_lt (orient (m.flip e) (data.take m.size))
  have hbytes := toBytes_ofBytes (orient (m.flip e) (data.take m.size))
  rw [hlength] at hpattern hbytes
  rw [hm.decode_eq hfor hdata] at h
  split at h
  · rename_i hreplaced
    cases h
    rw [hm.encode_null hfor, ← hreplaced, hbytes, orient_orient]
  · cases h
    have hrange := hm.inRange_ofPattern hpattern
    rw [hm.encode_integer hfor (hm.sizedValue_integer hrange), if_pos hrange,
      toPattern_ofPattern hpattern, hbytes, orient_orient]

include hm hfor in
theorem Sized.encode_eq_nil_iff {v : DataValue} {value : Int} (h : v.integer? = some value)
    (e : Endian) : (encode dt v e).bytes = [] ↔ ¬ m.InRange value := by
  rw [hm.encode_integer hfor h]
  split
  · rename_i hrange
    refine iff_of_false ?_ (not_not.mpr hrange)
    intro hnil
    have hlength := congrArg List.length hnil
    rw [length_orient, length_toBytes, List.length_nil] at hlength
    obtain hsize | hsize | hsize := hm.size <;> omega
  · rename_i hrange
    exact iff_of_true rfl hrange

include hm hfor in
theorem Sized.decode_encode {v : DataValue} {value : Int} (h : v.integer? = some value)
    {e : Endian} (hrange : m.InRange value) (hne : encode dt v e ≠ encode dt .null e) :
    ∃ w, decode dt (encode dt v e).bytes e = some w ∧ w.integer? = some value := by
  have hencode := hm.encode_integer hfor h e
  rw [if_pos hrange] at hencode
  have hlength :
      (orient (m.flip e) (Bytes.toBytes m.size (m.toPattern value))).length = m.size := by
    rw [length_orient, length_toBytes]
  have hpattern := ofBytes_toBytes (toPattern_lt m value)
  refine ⟨sizedValue m value, ?_, hm.sizedValue_integer hrange⟩
  rw [hencode, hm.decode_eq hfor (Nat.le_of_eq hlength.symm), List.take_of_length_le
    (Nat.le_of_eq hlength), orient_orient, hpattern, hm.ofPattern_toPattern hrange, if_neg]
  intro hreplaced
  rw [hencode, hm.encode_null hfor, hreplaced] at hne
  exact hne rfl

end Sized

section Texts

variable {m : Meta} {dt : DataType} (hfor : metaFor dt = some m) (htext : m.isNumeric = false)

theorem encodeString_eq {str : List UInt8} (h : str.length = m.size) :
    encodeString m str = { bytes := str } := by
  have htake : str.take m.size = str := List.take_of_length_le (Nat.le_of_eq h)
  have hnone : m.size - ({ bytes := str } : Sequence).size = 0 := by
    rw [Sequence.size, h, Nat.sub_self]
  simp only [encodeString, htake, hnone, List.range_zero, List.foldl_nil]

include hfor htext in
theorem encode_decode_text {data : List UInt8} {e : Endian} {v : DataValue}
    (h : decode dt data e = some v) : encode dt v e = { bytes := data.take m.size } := by
  have hdata := size_le_of_decode hfor h
  have hauto : dt ≠ .autoDetect := by
    rintro rfl
    cases hfor
  simp only [decode, hfor, if_neg (Nat.not_lt.mpr hdata), htext, Bool.not_false, if_true] at h
  cases h
  simp only [encode, if_neg hauto, hfor, htext, Bool.false_and, Bool.false_eq_true, if_false,
    Bool.not_false, if_true]
  exact encodeString_eq (by rw [List.length_take, Nat.min_eq_left hdata])

end Texts

section Bcd

/-- The two digits, the tens in the high half. -/
def bcdByte (v : UInt8) : UInt8 := (v / 10) <<< 4 ||| v % 10

theorem bcdByte_digits (byte : UInt8)
    (h : ¬ ((9 : UInt8) < byte &&& 0x0f ∨ (9 : UInt8) < byte >>> 4 &&& 0x0f)) :
    (byte >>> 4) * 10 + (byte &&& 0x0f) ≤ 99 ∧
      bcdByte ((byte >>> 4) * 10 + (byte &&& 0x0f)) = byte := by
  have hall : ∀ i : Fin 256, ¬ ((9 : UInt8) < UInt8.ofNat i &&& 0x0f ∨
      (9 : UInt8) < UInt8.ofNat i >>> 4 &&& 0x0f) →
      (UInt8.ofNat i >>> 4) * 10 + (UInt8.ofNat i &&& 0x0f) ≤ 99 ∧
        bcdByte ((UInt8.ofNat i >>> 4) * 10 + (UInt8.ofNat i &&& 0x0f)) = UInt8.ofNat i := by
    decide +kernel
  simpa using hall ⟨byte.toNat, byte.toNat_lt⟩ (by simpa using h)

theorem digits_bcdByte (v : UInt8) (h : v.toNat ≤ 99) :
    bcdByte v ≠ 0xff ∧
    ¬ ((9 : UInt8) < bcdByte v &&& 0x0f ∨ (9 : UInt8) < bcdByte v >>> 4 &&& 0x0f) ∧
    (bcdByte v >>> 4) * 10 + (bcdByte v &&& 0x0f) = v := by
  have hall : ∀ i : Fin 256, (UInt8.ofNat i).toNat ≤ 99 → bcdByte (UInt8.ofNat i) ≠ 0xff ∧
      ¬ ((9 : UInt8) < bcdByte (UInt8.ofNat i) &&& 0x0f ∨
        (9 : UInt8) < bcdByte (UInt8.ofNat i) >>> 4 &&& 0x0f) ∧
      (bcdByte (UInt8.ofNat i) >>> 4) * 10 + (bcdByte (UInt8.ofNat i) &&& 0x0f) =
        UInt8.ofNat i := by
    decide +kernel
  simpa using hall ⟨v.toNat, v.toNat_lt⟩ (by simpa using h)

def bcd : Meta := ⟨.bcd, 1, true, false, false, true, 0xff, false, ⟨1, 1⟩⟩

theorem metaFor_bcd : metaFor .bcd = some bcd := (metaFor_eq .bcd).trans rfl

theorem decode_bcd (byte : UInt8) (rest : List UInt8) (e : Endian) :
    decode .bcd (byte :: rest) e =
      if byte = 0xff then some .null
      else if (9 : UInt8) < byte &&& 0x0f ∨ (9 : UInt8) < byte >>> 4 &&& 0x0f then none
      else some (.uint8 ((byte >>> 4) * 10 + (byte &&& 0x0f))) := by
  have hsentinel : (byte.toNat == 0xff) = decide (byte = 0xff) := by
    rw [Bool.eq_iff_iff, beq_iff_eq, decide_eq_true_iff, ← UInt8.toNat_inj]
    rfl
  simp [decode, metaFor_bcd, bcd, bitPattern, hsentinel]

theorem encode_bcd {v : DataValue} {value : Int} (h : v.integer? = some value) (e : Endian) :
    encode .bcd v e = if bcd.InRange value then
      ({ bytes := [bcdByte (UInt8.ofInt value)] } : Sequence) else {} := by
  have hnull : isNull v = false := by
    cases v <;> cases h <;> rfl
  have hvalue := toInt_asInt64 h
  have hencode : encode .bcd v e = encodeBcd (asInt64 v) := by
    simp [encode, metaFor_bcd, bcd, hnull]
  rw [hencode, encodeBcd, hvalue]
  by_cases hrange : bcd.InRange value
  · have hrange' : 0 ≤ value ∧ value ≤ 99 := hrange
    rw [if_pos hrange, if_neg (by omega)]
    rfl
  · have hrange' : ¬ (0 ≤ value ∧ value ≤ 99) := hrange
    rw [if_neg hrange, if_pos (by omega)]

theorem encode_bcd_null (e : Endian) : encode .bcd .null e = { bytes := [0xff] } := by
  simp [encode, metaFor_bcd, bcd, isNull, encodeNull, Sequence.pushBack]

theorem encode_decode_bcd {data : List UInt8} {e : Endian} {v : DataValue}
    (h : decode .bcd data e = some v) : encode .bcd v e = { bytes := data.take 1 } := by
  cases data with
  | nil => cases size_le_of_decode metaFor_bcd h
  | cons byte rest =>
      rw [decode_bcd] at h
      split at h
      · rename_i hnull
        cases h
        rw [encode_bcd_null, hnull]
        rfl
      · split at h
        · cases h
        · rename_i hdigits
          cases h
          obtain ⟨hle, hbyte⟩ := bcdByte_digits byte hdigits
          generalize (byte >>> 4) * 10 + (byte &&& 0x0f) = val at hle hbyte
          have hrange : bcd.InRange val.toNat := by
            have hval : val.toNat ≤ 99 := hle
            exact ⟨by omega, by omega⟩
          have hcast : UInt8.ofInt val.toNat = val := by
            apply UInt8.toNat_inj.mp
            have hval := val.toNat_lt
            have hback : ((UInt8.ofInt val.toNat).toNat : Int) = val.toNat :=
              toNat_ofInt_uint8 (by omega) (by omega)
            omega
          rw [encode_bcd (v := .uint8 val) rfl, if_pos hrange, hcast, hbyte]
          rfl

theorem decode_encode_bcd {v : DataValue} {value : Int} (h : v.integer? = some value)
    {e : Endian} (hrange : bcd.InRange value) :
    ∃ w, decode .bcd (encode .bcd v e).bytes e = some w ∧ w.integer? = some value := by
  have hrange' : 0 ≤ value ∧ value ≤ 99 := hrange
  have hcast : ((UInt8.ofInt value).toNat : Int) = value :=
    toNat_ofInt_uint8 (by omega) (by omega)
  obtain ⟨hnull, hdigits, hvalue⟩ := digits_bcdByte (UInt8.ofInt value) (by omega)
  refine ⟨.uint8 (UInt8.ofInt value), ?_, congrArg some hcast⟩
  rw [encode_bcd h, if_pos hrange, decode_bcd, if_neg hnull, if_neg hdigits, hvalue]

end Bcd

end Meta

open Meta

/-- Bytes that decode to a value of an unscaled type are what the value encodes to, and an
integer in the range of its type comes back unless it stands for no value. -/
theorem unscaled_roundTrip {dt : DataType} {m : Meta} (hfor : metaFor dt = some m)
    (hunscaled : m.Unscaled) (e : Endian) :
    (∀ data v, decode dt data e = some v → encode dt v e = { bytes := data.take m.size }) ∧
    (m.isNumeric = true → ∀ v value, v.integer? = some value →
      ((encode dt v e).bytes = [] ↔ ¬ m.InRange value) ∧
      (m.InRange value → encode dt v e ≠ encode dt .null e →
        ∃ w, decode dt (encode dt v e).bytes e = some w ∧ w.integer? = some value)) := by
  obtain ⟨hmem, hdt⟩ := mem_of_metaFor hfor
  by_cases hbcd : dt = .bcd
  · subst hbcd
    rw [metaFor_bcd] at hfor
    cases hfor
    refine ⟨fun data v h => encode_decode_bcd h, ?_⟩
    intro _ v value h
    refine ⟨?_, fun hrange _ => decode_encode_bcd h hrange⟩
    rw [encode_bcd h]
    by_cases hrange : bcd.InRange value <;> simp [hrange]
  · cases hnumeric : m.isNumeric with
    | false =>
        refine ⟨fun data v h => encode_decode_text hfor hnumeric h, ?_⟩
        intro himpossible
        cases himpossible
    | true =>
        have hm := sized_of_mem hmem hunscaled hnumeric (by rwa [hdt])
        refine ⟨fun data v h => hm.encode_decode hfor h, ?_⟩
        intro _ v value h
        exact ⟨hm.encode_eq_nil_iff hfor h e, hm.decode_encode hfor h⟩

/-- A reversed type read big-endian: both switches are on. -/
theorem unscaled_roundTrip_int16r :
    encode .int16r (.int16 (-2)) .big = { bytes := [0xfe, 0xff] } ∧
    (encode .int16r (.int32 40000) .big).bytes = [] := by
  have hfor : metaFor .int16r = some
      ⟨.int16r, 2, true, true, false, true, 0x8000, true, ⟨1, 1⟩⟩ := by decide
  obtain ⟨hdecode, hencode⟩ := unscaled_roundTrip hfor (by decide) .big
  refine ⟨hdecode [0xfe, 0xff, 0x07] _ ?_, (hencode rfl _ 40000 rfl).1.mpr (by decide)⟩
  have hread : readInt 2 [0xfe, 0xff, 0x07] false = 0xfffe := by decide
  simp [decode, hfor, Meta.flip, bitPattern, rawValue, sizedValue, hread]

end Ebus
