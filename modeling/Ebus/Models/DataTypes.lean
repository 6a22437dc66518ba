import Ebus.Lib.Bytes
import Ebus.Protocol.Sequence
import Ebus.Utils.Chars

/-!
# Data types of telegram fields

The table of the field types and the two conversions between bytes and values. Numbers are
low byte first on the bus; the reversed types and the big-endian reading each turn that
around. A bit pattern that stands for "no value" decodes to `null`, and the types with a
scale decode to a fixed-point number of millionths.
-/

namespace Ebus

inductive Endian where
  | little
  | big
  deriving DecidableEq, Repr

inductive DataType where
  | autoDetect
  | error
  | bcd
  | uint8
  | int8
  | data1b
  | data1c
  | char1
  | hex1
  | uint16
  | uint16r
  | int16
  | int16r
  | data2b
  | data2br
  | data2c
  | data2cr
  | char2
  | hex2
  | char3
  | hex3
  | uint32
  | uint32r
  | int32
  | int32r
  | float4
  | float4r
  | char4
  | hex4
  | char5
  | hex5
  | char6
  | hex6
  | char7
  | hex7
  | char8
  | hex8
  deriving DecidableEq, Repr

/-- The value of the enumerator, as `static_cast<uint32_t>` gives it. -/
def DataType.value : DataType → Nat
  | .autoDetect => 0x0000
  | .error => 0xffffffff
  | .bcd => 0x0101
  | .uint8 => 0x0102
  | .int8 => 0x0103
  | .data1b => 0x0104
  | .data1c => 0x0105
  | .char1 => 0x0106
  | .hex1 => 0x0107
  | .uint16 => 0x0201
  | .uint16r => 0x0202
  | .int16 => 0x0203
  | .int16r => 0x0204
  | .data2b => 0x0205
  | .data2br => 0x0206
  | .data2c => 0x0207
  | .data2cr => 0x0208
  | .char2 => 0x0209
  | .hex2 => 0x020a
  | .char3 => 0x0301
  | .hex3 => 0x0302
  | .uint32 => 0x0401
  | .uint32r => 0x0402
  | .int32 => 0x0403
  | .int32r => 0x0404
  | .float4 => 0x0405
  | .float4r => 0x0406
  | .char4 => 0x0407
  | .hex4 => 0x0408
  | .char5 => 0x0501
  | .hex5 => 0x0502
  | .char6 => 0x0601
  | .hex6 => 0x0602
  | .char7 => 0x0701
  | .hex7 => 0x0702
  | .char8 => 0x0801
  | .hex8 => 0x0802

namespace DataTypeLimits

def nullSentinel : Nat := 0xff
def sentinel8 : Nat := 0xff
def sentinelS8 : Nat := 0x80
def sentinel16 : Nat := 0xffff
def sentinelS16 : Nat := 0x8000
def sentinel32 : Nat := 0xffffffff
def sentinelS32 : Nat := 0x80000000

end DataTypeLimits

namespace FixedPointLimits

def fixedPointScale : Int := 1000000

end FixedPointLimits

structure Scale where
  num : Int
  den : Int
  deriving DecidableEq, Repr

structure Meta where
  dt : DataType
  size : Nat
  isNumeric : Bool
  isSigned : Bool
  isFloat : Bool
  hasReplacement : Bool
  replacementValue : Nat
  reversed : Bool
  scale : Scale
  deriving DecidableEq, Repr

open DataTypeLimits in
def metaTable : List Meta :=
  [⟨.bcd, 1, true, false, false, true, nullSentinel, false, ⟨1, 1⟩⟩,
   ⟨.char1, 1, false, false, false, true, sentinel8, false, ⟨1, 1⟩⟩,
   ⟨.char2, 2, false, false, false, true, sentinel16, false, ⟨1, 1⟩⟩,
   ⟨.char3, 3, false, false, false, false, 0, false, ⟨1, 1⟩⟩,
   ⟨.char4, 4, false, false, false, false, 0, false, ⟨1, 1⟩⟩,
   ⟨.char5, 5, false, false, false, false, 0, false, ⟨1, 1⟩⟩,
   ⟨.char6, 6, false, false, false, false, 0, false, ⟨1, 1⟩⟩,
   ⟨.char7, 7, false, false, false, false, 0, false, ⟨1, 1⟩⟩,
   ⟨.char8, 8, false, false, false, false, 0, false, ⟨1, 1⟩⟩,
   ⟨.data1b, 1, true, true, false, true, sentinelS8, false, ⟨1, 1⟩⟩,
   ⟨.data1c, 1, true, false, false, true, sentinel8, false, ⟨1, 2⟩⟩,
   ⟨.data2b, 2, true, true, false, true, sentinelS16, false, ⟨1, 256⟩⟩,
   ⟨.data2br, 2, true, true, false, true, sentinelS16, true, ⟨1, 256⟩⟩,
   ⟨.data2c, 2, true, true, false, true, sentinelS16, false, ⟨1, 16⟩⟩,
   ⟨.data2cr, 2, true, true, false, true, sentinelS16, true, ⟨1, 16⟩⟩,
   ⟨.float4, 4, true, false, true, false, 0, false, ⟨1, 1⟩⟩,
   ⟨.float4r, 4, true, false, true, false, 0, true, ⟨1, 1⟩⟩,
   ⟨.hex1, 1, false, false, false, true, sentinel8, false, ⟨1, 1⟩⟩,
   ⟨.hex2, 2, false, false, false, true, sentinel16, false, ⟨1, 1⟩⟩,
   ⟨.hex3, 3, false, false, false, false, 0, false, ⟨1, 1⟩⟩,
   ⟨.hex4, 4, false, false, false, false, 0, false, ⟨1, 1⟩⟩,
   ⟨.hex5, 5, false, false, false, false, 0, false, ⟨1, 1⟩⟩,
   ⟨.hex6, 6, false, false, false, false, 0, false, ⟨1, 1⟩⟩,
   ⟨.hex7, 7, false, false, false, false, 0, false, ⟨1, 1⟩⟩,
   ⟨.hex8, 8, false, false, false, false, 0, false, ⟨1, 1⟩⟩,
   ⟨.int16, 2, true, true, false, true, sentinelS16, false, ⟨1, 1⟩⟩,
   ⟨.int16r, 2, true, true, false, true, sentinelS16, true, ⟨1, 1⟩⟩,
   ⟨.int32, 4, true, true, false, true, sentinelS32, false, ⟨1, 1⟩⟩,
   ⟨.int32r, 4, true, true, false, true, sentinelS32, true, ⟨1, 1⟩⟩,
   ⟨.int8, 1, true, true, false, true, sentinelS8, false, ⟨1, 1⟩⟩,
   ⟨.uint16, 2, true, false, false, true, sentinel16, false, ⟨1, 1⟩⟩,
   ⟨.uint16r, 2, true, false, false, true, sentinel16, true, ⟨1, 1⟩⟩,
   ⟨.uint32, 4, true, false, false, true, sentinel32, false, ⟨1, 1⟩⟩,
   ⟨.uint32r, 4, true, false, false, true, sentinel32, true, ⟨1, 1⟩⟩,
   ⟨.uint8, 1, true, false, false, true, sentinel8, false, ⟨1, 1⟩⟩]

def getDataTypeIndex (dt : DataType) : Nat :=
  ((dt.value >>> 8) <<< 4) ||| (dt.value &&& 0xff)

/-- The array of 144 pointers that is filled from the table. -/
def metaLookup : List (Option Meta) :=
  metaTable.foldl (fun arr m => arr.set (getDataTypeIndex m.dt) (some m))
    (List.replicate 144 none)

def metaFor (dt : DataType) : Option Meta :=
  if dt = .error ∨ dt = .autoDetect then none
  else
    let idx := getDataTypeIndex dt
    if 144 ≤ idx then none else metaLookup.getD idx none

inductive DataValue where
  | null
  | uint8 (value : UInt8)
  | int8 (value : Int8)
  | uint16 (value : UInt16)
  | int16 (value : Int16)
  | uint32 (value : UInt32)
  | int32 (value : Int32)
  | int64 (value : Int64)
  | float (value : Float32)
  | string (value : List UInt8)

/-- `swapEndian` for the unsigned type of `size` bytes. -/
def swapEndian (size val : Nat) : Nat :=
  if size = 2 then (val >>> 8 ||| val <<< 8) % 0x10000
  else if size = 4 then
    (val >>> 24 &&& 0xff) ||| (val >>> 8 &&& 0xff00) |||
      (val <<< 8 &&& 0xff0000) ||| (val <<< 24 &&& 0xff000000)
  else val

/-- `readInt` for the unsigned type of `size` bytes. -/
def readInt (size : Nat) (data : List UInt8) (flip : Bool) : Nat :=
  let val := (List.range size).foldl
    (fun val i => val ||| (data.getD i 0).toNat <<< (8 * i)) 0
  if flip then swapEndian size val else val

/-- `writeInt` for the unsigned type of `size` bytes. -/
def writeInt (s : Sequence) (size val : Nat) (flip : Bool) : Sequence :=
  let toWrite := if flip then swapEndian size val else val
  (List.range size).foldl
    (fun s i => s.pushBack (UInt8.ofNat (toWrite >>> (8 * i) &&& 0xff)) false) s

def Meta.flip (m : Meta) (e : Endian) : Bool :=
  if m.reversed then e = .little else e = .big

def isNull : DataValue → Bool
  | .null => true
  | _ => false

def getDataType : DataValue → DataType
  | .uint8 _ => .uint8
  | .int8 _ => .int8
  | .uint16 _ => .uint16
  | .int16 _ => .int16
  | .uint32 _ => .uint32
  | .int32 _ => .int32
  | .int64 _ => .error
  | .float _ => .float4
  | .string _ => .char8
  | .null => .error

def asFloat : DataValue → Float32
  | .null => 0
  | .uint8 arg => arg.toFloat32
  | .int8 arg => arg.toFloat32
  | .uint16 arg => arg.toFloat32
  | .int16 arg => arg.toFloat32
  | .uint32 arg => arg.toFloat32
  | .int32 arg => arg.toFloat32
  | .int64 arg => arg.toFloat32 / (Int64.ofInt FixedPointLimits.fixedPointScale).toFloat32
  | .float arg => arg
  | .string _ => 0

/-- A text is read as hexadecimal, with or without a prefix. -/
def stringAsInt64 (arg : List UInt8) : Int64 :=
  if arg.isEmpty then 0
  else
    let sv :=
      if 2 ≤ arg.length ∧ arg.getD 0 0 = 0x30 ∧ (arg.getD 1 0 = 0x78 ∨ arg.getD 1 0 = 0x58)
        then arg.drop 2 else arg
    match Chars.fromChars .int64 16 sv with
    | some (result, _) => Int64.ofInt result
    | none => 0

def asInt64 : DataValue → Int64
  | .null => 0
  | .uint8 arg => Int64.ofInt arg.toNat
  | .int8 arg => Int64.ofInt arg.toInt
  | .uint16 arg => Int64.ofInt arg.toNat
  | .int16 arg => Int64.ofInt arg.toInt
  | .uint32 arg => Int64.ofInt arg.toNat
  | .int32 arg => Int64.ofInt arg.toInt
  | .int64 arg =>
      -- both constants are `int64_t`, and the division truncates
      (arg + Int64.ofInt FixedPointLimits.fixedPointScale / 2) /
        Int64.ofInt FixedPointLimits.fixedPointScale
  | .float arg => arg.round.toInt64
  | .string arg => stringAsInt64 arg

/-- `static_cast<T>` of an integer. -/
def castTo (type : IntType) (value : Int) : Int :=
  if type.signed then value.bmod (2 ^ type.bits) else value % 2 ^ type.bits

/-- The branch of `getAs` for two integral types: the value and the limits are cast. -/
def getAsInteger (type : IntType) (arg : Int) : Option Int :=
  let val := Int64.ofInt arg
  if Int64.ofInt type.min ≤ val ∧ val ≤ Int64.ofInt type.max then
    some (castTo type val.toInt)
  else none

/-- `getAs` for an integral type. -/
def getAs (type : IntType) : DataValue → Option Int
  | .null => none
  | .uint8 arg => getAsInteger type arg.toNat
  | .int8 arg => getAsInteger type arg.toInt
  | .uint16 arg => getAsInteger type arg.toNat
  | .int16 arg => getAsInteger type arg.toInt
  | .uint32 arg => getAsInteger type arg.toNat
  | .int32 arg => getAsInteger type arg.toInt
  | .int64 arg => getAsInteger type arg.toInt
  | .float val =>
      if Float32.ofInt type.min ≤ val ∧ val ≤ Float32.ofInt type.max then
        some (if type.signed then val.toInt64.toInt else val.toUInt64.toNat)
      else none
  | .string _ => none

/-- Scaling rounds half away from zero; the intermediate values have 128 bits. -/
def integerScale (val : Int64) (num den : Int) : Int64 :=
  if den = 0 then 0
  else
    let numerator := val.toInt * num
    let half := den.tdiv 2
    if 0 ≤ numerator then Int64.ofInt ((numerator + half).tdiv den)
    else Int64.ofInt ((numerator - half).tdiv den)

/-- Whether the integral type of that many bytes holds the value. -/
def inRange (val : Int64) (bits : Nat) (isSigned : Bool) : Bool :=
  (IntType.mk isSigned bits).Holds val.toInt

def validateRange (val : Int64) (size : Nat) (isSigned : Bool) : Bool :=
  match size with
  | 1 => inRange val 8 isSigned
  | 2 => inRange val 16 isSigned
  | 4 => inRange val 32 isSigned
  | _ => true

def bitPattern (m : Meta) (data : List UInt8) (flip : Bool) : Nat :=
  match m.size with
  | 1 => (data.getD 0 0).toNat
  | 2 => readInt 2 data flip
  | 4 => readInt 4 data flip
  | _ => 0

/-- The raw integer; the cast to a signed type of the same size extends the sign. -/
def rawValue (m : Meta) (data : List UInt8) (flip : Bool) : Int :=
  if m.size = 1 then
    if m.isSigned then Int.bmod (data.getD 0 0).toNat 0x100 else (data.getD 0 0).toNat
  else if m.size = 2 then
    if m.isSigned then Int.bmod (readInt 2 data flip) 0x10000 else readInt 2 data flip
  else if m.size = 4 then
    if m.isSigned then Int.bmod (readInt 4 data flip) 0x100000000 else readInt 4 data flip
  else 0

/-- The alternative of the variant for an integer of the type's size. -/
def sizedValue (m : Meta) (raw : Int) : DataValue :=
  if m.size = 1 then
    if m.isSigned then .int8 (Int8.ofInt raw) else .uint8 (UInt8.ofInt raw)
  else if m.size = 2 then
    if m.isSigned then .int16 (Int16.ofInt raw) else .uint16 (UInt16.ofInt raw)
  else if m.isSigned then .int32 (Int32.ofInt raw)
  else .uint32 (UInt32.ofInt raw)

/-- The product stays far below `2 ^ 63`: a raw value has at most 32 bits. -/
def decode (dt : DataType) (data : List UInt8) (e : Endian) : Option DataValue :=
  match metaFor dt with
  | none => none
  | some m =>
      if data.length < m.size then none
      else
        let flip := m.flip e
        if !m.isNumeric then some (.string (data.take m.size))
        else if !m.isFloat && m.hasReplacement && bitPattern m data flip == m.replacementValue
          then some .null
        else if dt = .bcd then
          let val := data.getD 0 0
          if (9 : UInt8) < val &&& 0x0f ∨ (9 : UInt8) < val >>> 4 &&& 0x0f then none
          else some (.uint8 ((val >>> 4) * 10 + (val &&& 0x0f)))
        else
          let raw := rawValue m data flip
          if m.isFloat then some (.float (Float32.ofBits (UInt32.ofNat (readInt 4 data flip))))
          else if m.scale.num ≠ 1 ∨ m.scale.den ≠ 1 then
            some (.int64 (Int64.ofInt
              ((raw * m.scale.num * FixedPointLimits.fixedPointScale).tdiv m.scale.den)))
          else some (sizedValue m raw)

def encodeNull (m : Meta) (flip : Bool) : Sequence :=
  if !m.hasReplacement then {}
  else if m.size = 1 then ({} : Sequence).pushBack (UInt8.ofNat m.replacementValue) false
  else if m.size = 2 then writeInt {} 2 (m.replacementValue % 0x10000) flip
  else if m.size = 4 then writeInt {} 4 (m.replacementValue % 0x100000000) flip
  else
    (List.range m.size).foldl
      (fun s i => s.pushBack (UInt8.ofNat (m.replacementValue >>> (8 * i) &&& 0xff)) false) {}

/-- A text is cut off or filled up with zeros. -/
def encodeString (m : Meta) (str : List UInt8) : Sequence :=
  let s : Sequence := { bytes := str.take m.size }
  (List.range (m.size - s.size)).foldl (fun s _ => s.pushBack 0 false) s

def encodeBcd (v : Int64) : Sequence :=
  if v.toInt < 0 ∨ 99 < v.toInt then {}
  else
    let v := UInt8.ofInt v.toInt
    ({} : Sequence).pushBack ((v / 10) <<< 4 ||| v % 10) false

def unscale (m : Meta) (value : DataValue) : Int64 :=
  let num := (Int64.ofInt m.scale.num).toFloat32
  let den := (Int64.ofInt m.scale.den).toFloat32
  match value with
  | .float _ => (asFloat value * den / num).round.toInt64
  | .int64 arg =>
      (arg.toFloat32 / (Int64.ofInt FixedPointLimits.fixedPointScale).toFloat32 *
        den / num).round.toInt64
  | _ => integerScale (asInt64 value) m.scale.den m.scale.num

def encodeInt (m : Meta) (raw : Int64) (flip : Bool) : Sequence :=
  if !validateRange raw m.size m.isSigned then {}
  else if m.size = 1 then ({} : Sequence).pushBack (UInt8.ofInt raw.toInt) false
  else if m.size = 2 then writeInt {} 2 (raw.toInt % 0x10000).toNat flip
  else if m.size = 4 then writeInt {} 4 (raw.toInt % 0x100000000).toNat flip
  else {}

def encode (dt : DataType) (value : DataValue) (e : Endian) : Sequence :=
  let dt := if dt = .autoDetect then getDataType value else dt
  match metaFor dt with
  | none => {}
  | some m =>
      let flip := m.flip e
      if m.isNumeric && isNull value then encodeNull m flip
      else if !m.isNumeric then
        match value with
        | .string str => encodeString m str
        | _ => {}
      else if dt = .bcd then encodeBcd (asInt64 value)
      else if m.isFloat then writeInt {} 4 (asFloat value).toBits.toNat flip
      else encodeInt m (unscale m value) flip

/-- Every type is found under its own index. -/
theorem metaFor_eq (dt : DataType) : metaFor dt = metaTable.find? (fun m => m.dt = dt) := by
  cases dt <;> decide

theorem mem_of_metaFor {dt : DataType} {m : Meta} (h : metaFor dt = some m) :
    m ∈ metaTable ∧ m.dt = dt := by
  rw [metaFor_eq] at h
  exact ⟨List.mem_of_find?_eq_some h, by simpa using List.find?_some h⟩

/-- The bytes of a number, low byte first. -/
def orient (flip : Bool) (bytes : List UInt8) : List UInt8 :=
  if flip then bytes.reverse else bytes

@[simp] theorem orient_orient (flip : Bool) (bytes : List UInt8) :
    orient flip (orient flip bytes) = bytes := by
  cases flip
  · rfl
  · exact List.reverse_reverse bytes

@[simp] theorem length_orient (flip : Bool) (bytes : List UInt8) :
    (orient flip bytes).length = bytes.length := by
  cases flip
  · rfl
  · exact List.length_reverse

section ByteOrder

open Bytes

theorem swapEndian_two (a b : UInt8) : swapEndian 2 (ofBytes [a, b]) = ofBytes [b, a] := by
  have ha := a.toNat_lt
  have hb := b.toNat_lt
  simp only [ofBytes_cons, ofBytes_nil]
  have hhigh : (a.toNat + 256 * (b.toNat + 256 * 0)) >>> 8 = b.toNat := by
    rw [Nat.shiftRight_eq_div_pow]
    omega
  rw [swapEndian, if_pos rfl, hhigh, or_shiftLeft 1 _ hb]
  omega

theorem swapEndian_four (a b c d : UInt8) :
    swapEndian 4 (ofBytes [a, b, c, d]) = ofBytes [d, c, b, a] := by
  have ha := a.toNat_lt
  have hb := b.toNat_lt
  have hc := c.toNat_lt
  have hd := d.toNat_lt
  have hbyte (v k : Nat) : v >>> k &&& 0xff = v / 2 ^ k % 256 := by
    rw [Nat.shiftRight_eq_div_pow, Nat.and_two_pow_sub_one_eq_mod _ 8]
  simp only [ofBytes_cons, ofBytes_nil]
  generalize hv : a.toNat + 256 * (b.toNat + 256 * (c.toNat + 256 * (d.toNat + 256 * 0))) = v
  have hfirst : v >>> 24 &&& 0xff = d.toNat := by
    rw [hbyte]
    omega
  have hsecond : v >>> 8 &&& 0xff00 = c.toNat <<< (8 * 1) := by
    rw [show (0xff00 : Nat) = 0xff <<< 8 from rfl, and_shiftLeft, ← Nat.shiftRight_add, hbyte]
    congr 1
    omega
  have hthird : v <<< 8 &&& 0xff0000 = b.toNat <<< (8 * 2) := by
    rw [show (0xff0000 : Nat) = 0xff <<< 16 from rfl, and_shiftLeft, hbyte, Nat.shiftLeft_eq v]
    congr 1
    omega
  have hfourth : v <<< 24 &&& 0xff000000 = a.toNat <<< (8 * 3) := by
    rw [show (0xff000000 : Nat) = 0xff <<< 24 from rfl, and_shiftLeft, hbyte, Nat.shiftLeft_eq v]
    congr 1
    omega
  rw [swapEndian, if_neg (by decide), if_pos rfl, hfirst, hsecond, hthird, hfourth,
    or_shiftLeft 1 _ hd, or_shiftLeft 2 _ (by omega), or_shiftLeft 3 _ (by omega)]
  omega

/-- Swapping a number of two or four bytes reverses its bytes. -/
theorem swapEndian_ofBytes (bytes : List UInt8) (h : bytes.length = 2 ∨ bytes.length = 4) :
    swapEndian bytes.length (ofBytes bytes) = ofBytes bytes.reverse := by
  match bytes, h with
  | [a, b], _ => exact swapEndian_two a b
  | [a, b, c, d], _ => exact swapEndian_four a b c d

variable {size : Nat} (hsize : size = 2 ∨ size = 4)

include hsize in
theorem readInt_eq {data : List UInt8} (hdata : size ≤ data.length) (flip : Bool) :
    readInt size data flip = ofBytes (orient flip (data.take size)) := by
  have hlength : (data.take size).length = size := by
    rw [List.length_take, Nat.min_eq_left hdata]
  rw [readInt, foldl_or_eq data hdata]
  cases flip with
  | false => rfl
  | true =>
      have hswap := swapEndian_ofBytes (data.take size) (by rwa [hlength])
      rw [hlength] at hswap
      exact hswap

theorem foldl_pushBack (f : Nat → UInt8) (n : Nat) :
    (List.range n).foldl (fun (s : Sequence) i => s.pushBack (f i) false) {} =
      { bytes := (List.range n).map f } := by
  induction n with
  | zero => rfl
  | succ n ih =>
      rw [List.range_succ, List.foldl_append, ih, List.map_append]
      rfl

include hsize in
theorem writeInt_eq {val : Nat} (hval : val < 256 ^ size) (flip : Bool) :
    writeInt {} size val flip = { bytes := orient flip (Bytes.toBytes size val) } := by
  have hloop (v : Nat) : (List.range size).foldl
      (fun (s : Sequence) i => s.pushBack (UInt8.ofNat (v >>> (8 * i) &&& 0xff)) false) {} =
        { bytes := Bytes.toBytes size v } := by
    rw [foldl_pushBack, map_shiftRight_eq]
  rw [writeInt, hloop]
  cases flip with
  | false => rfl
  | true =>
      have hswap := swapEndian_ofBytes (Bytes.toBytes size val) (by rwa [length_toBytes])
      have hback := toBytes_ofBytes (Bytes.toBytes size val).reverse
      rw [length_toBytes, ofBytes_toBytes hval] at hswap
      rw [List.length_reverse, length_toBytes, ← hswap] at hback
      exact congrArg (fun bytes => ({ bytes } : Sequence)) hback

end ByteOrder

end Ebus
