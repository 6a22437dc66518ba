import Ebus.Models.DataTypes
import Ebus.Utils.JsonWriter

/-!
# Values of telegram fields as JSON

`decodeToJson` writes an object about the value of a field. `finite` stands for the texts that
`formatFloat` makes of finite numbers, with a precision.
-/

namespace Ebus

open Chars (ofString)

namespace FormattingLimits

def detailedPrecision : Nat := 4

end FormattingLimits

/-- The name in the table of the types. -/
def DataType.name : DataType → String
  | .bcd => "BCD"
  | .char1 => "CHAR1"
  | .char2 => "CHAR2"
  | .char3 => "CHAR3"
  | .char4 => "CHAR4"
  | .char5 => "CHAR5"
  | .char6 => "CHAR6"
  | .char7 => "CHAR7"
  | .char8 => "CHAR8"
  | .data1b => "DATA1B"
  | .data1c => "DATA1C"
  | .data2b => "DATA2B"
  | .data2br => "DATA2BR"
  | .data2c => "DATA2C"
  | .data2cr => "DATA2CR"
  | .float4 => "FLOAT4"
  | .float4r => "FLOAT4R"
  | .hex1 => "HEX1"
  | .hex2 => "HEX2"
  | .hex3 => "HEX3"
  | .hex4 => "HEX4"
  | .hex5 => "HEX5"
  | .hex6 => "HEX6"
  | .hex7 => "HEX7"
  | .hex8 => "HEX8"
  | .int16 => "INT16"
  | .int16r => "INT16R"
  | .int32 => "INT32"
  | .int32r => "INT32R"
  | .int8 => "INT8"
  | .uint16 => "UINT16"
  | .uint16r => "UINT16R"
  | .uint32 => "UINT32"
  | .uint32r => "UINT32R"
  | .uint8 => "UINT8"
  | .autoDetect | .error => "UNKNOWN"

section Texts
variable (finite : Float32 → Nat → List UInt8)

def formatFloat (value : Float32) (precision : Nat) : List UInt8 :=
  if value.isNaN then ofString "null"
  else if value.isInf then if value < 0 then ofString "-inf" else ofString "inf"
  else finite value precision

/-- The factor that `getMeta` computes. -/
def Meta.factor (m : Meta) : Float32 :=
  (Int64.ofInt m.scale.num).toFloat32 / (Int64.ofInt m.scale.den).toFloat32

namespace JsonWriter

variable (w : JsonWriter)

def appendInt (val : Int) : JsonWriter :=
  -- the local buffer of 24 characters
  let text := Chars.toChars val
  if text.length ≤ 24 then w.write text else w.write Json.Lexeme.nullText

/-- `JsonValueVisitor`: it calls `write` only, which leaves the flags of the writer alone. -/
def visitValue : DataValue → JsonWriter
  | .null => w.write Json.Lexeme.nullText
  | .string s => ((w.write [0x22]).writeEscaped s).write [0x22]
  | .int64 val =>
      w.write (formatFloat finite
        (val.toFloat32 / (Int64.ofInt FixedPointLimits.fixedPointScale).toFloat32)
        FormattingLimits.detailedPrecision)
  | .float val => w.write (formatFloat finite val FormattingLimits.detailedPrecision)
  | .uint8 val => w.appendInt val.toNat
  | .int8 val => w.appendInt val.toInt
  | .uint16 val => w.appendInt val.toNat
  | .int16 val => w.appendInt val.toInt
  | .uint32 val => w.appendInt val.toNat
  | .int32 val => w.appendInt val.toInt

end JsonWriter

/-- `static_cast<int32_t>` of the enumerator. -/
def DataType.integral (dt : DataType) : Integral where
  value := (Int32.ofNat dt.value).toInt
  lower := Int.le_trans (by decide) (Int32.ofNat dt.value).minValue_le_toInt
  upper := Int.le_trans (Int32.ofNat dt.value).toInt_le (by decide)

/-- The calls of the writer between the brackets of the object. -/
def writeDecoded (assertions : Bool) (dt : DataType) (data : List UInt8) (w : JsonWriter) :
    Option JsonWriter :=
  match metaFor dt with
  | none =>
      (w.ready assertions).writeField (ofString "error") (.string (ofString "Invalid DataType"))
  | some m => do
      let w ← (w.ready assertions).writeField (ofString "type") (.integer m.dt.integral)
      let w ← (w.ready assertions).writeField (ofString "name") (.string (ofString m.dt.name))
      let w ← (w.ready assertions).writeHexField (ofString "raw_hex") data
      let w ← (w.ready assertions).appendKey (ofString "value")
      let w :=
        match decode dt data .little with
        | some decoded => w.visitValue finite decoded
        | none => w.write Json.Lexeme.nullText
      (w.ready assertions).writeFieldFloat (ofString "factor") (formatFloat finite m.factor 4)

/-- What the visitor is called with. There is no result where an assertion fails, in a build that
has them. -/
def decodeToJson (assertions : Bool) (dt : DataType) (data : List UInt8) (pretty : Bool) :
    Option (List (List UInt8)) :=
  (writeDecoded finite assertions dt data ({ pretty } : JsonWriter).startObject).map
    fun w => w.endObject.close

end Texts

end Ebus
