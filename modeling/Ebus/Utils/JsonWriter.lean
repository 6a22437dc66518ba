import Ebus.Utils.Chars
import Ebus.Lib.Json

/-!
# The streaming writer

`JsonWriter` turns calls into a text. Small parts are collected in a buffer, whose content is
passed to the visitor when it is full, when a container is closed and when the writer is
destroyed. Two flags decide on commas and line breaks: `first`, nothing stands in front of the
next value, and `afterKey`, a key does.

Left out are the timestamps and `writeRaw`.
-/

namespace Ebus

namespace JsonLimits

def indentSpaces : Int := 2
def writerBufferSize : Nat := 128
def formattingBufferSize : Nat := 64

end JsonLimits

/-- A value of an integral type, of any of the sizes and with or without a sign. -/
structure Integral where
  value : Int
  lower : IntType.int64.min ≤ value
  upper : value ≤ IntType.uint64.max
  deriving DecidableEq, Repr

/-- The values that are no containers. -/
inductive Scalar where
  | null
  | boolean (value : Bool)
  | integer (value : Integral)
  | string (value : List UInt8)
  deriving DecidableEq, Repr

structure JsonWriter where
  /-- what the visitor was called with -/
  chunks : List (List UInt8) := []
  buffer : List UInt8 := []
  fits : buffer.length ≤ JsonLimits.writerBufferSize := by exact Nat.zero_le _
  first : Bool := true
  pretty : Bool := false
  indentLevel : Int := 0
  afterKey : Bool := false

def hex (digit : UInt8) : UInt8 :=
  if digit < 10 then 0x30 + digit else 0x61 + (digit - 10)

/-- The text for a character that cannot stand in a string, if it is one. -/
def escapeOf (c : UInt8) : Option (List UInt8) :=
  if c = 0x22 then some [0x5c, 0x22]
  else if c = 0x5c then some [0x5c, 0x5c]
  else if c = 0x08 then some [0x5c, 0x62]
  else if c = 0x0c then some [0x5c, 0x66]
  else if c = 0x0a then some [0x5c, 0x6e]
  else if c = 0x0d then some [0x5c, 0x72]
  else if c = 0x09 then some [0x5c, 0x74]
  else if c < 0x20 then
    some [0x5c, 0x75, 0x30, 0x30, hex ((c >>> 4) &&& 0x0f), hex (c &&& 0x0f)]
  else none

/-- The loop of `writeEscapedJson`: `run` is the part of the string from `start` to the
position, which goes to the visitor in one piece. -/
def writeEscapedLoop (run : List UInt8) : List UInt8 → List (List UInt8)
  | [] => if run = [] then [] else [run]
  | c :: rest =>
      match escapeOf c with
      | some escaped =>
          (if run = [] then [] else [run]) ++ escaped :: writeEscapedLoop [] rest
      | none => writeEscapedLoop (run ++ [c]) rest

/-- The pieces that the visitor is called with. -/
def writeEscapedJson (s : List UInt8) : List (List UInt8) := writeEscapedLoop [] s

namespace JsonWriter

variable (w : JsonWriter)

def flush : JsonWriter :=
  if w.buffer = [] then w
  else { w with chunks := w.chunks ++ [w.buffer], buffer := [], fits := Nat.zero_le _ }

/-- What does not fit into the empty buffer either goes to the visitor at once. -/
def write (s : List UInt8) : JsonWriter :=
  if hfull : JsonLimits.writerBufferSize < w.buffer.length + s.length then
    if hlong : JsonLimits.writerBufferSize < s.length then
      { w.flush with chunks := w.flush.chunks ++ [s] }
    else { w.flush with buffer := s, fits := Nat.not_lt.mp hlong }
  else
    { w with buffer := w.buffer ++ s, fits := List.length_append ▸ Nat.not_lt.mp hfull }

/-- The destructor, and all that the visitor was called with. -/
def close : List (List UInt8) := w.flush.chunks

/-- The loop of `writeIndent`. -/
def writeSpaces (w : JsonWriter) : Nat → JsonWriter
  | 0 => w
  | n + 1 => writeSpaces (w.write [0x20]) n

def writeIndent : JsonWriter :=
  if w.pretty then
    (w.write [0x0a]).writeSpaces (w.indentLevel * JsonLimits.indentSpaces).toNat
  else w

def beforeValue : JsonWriter :=
  let w := if w.first then w else w.write [0x2c]
  let w := if w.pretty ∧ w.afterKey = false ∧ 0 < w.indentLevel then w.writeIndent else w
  { w with afterKey := false }

def afterValue : JsonWriter := { w with first := false, afterKey := false }

/-- `startObject` and `startArray`. -/
def startContainer (bracket : UInt8) : JsonWriter :=
  let w := w.beforeValue.write [bracket]
  { w with indentLevel := if w.pretty then w.indentLevel + 1 else w.indentLevel, first := true }

/-- `endObject` and `endArray`. -/
def endContainer (bracket : UInt8) : JsonWriter :=
  let w :=
    if w.pretty then { w with indentLevel := w.indentLevel - 1 : JsonWriter }.writeIndent else w
  let w := (w.write [bracket]).flush
  { w with first := false, afterKey := false }

def startObject : JsonWriter := w.startContainer 0x7b
def endObject : JsonWriter := w.endContainer 0x7d
def startArray : JsonWriter := w.startContainer 0x5b
def endArray : JsonWriter := w.endContainer 0x5d

/-- There is no result where the assertion fails. -/
def appendKey (key : List UInt8) : Option JsonWriter :=
  if w.afterKey then none
  else
    let w := if w.first then w else w.write [0x2c]
    let w := if w.pretty then w.writeIndent else w
    let w := ((w.write [0x22]).write key).write [0x22, 0x3a]
    let w := if w.pretty then w.write [0x20] else w
    some { w with first := true, afterKey := true }

def writeEscaped (s : List UInt8) : JsonWriter := (writeEscapedJson s).foldl write w

/-- The part that the overloads for values and for fields have in common. -/
def writeScalar : Scalar → JsonWriter
  | .null => w.write Json.Lexeme.nullText
  | .boolean value => w.write (if value then Json.Lexeme.trueText else Json.Lexeme.falseText)
  | .integer value =>
      -- the local buffer of 24 characters
      let text := Chars.toChars value.value
      if text.length ≤ 24 then w.write text else w
  | .string value => ((w.write [0x22]).writeEscaped value).write [0x22]

def writeValue (value : Scalar) : JsonWriter := (w.beforeValue.writeScalar value).afterValue

def writeField (key : List UInt8) (value : Scalar) : Option JsonWriter :=
  (w.appendKey key).map fun w => (w.writeScalar value).afterValue

/-- The loop of `appendHexFieldToWriter`, with the digits in its local buffer. -/
def appendHexLoop (w : JsonWriter) (buf : List UInt8) : List UInt8 → JsonWriter
  | [] => if buf = [] then w else w.write buf
  | b :: data =>
      let buf := buf ++ [hex (b >>> 4), hex (b &&& 0x0f)]
      if buf.length = JsonLimits.formattingBufferSize then appendHexLoop (w.write buf) [] data
      else appendHexLoop w buf data

def writeHexField (key data : List UInt8) : Option JsonWriter :=
  (w.appendKey key).map fun w =>
    (((w.write [0x22]).appendHexLoop [] data).write [0x22]).afterValue

/-- `text` is what `formatFloat` makes of the number. -/
def writeFieldFloat (key text : List UInt8) : Option JsonWriter :=
  (w.appendKey key).map fun w => (w.write text).afterValue

/-- A build without assertions does not look at the flag that `appendKey` asserts. -/
def ready (assertions : Bool) : JsonWriter :=
  if assertions then w else { w with afterKey := false }

/-- `writeField` of a variant. -/
def writeFieldVariant (key : List UInt8) (value : Scalar) : Option JsonWriter :=
  (w.appendKey key).map fun w => (w.writeValue value).afterValue

/-- `writeValue` of something with `toJson`, up to the call of it. -/
def enterValue : JsonWriter := { w.beforeValue with first := true : JsonWriter }.flush

/-- `writeField` of something with `toJson`, up to the call of it. -/
def enterField (key : List UInt8) : Option JsonWriter :=
  (w.appendKey key).map fun w => { w with first := true : JsonWriter }.flush

inductive Call where
  | startObject
  | endObject
  | startArray
  | endArray
  | appendKey (key : List UInt8)
  | writeField (key : List UInt8) (value : Scalar)
  | writeFieldVariant (key : List UInt8) (value : Scalar)
  | writeValue (value : Scalar)
  | enterField (key : List UInt8)
  | enterValue
  /-- the end of `writeField` and `writeValue` behind the call of `toJson` -/
  | leave
  deriving DecidableEq, Repr

def call : Call → Option JsonWriter
  | .startObject => some w.startObject
  | .endObject => some w.endObject
  | .startArray => some w.startArray
  | .endArray => some w.endArray
  | .appendKey key => w.appendKey key
  | .writeField key value => w.writeField key value
  | .writeFieldVariant key value => w.writeFieldVariant key value
  | .writeValue value => some (w.writeValue value)
  | .enterField key => w.enterField key
  | .enterValue => some w.enterValue
  | .leave => some w.afterValue

def run (calls : List Call) : Option JsonWriter := calls.foldlM call w

end JsonWriter

end Ebus
