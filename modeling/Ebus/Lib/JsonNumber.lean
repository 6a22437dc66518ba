import Mathlib.Algebra.Order.Field.Rat
import Mathlib.Data.List.TakeWhile
import Ebus.Lib.Json

/-!
# The value of a number

What the text of a number stands for, as a rational: the digits in front of and behind the point,
times a power of ten.
-/

namespace Json

def digitsValue (digits : List UInt8) : Nat :=
  digits.foldl (fun value char => value * 10 + (char.toNat - 0x30)) 0

/-- The digits behind a point, and the text behind them. -/
def fraction (text : List UInt8) : List UInt8 × List UInt8 :=
  if text.head? = some 0x2e then (text.tail.takeWhile isDigit, text.tail.dropWhile isDigit)
  else ([], text)

/-- The exponent behind an `e`. -/
def exponent (text : List UInt8) : Int :=
  if text.tail.head? = some 0x2d then -digitsValue text.tail.tail
  else if text.tail.head? = some 0x2b then digitsValue text.tail.tail
  else digitsValue text.tail

def unsignedValue (text : List UInt8) : ℚ :=
  let (frac, rest) := fraction (text.dropWhile isDigit)
  digitsValue (text.takeWhile isDigit ++ frac) * (10 : ℚ) ^ (exponent rest - frac.length)

def numberValue (text : List UInt8) : ℚ :=
  if text.head? = some 0x2d then -unsignedValue text.tail else unsignedValue text

end Json
