import Mathlib.Tactic.Common
import Mathlib.Data.List.Basic
import Mathlib.Algebra.Group.Int.Defs
import Mathlib.Algebra.Group.Nat.Defs

/-!
# Numbers as text

The conversions of `<charconv>` that the readers and writers use, on the bytes of a text.
`fromChars` takes the longest run of digits and rejects a value that its type cannot hold;
`toChars` prints in base ten without leading zeros.
-/

namespace Ebus

/-- The range of an integral type. -/
structure IntType where
  signed : Bool
  bits : Nat
  deriving DecidableEq, Repr

namespace IntType

def int8 : IntType := ⟨true, 8⟩
def int16 : IntType := ⟨true, 16⟩
def int32 : IntType := ⟨true, 32⟩
def int64 : IntType := ⟨true, 64⟩
def uint8 : IntType := ⟨false, 8⟩
def uint16 : IntType := ⟨false, 16⟩
def uint32 : IntType := ⟨false, 32⟩
def uint64 : IntType := ⟨false, 64⟩

/-- `std::numeric_limits<T>::min()`. -/
def min (type : IntType) : Int := if type.signed then -2 ^ (type.bits - 1) else 0

/-- `std::numeric_limits<T>::max()`. -/
def max (type : IntType) : Int :=
  if type.signed then 2 ^ (type.bits - 1) - 1 else 2 ^ type.bits - 1

def Holds (type : IntType) (value : Int) : Prop := type.min ≤ value ∧ value ≤ type.max

instance (type : IntType) (value : Int) : Decidable (type.Holds value) :=
  inferInstanceAs (Decidable (_ ∧ _))

end IntType

namespace Chars

/-- The digit that a character stands for, in either case. -/
def digitValue (char : UInt8) : Option Nat :=
  if 0x30 ≤ char ∧ char ≤ 0x39 then some (char.toNat - 0x30)
  else if 0x41 ≤ char ∧ char ≤ 0x5a then some (char.toNat - 0x41 + 10)
  else if 0x61 ≤ char ∧ char ≤ 0x7a then some (char.toNat - 0x61 + 10)
  else none

/-- The leading digits of a text, and what follows them. -/
def spanDigits (base : Nat) : List UInt8 → List Nat × List UInt8
  | [] => ([], [])
  | char :: rest =>
      match digitValue char with
      | some digit =>
          if digit < base then
            let (digits, rest) := spanDigits base rest
            (digit :: digits, rest)
          else ([], char :: rest)
      | none => ([], char :: rest)

/-- `std::from_chars` for an integral type: the value and the rest of the text. A minus sign
is taken for signed types only; no digits and values out of range are errors. -/
def fromChars (type : IntType) (base : Nat) (text : List UInt8) : Option (Int × List UInt8) :=
  let negative := type.signed && text.head? == some 0x2d
  let (digits, rest) := spanDigits base (if negative then text.tail else text)
  if digits.isEmpty then none
  else
    let magnitude := digits.foldl (fun (value : Int) (digit : Nat) => value * base + digit) 0
    let value := if negative then -magnitude else magnitude
    if type.Holds value then some (value, rest) else none

/-- The bytes of a literal of the source; they are ASCII. -/
def ofString (s : String) : List UInt8 := s.toList.map fun char => UInt8.ofNat char.toNat

/-- `toNumStrict` for an integral type: the whole text has to be a number. -/
def toNumStrict (type : IntType) (s : List UInt8) : Option Int :=
  if s = [] ∨ s = ofString "null" then none
  else
    let hex : Bool := 2 < s.length ∧ s[0]? = some 0x30 ∧ (s[1]? = some 0x78 ∨ s[1]? = some 0x58)
    match fromChars type (if hex then 16 else 10) (if hex then s.drop 2 else s) with
    | some (value, []) => some value
    | _ => none

/-- `toNum` for an integral type: what follows the number is passed over, and an error is zero. -/
def toNum (type : IntType) (s : List UInt8) : Int :=
  if s = [] ∨ s = ofString "null" then 0
  else
    let hex : Bool := 2 < s.length ∧ s[0]? = some 0x30 ∧ (s[1]? = some 0x78 ∨ s[1]? = some 0x58)
    match fromChars type (if hex then 16 else 10) (if hex then s.drop 2 else s) with
    | some (value, _) => value
    | none => 0

/-- The decimal digits of a number below `fuel`. -/
def decimal : Nat → Nat → List UInt8
  | 0, _ => []
  | fuel + 1, n =>
      if n < 10 then [UInt8.ofNat (0x30 + n)]
      else decimal fuel (n / 10) ++ [UInt8.ofNat (0x30 + n % 10)]

/-- `std::to_chars` for an integral type, in base ten. -/
def toChars (value : Int) : List UInt8 :=
  if value < 0 then 0x2d :: decimal (value.natAbs + 1) value.natAbs
  else decimal (value.natAbs + 1) value.natAbs

end Chars

end Ebus
