import Ebus.Lib.Pairs
import Ebus.Utils.Chars

/-!
# Bytes as hex digits

The text of a byte sequence is made from a table of the 256 bytes. Two functions read such a text
back: `toBytes` fills a buffer of the caller, `toVector` makes a new vector. Each reads two
characters at a time, in a loop of its own.
-/

namespace Ebus.Hex

open Pairs
open Chars (fromChars spanDigits digitValue ofString)

/-- `hex_lookup_table`; the zeros at the ends of the entries are left out. -/
def hexLookupTable : List String := [
    "00", "01", "02", "03", "04", "05", "06", "07", "08", "09", "0a", "0b",
    "0c", "0d", "0e", "0f", "10", "11", "12", "13", "14", "15", "16", "17",
    "18", "19", "1a", "1b", "1c", "1d", "1e", "1f", "20", "21", "22", "23",
    "24", "25", "26", "27", "28", "29", "2a", "2b", "2c", "2d", "2e", "2f",
    "30", "31", "32", "33", "34", "35", "36", "37", "38", "39", "3a", "3b",
    "3c", "3d", "3e", "3f", "40", "41", "42", "43", "44", "45", "46", "47",
    "48", "49", "4a", "4b", "4c", "4d", "4e", "4f", "50", "51", "52", "53",
    "54", "55", "56", "57", "58", "59", "5a", "5b", "5c", "5d", "5e", "5f",
    "60", "61", "62", "63", "64", "65", "66", "67", "68", "69", "6a", "6b",
    "6c", "6d", "6e", "6f", "70", "71", "72", "73", "74", "75", "76", "77",
    "78", "79", "7a", "7b", "7c", "7d", "7e", "7f", "80", "81", "82", "83",
    "84", "85", "86", "87", "88", "89", "8a", "8b", "8c", "8d", "8e", "8f",
    "90", "91", "92", "93", "94", "95", "96", "97", "98", "99", "9a", "9b",
    "9c", "9d", "9e", "9f", "a0", "a1", "a2", "a3", "a4", "a5", "a6", "a7",
    "a8", "a9", "aa", "ab", "ac", "ad", "ae", "af", "b0", "b1", "b2", "b3",
    "b4", "b5", "b6", "b7", "b8", "b9", "ba", "bb", "bc", "bd", "be", "bf",
    "c0", "c1", "c2", "c3", "c4", "c5", "c6", "c7", "c8", "c9", "ca", "cb",
    "cc", "cd", "ce", "cf", "d0", "d1", "d2", "d3", "d4", "d5", "d6", "d7",
    "d8", "d9", "da", "db", "dc", "dd", "de", "df", "e0", "e1", "e2", "e3",
    "e4", "e5", "e6", "e7", "e8", "e9", "ea", "eb", "ec", "ed", "ee", "ef",
    "f0", "f1", "f2", "f3", "f4", "f5", "f6", "f7", "f8", "f9", "fa", "fb",
    "fc", "fd", "fe", "ff"]

/-- `toString` of a single byte. -/
def byteText (byte : UInt8) : List UInt8 := ofString (hexLookupTable.getD byte.toNat "")

def appendHex (out data : List UInt8) : List UInt8 :=
  data.foldl (fun out b =>
    let hex := byteText b
    (out ++ [hex.getD 0 0]) ++ [hex.getD 1 0]) out

/-- `toString` of a container behind a text. -/
def appendString (out container : List UInt8) : List UInt8 :=
  if container = [] then out else appendHex out container

def toString (container : List UInt8) : List UInt8 :=
  if container = [] then [] else appendString [] container

/-- `std::from_chars` into a byte, in base 16; an error leaves the byte as it was. -/
def readByte (range : List UInt8) : Option UInt8 :=
  (fromChars .uint8 16 range).map fun read => UInt8.ofInt read.1

/-- The two characters from a position on. -/
def pairAt (text : List UInt8) (i : Nat) : List UInt8 := (text.drop i).take 2

/-- The pointer `out` is null or points to a buffer; the answer is the number of bytes that were
written, and the buffer behind it. -/
def toBytes (hex : List UInt8) (out : Option (List UInt8)) (outSize : Nat) :
    Nat × Option (List UInt8) :=
  match out with
  | none => (0, none)
  | some buffer =>
      if hex = [] ∨ outSize = 0 then (0, some buffer)
      else
        let n := hex.length / 2
        let n := if n > outSize then outSize else n
        -- `value` is zero before it is read
        (n, some ((List.range n).foldl
          (fun out i => out.set i ((readByte (pairAt hex (i * 2))).getD 0)) buffer))

/-- The loop of `toVector` from the position `i` on. -/
def toVectorLoop (str : List UInt8) : Nat → Nat → List UInt8 → List UInt8
  | 0, _, result => result
  | fuel + 1, i, result =>
      if i + 1 < str.length then
        match readByte (pairAt str i) with
        | some value => toVectorLoop str fuel (i + 2) (result ++ [value])
        | none => toVectorLoop str fuel (i + 2) result
      else result

/-- Each round takes two characters. -/
def toVector (str : List UInt8) : List UInt8 :=
  if str = [] then [] else toVectorLoop str (str.length / 2 + 1) 0 []

/-- The byte of a pair, unless its first character is no digit. -/
def pairByte (pair : UInt8 × UInt8) : Option UInt8 := readByte [pair.1, pair.2]

/-- The value of a hex digit, in either case. -/
def hexValue (char : UInt8) : Option Nat := (digitValue char).filter (· < 16)

theorem hexValue_lt {char : UInt8} {digit : Nat} (h : hexValue char = some digit) : digit < 16 := by
  simpa using (Option.filter_eq_some_iff.mp h).2

theorem spanDigits_cons (char : UInt8) (rest : List UInt8) :
    spanDigits 16 (char :: rest) =
      match hexValue char with
      | some digit => (digit :: (spanDigits 16 rest).1, (spanDigits 16 rest).2)
      | none => ([], char :: rest) := by
  rw [spanDigits, hexValue]
  cases digitValue char with
  | none => rfl
  | some digit =>
      rw [Option.filter_some]
      by_cases hlt : digit < 16
      · simp [hlt]
      · simp [hlt]

theorem readByte_of_no_digits {range : List UInt8} (h : (spanDigits 16 range).1 = []) :
    readByte range = none := by
  have hsign : (IntType.uint8.signed && range.head? == some 0x2d) = false := rfl
  rw [readByte, fromChars]
  simp only [hsign, Bool.false_eq_true, if_false, h]
  rfl

theorem readByte_of_digits {range : List UInt8} {n : Nat} (hne : (spanDigits 16 range).1 ≠ [])
    (hvalue : (spanDigits 16 range).1.foldl
      (fun (value : Int) (digit : Nat) => value * (16 : Nat) + digit) 0 = n)
    (hlt : n < 256) : readByte range = some (UInt8.ofNat n) := by
  have hsign : (IntType.uint8.signed && range.head? == some 0x2d) = false := rfl
  have hholds : IntType.uint8.Holds n :=
    ⟨Int.natCast_nonneg n, Int.lt_add_one_iff.mp (Int.ofNat_lt.mpr hlt)⟩
  have hmod : (n : Int) % 2 ^ 8 = n := by omega
  have hbyte : UInt8.ofInt n = UInt8.ofNat n := by
    rw [UInt8.ofInt, hmod, Int.toNat_natCast]
  rw [readByte, fromChars]
  simp only [hsign, Bool.false_eq_true, if_false, hvalue, if_pos hholds]
  rw [if_neg (by simpa using hne), Option.map_some, hbyte]

/-- One digit is enough, if it is the first one. -/
theorem pairByte_eq (high low : UInt8) :
    pairByte (high, low) =
      match hexValue high, hexValue low with
      | some h, some l => some (UInt8.ofNat (h * 16 + l))
      | some h, none => some (UInt8.ofNat h)
      | none, _ => none := by
  cases hhigh : hexValue high with
  | none =>
      apply readByte_of_no_digits
      rw [spanDigits_cons, hhigh]
  | some h =>
      have hlt := hexValue_lt hhigh
      cases hlow : hexValue low with
      | none =>
          have hdigits : (spanDigits 16 [high, low]).1 = [h] := by
            rw [spanDigits_cons, hhigh, spanDigits_cons, hlow]
          apply readByte_of_digits
          · rw [hdigits]
            exact List.cons_ne_nil h []
          · rw [hdigits]
            simp
          · omega
      | some l =>
          have hlt' := hexValue_lt hlow
          have hdigits : (spanDigits 16 [high, low]).1 = [h, l] := by
            rw [spanDigits_cons, hhigh, spanDigits_cons, hlow]
            rfl
          apply readByte_of_digits
          · rw [hdigits]
            exact List.cons_ne_nil h [l]
          · rw [hdigits]
            simp
          · omega

theorem isSome_pairByte (pair : UInt8 × UInt8) :
    (pairByte pair).isSome = (hexValue pair.1).isSome := by
  obtain ⟨high, low⟩ := pair
  rw [pairByte_eq]
  cases hexValue high with
  | none => rfl
  | some h =>
      cases hexValue low with
      | none => rfl
      | some l => rfl

/-- The character of a hex digit, in lower case. -/
def hexChar (digit : Nat) : UInt8 :=
  if digit < 10 then UInt8.ofNat (0x30 + digit) else UInt8.ofNat (0x61 + (digit - 10))

theorem hexValue_hexChar : ∀ digit < 16, hexValue (hexChar digit) = some digit := by decide

theorem hexLookupTable_eq :
    hexLookupTable.map ofString =
      (List.range 256).map fun n => [hexChar (n / 16), hexChar (n % 16)] := by
  decide +kernel

/-- The table has the two digits of each byte. -/
theorem byteText_eq (byte : UInt8) :
    byteText byte = [hexChar (byte.toNat / 16), hexChar (byte.toNat % 16)] := by
  have hentry : (hexLookupTable.map ofString)[byte.toNat]? =
      some [hexChar (byte.toNat / 16), hexChar (byte.toNat % 16)] := by
    rw [hexLookupTable_eq, List.getElem?_map, List.getElem?_range byte.toNat_lt]
    rfl
  rw [List.getElem?_map, Option.map_eq_some_iff] at hentry
  obtain ⟨entry, hget, htext⟩ := hentry
  rw [byteText, List.getD_eq_getElem?_getD, hget]
  exact htext

/-- They are read as that byte. -/
theorem pairByte_hexChar (byte : UInt8) :
    pairByte (hexChar (byte.toNat / 16), hexChar (byte.toNat % 16)) = some byte := by
  have hlt := byte.toNat_lt
  have hsum : byte.toNat / 16 * 16 + byte.toNat % 16 = byte.toNat := by omega
  rw [pairByte_eq, hexValue_hexChar _ (by omega), hexValue_hexChar _ (by omega)]
  dsimp only
  rw [hsum, UInt8.ofNat_toNat]

theorem appendHex_eq (out data : List UInt8) :
    appendHex out data = out ++ data.flatMap byteText := by
  rw [appendHex]
  induction data generalizing out with
  | nil => rw [List.foldl_nil, List.flatMap_nil, List.append_nil]
  | cons b data ih =>
      rw [List.foldl_cons, ih, List.flatMap_cons, byteText_eq b, List.append_assoc,
        List.append_assoc]
      rfl

theorem toString_eq (container : List UInt8) : toString container = container.flatMap byteText := by
  rw [toString, appendString]
  split
  · rename_i hnil
    rw [hnil]
    rfl
  · rw [appendHex_eq, List.nil_append]

theorem pairs_toString (container : List UInt8) :
    pairs (toString container) =
      container.map fun byte => (hexChar (byte.toNat / 16), hexChar (byte.toNat % 16)) := by
  have htext : byteText = fun byte => [hexChar (byte.toNat / 16), hexChar (byte.toNat % 16)] :=
    funext byteText_eq
  rw [toString_eq, htext, pairs_flatMap]

/-- What is behind the loop of `toBytes`: the buffer with as many bytes as there are pairs and
room, a zero for a pair that cannot be read. -/
theorem toBytes_eq (hex : List UInt8) {buffer : List UInt8} {outSize : Nat}
    (hroom : outSize ≤ buffer.length) :
    toBytes hex (some buffer) outSize =
      let bytes := ((pairs hex).take outSize).map fun pair => (pairByte pair).getD 0
      (bytes.length, some (bytes ++ buffer.drop bytes.length)) := by
  have hlength : (((pairs hex).take outSize).map fun pair => (pairByte pair).getD 0).length =
      min outSize (hex.length / 2) := by
    rw [List.length_map, List.length_take, length_pairs]
  dsimp only
  rw [hlength, toBytes]
  split
  · rename_i hempty
    have hzero : min outSize (hex.length / 2) = 0 := by
      obtain rfl | rfl := hempty
      · exact Nat.min_zero outSize
      · exact Nat.zero_min _
    rw [hzero] at hlength ⊢
    rw [List.length_eq_zero_iff.mp hlength]
    rfl
  · have hn : (if hex.length / 2 > outSize then outSize else hex.length / 2) =
        min outSize (hex.length / 2) := by
      split <;> omega
    have hread := map_range (fun range => (readByte range).getD 0) hex
      (Nat.min_le_right outSize (hex.length / 2))
    have htake : (pairs hex).take (min outSize (hex.length / 2)) = (pairs hex).take outSize := by
      rw [← length_pairs, ← List.take_eq_take_min]
    rw [htake] at hread
    dsimp only
    rw [hn, foldl_set _ _ (by omega)]
    exact congrArg (fun bytes => (_, some (bytes ++ _))) hread

/-- What the loop of `toVector` adds: the bytes of the pairs that can be read. -/
theorem toVectorLoop_eq (str : List UInt8) {fuel i : Nat} (result : List UInt8)
    (hfuel : str.length < i + fuel * 2) :
    toVectorLoop str fuel i result =
      result ++ (pairs (str.drop i)).filterMap pairByte := by
  induction fuel generalizing i result with
  | zero =>
      have hnil : str.drop i = [] := List.drop_eq_nil_of_le (by omega)
      rw [hnil, toVectorLoop, pairs, List.filterMap_nil, List.append_nil]
  | succ fuel ih =>
      rw [toVectorLoop]
      split
      · rename_i hlt
        have hdrop := drop_eq_cons_cons hlt
        have hpair : readByte (pairAt str i) = pairByte (str[i], str[i + 1]) := by
          rw [pairAt, hdrop]
          rfl
        rw [hpair, hdrop, pairs_cons_cons]
        cases hread : pairByte (str[i], str[i + 1]) with
        | none =>
            rw [List.filterMap_cons_none hread]
            exact ih result (by omega)
        | some value =>
            rw [List.filterMap_cons_some hread, ← List.singleton_append, ← List.append_assoc]
            exact ih (result ++ [value]) (by omega)
      · rename_i hge
        have hshort : (str.drop i).length < 2 := by
          rw [List.length_drop]
          omega
        rw [pairs_of_length_lt hshort, List.filterMap_nil, List.append_nil]

theorem toVector_eq (str : List UInt8) :
    toVector str = (pairs str).filterMap pairByte := by
  rw [toVector]
  split
  · rename_i hnil
    rw [hnil]
    rfl
  · exact toVectorLoop_eq str [] (by omega)

end Ebus.Hex
