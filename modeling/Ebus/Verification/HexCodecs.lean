import Ebus.App.PollText
import Ebus.Utils.Hex

/-!
# The two readers of hex

What `toString` has written is read back by `toBytes` and by `toVector`. A pair that does not start
with a digit is dropped by `toVector`, while `toBytes` leaves a zero in its place, as the registry
of recurring commands does. The two agree on the texts without such a pair.
-/

namespace Ebus.Hex

open Pairs
open Chars (ofString)
open PollManager (charsOf hexBuffer JsonItem)

/-- `toBytes` writes these bytes to the front of a buffer, and nothing else. -/
def Writes (hex buffer : List UInt8) (outSize : Nat) (bytes : List UInt8) : Prop :=
  toBytes hex (some buffer) outSize = (bytes.length, some (bytes ++ buffer.drop bytes.length))

/-- Every pair starts with a hex digit. The second character may be any, and so may a last one
without a partner. -/
def LeadingDigits (text : List UInt8) : Prop :=
  ∀ i char, 2 * i + 1 < text.length → text[2 * i]? = some char → (hexValue char).isSome

/-- What holds of the two readers, for bytes that are written and a text that is read. -/
structure CodecsAgree (bytes text : List UInt8) : Prop where
  vector : toVector (toString bytes) = bytes
  buffer : ∀ (buffer : List UInt8) (outSize : Nat), outSize ≤ buffer.length →
    bytes.length ≤ outSize → Writes (toString bytes) buffer outSize bytes
  agree : ∀ (buffer : List UInt8) (outSize : Nat), outSize ≤ buffer.length →
    text.length / 2 ≤ outSize → Writes text buffer outSize (toVector text)
  /-- the list of polls takes the text for the same message -/
  poll : text.length / 2 ≤ hexBuffer →
    ({ message := charsOf text } : JsonItem).bytes = toVector text

/-- The bytes of all pairs, with a zero for one that cannot be read. -/
def bytesOf (text : List UInt8) : List UInt8 :=
  (pairs text).map fun pair => (pairByte pair).getD 0

theorem length_bytesOf (text : List UInt8) : (bytesOf text).length = text.length / 2 := by
  rw [bytesOf, List.length_map, length_pairs]

theorem writes_take {text buffer : List UInt8} {outSize : Nat} (hroom : outSize ≤ buffer.length) :
    Writes text buffer outSize ((bytesOf text).take outSize) := by
  rw [Writes, toBytes_eq text hroom, bytesOf, List.map_take]

theorem writes_bytesOf {text buffer : List UInt8} {outSize : Nat} (hroom : outSize ≤ buffer.length)
    (hfits : text.length / 2 ≤ outSize) : Writes text buffer outSize (bytesOf text) := by
  have hwrites : Writes text buffer outSize _ := writes_take hroom
  rw [List.take_of_length_le (by rw [length_bytesOf]; exact hfits)] at hwrites
  exact hwrites

theorem Writes.eq {text buffer bytes bytes' : List UInt8} {outSize : Nat}
    (h : Writes text buffer outSize bytes) (h' : Writes text buffer outSize bytes') :
    bytes = bytes' := by
  have heq := h.symm.trans h'
  obtain ⟨hlength, hbuffer⟩ := Prod.mk.inj heq
  exact List.append_inj_left (Option.some.inj hbuffer) hlength

theorem map_pairByte_toString (bytes : List UInt8) :
    (pairs (toString bytes)).map pairByte = bytes.map some := by
  rw [pairs_toString, List.map_map]
  exact List.map_congr_left fun byte _ => pairByte_hexChar byte

theorem bytesOf_toString (bytes : List UInt8) : bytesOf (toString bytes) = bytes := by
  have hmap : bytesOf (toString bytes) =
      ((pairs (toString bytes)).map pairByte).map fun byte => byte.getD 0 := by
    rw [List.map_map]
    rfl
  rw [hmap, map_pairByte_toString, List.map_map]
  exact List.map_id bytes

theorem toVector_toString (bytes : List UInt8) : toVector (toString bytes) = bytes := by
  have hmap : toVector (toString bytes) =
      ((pairs (toString bytes)).map pairByte).filterMap id := by
    rw [toVector_eq, List.filterMap_map]
    rfl
  rw [hmap, map_pairByte_toString, List.filterMap_map]
  exact List.filterMap_some

theorem leadingDigits_iff (text : List UInt8) :
    LeadingDigits text ↔ ∀ pair ∈ pairs text, (pairByte pair).isSome := by
  constructor
  · intro h pair hmem
    obtain ⟨i, hpair⟩ := List.mem_iff_getElem?.mp hmem
    obtain ⟨hhigh, hlow⟩ := getElem?_pairs.mp hpair
    obtain ⟨hlt, -⟩ := List.getElem?_eq_some_iff.mp hlow
    rw [isSome_pairByte]
    rw [Nat.mul_comm] at hhigh hlt
    exact h i pair.1 hlt hhigh
  · intro h i char hlt hchar
    have hpair : (pairs text)[i]? = some (char, text[2 * i + 1]) := by
      rw [getElem?_pairs, Nat.mul_comm]
      exact ⟨hchar, List.getElem?_eq_getElem hlt⟩
    have hsome := h _ (List.mem_of_getElem? hpair)
    rw [isSome_pairByte] at hsome
    exact hsome

theorem toVector_eq_bytesOf_iff (text : List UInt8) :
    toVector text = bytesOf text ↔ LeadingDigits text := by
  rw [toVector_eq, bytesOf, List.filterMap_eq_map_iff_forall_eq_some, leadingDigits_iff]
  constructor
  · intro h pair hmem
    rw [h pair hmem]
    rfl
  · intro h pair hmem
    obtain ⟨byte, hbyte⟩ := Option.isSome_iff_exists.mp (h pair hmem)
    rw [hbyte]
    rfl

theorem hexDigit_charOf (char : UInt8) :
    hexDigit (Char.ofNat char.toNat) = (hexValue char).map UInt8.ofNat := by
  have hall : ∀ n < 256, hexDigit (Char.ofNat n) =
      (hexValue (UInt8.ofNat n)).map UInt8.ofNat := by decide +kernel
  have hchar := hall char.toNat char.toNat_lt
  rw [UInt8.ofNat_toNat] at hchar
  exact hchar

theorem toBytes_charsOf (text : List UInt8) : Ebus.toBytes (charsOf text) = bytesOf text := by
  rw [bytesOf]
  fun_induction pairs text with
  | case1 => rfl
  | case2 => rfl
  | case3 high low rest ih =>
      rw [charsOf, List.map_cons, List.map_cons, Ebus.toBytes, hexDigit_charOf, hexDigit_charOf,
        List.map_cons, pairByte_eq, ← ih]
      cases hexValue high with
      | none => rfl
      | some h =>
          cases hexValue low with
          | none => rfl
          | some l =>
              simp only [Option.map_some, Option.getD_some, UInt8.ofNat_add, UInt8.ofNat_mul]
              rfl

/-- What the registry takes from a text is what the buffer of its callback is filled with. -/
theorem writes_bytes {text buffer : List UInt8} (hsize : buffer.length = hexBuffer) :
    Writes text buffer hexBuffer ({ message := charsOf text } : JsonItem).bytes := by
  rw [JsonItem.bytes, toBytes_charsOf]
  exact writes_take (Nat.le_of_eq hsize.symm)

theorem codecsAgree_iff (bytes text : List UInt8) :
    CodecsAgree bytes text ↔ LeadingDigits text := by
  constructor
  · intro h
    have hroom : (List.replicate (text.length / 2) (0 : UInt8)).length = text.length / 2 :=
      List.length_replicate
    have hvector := h.agree (List.replicate (text.length / 2) 0) (text.length / 2)
      (Nat.le_of_eq hroom.symm) (Nat.le_refl _)
    have hall := writes_bytesOf (Nat.le_of_eq hroom.symm) (Nat.le_refl (text.length / 2))
    exact (toVector_eq_bytesOf_iff text).mp (hvector.eq hall)
  · intro h
    have hvector := (toVector_eq_bytesOf_iff text).mpr h
    refine ⟨toVector_toString bytes, ?_, ?_, ?_⟩
    · intro buffer outSize hroom hfits
      have hwrites : Writes (toString bytes) buffer outSize _ := writes_take hroom
      rw [bytesOf_toString, List.take_of_length_le hfits] at hwrites
      exact hwrites
    · intro buffer outSize hroom hfits
      rw [hvector]
      exact writes_bytesOf hroom hfits
    · intro hfits
      have hsize : (List.replicate hexBuffer (0 : UInt8)).length = hexBuffer :=
        List.length_replicate
      rw [hvector]
      exact (writes_bytes hsize).eq (writes_bytesOf (Nat.le_of_eq hsize.symm) hfits)

/-- A blank between two bytes: one reader drops it, the other one sends a zero. -/
theorem not_codecsAgree : ¬ ∀ bytes text, CodecsAgree bytes text := by
  intro h
  have hwrites := (h [] (ofString "08 b509")).agree [1, 1, 1] 3 (by decide) (by decide)
  revert hwrites
  unfold Writes
  decide

end Ebus.Hex
