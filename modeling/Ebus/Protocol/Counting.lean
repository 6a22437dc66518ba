import Ebus.Protocol.Telegram

/-!
# Finding the end of a master part

A receiver of a master part does not decode while it collects. It reads the number
of data bytes off the fifth byte and adds one for each escape byte, and takes the
part to be complete when the buffer has reached that length. `Counted` is what this
bookkeeping maintains for arbitrary, also malformed, input; `Counted.checked` draws
the conclusion that matters: what is complete in this sense holds a check sum, so
that its check cannot pass for want of one.
-/

namespace Ebus

open Sequence

/-- The first four bytes, `QQ ZZ PB SB`, are neither SYN nor the escape byte. -/
def PlainHead (bytes : List UInt8) : Prop := ∀ b ∈ bytes.take 4, Symbols.needsEscape b = false

/-- `dbx` covers the data bytes that are announced and the escapes seen so far. -/
def Counted (bytes : List UInt8) (dbx : Nat) : Prop :=
  5 ≤ bytes.length → PlainHead bytes →
    (bytes.getD 4 0).toNat ≤ 16 ∧ (bytes.getD 4 0).toNat + bytes.count Symbols.ext ≤ dbx

theorem counted_of_short {bytes : List UInt8} {dbx : Nat} (h : bytes.length < 5) :
    Counted bytes dbx := fun hlen _ => absurd hlen (by omega)

theorem PlainHead.count_eq_zero {bytes : List UInt8} (h : PlainHead bytes) :
    (bytes.take 4).count Symbols.ext = 0 := by
  rw [List.count_eq_zero]
  intro hmem
  have hplain := h _ hmem
  simp [Symbols.needsEscape] at hplain

/-- The fifth byte has just been stored. -/
theorem counted_of_five {bytes : List UInt8} {byte : UInt8} (hlen : bytes.length = 4)
    (hbyte : byte.toNat ≤ 16) : Counted (bytes ++ [byte]) byte.toNat := by
  intro _ hplain
  have hget : (bytes ++ [byte]).getD 4 0 = byte := by
    simp [List.getD_eq_getElem?_getD, ← hlen]
  have htake : (bytes ++ [byte]).take 4 = bytes := by
    rw [← hlen, List.take_left]
  have hcount := hplain.count_eq_zero
  rw [htake] at hcount
  have hne : byte ≠ Symbols.ext := by
    rintro rfl
    exact absurd hbyte (by decide)
  rw [hget, List.count_append, hcount, List.count_singleton]
  simp [hne, hbyte]

/-- One more byte behind the header. -/
theorem Counted.push {bytes : List UInt8} {dbx : Nat} (h : Counted bytes dbx)
    (hlen : 5 ≤ bytes.length) (byte : UInt8) :
    Counted (bytes ++ [byte]) (dbx + if byte = Symbols.ext then 1 else 0) := by
  intro _ hplain
  have hplain' : PlainHead bytes := by
    rw [PlainHead, List.take_append_of_le_length (by omega)] at hplain
    exact hplain
  have hget : (bytes ++ [byte]).getD 4 0 = bytes.getD 4 0 := by
    simp [List.getD_eq_getElem?_getD, List.getElem?_append_left (by omega : 4 < bytes.length)]
  obtain ⟨hnn, hdbx⟩ := h hlen hplain'
  rw [hget, List.count_append, List.count_singleton]
  refine ⟨hnn, ?_⟩
  by_cases hbyte : byte = Symbols.ext
  · simp only [hbyte, beq_self_eq_true, if_true]
    omega
  · simp only [hbyte, beq_iff_eq, if_false]
    omega

/-- What reduction does to a part whose decoded head is plain. -/
theorem reduce_of_plainHead {s : Sequence} {dbx : Nat} (h : Counted s.bytes dbx)
    (hlen : 5 ≤ s.reduce.bytes.length) (hplain : PlainHead s.reduce.bytes) :
    5 ≤ s.bytes.length ∧ PlainHead s.bytes ∧
      s.reduce.bytes.getD 4 0 = s.bytes.getD 4 0 ∧
      s.reduce.bytes.count Symbols.ext ≤ s.bytes.count Symbols.ext ∧
      s.bytes.length ≤ s.reduce.bytes.length + s.bytes.count Symbols.ext := by
  cases he : s.extended with
  | false =>
      rw [reduce_of_logical he] at hlen hplain ⊢
      exact ⟨hlen, hplain, rfl, Nat.le_refl _, Nat.le_add_right _ _⟩
  | true =>
      rw [reduce_of_wire he] at hlen hplain ⊢
      dsimp only at hlen hplain ⊢
      rw [unstuff_eq] at hlen hplain ⊢
      have hraw : 5 ≤ s.bytes.length := Nat.le_trans hlen (code.length_unstuff_le s.bytes)
      have hsplit := code.unstuff_of_plain_take hplain
      have htake : (code.unstuff s.bytes).take 4 = s.bytes.take 4 := by
        rw [hsplit, List.take_append_of_le_length (by simp; omega), List.take_take]
        simp
      have hplain' : PlainHead s.bytes := by
        rw [PlainHead, htake] at hplain
        exact hplain
      -- the fifth byte is a count, which no escape pair can start with
      obtain ⟨hnn, -⟩ := h hraw hplain'
      have hdrop : s.bytes.drop 4 = s.bytes.getD 4 0 :: s.bytes.drop 5 := by
        rw [List.drop_eq_getElem_cons (by omega : 4 < s.bytes.length)]
        simp [List.getD_eq_getElem?_getD, List.getElem?_eq_getElem (by omega : 4 < s.bytes.length)]
      have hne : s.bytes.getD 4 0 ≠ code.esc := by
        intro heq
        rw [heq] at hnn
        exact absurd hnn (by decide)
      refine ⟨hraw, hplain', ?_, code.count_esc_unstuff_le _,
        code.length_le_unstuff_add_count _⟩
      have hfour : (s.bytes.take 4).length = 4 := by
        simp
        omega
      rw [hsplit, hdrop, code.unstuff_cons_of_ne hne, List.getD_eq_getElem?_getD,
        List.getElem?_append_right (by omega), hfour]
      rfl

/-- The bookkeeping survives the reduction of the buffer. -/
theorem Counted.reduce {s : Sequence} {dbx : Nat} (h : Counted s.bytes dbx) :
    Counted s.reduce.bytes dbx := by
  intro hlen hplain
  obtain ⟨hraw, hplain', hget, hcount, -⟩ := reduce_of_plainHead h hlen hplain
  obtain ⟨hnn, hdbx⟩ := h hraw hplain'
  rw [hget]
  exact ⟨hnn, by omega⟩

theorem MasterPart.plainHead {part : List UInt8} (h : MasterPart part) : PlainHead part := by
  obtain ⟨hlow, -⟩ := h.length_bounds
  obtain ⟨a, b, c, d, e, rest, rfl⟩ : ∃ a b c d e rest, part = a :: b :: c :: d :: e :: rest := by
    match part, hlow with
    | a :: b :: c :: d :: e :: rest, _ => exact ⟨a, b, c, d, e, rest, rfl⟩
  intro x hx
  simp only [List.take_succ_cons, List.take_zero, List.mem_cons, List.not_mem_nil,
    or_false] at hx
  obtain rfl | rfl | rfl | rfl := hx
  · exact needsEscape_of_isMaster h.source
  · exact needsEscape_of_isTarget h.target
  · exact h.primary
  · exact h.secondary

/-- A buffer of the expected length is longer than the part that its header
announces: the check compares a check sum. -/
theorem Counted.checked {s : Sequence} {dbx : Nat} (h : Counted s.bytes dbx)
    (hdone : 5 + dbx + 1 ≤ s.size) {part : List UInt8} (hpart : MasterPart part) :
    s.reduce.bytes ≠ part := by
  intro heq
  obtain ⟨hlow, -⟩ := hpart.length_bounds
  obtain ⟨hraw, hplain, hget, -, hlength⟩ := reduce_of_plainHead h (by rw [heq]; exact hlow)
    (by rw [heq]; exact hpart.plainHead)
  obtain ⟨-, hdbx⟩ := h hraw hplain
  have hpartLength := hpart.length
  rw [← heq, hget] at hpartLength
  unfold size at hdone
  omega

end Ebus
