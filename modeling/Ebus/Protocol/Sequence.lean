import Ebus.Lib.Stuffing
import Ebus.Protocol.Symbols

/-!
# Byte sequences in logical and in wire form

`Sequence` is the container that the protocol engine passes around: the bytes and
one flag that says whether they are stuffed. The small-buffer storage below it is
a plain list here; memory allocation is assumed to succeed.

The stuffing functions are instances of the escape codes of
`Ebus.Lib.Stuffing`; `Sequence.stuff_eq` and `Sequence.unstuff_eq` connect them.
-/

namespace Ebus

structure Sequence where
  bytes : List UInt8 := []
  extended : Bool := false
  deriving DecidableEq, Repr

namespace Sequence

def size (s : Sequence) : Nat := s.bytes.length

def empty (s : Sequence) : Bool := s.bytes.isEmpty

/-- `operator[]`. The source does not check the index; a read past the end has no
meaning in this model and yields zero. -/
def get (s : Sequence) (index : Nat) : UInt8 := s.bytes.getD index 0

/-- Append one byte and set the form of the whole sequence. -/
def pushBack (s : Sequence) (byte : UInt8) (extended : Bool) : Sequence :=
  { bytes := s.bytes ++ [byte], extended }

@[simp] def clear (_ : Sequence) : Sequence := {}

/-- The in-place expansion runs from the last byte to the first. -/
def stuff (bytes : List UInt8) : List UInt8 :=
  bytes.foldr (fun b rest =>
    if Symbols.needsEscape b then Symbols.ext :: Symbols.escape b :: rest else b :: rest) []

def extend (s : Sequence) : Sequence :=
  if s.extended then s
  else if s.bytes.countP Symbols.needsEscape = 0 then { s with extended := true }
  else { bytes := stuff s.bytes, extended := true }

def needsReduction (s : Sequence) : Bool :=
  s.extended && s.bytes.any (fun b => b == Symbols.ext)

/-- The read cursor of `reduce`: two bytes for a valid pair, else one. -/
def unstuff : List UInt8 → List UInt8
  | [] => []
  | [b] => [b]
  | b1 :: b2 :: rest =>
      match Symbols.unescape b1 b2 with
      | some unescaped => unescaped :: unstuff rest
      | none => b1 :: unstuff (b2 :: rest)

def reduce (s : Sequence) : Sequence :=
  if !s.extended then s
  else if !s.needsReduction then { s with extended := false }
  else { bytes := unstuff s.bytes, extended := false }

/-- `sequence[index .. index + len)`, with `len = 0` for the rest of it. -/
def slice (other : Sequence) (index len : Nat) : Sequence :=
  if other.size ≤ index then { extended := other.extended }
  else
    let len := if len = 0 ∨ other.size < index + len then other.size - index else len
    { bytes := (other.bytes.drop index).take len, extended := other.extended }

/-- The check sum of a buffer; bytes in logical form are stuffed on the way. -/
def calculateCRC (data : List UInt8) (extended : Bool) : UInt8 :=
  data.foldl (fun crc byte =>
    if !extended && Symbols.needsEscape byte then
      calcCRC (Symbols.escape byte) (calcCRC Symbols.ext crc)
    else calcCRC byte crc) Symbols.zero

def crc (s : Sequence) : UInt8 := calculateCRC s.bytes s.extended

/-- Append another sequence in the form of this one. -/
def append (s other : Sequence) : Sequence :=
  let temp := if s.extended then other.extend else other.reduce
  { s with bytes := s.bytes ++ temp.bytes }

/-- The escape code of the bus. -/
def code : EscapeCode UInt8 where
  esc := Symbols.ext
  stuffed := Symbols.needsEscape
  code := Symbols.escape
  decode := Symbols.unescape Symbols.ext
  stuffed_esc := by decide
  decode_code := fun _ h => Symbols.unescape_escape h
  code_ne_esc := fun b _ => Symbols.escape_ne_ext b
  stuffed_of_decode := fun _ _ h => Symbols.needsEscape_of_unescape h

theorem stuff_eq : stuff = code.stuff := rfl

theorem unstuff_eq : unstuff = code.unstuff := by
  funext bytes
  fun_induction unstuff bytes with
  | case1 => rfl
  | case2 b => rfl
  | case3 b1 b2 rest u hu ih =>
      have hb : b1 = Symbols.ext := by
        by_contra hne
        simp [Symbols.unescape_of_ne_ext hne] at hu
      subst hb
      have hd : code.decode b2 = some u := hu
      rw [EscapeCode.unstuff, if_pos (show Symbols.ext = code.esc from rfl), hd, ih]
  | case4 b1 b2 rest hu ih =>
      by_cases hb : b1 = Symbols.ext
      · subst hb
        have hd : code.decode b2 = none := hu
        rw [EscapeCode.unstuff, if_pos (show Symbols.ext = code.esc from rfl), hd, ih]
      · rw [EscapeCode.unstuff, if_neg (show ¬ b1 = code.esc from hb), ih]

@[simp] theorem stuff_nil : stuff [] = [] := rfl

theorem stuff_append (xs ys : List UInt8) : stuff (xs ++ ys) = stuff xs ++ stuff ys :=
  code.stuff_append xs ys

/-- A stuffed sequence cannot be mistaken for silence. -/
theorem syn_not_mem_stuff (xs : List UInt8) : Symbols.syn ∉ stuff xs := by
  induction xs with
  | nil => simp
  | cons b xs ih =>
      rw [stuff_eq] at ih ⊢
      rw [code.stuff_cons]
      by_cases hb : code.stuffed b = true
      · have hescape : Symbols.syn ≠ code.code b := Symbols.syn_ne_escape b
        simp only [hb, if_true, List.mem_cons, not_or]
        exact ⟨by decide, hescape, ih⟩
      · have hne : Symbols.syn ≠ b := by
          rintro rfl
          exact hb (by decide)
        simp only [hb, Bool.false_eq_true, if_false, List.mem_cons, not_or]
        exact ⟨hne, ih⟩

theorem unstuff_stuff_append (xs rest : List UInt8) :
    unstuff (stuff xs ++ rest) = xs ++ unstuff rest := by
  rw [unstuff_eq]
  exact code.unstuff_stuff_append xs rest

theorem unstuff_stuff (xs : List UInt8) : unstuff (stuff xs) = xs := by
  rw [unstuff_eq]
  exact code.unstuff_stuff xs

/-- The check sum of the bytes in logical form is the one of the bytes on the wire. -/
theorem calculateCRC_stuff (bytes : List UInt8) :
    calculateCRC (stuff bytes) true = calculateCRC bytes false := by
  unfold calculateCRC
  generalize Symbols.zero = crc
  induction bytes generalizing crc with
  | nil => rfl
  | cons byte bytes ih =>
      rw [stuff_eq] at ih ⊢
      rw [code.stuff_cons, List.foldl_cons]
      by_cases hbyte : Symbols.needsEscape byte = true
      · rw [if_pos (show code.stuffed byte = true from hbyte), List.foldl_cons, List.foldl_cons,
          ih, if_pos (show (!false && Symbols.needsEscape byte) = true from hbyte)]
        rfl
      · rw [if_neg (show ¬ code.stuffed byte = true from hbyte), List.foldl_cons, ih,
          if_neg (show ¬ (!false && Symbols.needsEscape byte) = true from hbyte)]
        rfl

theorem unstuff_cons_of_ne {b : UInt8} (h : b ≠ Symbols.ext) (rest : List UInt8) :
    unstuff (b :: rest) = b :: unstuff rest := by
  rw [unstuff_eq]
  exact code.unstuff_cons_of_ne h rest

@[simp] theorem reduce_extended (s : Sequence) : s.reduce.extended = false := by
  unfold reduce
  split
  · simpa using ‹(!s.extended) = true›
  · split <;> rfl

theorem reduce_of_logical {s : Sequence} (h : s.extended = false) : s.reduce = s := by
  simp [reduce, h]

@[simp] theorem reduce_reduce (s : Sequence) : s.reduce.reduce = s.reduce :=
  reduce_of_logical s.reduce_extended

/-- Without an escape byte there is nothing to undo, so the early exit of
`reduce` agrees with its loop. -/
theorem reduce_of_wire {s : Sequence} (h : s.extended = true) :
    s.reduce = { bytes := unstuff s.bytes, extended := false } := by
  by_cases hr : s.needsReduction = true
  · simp [reduce, h, hr]
  · have hmem : Symbols.ext ∉ s.bytes := by
      intro hmem
      apply hr
      rw [needsReduction, h, Bool.true_and, List.any_eq_true]
      exact ⟨_, hmem, beq_self_eq_true _⟩
    have hself : unstuff s.bytes = s.bytes := by
      rw [unstuff_eq]
      exact code.unstuff_eq_self hmem
    simp only [reduce, h, hr, Bool.not_true, Bool.false_eq_true, if_false, hself]
    rfl

theorem extend_of_logical {s : Sequence} (h : s.extended = false) :
    s.extend = { bytes := stuff s.bytes, extended := true } := by
  by_cases hc : s.bytes.countP Symbols.needsEscape = 0
  · have hself : stuff s.bytes = s.bytes := by
      apply code.stuff_eq_self
      intro a ha
      exact Bool.eq_false_iff.mpr (List.countP_eq_zero.mp hc a ha)
    simp [extend, h, hc, hself]
  · simp [extend, h, hc]

theorem reduce_eq_nil_iff {s : Sequence} : s.reduce.bytes = [] ↔ s.bytes = [] := by
  cases he : s.extended with
  | false => rw [reduce_of_logical he]
  | true =>
      rw [reduce_of_wire he]
      constructor
      · intro h
        by_contra hne
        have := code.unstuff_ne_nil hne
        rw [← unstuff_eq] at this
        exact this h
      · intro h
        simp [h, unstuff]

theorem size_le_two_mul_reduce (s : Sequence) : s.size ≤ 2 * s.reduce.size := by
  cases he : s.extended with
  | false =>
      rw [reduce_of_logical he]
      omega
  | true =>
      rw [reduce_of_wire he, unstuff_eq]
      exact code.length_le_two_mul_unstuff s.bytes

/-- A slice from the start that stays inside the sequence. -/
theorem slice_zero {s : Sequence} {n : Nat} (hpos : 0 < n) (hle : n ≤ s.size) :
    s.slice 0 n = { bytes := s.bytes.take n, extended := s.extended } := by
  have hsize : ¬ s.size ≤ 0 := by omega
  have hlen : ¬ (n = 0 ∨ s.size < 0 + n) := by omega
  simp only [slice, hsize, hlen, if_false, List.drop_zero]

/-- The last byte of a sequence, split off. -/
theorem bytes_eq_take_concat {s : Sequence} {n : Nat} (h : s.size = n + 1) :
    s.bytes = s.bytes.take n ++ [s.get n] := by
  have hlt : n < s.bytes.length := by
    change n < s.size
    omega
  have hdrop : s.bytes.drop n = [s.get n] := by
    rw [List.drop_eq_getElem_cons hlt, List.drop_eq_nil_of_le (by change s.size ≤ _; omega)]
    simp [get, hlt]
  conv_lhs => rw [← List.take_append_drop n s.bytes, hdrop]

theorem getD_take {s : Sequence} {i n : Nat} (h : i < n) : (s.bytes.take n).getD i 0 = s.get i := by
  simp only [get, List.getD_eq_getElem?_getD]
  rw [List.getElem?_take_of_lt h]

theorem slice_all {s : Sequence} (hpos : 0 < s.size) : s.slice 0 0 = s := by
  have hsize : ¬ s.size ≤ 0 := by omega
  simp only [slice, hsize, if_false, true_or, if_true, Nat.sub_zero, List.drop_zero]
  simp [size]

end Sequence

open Sequence in
/-- The stuffed master part with its check sum, as it goes over the wire. -/
def frameMaster (source : UInt8) (payload : List UInt8) : Sequence :=
  let msg := ({} : Sequence).pushBack source false
  let msg := msg.append { bytes := payload }
  (msg.pushBack msg.crc false).extend

/-- The stuffed slave part with its check sum. -/
def frameSlave (payload : List UInt8) : Sequence :=
  let msg := ({} : Sequence).append { bytes := payload }
  (msg.pushBack msg.crc false).extend

namespace Sequence

/-- A logical part with its check sum, stuffed. -/
def wire (part : List UInt8) : List UInt8 := stuff (part ++ [calculateCRC part false])

theorem frameMaster_bytes (source : UInt8) (payload : List UInt8) :
    (frameMaster source payload).bytes = wire (source :: payload) := by
  rw [frameMaster, extend_of_logical rfl]
  simp [pushBack, append, reduce, wire, crc]

theorem frameSlave_bytes (payload : List UInt8) :
    (frameSlave payload).bytes = wire payload := by
  rw [frameSlave, extend_of_logical rfl]
  simp [pushBack, append, reduce, wire, crc]

end Sequence

end Ebus
