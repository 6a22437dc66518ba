import Ebus.Protocol.Sequence

/-!
# The stuffing loops in place

`extend` and `reduce` work in the buffer of the sequence. `reduce` moves the bytes to the
front and its write cursor never passes the read cursor; `extend` grows the buffer and moves
the bytes to the back, from the last to the first. The read cursor of `extend` is an `int`:
it starts where the size of the sequence, cut down to 32 bits, says.

The loops are translated cell by cell. `expand_eq` and `compact_take` say what they leave in
the buffer; `extendInPlace_eq` and `reduceInPlace_eq` connect them to the two forms of
`Ebus.Protocol.Sequence`.
-/

namespace Ebus

namespace Sequence

/-- The look-ahead of `reduce`: a pair needs a second byte. -/
def unescapeAt (cells : List UInt8) (read : Nat) : Option UInt8 :=
  if read + 1 < cells.length then
    Symbols.unescape (cells.getD read 0) (cells.getD (read + 1) 0)
  else none

/-- The read cursor of `reduce` stands at `read`, its write cursor at `write`. -/
def compact (cells : List UInt8) (read write : Nat) : List UInt8 × Nat :=
  if read < cells.length then
    match unescapeAt cells read with
    | some unescaped => compact (cells.set write unescaped) (read + 1 + 1) (write + 1)
    | none => compact (cells.set write (cells.getD read 0)) (read + 1) (write + 1)
  else (cells, write)
termination_by cells.length - read
decreasing_by all_goals simp only [List.length_set]; omega

def reduceInPlace (s : Sequence) : Sequence :=
  if !s.extended then s
  else if !s.needsReduction then { s with extended := false }
  else
    let (cells, write) := compact s.bytes 0 0
    { bytes := cells.take write, extended := false }

/-- The loop of `extend` with `i` bytes left to read. The cell that `write_idx` names is
`write - 1`, the last one that has not been written. -/
def expand : Nat → List UInt8 → Nat → List UInt8
  | 0, cells, _ => cells
  | i + 1, cells, write =>
      let b := cells.getD i 0
      if Symbols.needsEscape b then
        expand i ((cells.set (write - 1) (Symbols.escape b)).set (write - 2) Symbols.ext)
          (write - 2)
      else expand i (cells.set (write - 1) b) (write - 1)

/-- How often the loop of `extend` runs: from `static_cast<int>(size) - 1` down to zero. For
the sizes whose cast is the smallest `int` the subtraction overflows and the source
promises nothing; the loop does not run here. -/
def iterations (size : Nat) : Nat := (Int.bmod size 0x100000000).toNat

/-- `behind` is what the buffer holds behind the end of the sequence before it grows. -/
def extendInPlace (behind : Nat → UInt8) (s : Sequence) : Sequence :=
  if s.extended then s
  else
    let extra := s.bytes.countP Symbols.needsEscape
    if extra = 0 then { s with extended := true }
    else
      let oldSize := s.bytes.length
      let newSize := oldSize + extra
      let cells := s.bytes ++ (List.range extra).map (fun i => behind (oldSize + i))
      { bytes := expand (iterations oldSize) cells newSize, extended := true }

def appendInPlace (behind : Nat → UInt8) (s other : Sequence) : Sequence :=
  let temp := if s.extended then other.extendInPlace behind else other.reduceInPlace
  { s with bytes := s.bytes ++ temp.bytes }

/-- One byte is moved to the front; what is still to be read stays as it is. -/
theorem compact_step {cells : List UInt8} {read write next : Nat} (hle : write ≤ read)
    (hlt : read < cells.length) (hnext : read < next) (byte : UInt8) :
    (cells.set write byte).take (write + 1) ++ unstuff ((cells.set write byte).drop next) =
      cells.take write ++ byte :: unstuff (cells.drop next) := by
  have htake : (cells.set write byte).take (write + 1) = cells.take write ++ [byte] := by
    rw [List.take_add_one, List.take_set_of_le (Nat.le_refl _),
      List.getElem?_set_self (by omega), Option.toList_some]
  rw [htake, List.drop_set_of_lt (by omega), List.append_assoc, List.singleton_append]

theorem drop_eq_getD_cons {cells : List UInt8} {i : Nat} (h : i < cells.length) :
    cells.drop i = cells.getD i 0 :: cells.drop (i + 1) := by
  rw [List.drop_eq_getElem_cons h, List.getD_eq_getElem?_getD, List.getElem?_eq_getElem h,
    Option.getD_some]

theorem unstuff_drop_pair {cells : List UInt8} {read : Nat} {byte : UInt8}
    (h : unescapeAt cells read = some byte) :
    unstuff (cells.drop read) = byte :: unstuff (cells.drop (read + 1 + 1)) := by
  unfold unescapeAt at h
  split at h
  · rename_i hnext
    rw [drop_eq_getD_cons (by omega), drop_eq_getD_cons hnext, unstuff, h]
  · cases h

theorem unstuff_drop_single {cells : List UInt8} {read : Nat} (hread : read < cells.length)
    (h : unescapeAt cells read = none) :
    unstuff (cells.drop read) = cells.getD read 0 :: unstuff (cells.drop (read + 1)) := by
  rw [drop_eq_getD_cons hread]
  unfold unescapeAt at h
  split at h
  · rename_i hnext
    rw [drop_eq_getD_cons hnext, unstuff, h]
  · rw [List.drop_eq_nil_of_le (by omega)]
    rfl

/-- Nothing is written in front of what has been read. -/
theorem compact_take (cells : List UInt8) (read write : Nat) (h : write ≤ read) :
    (compact cells read write).1.take (compact cells read write).2 =
      cells.take write ++ unstuff (cells.drop read) := by
  fun_induction compact cells read write with
  | case1 cells read write hread byte hbyte ih =>
      rw [ih (by omega), compact_step h hread (by omega), unstuff_drop_pair hbyte]
  | case2 cells read write hread hnone ih =>
      rw [ih (by omega), compact_step h hread (by omega), unstuff_drop_single hread hnone]
  | case3 cells read write hread =>
      rw [List.drop_eq_nil_of_le (by omega), unstuff, List.append_nil]

theorem reduceInPlace_eq (s : Sequence) : s.reduceInPlace = s.reduce := by
  unfold reduceInPlace reduce
  have htake := compact_take s.bytes 0 0 (Nat.le_refl _)
  rw [List.take_zero, List.drop_zero, List.nil_append] at htake
  rw [← htake]

theorem length_stuff (bytes : List UInt8) :
    (stuff bytes).length = bytes.length + bytes.countP Symbols.needsEscape :=
  code.length_stuff bytes

theorem take_succ_getD {cells : List UInt8} {i : Nat} (h : i < cells.length) :
    cells.take (i + 1) = cells.take i ++ [cells.getD i 0] := by
  rw [List.take_add_one, List.getElem?_eq_getElem h, Option.toList_some,
    List.getD_eq_getElem?_getD, List.getElem?_eq_getElem h, Option.getD_some]

theorem stuff_singleton (byte : UInt8) :
    stuff [byte] = if Symbols.needsEscape byte then [Symbols.ext, Symbols.escape byte]
      else [byte] := rfl

theorem drop_set_pred {cells : List UInt8} {write : Nat} (hpos : 0 < write)
    (hle : write ≤ cells.length) (byte : UInt8) :
    (cells.set (write - 1) byte).drop (write - 1) = byte :: cells.drop write := by
  have hcell : (cells.set (write - 1) byte).getD (write - 1) 0 = byte := by
    rw [List.getD_eq_getElem?_getD, List.getElem?_set_self (by omega), Option.getD_some]
  rw [drop_eq_getD_cons (by rw [List.length_set]; omega), hcell, List.drop_set_of_lt (by omega),
    Nat.sub_add_cancel hpos]

/-- What the loop has written stands behind `write`, and what it has still to read is shorter
than the room in front of it. -/
theorem expand_eq (k : Nat) (cells : List UInt8) (write : Nat) (hk : k ≤ cells.length)
    (hroom : (stuff (cells.take k)).length ≤ write) (hwrite : write ≤ cells.length) :
    expand k cells write =
      cells.take (write - (stuff (cells.take k)).length) ++
        (stuff (cells.take k) ++ cells.drop write) := by
  induction k generalizing cells write with
  | zero =>
      rw [expand, List.take_zero, stuff_nil, List.length_nil, Nat.sub_zero, List.nil_append,
        List.take_append_drop]
  | succ k ih =>
      have hlt : k < cells.length := hk
      have hshort : k ≤ (stuff (cells.take k)).length := by
        rw [length_stuff, List.length_take]
        omega
      rw [take_succ_getD hlt, stuff_append, stuff_singleton] at hroom ⊢
      rw [expand]
      by_cases hbyte : Symbols.needsEscape (cells.getD k 0) = true
      · simp only [if_pos hbyte, List.length_append, List.length_cons, List.length_nil]
          at hroom ⊢
        -- two cells are taken, from the last to the first
        generalize Symbols.escape (cells.getD k 0) = escaped
        have htake (n : Nat) (hn : n ≤ write - 2) :
            ((cells.set (write - 1) escaped).set (write - 2) Symbols.ext).take n =
              cells.take n := by
          rw [List.take_set_of_le hn, List.take_set_of_le (by omega)]
        have hdrop : ((cells.set (write - 1) escaped).set (write - 2) Symbols.ext).drop
            (write - 2) = Symbols.ext :: escaped :: cells.drop write := by
          have hsecond := @drop_set_pred (cells.set (write - 1) escaped) (write - 1) (by omega)
            (by rw [List.length_set]; omega) Symbols.ext
          rw [drop_set_pred (by omega) hwrite] at hsecond
          exact hsecond
        rw [ih _ _ (by simp; omega) (by rw [htake _ (by omega)]; omega) (by simp; omega),
          htake _ (by omega), htake _ (by omega), hdrop, List.append_assoc]
        congr 2
        omega
      · simp only [if_neg hbyte, List.length_append, List.length_cons, List.length_nil]
          at hroom ⊢
        generalize cells.getD k 0 = byte
        have htake (n : Nat) (hn : n ≤ write - 1) :
            (cells.set (write - 1) byte).take n = cells.take n := List.take_set_of_le hn
        rw [ih _ _ (by simp; omega) (by rw [htake _ (by omega)]; omega) (by simp; omega),
          htake _ (by omega), htake _ (by omega), drop_set_pred (by omega) hwrite,
          List.append_assoc]
        congr 2
        omega

/-- The cast keeps the lower half of the remainders and makes the upper half negative. -/
theorem iterations_eq (size : Nat) :
    iterations size = if size % 0x100000000 < 0x80000000 then size % 0x100000000 else 0 := by
  have hmod := Int.bmod_eq_emod size 0x100000000
  unfold iterations
  generalize Int.bmod size 0x100000000 = i at hmod ⊢
  split at hmod <;> split <;> omega

theorem iterations_le (size : Nat) : iterations size ≤ size := by
  rw [iterations_eq]
  split <;> omega

theorem iterations_of_lt {size : Nat} (h : size < 0x80000000) : iterations size = size := by
  rw [iterations_eq, if_pos] <;> omega

/-- From there on at least half of the bytes are left out. -/
theorem two_mul_iterations_le {size : Nat} (h : 0x80000000 ≤ size) :
    2 * iterations size ≤ size := by
  rw [iterations_eq]
  split <;> omega

/-- The buffer after it has grown. -/
def grown (behind : Nat → UInt8) (bytes : List UInt8) : List UInt8 :=
  bytes ++ (List.range (bytes.countP Symbols.needsEscape)).map (fun i => behind (bytes.length + i))

theorem length_grown (behind : Nat → UInt8) (bytes : List UInt8) :
    (grown behind bytes).length = (stuff bytes).length := by
  rw [grown, List.length_append, List.length_map, List.length_range, length_stuff]

theorem take_grown (behind : Nat → UInt8) (bytes : List UInt8) {k : Nat}
    (hk : k ≤ bytes.length) : (grown behind bytes).take k = bytes.take k :=
  List.take_append_of_le_length hk

theorem length_stuff_take_le (bytes : List UInt8) (k : Nat) :
    (stuff (bytes.take k)).length ≤ (stuff bytes).length := by
  conv_rhs => rw [← List.take_append_drop k bytes, stuff_append, List.length_append]
  omega

/-- The bytes that the loop does not reach stay in front, with what the buffer held. -/
theorem extendInPlace_bytes (behind : Nat → UInt8) {bytes : List UInt8}
    (h : bytes.countP Symbols.needsEscape ≠ 0) :
    (extendInPlace behind { bytes }).bytes =
      (grown behind bytes).take ((stuff bytes).length -
          (stuff (bytes.take (iterations bytes.length))).length) ++
        stuff (bytes.take (iterations bytes.length)) := by
  have hle := iterations_le bytes.length
  have htake := take_grown behind bytes hle
  have hgrown := length_grown behind bytes
  have hexpand := expand_eq (iterations bytes.length) (grown behind bytes) (stuff bytes).length
    (by rw [hgrown, length_stuff]; omega)
    (by rw [htake]; exact length_stuff_take_le bytes _) (Nat.le_of_eq hgrown.symm)
  rw [htake, List.drop_eq_nil_of_le (Nat.le_of_eq hgrown), List.append_nil] at hexpand
  rw [← hexpand, length_stuff]
  simp only [extendInPlace, Bool.false_eq_true, if_false, if_neg h, grown]

@[simp] theorem extendInPlace_extended (behind : Nat → UInt8) (s : Sequence) :
    (s.extendInPlace behind).extended = true := by
  unfold extendInPlace
  split
  · assumption
  · dsimp only
    split <;> simp only

theorem eq_of_bytes {s t : Sequence} (hbytes : s.bytes = t.bytes)
    (hextended : s.extended = t.extended) : s = t := by
  cases s
  cases t
  cases hbytes
  cases hextended
  rfl

/-- Where the cast keeps the size, the loop leaves the stuffed bytes. -/
theorem extendInPlace_eq (behind : Nat → UInt8) {s : Sequence} (h : s.size < 0x80000000) :
    s.extendInPlace behind = s.extend := by
  obtain ⟨bytes, extended⟩ := s
  cases extended with
  | true => simp only [extendInPlace, extend, if_true]
  | false =>
      by_cases hextra : bytes.countP Symbols.needsEscape = 0
      · simp [extendInPlace, extend, hextra]
      · have hbytes := extendInPlace_bytes behind hextra
        have hall : iterations bytes.length = bytes.length := iterations_of_lt h
        rw [hall, List.take_length, Nat.sub_self, List.take_zero,
          List.nil_append] at hbytes
        rw [extend_of_logical rfl]
        exact eq_of_bytes hbytes (extendInPlace_extended behind _)

end Sequence

end Ebus
