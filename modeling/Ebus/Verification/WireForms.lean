import Ebus.Protocol.InPlace

/-!
# The logical and the wire form of a sequence

For all sequences that fit an `int` the in-place loops are inverse to each other, and both
forms have the same check sum. From `2 ^ 31` bytes on the read cursor of `extend` starts
below the last byte: the bytes that it misses are not stuffed, and what the buffer held
behind them becomes part of the sequence.
-/

namespace Ebus

namespace Sequence

/-- No silence, and every escape byte starts a pair. -/
def WireForm (bytes : List UInt8) : Prop :=
  Symbols.syn ∉ bytes ∧
  ∀ i : Nat, bytes[i]? = some Symbols.ext →
    bytes[i + 1]? = some Symbols.extExt ∨ bytes[i + 1]? = some Symbols.synExt

/-- In logical form, or in well-formed wire form. -/
def Proper (s : Sequence) : Prop := s.extended = true → WireForm s.bytes

/-- What the two forms owe each other, for the sequences with one logical form. -/
structure FormsAgree (bytes : List UInt8) : Prop where
  roundTrip : ∀ behind, (extendInPlace behind { bytes }).reduceInPlace = { bytes }
  wireForm : ∀ behind, WireForm (extendInPlace behind { bytes }).bytes
  restored : ∀ behind wire, WireForm wire →
    reduceInPlace { bytes := wire, extended := true } = { bytes } →
    extendInPlace behind (reduceInPlace { bytes := wire, extended := true }) =
      { bytes := wire, extended := true }
  crc : ∀ behind, calculateCRC bytes false =
    calculateCRC (extendInPlace behind { bytes }).bytes true
  appended : ∀ behind s other, Proper s → Proper other → other.reduceInPlace = { bytes } →
    (s.appendInPlace behind other).reduceInPlace.bytes = s.reduceInPlace.bytes ++ bytes

theorem WireForm.tail {byte : UInt8} {rest : List UInt8} (h : WireForm (byte :: rest)) :
    WireForm rest := by
  constructor
  · intro hmem
    exact h.1 (List.mem_cons_of_mem _ hmem)
  · intro i hi
    exact h.2 (i + 1) hi

theorem WireForm.plain {byte : UInt8} {rest : List UInt8} (h : WireForm (byte :: rest))
    (hne : byte ≠ Symbols.ext) : Symbols.needsEscape byte = false := by
  rw [needsEscape_eq_false_iff]
  refine ⟨?_, hne⟩
  rintro rfl
  exact h.1 (List.mem_cons_self ..)

theorem unescape_eq_some {b1 b2 byte : UInt8} (h : Symbols.unescape b1 b2 = some byte) :
    b1 = Symbols.ext ∧ b2 = Symbols.escape byte := by
  unfold Symbols.unescape at h
  split_ifs at h with hfirst hsyn hext
  · cases h
    exact ⟨not_not.mp hfirst, hsyn⟩
  · cases h
    exact ⟨not_not.mp hfirst, hext⟩

theorem WireForm.coded {bytes : List UInt8} (h : WireForm bytes) : code.Coded bytes := by
  fun_induction unstuff bytes with
  | case1 => exact .nil
  | case2 byte =>
      refine .plain (h.plain ?_) .nil
      rintro rfl
      obtain hnext | hnext := h.2 0 rfl <;> cases hnext
  | case3 b1 b2 rest byte hbyte ih =>
      obtain ⟨rfl, rfl⟩ := unescape_eq_some hbyte
      exact .pair (Symbols.needsEscape_of_unescape hbyte) (ih h.tail.tail)
  | case4 b1 b2 rest hnone ih =>
      refine .plain (h.plain ?_) (ih h.tail)
      rintro rfl
      obtain hnext | hnext := h.2 0 rfl <;> cases hnext <;> cases hnone

theorem wireForm_of_coded {bytes : List UInt8} (h : code.Coded bytes) : WireForm bytes := by
  induction h with
  | nil => exact ⟨List.not_mem_nil, fun _ hi => by cases hi⟩
  | @plain byte rest hplain _ ih =>
      obtain ⟨hsyn, hext⟩ := needsEscape_eq_false_iff.mp hplain
      refine ⟨?_, ?_⟩
      · rw [List.mem_cons, not_or]
        exact ⟨Ne.symm hsyn, ih.1⟩
      · intro i hi
        cases i with
        | zero => exact absurd (Option.some.inj hi) hext
        | succ i => exact ih.2 i hi
  | @pair byte rest hstuffed _ ih =>
      refine ⟨?_, ?_⟩
      · rw [List.mem_cons, List.mem_cons, not_or, not_or]
        exact ⟨by decide, Symbols.syn_ne_escape byte, ih.1⟩
      · intro i hi
        match i with
        | 0 =>
            obtain rfl | rfl := Symbols.needsEscape_iff.mp hstuffed
            · exact .inr rfl
            · exact .inl rfl
        | 1 => exact absurd (Option.some.inj hi) (Symbols.escape_ne_ext byte)
        | i + 2 => exact ih.2 i hi

section Agreeing

variable {bytes : List UInt8}

theorem reduceInPlace_wire (wire : List UInt8) :
    reduceInPlace { bytes := wire, extended := true } = { bytes := unstuff wire } := by
  rw [reduceInPlace_eq, reduce_of_wire rfl]

theorem unstuff_append_of_wireForm {wire : List UInt8} (h : WireForm wire) (rest : List UInt8) :
    unstuff (wire ++ rest) = unstuff wire ++ unstuff rest := by
  rw [unstuff_eq]
  exact h.coded.unstuff_append _ rest

theorem stuff_unstuff_of_wireForm {wire : List UInt8} (h : WireForm wire) :
    stuff (unstuff wire) = wire := by
  rw [unstuff_eq]
  exact h.coded.stuff_unstuff

theorem reduceInPlace_append {s other : Sequence} (hs : Proper s) (behind : Nat → UInt8)
    (hother : Proper other) (hreduce : other.reduceInPlace = { bytes })
    (hextend : extendInPlace behind { bytes } = { bytes := stuff bytes, extended := true }) :
    (s.appendInPlace behind other).reduceInPlace.bytes = s.reduceInPlace.bytes ++ bytes := by
  obtain ⟨front, extended⟩ := s
  cases extended with
  | false =>
      simp only [appendInPlace, Bool.false_eq_true, if_false, hreduce]
      rw [reduceInPlace_eq, reduceInPlace_eq, reduce_of_logical rfl, reduce_of_logical rfl]
  | true =>
      have hfront := unstuff_append_of_wireForm (hs rfl)
      obtain ⟨back, extended⟩ := other
      cases extended with
      | true =>
          have hback : unstuff back = bytes := by
            rw [reduceInPlace_wire] at hreduce
            exact congrArg Sequence.bytes hreduce
          simp only [appendInPlace, extendInPlace, if_true]
          rw [reduceInPlace_wire, reduceInPlace_wire, hfront, hback]
      | false =>
          rw [reduceInPlace_eq, reduce_of_logical rfl] at hreduce
          simp only [appendInPlace, if_true, hreduce, hextend]
          rw [reduceInPlace_wire, reduceInPlace_wire, hfront, unstuff_stuff]

theorem formsAgree_of_extend
    (h : ∀ behind, extendInPlace behind { bytes } = { bytes := stuff bytes, extended := true }) :
    FormsAgree bytes where
  roundTrip behind := by rw [h, reduceInPlace_wire, unstuff_stuff]
  wireForm behind := by rw [h]; exact wireForm_of_coded (code.coded_stuff bytes)
  restored behind wire hwire hreduce := by
    rw [reduceInPlace_wire] at hreduce
    have hbytes : unstuff wire = bytes := congrArg Sequence.bytes hreduce
    rw [reduceInPlace_wire, hbytes, h, ← hbytes, stuff_unstuff_of_wireForm hwire]
  crc behind := by rw [h, calculateCRC_stuff]
  appended behind s other hs hother hreduce :=
    reduceInPlace_append hs behind hother hreduce (h behind)

theorem FormsAgree.extend (h : FormsAgree bytes) (behind : Nat → UInt8) :
    (extendInPlace behind { bytes }).bytes = stuff bytes := by
  have hround := h.roundTrip behind
  have hwire := stuff_unstuff_of_wireForm (h.wireForm behind)
  rw [reduceInPlace_eq, reduce_of_wire (extendInPlace_extended behind _)] at hround
  rw [← hwire, (Sequence.mk.inj hround).1]

end Agreeing

/-- A list that its own stuffing follows one place later holds zeros only. -/
theorem eq_zeros_of_prefix {back : List UInt8} (h : back <+: 0 :: stuff back) :
    back = List.replicate back.length 0 := by
  induction back with
  | nil => rfl
  | cons byte rest ih =>
      obtain ⟨rfl, hrest⟩ := List.cons_prefix_cons.mp h
      exact congrArg (0 :: ·) (ih hrest)

theorem stuff_zeros (zeros : Nat) : stuff (List.replicate zeros 0) = List.replicate zeros 0 :=
  code.stuff_eq_self fun byte hbyte => by rw [List.eq_of_mem_replicate hbyte]; decide

theorem stuff_plain_cons {front : List UInt8}
    (hfront : ∀ byte ∈ front, Symbols.needsEscape byte = false) {byte : UInt8}
    (hbyte : Symbols.needsEscape byte = true) (back : List UInt8) :
    stuff (front ++ byte :: back) =
      front ++ Symbols.ext :: Symbols.escape byte :: stuff back := by
  have hself : stuff front = front := code.stuff_eq_self hfront
  have hcons : stuff (byte :: back) = Symbols.ext :: Symbols.escape byte :: stuff back :=
    if_pos hbyte
  rw [stuff_append, hself, hcons]

theorem stuff_injective : Function.Injective stuff :=
  Function.LeftInverse.injective unstuff_stuff

/-- The second byte of the pair moves behind the zeros. -/
theorem stuff_shifted {front : List UInt8}
    (hfront : ∀ byte ∈ front, Symbols.needsEscape byte = false) (zeros : Nat)
    (ys : List UInt8) :
    stuff (front ++ Symbols.ext :: List.replicate zeros 0 ++ ys) =
      front ++ Symbols.ext :: List.replicate zeros 0 ++ stuff (0 :: ys) := by
  have hpair : stuff (front ++ Symbols.ext :: List.replicate zeros 0) =
      front ++ Symbols.ext :: List.replicate zeros 0 ++ [0] := by
    rw [stuff_plain_cons hfront (by decide), stuff_zeros, List.append_assoc, List.cons_append,
      ← List.replicate_succ', List.replicate_succ]
    rfl
  have hzero : stuff (0 :: ys) = 0 :: stuff ys := rfl
  rw [stuff_append, hpair, hzero, List.append_assoc _ [0], List.singleton_append]

/-- The first byte that has to be stuffed. -/
theorem exists_first_escape {bytes : List UInt8}
    (h : ¬ ∀ byte ∈ bytes, Symbols.needsEscape byte = false) :
    ∃ front byte back, bytes = front ++ byte :: back ∧ Symbols.needsEscape byte = true ∧
      ∀ byte ∈ front, Symbols.needsEscape byte = false := by
  induction bytes with
  | nil => exact absurd (fun _ hmem => by cases hmem) h
  | cons byte bytes ih =>
      by_cases hbyte : Symbols.needsEscape byte = true
      · exact ⟨[], byte, bytes, rfl, hbyte, fun _ hmem => by cases hmem⟩
      · rw [Bool.not_eq_true] at hbyte
        obtain ⟨front, first, back, rfl, hfirst, hfront⟩ := ih fun hall =>
          h (List.forall_mem_cons.mpr ⟨hbyte, hall⟩)
        exact ⟨byte :: front, first, back, rfl, hfirst,
          List.forall_mem_cons.mpr ⟨hbyte, hfront⟩⟩

/-- The unread bytes `xs`, followed by the stuffing of the read ones, are the stuffing of the
whole only for this shape: the pair of one escape byte takes its second byte from the zeros
behind it, and the last zero from the first byte. -/
theorem stuff_eq_append_take_iff {xs ys : List UInt8} {k : Nat} (hk : k ≤ xs.length)
    (hescape : ¬ ∀ byte ∈ xs ++ ys, Symbols.needsEscape byte = false) :
    xs ++ stuff (xs.take k) = stuff (xs ++ ys) ↔
      0 < k ∧ ys = (xs.take k).tail ∧ ∃ front zeros,
        (∀ byte ∈ front, Symbols.needsEscape byte = false) ∧ front.head? = some 0 ∧
        xs = front ++ Symbols.ext :: List.replicate zeros 0 := by
  constructor
  · intro h
    rw [stuff_append] at h
    have hprefix : xs <+: stuff xs := by
      have hwhole : xs <+: stuff xs ++ stuff ys := h ▸ List.prefix_append _ _
      refine List.prefix_of_prefix_length_le hwhole (List.prefix_append _ _) ?_
      rw [length_stuff]
      omega
    have hplain : ¬ ∀ byte ∈ xs, Symbols.needsEscape byte = false := by
      -- else nothing is stuffed on the left
      intro hxs
      have hself : stuff xs = xs := code.stuff_eq_self hxs
      rw [hself, List.append_cancel_left_eq] at h
      apply hescape
      intro byte hbyte
      rw [← stuff_injective h, List.mem_append] at hbyte
      obtain hbyte | hbyte := hbyte
      · exact hxs byte hbyte
      · exact hxs byte (List.mem_of_mem_take hbyte)
    obtain ⟨front, byte, back, rfl, hbyte, hfront⟩ := exists_first_escape hplain
    rw [stuff_plain_cons hfront hbyte, List.prefix_append_right_inj,
      List.cons_prefix_cons] at hprefix
    obtain ⟨rfl, hback⟩ := hprefix
    have hzeros := eq_zeros_of_prefix hback
    generalize back.length = zeros at hzeros
    subst hzeros
    rw [← stuff_append, stuff_shifted hfront, List.append_cancel_left_eq] at h
    have htake := stuff_injective h
    have hpos : 0 < k := by
      by_contra hzero
      rw [Nat.eq_zero_of_not_pos hzero] at htake
      cases htake
    refine ⟨hpos, by rw [htake, List.tail_cons], front, zeros, hfront, ?_, rfl⟩
    obtain ⟨k, rfl⟩ := Nat.exists_eq_add_of_lt hpos
    cases front with
    | nil => cases (List.cons.inj htake).1
    | cons first front => rw [List.head?_cons, (List.cons.inj htake).1]
  · rintro ⟨hpos, rfl, front, zeros, hfront, hhead, rfl⟩
    obtain ⟨k, rfl⟩ := Nat.exists_eq_add_of_lt hpos
    cases front with
    | nil => cases hhead
    | cons first front =>
        cases hhead
        rw [stuff_shifted hfront]
        rfl

/-- Of the sequences that do not fit an `int`, only these are stuffed: one escape byte behind
bytes that start with zero, zeros behind it, and then what follows the first byte of the
bytes that the loop reads. -/
def Fortunate (bytes : List UInt8) : Prop :=
  0 < iterations bytes.length ∧ ∃ front zeros,
    (∀ byte ∈ front, Symbols.needsEscape byte = false) ∧ front.head? = some 0 ∧
    bytes = front ++ Symbols.ext :: List.replicate zeros 0 ++
      (bytes.take (iterations bytes.length)).tail

/-- Whether `extend` leaves the stuffed bytes. -/
def Extends (bytes : List UInt8) : Prop :=
  bytes.length < 0x80000000 ∨ (∀ byte ∈ bytes, Symbols.needsEscape byte = false) ∨
    Fortunate bytes

section Extending

variable {bytes : List UInt8}

theorem countP_ne_zero (h : ¬ ∀ byte ∈ bytes, Symbols.needsEscape byte = false) :
    bytes.countP Symbols.needsEscape ≠ 0 := by
  intro hzero
  apply h
  intro byte hbyte
  exact Bool.eq_false_iff.mpr (List.countP_eq_zero.mp hzero byte hbyte)

/-- The cells that the loop does not write have room for what it does not read. -/
theorem length_unread (bytes : List UInt8) (k : Nat) :
    (stuff bytes).length - (stuff (bytes.take k)).length = (stuff (bytes.drop k)).length := by
  have hparts : (stuff bytes).length =
      (stuff (bytes.take k)).length + (stuff (bytes.drop k)).length := by
    rw [← List.length_append, ← stuff_append, List.take_append_drop]
  omega

theorem fortunate_of_extend (hlong : 0x80000000 ≤ bytes.length)
    (hescape : ¬ ∀ byte ∈ bytes, Symbols.needsEscape byte = false)
    (h : ∀ behind, (extendInPlace behind { bytes }).bytes = stuff bytes) : Fortunate bytes := by
  have hcount := countP_ne_zero hescape
  have hhalf := two_mul_iterations_le hlong
  unfold Fortunate
  generalize hk : iterations bytes.length = k at hhalf ⊢
  have hbytes (behind : Nat → UInt8) :
      (grown behind bytes).take (stuff (bytes.drop k)).length ++ stuff (bytes.take k) =
        stuff bytes := by
    rw [← h behind, extendInPlace_bytes behind hcount, hk, length_unread]
  -- a cell behind the old end would keep whatever the buffer held
  have hle : (stuff (bytes.drop k)).length ≤ bytes.length := by
    by_contra hlt
    apply syn_not_mem_stuff bytes
    rw [← hbytes fun _ => Symbols.syn, List.mem_append, grown]
    refine .inl (List.mem_iff_getElem?.mpr ⟨bytes.length, ?_⟩)
    rw [List.getElem?_take_of_lt (by omega), List.getElem?_append_right (Nat.le_refl _),
      Nat.sub_self, List.getElem?_map, List.getElem?_range (by omega)]
    rfl
  have hread : k ≤ (stuff (bytes.drop k)).length := by
    rw [length_stuff, List.length_drop]
    omega
  have hshape := hbytes fun _ => 0
  rw [take_grown _ _ hle] at hshape
  generalize (stuff (bytes.drop k)).length = m at hle hread hshape
  have htake : (bytes.take m).take k = bytes.take k := by
    rw [List.take_take, Nat.min_eq_left hread]
  rw [← List.take_append_drop m bytes] at hescape
  have hiff := stuff_eq_append_take_iff (k := k) (by rw [List.length_take]; omega) hescape
  rw [htake, List.take_append_drop] at hiff
  obtain ⟨hpos, hback, front, zeros, hfront, hhead, hxs⟩ := hiff.mp hshape
  refine ⟨hpos, front, zeros, hfront, hhead, ?_⟩
  rw [← hxs, ← hback, List.take_append_drop]

theorem extend_of_fortunate (hlong : 0x80000000 ≤ bytes.length) (h : Fortunate bytes)
    (behind : Nat → UInt8) : (extendInPlace behind { bytes }).bytes = stuff bytes := by
  have hhalf := two_mul_iterations_le hlong
  have hwrite (hcount : bytes.countP Symbols.needsEscape ≠ 0) := extendInPlace_bytes behind hcount
  unfold Fortunate at h
  generalize iterations bytes.length = k at hhalf hwrite h
  obtain ⟨hpos, front, zeros, hfront, hhead, hbytes⟩ := h
  have hescape : ¬ ∀ byte ∈ bytes, Symbols.needsEscape byte = false := by
    intro hall
    have hext := hall Symbols.ext (by rw [hbytes]; simp)
    cases hext
  generalize hxs : front ++ Symbols.ext :: List.replicate zeros 0 = xs at hbytes
  have hlength : k ≤ xs.length := by
    have hparts := congrArg List.length hbytes
    rw [List.length_append, List.length_tail, List.length_take] at hparts
    omega
  have htake : bytes.take k = xs.take k := by
    rw [hbytes, List.take_append_of_le_length hlength]
  rw [htake] at hbytes
  have hshape : xs ++ stuff (xs.take k) = stuff (xs ++ (xs.take k).tail) := by
    rw [stuff_eq_append_take_iff hlength (by rwa [← hbytes])]
    exact ⟨hpos, rfl, front, zeros, hfront, hhead, hxs.symm⟩
  rw [← hbytes] at hshape
  have hroom : (stuff bytes).length - (stuff (xs.take k)).length = xs.length := by
    rw [← hshape, List.length_append, Nat.add_sub_cancel]
  have hxsle : xs.length ≤ bytes.length := by
    rw [hbytes, List.length_append]
    omega
  rw [hwrite (countP_ne_zero hescape), htake, hroom, take_grown _ _ hxsle, ← hshape]
  conv_lhs => rw [hbytes, List.take_left]

/-- The loops leave the stuffed bytes, whatever the buffer held, for these sequences only. -/
theorem extendInPlace_bytes_iff :
    (∀ behind, (extendInPlace behind { bytes }).bytes = stuff bytes) ↔ Extends bytes := by
  by_cases hshort : bytes.length < 0x80000000
  · refine iff_of_true ?_ (.inl hshort)
    intro behind
    have hsize : ({ bytes } : Sequence).size < 0x80000000 := hshort
    rw [extendInPlace_eq behind hsize, extend_of_logical rfl]
  · by_cases hplain : ∀ byte ∈ bytes, Symbols.needsEscape byte = false
    · refine iff_of_true ?_ (.inr (.inl hplain))
      intro behind
      have hself : stuff bytes = bytes := code.stuff_eq_self hplain
      have hnone : bytes.countP Symbols.needsEscape = 0 := by
        rw [List.countP_eq_zero]
        intro byte hbyte
        rw [hplain byte hbyte]
        decide
      simp only [extendInPlace, Bool.false_eq_true, if_false, hnone, if_true, hself]
    · have hlong : 0x80000000 ≤ bytes.length := by omega
      constructor
      · intro h
        exact .inr (.inr (fortunate_of_extend hlong hplain h))
      · rintro (h | h | h)
        · exact absurd h hshort
        · exact absurd h hplain
        · exact extend_of_fortunate hlong h

end Extending

/-- The loops are inverse to each other and agree with the check sum exactly there. -/
theorem formsAgree_iff (bytes : List UInt8) : FormsAgree bytes ↔ Extends bytes := by
  rw [← extendInPlace_bytes_iff]
  constructor
  · intro h
    exact h.extend
  · intro h
    apply formsAgree_of_extend
    intro behind
    exact eq_of_bytes (h behind) (extendInPlace_extended behind _)

theorem not_extends_zeros {zeros : Nat} (hlong : 0x80000000 ≤ zeros)
    (hnone : iterations (zeros + 1) = 0) :
    ¬ Extends (List.replicate zeros 0 ++ [Symbols.ext]) := by
  have hlength : (List.replicate zeros (0 : UInt8) ++ [Symbols.ext]).length = zeros + 1 := by
    rw [List.length_append, List.length_replicate, List.length_singleton]
  rintro (hshort | hplain | ⟨hpos, -⟩)
  · omega
  · cases hplain Symbols.ext (List.mem_append_right _ (List.mem_singleton_self _))
  · rw [hlength] at hpos
    omega

/-- With `2 ^ 31` zeros in front, the cast of the size is negative and an escape byte at the
end is not stuffed. -/
theorem not_formsAgree_long : ¬ ∀ bytes, FormsAgree bytes := by
  intro hall
  have hforms := hall (List.replicate 0x80000000 0 ++ [Symbols.ext])
  exact not_extends_zeros (Nat.le_refl _) (by rw [iterations_eq]; rfl)
    (extendInPlace_bytes_iff.mp hforms.extend)

end Sequence

end Ebus
