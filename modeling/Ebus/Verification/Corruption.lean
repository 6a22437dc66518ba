import Mathlib.Logic.Function.Iterate
import Ebus.Lib.Checksum
import Ebus.Protocol.Telegram

/-!
# Corrupted bytes

A shift of the check sum can be undone, so the table is a permutation of the bytes and the
check sum loses nothing of what it has read. A single changed byte is therefore never
missed, and a part with one is turned away once it is complete.
-/

namespace Ebus

/-- One of the eight shifts behind an entry of the table. -/
def crcShift (crc : UInt8) : UInt8 :=
  if crc &&& 0x80 != 0 then (crc <<< 1) ^^^ 0x9b else crc <<< 1

/-- The polynomial is odd: the lowest bit tells whether it was added. -/
def crcUnshift (crc : UInt8) : UInt8 :=
  if crc &&& 0x01 != 0 then ((crc ^^^ 0x9b) >>> 1) ||| 0x80 else crc >>> 1

theorem crcUnshift_crcShift : Function.LeftInverse crcUnshift crcShift := by
  intro crc
  have hall : ∀ i : Fin 256, crcUnshift (crcShift (.ofNat i)) = .ofNat i := by decide +kernel
  simpa using hall ⟨crc.toNat, crc.toNat_lt⟩

theorem calculateCrcEntry_eq : calculateCrcEntry = crcShift^[8] := rfl

theorem crcTable_injective : Function.Injective crcTable := by
  intro a b h
  rw [crcTable, crcTable, calculateCrcEntry_eq] at h
  exact crcUnshift_crcShift.injective.iterate 8 h

theorem calcCRC_injective_init (byte : UInt8) : Function.Injective (calcCRC byte ·) := by
  intro a b h
  exact crcTable_injective (UInt8.xor_left_inj byte |>.mp h)

theorem calcCRC_injective_byte (init : UInt8) : Function.Injective (calcCRC · init) := by
  intro a b h
  exact UInt8.xor_right_inj (crcTable init) |>.mp h

theorem calculateCRC_wire (data : List UInt8) :
    Sequence.calculateCRC data true = data.foldl (fun crc byte => calcCRC byte crc) 0 := rfl

theorem calculateCRC_ne_of_singleChange {xs ys : List UInt8}
    (h : Checksum.SingleChange xs ys) :
    Sequence.calculateCRC xs true ≠ Sequence.calculateCRC ys true := by
  rw [calculateCRC_wire, calculateCRC_wire]
  exact Checksum.foldl_ne_of_singleChange calcCRC_injective_init calcCRC_injective_byte h 0

theorem MasterPart.of_header {part part' : List UInt8} (h : MasterPart part)
    (hlength : part'.length = part.length)
    (hheader : ∀ i < 5, part'.getD i 0 = part.getD i 0) : MasterPart part' where
  source := by rw [hheader 0 (by omega)]; exact h.source
  target := by rw [hheader 1 (by omega)]; exact h.target
  primary := by rw [hheader 2 (by omega)]; exact h.primary
  secondary := by rw [hheader 3 (by omega)]; exact h.secondary
  count := by rw [hheader 4 (by omega)]; exact h.count
  length := by rw [hheader 4 (by omega), hlength]; exact h.length

theorem SlavePart.of_header {part part' : List UInt8} (h : SlavePart part)
    (hlength : part'.length = part.length)
    (hheader : ∀ i < 1, part'.getD i 0 = part.getD i 0) : SlavePart part' where
  count := by rw [hheader 0 (by omega)]; exact h.count
  length := by rw [hheader 0 (by omega), hlength]; exact h.length

namespace Telegram

/-- The wire bytes of a part with its check sum after one of its data bytes, sent as it is
and not as a pair, arrived as another byte that means itself. -/
def Corrupted (header : Nat) (part received : List UInt8) : Prop :=
  ∃ front byte back byte', part = front ++ byte :: back ∧ header ≤ front.length ∧
    Symbols.needsEscape byte = false ∧ Symbols.needsEscape byte' = false ∧ byte' ≠ byte ∧
    received = (Sequence.wire part).set (Sequence.stuff front).length byte'

section Corrupting

variable {header : Nat} {part received front back : List UInt8} {byte byte' : UInt8}

theorem stuff_plain (hplain : Symbols.needsEscape byte = false) (front back : List UInt8) :
    Sequence.stuff (front ++ byte :: back) =
      Sequence.stuff front ++ byte :: Sequence.stuff back := by
  have hbyte : ¬ Sequence.code.stuffed byte = true := by
    change ¬ Symbols.needsEscape byte = true
    rw [hplain]
    decide
  rw [Sequence.stuff_append, Sequence.stuff_eq, Sequence.code.stuff_cons, if_neg hbyte]

/-- On the wire the two bytes stand in the same place. -/
theorem wire_set (hplain : Symbols.needsEscape byte = false)
    (hplain' : Symbols.needsEscape byte' = false) :
    (Sequence.wire (front ++ byte :: back)).set (Sequence.stuff front).length byte' =
      Sequence.stuff (front ++ byte' :: back ++
        [Sequence.calculateCRC (front ++ byte :: back) false]) := by
  rw [Sequence.wire, List.append_assoc, List.cons_append, stuff_plain hplain,
    List.append_assoc, List.cons_append, stuff_plain hplain',
    List.set_append_right _ _ (Nat.le_refl _), Nat.sub_self, List.set_cons_zero]

theorem calculateCRC_ne_of_corrupted (hplain : Symbols.needsEscape byte = false)
    (hplain' : Symbols.needsEscape byte' = false) (hne : byte' ≠ byte) :
    Sequence.calculateCRC (front ++ byte' :: back) false ≠
      Sequence.calculateCRC (front ++ byte :: back) false := by
  rw [← Sequence.calculateCRC_stuff, ← Sequence.calculateCRC_stuff, stuff_plain hplain',
    stuff_plain hplain]
  exact calculateCRC_ne_of_singleChange (.mk _ _ hne)

/-- The receiver sees another part of the same shape, with the check sum of the part sent. -/
theorem Corrupted.reduce (h : Corrupted header part received) :
    ∃ part', part'.length = part.length ∧ (∀ i < header, part'.getD i 0 = part.getD i 0) ∧
      Sequence.calculateCRC part' false ≠ Sequence.calculateCRC part false ∧
      ({ bytes := received, extended := true } : Sequence).reduce =
        { bytes := part' ++ [Sequence.calculateCRC part false] } := by
  obtain ⟨front, byte, back, byte', rfl, hheader, hplain, hplain', hne, rfl⟩ := h
  refine ⟨front ++ byte' :: back, by simp, ?_,
    calculateCRC_ne_of_corrupted hplain hplain' hne, ?_⟩
  · intro i hi
    rw [List.getD_eq_getElem?_getD, List.getD_eq_getElem?_getD,
      List.getElem?_append_left (by omega), List.getElem?_append_left (by omega)]
  · rw [Sequence.reduce_of_wire rfl, wire_set hplain hplain', Sequence.unstuff_stuff]

variable (t : Telegram)

theorem createMaster_corrupted (hpart : MasterPart part) (h : Corrupted 5 part received) :
    (t.createMaster { bytes := received, extended := true }).1.masterState =
      .errCrcInvalid := by
  obtain ⟨part', hlength, hheader, hcrc, hreduce⟩ := h.reduce
  rw [createMaster, hreduce, t.checkMaster_concat (hpart.of_header hlength hheader)]
  exact if_pos hcrc

theorem createSlave_corrupted (hpart : SlavePart part) (h : Corrupted 1 part received) :
    (t.createSlave { bytes := received, extended := true }).1.slaveState =
      .errCrcInvalid := by
  obtain ⟨part', hlength, hheader, hcrc, hreduce⟩ := h.reduce
  rw [createSlave, hreduce, t.checkSlave_concat (hpart.of_header hlength hheader)]
  exact if_pos hcrc

end Corrupting

/-- A single changed byte changes the check sum of a buffer of any length, and a part with
one changed data byte ends in `errCrcInvalid`. -/
theorem corruption_detected :
    (∀ xs ys : List UInt8, xs.length = ys.length → (∃! i : Nat, xs[i]? ≠ ys[i]?) →
      Sequence.calculateCRC xs true ≠ Sequence.calculateCRC ys true) ∧
    (∀ (t : Telegram) part received, MasterPart part → Corrupted 5 part received →
      (t.createMaster { bytes := received, extended := true }).1.masterState =
        .errCrcInvalid) ∧
    (∀ (t : Telegram) part received, SlavePart part → Corrupted 1 part received →
      (t.createSlave { bytes := received, extended := true }).1.slaveState =
        .errCrcInvalid) := by
  refine ⟨?_, ?_, ?_⟩
  · intro xs ys hlength hone
    exact calculateCRC_ne_of_singleChange (Checksum.singleChange_of_existsUnique hlength hone)
  · intro t part received hpart h
    exact t.createMaster_corrupted hpart h
  · intro t part received hpart h
    exact t.createSlave_corrupted hpart h

/-- An answer of two data bytes, the second one damaged. -/
theorem corruption_detected_answer :
    Sequence.calculateCRC [0x02, 0x10, 0x20] true ≠
      Sequence.calculateCRC [0x02, 0x10, 0x21] true ∧
    (({} : Telegram).createMaster
        { bytes := (Sequence.wire [0x10, 0x08, 0xb5, 0x11, 0x01, 0x20]).set 5 0x21
          extended := true }).1.masterState = .errCrcInvalid ∧
    (({} : Telegram).createSlave
        { bytes := (Sequence.wire [0x02, 0x10, 0x20]).set 2 0x21
          extended := true }).1.slaveState = .errCrcInvalid := by
  obtain ⟨hbuffer, hmaster, hslave⟩ := corruption_detected
  refine ⟨hbuffer _ _ rfl ⟨2, by decide, ?_⟩,
    hmaster _ [0x10, 0x08, 0xb5, 0x11, 0x01, 0x20] _ ?_ ?_,
    hslave _ [0x02, 0x10, 0x20] _ ?_ ?_⟩
  · intro i hi
    match i with
    | 0 => exact absurd rfl hi
    | 1 => exact absurd rfl hi
    | 2 => rfl
    | i + 3 => exact absurd rfl hi
  · exact ⟨by decide, by decide, by decide, by decide, by decide, by decide⟩
  · exact ⟨[0x10, 0x08, 0xb5, 0x11, 0x01], 0x20, [], 0x21, rfl, by decide, by decide, by decide,
      by decide, rfl⟩
  · exact ⟨by decide, by decide⟩
  · exact ⟨[0x02, 0x10], 0x20, [], 0x21, rfl, by decide, by decide, by decide, by decide, rfl⟩

end Telegram

end Ebus
