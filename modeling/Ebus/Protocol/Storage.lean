import Ebus.Protocol.InPlace
import Ebus.Protocol.Telegram

/-!
# Sequences and telegrams in their storage

A sequence is a buffer of cells of which the first `size` hold its bytes. Shortening it
leaves the cells behind its end as they are, and the index operator does not look at the
size. The batch decoder relies on the first: it checks each part in the buffer that it has
copied it to, so the check shortens the sequence it reads, and then reads the check sum
behind the new end.

The definitions follow the buffers cell by cell. `TelegramImpl.view_parse` says that what
they compute is what `Ebus.Telegram.parse` computes from the bytes alone. A part has at most
22 bytes and never outgrows the inline storage of a telegram, so its buffer does not move.
-/

namespace Ebus

structure SequenceImpl where
  cells : Nat → UInt8 := fun _ => Symbols.zero
  size : Nat := 0
  extended : Bool := false

namespace SequenceImpl

/-- `operator[]`, without a look at the size. -/
def get (s : SequenceImpl) (index : Nat) : UInt8 := s.cells index

def bytes (s : SequenceImpl) : List UInt8 := (List.range s.size).map s.cells

/-- The bytes and the form, without what lies behind the end. -/
def toSequence (s : SequenceImpl) : Sequence := { bytes := s.bytes, extended := s.extended }

def clear (s : SequenceImpl) : SequenceImpl := { s with size := 0, extended := false }

def assignSlice (s other : SequenceImpl) (index len : Nat) : SequenceImpl :=
  if other.size ≤ index then { s.clear with extended := other.extended }
  else
    let len := if len = 0 ∨ other.size < index + len then other.size - index else len
    { cells := fun i => if i < len then other.cells (index + i) else s.cells i
      size := len
      extended := other.extended }

def needsReduction (s : SequenceImpl) : Bool :=
  s.extended && s.bytes.any (fun b => b == Symbols.ext)

/-- The loop of `reduce` writes to the cells of the sequence only. -/
def reduce (s : SequenceImpl) : SequenceImpl :=
  if !s.extended then s
  else if !s.needsReduction then { s with extended := false }
  else
    let (compacted, write) := Sequence.compact s.bytes 0 0
    { cells := fun i => if i < s.size then compacted.getD i 0 else s.cells i
      size := write
      extended := false }

def crc (s : SequenceImpl) : UInt8 := Sequence.calculateCRC s.bytes s.extended

@[simp] theorem toSequence_size (s : SequenceImpl) : s.toSequence.size = s.size := by
  simp [toSequence, bytes, Sequence.size]

@[simp] theorem toSequence_extended (s : SequenceImpl) :
    s.toSequence.extended = s.extended := rfl

theorem crc_toSequence (s : SequenceImpl) : s.toSequence.crc = s.crc := rfl

/-- Inside the sequence the index operator reads its bytes. -/
theorem get_toSequence {s : SequenceImpl} {i : Nat} (h : i < s.size) :
    s.toSequence.get i = s.get i := by
  simp [toSequence, bytes, Sequence.get, get, List.getD_eq_getElem?_getD, h]

theorem bytes_slice (s : SequenceImpl) (index len : Nat) (h : index + len ≤ s.size) :
    (s.bytes.drop index).take len =
      (List.range len).map (fun i => s.cells (index + i)) := by
  apply List.ext_getElem
  · simp [bytes]
    omega
  · intro i h₁ h₂
    simp [bytes]

theorem bytes_assign (s : SequenceImpl) (cells : Nat → UInt8) (len : Nat) (extended : Bool) :
    ({ cells := fun i => if i < len then cells i else s.cells i, size := len, extended } :
      SequenceImpl).bytes = (List.range len).map cells := by
  apply List.map_congr_left
  intro i hi
  exact if_pos (List.mem_range.mp hi)

theorem toSequence_assignSlice (s other : SequenceImpl) (index len : Nat) :
    (s.assignSlice other index len).toSequence = other.toSequence.slice index len := by
  unfold assignSlice Sequence.slice
  rw [toSequence_size, toSequence_extended]
  by_cases hindex : other.size ≤ index
  · rw [if_pos hindex, if_pos hindex]
    rfl
  · rw [if_neg hindex, if_neg hindex]
    dsimp only
    generalize hlen : (if len = 0 ∨ other.size < index + len then other.size - index else len) = n
    have hfits : index + n ≤ other.size := by
      split at hlen <;> omega
    exact congrArg (fun bytes => ({ bytes, extended := other.extended } : Sequence))
      ((s.bytes_assign _ n _).trans (other.bytes_slice index n hfits).symm)

/-- A sequence that is assigned a slice of itself from its start is shortened, and keeps
every cell. -/
theorem cells_assignSlice_self (s : SequenceImpl) (len : Nat) :
    (s.assignSlice s 0 len).cells = s.cells := by
  unfold assignSlice
  split
  · rfl
  · funext i
    simp only [Nat.zero_add, ite_self]

theorem length_compact (cells : List UInt8) (read write : Nat) :
    (Sequence.compact cells read write).1.length = cells.length := by
  fun_induction Sequence.compact cells read write with
  | case1 cells read write hread byte hbyte ih => rw [ih, List.length_set]
  | case2 cells read write hread hnone ih => rw [ih, List.length_set]
  | case3 cells read write hread => rfl

/-- The write cursor ends inside the sequence. -/
theorem compact_le (cells : List UInt8) (read write : Nat) (h : write ≤ read)
    (hread : read ≤ cells.length) : (Sequence.compact cells read write).2 ≤ cells.length := by
  fun_induction Sequence.compact cells read write with
  | case1 cells read write hlt byte hbyte ih =>
      have hnext : read + 1 < cells.length := by
        unfold Sequence.unescapeAt at hbyte
        split at hbyte
        · assumption
        · cases hbyte
      rw [List.length_set] at ih
      exact ih (by omega) (by omega)
  | case2 cells read write hlt hnone ih =>
      rw [List.length_set] at ih
      exact ih (by omega) (by omega)
  | case3 cells read write hlt => exact Nat.le_trans h hread

/-- What a loop has left in the cells of the sequence, cut at its write cursor. -/
theorem bytes_store (s : SequenceImpl) {cells : List UInt8} {write : Nat}
    (hlength : cells.length = s.size) (hwrite : write ≤ s.size) :
    ({ cells := fun i => if i < s.size then cells.getD i 0 else s.cells i, size := write } :
      SequenceImpl).bytes = cells.take write := by
  apply List.ext_getElem
  · simp [bytes, hlength, hwrite]
  · intro i h₁ h₂
    have hi : i < cells.length := by
      rw [List.length_take] at h₂
      omega
    simp [bytes, ← hlength, hi]

theorem toSequence_reduce (s : SequenceImpl) : s.reduce.toSequence = s.toSequence.reduce := by
  rw [← Sequence.reduceInPlace_eq]
  unfold reduce Sequence.reduceInPlace
  have hneeds : s.toSequence.needsReduction = s.needsReduction := rfl
  rw [hneeds, toSequence_extended]
  by_cases hlogical : (!s.extended) = true
  · rw [if_pos hlogical, if_pos hlogical]
  · rw [if_neg hlogical, if_neg hlogical]
    by_cases hnone : (!s.needsReduction) = true
    · rw [if_pos hnone, if_pos hnone]
      rfl
    · rw [if_neg hnone, if_neg hnone]
      have hsize : s.bytes.length = s.size := s.toSequence_size
      have hlength := length_compact s.bytes 0 0
      have hwrite := compact_le s.bytes 0 0 (Nat.le_refl _) (Nat.zero_le _)
      rw [hsize] at hlength hwrite
      exact congrArg (fun bytes => ({ bytes, extended := false } : Sequence))
        (s.bytes_store hlength hwrite)

end SequenceImpl

structure TelegramImpl where
  telegramType : TelegramType := .undefined
  master : SequenceImpl := {}
  masterNn : Nat := 0
  masterCrc : UInt8 := Symbols.zero
  masterAck : UInt8 := Symbols.zero
  masterState : SequenceState := .seqEmpty
  slave : SequenceImpl := {}
  slaveNn : Nat := 0
  slaveCrc : UInt8 := Symbols.zero
  slaveAck : UInt8 := Symbols.zero
  slaveState : SequenceState := .seqEmpty

namespace TelegramImpl

def clear (t : TelegramImpl) : TelegramImpl :=
  { master := t.master.clear, slave := t.slave.clear }

/-- `getMaster` and `getSlave` return the two buffers. -/
def getMaster (t : TelegramImpl) : SequenceImpl := t.master

def getSlave (t : TelegramImpl) : SequenceImpl := t.slave

def isValid (t : TelegramImpl) : Bool :=
  if t.telegramType ≠ .masterSlave then t.masterState = .seqOk
  else t.masterState = .seqOk ∧ t.slaveState = .seqOk

def masterHeaderError (sequence : SequenceImpl) : Option SequenceState :=
  if sequence.size < 5 then some .errSeqTooShort
  else if !isMaster (sequence.get 0) then some .errSourceAddress
  else if !isTarget (sequence.get 1) then some .errTargetAddress
  else if SequenceLimits.maxDataBytes < sequence.get 4 then some .errDataByte
  else if sequence.get 2 = Symbols.syn ∨ sequence.get 2 = Symbols.ext ∨
      sequence.get 3 = Symbols.syn ∨ sequence.get 3 = Symbols.ext then some .errDataByte
  else if sequence.size < 5 + (sequence.get 4).toNat then some .errSeqTooShort
  else none

/-- `createMaster(master_)`: the sequence it checks is the one it stores the part in. -/
def createMaster (t : TelegramImpl) : TelegramImpl :=
  let t := { t with masterState := .seqOk, master := t.master.reduce }
  match masterHeaderError t.master with
  | some error => { t with masterState := error }
  | none =>
      let t := { t with telegramType := typeOf (t.master.get 1)
                        masterNn := (t.master.get 4).toNat }
      if t.master.size = 5 + t.masterNn then
        let t := { t with master := t.master.assignSlice t.master 0 0 }
        { t with masterCrc := t.master.crc }
      else if t.master.size = 5 + t.masterNn + 1 then
        let t := { t with master := t.master.assignSlice t.master 0 (5 + t.masterNn) }
        -- one cell behind the end that the slice has just set
        let t := { t with masterCrc := t.master.get (5 + t.masterNn) }
        if t.master.crc ≠ t.masterCrc then { t with masterState := .errCrcInvalid } else t
      else { t with masterState := .errSeqTooLong }

def slaveHeaderError (sequence : SequenceImpl) : Option SequenceState :=
  if sequence.size < 2 then some .errSeqTooShort
  else if SequenceLimits.maxDataBytes < sequence.get 0 then some .errDataByte
  else if sequence.size < 1 + (sequence.get 0).toNat then some .errSeqTooShort
  else none

/-- `createSlave(slave_)`. -/
def createSlave (t : TelegramImpl) : TelegramImpl :=
  let t := { t with slaveState := .seqOk, slave := t.slave.reduce }
  match slaveHeaderError t.slave with
  | some error => { t with slaveState := error }
  | none =>
      let t := { t with slaveNn := (t.slave.get 0).toNat }
      if t.slave.size = 1 + t.slaveNn then
        let t := { t with slave := t.slave.assignSlice t.slave 0 0 }
        { t with slaveCrc := t.slave.crc }
      else if t.slave.size = 1 + t.slaveNn + 1 then
        let t := { t with slave := t.slave.assignSlice t.slave 0 (1 + t.slaveNn) }
        let t := { t with slaveCrc := t.slave.get (1 + t.slaveNn) }
        if t.slave.crc ≠ t.slaveCrc then { t with slaveState := .errCrcInvalid } else t
      else { t with slaveState := .errSeqTooLong }

def checkMasterSequence (sequence : SequenceImpl) (offset : Nat) : SequenceState :=
  if sequence.size < offset + 5 then .errSeqTooShort
  else if !isMaster (sequence.get (offset + 0)) then .errSourceAddress
  else if !isTarget (sequence.get (offset + 1)) then .errTargetAddress
  else if SequenceLimits.maxDataBytes < sequence.get (offset + 4) then .errDataByte
  else if sequence.size < 5 + (sequence.get (offset + 4)).toNat + 1 then
    .errSeqTooShort
  else .seqOk

def checkSlaveSequence (sequence : SequenceImpl) (offset : Nat) : SequenceState :=
  if sequence.size < offset + 1 then .errSeqTooShort
  else if SequenceLimits.maxDataBytes < sequence.get (offset + 0) then .errDataByte
  else if sequence.size < offset + 1 + (sequence.get (offset + 0)).toNat + 1
    then .errSeqTooShort
  else .seqOk

/-- The master branch of `parseSequencePart`: the new cursor on success. -/
def parseMasterPart (t : TelegramImpl) (sequence : SequenceImpl) (offset : Nat) :
    TelegramImpl × Option Nat :=
  let t := { t with masterState := checkMasterSequence sequence offset }
  if t.masterState ≠ .seqOk then (t, none)
  else
    let len := 5 + (sequence.get (offset + 4)).toNat + 1
    let t := { t with master := t.master.assignSlice sequence offset len }
    let t := t.createMaster
    let offset := offset + len
    if t.masterState ≠ .seqOk then (t, none)
    else if t.telegramType ≠ .broadcast then
      if sequence.size ≤ offset then ({ t with masterState := .errAckMissing }, none)
      else
        let t := { t with masterAck := sequence.get offset }
        if t.masterAck ≠ Symbols.ack ∧ t.masterAck ≠ Symbols.nak then
          ({ t with masterState := .errAckInvalid }, none)
        else (t, some (offset + 1))
    else (t, some offset)

/-- The slave branch of `parseSequencePart`. -/
def parseSlavePart (t : TelegramImpl) (sequence : SequenceImpl) (offset : Nat) :
    TelegramImpl × Option Nat :=
  let t := { t with slaveState := checkSlaveSequence sequence offset }
  if t.slaveState ≠ .seqOk then (t, none)
  else
    let len := 1 + (sequence.get (offset + 0)).toNat + 1
    let t := { t with slave := t.slave.assignSlice sequence offset len }
    let t := t.createSlave
    let offset := offset + len
    if t.slaveState ≠ .seqOk then (t, none)
    else if sequence.size ≤ offset then ({ t with slaveState := .errAckMissing }, none)
    else
      let t := { t with slaveAck := sequence.get offset }
      if t.slaveAck ≠ Symbols.ack ∧ t.slaveAck ≠ Symbols.nak then
        ({ t with slaveState := .errAckInvalid }, none)
      else (t, some (offset + 1))

/-- The slave half of `parse`, entered with a valid master part. -/
def parseSlave (t : TelegramImpl) (sequence : SequenceImpl) (cursor : Nat) : TelegramImpl :=
  match t.parseSlavePart sequence cursor with
  | (t, none) => t
  | (t, some cursor) =>
      if t.slaveAck = Symbols.nak then
        match t.parseSlavePart sequence cursor with
        | (t, none) => t
        | (t, some _) =>
            if t.slaveAck = Symbols.nak then { t with slaveState := .errAckNegative } else t
      else t

/-- What `parse` does behind its master part. -/
def parseRest (t : TelegramImpl) (sequence : SequenceImpl) (cursor : Nat) : TelegramImpl :=
  if t.masterState ≠ .seqOk then t
  else if t.telegramType = .masterSlave then t.parseSlave sequence cursor
  else t

def parse (t : TelegramImpl) (sequence : SequenceImpl) : TelegramImpl :=
  let t := t.clear
  let sequence := sequence.reduce
  match t.parseMasterPart sequence 0 with
  | (t, none) => t
  | (t, some cursor) =>
      if t.telegramType ≠ .broadcast ∧ t.masterAck = Symbols.nak then
        match t.parseMasterPart sequence cursor with
        | (t, none) => t
        | (t, some cursor) =>
            let t := if t.masterAck = Symbols.nak then
              { t with masterState := .errAckNegative } else t
            t.parseRest sequence cursor
      else t.parseRest sequence cursor

/-- The telegram without what lies behind the ends of its two parts. -/
def view (t : TelegramImpl) : Telegram where
  telegramType := t.telegramType
  master := t.master.toSequence
  masterNn := t.masterNn
  masterCrc := t.masterCrc
  masterAck := t.masterAck
  masterState := t.masterState
  slave := t.slave.toSequence
  slaveNn := t.slaveNn
  slaveCrc := t.slaveCrc
  slaveAck := t.slaveAck
  slaveState := t.slaveState

theorem isValid_view (t : TelegramImpl) : t.view.isValid = t.isValid := rfl

theorem view_clear (t : TelegramImpl) : t.clear.view = t.view.clear := rfl

/-- The header is read behind the length test only. -/
theorem masterHeaderError_eq (s : SequenceImpl) :
    masterHeaderError s = Telegram.masterHeaderError s.toSequence := by
  unfold masterHeaderError Telegram.masterHeaderError
  rw [SequenceImpl.toSequence_size]
  by_cases hsize : s.size < 5
  · rw [if_pos hsize, if_pos hsize]
  · rw [if_neg hsize, if_neg hsize]
    have hget {i : Nat} (hi : i < 5) : s.toSequence.get i = s.get i :=
      SequenceImpl.get_toSequence (by omega)
    rw [hget (by omega), hget (by omega), hget (by omega), hget (by omega), hget (by omega)]

theorem slaveHeaderError_eq (s : SequenceImpl) :
    slaveHeaderError s = Telegram.slaveHeaderError s.toSequence := by
  unfold slaveHeaderError Telegram.slaveHeaderError
  rw [SequenceImpl.toSequence_size]
  by_cases hsize : s.size < 2
  · rw [if_pos hsize, if_pos hsize]
  · rw [if_neg hsize, if_neg hsize, SequenceImpl.get_toSequence (by omega)]

theorem checkMasterSequence_eq (s : SequenceImpl) (offset : Nat) :
    checkMasterSequence s offset = Telegram.checkMasterSequence s.toSequence offset := by
  unfold checkMasterSequence Telegram.checkMasterSequence
  rw [SequenceImpl.toSequence_size]
  by_cases hsize : s.size < offset + 5
  · rw [if_pos hsize, if_pos hsize]
  · rw [if_neg hsize, if_neg hsize]
    have hget {i : Nat} (hi : i < 5) : s.toSequence.get (offset + i) = s.get (offset + i) :=
      SequenceImpl.get_toSequence (by omega)
    rw [hget (by omega), hget (by omega), hget (by omega)]

theorem checkSlaveSequence_eq (s : SequenceImpl) (offset : Nat) :
    checkSlaveSequence s offset = Telegram.checkSlaveSequence s.toSequence offset := by
  unfold checkSlaveSequence Telegram.checkSlaveSequence
  rw [SequenceImpl.toSequence_size]
  by_cases hsize : s.size < offset + 1
  · rw [if_pos hsize, if_pos hsize]
  · rw [if_neg hsize, if_neg hsize, SequenceImpl.get_toSequence (by omega)]

/-- The check sum behind the new end is the one that the sequence held before. -/
theorem view_createMaster {t : TelegramImpl} (h : t.master.extended = false) :
    t.createMaster.view = (t.view.createMaster t.view.master).1 := by
  have hlogical : t.master.toSequence.extended = false := h
  have hself : t.master.reduce = t.master := by simp [SequenceImpl.reduce, h]
  simp only [createMaster, hself, Telegram.createMaster]
  change _ = t.view.checkMaster t.master.toSequence.reduce
  rw [Sequence.reduce_of_logical hlogical, Telegram.checkMaster, masterHeaderError_eq]
  cases hheader : Telegram.masterHeaderError t.master.toSequence with
  | some error => rfl
  | none =>
      obtain ⟨-, -, -, -, -, hlen⟩ := Telegram.masterHeaderError_eq_none_iff.mp hheader
      rw [SequenceImpl.toSequence_size] at hlen
      have hget {i : Nat} (hi : i < t.master.size) :
          t.master.toSequence.get i = t.master.get i := SequenceImpl.get_toSequence hi
      rw [hget (i := 4) (by omega)] at hlen ⊢
      rw [hget (by omega), SequenceImpl.toSequence_size]
      dsimp only
      generalize (t.master.get 4).toNat = nn at hlen ⊢
      by_cases hexact : t.master.size = 5 + nn
      · rw [if_pos hexact, if_pos hexact]
        have hpart := t.master.toSequence_assignSlice t.master 0 0
        have hsame : (t.master.assignSlice t.master 0 0).crc = t.master.toSequence.crc := by
          rw [← SequenceImpl.crc_toSequence, hpart, Sequence.slice_all]
          rw [SequenceImpl.toSequence_size]
          omega
        simp only [view, hpart, hsame]
      · rw [if_neg hexact, if_neg hexact]
        by_cases hcrc : t.master.size = 5 + nn + 1
        · rw [if_pos hcrc, if_pos hcrc, hget (i := 5 + nn) (by omega)]
          have hpart := t.master.toSequence_assignSlice t.master 0 (5 + nn)
          have hbehind : (t.master.assignSlice t.master 0 (5 + nn)).get (5 + nn) =
              t.master.get (5 + nn) := congrFun (t.master.cells_assignSlice_self _) _
          rw [hbehind, ← SequenceImpl.crc_toSequence, hpart]
          split <;> simp only [view, hpart]
        · rw [if_neg hcrc, if_neg hcrc]
          rfl

theorem view_createSlave {t : TelegramImpl} (h : t.slave.extended = false) :
    t.createSlave.view = (t.view.createSlave t.view.slave).1 := by
  have hlogical : t.slave.toSequence.extended = false := h
  have hself : t.slave.reduce = t.slave := by simp [SequenceImpl.reduce, h]
  simp only [createSlave, hself, Telegram.createSlave]
  change _ = t.view.checkSlave t.slave.toSequence.reduce
  rw [Sequence.reduce_of_logical hlogical, Telegram.checkSlave, slaveHeaderError_eq]
  cases hheader : Telegram.slaveHeaderError t.slave.toSequence with
  | some error => rfl
  | none =>
      obtain ⟨htwo, -, hlen⟩ := Telegram.slaveHeaderError_eq_none_iff.mp hheader
      rw [SequenceImpl.toSequence_size] at htwo hlen
      have hget {i : Nat} (hi : i < t.slave.size) :
          t.slave.toSequence.get i = t.slave.get i := SequenceImpl.get_toSequence hi
      rw [hget (by omega)] at hlen ⊢
      rw [SequenceImpl.toSequence_size]
      dsimp only
      generalize (t.slave.get 0).toNat = nn at hlen ⊢
      by_cases hexact : t.slave.size = 1 + nn
      · rw [if_pos hexact, if_pos hexact]
        have hpart := t.slave.toSequence_assignSlice t.slave 0 0
        have hsame : (t.slave.assignSlice t.slave 0 0).crc = t.slave.toSequence.crc := by
          rw [← SequenceImpl.crc_toSequence, hpart, Sequence.slice_all]
          rw [SequenceImpl.toSequence_size]
          omega
        simp only [view, hpart, hsame]
      · rw [if_neg hexact, if_neg hexact]
        by_cases hcrc : t.slave.size = 1 + nn + 1
        · rw [if_pos hcrc, if_pos hcrc, hget (i := 1 + nn) (by omega)]
          have hpart := t.slave.toSequence_assignSlice t.slave 0 (1 + nn)
          have hbehind : (t.slave.assignSlice t.slave 0 (1 + nn)).get (1 + nn) =
              t.slave.get (1 + nn) := congrFun (t.slave.cells_assignSlice_self _) _
          rw [hbehind, ← SequenceImpl.crc_toSequence, hpart]
          split <;> simp only [view, hpart]
        · rw [if_neg hcrc, if_neg hcrc]
          rfl

section Parts
variable {s : SequenceImpl} (t : TelegramImpl) (offset : Nat)

theorem extended_assignSlice (u : SequenceImpl) (len : Nat) (hlogical : s.extended = false) :
    (u.assignSlice s offset len).extended = false := by
  unfold SequenceImpl.assignSlice
  split <;> exact hlogical

/-- Every read of the sequence is guarded by its size. -/
theorem view_parseMasterPart (hlogical : s.extended = false) :
    (t.parseMasterPart s offset).map view id = t.view.parseMasterPart s.toSequence offset := by
  unfold parseMasterPart Telegram.parseMasterPart
  rw [checkMasterSequence_eq]
  dsimp only
  by_cases hstate : Telegram.checkMasterSequence s.toSequence offset = .seqOk
  · have hbounds := (Telegram.checkMasterSequence_bounds hstate).1
    rw [SequenceImpl.toSequence_size] at hbounds
    rw [if_neg (not_not.mpr hstate), if_neg (not_not.mpr hstate),
      SequenceImpl.get_toSequence (by omega), SequenceImpl.toSequence_size]
    generalize 5 + (s.get (offset + 4)).toNat + 1 = len
    generalize Telegram.checkMasterSequence s.toSequence offset = state
    have hread : (createMaster { t with masterState := state
                                        master := t.master.assignSlice s offset len }).view =
        (Telegram.createMaster { t.view with masterState := state
                                             master := s.toSequence.slice offset len }
          (s.toSequence.slice offset len)).1 := by
      rw [view_createMaster (extended_assignSlice offset t.master len hlogical)]
      simp only [view, SequenceImpl.toSequence_assignSlice]
    rw [← hread]
    generalize createMaster _ = u
    by_cases hok : u.masterState ≠ .seqOk
    · rw [if_pos hok, if_pos (show u.view.masterState ≠ .seqOk from hok)]
      rfl
    rw [if_neg hok, if_neg (show ¬ u.view.masterState ≠ .seqOk from hok)]
    by_cases hkind : u.telegramType ≠ .broadcast
    · rw [if_pos hkind, if_pos (show u.view.telegramType ≠ .broadcast from hkind)]
      by_cases hend : s.size ≤ offset + len
      · rw [if_pos hend, if_pos hend]
        rfl
      · rw [if_neg hend, if_neg hend, SequenceImpl.get_toSequence (by omega)]
        split <;> rfl
    · rw [if_neg hkind, if_neg (show ¬ u.view.telegramType ≠ .broadcast from hkind)]
      rfl
  · rw [if_pos hstate, if_pos hstate]
    rfl

theorem view_parseSlavePart (hlogical : s.extended = false) :
    (t.parseSlavePart s offset).map view id = t.view.parseSlavePart s.toSequence offset := by
  unfold parseSlavePart Telegram.parseSlavePart
  rw [checkSlaveSequence_eq]
  dsimp only
  by_cases hstate : Telegram.checkSlaveSequence s.toSequence offset = .seqOk
  · have hbounds := Telegram.checkSlaveSequence_bounds hstate
    rw [SequenceImpl.toSequence_size] at hbounds
    rw [if_neg (not_not.mpr hstate), if_neg (not_not.mpr hstate),
      SequenceImpl.get_toSequence (by omega), SequenceImpl.toSequence_size]
    generalize 1 + (s.get (offset + 0)).toNat + 1 = len
    generalize Telegram.checkSlaveSequence s.toSequence offset = state
    have hread : (createSlave { t with slaveState := state
                                       slave := t.slave.assignSlice s offset len }).view =
        (Telegram.createSlave { t.view with slaveState := state
                                            slave := s.toSequence.slice offset len }
          (s.toSequence.slice offset len)).1 := by
      rw [view_createSlave (extended_assignSlice offset t.slave len hlogical)]
      simp only [view, SequenceImpl.toSequence_assignSlice]
    rw [← hread]
    generalize createSlave _ = u
    by_cases hok : u.slaveState ≠ .seqOk
    · rw [if_pos hok, if_pos (show u.view.slaveState ≠ .seqOk from hok)]
      rfl
    rw [if_neg hok, if_neg (show ¬ u.view.slaveState ≠ .seqOk from hok)]
    by_cases hend : s.size ≤ offset + len
    · rw [if_pos hend, if_pos hend]
      rfl
    · rw [if_neg hend, if_neg hend, SequenceImpl.get_toSequence (by omega)]
      split <;> rfl
  · rw [if_pos hstate, if_pos hstate]
    rfl

theorem view_parseSlave (hlogical : s.extended = false) :
    (t.parseSlave s offset).view = t.view.parseSlave s.toSequence offset := by
  unfold parseSlave Telegram.parseSlave
  rw [← view_parseSlavePart t offset hlogical]
  cases t.parseSlavePart s offset with | mk u cursor =>
  cases cursor with
  | none => rfl
  | some cursor =>
      dsimp only [Prod.map, id_eq]
      by_cases hnak : u.slaveAck = Symbols.nak
      · rw [if_pos hnak, if_pos (show u.view.slaveAck = Symbols.nak from hnak),
          ← view_parseSlavePart u cursor hlogical]
        cases u.parseSlavePart s cursor with | mk v cursor =>
        cases cursor with
        | none => rfl
        | some cursor =>
            dsimp only [Prod.map, id_eq]
            by_cases hnak' : v.slaveAck = Symbols.nak
            · rw [if_pos hnak', if_pos (show v.view.slaveAck = Symbols.nak from hnak')]
              rfl
            · rw [if_neg hnak', if_neg (show ¬ v.view.slaveAck = Symbols.nak from hnak')]
      · rw [if_neg hnak, if_neg (show ¬ u.view.slaveAck = Symbols.nak from hnak)]

theorem view_parseRest (hlogical : s.extended = false) :
    (t.parseRest s offset).view = t.view.parseRest s.toSequence offset := by
  unfold parseRest Telegram.parseRest
  rw [← view_parseSlave t offset hlogical]
  change (if t.masterState ≠ .seqOk then t else
    if t.telegramType = .masterSlave then _ else t).view =
      if t.masterState ≠ .seqOk then t.view else
        if t.telegramType = .masterSlave then _ else t.view
  rw [apply_ite view, apply_ite view]

end Parts

/-- The decoder in its buffers computes what the bytes alone say. -/
theorem view_parse (t : TelegramImpl) (s : SequenceImpl) :
    (t.parse s).view = t.view.parse s.toSequence := by
  have hlogical : s.reduce.extended = false := by
    rw [← SequenceImpl.toSequence_extended, SequenceImpl.toSequence_reduce,
      Sequence.reduce_extended]
  unfold parse Telegram.parse
  rw [← SequenceImpl.toSequence_reduce, ← view_clear]
  dsimp only
  rw [← view_parseMasterPart t.clear 0 hlogical]
  cases t.clear.parseMasterPart s.reduce 0 with | mk u cursor =>
  cases cursor with
  | none => rfl
  | some cursor =>
      dsimp only [Prod.map, id_eq]
      by_cases hnak : u.telegramType ≠ .broadcast ∧ u.masterAck = Symbols.nak
      · have hnak' : u.view.telegramType ≠ .broadcast ∧ u.view.masterAck = Symbols.nak := hnak
        rw [if_pos hnak, if_pos hnak', ← view_parseMasterPart u cursor hlogical]
        cases u.parseMasterPart s.reduce cursor with | mk v cursor =>
        cases cursor with
        | none => rfl
        | some cursor =>
            dsimp only [Prod.map, id_eq]
            rw [view_parseRest _ _ hlogical]
            congr 1
            exact apply_ite view _ _ _
      · have hnak' : ¬ (u.view.telegramType ≠ .broadcast ∧ u.view.masterAck = Symbols.nak) := hnak
        rw [if_neg hnak, if_neg hnak', view_parseRest _ _ hlogical]

end TelegramImpl

end Ebus
