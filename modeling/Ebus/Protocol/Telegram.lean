import Ebus.Protocol.Sequence

/-!
# Telegrams

A telegram stores a master part `QQ ZZ PB SB NN DBx` and, for a master-slave
exchange, a slave part `NN DBx`, each with its check sum, its acknowledge byte
and the verdict of its check. `createMaster` and `createSlave` check one part;
`parse` is the batch decoder of a complete exchange.

`createMaster_cases` and `createSlave_cases` say once what the two checks can do
to a telegram; later proofs cite them and never unfold the checks.
-/

namespace Ebus

structure Telegram where
  telegramType : TelegramType := .undefined
  master : Sequence := {}
  masterNn : Nat := 0
  masterCrc : UInt8 := Symbols.zero
  masterAck : UInt8 := Symbols.zero
  masterState : SequenceState := .seqEmpty
  slave : Sequence := {}
  slaveNn : Nat := 0
  slaveCrc : UInt8 := Symbols.zero
  slaveAck : UInt8 := Symbols.zero
  slaveState : SequenceState := .seqEmpty
  deriving DecidableEq, Repr

namespace Telegram

/-- All fields at their initial values. -/
@[simp] def clear (_ : Telegram) : Telegram := {}

/-- The header checks that reject a reduced master part before it is stored. -/
def masterHeaderError (sequence : Sequence) : Option SequenceState :=
  if sequence.size < 5 then some .errSeqTooShort
  else if !isMaster (sequence.get 0) then some .errSourceAddress
  else if !isTarget (sequence.get 1) then some .errTargetAddress
  else if SequenceLimits.maxDataBytes < sequence.get 4 then some .errDataByte
  else if sequence.get 2 = Symbols.syn ∨ sequence.get 2 = Symbols.ext ∨
      sequence.get 3 = Symbols.syn ∨ sequence.get 3 = Symbols.ext then some .errDataByte
  else if sequence.size < 5 + (sequence.get 4).toNat then some .errSeqTooShort
  else none

/-- `createMaster` after its call of `reduce`, on the reduced sequence. -/
def checkMaster (t : Telegram) (sequence : Sequence) : Telegram :=
  match masterHeaderError sequence with
  | some error => { t with masterState := error }
  | none =>
      let nn := (sequence.get 4).toNat
      let t := { t with telegramType := typeOf (sequence.get 1), masterNn := nn }
      if sequence.size = 5 + nn then
        { t with master := sequence.slice 0 0, masterCrc := sequence.crc, masterState := .seqOk }
      else if sequence.size = 5 + nn + 1 then
        let part := sequence.slice 0 (5 + nn)
        let crc := sequence.get (5 + nn)
        { t with master := part, masterCrc := crc,
                 masterState := if part.crc ≠ crc then .errCrcInvalid else .seqOk }
      else { t with masterState := .errSeqTooLong }

/-- The check of a master part. The sequence is passed by reference and is left
in reduced form. -/
def createMaster (t : Telegram) (sequence : Sequence) : Telegram × Sequence :=
  (t.checkMaster sequence.reduce, sequence.reduce)

/-- The overload that builds the master part from an address and the rest. -/
def createMasterFrom (t : Telegram) (sourceAddress : UInt8) (data : List UInt8) : Telegram :=
  (t.createMaster { bytes := sourceAddress :: data }).1

/-- The checks of `createSlave` that reject a part before it is stored. -/
def slaveHeaderError (sequence : Sequence) : Option SequenceState :=
  if sequence.size < 2 then some .errSeqTooShort
  else if SequenceLimits.maxDataBytes < sequence.get 0 then some .errDataByte
  else if sequence.size < 1 + (sequence.get 0).toNat then some .errSeqTooShort
  else none

/-- `createSlave` after its call of `reduce`. -/
def checkSlave (t : Telegram) (sequence : Sequence) : Telegram :=
  match slaveHeaderError sequence with
  | some error => { t with slaveState := error }
  | none =>
      let nn := (sequence.get 0).toNat
      let t := { t with slaveNn := nn }
      if sequence.size = 1 + nn then
        { t with slave := sequence.slice 0 0, slaveCrc := sequence.crc, slaveState := .seqOk }
      else if sequence.size = 1 + nn + 1 then
        let part := sequence.slice 0 (1 + nn)
        let crc := sequence.get (1 + nn)
        { t with slave := part, slaveCrc := crc,
                 slaveState := if part.crc ≠ crc then .errCrcInvalid else .seqOk }
      else { t with slaveState := .errSeqTooLong }

def createSlave (t : Telegram) (sequence : Sequence) : Telegram × Sequence :=
  (t.checkSlave sequence.reduce, sequence.reduce)

def isValid (t : Telegram) : Bool :=
  if t.telegramType ≠ .masterSlave then t.masterState = .seqOk
  else t.masterState = .seqOk ∧ t.slaveState = .seqOk

/-- The length test counts from the start of the sequence, not from `offset`. -/
def checkMasterSequence (sequence : Sequence) (offset : Nat) : SequenceState :=
  if sequence.size < offset + 5 then .errSeqTooShort
  else if !isMaster (sequence.get (offset + 0)) then .errSourceAddress
  else if !isTarget (sequence.get (offset + 1)) then .errTargetAddress
  else if SequenceLimits.maxDataBytes < sequence.get (offset + 4) then .errDataByte
  else if sequence.size < 5 + (sequence.get (offset + 4)).toNat + 1 then
    .errSeqTooShort
  else .seqOk

def checkSlaveSequence (sequence : Sequence) (offset : Nat) : SequenceState :=
  if sequence.size < offset + 1 then .errSeqTooShort
  else if SequenceLimits.maxDataBytes < sequence.get (offset + 0) then .errDataByte
  else if sequence.size < offset + 1 + (sequence.get (offset + 0)).toNat + 1
    then .errSeqTooShort
  else .seqOk

/-- The master branch of `parseSequencePart`: the new cursor on success. The check
runs on `master_` itself; truncating it keeps the byte behind its end in place, so
the check sum it then reads is the one of the slice. -/
def parseMasterPart (t : Telegram) (sequence : Sequence) (offset : Nat) :
    Telegram × Option Nat :=
  let state := checkMasterSequence sequence offset
  if state ≠ .seqOk then ({ t with masterState := state }, none)
  else
    let len := 5 + (sequence.get (offset + 4)).toNat + 1
    let t := { t with masterState := state, master := sequence.slice offset len }
    let t := (t.createMaster t.master).1
    let offset := offset + len
    if t.masterState ≠ .seqOk then (t, none)
    else if t.telegramType ≠ .broadcast then
      if sequence.size ≤ offset then ({ t with masterState := .errAckMissing }, none)
      else
        let t := { t with masterAck := sequence.get offset }
        if t.masterAck ≠ Symbols.ack ∧ t.masterAck ≠ Symbols.nak then
          ({ t with masterState := .errAckInvalid }, none)
        else (t, some (offset + 1))
    else (t, some offset)

/-- The slave branch of `parseSequencePart`. -/
def parseSlavePart (t : Telegram) (sequence : Sequence) (offset : Nat) :
    Telegram × Option Nat :=
  let state := checkSlaveSequence sequence offset
  if state ≠ .seqOk then ({ t with slaveState := state }, none)
  else
    let len := 1 + (sequence.get (offset + 0)).toNat + 1
    let t := { t with slaveState := state, slave := sequence.slice offset len }
    let t := (t.createSlave t.slave).1
    let offset := offset + len
    if t.slaveState ≠ .seqOk then (t, none)
    else if sequence.size ≤ offset then ({ t with slaveState := .errAckMissing }, none)
    else
      let t := { t with slaveAck := sequence.get offset }
      if t.slaveAck ≠ Symbols.ack ∧ t.slaveAck ≠ Symbols.nak then
        ({ t with slaveState := .errAckInvalid }, none)
      else (t, some (offset + 1))

/-- The slave half of `parse`, entered with a valid master part. -/
def parseSlave (t : Telegram) (sequence : Sequence) (cursor : Nat) : Telegram :=
  match t.parseSlavePart sequence cursor with
  | (t, none) => t
  | (t, some cursor) =>
      if t.slaveAck = Symbols.nak then
        match t.parseSlavePart sequence cursor with
        | (t, none) => t
        | (t, some _) =>
            if t.slaveAck = Symbols.nak then { t with slaveState := .errAckNegative } else t
      else t

/-- What `parse` does behind its master part. -/
def parseRest (t : Telegram) (sequence : Sequence) (cursor : Nat) : Telegram :=
  if t.masterState ≠ .seqOk then t
  else if t.telegramType = .masterSlave then t.parseSlave sequence cursor
  else t

/-- Decode a whole exchange: a rejected first attempt is skipped, a second one is
a protocol failure. -/
def parse (t : Telegram) (sequence : Sequence) : Telegram :=
  let sequence := sequence.reduce
  match t.clear.parseMasterPart sequence 0 with
  | (t, none) => t
  | (t, some cursor) =>
      if t.telegramType ≠ .broadcast ∧ t.masterAck = Symbols.nak then
        match t.parseMasterPart sequence cursor with
        | (t, none) => t
        | (t, some cursor) =>
            let t := if t.masterAck = Symbols.nak then
              { t with masterState := .errAckNegative } else t
            t.parseRest sequence cursor
      else t.parseRest sequence cursor

end Telegram

/-- Decode raw bytes in wire format. -/
def makeTelegram (data : List UInt8) : Telegram :=
  ({} : Telegram).parse { bytes := data, extended := true }

/-- A logical master part: `QQ ZZ PB SB NN DBx` with `NN` data bytes. -/
structure MasterPart (part : List UInt8) : Prop where
  source : isMaster (part.getD 0 0) = true
  target : isTarget (part.getD 1 0) = true
  primary : Symbols.needsEscape (part.getD 2 0) = false
  secondary : Symbols.needsEscape (part.getD 3 0) = false
  count : (part.getD 4 0).toNat ≤ 16
  length : part.length = 5 + (part.getD 4 0).toNat

/-- A logical slave part: `NN DBx` with `NN` data bytes. -/
structure SlavePart (part : List UInt8) : Prop where
  count : (part.getD 0 0).toNat ≤ 16
  length : part.length = 1 + (part.getD 0 0).toNat

theorem MasterPart.length_bounds {part : List UInt8} (h : MasterPart part) :
    5 ≤ part.length ∧ part.length ≤ 21 := by
  have := h.count
  have := h.length
  omega

theorem SlavePart.length_bounds {part : List UInt8} (h : SlavePart part) :
    1 ≤ part.length ∧ part.length ≤ 17 := by
  have := h.count
  have := h.length
  omega

theorem MasterPart.ne_nil {part : List UInt8} (h : MasterPart part) : part ≠ [] := by
  rintro rfl
  have := h.length
  simp at this

theorem SlavePart.ne_nil {part : List UInt8} (h : SlavePart part) : part ≠ [] := by
  rintro rfl
  have := h.length
  simp at this

namespace Telegram

theorem not_maxDataBytes_lt_iff {byte : UInt8} :
    ¬ SequenceLimits.maxDataBytes < byte ↔ byte.toNat ≤ 16 := by
  rw [UInt8.not_lt, UInt8.le_iff_toNat_le]
  rfl

private theorem ite_some_eq_none {p : Prop} [Decidable p] {e : SequenceState}
    {rest : Option SequenceState} :
    (if p then some e else rest) = none ↔ ¬ p ∧ rest = none := by
  by_cases hp : p <;> simp [hp]

theorem checkMasterSequence_bounds {s : Sequence} {offset : Nat}
    (h : checkMasterSequence s offset = .seqOk) :
    offset + 5 ≤ s.size ∧ 5 + (s.get (offset + 4)).toNat + 1 ≤ s.size := by
  unfold checkMasterSequence at h
  split_ifs at h
  omega

theorem checkSlaveSequence_bounds {s : Sequence} {offset : Nat}
    (h : checkSlaveSequence s offset = .seqOk) :
    offset + 1 + (s.get offset).toNat + 1 ≤ s.size := by
  simp only [checkSlaveSequence, Nat.add_zero] at h
  split_ifs at h
  omega

/-- The header checks pass exactly for a header with enough data behind it. -/
theorem masterHeaderError_eq_none_iff {s : Sequence} :
    masterHeaderError s = none ↔
      isMaster (s.get 0) = true ∧ isTarget (s.get 1) = true ∧
      Symbols.needsEscape (s.get 2) = false ∧ Symbols.needsEscape (s.get 3) = false ∧
      (s.get 4).toNat ≤ 16 ∧ 5 + (s.get 4).toNat ≤ s.size := by
  rw [needsEscape_eq_false_iff, needsEscape_eq_false_iff, ← not_maxDataBytes_lt_iff]
  simp only [masterHeaderError, ite_some_eq_none, Bool.not_eq_true',
    Bool.not_eq_false, not_or, and_true]
  constructor
  · rintro ⟨-, hq, hz, hn, ⟨hp, hp', hb, hb'⟩, hlen⟩
    exact ⟨hq, hz, ⟨hp, hp'⟩, ⟨hb, hb'⟩, hn, by omega⟩
  · rintro ⟨hq, hz, ⟨hp, hp'⟩, ⟨hb, hb'⟩, hn, hlen⟩
    exact ⟨by omega, hq, hz, hn, ⟨hp, hp', hb, hb'⟩, by omega⟩

/-- A rejected header is neither accepted nor a check sum error. -/
theorem masterHeaderError_ne {s : Sequence} {error : SequenceState}
    (h : masterHeaderError s = some error) :
    error = .errSeqTooShort ∨ error = .errSourceAddress ∨ error = .errTargetAddress ∨
      error = .errDataByte := by
  simp only [masterHeaderError] at h
  repeat' split at h
  all_goals simp_all

/-- The states in which a master part is stored in the telegram. -/
def Stored (state : SequenceState) : Prop := state = .seqOk ∨ state = .errCrcInvalid

instance (state : SequenceState) : Decidable (Stored state) :=
  inferInstanceAs (Decidable (_ ∨ _))

/-- What `checkMaster` can do: reject the header, reject a part that is too long,
or store the part with the verdict of its check sum. -/
theorem checkMaster_cases (t : Telegram) {s : Sequence} (hs : s.extended = false) :
    (∃ error, ¬ Stored error ∧ error ≠ .seqEmpty ∧
      t.checkMaster s = { t with masterState := error }) ∨
    (t.checkMaster s = { t with masterState := .errSeqTooLong,
                                telegramType := typeOf (s.get 1),
                                masterNn := (s.get 4).toNat }) ∨
    (∃ part crc state, MasterPart part ∧ Stored state ∧
      (s.bytes = part ∧ crc = Sequence.calculateCRC part false ∧ state = .seqOk ∨
        s.bytes = part ++ [crc] ∧
          (state = .seqOk ↔ crc = Sequence.calculateCRC part false)) ∧
      t.checkMaster s = { t with masterState := state, telegramType := typeOf (part.getD 1 0),
                                 masterNn := (part.getD 4 0).toNat, master := { bytes := part },
                                 masterCrc := crc }) := by
  cases herr : masterHeaderError s with
  | some error =>
      refine .inl ⟨error, ?_, ?_, by rw [checkMaster, herr]⟩
      · obtain rfl | rfl | rfl | rfl := masterHeaderError_ne herr <;> decide
      · obtain rfl | rfl | rfl | rfl := masterHeaderError_ne herr <;> decide
  | none =>
      obtain ⟨hq, hz, hp, hb, hn, hlen⟩ := masterHeaderError_eq_none_iff.mp herr
      by_cases hexact : s.size = 5 + (s.get 4).toNat
      · -- exactly header and data: the check sum is computed, not compared
        refine .inr (.inr ⟨s.bytes, _, .seqOk, ⟨hq, hz, hp, hb, hn, hexact⟩, .inl rfl,
          .inl ⟨rfl, rfl, rfl⟩, ?_⟩)
        rw [checkMaster, herr]
        simp only [if_pos hexact, Sequence.slice_all (by omega : 0 < s.size), Sequence.crc, hs]
        rw [← hs]
        rfl
      · by_cases hcrc : s.size = 5 + (s.get 4).toNat + 1
        · -- one byte more: it is the received check sum
          have hget : ∀ i, i < 5 → (s.bytes.take (5 + (s.get 4).toNat)).getD i 0 = s.get i :=
            fun i hi => Sequence.getD_take (by omega)
          have hslice := Sequence.slice_zero (s := s) (n := 5 + (s.get 4).toNat)
            (by omega) (by omega)
          refine .inr (.inr ⟨s.bytes.take (5 + (s.get 4).toNat), s.get (5 + (s.get 4).toNat),
            if (s.slice 0 (5 + (s.get 4).toNat)).crc ≠ s.get (5 + (s.get 4).toNat)
              then .errCrcInvalid else .seqOk, ?_, ?_,
            .inr ⟨Sequence.bytes_eq_take_concat hcrc, ?_⟩, ?_⟩)
          · refine ⟨?_, ?_, ?_, ?_, ?_, ?_⟩
            · rwa [hget 0 (by omega)]
            · rwa [hget 1 (by omega)]
            · rwa [hget 2 (by omega)]
            · rwa [hget 3 (by omega)]
            · rwa [hget 4 (by omega)]
            · rw [hget 4 (by omega), List.length_take]
              change min _ s.size = _
              omega
          · split
            · exact .inr rfl
            · exact .inl rfl
          · rw [hslice, Sequence.crc, hs]
            split
            · rename_i hne
              simpa using Ne.symm hne
            · rename_i heq
              simpa using (not_not.mp heq).symm
          · rw [checkMaster, herr, hget 1 (by omega), hget 4 (by omega)]
            simp only [if_neg hexact, if_pos hcrc]
            rw [hslice, hs]
        · refine .inr (.inl ?_)
          rw [checkMaster, herr]
          simp only [if_neg hexact, if_neg hcrc]

theorem slaveHeaderError_eq_none_iff {s : Sequence} :
    slaveHeaderError s = none ↔
      2 ≤ s.size ∧ (s.get 0).toNat ≤ 16 ∧ 1 + (s.get 0).toNat ≤ s.size := by
  rw [← not_maxDataBytes_lt_iff]
  simp only [slaveHeaderError, ite_some_eq_none, and_true, Nat.not_lt]

theorem slaveHeaderError_ne {s : Sequence} {error : SequenceState}
    (h : slaveHeaderError s = some error) :
    error = .errSeqTooShort ∨ error = .errDataByte := by
  simp only [slaveHeaderError] at h
  repeat' split at h
  all_goals simp_all

/-- What `checkSlave` can do: reject the part, or store it with the verdict of its
check sum. The master half of the telegram is never touched. -/
theorem checkSlave_cases (t : Telegram) {s : Sequence} (hs : s.extended = false) :
    (∃ error nn, ¬ Stored error ∧ error ≠ .seqEmpty ∧
      t.checkSlave s = { t with slaveState := error, slaveNn := nn }) ∨
    (∃ part crc state, SlavePart part ∧ Stored state ∧
      (s.bytes = part ∧ crc = Sequence.calculateCRC part false ∧ state = .seqOk ∨
        s.bytes = part ++ [crc] ∧
          (state = .seqOk ↔ crc = Sequence.calculateCRC part false)) ∧
      t.checkSlave s = { t with slaveState := state, slaveNn := (part.getD 0 0).toNat,
                                slave := { bytes := part }, slaveCrc := crc }) := by
  cases herr : slaveHeaderError s with
  | some error =>
      refine .inl ⟨error, t.slaveNn, ?_, ?_, by rw [checkSlave, herr]⟩
      · obtain rfl | rfl := slaveHeaderError_ne herr <;> decide
      · obtain rfl | rfl := slaveHeaderError_ne herr <;> decide
  | none =>
      obtain ⟨htwo, hn, hlen⟩ := slaveHeaderError_eq_none_iff.mp herr
      by_cases hexact : s.size = 1 + (s.get 0).toNat
      · refine .inr ⟨s.bytes, _, .seqOk, ⟨hn, hexact⟩, .inl rfl, .inl ⟨rfl, rfl, rfl⟩, ?_⟩
        rw [checkSlave, herr]
        simp only [if_pos hexact, Sequence.slice_all (by omega : 0 < s.size), Sequence.crc, hs]
        rw [← hs]
        rfl
      · by_cases hcrc : s.size = 1 + (s.get 0).toNat + 1
        · have hget : (s.bytes.take (1 + (s.get 0).toNat)).getD 0 0 = s.get 0 :=
            Sequence.getD_take (by omega)
          have hslice := Sequence.slice_zero (s := s) (n := 1 + (s.get 0).toNat)
            (by omega) (by omega)
          refine .inr ⟨s.bytes.take (1 + (s.get 0).toNat), s.get (1 + (s.get 0).toNat),
            if (s.slice 0 (1 + (s.get 0).toNat)).crc ≠ s.get (1 + (s.get 0).toNat)
              then .errCrcInvalid else .seqOk, ?_, ?_,
            .inr ⟨Sequence.bytes_eq_take_concat hcrc, ?_⟩, ?_⟩
          · refine ⟨by rwa [hget], ?_⟩
            rw [hget, List.length_take]
            change min _ s.size = _
            omega
          · split
            · exact .inr rfl
            · exact .inl rfl
          · rw [hslice, Sequence.crc, hs]
            split
            · rename_i hne
              simpa using Ne.symm hne
            · rename_i heq
              simpa using (not_not.mp heq).symm
          · rw [checkSlave, herr, hget]
            simp only [if_neg hexact, if_pos hcrc]
            rw [hslice, hs]
        · refine .inl ⟨.errSeqTooLong, (s.get 0).toNat, by decide, by decide, ?_⟩
          rw [checkSlave, herr]
          simp only [if_neg hexact, if_neg hcrc]

theorem getD_concat {part : List UInt8} {last : UInt8} {i : Nat} (h : i < part.length) :
    (part ++ [last]).getD i 0 = part.getD i 0 := by
  simp [List.getD_eq_getElem?_getD, List.getElem?_append_left h]

/-- A well-formed master part with one byte behind it: that byte is taken for its check sum. -/
theorem checkMaster_concat (t : Telegram) {part : List UInt8} (h : MasterPart part)
    (crc : UInt8) :
    t.checkMaster { bytes := part ++ [crc] } =
      { t with masterState := if Sequence.calculateCRC part false ≠ crc then .errCrcInvalid
                 else .seqOk
               telegramType := typeOf (part.getD 1 0), masterNn := (part.getD 4 0).toNat
               master := { bytes := part }, masterCrc := crc } := by
  obtain ⟨hlow, -⟩ := h.length_bounds
  have hget : ∀ i, i < 5 → ({ bytes := part ++ [crc] } : Sequence).get i = part.getD i 0 :=
    fun i hi => getD_concat (by omega)
  have hsize : ({ bytes := part ++ [crc] } : Sequence).size = 5 + (part.getD 4 0).toNat + 1 := by
    simp [Sequence.size, h.length]
  have herr : masterHeaderError { bytes := part ++ [crc] } = none := by
    rw [masterHeaderError_eq_none_iff, hsize, hget 0 (by omega), hget 1 (by omega),
      hget 2 (by omega), hget 3 (by omega), hget 4 (by omega)]
    exact ⟨h.source, h.target, h.primary, h.secondary, h.count, by omega⟩
  have hslice := Sequence.slice_zero (s := { bytes := part ++ [crc] })
    (n := 5 + (part.getD 4 0).toNat) (by omega) (by omega)
  have htake : (part ++ [crc]).take (5 + (part.getD 4 0).toNat) = part := by
    rw [← h.length, List.take_left]
  have hcrc : ({ bytes := part ++ [crc] } : Sequence).get (5 + (part.getD 4 0).toNat) = crc := by
    rw [← h.length]
    simp [Sequence.get]
  rw [checkMaster, herr]
  simp only [hget 1 (by omega), hget 4 (by omega), hsize]
  rw [if_neg (by omega), if_pos trivial, hslice, hcrc]
  simp only [htake, Sequence.crc]

/-- A well-formed master part followed by its check sum is accepted. -/
theorem checkMaster_of_part (t : Telegram) {part : List UInt8} (h : MasterPart part) :
    t.checkMaster { bytes := part ++ [Sequence.calculateCRC part false] } =
      { t with masterState := .seqOk, telegramType := typeOf (part.getD 1 0),
               masterNn := (part.getD 4 0).toNat, master := { bytes := part },
               masterCrc := Sequence.calculateCRC part false } := by
  rw [checkMaster_concat t h, if_neg (by simp)]

/-- Without a check sum it is accepted as well. -/
theorem checkMaster_bare (t : Telegram) {part : List UInt8} (h : MasterPart part) :
    t.checkMaster { bytes := part } =
      { t with masterState := .seqOk, telegramType := typeOf (part.getD 1 0),
               masterNn := (part.getD 4 0).toNat, master := { bytes := part },
               masterCrc := Sequence.calculateCRC part false } := by
  obtain ⟨hlow, -⟩ := h.length_bounds
  have hsize : ({ bytes := part } : Sequence).size = 5 + (part.getD 4 0).toNat := h.length
  have herr : masterHeaderError { bytes := part } = none :=
    masterHeaderError_eq_none_iff.mpr
      ⟨h.source, h.target, h.primary, h.secondary, h.count, Nat.le_of_eq hsize.symm⟩
  have hall := Sequence.slice_all (s := { bytes := part }) (by omega)
  have hget (i : Nat) : ({ bytes := part } : Sequence).get i = part.getD i 0 := rfl
  rw [checkMaster, herr]
  simp only [hget, hsize, if_true, hall, Sequence.crc]

/-- A well-formed slave part with one byte behind it. -/
theorem checkSlave_concat (t : Telegram) {part : List UInt8} (h : SlavePart part) (crc : UInt8) :
    t.checkSlave { bytes := part ++ [crc] } =
      { t with slaveState := if Sequence.calculateCRC part false ≠ crc then .errCrcInvalid
                 else .seqOk
               slaveNn := (part.getD 0 0).toNat, slave := { bytes := part }
               slaveCrc := crc } := by
  obtain ⟨hlow, -⟩ := h.length_bounds
  have hget : ({ bytes := part ++ [crc] } : Sequence).get 0 = part.getD 0 0 :=
    getD_concat (by omega)
  have hsize : ({ bytes := part ++ [crc] } : Sequence).size = 1 + (part.getD 0 0).toNat + 1 := by
    simp [Sequence.size, h.length]
  have herr : slaveHeaderError { bytes := part ++ [crc] } = none := by
    rw [slaveHeaderError_eq_none_iff, hsize, hget]
    exact ⟨by omega, h.count, by omega⟩
  have hslice := Sequence.slice_zero (s := { bytes := part ++ [crc] })
    (n := 1 + (part.getD 0 0).toNat) (by omega) (by omega)
  have htake : (part ++ [crc]).take (1 + (part.getD 0 0).toNat) = part := by
    rw [← h.length, List.take_left]
  have hcrc : ({ bytes := part ++ [crc] } : Sequence).get (1 + (part.getD 0 0).toNat) = crc := by
    rw [← h.length]
    simp [Sequence.get]
  rw [checkSlave, herr]
  simp only [hget, hsize]
  rw [if_neg (by omega), if_pos trivial, hslice, hcrc]
  simp only [htake, Sequence.crc]

/-- A well-formed slave part followed by its check sum is accepted. -/
theorem checkSlave_of_part (t : Telegram) {part : List UInt8} (h : SlavePart part) :
    t.checkSlave { bytes := part ++ [Sequence.calculateCRC part false] } =
      { t with slaveState := .seqOk, slaveNn := (part.getD 0 0).toNat,
               slave := { bytes := part }, slaveCrc := Sequence.calculateCRC part false } := by
  rw [checkSlave_concat t h, if_neg (by simp)]

/-- Without a check sum it has to hold a data byte. -/
theorem checkSlave_bare (t : Telegram) {part : List UInt8} (h : SlavePart part)
    (htwo : 2 ≤ part.length) :
    t.checkSlave { bytes := part } =
      { t with slaveState := .seqOk, slaveNn := (part.getD 0 0).toNat,
               slave := { bytes := part }, slaveCrc := Sequence.calculateCRC part false } := by
  have hsize : ({ bytes := part } : Sequence).size = 1 + (part.getD 0 0).toNat := h.length
  have herr : slaveHeaderError { bytes := part } = none :=
    slaveHeaderError_eq_none_iff.mpr ⟨htwo, h.count, Nat.le_of_eq hsize.symm⟩
  have hall := Sequence.slice_all (s := { bytes := part }) (by omega)
  have hget (i : Nat) : ({ bytes := part } : Sequence).get i = part.getD i 0 := rfl
  rw [checkSlave, herr]
  simp only [hget, hsize, if_true, hall, Sequence.crc]

@[simp] theorem createMaster_snd (t : Telegram) (s : Sequence) :
    (t.createMaster s).2 = s.reduce := rfl

@[simp] theorem createSlave_snd (t : Telegram) (s : Sequence) :
    (t.createSlave s).2 = s.reduce := rfl

section CreateSlave

variable (t : Telegram) (s : Sequence)

/-- The check of a slave part leaves the master half alone. -/
private theorem createSlave_keeps :
    (t.createSlave s).1.masterState = t.masterState ∧
    (t.createSlave s).1.telegramType = t.telegramType ∧
    (t.createSlave s).1.master = t.master ∧
    (t.createSlave s).1.masterCrc = t.masterCrc := by
  obtain ⟨_, _, -, -, heq⟩ | ⟨_, _, _, -, -, -, heq⟩ := checkSlave_cases t s.reduce_extended
  · rw [createSlave, heq]
    exact ⟨rfl, rfl, rfl, rfl⟩
  · rw [createSlave, heq]
    exact ⟨rfl, rfl, rfl, rfl⟩

@[simp] theorem createSlave_masterState : (t.createSlave s).1.masterState = t.masterState :=
  (createSlave_keeps t s).1

@[simp] theorem createSlave_telegramType : (t.createSlave s).1.telegramType = t.telegramType :=
  (createSlave_keeps t s).2.1

@[simp] theorem createSlave_master : (t.createSlave s).1.master = t.master :=
  (createSlave_keeps t s).2.2.1

@[simp] theorem createSlave_masterCrc : (t.createSlave s).1.masterCrc = t.masterCrc :=
  (createSlave_keeps t s).2.2.2

end CreateSlave

/-- The telegram without its slave part. -/
def masterHalf (t : Telegram) : Telegram :=
  { t with slave := {}, slaveNn := 0, slaveCrc := Symbols.zero, slaveAck := Symbols.zero
           slaveState := .seqEmpty }

/-- The telegram without its master part. -/
def slaveHalf (t : Telegram) : Telegram :=
  { t with telegramType := .undefined, master := {}, masterNn := 0, masterCrc := Symbols.zero
           masterAck := Symbols.zero, masterState := .seqEmpty }

@[simp] theorem masterHalf_empty : masterHalf {} = {} := rfl

@[simp] theorem slaveHalf_empty : slaveHalf {} = {} := rfl

@[simp] theorem createSlave_masterHalf (t : Telegram) (s : Sequence) :
    (t.createSlave s).1.masterHalf = t.masterHalf := by
  obtain ⟨_, _, -, -, heq⟩ | ⟨_, _, _, -, -, -, heq⟩ := checkSlave_cases t s.reduce_extended <;>
    rw [createSlave, heq] <;> rfl

@[simp] theorem createMaster_slaveHalf (t : Telegram) (s : Sequence) :
    (t.createMaster s).1.slaveHalf = t.slaveHalf := by
  obtain ⟨_, -, -, heq⟩ | heq | ⟨_, _, _, -, -, -, heq⟩ :=
    checkMaster_cases t s.reduce_extended <;> rw [createMaster, heq] <;> rfl

theorem eq_empty_of_halves {t : Telegram} (hm : t.masterHalf = {}) (hs : t.slaveHalf = {}) :
    t = {} := by
  cases t
  simp_all [masterHalf, slaveHalf]

/-- What a telegram holds at any time: a stored master part is well formed, its check
sum is right when the verdict says so, and a slave part is well formed or absent. -/
structure WellFormed (t : Telegram) : Prop where
  master : Stored t.masterState → MasterPart t.master.bytes
  crc : t.masterState = .seqOk → t.masterCrc = Sequence.calculateCRC t.master.bytes false
  kind : t.masterState = .seqOk → t.telegramType = typeOf (t.master.bytes.getD 1 0)
  logical : t.master.extended = false
  slave : t.slave.bytes = [] ∨ SlavePart t.slave.bytes

@[simp] theorem wellFormed_empty : WellFormed {} := by
  constructor <;> simp [Stored]

theorem WellFormed.createMaster {t : Telegram} (h : t.WellFormed) (s : Sequence) :
    (t.createMaster s).1.WellFormed := by
  rw [Telegram.createMaster]
  obtain ⟨error, hbad, -, heq⟩ | heq | ⟨part, crc, state, hpart, hstored, hbytes, heq⟩ :=
    checkMaster_cases t s.reduce_extended
  · rw [heq]
    exact ⟨fun hs => absurd hs hbad, fun hs => absurd (.inl hs) hbad,
      fun hs => absurd (.inl hs) hbad, h.logical, h.slave⟩
  · rw [heq]
    exact ⟨by simp [Stored], by simp, by simp, h.logical, h.slave⟩
  · rw [heq]
    refine ⟨fun _ => hpart, ?_, fun _ => rfl, rfl, h.slave⟩
    intro hok
    obtain ⟨-, hcrc, -⟩ | ⟨-, hcrc⟩ := hbytes
    · exact hcrc
    · exact hcrc.mp hok

theorem WellFormed.createSlave {t : Telegram} (h : t.WellFormed) (s : Sequence) :
    (t.createSlave s).1.WellFormed := by
  refine ⟨by simpa using h.master, by simpa using h.crc, by simpa using h.kind,
    by simpa using h.logical, ?_⟩
  obtain ⟨_, _, -, -, heq⟩ | ⟨part, _, _, hpart, -, -, heq⟩ := checkSlave_cases t s.reduce_extended
  · rw [Telegram.createSlave, heq]
    exact h.slave
  · rw [Telegram.createSlave, heq]
    exact .inr hpart

/-- An accepted master part, and what was received of it. -/
theorem createMaster_seqOk {t : Telegram} {s : Sequence}
    (h : (t.createMaster s).1.masterState = .seqOk) :
    s.reduce.bytes = (t.createMaster s).1.master.bytes ∨
      s.reduce.bytes = (t.createMaster s).1.master.bytes ++
        [Sequence.calculateCRC (t.createMaster s).1.master.bytes false] := by
  rw [createMaster] at h ⊢
  obtain ⟨error, hbad, -, heq⟩ | heq | ⟨part, crc, state, -, -, hbytes, heq⟩ :=
    checkMaster_cases t s.reduce_extended
  · rw [heq] at h
    exact absurd (.inl h) hbad
  · rw [heq] at h
    cases h
  · rw [heq] at h ⊢
    obtain ⟨hbytes, -, -⟩ | ⟨hbytes, hcrc⟩ := hbytes
    · exact .inl hbytes
    · rw [hcrc.mp h] at hbytes
      exact .inr hbytes

/-- An accepted slave part, and what was received of it. -/
theorem createSlave_seqOk {t : Telegram} {s : Sequence}
    (h : (t.createSlave s).1.slaveState = .seqOk) :
    SlavePart (t.createSlave s).1.slave.bytes ∧
    (s.reduce.bytes = (t.createSlave s).1.slave.bytes ∨
      s.reduce.bytes = (t.createSlave s).1.slave.bytes ++
        [Sequence.calculateCRC (t.createSlave s).1.slave.bytes false]) := by
  rw [createSlave] at h ⊢
  obtain ⟨error, _, hbad, -, heq⟩ | ⟨part, crc, state, hpart, -, hbytes, heq⟩ :=
    checkSlave_cases t s.reduce_extended
  · rw [heq] at h
    exact absurd (.inl h) hbad
  · rw [heq] at h ⊢
    refine ⟨hpart, ?_⟩
    obtain ⟨hbytes, -, -⟩ | ⟨hbytes, hcrc⟩ := hbytes
    · exact .inl hbytes
    · rw [hcrc.mp h] at hbytes
      exact .inr hbytes

end Telegram

end Ebus
