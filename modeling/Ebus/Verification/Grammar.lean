import Ebus.Protocol.Dialogue
import Ebus.Protocol.Storage
import Ebus.Verification.Parts

/-!
# The grammar of the batch decoder

A complete exchange is a broadcast, a message to a master, or a message to a slave with its
answer; each acknowledged part may follow one attempt that was rejected. The decoder accepts
exactly the sequences that begin with one.

The length test of a repeated master part counts from the start of the sequence. What it
lets through is short of its check sum, and its acknowledge is missing; a repeated broadcast
has none, and is rejected with the acknowledge of the first attempt.
-/

namespace Ebus

namespace Telegram

/-- A complete exchange, with its master part and its slave part. -/
inductive Exchange : List UInt8 → List UInt8 → List UInt8 → Prop
  | broadcast {master : List UInt8} (hmaster : MasterPart master)
      (htarget : master.getD 1 0 = Symbols.broad) : Exchange (checked master) master []
  | masterMaster {attempt master : List UInt8} (hattempt : MasterAttempt attempt)
      (hmaster : MasterPart master) (htarget : isMaster (master.getD 1 0) = true) :
      Exchange (attempt ++ (checked master ++ [Symbols.ack])) master []
  | masterSlave {attempt master attempt' slave : List UInt8} (hattempt : MasterAttempt attempt)
      (hmaster : MasterPart master) (htarget : isSlave (master.getD 1 0) = true)
      (hattempt' : SlaveAttempt attempt') (hslave : SlavePart slave) :
      Exchange (attempt ++ (checked master ++ Symbols.ack ::
        (attempt' ++ (checked slave ++ [Symbols.ack])))) master slave

theorem typeOf_eq_broadcast_iff {byte : UInt8} :
    typeOf byte = .broadcast ↔ byte = Symbols.broad := by
  unfold typeOf
  split
  · rename_i h
    exact iff_of_true rfl h
  · rename_i h
    refine iff_of_false ?_ h
    split <;> decide

theorem ne_broad_of_isMaster {byte : UInt8} (h : isMaster byte = true) :
    byte ≠ Symbols.broad := by
  rintro rfl
  revert h
  decide

theorem typeOf_of_isMaster {byte : UInt8} (h : isMaster byte = true) :
    typeOf byte = .masterMaster := by
  rw [typeOf, if_neg (ne_broad_of_isMaster h), if_pos h]

theorem typeOf_of_isSlave {byte : UInt8} (h : isSlave byte = true) :
    typeOf byte = .masterSlave := by
  simp only [isSlave, Bool.and_eq_true, Bool.not_eq_true', bne_iff_ne] at h
  rw [typeOf, if_neg h.2, if_neg (by rw [h.1.1.1]; decide)]

theorem not_isSlave_of_isMaster {byte : UInt8} (h : isMaster byte = true) :
    ¬ isSlave byte = true := by
  simp [isSlave, h]

/-- A target is one of three, and decides which of the forms its part opens. -/
theorem target_cases {byte : UInt8} (h : isTarget byte = true) :
    byte = Symbols.broad ∨ isMaster byte = true ∨ isSlave byte = true := by
  obtain ⟨hsyn, hext⟩ := isTarget_iff.mp h
  by_cases hbroad : byte = Symbols.broad
  · exact .inl hbroad
  · cases hmaster : isMaster byte with
    | true => exact .inr (.inl rfl)
    | false => exact .inr (.inr (by simp [isSlave, hmaster, hsyn, hext, hbroad]))

/-- The telegram of an exchange. -/
def accepted (master slave : List UInt8) : Telegram :=
  if isSlave (master.getD 1 0) then (withMaster {} master Symbols.ack).withSlave slave Symbols.ack
  else withMaster {} master Symbols.ack

theorem isValid_accepted {master : List UInt8} (hmaster : MasterPart master)
    (slave : List UInt8) : (accepted master slave).isValid = true := by
  unfold accepted isValid
  obtain hbroad | htarget | htarget := target_cases hmaster.target
  · have hnot : ¬ isSlave (master.getD 1 0) = true := by
      rw [hbroad]
      decide
    rw [if_neg hnot, withMaster_telegramType, typeOf_eq_broadcast_iff.mpr hbroad]
    rfl
  · rw [if_neg (not_isSlave_of_isMaster htarget), withMaster_telegramType,
      typeOf_of_isMaster htarget]
    rfl
  · rw [if_pos htarget]
    simp [withSlave, withMaster]

theorem accepted_master (master slave : List UInt8) :
    (accepted master slave).master = { bytes := master } := by
  unfold accepted
  split <;> rfl

theorem parse_exchange (t : Telegram) {s : Sequence} {front rest master slave : List UInt8}
    (h : Exchange front master slave) (hs : s.reduce.bytes = front ++ rest) :
    t.parse s = accepted master slave := by
  cases h with
  | broadcast hmaster htarget =>
      have hnot : ¬ isSlave (master.getD 1 0) = true := by
        rw [htarget]
        decide
      rw [accepted, if_neg hnot]
      exact t.parse_broadcast hmaster hs (typeOf_eq_broadcast_iff.mpr htarget)
  | masterMaster hattempt hmaster htarget =>
      have hnot := not_isSlave_of_isMaster htarget
      have hkind := typeOf_of_isMaster htarget
      rw [List.append_assoc, List.append_assoc, List.singleton_append] at hs
      rw [accepted, if_neg hnot, t.parse_of_masterAttempt hattempt hmaster hs
        (by rw [hkind]; decide), parseRest_withMaster, hkind, if_neg (by decide)]
  | @masterSlave attempt _ attempt' _ hattempt hmaster htarget hattempt' hslave =>
      have hkind := typeOf_of_isSlave htarget
      rw [List.append_assoc, List.append_assoc, List.cons_append, List.append_assoc,
        List.append_assoc, List.singleton_append] at hs
      have hrest : s.reduce.bytes = attempt ++ checked master ++ [Symbols.ack] ++
          (attempt' ++ (checked slave ++ Symbols.ack :: rest)) := by
        rw [hs]
        simp
      rw [accepted, if_pos htarget, t.parse_of_masterAttempt hattempt hmaster hs
        (by rw [hkind]; decide), parseRest_withMaster, hkind, if_pos rfl]
      exact parseSlave_of_slaveAttempt _ hattempt' hslave hrest s.reduce_extended

theorem accepted_slave {front master slave : List UInt8} (h : Exchange front master slave) :
    (accepted master slave).slave = { bytes := slave } := by
  cases h with
  | broadcast hmaster htarget =>
      rw [accepted, htarget]
      rfl
  | masterMaster hattempt hmaster htarget =>
      rw [accepted, if_neg (not_isSlave_of_isMaster htarget)]
      rfl
  | masterSlave hattempt hmaster htarget hattempt' hslave =>
      rw [accepted, if_pos htarget]
      rfl

theorem Exchange.masterPart {front master slave : List UInt8} (h : Exchange front master slave) :
    MasterPart master := by
  cases h <;> assumption

section Reading

variable {t : Telegram} {s : Sequence} {offset cursor : Nat}

theorem slice_eq (hoffset : offset < s.size) {len : Nat} (hlen : 0 < len) :
    s.slice offset len = { bytes := (s.bytes.drop offset).take len, extended := s.extended } := by
  have hsize : s.size = s.bytes.length := rfl
  rw [Sequence.slice, if_neg (by omega)]
  by_cases hlong : s.size < offset + len
  · simp only [if_pos (Or.inr hlong)]
    rw [hsize, ← List.length_drop, List.take_length, List.take_of_length_le]
    rw [List.length_drop]
    omega
  · rw [if_neg]
    omega

theorem getD_take_drop (s : Sequence) {i len : Nat} (hi : i < len) (offset : Nat) :
    ((s.bytes.drop offset).take len).getD i 0 = s.get (offset + i) := by
  rw [List.getD_eq_getElem?_getD, List.getElem?_take_of_lt hi, List.getElem?_drop, Sequence.get,
    List.getD_eq_getElem?_getD]

/-- The master part that the decoder stores at an offset, with the verdict of its check. -/
def readMaster (t : Telegram) (s : Sequence) (offset : Nat) : Telegram :=
  let part := s.slice offset (5 + (s.get (offset + 4)).toNat + 1)
  ({ t with masterState := .seqOk, master := part }.createMaster part).1

def readSlave (t : Telegram) (s : Sequence) (offset : Nat) : Telegram :=
  let part := s.slice offset (1 + (s.get offset).toNat + 1)
  ({ t with slaveState := .seqOk, slave := part }.createSlave part).1

/-- A master part is turned away, or stored and, unless it is a broadcast, followed by an
acknowledge. -/
theorem parseMasterPart_cases (t : Telegram) (s : Sequence) (offset : Nat) :
    (∃ u, t.parseMasterPart s offset = (u, none) ∧ u.masterState ≠ .seqOk) ∨
    (checkMasterSequence s offset = .seqOk ∧ (t.readMaster s offset).masterState = .seqOk ∧
      ((t.readMaster s offset).telegramType = .broadcast ∧
          t.parseMasterPart s offset =
            (t.readMaster s offset, some (offset + (5 + (s.get (offset + 4)).toNat + 1))) ∨
        offset + (5 + (s.get (offset + 4)).toNat + 1) < s.size ∧
        (s.get (offset + (5 + (s.get (offset + 4)).toNat + 1)) = Symbols.ack ∨
          s.get (offset + (5 + (s.get (offset + 4)).toNat + 1)) = Symbols.nak) ∧
        (t.parseMasterPart s offset).2.isSome = true)) := by
  by_cases hstate : checkMasterSequence s offset = .seqOk
  · have hread : ({ t with
          masterState := .seqOk,
          master := s.slice offset (5 + (s.get (offset + 4)).toNat + 1) }.createMaster
        (s.slice offset (5 + (s.get (offset + 4)).toNat + 1))).1 = t.readMaster s offset := rfl
    simp only [parseMasterPart, hstate, hread, ne_eq, not_true_eq_false, if_false, true_and]
    generalize t.readMaster s offset = u
    generalize offset + (5 + (s.get (offset + 4)).toNat + 1) = cursor
    by_cases hok : u.masterState = .seqOk
    · by_cases hkind : u.telegramType = .broadcast
      · refine .inr ⟨hok, .inl ⟨hkind, ?_⟩⟩
        simp only [hok, hkind, not_true_eq_false, if_false]
      · simp only [hok, hkind, not_true_eq_false, not_false_eq_true, if_false, if_true, true_and,
          false_and, false_or]
        by_cases hend : s.size ≤ cursor
        · exact .inl ⟨_, if_pos hend, by simp⟩
        · rw [if_neg hend]
          by_cases hack : s.get cursor = Symbols.ack ∨ s.get cursor = Symbols.nak
          · exact .inr ⟨by omega, hack, by rw [if_neg (not_and_or.mpr (by tauto))]; rfl⟩
          · exact .inl ⟨_, if_pos (not_or.mp hack), by simp⟩
    · exact .inl ⟨u, if_pos hok, hok⟩
  · refine .inl ⟨{ t with masterState := checkMasterSequence s offset }, ?_, hstate⟩
    simp only [parseMasterPart, ne_eq, hstate, not_false_eq_true, if_true]

theorem received_getD {part bytes : List UInt8} {i : Nat} (h : Received part bytes)
    (hi : i < part.length) : bytes.getD i 0 = part.getD i 0 := by
  obtain rfl | rfl := h
  · rfl
  · exact getD_concat hi

/-- A stored master part stands in the sequence with its check sum, or ends it without. -/
theorem readMaster_seqOk (hlogical : s.extended = false)
    (hstate : checkMasterSequence s offset = .seqOk)
    (hok : (t.readMaster s offset).masterState = .seqOk) :
    ∃ part, MasterPart part ∧ typeOf (part.getD 1 0) = (t.readMaster s offset).telegramType ∧
      (t.readMaster s offset).masterAck = t.masterAck ∧
      5 + (s.get (offset + 4)).toNat = part.length ∧
      (s.bytes.drop offset = part ∧ 0 < offset ∨
        ∃ rest, s.bytes.drop offset = checked part ++ rest) := by
  obtain ⟨hoffset, hsize⟩ := checkMasterSequence_bounds hstate
  have hslice : s.slice offset (5 + (s.get (offset + 4)).toNat + 1) =
      { bytes := (s.bytes.drop offset).take (5 + (s.get (offset + 4)).toNat + 1) } := by
    rw [slice_eq (by omega) (by omega), hlogical]
  have hcount := getD_take_drop s
    (show 4 < 5 + (s.get (offset + 4)).toNat + 1 by omega) offset
  rw [readMaster, hslice] at hok ⊢
  generalize htake : (s.bytes.drop offset).take (5 + (s.get (offset + 4)).toNat + 1) = bytes
    at hok hcount ⊢
  obtain ⟨part, hpart, hreceived⟩ := (masterAgrees _ bytes).accepts.mp hok
  obtain ⟨hlow, -⟩ := hpart.length_bounds
  rw [received_getD hreceived (by omega)] at hcount
  have hlength := hpart.length
  rw [hcount] at hlength
  have hdrop : (s.bytes.drop offset).length = s.size - offset := List.length_drop
  refine ⟨part, hpart, ?_, ?_, hlength.symm, ?_⟩
  · rw [createMaster_received _ hpart hreceived]
  · rw [createMaster_received _ hpart hreceived]
  · obtain rfl | rfl := hreceived
    · -- cut off before its check sum
      have htaken := congrArg List.length htake
      rw [List.length_take] at htaken
      rw [List.take_of_length_le (by omega)] at htake
      exact .inl ⟨htake, by omega⟩
    · refine .inr ⟨(s.bytes.drop offset).drop (5 + (s.get (offset + 4)).toNat + 1), ?_⟩
      rw [checked, ← htake, List.take_append_drop]

theorem parseSlavePart_cases (t : Telegram) (s : Sequence) (offset : Nat) :
    (∃ u, t.parseSlavePart s offset = (u, none) ∧ u.slaveState ≠ .seqOk ∧
      u.telegramType = t.telegramType) ∨
    (checkSlaveSequence s offset = .seqOk ∧ (t.readSlave s offset).slaveState = .seqOk ∧
      offset + (1 + (s.get offset).toNat + 1) < s.size ∧
      (s.get (offset + (1 + (s.get offset).toNat + 1)) = Symbols.ack ∨
        s.get (offset + (1 + (s.get offset).toNat + 1)) = Symbols.nak) ∧
      (t.parseSlavePart s offset).2.isSome = true) := by
  by_cases hstate : checkSlaveSequence s offset = .seqOk
  · have hread : ({ t with slaveState := .seqOk,
                           slave := s.slice offset (1 + (s.get offset).toNat + 1) }.createSlave
        (s.slice offset (1 + (s.get offset).toNat + 1))).1 = t.readSlave s offset := rfl
    have hkind : (t.readSlave s offset).telegramType = t.telegramType := by
      rw [readSlave, createSlave_telegramType]
    simp only [parseSlavePart, Nat.add_zero, hstate, hread, ne_eq, not_true_eq_false, if_false,
      true_and]
    generalize t.readSlave s offset = u at hkind ⊢
    generalize offset + (1 + (s.get offset).toNat + 1) = cursor
    by_cases hok : u.slaveState = .seqOk
    · simp only [hok, not_true_eq_false, if_false, true_and]
      by_cases hend : s.size ≤ cursor
      · exact .inl ⟨_, if_pos hend, by simp, hkind⟩
      · rw [if_neg hend]
        by_cases hack : s.get cursor = Symbols.ack ∨ s.get cursor = Symbols.nak
        · exact .inr ⟨by omega, hack, by rw [if_neg (not_and_or.mpr (by tauto))]; rfl⟩
        · exact .inl ⟨_, if_pos (not_or.mp hack), by simp, hkind⟩
    · exact .inl ⟨u, if_pos hok, hok, hkind⟩
  · refine .inl ⟨{ t with slaveState := checkSlaveSequence s offset }, ?_, hstate, rfl⟩
    simp only [parseSlavePart, ne_eq, hstate, not_false_eq_true, if_true]

theorem readSlave_seqOk (hlogical : s.extended = false)
    (hstate : checkSlaveSequence s offset = .seqOk)
    (hok : (t.readSlave s offset).slaveState = .seqOk) :
    ∃ part rest, SlavePart part ∧ 1 + (s.get offset).toNat = part.length ∧
      s.bytes.drop offset = checked part ++ rest := by
  have hsize := checkSlaveSequence_bounds hstate
  have hslice : s.slice offset (1 + (s.get offset).toNat + 1) =
      { bytes := (s.bytes.drop offset).take (1 + (s.get offset).toNat + 1) } := by
    rw [slice_eq (by omega) (by omega), hlogical]
  have hcount := getD_take_drop s (show 0 < 1 + (s.get offset).toNat + 1 by omega) offset
  rw [readSlave, hslice] at hok
  have hlength : ((s.bytes.drop offset).take (1 + (s.get offset).toNat + 1)).length =
      1 + (s.get offset).toNat + 1 := by
    rw [List.length_take, List.length_drop]
    change min _ (s.size - offset) = _
    omega
  generalize htake : (s.bytes.drop offset).take (1 + (s.get offset).toNat + 1) = bytes
    at hok hcount hlength
  obtain ⟨hpart, hreceived⟩ := createSlave_seqOk hok
  rw [Sequence.reduce_of_logical rfl] at hreceived
  generalize (createSlave _ _).1.slave.bytes = part at hpart hreceived
  change Received part bytes at hreceived
  obtain ⟨hlow, -⟩ := hpart.length_bounds
  rw [received_getD hreceived (by omega), Nat.add_zero] at hcount
  have hpartLength := hpart.length
  rw [hcount] at hpartLength
  refine ⟨part, (s.bytes.drop offset).drop (1 + (s.get offset).toNat + 1), hpart,
    hpartLength.symm, ?_⟩
  obtain rfl | rfl := hreceived
  · omega
  · rw [checked, ← htake, List.take_append_drop]

theorem parseMasterPart_none {u : Telegram} (h : t.parseMasterPart s offset = (u, none)) :
    u.masterState ≠ .seqOk := by
  obtain ⟨u', hnone, hstate⟩ | ⟨-, -, ⟨-, hsome⟩ | ⟨-, -, hsome⟩⟩ :=
    t.parseMasterPart_cases s offset
  · rw [hnone] at h
    cases h
    exact hstate
  · rw [hsome] at h
    cases h
  · rw [h] at hsome
    cases hsome

theorem parseSlavePart_none {u : Telegram} (h : t.parseSlavePart s offset = (u, none)) :
    u.slaveState ≠ .seqOk ∧ u.telegramType = t.telegramType := by
  obtain ⟨u', hnone, hstate⟩ | ⟨-, -, -, -, hsome⟩ := t.parseSlavePart_cases s offset
  · rw [hnone] at h
    cases h
    exact hstate
  · rw [h] at hsome
    cases hsome

theorem isValid_of_masterState_ne (h : t.masterState ≠ .seqOk) : t.isValid = false := by
  simp [isValid, h]

theorem isValid_of_slaveState_ne (hkind : t.telegramType = .masterSlave)
    (h : t.slaveState ≠ .seqOk) : t.isValid = false := by
  simp [isValid, hkind, h]

theorem head?_eq_get {front rest : List UInt8} (hs : s.bytes = front ++ rest)
    (hoffset : offset = front.length) (hend : offset < s.size) :
    rest.head? = some (s.get offset) := by
  subst hoffset
  have hget := get_of_bytes_eq hs 0
  cases rest with
  | nil =>
      rw [List.append_nil] at hs
      rw [Sequence.size, hs] at hend
      exact absurd hend (Nat.lt_irrefl _)
  | cons byte rest => exact congrArg some hget.symm

/-- What is taken for a slave part is one, with its check sum and its acknowledge. -/
theorem parseSlavePart_some {u : Telegram} (hlogical : s.extended = false)
    {front tail : List UInt8} (hs : s.bytes = front ++ tail)
    (h : t.parseSlavePart s front.length = (u, some cursor)) :
    ∃ part ack rest, SlavePart part ∧ (ack = Symbols.ack ∨ ack = Symbols.nak) ∧
      tail = checked part ++ ack :: rest := by
  obtain ⟨u', hnone, -⟩ | ⟨hstate, hok, hend, hack, -⟩ := t.parseSlavePart_cases s front.length
  · rw [hnone] at h
    cases h
  · obtain ⟨part, rest, hpart, hlength, hdrop⟩ := readSlave_seqOk hlogical hstate hok
    rw [hs, List.drop_left] at hdrop
    rw [hdrop, ← List.append_assoc] at hs
    have hnext := head?_eq_get hs
      (by rw [hlength, List.length_append, length_checked]) hend
    obtain ⟨rest, rfl⟩ := List.head?_eq_some_iff.mp hnext
    exact ⟨part, _, rest, hpart, hack, hdrop⟩

/-- What is taken for a master part is one; only behind a rejected attempt a broadcast may
lack its check sum. -/
theorem parseMasterPart_some {u : Telegram} (hlogical : s.extended = false)
    {front tail : List UInt8} (hs : s.bytes = front ++ tail)
    (h : t.parseMasterPart s front.length = (u, some cursor)) :
    (u.telegramType = .broadcast ∧ u.masterAck = t.masterAck ∧ 0 < front.length) ∨
    ∃ part rest, MasterPart part ∧ tail = checked part ++ rest ∧
      (typeOf (part.getD 1 0) = .broadcast ∨ typeOf (part.getD 1 0) ≠ .broadcast ∧
        ∃ ack, rest.head? = some ack ∧ (ack = Symbols.ack ∨ ack = Symbols.nak)) := by
  obtain ⟨u', hnone, -⟩ | ⟨hstate, hok, hnext⟩ := t.parseMasterPart_cases s front.length
  · rw [hnone] at h
    cases h
  · obtain ⟨part, hpart, hkind, hack, hlength, ⟨hcut, hpos⟩ | ⟨rest, hdrop⟩⟩ :=
      readMaster_seqOk hlogical hstate hok
    · have htail := congrArg List.length hcut
      rw [List.length_drop] at htail
      obtain ⟨hbroad, hparse⟩ | ⟨hend, -⟩ := hnext
      · rw [hparse] at h
        cases h
        exact .inl ⟨hbroad, hack, hpos⟩
      · change _ < s.bytes.length at hend
        omega
    · rw [hs, List.drop_left] at hdrop
      refine .inr ⟨part, rest, hpart, hdrop, ?_⟩
      obtain ⟨hbroad, -⟩ | ⟨hend, hnext, -⟩ := hnext
      · exact .inl (hkind.trans hbroad)
      · by_cases hbroad : typeOf (part.getD 1 0) = .broadcast
        · exact .inl hbroad
        · rw [hdrop, ← List.append_assoc] at hs
          exact .inr ⟨hbroad, _, head?_eq_get hs
            (by rw [hlength, List.length_append, length_checked]) hend, hnext⟩

/-- An accepted answer is complete, behind at most one rejected attempt. -/
theorem exists_of_parseSlave (hlogical : s.extended = false) {front tail : List UInt8}
    (hs : s.bytes = front ++ tail) (hkind : t.telegramType = .masterSlave)
    (hvalid : (t.parseSlave s front.length).isValid = true) :
    ∃ attempt slave rest, SlaveAttempt attempt ∧ SlavePart slave ∧
      tail = attempt ++ (checked slave ++ Symbols.ack :: rest) := by
  have hrefused {t' u : Telegram} {offset : Nat} (hkind' : t'.telegramType = .masterSlave)
      (h : t'.parseSlavePart s offset = (u, none)) : u.isValid = false := by
    obtain ⟨hstate, htype⟩ := parseSlavePart_none h
    exact isValid_of_slaveState_ne (htype.trans hkind') hstate
  cases hfirst : t.parseSlavePart s front.length with | mk u cursor =>
  cases cursor with
  | none =>
      simp only [parseSlave, hfirst, hrefused hkind hfirst] at hvalid
      cases hvalid
  | some cursor =>
      obtain ⟨part, ack, rest, hpart, hack, rfl⟩ := parseSlavePart_some hlogical hs hfirst
      have hparse := parseSlavePart_acknowledged t hs hlogical hack rfl hpart
      obtain rfl | rfl := hack
      · exact ⟨[], part, rest, .inl rfl, hpart, rfl⟩
      · have hs' : s.bytes = front ++ checked part ++ [Symbols.nak] ++ rest := by simp [hs]
        rw [parseSlave, hparse] at hvalid
        simp only [withSlave_slaveAck, if_true] at hvalid
        cases hsecond : (t.withSlave part Symbols.nak).parseSlavePart s
          (front ++ checked part ++ [Symbols.nak]).length with | mk u cursor =>
        rw [hsecond] at hvalid
        cases cursor with
        | none =>
            have hkind' : (t.withSlave part Symbols.nak).telegramType = .masterSlave := hkind
            simp only [hrefused hkind' hsecond] at hvalid
            cases hvalid
        | some cursor =>
            obtain ⟨part', ack, rest, hpart', hack, rfl⟩ :=
              parseSlavePart_some hlogical hs' hsecond
            rw [parseSlavePart_acknowledged _ hs' hlogical hack rfl hpart'] at hsecond
            cases hsecond
            obtain rfl | rfl := hack
            · exact ⟨checked part ++ [Symbols.nak], part', rest, .inr ⟨part, hpart, rfl⟩, hpart',
                by simp⟩
            · -- the second attempt was rejected as well
              simp [isValid, hkind] at hvalid

/-- Behind an accepted master part that is no broadcast. -/
theorem exists_of_parseRest (hlogical : s.extended = false) {attempt part rest : List UInt8}
    (hattempt : MasterAttempt attempt) (hpart : MasterPart part)
    (hkind : typeOf (part.getD 1 0) ≠ .broadcast)
    (hs : s.bytes = attempt ++ checked part ++ [Symbols.ack] ++ rest) {u : Telegram}
    (hvalid : ((u.withMaster part Symbols.ack).parseRest s
      (attempt ++ checked part ++ [Symbols.ack]).length).isValid = true) :
    ∃ front rest master slave, s.bytes = front ++ rest ∧ Exchange front master slave := by
  rw [parseRest_withMaster] at hvalid
  obtain hbroad | htarget | htarget := target_cases hpart.target
  · exact absurd (typeOf_eq_broadcast_iff.mpr hbroad) hkind
  · refine ⟨_, rest, part, [], ?_, .masterMaster hattempt hpart htarget⟩
    rw [hs, List.append_assoc attempt]
  · have htype := typeOf_of_isSlave htarget
    rw [if_pos htype] at hvalid
    obtain ⟨attempt', slave, rest', hattempt', hslave, rfl⟩ :=
      exists_of_parseSlave hlogical hs htype hvalid
    refine ⟨_, rest', part, slave, ?_, .masterSlave hattempt hpart htarget hattempt' hslave⟩
    rw [hs]
    simp

/-- Behind a rejected attempt. -/
theorem exists_of_nak {first rest : List UInt8} (hfirst : MasterPart first)
    (hkind : typeOf (first.getD 1 0) ≠ .broadcast)
    (hs : s.reduce.bytes = checked first ++ Symbols.nak :: rest)
    (hvalid : (t.parse s).isValid = true) :
    ∃ front rest master slave, s.reduce.bytes = front ++ rest ∧ Exchange front master slave := by
  have hlogical := s.reduce_extended
  have hattempt : MasterAttempt (checked first ++ [Symbols.nak]) :=
    .inr ⟨first, hfirst, hkind, rfl⟩
  have hs' : s.reduce.bytes = (checked first ++ [Symbols.nak]) ++ rest := by simp [hs]
  have hparse := t.parse_of_nak first hfirst hkind hs
  cases hsecond : (withMaster {} first Symbols.nak).parseMasterPart s.reduce
    (checked first ++ [Symbols.nak]).length with | mk u cursor =>
  rw [hsecond] at hparse
  cases cursor with
  | none =>
      rw [hparse, isValid_of_masterState_ne (parseMasterPart_none hsecond)] at hvalid
      cases hvalid
  | some cursor =>
      by_cases hnak : u.masterAck = Symbols.nak
      · -- the acknowledge of the second attempt, or still the one of the first
        have hstate : SequenceState.errAckNegative ≠ SequenceState.seqOk := by decide
        simp only [if_pos hnak] at hparse
        rw [hparse, parseRest, if_pos hstate, isValid_of_masterState_ne hstate] at hvalid
        cases hvalid
      · obtain ⟨-, hstale, -⟩ | ⟨part, rest, hpart, rfl, hnext⟩ :=
          parseMasterPart_some hlogical hs' hsecond
        · exact absurd hstale hnak
        · obtain hbroad | ⟨hkind', ack, hrest, hack⟩ := hnext
          · rw [parseMasterPart_broadcast _ hs' hlogical hpart hbroad] at hsecond
            cases hsecond
            exact absurd rfl hnak
          · rw [parseMasterPart_acknowledged _ hs' hlogical hack hrest hpart hkind'] at hsecond
            cases hsecond
            obtain rfl | rfl := hack
            · obtain ⟨rest, rfl⟩ := List.head?_eq_some_iff.mp hrest
              rw [t.parse_of_masterAttempt hattempt hpart hs' hkind'] at hvalid
              have hwhole : s.reduce.bytes
                  = checked first ++ [Symbols.nak] ++ checked part ++ [Symbols.ack] ++ rest := by
                simp [hs]
              exact exists_of_parseRest hlogical hattempt hpart hkind' hwhole hvalid
            · exact absurd rfl hnak

theorem exists_exchange (hvalid : (t.parse s).isValid = true) :
    ∃ front rest master slave, s.reduce.bytes = front ++ rest ∧ Exchange front master slave := by
  have hlogical := s.reduce_extended
  have hstart : s.reduce.bytes = [] ++ s.reduce.bytes := rfl
  cases hfirst : t.clear.parseMasterPart s.reduce 0 with | mk u cursor =>
  cases cursor with
  | none =>
      simp only [parse, hfirst, isValid_of_masterState_ne (parseMasterPart_none hfirst)] at hvalid
      cases hvalid
  | some cursor =>
      obtain ⟨-, -, hpos⟩ | ⟨part, rest, hpart, hs, hnext⟩ :=
        parseMasterPart_some hlogical hstart hfirst
      · cases hpos
      · obtain hbroad | ⟨hkind, ack, hrest, hack⟩ := hnext
        · exact ⟨_, rest, part, [], hs, .broadcast hpart (typeOf_eq_broadcast_iff.mp hbroad)⟩
        · obtain ⟨rest, rfl⟩ := List.head?_eq_some_iff.mp hrest
          have hs' : s.reduce.bytes = [] ++ (checked part ++ ack :: rest) := hs
          have hparse := parseMasterPart_acknowledged t.clear hs' hlogical hack rfl hpart hkind
          rw [List.length_nil] at hparse
          obtain rfl | rfl := hack
          · rw [t.parse_of_masterAttempt (.inl rfl) hpart hs' hkind] at hvalid
            have hwhole : s.reduce.bytes = [] ++ checked part ++ [Symbols.ack] ++ rest := by
              simp [hs]
            exact exists_of_parseRest hlogical (.inl rfl) hpart hkind hwhole hvalid
          · exact exists_of_nak hpart hkind hs hvalid

end Reading

end Telegram

namespace TelegramImpl

open Telegram (Exchange accepted)

/-- The decoder accepts the sequences that begin with a complete exchange, and nothing behind
the exchange or behind the end of the sequence reaches the telegram. -/
theorem parse_grammar (t : TelegramImpl) (s : SequenceImpl) (hlogical : s.extended = false) :
    ((t.parse s).isValid = true ↔
      ∃ front rest master slave, s.bytes = front ++ rest ∧ Exchange front master slave) ∧
    (∀ front rest master slave, s.bytes = front ++ rest → Exchange front master slave →
      (t.parse s).view = accepted master slave ∧
      (t.parse s).getMaster.bytes = master ∧ (t.parse s).getSlave.bytes = slave) ∧
    ∀ (t' : TelegramImpl) (s' : SequenceImpl), s'.extended = false → s'.bytes = s.bytes →
      (t'.parse s').view = (t.parse s).view := by
  have hreduce : s.toSequence.reduce.bytes = s.bytes := by
    rw [Sequence.reduce_of_logical hlogical]
    rfl
  have hview := view_parse t s
  refine ⟨⟨fun hvalid => ?_, ?_⟩, ?_, ?_⟩
  · rw [← isValid_view, hview] at hvalid
    obtain ⟨front, rest, master, slave, hs, h⟩ := Telegram.exists_exchange hvalid
    exact ⟨front, rest, master, slave, hreduce.symm.trans hs, h⟩
  · rintro ⟨front, rest, master, slave, hs, h⟩
    rw [← isValid_view, hview, Telegram.parse_exchange _ h (hreduce.trans hs)]
    exact Telegram.isValid_accepted h.masterPart slave
  · intro front rest master slave hs h
    rw [Telegram.parse_exchange _ h (hreduce.trans hs)] at hview
    refine ⟨hview, ?_, ?_⟩
    · exact congrArg Sequence.bytes
        ((congrArg Telegram.master hview).trans (Telegram.accepted_master master slave))
    · exact congrArg Sequence.bytes
        ((congrArg Telegram.slave hview).trans (Telegram.accepted_slave h))
  · intro t' s' hlogical' hbytes
    have hsame : s'.toSequence = s.toSequence := by
      rw [SequenceImpl.toSequence, SequenceImpl.toSequence, hbytes, hlogical, hlogical']
    rw [hview, view_parse, hsame]
    rfl

/-- A sign of life, with a byte behind it, in a buffer that held something else. -/
theorem parse_grammar_signOfLife :
    (parse {} { cells := fun i => [0x31, 0xFE, 0x07, 0xFF, 0x00, 0xAE, 0x55].getD i 0xAA
                size := 7 }).getMaster.bytes = [0x31, 0xFE, 0x07, 0xFF, 0x00] :=
  ((parse_grammar {} _ rfl).2.1 (Telegram.checked [0x31, 0xFE, 0x07, 0xFF, 0x00]) [0x55] _ []
    (by decide +kernel)
    (.broadcast ⟨by decide, by decide, by decide, by decide, by decide, by decide⟩ rfl)).2.1

end TelegramImpl

end Ebus
