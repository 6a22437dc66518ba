import Ebus.Protocol.Telegram

/-!
# Complete exchanges

A `Dialogue` is what two participants say to each other, in logical form: a master
part, the slave part that answers it, and which of the two was rejected once and
repeated. `wireBytes` is its image on the bus, built with the framing functions of
the library.

The batch decoder inverts this image: `makeTelegram_wireBytes`.
-/

namespace Ebus

open Sequence

structure Dialogue where
  source : UInt8
  payload : List UInt8
  slave : List UInt8 := []
  masterNak : Bool := false
  slaveNak : Bool := false
  deriving DecidableEq, Repr

/-- A framed part, perhaps rejected once and repeated. -/
def attempts (framed : List UInt8) (rejected : Bool) : List UInt8 :=
  if rejected then framed ++ Symbols.nak :: framed else framed

namespace Dialogue

variable (x : Dialogue)

def master : List UInt8 := x.source :: x.payload

def target : UInt8 := x.master.getD 1 0

def kind : TelegramType := typeOf x.target

/-- Only a message to a slave is answered, and a broadcast is not acknowledged. -/
structure WellFormed : Prop where
  master : MasterPart x.master
  slave : x.kind = .masterSlave → SlavePart x.slave
  unanswered : x.kind ≠ .masterSlave → x.slave = [] ∧ x.slaveNak = false
  unacknowledged : x.kind = .broadcast → x.masterNak = false

/-- What follows the master part on the wire. -/
def reply : List UInt8 :=
  match x.kind with
  | .masterSlave => Symbols.ack :: (attempts (frameSlave x.slave).bytes x.slaveNak ++ [Symbols.ack])
  | .masterMaster => [Symbols.ack]
  | _ => []

def wireBytes : List UInt8 :=
  attempts (frameMaster x.source x.payload).bytes x.masterNak ++ x.reply

end Dialogue

namespace Telegram

section Parts

variable {s : Sequence} {front part rest : List UInt8}

/-- A part with its check sum, as a receiver that has undone the stuffing holds it. -/
def checked (part : List UInt8) : List UInt8 := part ++ [calculateCRC part false]

theorem length_checked (part : List UInt8) : (checked part).length = part.length + 1 := by
  simp [checked]

theorem get_of_bytes_eq (hs : s.bytes = front ++ rest) (i : Nat) :
    s.get (front.length + i) = rest.getD i 0 := by
  rw [Sequence.get, hs, List.getD_eq_getElem?_getD, List.getD_eq_getElem?_getD,
    List.getElem?_append_right (by omega)]
  congr 2
  omega

theorem getD_checked {i : Nat} (hi : i < part.length) :
    (checked part ++ rest).getD i 0 = part.getD i 0 := by
  rw [checked, List.append_assoc]
  simp [List.getD_eq_getElem?_getD, List.getElem?_append_left hi]

theorem slice_checked (hs : s.bytes = front ++ (checked part ++ rest))
    (hlogical : s.extended = false) :
    s.slice front.length (part.length + 1) = { bytes := checked part } := by
  have hlen := length_checked part
  have hsize : s.size = front.length + (part.length + 1 + rest.length) := by
    simp [Sequence.size, hs, hlen]
  have hinside : ¬ (part.length + 1 = 0 ∨ s.size < front.length + (part.length + 1)) := by omega
  have htake : (checked part ++ rest).take (part.length + 1) = checked part := by
    rw [← hlen, List.take_left]
  rw [slice, if_neg (by omega)]
  simp only [hinside, if_false, hs, hlogical, List.drop_left, htake]

variable (t : Telegram)

/-- The telegram with a well-formed master part and its acknowledge. -/
@[simps] def withMaster (part : List UInt8) (ack : UInt8) : Telegram :=
  { t with masterState := .seqOk, telegramType := typeOf (part.getD 1 0),
           masterNn := (part.getD 4 0).toNat, master := { bytes := part },
           masterCrc := calculateCRC part false, masterAck := ack }

/-- The telegram with a well-formed slave part and its acknowledge. -/
@[simps] def withSlave (part : List UInt8) (ack : UInt8) : Telegram :=
  { t with slaveState := .seqOk, slaveNn := (part.getD 0 0).toNat,
           slave := { bytes := part }, slaveCrc := calculateCRC part false, slaveAck := ack }

theorem createMaster_checked (hpart : MasterPart part) :
    (t.createMaster { bytes := checked part }).1 = t.withMaster part t.masterAck :=
  checkMaster_of_part t hpart

theorem createSlave_checked (hpart : SlavePart part) :
    (t.createSlave { bytes := checked part }).1 = t.withSlave part t.slaveAck :=
  checkSlave_of_part t hpart

theorem checkMasterSequence_of_part (hpart : MasterPart part)
    (hs : s.bytes = front ++ (checked part ++ rest)) :
    checkMasterSequence s front.length = .seqOk ∧
      s.get (front.length + 4) = part.getD 4 0 := by
  obtain ⟨hlow, -⟩ := hpart.length_bounds
  have hlen := length_checked part
  have hsize : s.size = front.length + (part.length + 1 + rest.length) := by
    simp [Sequence.size, hs, hlen]
  have hget (i : Nat) (hi : i < 5) : s.get (front.length + i) = part.getD i 0 := by
    rw [get_of_bytes_eq hs, getD_checked (by omega)]
  refine ⟨?_, hget 4 (by omega)⟩
  have hcount := not_maxDataBytes_lt_iff.mpr hpart.count
  have hlength := hpart.length
  rw [checkMasterSequence, hget 0 (by omega), hget 1 (by omega), hget 4 (by omega),
    hpart.source, hpart.target, if_neg (by omega), if_neg (by decide), if_neg (by decide),
    if_neg hcount, if_neg (by omega)]

theorem checkSlaveSequence_of_part (hpart : SlavePart part)
    (hs : s.bytes = front ++ (checked part ++ rest)) :
    checkSlaveSequence s front.length = .seqOk ∧
      s.get (front.length + 0) = part.getD 0 0 := by
  obtain ⟨hlow, -⟩ := hpart.length_bounds
  have hlen := length_checked part
  have hsize : s.size = front.length + (part.length + 1 + rest.length) := by
    simp [Sequence.size, hs, hlen]
  have hget : s.get (front.length + 0) = part.getD 0 0 := by
    rw [get_of_bytes_eq hs, getD_checked (by omega)]
  refine ⟨?_, hget⟩
  have hcount := not_maxDataBytes_lt_iff.mpr hpart.count
  have hlength := hpart.length
  rw [checkSlaveSequence, hget, if_neg (by omega), if_neg hcount, if_neg (by omega)]

/-- What the decoder finds behind a part. -/
theorem acknowledge_of_head {ack : UInt8} (hs : s.bytes = front ++ (checked part ++ rest))
    (hack : ack = Symbols.ack ∨ ack = Symbols.nak) (hrest : rest.head? = some ack) :
    s.get (front ++ checked part).length = ack ∧
    ¬ s.size ≤ (front ++ checked part).length ∧ ¬ (ack ≠ Symbols.ack ∧ ack ≠ Symbols.nak) := by
  obtain ⟨rest, rfl⟩ := List.head?_eq_some_iff.mp hrest
  refine ⟨?_, by simp [Sequence.size, hs], by tauto⟩
  rw [← List.append_assoc] at hs
  exact get_of_bytes_eq hs 0

section Parse

variable (hs : s.bytes = front ++ (checked part ++ rest)) (hlogical : s.extended = false)

include hs hlogical

/-- A broadcast is complete with its check sum. -/
theorem parseMasterPart_broadcast (hpart : MasterPart part)
    (hkind : typeOf (part.getD 1 0) = .broadcast) :
    t.parseMasterPart s front.length =
      (t.withMaster part t.masterAck, some (front ++ checked part).length) := by
  obtain ⟨hstate, hget⟩ := checkMasterSequence_of_part hpart hs
  have hslice := slice_checked hs hlogical
  rw [hpart.length] at hslice
  have hend : front.length + (5 + (part.getD 4 0).toNat + 1) = (front ++ checked part).length := by
    simp only [List.length_append, length_checked, hpart.length]
  simp only [parseMasterPart, hstate, hget, hslice, createMaster_checked _ hpart, hend,
    withMaster_masterState, withMaster_telegramType, hkind, ne_eq, not_true_eq_false, if_false]
  rfl

variable {ack : UInt8} (hack : ack = Symbols.ack ∨ ack = Symbols.nak)
  (hrest : rest.head? = some ack)

include hack hrest

/-- Any other master part comes with its acknowledge. -/
theorem parseMasterPart_acknowledged (hpart : MasterPart part)
    (hkind : typeOf (part.getD 1 0) ≠ .broadcast) :
    t.parseMasterPart s front.length =
      (t.withMaster part ack, some (front ++ checked part ++ [ack]).length) := by
  obtain ⟨hstate, hget⟩ := checkMasterSequence_of_part hpart hs
  obtain ⟨hackGet, hsize, hvalid⟩ := acknowledge_of_head hs hack hrest
  have hslice := slice_checked hs hlogical
  rw [hpart.length] at hslice
  have hend : front.length + (5 + (part.getD 4 0).toNat + 1) = (front ++ checked part).length := by
    simp only [List.length_append, length_checked, hpart.length]
  simp only [parseMasterPart, hstate, hget, hslice, createMaster_checked _ hpart, hend, hackGet,
    hsize, hvalid, withMaster_masterState, withMaster_telegramType, hkind, ne_eq,
    not_true_eq_false, not_false_eq_true, if_false, if_true]
  rw [@List.length_append _ (front ++ checked part) [ack]]
  rfl

theorem parseSlavePart_acknowledged (hpart : SlavePart part) :
    t.parseSlavePart s front.length =
      (t.withSlave part ack, some (front ++ checked part ++ [ack]).length) := by
  obtain ⟨hstate, hget⟩ := checkSlaveSequence_of_part hpart hs
  obtain ⟨hackGet, hsize, hvalid⟩ := acknowledge_of_head hs hack hrest
  have hslice := slice_checked hs hlogical
  rw [hpart.length] at hslice
  have hend : front.length + (1 + (part.getD 0 0).toNat + 1) = (front ++ checked part).length := by
    simp only [List.length_append, length_checked, hpart.length]
  simp only [parseSlavePart, hstate, hget, hslice, createSlave_checked _ hpart, hend, hackGet,
    hsize, hvalid, withSlave_slaveState, ne_eq, not_true_eq_false, if_false]
  rw [@List.length_append _ (front ++ checked part) [ack]]
  rfl

end Parse

theorem parseRest_withMaster (part : List UInt8) (ack : UInt8) (s : Sequence) (cursor : Nat) :
    (t.withMaster part ack).parseRest s cursor =
      if typeOf (part.getD 1 0) = .masterSlave then (t.withMaster part ack).parseSlave s cursor
      else t.withMaster part ack := by
  rw [parseRest, if_neg (fun hbad => hbad rfl)]
  rfl

theorem parse_broadcast (hpart : MasterPart part) (hs : s.reduce.bytes = checked part ++ rest)
    (hkind : typeOf (part.getD 1 0) = .broadcast) :
    t.parse s = withMaster {} part Symbols.ack := by
  have hwhole : s.reduce.bytes = [] ++ (checked part ++ rest) := hs
  have hfirst := parseMasterPart_broadcast {} hwhole s.reduce_extended hpart hkind
  rw [List.length_nil] at hfirst
  simp only [parse, clear, hfirst, withMaster_telegramType]
  rw [if_neg (fun hother => hother.1 hkind), parseRest_withMaster, hkind, if_neg (by decide)]
  rfl

/-- Nothing, or an attempt that was rejected. -/
def MasterAttempt (bytes : List UInt8) : Prop :=
  bytes = [] ∨ ∃ part, MasterPart part ∧ typeOf (part.getD 1 0) ≠ .broadcast ∧
    bytes = checked part ++ [Symbols.nak]

def SlaveAttempt (bytes : List UInt8) : Prop :=
  bytes = [] ∨ ∃ part, SlavePart part ∧ bytes = checked part ++ [Symbols.nak]

theorem parse_of_nak (first : List UInt8) (hfirst : MasterPart first)
    (hkind : typeOf (first.getD 1 0) ≠ .broadcast)
    (hs : s.reduce.bytes = checked first ++ Symbols.nak :: rest) :
    t.parse s =
      match (withMaster {} first Symbols.nak).parseMasterPart s.reduce
          (checked first ++ [Symbols.nak]).length with
      | (t, none) => t
      | (t, some cursor) =>
          let t := if t.masterAck = Symbols.nak then
            { t with masterState := .errAckNegative } else t
          t.parseRest s.reduce cursor := by
  have hwhole : s.reduce.bytes = [] ++ (checked first ++ Symbols.nak :: rest) := hs
  have hparse := parseMasterPart_acknowledged {} hwhole s.reduce_extended (.inr rfl) rfl hfirst
    hkind
  rw [List.length_nil, List.nil_append] at hparse
  simp only [parse, clear, hparse, withMaster_masterAck, withMaster_telegramType]
  exact if_pos ⟨hkind, trivial⟩

/-- Whether there was a rejected attempt or not, the master part is the accepted one. -/
theorem parse_of_masterAttempt {attempt : List UInt8} (hattempt : MasterAttempt attempt)
    (hpart : MasterPart part)
    (hs : s.reduce.bytes = attempt ++ (checked part ++ Symbols.ack :: rest))
    (hkind : typeOf (part.getD 1 0) ≠ .broadcast) :
    t.parse s = (withMaster {} part Symbols.ack).parseRest s.reduce
      (attempt ++ checked part ++ [Symbols.ack]).length := by
  have hlogical := s.reduce_extended
  obtain rfl | ⟨first, hfirst, hfirstKind, rfl⟩ := hattempt
  · have hparse := parseMasterPart_acknowledged {} hs hlogical (.inl rfl) rfl hpart hkind
    rw [List.length_nil] at hparse
    simp only [parse, clear, hparse, withMaster_masterAck]
    rw [if_neg (fun hnak => absurd hnak.2 (by decide))]
  · have hparse := parseMasterPart_acknowledged (withMaster {} first Symbols.nak) hs hlogical
      (.inl rfl) rfl hpart hkind
    rw [List.append_assoc, List.singleton_append] at hs
    rw [t.parse_of_nak first hfirst hfirstKind hs, hparse]
    rfl

/-- The same for the slave part. -/
theorem parseSlave_of_slaveAttempt {attempt : List UInt8} (hattempt : SlaveAttempt attempt)
    (hpart : SlavePart part)
    (hs : s.bytes = front ++ (attempt ++ (checked part ++ Symbols.ack :: rest)))
    (hlogical : s.extended = false) :
    t.parseSlave s front.length = t.withSlave part Symbols.ack := by
  obtain rfl | ⟨first, hfirst, rfl⟩ := hattempt
  · have hparse := parseSlavePart_acknowledged t hs hlogical (.inl rfl) rfl hpart
    simp only [parseSlave, hparse, withSlave_slaveAck]
    rw [if_neg (by decide)]
  · have hrepeat : s.bytes =
        front ++ checked first ++ [Symbols.nak] ++ (checked part ++ Symbols.ack :: rest) := by
      simp [hs]
    have hwhole : s.bytes =
        front ++ (checked first ++ Symbols.nak :: (checked part ++ Symbols.ack :: rest)) := by
      simp [hs]
    have hfirstParse := parseSlavePart_acknowledged t hwhole hlogical (.inr rfl) rfl hfirst
    have hsecond := parseSlavePart_acknowledged (t.withSlave first Symbols.nak) hrepeat hlogical
      (.inl rfl) rfl hpart
    simp only [parseSlave, hfirstParse, hsecond, withSlave_slaveAck]
    rw [if_pos trivial, if_neg (by decide)]
    rfl

theorem masterAttempt_of_attempts (hpart : MasterPart part)
    (hkind : typeOf (part.getD 1 0) ≠ .broadcast) (rejected : Bool) :
    ∃ attempt, MasterAttempt attempt ∧
      attempts (checked part) rejected = attempt ++ checked part := by
  cases rejected with
  | false => exact ⟨[], .inl rfl, rfl⟩
  | true =>
      exact ⟨checked part ++ [Symbols.nak], .inr ⟨part, hpart, hkind, rfl⟩, by simp [attempts]⟩

theorem slaveAttempt_of_attempts (hpart : SlavePart part) (rejected : Bool) :
    ∃ attempt, SlaveAttempt attempt ∧
      attempts (checked part) rejected = attempt ++ checked part := by
  cases rejected with
  | false => exact ⟨[], .inl rfl, rfl⟩
  | true => exact ⟨checked part ++ [Symbols.nak], .inr ⟨part, hpart, rfl⟩, by simp [attempts]⟩

theorem parse_of_attempts (hpart : MasterPart part) (rejected : Bool)
    (hs : s.reduce.bytes = attempts (checked part) rejected ++ Symbols.ack :: rest)
    (hkind : typeOf (part.getD 1 0) ≠ .broadcast) :
    t.parse s = (withMaster {} part Symbols.ack).parseRest s.reduce
      (attempts (checked part) rejected ++ [Symbols.ack]).length := by
  obtain ⟨attempt, hattempt, heq⟩ := masterAttempt_of_attempts hpart hkind rejected
  rw [heq] at hs ⊢
  exact t.parse_of_masterAttempt hattempt hpart (by rw [hs, List.append_assoc]) hkind

theorem parseSlave_of_attempts (hpart : SlavePart part) (rejected : Bool)
    (hs : s.bytes = front ++ (attempts (checked part) rejected ++ [Symbols.ack]))
    (hlogical : s.extended = false) :
    t.parseSlave s front.length = t.withSlave part Symbols.ack := by
  obtain ⟨attempt, hattempt, heq⟩ := slaveAttempt_of_attempts hpart rejected
  rw [heq, List.append_assoc] at hs
  exact t.parseSlave_of_slaveAttempt hattempt hpart hs hlogical

end Parts

end Telegram

open Telegram

theorem unstuff_attempts (part : List UInt8) (rejected : Bool) (rest : List UInt8) :
    unstuff (attempts (wire part) rejected ++ rest) =
      attempts (checked part) rejected ++ unstuff rest := by
  cases rejected with
  | false => exact unstuff_stuff_append _ _
  | true =>
      rw [attempts, if_pos rfl, attempts, if_pos rfl, wire, List.append_assoc, List.cons_append,
        unstuff_stuff_append, unstuff_cons_of_ne (by decide), unstuff_stuff_append]
      simp [checked]

namespace Dialogue

variable {x : Dialogue}

theorem framed_master : (frameMaster x.source x.payload).bytes = wire x.master :=
  frameMaster_bytes _ _

theorem reduce_wireBytes : ({ bytes := x.wireBytes, extended := true } : Sequence).reduce =
    { bytes := attempts (checked x.master) x.masterNak ++ unstuff x.reply } := by
  rw [reduce_of_wire rfl, wireBytes, framed_master]
  exact congrArg (fun bytes => ({ bytes } : Sequence)) (unstuff_attempts _ _ _)

/-- The telegram that an exchange is decoded to. -/
def telegram (x : Dialogue) : Telegram :=
  if x.kind = .masterSlave then (withMaster {} x.master Symbols.ack).withSlave x.slave Symbols.ack
  else withMaster {} x.master Symbols.ack

theorem makeTelegram_eq (h : x.WellFormed) : makeTelegram x.wireBytes = x.telegram := by
  have hreduce := x.reduce_wireBytes
  rw [makeTelegram, telegram]
  generalize ({ bytes := x.wireBytes, extended := true } : Sequence) = s at hreduce ⊢
  cases hkind : x.kind with
  | undefined => exact absurd hkind (typeOf_ne_undefined _)
  | broadcast =>
      have hbytes : s.reduce.bytes = checked x.master ++ [] := by
        simp [hreduce, h.unacknowledged hkind, reply, hkind, attempts, unstuff]
      rw [parse_broadcast {} h.master hbytes hkind, if_neg (by decide)]
  | masterMaster =>
      have hbytes : s.reduce.bytes =
          attempts (checked x.master) x.masterNak ++ Symbols.ack :: [] := by
        simp [hreduce, reply, hkind, unstuff]
      have htype : typeOf (x.master.getD 1 0) = .masterMaster := hkind
      rw [parse_of_attempts {} h.master x.masterNak hbytes (by rw [htype]; decide),
        parseRest_withMaster, htype]
      rfl
  | masterSlave =>
      have hbytes : s.reduce.bytes = attempts (checked x.master) x.masterNak ++
          Symbols.ack :: (attempts (checked x.slave) x.slaveNak ++ [Symbols.ack]) := by
        simp only [hreduce, reply, hkind, frameSlave_bytes]
        rw [unstuff_cons_of_ne (by decide), unstuff_attempts]
        rfl
      have htype : typeOf (x.master.getD 1 0) = .masterSlave := hkind
      rw [parse_of_attempts {} h.master x.masterNak hbytes (by rw [htype]; decide),
        parseRest_withMaster, htype, if_pos rfl, if_pos rfl]
      exact parseSlave_of_attempts _ (h.slave hkind) x.slaveNak (by simp [hbytes])
        s.reduce_extended

/-- The batch decoder accepts every exchange and finds its parts and its kind. -/
theorem makeTelegram_wireBytes (h : x.WellFormed) :
    (makeTelegram x.wireBytes).isValid = true ∧
    (makeTelegram x.wireBytes).telegramType = x.kind ∧
    (makeTelegram x.wireBytes).master.bytes = x.master ∧
    (makeTelegram x.wireBytes).slave.bytes = x.slave := by
  rw [makeTelegram_eq h, telegram]
  by_cases hkind : x.kind = .masterSlave
  · rw [if_pos hkind]
    exact ⟨by simp [isValid], rfl, rfl, rfl⟩
  · obtain ⟨hslave, -⟩ := h.unanswered hkind
    have htype : (withMaster {} x.master Symbols.ack).telegramType ≠ .masterSlave := hkind
    rw [if_neg hkind, hslave]
    exact ⟨by rw [isValid, if_pos htype]; rfl, rfl, rfl, rfl⟩

end Dialogue

end Ebus
