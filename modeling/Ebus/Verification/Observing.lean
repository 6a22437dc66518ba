import Mathlib.Data.List.Induction
import Ebus.Core.BusHandler
import Ebus.Protocol.Counting
import Ebus.Protocol.Dialogue

/-!
# Observing the exchanges of others

The engine follows an exchange between two other participants byte by byte. This
module shows that it finds the end of each part where the framing has put it, and
follows the acknowledges to one report with the two parts of the exchange.

`Observer` is what the engine shows of this work; each phase of an exchange is one
equation for it. The repeat flags of the engine and the slave part of its telegram are
not cleared at a SYN when the buffers are empty, so that `Receptive` has to exclude what
an exchange that was given up has left in them.
-/

namespace Ebus

open Sequence Telegram

/-- The first `head` bytes need no escape, and the last of them is the number of bytes
that follow. -/
structure Announced (head : Nat) (part : List UInt8) : Prop where
  pos : 0 < head
  plain : ∀ b ∈ part.take head, Symbols.needsEscape b = false
  length : part.length = head + (part.getD (head - 1) 0).toNat

theorem MasterPart.announced {part : List UInt8} (h : MasterPart part) : Announced 5 part := by
  obtain ⟨hlow, -⟩ := h.length_bounds
  refine ⟨by omega, ?_, h.length⟩
  intro b hb
  have hsplit : part.take 5 = part.take 4 ++ [part.getD 4 0] := by
    rw [List.take_add_one, List.getElem?_eq_getElem (by omega)]
    simp [List.getD_eq_getElem?_getD, List.getElem?_eq_getElem (by omega : 4 < part.length)]
  rw [hsplit, List.mem_append, List.mem_singleton] at hb
  obtain hb | rfl := hb
  · exact h.plainHead b hb
  · exact needsEscape_of_le_maxDataBytes h.count

theorem SlavePart.announced {part : List UInt8} (h : SlavePart part) : Announced 1 part := by
  obtain ⟨hlow, -⟩ := h.length_bounds
  refine ⟨by omega, ?_, h.length⟩
  obtain ⟨count, rest, rfl⟩ := List.exists_cons_of_ne_nil h.ne_nil
  intro b hb
  obtain rfl : b = count := by simpa using hb
  exact needsEscape_of_le_maxDataBytes h.count

namespace Announced

variable {head : Nat} {part : List UInt8} (h : Announced head part)

include h

theorem wire_eq :
    wire part = part.take head ++ stuff (part.drop head ++ [calculateCRC part false]) := by
  have hplain : stuff (part.take head) = part.take head := code.stuff_eq_self h.plain
  conv_lhs => rw [wire, ← List.take_append_drop head part, List.append_assoc, stuff_append, hplain,
    List.take_append_drop]

theorem length_take : (part.take head).length = head := by
  have := h.length
  rw [List.length_take]
  omega

/-- The head goes over the wire as it is. -/
theorem wire_getD {i : Nat} (hi : i < head) : (wire part).getD i 0 = part.getD i 0 := by
  have := h.length_take
  rw [h.wire_eq, List.getD_eq_getElem?_getD, List.getElem?_append_left (by omega),
    List.getElem?_take_of_lt hi, List.getD_eq_getElem?_getD]

theorem count_take : (part.take head).count Symbols.ext = 0 := by
  rw [List.count_eq_zero]
  intro hmem
  have hplain := h.plain _ hmem
  simp [Symbols.needsEscape] at hplain

/-- The length of a framed part: its head, the data, the check sum and the escapes. -/
theorem length_wire : (wire part).length =
    head + (part.getD (head - 1) 0).toNat + 1 + (wire part).count Symbols.ext := by
  have hlength := code.length_stuff (part ++ [calculateCRC part false])
  have hcount := code.count_esc_stuff (part ++ [calculateCRC part false])
  change (wire part).length = _ at hlength
  change (wire part).count Symbols.ext = _ at hcount
  rw [hlength, hcount, List.length_append, List.length_singleton, h.length]

variable {front back : List UInt8} {byte : UInt8} (hwire : wire part = front ++ byte :: back)

include hwire

/-- The byte that is stored last of the head is the announcement. -/
theorem byte_eq (hi : front.length < head) : byte = part.getD front.length 0 := by
  rw [← h.wire_getD hi, hwire]
  simp [List.getD_eq_getElem?_getD]

theorem count_front (hi : front.length ≤ head) : front.count Symbols.ext = 0 := by
  have hlen := h.length_take
  have hprefix : front <+: part.take head := by
    have hfront : front <+: wire part := ⟨_, hwire.symm⟩
    have htake : part.take head <+: wire part := ⟨_, h.wire_eq.symm⟩
    exact List.prefix_of_prefix_length_le hfront htake (by omega)
  have := hprefix.sublist.count_le Symbols.ext
  have := h.count_take
  omega

/-- One byte of a framed part: the expected length stays in step with the escapes, and
it is reached with the last byte and not before. -/
theorem nextDbx_step {dbx : Nat} (hdbx : head ≤ front.length →
      dbx = (part.getD (head - 1) 0).toNat + front.count Symbols.ext) :
    (head ≤ front.length + 1 →
      Handler.nextDbx (front.length + 1 = head) byte byte dbx =
        (part.getD (head - 1) 0).toNat + (front ++ [byte]).count Symbols.ext) ∧
    (head + Handler.nextDbx (front.length + 1 = head) byte byte dbx + 1 ≤ front.length + 1 ↔
      back = []) := by
  have hcounted : head ≤ front.length + 1 →
      Handler.nextDbx (front.length + 1 = head) byte byte dbx =
        (part.getD (head - 1) 0).toNat + (front ++ [byte]).count Symbols.ext := by
    intro hle
    rw [List.count_append, List.count_singleton]
    by_cases hstored : front.length + 1 = head
    · have hbyte := h.byte_eq hwire (by omega)
      have hcount := h.count_front hwire (by omega)
      rw [show front.length = head - 1 by omega] at hbyte
      rw [← hbyte]
      simp [Handler.nextDbx, hstored, hcount]
    · rw [Handler.nextDbx, decide_eq_false hstored, hdbx (by omega)]
      simp [Nat.add_assoc]
  refine ⟨hcounted, ?_⟩
  have hlength := h.length_wire
  rw [hwire] at hlength
  have hsplit : (front ++ byte :: back).count Symbols.ext =
      (front ++ [byte]).count Symbols.ext + back.count Symbols.ext := by
    rw [← List.count_append]
    simp
  have htotal : (front ++ byte :: back).length = front.length + 1 + back.length := by
    simp
    omega
  constructor
  · intro hdone
    by_contra hback
    have hstuffed : code.stuff (part ++ [calculateCRC part false]) = front ++ [byte] ++ back := by
      rw [List.append_assoc]
      exact hwire
    have hlt := code.count_esc_suffix_lt hstuffed hback
    change back.count Symbols.ext < _ at hlt
    have := hcounted (by omega)
    omega
  · rintro rfl
    have := h.length_take
    have hshort : head ≤ front.length + 1 := by
      rw [List.count_nil] at hsplit
      simp only [List.length_nil] at htotal
      omega
    have := hcounted hshort
    rw [List.count_nil] at hsplit
    simp only [List.length_nil] at htotal
    omega

end Announced

/-- What the protocol callback says about an exchange. -/
structure Report where
  isError : Bool := false
  messageType : MessageType := .undefined
  telegramType : TelegramType := .undefined
  masterView : List UInt8
  slaveView : List UInt8
  deriving DecidableEq, Repr

def Effect.report : Effect → Option Report
  | .protocol info => some
      { isError := info.isError, messageType := info.messageType
        telegramType := info.telegramType, masterView := info.masterView
        slaveView := info.slaveView }
  | _ => none

namespace Handler

/-- The calls of the protocol callback so far. -/
def reports (h : Handler) : List Report := h.log.filterMap Effect.report

/-- The bytes written so far. -/
def writes (h : Handler) : List UInt8 := h.log.filterMap Effect.written

end Handler

/-- The part of the engine that observed traffic moves. -/
@[ext] structure Observer where
  state : HandlerState
  masterBuffer : List UInt8
  slaveBuffer : List UInt8
  masterRepeated : Bool
  slaveRepeated : Bool
  kind : TelegramType
  master : List UInt8
  slave : List UInt8
  sourceAddress : UInt8
  targetAddress : UInt8
  activeMessage : Bool
  activeMaster : List UInt8
  activeSlave : List UInt8
  reports : List Report
  writes : List UInt8

namespace Observer

variable (o : Observer)

/-- Everything that belongs to one exchange is dropped. -/
def fresh : Observer :=
  { o with state := .passiveReceiveMaster, masterBuffer := [], slaveBuffer := []
           masterRepeated := false, slaveRepeated := false
           kind := .undefined, master := [], slave := [] }

def reported (report : Report) : Observer := { o.fresh with reports := o.reports ++ [report] }

/-- A rejected master part is expected once more. -/
def rejectedMaster : Observer :=
  { o with state := .passiveReceiveMaster, masterBuffer := [], masterRepeated := true
           kind := .undefined, master := [], slave := [] }

def rejectedSlave : Observer :=
  { o with state := .passiveReceiveSlave, slaveBuffer := [], slaveRepeated := true }

def heardMaster (part : List UInt8) : Observer :=
  { o with state := .passiveReceiveMasterAcknowledge, masterBuffer := checked part
           kind := typeOf (part.getD 1 0), master := part }

def heardSlave (part : List UInt8) : Observer :=
  { o with state := .passiveReceiveSlaveAcknowledge, slaveBuffer := checked part, slave := part }

end Observer

namespace Handler

def observer (h : Handler) : Observer where
  state := h.state
  masterBuffer := h.passiveMaster.bytes
  slaveBuffer := h.passiveSlave.bytes
  masterRepeated := h.passiveMasterRepeated
  slaveRepeated := h.passiveSlaveRepeated
  kind := h.passiveTelegram.telegramType
  master := h.passiveTelegram.master.bytes
  slave := h.passiveTelegram.slave.bytes
  sourceAddress := h.sourceAddress
  targetAddress := h.targetAddress
  activeMessage := h.activeMessage
  activeMaster := h.activeMaster.bytes
  activeSlave := h.activeSlave.bytes
  reports := h.reports
  writes := h.writes

/-- A byte of others: no flags, and no answer from the reactive callback. -/
def watch (h : Handler) (byte : UInt8) : Handler := BusHandler.onBusEvent h { byte } {}

def watchAll (h : Handler) (bytes : List UInt8) : Handler := bytes.foldl watch h

@[simp] theorem watchAll_nil (h : Handler) : h.watchAll [] = h := rfl

@[simp] theorem watchAll_cons (h : Handler) (byte : UInt8) (bytes : List UInt8) :
    h.watchAll (byte :: bytes) = (h.watch byte).watchAll bytes := rfl

theorem watchAll_append (h : Handler) (xs ys : List UInt8) :
    h.watchAll (xs ++ ys) = (h.watchAll xs).watchAll ys := List.foldl_append ..

theorem run_feed (h : Handler) (bytes : List UInt8) :
    Runs.run BusHandler.step h (BusHandler.feed bytes) = h.watchAll bytes :=
  List.foldl_map ..

/-- The engine when the arbitration has seen the byte. -/
@[simps] def listening (h : Handler) (request : Request) : Handler :=
  { h with request, lastResult := request.result, pendingWrite := none }

/-- What a byte does is one branch of the engine as it is; the arbitration plays no part. -/
theorem watch_rule {h : Handler} {byte : UInt8} {P : Handler → Prop}
    (branch : ∀ request d, Branch (h.listening request) byte {} d → P d.flush) :
    P (h.watch byte) := by
  obtain ⟨d, hbranch, heq⟩ := BusHandler.onBusEvent_branch h { byte } {}
  obtain ⟨request, hready⟩ := h.ready_of_quiet { byte } rfl
  have hstate : h.requestedState { byte } = h.state := by simp [requestedState]
  rw [hready, hstate] at hbranch
  rw [watch, heq]
  exact branch request d hbranch

/-- A report at the end of an exchange. -/
theorem reported_observer (h : Handler) (hs : h.state = .passiveReceiveMaster)
    (messageType : MessageType) (telegramType : TelegramType) (masterView slaveView : List UInt8) :
    (h.callOnTelegram messageType telegramType masterView slaveView).callPassiveReset.observer =
      h.observer.reported { messageType, telegramType, masterView, slaveView } := by
  simp [observer, reports, writes, Observer.reported, Observer.fresh, Effect.report,
    Effect.written, hs]

theorem flush_of_quiet {h : Handler} (hquiet : h.pendingWrite = none) : h.flush = h := by
  rw [flush, hquiet]

section Phases

variable {h : Handler}

/-- A SYN finds nothing to give up. -/
theorem watch_syn (hs : h.state = .passiveReceiveMaster) (hmessage : h.activeMessage = false)
    (hbuffers : h.passiveMaster.bytes = [] ∧ h.passiveSlave.bytes = [] ∧
      h.activeMaster.bytes = [] ∧ h.activeSlave.bytes = []) :
    (h.watch Symbols.syn).observer = h.observer := by
  apply watch_rule (P := fun a => a.observer = h.observer)
  intro request d hb
  obtain ⟨hm, hs', ham, has⟩ := hbuffers
  cases hb
  case syn =>
    simp [receiveSyn, checkPassiveBuffers, checkActiveBuffers, hm, hs', ham, has, hmessage, size,
      flush, observer, reports, writes]
  case rejectedByte hbyte _ => exact absurd rfl hbyte
  case buffered hbyte _ _ => exact absurd rfl hbyte
  all_goals first
    | exact absurd rfl (by assumption : CompletesMaster _ _).1
    | simp_all

/-- The acknowledge of a message to another master ends the exchange. -/
theorem watch_ack_masterMaster (hs : h.state = .passiveReceiveMasterAcknowledge)
    (hkind : h.passiveTelegram.telegramType = .masterMaster) :
    (h.watch Symbols.ack).observer = h.observer.reported
      { messageType := .passive, telegramType := .masterMaster
        masterView := h.observer.master, slaveView := h.observer.slave } := by
  apply watch_rule (P := fun a => a.observer = _)
  intro request d hb
  cases hb
  case ackedMasterMaster =>
    simp [flush, observer, reports, writes, Observer.reported, Observer.fresh, Effect.report,
      Effect.written]
  case nackedMaster hbyte _ _ => exact absurd rfl hbyte
  case badMasterAck hbyte _ => exact absurd rfl hbyte
  all_goals simp_all

theorem watch_ack_masterSlave (hs : h.state = .passiveReceiveMasterAcknowledge)
    (hkind : h.passiveTelegram.telegramType ≠ .masterMaster) :
    (h.watch Symbols.ack).observer = { h.observer with state := .passiveReceiveSlave } := by
  apply watch_rule (P := fun a => a.observer = _)
  intro request d hb
  cases hb
  case ackedMaster => simp [flush, observer, reports, writes]
  case nackedMaster hbyte _ _ => exact absurd rfl hbyte
  case badMasterAck hbyte _ => exact absurd rfl hbyte
  all_goals simp_all

theorem watch_nak_master (hs : h.state = .passiveReceiveMasterAcknowledge)
    (hrepeated : h.passiveMasterRepeated = false) :
    (h.watch Symbols.nak).observer = h.observer.rejectedMaster := by
  apply watch_rule (P := fun a => a.observer = _)
  intro request d hb
  cases hb
  case nackedMaster =>
    simp [flush, observer, reports, writes, Observer.rejectedMaster, Effect.report, Effect.written]
  case badMasterAck hrep => simp_all [show Symbols.nak ≠ Symbols.syn by decide]
  case ackedMasterMaster hbyte _ => exact absurd hbyte (by decide)
  case ackedMaster hbyte _ => exact absurd hbyte (by decide)
  all_goals simp_all

/-- A second reject is taken for an error, also when the first one was another exchange's. -/
theorem watch_nak_master_repeated (hs : h.state = .passiveReceiveMasterAcknowledge)
    (hrepeated : h.passiveMasterRepeated = true) :
    (h.watch Symbols.nak).observer = h.observer.reported
      { isError := true, masterView := h.observer.masterBuffer
        slaveView := h.observer.slaveBuffer } := by
  apply watch_rule (P := fun a => a.observer = _)
  intro request d hb
  cases hb
  case badMasterAck =>
    simp [flush, observer, reports, writes, Observer.reported, Observer.fresh, Effect.report,
      Effect.written]
  case ackedMasterMaster hbyte _ => exact absurd hbyte (by decide)
  case ackedMaster hbyte _ => exact absurd hbyte (by decide)
  all_goals simp_all

theorem watch_ack_slave (hs : h.state = .passiveReceiveSlaveAcknowledge) :
    (h.watch Symbols.ack).observer = h.observer.reported
      { messageType := .passive, telegramType := .masterSlave
        masterView := h.observer.master, slaveView := h.observer.slave } := by
  apply watch_rule (P := fun a => a.observer = _)
  intro request d hb
  cases hb
  case ackedSlave =>
    simp [flush, observer, reports, writes, Observer.reported, Observer.fresh, Effect.report,
      Effect.written]
  case nackedSlave hbyte _ => exact absurd hbyte (by decide)
  case badSlaveAck hbyte _ => exact absurd rfl hbyte
  all_goals simp_all

theorem watch_nak_slave (hs : h.state = .passiveReceiveSlaveAcknowledge)
    (hrepeated : h.passiveSlaveRepeated = false) :
    (h.watch Symbols.nak).observer = h.observer.rejectedSlave := by
  apply watch_rule (P := fun a => a.observer = _)
  intro request d hb
  cases hb
  case nackedSlave => simp [flush, observer, reports, writes, Observer.rejectedSlave]
  case ackedSlave hbyte => exact absurd hbyte (by decide)
  all_goals simp_all

theorem watch_nak_slave_repeated (hs : h.state = .passiveReceiveSlaveAcknowledge)
    (hrepeated : h.passiveSlaveRepeated = true) :
    (h.watch Symbols.nak).observer = h.observer.reported
      { isError := true, masterView := h.observer.masterBuffer
        slaveView := h.observer.slaveBuffer } := by
  apply watch_rule (P := fun a => a.observer = _)
  intro request d hb
  cases hb
  case badSlaveAck =>
    simp [flush, observer, reports, writes, Observer.reported, Observer.fresh, Effect.report,
      Effect.written]
  case ackedSlave hbyte => exact absurd hbyte (by decide)
  all_goals simp_all

end Phases

theorem reduce_wire (part : List UInt8) :
    ({ bytes := wire part, extended := true } : Sequence).reduce = { bytes := checked part } := by
  rw [reduce_of_wire rfl, wire, unstuff_stuff]
  rfl

theorem createMaster_wire (t : Telegram) {part : List UInt8} (hpart : MasterPart part) :
    t.createMaster { bytes := wire part, extended := true } =
      (t.withMaster part t.masterAck, { bytes := checked part }) := by
  rw [Telegram.createMaster, reduce_wire]
  exact congrArg (·, _) (checkMaster_of_part t hpart)

theorem createSlave_wire (t : Telegram) {part : List UInt8} (hpart : SlavePart part) :
    t.createSlave { bytes := wire part, extended := true } =
      (t.withSlave part t.slaveAck, { bytes := checked part }) := by
  rw [Telegram.createSlave, reduce_wire]
  exact congrArg (·, _) (checkSlave_of_part t hpart)

section Master

variable {h : Handler} {part front back : List UInt8} {byte : UInt8} (hpart : MasterPart part)
  (hwire : wire part = front ++ byte :: back)

theorem bufferMaster_dbx (h : Handler) (byte : UInt8) : (h.bufferMaster byte).passiveMasterDbx =
    nextDbx (h.passiveMaster.bytes.length + 1 = 5) byte byte h.passiveMasterDbx := by
  rw [bufferMaster_passiveMasterDbx]
  by_cases hlen : h.passiveMaster.bytes.length + 1 = 5
  · have hget : (h.passiveMaster.pushBack byte true).get 4 = byte := by
      simp [pushBack, Sequence.get, ← (show h.passiveMaster.bytes.length = 4 by omega)]
    rw [hget]
    simp [pushBack, size]
  · simp [pushBack, size, hlen, nextDbx]

theorem bufferMaster_observer (h : Handler) (byte : UInt8) : (h.bufferMaster byte).observer =
    { h.observer with masterBuffer := h.passiveMaster.bytes ++ [byte] } := by
  simp only [observer, reports, writes, bufferMaster_log, List.filterMap_append]
  split <;> simp [Effect.report, Effect.written, pushBack]

include hwire in
theorem byte_ne_syn : byte ≠ Symbols.syn := by
  rintro rfl
  apply syn_not_mem_stuff (part ++ [calculateCRC part false])
  rw [← wire, hwire]
  simp

include hpart hwire

/-- The plausibility filter lets every byte of a well-formed part pass. -/
theorem headerByteOk_of_part : headerByteOk front.length byte = true := by
  have hbyte (hi : front.length < 5) := hpart.announced.byte_eq hwire hi
  have hplain (hi : Symbols.needsEscape byte = false) :
      (byte != Symbols.syn && byte != Symbols.ext) = true := isTarget_iff.mpr
    (needsEscape_eq_false_iff.mp hi)
  unfold headerByteOk
  split_ifs with h0 h1 h23 h4
  · rw [hbyte (by omega), h0]
    exact hpart.source
  · rw [hbyte (by omega), h1]
    exact hpart.target
  · apply hplain
    rw [hbyte (by omega)]
    obtain h2 | h3 := h23
    · rw [h2]
      exact hpart.primary
    · rw [h3]
      exact hpart.secondary
  · rw [hbyte (by omega), h4, decide_eq_true_iff, UInt8.le_iff_toNat_le]
    exact hpart.count
  · rfl

variable (hbytes : h.passiveMaster.bytes = front)
  (hdbx : 5 ≤ front.length →
    h.passiveMasterDbx = (part.getD 4 0).toNat + front.count Symbols.ext)

include hbytes hdbx

theorem completesMaster_iff : h.CompletesMaster byte ↔ back = [] := by
  obtain ⟨-, hdone⟩ := hpart.announced.nextDbx_step hwire hdbx
  rw [CompletesMaster, bufferMaster_dbx, hbytes, ← hdone]
  have hok := headerByteOk_of_part hpart hwire
  simp only [bufferMaster_passiveMaster, pushBack, size, hbytes, hok, List.length_append,
    List.length_singleton, byte_ne_syn hwire, ne_eq, not_false_eq_true, true_and]

theorem watch_buffered (hs : h.state = .passiveReceiveMaster) (hback : back ≠ []) :
    (h.watch byte).observer = { h.observer with masterBuffer := front ++ [byte] } ∧
    (5 ≤ front.length + 1 → (h.watch byte).passiveMasterDbx =
      (part.getD 4 0).toNat + (front ++ [byte]).count Symbols.ext) := by
  obtain ⟨hcount, -⟩ := hpart.announced.nextDbx_step hwire hdbx
  have hok := headerByteOk_of_part hpart hwire
  apply watch_rule (P := fun a => a.observer = _ ∧ (_ → a.passiveMasterDbx = _))
  intro request d hb
  have hmore := (completesMaster_iff (h := h.listening request) hpart hwire hbytes hdbx).not.mpr
    hback
  cases hb
  case buffered =>
    rw [flush_of_quiet (by simp), bufferMaster_observer, bufferMaster_dbx]
    refine ⟨?_, ?_⟩
    · rw [← hbytes]
      rfl
    · rw [← hbytes] at hcount ⊢
      exact hcount
  case rejectedByte hbad => simp_all [size]
  case syn hsyn => exact absurd hsyn (byte_ne_syn hwire)
  all_goals first
    | exact absurd (by assumption) hmore
    | exact absurd (hs.symm.trans ‹(h.listening request).state = _›) (by decide)

omit hwire hdbx hbytes in
/-- A complete master part that passes its check. -/
theorem checkedMaster_observer (hwire : wire part = h.passiveMaster.bytes ++ [byte]) :
    (h.checkedMaster byte).passiveTelegram =
      h.passiveTelegram.withMaster part h.passiveTelegram.masterAck ∧
    (h.checkedMaster byte).passiveMaster = { bytes := checked part } ∧
    (h.checkedMaster byte).observer =
      { h.observer with masterBuffer := checked part, kind := typeOf (part.getD 1 0)
                        master := part } := by
  have hcreate := createMaster_wire h.passiveTelegram hpart
  have hpush : h.passiveMaster.pushBack byte true = { bytes := wire part, extended := true } := by
    rw [pushBack, hwire]
  rw [← hpush] at hcreate
  have ht : (h.checkedMaster byte).passiveTelegram =
      h.passiveTelegram.withMaster part h.passiveTelegram.masterAck := by
    rw [checkedMaster_passiveTelegram, hcreate]
  have hm : (h.checkedMaster byte).passiveMaster = { bytes := checked part } := by
    rw [checkedMaster_passiveMaster, ← createMaster_snd h.passiveTelegram, hcreate]
  have hobserver : (h.checkedMaster byte).observer =
      { (h.bufferMaster byte).observer with
        masterBuffer := (h.checkedMaster byte).passiveMaster.bytes
        kind := (h.checkedMaster byte).passiveTelegram.telegramType
        master := (h.checkedMaster byte).passiveTelegram.master.bytes
        slave := (h.checkedMaster byte).passiveTelegram.slave.bytes } := by
    simp [observer, reports, writes, checkedMaster, Effect.report, Effect.written]
  refine ⟨ht, hm, ?_⟩
  rw [hobserver, ht, hm, bufferMaster_observer]
  rfl

/-- The last byte of a broadcast. -/
theorem watch_broadcast (hs : h.state = .passiveReceiveMaster) (hback : back = [])
    (hkind : typeOf (part.getD 1 0) = .broadcast) :
    (h.watch byte).observer = h.observer.reported
      { messageType := .passive, telegramType := .broadcast
        masterView := part, slaveView := h.observer.slave } := by
  apply watch_rule (P := fun a => a.observer = _)
  intro request d hb
  have hdone := (completesMaster_iff (h := h.listening request) hpart hwire hbytes hdbx).mpr hback
  obtain ⟨ht, hm, hobserver⟩ := checkedMaster_observer hpart
    (show wire part = (h.listening request).passiveMaster.bytes ++ [byte] by
      rw [hwire, hback, ← hbytes]
      rfl)
  have hok : headerByteOk (h.listening request).passiveMaster.size byte = true := hdone.2.1
  cases hb
  case broadcast m hm' _ _ _ =>
    subst hm'
    rw [flush_of_quiet (by simp), reported_observer _ (by simpa using hs), hobserver, ht]
    rfl
  case buffered hmore => exact absurd hdone hmore
  case rejectedByte hbad => simp_all
  case syn hsyn => exact absurd hsyn (byte_ne_syn hwire)
  all_goals first
    | exact absurd (hs.symm.trans ‹(h.listening request).state = _›) (by decide)
    | simp_all

/-- The last byte of a master part for another participant. -/
theorem watch_master (hs : h.state = .passiveReceiveMaster) (hback : back = [])
    (hkind : typeOf (part.getD 1 0) ≠ .broadcast) (hsource : part.getD 1 0 ≠ h.sourceAddress)
    (htarget : part.getD 1 0 ≠ h.targetAddress) :
    (h.watch byte).observer = h.observer.heardMaster part := by
  apply watch_rule (P := fun a => a.observer = _)
  intro request d hb
  have hdone := (completesMaster_iff (h := h.listening request) hpart hwire hbytes hdbx).mpr hback
  obtain ⟨ht, hm, hobserver⟩ := checkedMaster_observer hpart
    (show wire part = (h.listening request).passiveMaster.bytes ++ [byte] by
      rw [hwire, hback, ← hbytes]
      rfl)
  have hok : headerByteOk (h.listening request).passiveMaster.size byte = true := hdone.2.1
  have haddress : ((h.listening request).checkedMaster byte).passiveMaster.get 1 =
      part.getD 1 0 := by
    obtain ⟨hlow, -⟩ := hpart.length_bounds
    rw [hm]
    exact getD_concat (by omega)
  cases hb
  case observed hm' _ _ _ _ _ =>
    subst hm'
    have hmoved (m : Handler) (hquiet : m.pendingWrite = none) :
        ((m.touch .passiveMaster 1).touch .passiveMaster 1
          |>.goto .passiveReceiveMasterAcknowledge).flush.observer =
        { m.observer with state := .passiveReceiveMasterAcknowledge } := by
      simp [flush, hquiet, observer, reports, writes, Effect.report, Effect.written]
    rw [hmoved _ (by simp), hobserver]
    rfl
  case forSource hm' _ _ _ haddr =>
    subst hm'
    exact absurd (haddress.symm.trans haddr) hsource
  case forTarget hm' _ _ _ _ haddr _ _ =>
    subst hm'
    exact absurd (haddress.symm.trans haddr) htarget
  case badAnswer hm' _ _ _ _ haddr _ _ =>
    subst hm'
    exact absurd (haddress.symm.trans haddr) htarget
  case broadcast hm' _ _ htype =>
    subst hm'
    rw [ht] at htype
    exact absurd htype hkind
  case buffered hmore => exact absurd hdone hmore
  case rejectedByte hbad => simp_all
  case syn hsyn => exact absurd hsyn (byte_ne_syn hwire)
  all_goals first
    | exact absurd (hs.symm.trans ‹(h.listening request).state = _›) (by decide)
    | simp_all

end Master

section Slave

variable {h : Handler} {part front back : List UInt8} {byte : UInt8} (hpart : SlavePart part)
  (hwire : wire part = front ++ byte :: back)

theorem bufferSlave_dbx (h : Handler) (byte : UInt8) : (h.bufferSlave byte).passiveSlaveDbx =
    nextDbx (h.passiveSlave.bytes.length + 1 = 1) byte byte h.passiveSlaveDbx := by
  simp [pushBack, size]

theorem bufferSlave_observer (h : Handler) (byte : UInt8) : (h.bufferSlave byte).observer =
    { h.observer with slaveBuffer := h.passiveSlave.bytes ++ [byte] } := rfl

variable (hbytes : h.passiveSlave.bytes = front)
  (hdbx : 1 ≤ front.length →
    h.passiveSlaveDbx = (part.getD 0 0).toNat + front.count Symbols.ext)

include hpart hwire hbytes

/-- The first byte of a slave part is a plausible count. -/
theorem count_of_part (hempty : h.passiveSlave.bytes = []) :
    ¬ SequenceLimits.maxDataBytes < byte := by
  have hnil : front = [] := hbytes.symm.trans hempty
  have hbyte := hpart.announced.byte_eq hwire (by simp [hnil])
  rw [hbyte, hnil]
  exact not_maxDataBytes_lt_iff.mpr hpart.count

include hdbx

theorem completesSlave_iff : 1 + (h.bufferSlave byte).passiveSlaveDbx + 1 ≤
    (h.bufferSlave byte).passiveSlave.size ↔ back = [] := by
  obtain ⟨-, hdone⟩ := hpart.announced.nextDbx_step hwire hdbx
  rw [bufferSlave_dbx, hbytes, ← hdone]
  simp only [bufferSlave_passiveSlave, pushBack, size, hbytes, List.length_append,
    List.length_singleton]

theorem watch_bufferedSlave (hs : h.state = .passiveReceiveSlave) (hback : back ≠ []) :
    (h.watch byte).observer = { h.observer with slaveBuffer := front ++ [byte] } ∧
    (1 ≤ front.length + 1 → (h.watch byte).passiveSlaveDbx =
      (part.getD 0 0).toNat + (front ++ [byte]).count Symbols.ext) := by
  obtain ⟨hcount, -⟩ := hpart.announced.nextDbx_step hwire hdbx
  apply watch_rule (P := fun a => a.observer = _ ∧ (_ → a.passiveSlaveDbx = _))
  intro request d hb
  have hmore := (completesSlave_iff (h := h.listening request) hpart hwire hbytes hdbx).not.mpr
    hback
  cases hb
  case bufferedSlave =>
    rw [flush_of_quiet (by simp), bufferSlave_observer, bufferSlave_dbx]
    refine ⟨?_, ?_⟩
    · rw [← hbytes]
      rfl
    · rw [← hbytes] at hcount ⊢
      exact hcount
  case rejectedSlave hempty hbad =>
    exact absurd hbad (count_of_part hpart hwire (h := h) hbytes hempty)
  case observedSlave hdone _ _ => exact absurd hdone hmore
  case observedBadSlave hdone _ _ => exact absurd hdone hmore
  all_goals exact absurd (hs.symm.trans ‹(h.listening request).state = _›) (by decide)

/-- The last byte of a slave part. -/
theorem watch_slave (hs : h.state = .passiveReceiveSlave) (hback : back = []) :
    (h.watch byte).observer = h.observer.heardSlave part := by
  apply watch_rule (P := fun a => a.observer = _)
  intro request d hb
  have hdone := (completesSlave_iff (h := h.listening request) hpart hwire hbytes hdbx).mpr hback
  have hpush : h.passiveSlave.pushBack byte true = { bytes := wire part, extended := true } := by
    rw [pushBack, hwire, hback, hbytes]
  have hcreate := createSlave_wire h.passiveTelegram hpart
  rw [← hpush] at hcreate
  have ht : ((h.listening request).checkedSlave byte).passiveTelegram =
      h.passiveTelegram.withSlave part h.passiveTelegram.slaveAck := by
    rw [checkedSlave_passiveTelegram, listening_passiveTelegram, listening_passiveSlave, hcreate]
  cases hb
  case observedSlave hm _ =>
    subst hm
    simp [flush, observer, reports, writes, Observer.heardSlave, checkedSlave, hcreate,
      Effect.report, Effect.written]
  case observedBadSlave hm hbad =>
    subst hm
    rw [ht] at hbad
    exact absurd rfl hbad
  case bufferedSlave hmore => exact absurd hdone (Nat.not_le.mpr hmore)
  case rejectedSlave hempty hbad =>
    exact absurd hbad (count_of_part hpart hwire (h := h) hbytes hempty)
  all_goals exact absurd (hs.symm.trans ‹(h.listening request).state = _›) (by decide)

end Slave

theorem watchAll_concat (h : Handler) (bytes : List UInt8) (byte : UInt8) :
    h.watchAll (bytes ++ [byte]) = (h.watchAll bytes).watch byte := by
  rw [watchAll_append]
  rfl

theorem exists_wire_concat (part : List UInt8) : ∃ front last, wire part = front ++ [last] := by
  obtain hnil | ⟨front, last, hconcat⟩ := List.eq_nil_or_concat (wire part)
  · have := code.stuff_eq_nil_iff.mp hnil
    simp at this
  · exact ⟨front, last, by simpa using hconcat⟩

section WholeMaster

variable {h : Handler} {part : List UInt8} (hpart : MasterPart part)
  (hs : h.state = .passiveReceiveMaster) (hempty : h.passiveMaster.bytes = [])

include hpart hs hempty

/-- All bytes of a master part but the last go into the buffer. -/
theorem watchAll_buffered {front back : List UInt8} (hwire : wire part = front ++ back)
    (hback : back ≠ []) :
    (h.watchAll front).observer = { h.observer with masterBuffer := front } ∧
    (5 ≤ front.length → (h.watchAll front).passiveMasterDbx =
      (part.getD 4 0).toNat + front.count Symbols.ext) := by
  induction front using List.reverseRecOn generalizing back with
  | nil =>
      refine ⟨?_, by simp⟩
      rw [watchAll_nil, ← hempty]
      rfl
  | append_singleton front byte ih =>
      rw [List.append_assoc] at hwire
      obtain ⟨hobserver, hdbx⟩ := ih hwire (by simp)
      have hstate : (h.watchAll front).state = .passiveReceiveMaster :=
        (congrArg Observer.state hobserver).trans hs
      obtain ⟨hnext, hcount⟩ := watch_buffered hpart hwire
        (congrArg Observer.masterBuffer hobserver) hdbx hstate hback
      rw [watchAll_concat]
      refine ⟨?_, ?_⟩
      · rw [hnext, hobserver]
      · rw [List.length_append]
        exact hcount

theorem watchAll_broadcast (hkind : typeOf (part.getD 1 0) = .broadcast) :
    (h.watchAll (wire part)).observer = h.observer.reported
      { messageType := .passive, telegramType := .broadcast
        masterView := part, slaveView := h.observer.slave } := by
  obtain ⟨front, last, hwire⟩ := exists_wire_concat part
  obtain ⟨hobserver, hdbx⟩ := watchAll_buffered hpart hs hempty hwire (by simp)
  rw [hwire, watchAll_concat, watch_broadcast hpart hwire
    (congrArg Observer.masterBuffer hobserver) hdbx
    ((congrArg Observer.state hobserver).trans hs) rfl hkind, hobserver]
  rfl

theorem watchAll_master (hkind : typeOf (part.getD 1 0) ≠ .broadcast)
    (hsource : part.getD 1 0 ≠ h.sourceAddress) (htarget : part.getD 1 0 ≠ h.targetAddress) :
    (h.watchAll (wire part)).observer = h.observer.heardMaster part := by
  obtain ⟨front, last, hwire⟩ := exists_wire_concat part
  obtain ⟨hobserver, hdbx⟩ := watchAll_buffered hpart hs hempty hwire (by simp)
  rw [hwire, watchAll_concat, watch_master hpart hwire
    (congrArg Observer.masterBuffer hobserver) hdbx
    ((congrArg Observer.state hobserver).trans hs) rfl hkind ?_ ?_, hobserver]
  · rfl
  · rwa [show (h.watchAll front).sourceAddress = h.sourceAddress from
      congrArg Observer.sourceAddress hobserver]
  · rwa [show (h.watchAll front).targetAddress = h.targetAddress from
      congrArg Observer.targetAddress hobserver]

end WholeMaster

section WholeSlave

variable {h : Handler} {part : List UInt8} (hpart : SlavePart part)
  (hs : h.state = .passiveReceiveSlave) (hempty : h.passiveSlave.bytes = [])

include hpart hs hempty

theorem watchAll_bufferedSlave {front back : List UInt8} (hwire : wire part = front ++ back)
    (hback : back ≠ []) :
    (h.watchAll front).observer = { h.observer with slaveBuffer := front } ∧
    (1 ≤ front.length → (h.watchAll front).passiveSlaveDbx =
      (part.getD 0 0).toNat + front.count Symbols.ext) := by
  induction front using List.reverseRecOn generalizing back with
  | nil =>
      refine ⟨?_, by simp⟩
      rw [watchAll_nil, ← hempty]
      rfl
  | append_singleton front byte ih =>
      rw [List.append_assoc] at hwire
      obtain ⟨hobserver, hdbx⟩ := ih hwire (by simp)
      have hstate : (h.watchAll front).state = .passiveReceiveSlave :=
        (congrArg Observer.state hobserver).trans hs
      obtain ⟨hnext, hcount⟩ := watch_bufferedSlave hpart hwire
        (congrArg Observer.slaveBuffer hobserver) hdbx hstate hback
      rw [watchAll_concat]
      refine ⟨?_, ?_⟩
      · rw [hnext, hobserver]
      · rw [List.length_append]
        exact hcount

theorem watchAll_slave :
    (h.watchAll (wire part)).observer = h.observer.heardSlave part := by
  obtain ⟨front, last, hwire⟩ := exists_wire_concat part
  obtain ⟨hobserver, hdbx⟩ := watchAll_bufferedSlave hpart hs hempty hwire (by simp)
  rw [hwire, watchAll_concat, watch_slave hpart hwire
    (congrArg Observer.slaveBuffer hobserver) hdbx
    ((congrArg Observer.state hobserver).trans hs) rfl, hobserver]
  rfl

end WholeSlave

/-- A master part that is rejected once is taken from its repetition. -/
theorem watchAll_masterAttempts {h : Handler} {part : List UInt8} (hpart : MasterPart part)
    (hs : h.state = .passiveReceiveMaster) (hempty : h.passiveMaster.bytes = [])
    (hkind : typeOf (part.getD 1 0) ≠ .broadcast) (hsource : part.getD 1 0 ≠ h.sourceAddress)
    (htarget : part.getD 1 0 ≠ h.targetAddress) {rejected : Bool}
    (hrepeated : rejected = true → h.passiveMasterRepeated = false) :
    (h.watchAll (attempts (wire part) rejected)).observer =
      (if rejected then h.observer.rejectedMaster else h.observer).heardMaster part := by
  have hfirst := watchAll_master hpart hs hempty hkind hsource htarget
  cases rejected with
  | false => exact hfirst
  | true =>
      rw [attempts, if_pos rfl, watchAll_append, watchAll_cons, if_pos rfl]
      generalize h.watchAll (wire part) = a at hfirst
      have hnak := watch_nak_master (congrArg Observer.state hfirst)
        ((congrArg Observer.masterRepeated hfirst).trans (hrepeated rfl))
      rw [hfirst] at hnak
      generalize a.watch Symbols.nak = b at hnak
      rw [watchAll_master hpart (congrArg Observer.state hnak)
        (congrArg Observer.masterBuffer hnak) hkind ?_ ?_, hnak]
      · rfl
      · rwa [show b.sourceAddress = h.sourceAddress from congrArg Observer.sourceAddress hnak]
      · rwa [show b.targetAddress = h.targetAddress from congrArg Observer.targetAddress hnak]

theorem watchAll_slaveAttempts {h : Handler} {part : List UInt8} (hpart : SlavePart part)
    (hs : h.state = .passiveReceiveSlave) (hempty : h.passiveSlave.bytes = []) {rejected : Bool}
    (hrepeated : rejected = true → h.passiveSlaveRepeated = false) :
    (h.watchAll (attempts (wire part) rejected)).observer =
      (if rejected then h.observer.rejectedSlave else h.observer).heardSlave part := by
  have hfirst := watchAll_slave hpart hs hempty
  cases rejected with
  | false => exact hfirst
  | true =>
      rw [attempts, if_pos rfl, watchAll_append, watchAll_cons, if_pos rfl]
      generalize h.watchAll (wire part) = a at hfirst
      have hnak := watch_nak_slave (congrArg Observer.state hfirst)
        ((congrArg Observer.slaveRepeated hfirst).trans (hrepeated rfl))
      rw [hfirst] at hnak
      generalize a.watch Symbols.nak = b at hnak
      rw [watchAll_slave hpart (congrArg Observer.state hnak)
        (congrArg Observer.slaveBuffer hnak), hnak]
      rfl

/-- The engine listens, with nothing buffered and nothing to send. -/
structure Idle (h : Handler) : Prop where
  state : h.state = .passiveReceiveMaster
  message : h.activeMessage = false
  passiveMaster : h.passiveMaster.bytes = []
  passiveSlave : h.passiveSlave.bytes = []
  activeMaster : h.activeMaster.bytes = []
  activeSlave : h.activeSlave.bytes = []

/-- Nothing of an exchange that was given up stands in the way of this one: a repeat flag
that it needs, or a slave part that would be reported with a message that has none. -/
@[mk_iff] structure Receptive (h : Handler) (x : Dialogue) : Prop where
  master : x.masterNak = true → h.passiveMasterRepeated = false
  slave : x.slaveNak = true → h.passiveSlaveRepeated = false
  view : x.kind ≠ .masterSlave → x.masterNak = false → h.passiveTelegram.slave.bytes = []

/-- What the engine reports, depending on the slave part that its telegram holds before. -/
def seen (h : Handler) (x : Dialogue) : Report where
  messageType := .passive
  telegramType := x.kind
  masterView := x.master
  slaveView := if x.kind = .masterSlave then x.slave
    else if x.masterNak then [] else h.observer.slave

/-- What is reported then is the exchange. -/
theorem Receptive.seen_eq {h : Handler} {x : Dialogue} (hreceptive : h.Receptive x)
    (hx : x.WellFormed) : h.seen x =
      { messageType := .passive, telegramType := x.kind, masterView := x.master
        slaveView := x.slave } := by
  by_cases hkind : x.kind = .masterSlave
  · simp [seen, hkind]
  · cases hnak : x.masterNak with
    | false => simp [seen, hkind, hnak, observer, hreceptive.view hkind hnak, hx.unanswered hkind]
    | true => simp [seen, hkind, hnak, hx.unanswered hkind]

theorem Idle.of_reported {h a : Handler} {report : Report} (hidle : h.Idle)
    (ha : a.observer = h.observer.reported report) : a.Idle where
  state := congrArg Observer.state ha
  message := (congrArg Observer.activeMessage ha).trans hidle.message
  passiveMaster := congrArg Observer.masterBuffer ha
  passiveSlave := congrArg Observer.slaveBuffer ha
  activeMaster := (congrArg Observer.activeMaster ha).trans hidle.activeMaster
  activeSlave := (congrArg Observer.activeSlave ha).trans hidle.activeSlave

theorem Idle.congr {h a : Handler} (hidle : h.Idle) (ha : a.observer = h.observer) : a.Idle where
  state := (congrArg Observer.state ha).trans hidle.state
  message := (congrArg Observer.activeMessage ha).trans hidle.message
  passiveMaster := (congrArg Observer.masterBuffer ha).trans hidle.passiveMaster
  passiveSlave := (congrArg Observer.slaveBuffer ha).trans hidle.passiveSlave
  activeMaster := (congrArg Observer.activeMaster ha).trans hidle.activeMaster
  activeSlave := (congrArg Observer.activeSlave ha).trans hidle.activeSlave

theorem receptive_congr {h a : Handler} {x : Dialogue} (ha : a.observer = h.observer) :
    a.Receptive x ↔ h.Receptive x := by
  have hmaster : a.passiveMasterRepeated = h.passiveMasterRepeated :=
    congrArg Observer.masterRepeated ha
  have hslave : a.passiveSlaveRepeated = h.passiveSlaveRepeated :=
    congrArg Observer.slaveRepeated ha
  have hview : a.passiveTelegram.slave.bytes = h.passiveTelegram.slave.bytes :=
    congrArg Observer.slave ha
  rw [receptive_iff, receptive_iff, hmaster, hslave, hview]

section Exchanges

variable {h : Handler} {x : Dialogue} (hidle : h.Idle) (hx : x.WellFormed)
  (hsource : x.target ≠ h.sourceAddress) (htarget : x.target ≠ h.targetAddress)

include hidle in
theorem Idle.watch_syn : (h.watch Symbols.syn).observer = h.observer :=
  Handler.watch_syn hidle.state hidle.message
    ⟨hidle.passiveMaster, hidle.passiveSlave, hidle.activeMaster, hidle.activeSlave⟩

include hidle hx hsource htarget

/-- The master part of an acknowledged message, up to its acknowledge. -/
theorem watchAll_framedMaster (hkind : x.kind ≠ .broadcast)
    (hmaster : x.masterNak = true → h.passiveMasterRepeated = false) :
    (h.watchAll (attempts (frameMaster x.source x.payload).bytes x.masterNak)).observer =
      (if x.masterNak then h.observer.rejectedMaster else h.observer).heardMaster x.master := by
  rw [Dialogue.framed_master]
  exact watchAll_masterAttempts hx.master hidle.state hidle.passiveMaster hkind hsource htarget
    hmaster

/-- The acknowledge of a message to a slave. -/
theorem watchAll_acknowledged (hkind : x.kind = .masterSlave)
    (hmaster : x.masterNak = true → h.passiveMasterRepeated = false) :
    (h.watchAll (attempts (frameMaster x.source x.payload).bytes x.masterNak ++
      [Symbols.ack])).observer =
      { (if x.masterNak then h.observer.rejectedMaster else h.observer).heardMaster x.master with
        state := .passiveReceiveSlave } := by
  have hheard := watchAll_framedMaster hidle hx hsource htarget (by simp [hkind]) hmaster
  rw [watchAll_concat]
  generalize h.watchAll (attempts (frameMaster x.source x.payload).bytes x.masterNak) = a
    at hheard
  have hother : a.passiveTelegram.telegramType ≠ .masterMaster := by
    rw [show a.passiveTelegram.telegramType = x.kind from congrArg Observer.kind hheard, hkind]
    decide
  rw [watch_ack_masterSlave (congrArg Observer.state hheard) hother, hheard]

/-- The engine then waits for the slave part, with the slave buffer still empty. -/
theorem awaits_slave (hkind : x.kind = .masterSlave)
    (hmaster : x.masterNak = true → h.passiveMasterRepeated = false) {a : Handler}
    (ha : a = h.watchAll (attempts (frameMaster x.source x.payload).bytes x.masterNak ++
      [Symbols.ack])) :
    a.state = .passiveReceiveSlave ∧ a.passiveSlave.bytes = [] ∧
      a.passiveSlaveRepeated = h.passiveSlaveRepeated ∧ a.reports = h.reports := by
  have hobserver := watchAll_acknowledged hidle hx hsource htarget hkind hmaster
  rw [← ha] at hobserver
  refine ⟨congrArg Observer.state hobserver, (congrArg Observer.slaveBuffer hobserver).trans ?_,
    (congrArg Observer.slaveRepeated hobserver).trans ?_,
    (congrArg Observer.reports hobserver).trans ?_⟩
  · split <;> exact hidle.passiveSlave
  · split <;> rfl
  · split <;> rfl

/-- An exchange that meets no left over repeat flag leads to one report. -/
theorem watchAll_wireBytes (hmaster : x.masterNak = true → h.passiveMasterRepeated = false)
    (hslave : x.slaveNak = true → h.passiveSlaveRepeated = false) :
    (h.watchAll x.wireBytes).observer = h.observer.reported (h.seen x) := by
  rw [Dialogue.wireBytes, watchAll_append]
  cases hkind : x.kind with
  | undefined => exact absurd hkind (typeOf_ne_undefined _)
  | broadcast =>
      have hheard := watchAll_broadcast hx.master hidle.state hidle.passiveMaster hkind
      have hreply : x.reply = [] := by rw [Dialogue.reply, hkind]
      rw [hreply, watchAll_nil, Dialogue.framed_master, hx.unacknowledged hkind, attempts,
        if_neg (by decide)]
      simpa [seen, hkind, hx.unacknowledged hkind] using hheard
  | masterMaster =>
      have hheard := watchAll_framedMaster hidle hx hsource htarget (by simp [hkind]) hmaster
      have hreply : x.reply = [Symbols.ack] := by rw [Dialogue.reply, hkind]
      generalize h.watchAll (attempts (frameMaster x.source x.payload).bytes x.masterNak) = a
        at hheard
      have hack := watch_ack_masterMaster (congrArg Observer.state hheard)
        ((congrArg Observer.kind hheard).trans hkind)
      rw [hreply, watchAll_cons, watchAll_nil, hack, hheard]
      simp only [seen, hkind]
      split <;> rfl
  | masterSlave =>
      have hreply : x.reply = [Symbols.ack] ++
          (attempts (wire x.slave) x.slaveNak ++ [Symbols.ack]) := by
        rw [Dialogue.reply, hkind, frameSlave_bytes]
        rfl
      have hacked := watchAll_acknowledged hidle hx hsource htarget hkind hmaster
      obtain ⟨hstate, hbuffer, hrepeated, -⟩ :=
        awaits_slave hidle hx hsource htarget hkind hmaster rfl
      rw [hreply, watchAll_append, ← watchAll_append h, watchAll_concat]
      generalize h.watchAll (attempts (frameMaster x.source x.payload).bytes x.masterNak ++
        [Symbols.ack]) = a at hacked hstate hbuffer hrepeated
      have hanswer := watchAll_slaveAttempts (hx.slave hkind) hstate hbuffer
        (hrepeated ▸ hslave)
      rw [watch_ack_slave (congrArg Observer.state hanswer), hanswer, hacked]
      simp only [seen, hkind]
      split <;> split <;> rfl

/-- A reject that the repeat flag takes for the second one is an error. -/
theorem error_of_masterRepeated (hnak : x.masterNak = true)
    (hrepeated : h.passiveMasterRepeated = true) :
    ∃ front back, x.wireBytes = front ++ back ∧
      ∃ report, report.isError = true ∧ (h.watchAll front).reports = h.reports ++ [report] := by
  have hkind : x.kind ≠ .broadcast := fun hkind => by simp [hx.unacknowledged hkind] at hnak
  have hheard := watchAll_master hx.master hidle.state hidle.passiveMaster hkind hsource htarget
  refine ⟨wire x.master ++ [Symbols.nak], wire x.master ++ x.reply, ?_, ?_⟩
  · simp [Dialogue.wireBytes, hnak, Dialogue.framed_master, attempts]
  · rw [watchAll_concat]
    generalize h.watchAll (wire x.master) = a at hheard
    have hfail := watch_nak_master_repeated (congrArg Observer.state hheard)
      ((congrArg Observer.masterRepeated hheard).trans hrepeated)
    rw [hheard] at hfail
    exact ⟨_, rfl, congrArg Observer.reports hfail⟩

theorem error_of_slaveRepeated (hmaster : x.masterNak = true → h.passiveMasterRepeated = false)
    (hnak : x.slaveNak = true) (hrepeated : h.passiveSlaveRepeated = true) :
    ∃ front back, x.wireBytes = front ++ back ∧
      ∃ report, report.isError = true ∧ (h.watchAll front).reports = h.reports ++ [report] := by
  have hkind : x.kind = .masterSlave := by
    by_contra hkind
    simp [(hx.unanswered hkind).2] at hnak
  obtain ⟨hstate, hbuffer, hflag, hreports⟩ :=
    awaits_slave hidle hx hsource htarget hkind hmaster rfl
  refine ⟨attempts (frameMaster x.source x.payload).bytes x.masterNak ++ [Symbols.ack] ++
    (wire x.slave ++ [Symbols.nak]), wire x.slave ++ [Symbols.ack], ?_, ?_⟩
  · simp [Dialogue.wireBytes, Dialogue.reply, hkind, hnak, frameSlave_bytes, attempts]
  · rw [watchAll_append, watchAll_concat]
    generalize h.watchAll (attempts (frameMaster x.source x.payload).bytes x.masterNak ++
      [Symbols.ack]) = a at hstate hbuffer hflag hreports
    have hanswer := watchAll_slave (hx.slave hkind) hstate hbuffer
    generalize a.watchAll (wire x.slave) = b at hanswer
    have hfail := watch_nak_slave_repeated (congrArg Observer.state hanswer)
      ((congrArg Observer.slaveRepeated hanswer).trans (hflag.trans hrepeated))
    rw [hanswer] at hfail
    rw [← hreports]
    exact ⟨_, rfl, congrArg Observer.reports hfail⟩

end Exchanges

theorem Branch.log_prefix {h d : Handler} {byte : UInt8} {response : Sequence}
    (hb : Branch h byte response d) : h.log <+: d.log := by
  cases hb
  case syn =>
    apply receiveSyn_rule (P := fun a => h.log <+: a.log)
    · exact List.prefix_rfl
    · intro _ _
      simp
    · intro a ha _ _
      exact ha.trans (by simp)
    · intro a ha _
      exact ha
  case refused ht => obtain ⟨-, rfl⟩ | ⟨-, rfl⟩ := ht <;> subst_vars <;> simp [checkedMaster]
  all_goals subst_vars
  all_goals simp [checkedMaster, checkedSlave, checkedActiveSlave, answered]

theorem watch_reports_grow (h : Handler) (byte : UInt8) : h.reports <+: (h.watch byte).reports := by
  apply watch_rule (P := fun a => h.reports <+: a.reports)
  intro request d hb
  have hlog : h.log <+: d.log := hb.log_prefix
  obtain hflush | ⟨b, hflush⟩ := d.flush_cases <;> rw [hflush]
  · exact hlog.filterMap _
  · exact (hlog.trans (List.prefix_append _ _)).filterMap _

theorem watchAll_reports_grow (h : Handler) (bytes : List UInt8) :
    h.reports <+: (h.watchAll bytes).reports := by
  induction bytes generalizing h with
  | nil => exact List.prefix_rfl
  | cons byte bytes ih => exact (h.watch_reports_grow byte).trans (ih _)

/-- Where an error comes first, the one report of the whole is not a telegram. -/
theorem isError_of_prefix {h : Handler} {front back : List UInt8} {error report : Report}
    (herror : (h.watchAll front).reports = h.reports ++ [error])
    (hall : (h.watchAll (front ++ back)).reports = h.reports ++ [report]) : error = report := by
  have hprefix := (h.watchAll front).watchAll_reports_grow back
  rw [← watchAll_append, herror, hall, List.prefix_append_right_inj] at hprefix
  simpa using hprefix

end Handler

namespace BusHandler

/-- From `h` to `h'` the exchange was reported once and as what it is, nothing was written,
and the engine listens again. The batch decoder reads the same from the wire. -/
structure ReportedOnce (x : Dialogue) (h h' : Handler) : Prop where
  reports : h'.reports = h.reports ++
    [{ messageType := .passive, telegramType := x.kind, masterView := x.master
       slaveView := x.slave }]
  writes : h'.writes = h.writes
  idle : h'.Idle
  valid : (makeTelegram x.wireBytes).isValid = true
  kind : (makeTelegram x.wireBytes).telegramType = x.kind
  master : (makeTelegram x.wireBytes).master.bytes = x.master
  slave : (makeTelegram x.wireBytes).slave.bytes = x.slave

/-- An exchange between two SYNs. -/
def traffic (x : Dialogue) : List Action :=
  feed (Symbols.syn :: x.wireBytes ++ [Symbols.syn])

theorem run_traffic (h : Handler) (x : Dialogue) : Runs.run step h (traffic x) =
    ((h.watch Symbols.syn).watchAll x.wireBytes).watch Symbols.syn := by
  rw [traffic, Handler.run_feed, List.cons_append, Handler.watchAll_cons, Handler.watchAll_concat]

/-- Every well-formed exchange of others is reported exactly once exactly if nothing that
an earlier exchange has left in the engine stands in its way. -/
theorem exchange_reported_once_iff {h : Handler} {x : Dialogue} (hidle : h.Idle)
    (hx : x.WellFormed) (hsource : x.target ≠ h.sourceAddress)
    (htarget : x.target ≠ h.targetAddress) :
    ReportedOnce x h (Runs.run step h (traffic x)) ↔ h.Receptive x := by
  have hsyn := hidle.watch_syn
  rw [run_traffic, ← Handler.receptive_congr hsyn]
  have hsource' : x.target ≠ (h.watch Symbols.syn).sourceAddress :=
    hsource.trans_eq (congrArg Observer.sourceAddress hsyn).symm
  have htarget' : x.target ≠ (h.watch Symbols.syn).targetAddress :=
    htarget.trans_eq (congrArg Observer.targetAddress hsyn).symm
  generalize h.watch Symbols.syn = a at hsyn hsource' htarget' ⊢
  have hreports : a.reports = h.reports := congrArg Observer.reports hsyn
  have hwrites : a.writes = h.writes := congrArg Observer.writes hsyn
  have hlisten := hidle.congr hsyn
  constructor
  · intro hreported
    have hall := hreported.reports
    rw [← hreports, ← Handler.watchAll_concat] at hall
    -- an error on the way would be the one report
    have hno {front back : List UInt8} {error : Report} (hsplit : x.wireBytes = front ++ back)
        (hbad : error.isError = true) :
        (a.watchAll front).reports ≠ a.reports ++ [error] := by
      intro herror
      rw [hsplit, List.append_assoc] at hall
      rw [Handler.isError_of_prefix herror hall] at hbad
      cases hbad
    have hmaster : x.masterNak = true → a.passiveMasterRepeated = false := by
      intro hnak
      by_contra hflag
      obtain ⟨front, back, hsplit, error, hbad, herror⟩ :=
        Handler.error_of_masterRepeated hlisten hx hsource' htarget' hnak (by simpa using hflag)
      exact hno hsplit hbad herror
    have hslave : x.slaveNak = true → a.passiveSlaveRepeated = false := by
      intro hnak
      by_contra hflag
      obtain ⟨front, back, hsplit, error, hbad, herror⟩ :=
        Handler.error_of_slaveRepeated hlisten hx hsource' htarget' hmaster hnak
          (by simpa using hflag)
      exact hno hsplit hbad herror
    refine ⟨hmaster, hslave, ?_⟩
    intro hkind hnak
    have hseen := Handler.watchAll_wireBytes hlisten hx hsource' htarget' hmaster hslave
    have hview := Handler.isError_of_prefix (congrArg Observer.reports hseen) hall
    have hslaveView := congrArg Report.slaveView hview
    simpa [Handler.seen, Handler.observer, hkind, hnak, (hx.unanswered hkind).1] using hslaveView
  · intro hreceptive
    have hseen := Handler.watchAll_wireBytes hlisten hx hsource' htarget' hreceptive.master
      hreceptive.slave
    have hrest := (hlisten.of_reported hseen).watch_syn
    rw [hseen] at hrest
    obtain ⟨hvalid, hkind, hmaster, hslave⟩ := Dialogue.makeTelegram_wireBytes hx
    refine ⟨?_, ?_, hlisten.of_reported hrest, hvalid, hkind, hmaster, hslave⟩
    · rw [← hreports, ← hreceptive.seen_eq hx]
      exact congrArg Observer.reports hrest
    · exact (congrArg Observer.writes hrest).trans hwrites

/-- A message to a slave with bytes that are stuffed, each part of it rejected once. -/
def rejectedTwice : Dialogue where
  source := 0x03
  payload := [0x08, 0x07, 0x04, 0x02, 0xaa, 0xa9]
  slave := [0x01, 0xaa]
  masterNak := true
  slaveNak := true

theorem exchange_reported_once_rejectedTwice :
    ReportedOnce rejectedTwice (Handler.create 0xff {})
      (Runs.run step (Handler.create 0xff {}) (traffic rejectedTwice)) ∧
    rejectedTwice.WellFormed ∧ (Handler.create 0xff {}).Receptive rejectedTwice := by
  have hx : rejectedTwice.WellFormed :=
    ⟨⟨by decide, by decide, by decide, by decide, by decide, by decide⟩,
      fun _ => ⟨by decide, by decide⟩, fun hkind => absurd rfl hkind,
      fun hkind => absurd hkind (by decide)⟩
  have hreceptive : (Handler.create 0xff {}).Receptive rejectedTwice :=
    ⟨fun _ => rfl, fun _ => rfl, fun _ _ => rfl⟩
  refine ⟨?_, hx, hreceptive⟩
  exact (exchange_reported_once_iff ⟨rfl, rfl, rfl, rfl, rfl, rfl⟩ hx (by decide) (by decide)).mpr
    hreceptive

/-- A message that is rejected and then given up: the repeat flag outlives the SYN. -/
def givenUp : List Action := feed [0xaa, 0x03, 0x08, 0x07, 0x04, 0x00, 0xf4, 0xff, 0xaa]

def rejectedOnce : Dialogue where
  source := 0x03
  payload := [0x08, 0x07, 0x04, 0x00]
  slave := [0x00]
  masterNak := true

/-- After it the next message that is rejected once is reported as an error. -/
theorem error_after_givenUp :
    ¬ ∀ (actions : List Action) (x : Dialogue) (h : Handler),
      h = Runs.run step (Handler.create 0xff {}) actions → h.Idle → x.WellFormed →
      x.target ≠ h.sourceAddress → x.target ≠ h.targetAddress →
      ReportedOnce x h (Runs.run step h (traffic x)) := by
  intro hall
  have hbad := hall givenUp rejectedOnce _ rfl
    ⟨by decide +kernel, by decide +kernel, by decide +kernel, by decide +kernel,
      by decide +kernel, by decide +kernel⟩
    ⟨⟨by decide, by decide, by decide, by decide, by decide, by decide⟩,
      fun _ => ⟨by decide, by decide⟩, fun hkind => absurd rfl hkind,
      fun hkind => absurd hkind (by decide)⟩
    (by decide +kernel) (by decide +kernel)
  exact absurd hbad.reports (by decide +kernel)

end BusHandler

end Ebus
