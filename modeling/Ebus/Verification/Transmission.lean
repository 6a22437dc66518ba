import Ebus.Verification.Reading
import Ebus.Verification.Verdicts

/-!
# What the engine sends for an own message

From the won arbitration on the engine writes one byte for each byte it reads. This
module describes the whole of it: the rest of the master part, once more after a first
reject, the acknowledges of the slave part and a closing SYN (`Transmission`). While an
exchange goes on, `Handler.sent` reads off the state and the counters of the engine what
has been written; `OnAir` ties this to what was received.
-/

namespace Ebus

open Sequence

/-- The bytes received after the one that won the arbitration. -/
def received (turns : List Turn) : List UInt8 := turns.tail.map Turn.byte

def written (turns : List Turn) : List UInt8 := turns.flatMap Turn.writes

/-- What is to be sent of the master part: all behind its first byte, which the reader has
written, and the whole once more if the first acknowledge was a NAK. -/
def masterBytes (part : List UInt8) (turns : List Turn) : List UInt8 :=
  (wire part).tail ++
    if (wire part).tail ++ [Symbols.nak] <+: received turns then wire part else []

/-- The acknowledges that can be sent for a slave part. -/
def slaveAcknowledges : List (List UInt8) :=
  [[], [Symbols.ack], [Symbols.nak], [Symbols.nak, Symbols.ack], [Symbols.nak, Symbols.nak]]

structure Transmission (part : List UInt8) (turns : List Turn) : Prop where
  /-- the master part, the acknowledges of the slave part, a SYN -/
  trace : ∃ acks ∈ slaveAcknowledges, (acks ≠ [] → typeOf (part.getD 1 0) = .masterSlave) ∧
    written turns <+: masterBytes part turns ++ acks ++ [Symbols.syn]
  /-- a byte of the master part that is not read back as it was written is the last one -/
  echo : Log.AtEach (fun before turn => ∀ last byte, before.getLast? = some last →
    byte ∈ last.writes → (written before).length ≤ (masterBytes part before).length →
    turn.byte ≠ byte → turn.writes = [] ∧ turn.state.exchanging = false) turns
  /-- a slave part is acknowledged only if it has just passed its check -/
  checked : Log.AtEach (fun before turn => Symbols.ack ∈ turn.writes →
    (masterBytes part (before ++ [turn])).length ≤ (written before).length →
    ∃ input, .createSlave .active input .seqOk ∈ turn.effects) turns
  /-- the exchange ends when the engine leaves the active states, and the message with it -/
  ended : Log.AtEach (fun before _ => ∀ turn ∈ before, turn.state.exchanging = true) turns
  dropped : Log.Each (fun turn => turn.state.exchanging = false → .clear .active ∈ turn.effects)
    turns

theorem written_concat (turns : List Turn) (turn : Turn) :
    written (turns ++ [turn]) = written turns ++ turn.writes := by
  simp [written]

theorem received_concat {turns : List Turn} (hne : turns ≠ []) (turn : Turn) :
    received (turns ++ [turn]) = received turns ++ [turn.byte] := by
  rw [received, List.tail_append_of_ne_nil hne, List.map_append]
  rfl

theorem Transmission.concat {part : List UInt8} {turns : List Turn} {turn : Turn}
    (h : Transmission part turns) (hlive : ∀ t ∈ turns, t.state.exchanging = true)
    (trace : ∃ acks ∈ slaveAcknowledges, (acks ≠ [] → typeOf (part.getD 1 0) = .masterSlave) ∧
      written turns ++ turn.writes <+: masterBytes part (turns ++ [turn]) ++ acks ++ [Symbols.syn])
    (echo : ∀ last byte, turns.getLast? = some last → byte ∈ last.writes →
      (written turns).length ≤ (masterBytes part turns).length → turn.byte ≠ byte →
      turn.writes = [] ∧ turn.state.exchanging = false)
    (checked : Symbols.ack ∈ turn.writes →
      (masterBytes part (turns ++ [turn])).length ≤ (written turns).length →
      ∃ input, .createSlave .active input .seqOk ∈ turn.effects)
    (dropped : turn.state.exchanging = false → .clear .active ∈ turn.effects) :
    Transmission part (turns ++ [turn]) := by
  refine ⟨by rwa [written_concat], ?_, ?_, ?_, ?_⟩
  · rw [Log.atEach_append, Log.atEach_cons]
    exact ⟨h.echo, by simpa using echo, Log.atEach_nil _⟩
  · rw [Log.atEach_append, Log.atEach_cons]
    exact ⟨h.checked, by simpa using checked, Log.atEach_nil _⟩
  · rw [Log.atEach_append, Log.atEach_cons]
    exact ⟨h.ended, by simpa using hlive, Log.atEach_nil _⟩
  · rw [Log.each_append, Log.each_cons]
    exact ⟨h.dropped, dropped, Log.each_nil _⟩

namespace Handler

/-- The master part as far as it has to be sent. -/
def lead (bytes : List UInt8) (again : Bool) : List UInt8 :=
  bytes.tail ++ if again then bytes else []

/-- The acknowledges for the slave part that the engine has written. -/
def acknowledges (h : Handler) : List UInt8 :=
  let naks := if h.activeSlaveRepeated then [Symbols.nak] else []
  match h.state with
  | .activeReceiveSlave => naks
  | .activeSendSlavePositiveAcknowledge => naks ++ [Symbols.ack]
  | .activeSendSlaveNegativeAcknowledge => naks ++ [Symbols.nak]
  | _ => []

/-- What the engine has written in the exchange, read off its state and counters. While the
master part is sent, the index points at the byte written last. -/
def sent (h : Handler) (bytes : List UInt8) : List UInt8 :=
  if h.state = .activeSendMaster then
    (lead bytes h.activeMasterRepeated).take
      (if h.activeMasterRepeated then bytes.length + h.activeMasterIndex
        else h.activeMasterIndex)
  else lead bytes h.activeMasterRepeated ++ h.acknowledges

/-- The states behind the acknowledge of the master part. -/
def behindMaster : HandlerState → Bool
  | .activeReceiveSlave | .activeSendSlavePositiveAcknowledge
  | .activeSendSlaveNegativeAcknowledge => true
  | _ => false

/-- An exchange goes on: `turns` is what has happened in it and `part` its master part. -/
structure OnAir (part : List UInt8) (turns : List Turn) (h : Handler) : Prop where
  started : turns ≠ []
  live : ∀ turn ∈ turns, turn.state.exchanging = true
  wellFormed : MasterPart part
  buffer : h.activeMaster.bytes = wire part
  kind : h.activeTelegram.telegramType = typeOf (part.getD 1 0)
  written : Ebus.written turns = h.sent (wire part)
  repeated : h.activeMasterRepeated = true ↔
    (wire part).tail ++ [Symbols.nak] <+: received turns
  sending : h.state = .activeSendMaster → h.activeMasterIndex < (wire part).length ∧
    (h.activeMasterRepeated = false → 1 ≤ h.activeMasterIndex ∧
      received turns = (wire part).tail.take (h.activeMasterIndex - 1)) ∧
    ∀ last, turns.getLast? = some last → last.writes = [(wire part).getD h.activeMasterIndex 0]
  acknowledge : h.state = .activeReceiveMasterAcknowledge →
    typeOf (part.getD 1 0) ≠ .broadcast ∧
    (h.activeMasterRepeated = false → received turns = (wire part).tail)
  answered : behindMaster h.state = true → typeOf (part.getD 1 0) = .masterSlave ∧
    (wire part).length ≤ (received turns).length
  unanswered : behindMaster h.state = false → h.activeSlaveRepeated = false
  quiet : h.state = .activeReceiveMasterAcknowledge ∨ h.state = .activeReceiveSlave →
    ∀ last, turns.getLast? = some last → last.writes = []

theorem masterBytes_eq_lead {part : List UInt8} {turns : List Turn} {again : Bool}
    (h : again = true ↔ (wire part).tail ++ [Symbols.nak] <+: received turns) :
    masterBytes part turns = lead (wire part) again := by
  rw [masterBytes, lead]
  congr 1
  by_cases hprefix : (wire part).tail ++ [Symbols.nak] <+: received turns
  · rw [if_pos hprefix, if_pos (h.mpr hprefix)]
  · rw [if_neg hprefix, if_neg (fun hrep => hprefix (h.mp hrep))]

theorem length_wire_ge (part : List UInt8) : part.length + 1 ≤ (wire part).length := by
  have hlength := code.length_stuff (part ++ [calculateCRC part false])
  rw [List.length_append, List.length_singleton] at hlength
  change (wire part).length = _ at hlength
  omega

namespace OnAir

variable {part : List UInt8} {turns : List Turn} {h d : Handler} {byte : UInt8}
  {response : Sequence} {turn : Turn}

/-- Only these parts of the engine matter here. -/
theorem congr (hi : OnAir part turns h) (hstate : d.state = h.state)
    (hbuffer : d.activeMaster = h.activeMaster) (htelegram : d.activeTelegram = h.activeTelegram)
    (hindex : d.activeMasterIndex = h.activeMasterIndex)
    (hmaster : d.activeMasterRepeated = h.activeMasterRepeated)
    (hslave : d.activeSlaveRepeated = h.activeSlaveRepeated) : OnAir part turns d := by
  have hsent : d.sent (wire part) = h.sent (wire part) := by
    simp only [sent, acknowledges, hstate, hindex, hmaster, hslave]
  obtain ⟨started, live, wellFormed, buffer, kind, written, repeated, sending, acknowledge,
    answered, unanswered, quiet⟩ := hi
  rw [← hstate, ← hindex, ← hmaster] at sending
  rw [← hstate, ← hmaster] at acknowledge
  rw [← hstate] at answered quiet
  rw [← hstate, ← hslave] at unanswered
  exact ⟨started, live, wellFormed, hbuffer ▸ buffer, htelegram ▸ kind, hsent ▸ written,
    hmaster ▸ repeated, sending, acknowledge, answered, unanswered, quiet⟩

theorem masterBytes_eq (hi : OnAir part turns h) :
    masterBytes part turns = lead (wire part) h.activeMasterRepeated :=
  masterBytes_eq_lead hi.repeated

theorem acknowledges_mem (h : Handler) : h.acknowledges ∈ slaveAcknowledges := by
  unfold acknowledges
  cases h.state <;> cases h.activeSlaveRepeated <;> simp [slaveAcknowledges]

theorem behindMaster_of_acknowledges (h : Handler) (hne : h.acknowledges ≠ []) :
    behindMaster h.state = true := by
  unfold acknowledges at hne
  cases hs : h.state <;> simp [hs, behindMaster] at hne ⊢

/-- What is written so far continues to the whole. -/
theorem trace (hi : OnAir part turns h) :
    ∃ acks ∈ slaveAcknowledges, (acks ≠ [] → typeOf (part.getD 1 0) = .masterSlave) ∧
      Ebus.written turns <+: masterBytes part turns ++ acks ++ [Symbols.syn] := by
  refine ⟨h.acknowledges, acknowledges_mem h,
    fun hne => (hi.answered (behindMaster_of_acknowledges h hne)).1, ?_⟩
  rw [hi.masterBytes_eq, hi.written, sent]
  split
  · exact (List.take_prefix _ _).trans (by simp)
  · exact List.prefix_append _ _

/-- The byte written last belongs to the master part only while that is sent. -/
theorem last_of_le (hi : OnAir part turns h) (hstate : h.state.exchanging = true)
    (hle : (Ebus.written turns).length ≤ (masterBytes part turns).length) {last : Turn}
    (hlast : turns.getLast? = some last) {b : UInt8} (hb : b ∈ last.writes) :
    h.state = .activeSendMaster ∧ b = (wire part).getD h.activeMasterIndex 0 := by
  by_cases hs : h.state = .activeSendMaster
  · rw [(hi.sending hs).2.2 last hlast, List.mem_singleton] at hb
    exact ⟨hs, hb⟩
  · rw [hi.masterBytes_eq, hi.written, sent, if_neg hs, List.length_append] at hle
    have hnil : h.acknowledges = [] := List.length_eq_zero_iff.mp (by omega)
    have hquiet : h.state = .activeReceiveMasterAcknowledge ∨ h.state = .activeReceiveSlave := by
      unfold acknowledges at hnil
      cases hs' : h.state <;>
        simp_all [HandlerState.exchanging, HandlerState.engaged]
    rw [hi.quiet hquiet last hlast] at hb
    cases hb

end OnAir

section Step

variable {h d : Handler} {byte : UInt8} {response : Sequence}

/-- A state function writes nothing itself; the deferred byte is written behind it. -/
theorem Branch.silent (hb : Branch h byte response d)
    (hlog : h.log.filterMap Effect.written = []) : d.log.filterMap Effect.written = [] := by
  have hbuffered : (h.bufferMaster byte).log.filterMap Effect.written = [] := by
    rw [bufferMaster_log, List.filterMap_append, hlog]
    split <;> rfl
  have hchecked : (h.checkedMaster byte).log.filterMap Effect.written = [] := by
    rw [checkedMaster, createPassiveMaster_log, List.filterMap_append, hbuffered]
    rfl
  cases hb
  case syn =>
    apply receiveSyn_rule (P := fun a => a.log.filterMap Effect.written = []) hlog
    · intro _ _
      simp [hlog, Effect.written]
    · intro a ha _ _
      simp [ha, Effect.written]
    · intro a ha _
      exact ha
  case buffered => exact hbuffered
  case refused ht =>
    obtain ⟨-, rfl⟩ | ⟨-, rfl⟩ := ht <;> subst_vars <;> simp [hchecked, Effect.written]
  all_goals
    subst_vars
    simp [hlog, hchecked, Effect.written, checkedSlave, checkedActiveSlave, answered]

theorem flush_writes (hlog : d.log.filterMap Effect.written = []) :
    d.flush.log.filterMap Effect.written = d.pendingWrite.toList := by
  unfold flush
  split
  · rename_i b hpending
    simp [hlog, hpending, Effect.written]
  · rename_i hpending
    simp [hlog, hpending]

/-- A byte of the master part that is read back changed ends the exchange without a word. -/
theorem Branch.ends_of_badEcho (hb : Branch h byte response d) (hs : h.state = .activeSendMaster)
    (hbyte : byte ≠ h.activeMaster.get h.activeMasterIndex) :
    d.pendingWrite = h.pendingWrite ∧ d.state = .passiveReceiveMaster := by
  cases hb
  case badEcho => simp_all
  all_goals simp_all

/-- The message is dropped with the end of the exchange. -/
theorem Branch.drops (hb : Branch h byte response d) (hs : h.state.exchanging = true)
    (hd : d.state.exchanging = false) :
    .clear .active ∈ d.log ∧ d.activeMessage = false ∧ d.activeMasterRepeated = false ∧
      d.activeSlaveRepeated = false := by
  cases hb <;> subst_vars <;> simp_all [HandlerState.exchanging, HandlerState.engaged]

/-- An acknowledge that is written in an exchange is part of the message, or it answers a
slave part that has just passed its check. -/
theorem Branch.acknowledge (hb : Branch h byte response d) (hs : h.state.exchanging = true)
    (hquiet : h.pendingWrite = none) (hack : d.pendingWrite = some Symbols.ack) :
    d.state = .activeSendMaster ∨
      ∃ input, .createSlave .active input .seqOk ∈ d.log := by
  cases hb
  case receivedSlave hm hok =>
    subst hm
    right
    simp_all [checkedActiveSlave]
  all_goals subst_vars
  all_goals
    simp_all [HandlerState.exchanging, HandlerState.engaged, Symbols.ack, Symbols.syn, Symbols.nak]

end Step

section Continue

variable {part : List UInt8} {turns : List Turn} {h d : Handler} {byte : UInt8}
  {response : Sequence} {turn : Turn}

/-- No other byte than a first reject changes whether the master part is repeated. -/
theorem OnAir.repeated_next (hi : OnAir part turns h) (hs : h.state.exchanging = true)
    (hnot : h.state = .activeReceiveMasterAcknowledge → byte = Symbols.nak →
      h.activeMasterRepeated = true) :
    h.activeMasterRepeated = true ↔
      (wire part).tail ++ [Symbols.nak] <+: received turns ++ [byte] := by
  have hpos := length_wire_ge part
  rw [List.prefix_concat_iff, hi.repeated]
  constructor
  · exact .inr
  · rintro (heq | hprefix)
    · -- the byte comes right behind an acknowledged master part, so it was awaited
      have hlength := congrArg List.length heq
      simp only [List.length_append, List.length_tail, List.length_singleton] at hlength
      obtain ⟨hreceived, hbyte⟩ := List.append_inj' heq rfl
      cases hagain : h.activeMasterRepeated with
      | true => exact hi.repeated.mp hagain
      | false =>
          by_cases hsend : h.state = .activeSendMaster
          · obtain ⟨hindex, hfirst, -⟩ := hi.sending hsend
            have hpositive := (hfirst hagain).1
            have hshort := congrArg List.length (hfirst hagain).2
            rw [List.length_take, List.length_tail] at hshort
            omega
          · by_cases hack : h.state = .activeReceiveMasterAcknowledge
            · have := hnot hack (by simpa using hbyte.symm)
              simp [hagain] at this
            · have hbehind : behindMaster h.state = true := by
                cases hstate : h.state <;>
                  simp_all [HandlerState.exchanging, HandlerState.engaged, behindMaster]
              have := (hi.answered hbehind).2
              omega
    · exact hprefix

/-- What a turn adds to the records. -/
structure Extends (turns : List Turn) (d : Handler) (byte : UInt8) (turn : Turn) : Prop where
  started : turns ≠ []
  live : ∀ t ∈ turns, t.state.exchanging = true
  byte : turn.byte = byte
  writes : turn.writes = d.pendingWrite.toList
  state : turn.state = d.state

theorem Extends.live_concat (ht : Extends turns d byte turn) (hd : d.state.exchanging = true) :
    ∀ t ∈ turns ++ [turn], t.state.exchanging = true := by
  intro t hmem
  obtain hmem | hmem := List.mem_append.mp hmem
  · exact ht.live t hmem
  · rw [List.mem_singleton.mp hmem, ht.state]
    exact hd

theorem Extends.received (ht : Extends turns d byte turn) :
    received (turns ++ [turn]) = received turns ++ [byte] := by
  rw [received_concat ht.started, ht.byte]

theorem Extends.last (ht : Extends turns d byte turn) {last : Turn}
    (hlast : (turns ++ [turn]).getLast? = some last) : last.writes = d.pendingWrite.toList := by
  rw [List.getLast?_concat, Option.some.injEq] at hlast
  rw [← hlast, ht.writes]

theorem exchanging_of_behindMaster {state : HandlerState} (hs : behindMaster state = true) :
    state.exchanging = true := by
  cases state <;> simp_all [behindMaster, HandlerState.exchanging, HandlerState.engaged]

/-- Behind the acknowledge of the master part only acknowledges for the slave part are added. -/
theorem OnAir.behind (hi : OnAir part turns h) (ht : Extends turns d byte turn)
    (hs : behindMaster h.state = true) (hd : behindMaster d.state = true)
    (hbuffer : d.activeMaster = h.activeMaster)
    (hkind : d.activeTelegram.telegramType = h.activeTelegram.telegramType)
    (hrep : d.activeMasterRepeated = h.activeMasterRepeated)
    (hacks : h.acknowledges ++ d.pendingWrite.toList = d.acknowledges)
    (hsilent : d.state = .activeReceiveSlave → d.pendingWrite = none) :
    OnAir part (turns ++ [turn]) d := by
  obtain ⟨hslave, hlength⟩ := hi.answered hs
  have hh : h.state ≠ .activeSendMaster := fun heq => by simp [heq, behindMaster] at hs
  have hds : d.state ≠ .activeSendMaster := fun heq => by simp [heq, behindMaster] at hd
  have hda : d.state ≠ .activeReceiveMasterAcknowledge := fun heq => by
    simp [heq, behindMaster] at hd
  have hha : h.state ≠ .activeReceiveMasterAcknowledge := fun heq => by
    simp [heq, behindMaster] at hs
  refine
    { started := by simp
      live := ht.live_concat (exchanging_of_behindMaster hd)
      wellFormed := hi.wellFormed
      buffer := by rw [hbuffer, hi.buffer]
      kind := by rw [hkind, hi.kind]
      written := ?_
      repeated := by
        rw [hrep, ht.received]
        exact hi.repeated_next (exchanging_of_behindMaster hs) fun heq => absurd heq hha
      sending := fun heq => absurd heq hds
      acknowledge := fun heq => absurd heq hda
      answered := fun _ => ⟨hslave, by rw [ht.received, List.length_append]; omega⟩
      unanswered := fun heq => by simp [hd] at heq
      quiet := ?_ }
  · rw [written_concat, hi.written, ht.writes, sent, if_neg hh, sent, if_neg hds, hrep,
      List.append_assoc, hacks]
  · rintro (heq | heq) last hlast
    · exact absurd heq hda
    · rw [ht.last hlast, hsilent heq]
      rfl

/-- The byte that the engine writes next for the master part. -/
theorem lead_getElem? {bytes : List UInt8} (hne : bytes ≠ []) (again : Bool) (i : Nat)
    (hi : i + 1 < bytes.length) :
    (lead bytes again)[if again then bytes.length + i else i]? = some (bytes.getD (i + 1) 0) := by
  obtain ⟨b, rest, rfl⟩ := List.exists_cons_of_ne_nil hne
  have hlt : i < rest.length := by simpa using hi
  have hget : (b :: rest).getD (i + 1) 0 = rest[i] := by simp [hlt]
  rw [hget]
  cases again with
  | false => simp [lead, hlt]
  | true =>
      simp only [lead, List.tail_cons, List.length_cons, if_true]
      rw [List.getElem?_append_right (by omega), show rest.length + 1 + i - rest.length = i + 1 by
        omega, List.getElem?_cons_succ, List.getElem?_eq_getElem hlt]

theorem tail_take_concat {bytes : List UInt8} {i : Nat} (hpos : 1 ≤ i) (hi : i < bytes.length) :
    bytes.tail.take (i - 1) ++ [bytes.getD i 0] = bytes.tail.take i := by
  obtain ⟨i, rfl⟩ : ∃ j, i = j + 1 := ⟨i - 1, by omega⟩
  cases bytes with
  | nil => simp at hi
  | cons b rest =>
      have hlt : i < rest.length := by simpa using hi
      rw [List.tail_cons, Nat.add_sub_cancel, List.take_add_one, List.getElem?_eq_getElem hlt]
      simp [hlt]

/-- The last byte of the master part is the last of its lead. -/
theorem take_lead {bytes : List UInt8} (again : Bool) {i : Nat} (hi : i + 1 = bytes.length) :
    (lead bytes again).take (if again then bytes.length + i else i) = lead bytes again := by
  apply List.take_of_length_le
  cases again
  · simp [lead]
    omega
  · simp [lead]
    omega

section Master

variable (hi : OnAir part turns h) (ht : Extends turns d byte turn)
  (hbuffer : d.activeMaster = h.activeMaster)
  (hkind : d.activeTelegram.telegramType = h.activeTelegram.telegramType)
  (hslave : d.activeSlaveRepeated = h.activeSlaveRepeated)

include hi ht

/-- While the master part is sent for the first time, it is read back. -/
theorem OnAir.received_echo (hs : h.state = .activeSendMaster)
    (hecho : byte = (wire part).getD h.activeMasterIndex 0)
    (hfirst : h.activeMasterRepeated = false) :
    received (turns ++ [turn]) = (wire part).tail.take h.activeMasterIndex := by
  obtain ⟨hlt, hreceived, -⟩ := hi.sending hs
  rw [ht.received, (hreceived hfirst).2, hecho, tail_take_concat (hreceived hfirst).1 hlt]

include hbuffer hkind hslave

/-- The echo was right and the next byte follows. -/
theorem OnAir.sends (hs : h.state = .activeSendMaster) (hd : d.state = .activeSendMaster)
    (hrep : d.activeMasterRepeated = h.activeMasterRepeated)
    (hindex : h.activeMasterIndex + 1 < (wire part).length)
    (hnext : d.activeMasterIndex = h.activeMasterIndex + 1)
    (hecho : byte = (wire part).getD h.activeMasterIndex 0)
    (hwrite : d.pendingWrite = some ((wire part).getD (h.activeMasterIndex + 1) 0)) :
    OnAir part (turns ++ [turn]) d := by
  have hne : wire part ≠ [] := List.ne_nil_of_length_pos (by omega)
  refine
    { started := by simp
      live := ht.live_concat (by rw [hd]; rfl)
      wellFormed := hi.wellFormed
      buffer := by rw [hbuffer, hi.buffer]
      kind := by rw [hkind, hi.kind]
      written := ?_
      repeated := ?_
      sending := fun _ => ⟨by omega, ?_, ?_⟩
      acknowledge := fun heq => by simp [hd] at heq
      answered := fun heq => by simp [hd, behindMaster] at heq
      unanswered := fun _ => hslave.trans (hi.unanswered (by rw [hs]; rfl))
      quiet := fun heq => by simp [hd] at heq }
  · rw [written_concat, hi.written, ht.writes, hwrite, sent, if_pos hs, sent, if_pos hd, hrep,
      hnext]
    have hsucc : (if h.activeMasterRepeated then (wire part).length + (h.activeMasterIndex + 1)
        else h.activeMasterIndex + 1) = (if h.activeMasterRepeated then
        (wire part).length + h.activeMasterIndex else h.activeMasterIndex) + 1 := by
      split <;> rfl
    rw [hsucc, List.take_add_one,
      lead_getElem? hne h.activeMasterRepeated h.activeMasterIndex hindex]
  · rw [hrep, ht.received]
    exact hi.repeated_next (by rw [hs]; rfl) fun heq => by simp [hs] at heq
  · rw [hrep, hnext]
    intro hfalse
    exact ⟨by omega, hi.received_echo ht hs hecho hfalse⟩
  · intro last hlast
    rw [ht.last hlast, hwrite, hnext]
    rfl

/-- The last byte was read back, and the receiver is to acknowledge. -/
theorem OnAir.awaits (hs : h.state = .activeSendMaster)
    (hd : d.state = .activeReceiveMasterAcknowledge)
    (hrep : d.activeMasterRepeated = h.activeMasterRepeated)
    (hindex : (wire part).length ≤ h.activeMasterIndex + 1)
    (hecho : byte = (wire part).getD h.activeMasterIndex 0)
    (htype : h.activeTelegram.telegramType ≠ .broadcast)
    (hwrite : d.pendingWrite = none) :
    OnAir part (turns ++ [turn]) d := by
  have hlast : h.activeMasterIndex + 1 = (wire part).length :=
    Nat.le_antisymm (hi.sending hs).1 hindex
  refine
    { started := by simp
      live := ht.live_concat (by rw [hd]; rfl)
      wellFormed := hi.wellFormed
      buffer := by rw [hbuffer, hi.buffer]
      kind := by rw [hkind, hi.kind]
      written := ?_
      repeated := ?_
      sending := fun heq => by simp [hd] at heq
      acknowledge := fun _ => ⟨hi.kind ▸ htype, ?_⟩
      answered := fun heq => by simp [hd, behindMaster] at heq
      unanswered := fun _ => hslave.trans (hi.unanswered (by rw [hs]; rfl))
      quiet := fun _ last hl => by rw [ht.last hl, hwrite]; rfl }
  · rw [written_concat, hi.written, ht.writes, hwrite, sent, if_pos hs, sent,
      if_neg (show d.state ≠ .activeSendMaster by simp [hd]), hrep, take_lead _ hlast]
    simp [acknowledges, hd]
  · rw [hrep, ht.received]
    exact hi.repeated_next (by rw [hs]; rfl) fun heq => by simp [hs] at heq
  · rw [hrep]
    intro hfalse
    rw [hi.received_echo ht hs hecho hfalse]
    apply List.take_of_length_le
    rw [List.length_tail]
    omega

/-- The receiver has taken the master part and sends its own. -/
theorem OnAir.taken (hs : h.state = .activeReceiveMasterAcknowledge)
    (hd : d.state = .activeReceiveSlave)
    (hrep : d.activeMasterRepeated = h.activeMasterRepeated)
    (hbyte : byte = Symbols.ack) (htype : h.activeTelegram.telegramType ≠ .masterMaster)
    (hwrite : d.pendingWrite = none) :
    OnAir part (turns ++ [turn]) d := by
  obtain ⟨hbroadcast, hreceived⟩ := hi.acknowledge hs
  have hsilent : d.activeSlaveRepeated = false := hslave.trans (hi.unanswered (by rw [hs]; rfl))
  have hnot : h.state = .activeReceiveMasterAcknowledge → byte = Symbols.nak →
      h.activeMasterRepeated = true := by
    intro _ heq
    exact absurd (hbyte.symm.trans heq) (by decide)
  have hrepeated := hi.repeated_next (by rw [hs]; rfl) hnot
  refine
    { started := by simp
      live := ht.live_concat (by rw [hd]; rfl)
      wellFormed := hi.wellFormed
      buffer := by rw [hbuffer, hi.buffer]
      kind := by rw [hkind, hi.kind]
      written := ?_
      repeated := by rw [hrep, ht.received]; exact hrepeated
      sending := fun heq => by simp [hd] at heq
      acknowledge := fun heq => by simp [hd] at heq
      answered := fun _ => ⟨?_, ?_⟩
      unanswered := fun _ => hsilent
      quiet := fun _ last hl => by rw [ht.last hl, hwrite]; rfl }
  · rw [written_concat, hi.written, ht.writes, hwrite, sent, if_neg (by simp [hs]), sent,
      if_neg (by simp [hd]), hrep]
    simp [acknowledges, hd, hs, hsilent]
  · rw [hi.kind] at htype
    cases hkind' : typeOf (part.getD 1 0) with
    | masterSlave => rfl
    | masterMaster => exact absurd hkind' htype
    | broadcast => exact absurd hkind' hbroadcast
    | undefined => exact absurd hkind' (typeOf_ne_undefined _)
  · have hpos := length_wire_ge part
    rw [ht.received, List.length_append, List.length_singleton]
    cases hagain : h.activeMasterRepeated with
    | false =>
        rw [hreceived hagain, List.length_tail]
        omega
    | true =>
        have hle := (hi.repeated.mp hagain).length_le
        simp only [List.length_append, List.length_tail, List.length_singleton] at hle
        omega

/-- The receiver has rejected the master part once, and it is sent again. -/
theorem OnAir.resends (hs : h.state = .activeReceiveMasterAcknowledge)
    (hd : d.state = .activeSendMaster) (hfirst : h.activeMasterRepeated = false)
    (hrep : d.activeMasterRepeated = true) (hindex : d.activeMasterIndex = 0)
    (hbyte : byte = Symbols.nak)
    (hwrite : d.pendingWrite = some ((wire part).getD 0 0)) :
    OnAir part (turns ++ [turn]) d := by
  have hpos := length_wire_ge part
  obtain ⟨b, rest, hwire⟩ := List.exists_cons_of_ne_nil
    (List.ne_nil_of_length_pos (l := wire part) (by omega))
  refine
    { started := by simp
      live := ht.live_concat (by rw [hd]; rfl)
      wellFormed := hi.wellFormed
      buffer := by rw [hbuffer, hi.buffer]
      kind := by rw [hkind, hi.kind]
      written := ?_
      repeated := ?_
      sending := fun _ => ⟨by omega, fun hfalse => by simp [hrep] at hfalse, ?_⟩
      acknowledge := fun heq => by simp [hd] at heq
      answered := fun heq => by simp [hd, behindMaster] at heq
      unanswered := fun _ => hslave.trans (hi.unanswered (by rw [hs]; rfl))
      quiet := fun heq => by simp [hd] at heq }
  · rw [written_concat, hi.written, ht.writes, hwrite, sent, if_neg (by simp [hs]), sent,
      if_pos hd, hrep, hindex, hfirst, hwire]
    simp only [acknowledges, hs, lead, List.take_append]
    simp [List.take_of_length_le]
  · rw [hrep, ht.received, (hi.acknowledge hs).2 hfirst, hbyte]
    exact iff_of_true rfl (List.prefix_refl _)
  · intro last hl
    rw [ht.last hl, hwrite, hindex]
    rfl

end Master

/-- While the exchange goes on, its records say where the engine is. -/
theorem Branch.onAir (hi : OnAir part turns h) (hb : Branch h byte response d)
    (hs : h.state.exchanging = true) (hquiet : h.pendingWrite = none)
    (ht : Extends turns d byte turn) (hd : d.state.exchanging = true) :
    OnAir part (turns ++ [turn]) d := by
  have hsize : h.activeMaster.size = (wire part).length := congrArg List.length hi.buffer
  have hget (i : Nat) : h.activeMaster.get i = (wire part).getD i 0 := by
    rw [← hi.buffer]
    rfl
  cases hb
  case sendsMaster hstate hindex hbyte =>
    apply hi.sends ht rfl rfl rfl hstate hstate rfl (hsize ▸ hindex) rfl (hget _ ▸ hbyte)
    rw [← hget]
    rfl
  case sentMaster hstate _ hbyte hlast htype =>
    exact hi.awaits ht rfl rfl rfl hstate rfl rfl (hsize ▸ hlast) (hget _ ▸ hbyte) htype hquiet
  case deliveredMaster hstate hbyte htype =>
    exact hi.taken ht rfl rfl rfl hstate rfl rfl hbyte htype hquiet
  case resendsMaster hstate hbyte hrep =>
    apply hi.resends ht rfl rfl rfl hstate rfl hrep rfl rfl hbyte
    rw [← hget]
    rfl
  case rejectedActiveSlave hstate _ _ =>
    exact hi.behind ht (by rw [hstate]; rfl) rfl rfl rfl rfl (by simp [acknowledges, hstate])
      (by simp)
  case bufferedActiveSlave hstate _ _ =>
    apply hi.behind ht (by rw [hstate]; rfl) (by simp [hstate, behindMaster]) rfl rfl rfl
    · simp [acknowledges, hstate, hquiet]
    · exact fun _ => hquiet
  case receivedSlave hstate _ _ hm _ =>
    subst hm
    exact hi.behind ht (by rw [hstate]; rfl) rfl rfl (by simp) rfl (by simp [acknowledges, hstate])
      (by simp)
  case receivedBadSlave hstate _ _ hm _ =>
    subst hm
    exact hi.behind ht (by rw [hstate]; rfl) rfl (by simp) (by simp) (by simp)
      (by simp [acknowledges, hstate]) (by simp)
  case awaitsSlave hstate hrep =>
    apply hi.behind ht (by rw [hstate]; rfl) rfl rfl rfl rfl
    · simp [acknowledges, hstate, hrep, hquiet]
    · exact fun _ => hquiet
  all_goals simp_all [HandlerState.exchanging, HandlerState.engaged]

/-- How the engine leaves an exchange: in the middle of the master part without a word, or
with a SYN when all is sent. -/
theorem Branch.leaves (hb : Branch h byte response d) (hs : h.state.exchanging = true)
    (hd : d.state.exchanging = false) (hquiet : h.pendingWrite = none) :
    (h.state = .activeReceiveMasterAcknowledge → byte = Symbols.nak →
      h.activeMasterRepeated = true) ∧
    (d.pendingWrite = none ∧ h.state = .activeSendMaster ∨
      d.pendingWrite = some Symbols.syn ∧
        (h.state = .activeSendMaster → h.activeMaster.size ≤ h.activeMasterIndex + 1)) := by
  cases hb <;> subst_vars <;>
    simp_all [HandlerState.exchanging, HandlerState.engaged, Symbols.ack, Symbols.nak]

/-- The last turn of an exchange completes the trace or breaks it off. -/
theorem OnAir.ends (hi : OnAir part turns h) (hb : Branch h byte response d)
    (hs : h.state.exchanging = true) (hd : d.state.exchanging = false)
    (hquiet : h.pendingWrite = none) (ht : Extends turns d byte turn) :
    ∃ acks ∈ slaveAcknowledges, (acks ≠ [] → typeOf (part.getD 1 0) = .masterSlave) ∧
      Ebus.written turns ++ turn.writes <+:
        masterBytes part (turns ++ [turn]) ++ acks ++ [Symbols.syn] := by
  obtain ⟨hreject, hleaves⟩ := hb.leaves hs hd hquiet
  have hmaster : masterBytes part (turns ++ [turn]) =
      lead (wire part) h.activeMasterRepeated := by
    apply masterBytes_eq_lead
    rw [ht.received]
    exact hi.repeated_next hs hreject
  refine ⟨h.acknowledges, OnAir.acknowledges_mem h,
    fun hne => (hi.answered (OnAir.behindMaster_of_acknowledges h hne)).1, ?_⟩
  rw [hmaster, hi.written, ht.writes, sent]
  obtain ⟨hnone, hsend⟩ | ⟨hsyn, hlast⟩ := hleaves
  · rw [hnone, if_pos hsend, Option.toList_none, List.append_nil]
    exact (List.take_prefix _ _).trans (by simp)
  · rw [hsyn]
    by_cases hsend : h.state = .activeSendMaster
    · have hsize : h.activeMaster.size = (wire part).length := congrArg List.length hi.buffer
      have hindex : h.activeMasterIndex + 1 = (wire part).length :=
        Nat.le_antisymm (hi.sending hsend).1 (hsize ▸ hlast hsend)
      rw [if_pos hsend, take_lead _ hindex]
      simp [acknowledges, hsend]
    · rw [if_neg hsend]
      exact List.prefix_refl _

end Continue

/-- A won arbitration is followed by the second byte of the message. -/
structure Starts (h d : Handler) : Prop where
  state : h.state = .requestBus
  next : d.state = .activeSendMaster
  buffer : d.activeMaster = h.messageBytes
  size : 1 < h.messageBytes.size
  index : d.activeMasterIndex = 1
  write : d.pendingWrite = some (h.messageBytes.get 1)
  telegram : d.activeTelegram = h.activeTelegram
  masterRepeated : d.activeMasterRepeated = h.activeMasterRepeated
  slaveRepeated : d.activeSlaveRepeated = h.activeSlaveRepeated

theorem Branch.starts {h d : Handler} {byte : UInt8} {response : Sequence}
    (hb : Branch h byte response d) (hlog : h.log = []) (hwon : .won ∈ d.log) : Starts h d := by
  have hstate : h.state = .requestBus :=
    ((hb.engages (by simp [hlog])).reports.of_mem hwon).1 rfl
  cases hb
  case won hs hresult hm hsize =>
    subst hm
    exact ⟨hs, rfl, rfl, hsize, rfl, rfl, rfl, rfl, rfl⟩
  all_goals simp_all

/-- What an event leaves of the own message, and outside an exchange of its repetitions. -/
@[mk_iff] structure KeepsMessage (h d : Handler) : Prop where
  message : d.activeMessage = true →
    h.activeMessage = true ∧ d.activeTelegram.master = h.activeTelegram.master
  clean : h.state.exchanging = false →
    h.activeMasterRepeated = false ∧ h.activeSlaveRepeated = false →
    d.activeMasterRepeated = false ∧ d.activeSlaveRepeated = false

theorem Branch.keepsMessage {h d : Handler} {byte : UInt8} {response : Sequence}
    (hb : Branch h byte response d) : KeepsMessage h d := by
  cases hb
  case syn =>
    apply receiveSyn_rule (P := KeepsMessage h) ⟨fun hm => ⟨hm, rfl⟩, fun _ hc => hc⟩
    · intro _ _
      constructor <;> simp
    · intro a ha _ _
      constructor <;> simp
    · intro a ha _
      exact ⟨ha.message, ha.clean⟩
  case refused ht =>
    obtain ⟨-, rfl⟩ | ⟨-, rfl⟩ := ht <;> subst_vars <;> constructor <;> simp
  all_goals
    subst_vars
    simp_all [keepsMessage_iff, HandlerState.exchanging, HandlerState.engaged]

/-- The first turn of an exchange. -/
theorem Starts.onAir {h d : Handler} {turn : Turn} (hstart : Starts h d)
    (hwf : h.activeTelegram.WellFormed) (hok : h.activeTelegram.masterState = .seqOk)
    (hmaster : h.activeMasterRepeated = false) (hslave : h.activeSlaveRepeated = false)
    (hwrites : turn.writes = d.pendingWrite.toList) (hstate : turn.state = d.state) :
    OnAir h.activeTelegram.master.bytes [turn] d := by
  have hwire := messageBytes_eq hwf hok
  have hbytes : turn.writes = [(wire h.activeTelegram.master.bytes).getD 1 0] := by
    rw [hwrites, hstart.write, Sequence.get, hwire]
    rfl
  have hsize : 1 < (wire h.activeTelegram.master.bytes).length := hwire ▸ hstart.size
  have hfirst : d.activeMasterRepeated = false := hstart.masterRepeated.trans hmaster
  refine
    { started := by simp
      live := by simp [hstate, hstart.next, HandlerState.exchanging, HandlerState.engaged]
      wellFormed := hwf.master (.inl hok)
      buffer := by rw [hstart.buffer, hwire]
      kind := by rw [hstart.telegram, hwf.kind hok]
      written := ?_
      repeated := ?_
      sending := fun _ => ⟨by rw [hstart.index]; exact hsize, ?_, ?_⟩
      acknowledge := fun heq => by simp [hstart.next] at heq
      answered := fun heq => by simp [hstart.next, behindMaster] at heq
      unanswered := fun _ => hstart.slaveRepeated.trans hslave
      quiet := fun heq => by simp [hstart.next] at heq }
  · obtain ⟨b, rest, hcons⟩ := List.exists_cons_of_length_pos (Nat.zero_lt_of_lt hsize)
    obtain ⟨c, rest, rfl⟩ := List.exists_cons_of_length_pos (l := rest) (by
      rw [hcons, List.length_cons] at hsize
      omega)
    rw [Ebus.written, List.flatMap_singleton, hbytes, sent, if_pos hstart.next, hfirst,
      hstart.index, hcons]
    rfl
  · rw [hfirst]
    simp [received]
  · rw [hstart.index]
    exact fun _ => ⟨Nat.le_refl _, by simp [received]⟩
  · intro last hlast
    rw [hstart.index, ← hbytes]
    simpa using congrArg Turn.writes (Option.some.inj hlast).symm

end Handler

namespace Line

open Handler

/-- The master part of an accepted message begins with the own address. -/
theorem createMasterFrom_source {t : Telegram} {source : UInt8} {message : List UInt8}
    (hok : (t.createMasterFrom source message).masterState = .seqOk)
    (hwf : t.WellFormed) :
    (t.createMasterFrom source message).master.bytes.getD 0 0 = source := by
  have hne := ((hwf.createMaster { bytes := source :: message }).master (.inl hok)).ne_nil
  unfold Telegram.createMasterFrom at hok ⊢
  obtain ⟨b, rest, hcons⟩ := List.exists_cons_of_ne_nil hne
  obtain hbytes | hbytes := Telegram.createMaster_seqOk hok
  · rw [← hbytes]
    rfl
  · rw [hcons] at hbytes ⊢
    exact (List.cons.inj (by exact hbytes : source :: message = _)).1.symm

/-- What the records of the line say about the engine between events. -/
structure Recorded (l : Line) : Prop where
  orderly : l.Orderly
  telegrams : TelegramsWellFormed l.handler
  active : ActiveVerdicts l.handler
  message : l.handler.activeMessage = true →
    l.handler.activeTelegram.master.bytes = l.message ∧
      l.message.getD 0 0 = l.handler.sourceAddress
  clean : l.handler.state.exchanging = false →
    l.handler.activeMasterRepeated = false ∧ l.handler.activeSlaveRepeated = false
  transmission : Transmission l.sending l.turns
  part : l.turns ≠ [] → MasterPart l.sending ∧ l.sending.getD 0 0 = l.handler.sourceAddress
  onAir : l.handler.state.exchanging = true → OnAir l.sending l.turns l.handler

section Event

variable {l : Line} {event : BusEvent} {response : Sequence} {d : Handler}

/-- The engine as its state function finds it. -/
def entered (l : Line) (event : BusEvent) : Handler :=
  { l.handler with
    request := (l.handler.request.afterFlag event.busRequest).run event.byte
    lastResult := ((l.handler.request.afterFlag event.busRequest).run event.byte).result
    pendingWrite := none
    state := l.handler.requestedState event
    log := [] }

/-- The turn that an event makes. -/
def turnOf (d : Handler) (byte : UInt8) : Turn :=
  { byte, effects := d.flush.log, state := d.flush.state }

theorem won_mem_flush (d : Handler) : .won ∈ d.flush.log ↔ .won ∈ d.log := by
  obtain hflush | ⟨byte, hflush⟩ := d.flush_cases <;> simp [hflush]

theorem turnOf_writes (hb : Branch (l.entered event) event.byte response d) :
    (turnOf d event.byte).writes = d.pendingWrite.toList :=
  flush_writes (hb.silent rfl)

/-- An exchange that goes on or ends with this event. -/
theorem Recorded.continues (hi : l.Recorded) (hs : l.handler.state.exchanging = true)
    (hstate : l.handler.requestedState event = l.handler.state)
    (hb : Branch (l.entered event) event.byte response d) :
    Transmission l.sending (l.turns ++ [turnOf d event.byte]) ∧
      (d.state.exchanging = true → OnAir l.sending (l.turns ++ [turnOf d event.byte]) d) := by
  have hair : OnAir l.sending l.turns (l.entered event) :=
    (hi.onAir hs).congr hstate rfl rfl rfl rfl rfl
  have hentered : (l.entered event).state.exchanging = true := by
    change (l.handler.requestedState event).exchanging = true
    rw [hstate]
    exact hs
  have hwrites := turnOf_writes hb
  have ht : Extends l.turns d event.byte (turnOf d event.byte) :=
    ⟨hair.started, hair.live, rfl, hwrites, d.flush_state⟩
  have hnext (hd : d.state.exchanging = true) := hb.onAir hair hentered rfl ht hd
  refine ⟨hi.transmission.concat hair.live ?_ ?_ ?_ ?_, hnext⟩
  · cases hd : d.state.exchanging with
    | true =>
        rw [← written_concat]
        exact (hnext hd).trace
    | false => exact hair.ends hb hentered hd rfl ht
  · intro last byte hlast hbyte hle hne
    obtain ⟨hsend, heq⟩ := hair.last_of_le hentered hle hlast hbyte
    rw [heq, ← hair.buffer] at hne
    obtain ⟨hsilent, hpassive⟩ := hb.ends_of_badEcho hsend hne
    rw [hwrites, hsilent]
    exact ⟨rfl, by rw [turnOf, flush_state, hpassive]; rfl⟩
  · rw [hwrites]
    intro hack hle
    obtain hsend | ⟨input, hinput⟩ := hb.acknowledge hentered rfl (by simpa using hack)
    · -- the byte belongs to the master part, which is not yet complete
      have hd := hnext (by rw [hsend]; rfl)
      have hwritten := congrArg List.length hd.written
      rw [sent, if_pos hsend, ← hd.masterBytes_eq, written_concat, List.length_append, hwrites,
        List.length_take] at hwritten
      have hone := List.length_pos_of_mem hack
      omega
    · refine ⟨input, ?_⟩
      obtain hflush | ⟨byte, hflush⟩ := d.flush_cases <;> simp [turnOf, hflush, hinput]
  · intro hd
    have hdropped := (hb.drops hentered (by rwa [turnOf, flush_state] at hd)).1
    obtain hflush | ⟨byte, hflush⟩ := d.flush_cases <;> simp [turnOf, hflush, hdropped]

/-- An exchange that begins with this event. -/
theorem Recorded.begins (hi : l.Recorded) (hs : l.handler.state.exchanging = false)
    (hb : Branch (l.entered event) event.byte response d) (hwon : .won ∈ d.log) :
    Transmission l.message [turnOf d event.byte] ∧
      OnAir l.message [turnOf d event.byte] d ∧
      l.message.getD 0 0 = l.handler.sourceAddress := by
  have hstart := hb.starts rfl hwon
  have hmessage : l.handler.activeMessage = true := by
    have hstate : l.handler.requestedState event = .requestBus := hstart.state
    unfold requestedState at hstate
    split at hstate
    · rename_i hflag
      exact hflag.2.2
    · exact hi.active.waiting hstate
  obtain ⟨hbytes, hsource⟩ := hi.message hmessage
  obtain ⟨hmaster, hslave⟩ := hi.clean hs
  have hair : OnAir l.message [turnOf d event.byte] d := by
    rw [← hbytes]
    exact hstart.onAir hi.telegrams.active (hi.active.accepted hmessage) hmaster hslave
      (turnOf_writes hb) (d.flush_state)
  have hpos := length_wire_ge l.message
  have hlength := hair.wellFormed.length_bounds.1
  refine ⟨⟨hair.trace, ?_, ?_, ?_, ?_⟩, hair, hsource⟩
  · simp
  · rw [Log.atEach_cons]
    refine ⟨fun _ hle => ?_, Log.atEach_nil _⟩
    rw [List.nil_append, masterBytes, List.length_append, List.length_tail] at hle
    simp only [written, List.flatMap_nil, List.length_nil] at hle
    omega
  · simp
  · have hlive := hair.live _ (List.mem_singleton_self _)
    simp [hlive]

/-- The records behind an event: an exchange goes on, or one begins, or there is none. -/
theorem Recorded.records (hi : l.Recorded) (hproduced : l.Produced (.busEvent event response))
    (hb : Branch (l.entered event) event.byte response d) :
    let sending := if .won ∈ d.flush.log then l.message else l.sending
    let turns := if .won ∈ d.flush.log then [turnOf d event.byte]
      else if l.handler.state.exchanging then l.turns ++ [turnOf d event.byte] else l.turns
    (d.state.exchanging = false →
        d.activeMasterRepeated = false ∧ d.activeSlaveRepeated = false) ∧
      Transmission sending turns ∧
      (turns ≠ [] → MasterPart sending ∧ sending.getD 0 0 = l.handler.sourceAddress) ∧
      (d.state.exchanging = true → OnAir sending turns d) := by
  dsimp only
  have hengages := hb.engages (Log.each_nil _)
  cases hs : l.handler.state.exchanging with
  | true =>
      have hstate := hi.orderly.requestedState hs hproduced.2.2
      have hentered : (l.entered event).state.exchanging = true := by
        change (l.handler.requestedState event).exchanging = true
        rw [hstate]
        exact hs
      have hwon : .won ∉ d.flush.log := by
        rw [won_mem_flush]
        intro hwon
        have hrequest := (hengages.reports.of_mem hwon).1 rfl
        simp [hrequest, HandlerState.exchanging] at hentered
      rw [if_neg hwon, if_neg hwon, if_pos rfl]
      obtain ⟨htransmission, hair⟩ := hi.continues hs hstate hb
      exact ⟨fun hd => (hb.drops hentered hd).2.2, htransmission,
        fun _ => hi.part (hi.onAir hs).started, hair⟩
  | false =>
      have hentered : (l.entered event).state.exchanging = false := by
        by_contra htrue
        have := @Handler.requestedState_exchanging l.handler event (by
          simpa [entered] using htrue)
        simp [hs] at this
      refine ⟨fun _ => hb.keepsMessage.clean hentered (hi.clean hs), ?_⟩
      by_cases hwon : .won ∈ d.flush.log
      · rw [if_pos hwon, if_pos hwon]
        obtain ⟨htransmission, hair, haddress⟩ := hi.begins hs hb ((won_mem_flush d).mp hwon)
        exact ⟨htransmission, fun _ => ⟨hair.wellFormed, haddress⟩, fun _ => hair⟩
      · rw [if_neg hwon, if_neg hwon, if_neg (by decide)]
        refine ⟨hi.transmission, hi.part, fun hd => ?_⟩
        obtain hbefore | hnew := hengages.exchange hd
        · simp [hentered] at hbefore
        · exact absurd ((won_mem_flush d).mpr hnew) hwon

theorem Recorded.entered_active (hi : l.Recorded) : ActiveVerdicts (l.entered event) := by
  unfold entered requestedState
  split
  · rename_i hflag
    exact ⟨hi.active.accepted, fun _ => hflag.2.2, by simp, by simp⟩
  · exact ⟨hi.active.accepted, hi.active.waiting, hi.active.sending, hi.active.slave⟩

end Event

theorem Recorded.busEvent {l : Line} (hi : l.Recorded) {event : BusEvent} {response : Sequence}
    (hproduced : l.Produced (.busEvent event response)) :
    (l.busEvent event response).Recorded := by
  obtain ⟨d, hb, heq⟩ := l.busEvent_rule response hproduced.1
  change Branch (l.entered event) event.byte response d at hb
  have hwf : TelegramsWellFormed (l.entered event) := ⟨hi.telegrams.passive, hi.telegrams.active⟩
  have hwf' := hb.telegramsWellFormed hwf
  have hactive := hb.activeVerdicts hwf (hi.entered_active.weaken _)
  have hsource : d.sourceAddress = l.handler.sourceAddress := hb.asks.source
  obtain ⟨hclean, htransmission, hpart, hair⟩ := hi.records hproduced hb
  have hsending : (l.busEvent event response).sending =
      if .won ∈ d.flush.log then l.message else l.sending := by
    rw [← heq]
    rfl
  have hturns : (l.busEvent event response).turns =
      if .won ∈ d.flush.log then [turnOf d event.byte]
      else if l.handler.state.exchanging then l.turns ++ [turnOf d event.byte] else l.turns := by
    rw [turnOf, ← heq]
    rfl
  rw [← hsending, ← hturns] at htransmission hpart hair
  obtain ⟨log, hflush⟩ := d.flush_eq
  rw [hflush] at heq
  refine ⟨hi.orderly.busEvent hproduced, ?_, ?_, ?_, ?_, htransmission, ?_, ?_⟩
  · rw [heq]
    exact ⟨hwf'.passive, hwf'.active⟩
  · rw [heq]
    exact ⟨hactive.accepted, hactive.waiting, hactive.sending, hactive.slave⟩
  · rw [heq]
    intro hmessage
    obtain ⟨hbefore, hmaster⟩ := hb.keepsMessage.message hmessage
    obtain ⟨hbytes, haddress⟩ := hi.message hbefore
    exact ⟨(congrArg Sequence.bytes hmaster).trans hbytes, haddress.trans hsource.symm⟩
  · rw [heq]
    exact hclean
  · rw [heq]
    exact fun hne => ⟨(hpart hne).1, (hpart hne).2.trans hsource.symm⟩
  · rw [heq]
    exact fun hd => (hair hd).congr rfl rfl rfl rfl rfl rfl

/-- Nothing of the records changes with a call that leaves the engine's message alone. -/
theorem Recorded.congr {l l' : Line} (hi : l.Recorded) (horderly : l'.Orderly)
    (hhandler : ∃ request, l'.handler = { l.handler with request })
    (hmessage : l'.message = l.message) (hsending : l'.sending = l.sending)
    (hturns : l'.turns = l.turns) : l'.Recorded := by
  obtain ⟨request, hhandler⟩ := hhandler
  refine ⟨horderly, ?_, ?_, ?_, ?_, ?_, ?_, ?_⟩
  · rw [hhandler]
    exact ⟨hi.telegrams.passive, hi.telegrams.active⟩
  · rw [hhandler]
    exact ⟨hi.active.accepted, hi.active.waiting, hi.active.sending, hi.active.slave⟩
  · rw [hhandler, hmessage]
    exact hi.message
  · rw [hhandler]
    exact hi.clean
  · rw [hsending, hturns]
    exact hi.transmission
  · rw [hhandler, hsending, hturns]
    exact hi.part
  · rw [hhandler, hsending, hturns]
    exact fun hs => (hi.onAir hs).congr rfl rfl rfl rfl rfl rfl

/-- While an exchange goes on, its message is still there. -/
theorem Recorded.message_of_exchanging {l : Line} (hi : l.Recorded)
    (hs : l.handler.state.exchanging = true) : l.handler.activeMessage = true := by
  have hpos := length_wire_ge l.sending
  have hne : l.handler.activeMaster.bytes ≠ [] := by
    rw [(hi.onAir hs).buffer]
    exact List.ne_nil_of_length_pos (by omega)
  have hsending := hi.active.sending
  cases hstate : l.handler.state <;>
    simp_all [HandlerState.exchanging, HandlerState.engaged, Handler.Sending]

theorem Recorded.sendActiveMessage {l : Line} (hi : l.Recorded) (message : List UInt8)
    (horderly : (l.sendActiveMessage message).Orderly) :
    (l.sendActiveMessage message).Recorded := by
  have hidle (hfree : l.handler.activeMessage = false) : l.handler.state.exchanging ≠ true := by
    intro hs
    simp [hi.message_of_exchanging hs] at hfree
  have hwf := hi.telegrams.sendActiveMessage message
  have hactive := hi.active.sendActiveMessage message
  unfold Line.sendActiveMessage at horderly ⊢
  obtain heq | ⟨t, rfl, hfree, hbad, heq⟩ | ⟨t, rfl, hfree, hok, heq⟩ :=
    l.handler.sendActiveMessage_cases message
  · rw [heq] at horderly ⊢
    exact hi.congr horderly ⟨l.handler.request, rfl⟩ rfl rfl rfl
  · rw [heq] at horderly hwf hactive ⊢
    exact ⟨horderly, hwf, hactive, by simp [hfree], hi.clean, hi.transmission, hi.part,
      fun hs => absurd hs (hidle hfree)⟩
  · rw [heq] at horderly hwf hactive ⊢
    exact ⟨horderly, hwf, hactive,
      fun _ => ⟨rfl, createMasterFrom_source hok hi.telegrams.active⟩, hi.clean,
      hi.transmission, hi.part, fun hs => absurd hs (hidle hfree)⟩

theorem Recorded.step {l : Line} (hi : l.Recorded) {action : Action}
    (hproduced : l.Produced action) : (Line.step l action).Recorded := by
  have horderly := hi.orderly.step hproduced
  cases action with
  | busEvent event response => exact hi.busEvent hproduced
  | suppressedSyn => exact hi.congr horderly ⟨_, rfl⟩ rfl rfl rfl
  | sendActiveMessage message => exact hi.sendActiveMessage message horderly
  | requestExternal address => exact hi.congr horderly ⟨_, rfl⟩ rfl rfl rfl
  | resetRequest => exact hi.congr horderly ⟨_, rfl⟩ rfl rfl rfl
  | setLockCounter lockCounter => exact hi.congr horderly ⟨_, rfl⟩ rfl rfl rfl

theorem recorded_create (address : UInt8) : (create address).Recorded := by
  refine ⟨?_, ⟨by simp [create, Handler.create], by simp [create, Handler.create]⟩, ?_, ?_, ?_,
    ?_, ?_, ?_⟩
  · refine ⟨?_, ⟨by simp [create, Handler.create], by simp [create, Handler.create],
      by simp [create, Handler.create], ?_⟩, by simp [create, Handler.create],
      by simp [create, Handler.create, HandlerState.exchanging, HandlerState.engaged]⟩
    · simp only [create, Handler.create]
      split
      · assumption
      · decide
    · simp [create, Handler.create, Request.Pending]
  · constructor <;> simp [create, Handler.create]
  · simp [create, Handler.create]
  · exact fun _ => ⟨rfl, rfl⟩
  · refine ⟨⟨[], by simp [slaveAcknowledges], by simp, ?_⟩, ?_, ?_, ?_, ?_⟩ <;>
      simp [create, written]
  · simp [create]
  · simp [create, Handler.create, HandlerState.exchanging, HandlerState.engaged]

/-- In every run of the events that the byte readers produce, what the engine writes from a
won arbitration on is the transmission of a message it has accepted. -/
theorem run_transmits (address : UInt8) (actions : List Action)
    (hproduced : Runs.Meets step Produced (create address) actions) :
    let l := Runs.run step (create address) actions
    Transmission l.sending l.turns ∧
      (l.turns ≠ [] → MasterPart l.sending ∧ l.sending.getD 0 0 = l.handler.sourceAddress) := by
  have hi := Runs.invariant (I := Recorded) (fun _ _ hi hproduced => hi.step hproduced)
    (recorded_create address) hproduced
  exact ⟨hi.transmission, hi.part⟩

/-- A master part that is rejected once and then answered. -/
def repeatedRead : List Action :=
  .sendActiveMessage [0x08, 0x07, 0x04, 0x00] :: feed [0xaa, 0xaa, 0xaa] ++
    [.busEvent { byte := 0xaa, busRequest := true } {}] ++
    feed [0xff, 0x08, 0x07, 0x04, 0x00, 0x51, 0xff, 0xff, 0x08, 0x07, 0x04, 0x00, 0x51, 0x00,
      0x01, 0x55, 0xce, 0x00]

theorem run_transmits_repeatedRead :
    let l := Runs.run step (create 0xff) repeatedRead
    (Transmission l.sending l.turns ∧
      (l.turns ≠ [] → MasterPart l.sending ∧ l.sending.getD 0 0 = l.handler.sourceAddress)) ∧
    l.sending = [0xff, 0x08, 0x07, 0x04, 0x00] ∧
    written l.turns = [0x08, 0x07, 0x04, 0x00, 0x51, 0xff, 0x08, 0x07, 0x04, 0x00, 0x51,
      0x00, 0xaa] :=
  ⟨run_transmits 0xff repeatedRead (by decide), by decide +kernel, by decide +kernel⟩

end Line

end Ebus
