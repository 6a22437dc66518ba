import Ebus.Protocol.Telegram

/-!
# Which parts are accepted

`createMaster` and `createSlave` take a part in logical form, with its check sum or
without, and decide by the length which of the two they have. They agree with the format
except for the shortest part of all: an answer without data that comes without its check
sum is one byte long, and `createSlave` asks for two.
-/

namespace Ebus

namespace Telegram

/-- The input is the part, or the part and its check sum. -/
def Received (part bytes : List UInt8) : Prop :=
  bytes = part ∨ bytes = part ++ [Sequence.calculateCRC part false]

/-- `createMaster` accepts the parts of the format and stores what it was given. -/
structure MasterAgrees (t : Telegram) (bytes : List UInt8) : Prop where
  accepts : (t.createMaster { bytes }).1.masterState = .seqOk ↔
    ∃ part, MasterPart part ∧ Received part bytes
  stores : (t.createMaster { bytes }).1.masterState = .seqOk →
    ∀ part, MasterPart part → Received part bytes →
      (t.createMaster { bytes }).1.master = { bytes := part } ∧
      (t.createMaster { bytes }).1.masterCrc = Sequence.calculateCRC part false

structure SlaveAgrees (t : Telegram) (bytes : List UInt8) : Prop where
  accepts : (t.createSlave { bytes }).1.slaveState = .seqOk ↔
    ∃ part, SlavePart part ∧ Received part bytes
  stores : (t.createSlave { bytes }).1.slaveState = .seqOk →
    ∀ part, SlavePart part → Received part bytes →
      (t.createSlave { bytes }).1.slave = { bytes := part } ∧
      (t.createSlave { bytes }).1.slaveCrc = Sequence.calculateCRC part false

section Accepting

variable (t : Telegram) {part bytes : List UInt8}

theorem createMaster_received (hpart : MasterPart part) (h : Received part bytes) :
    (t.createMaster { bytes }).1 =
      { t with masterState := .seqOk, telegramType := typeOf (part.getD 1 0),
               masterNn := (part.getD 4 0).toNat, master := { bytes := part },
               masterCrc := Sequence.calculateCRC part false } := by
  rw [createMaster, Sequence.reduce_of_logical rfl]
  obtain rfl | rfl := h
  · exact t.checkMaster_bare hpart
  · exact t.checkMaster_of_part hpart

theorem createSlave_received (hpart : SlavePart part) (h : Received part bytes)
    (htwo : 2 ≤ bytes.length) :
    (t.createSlave { bytes }).1 =
      { t with slaveState := .seqOk, slaveNn := (part.getD 0 0).toNat,
               slave := { bytes := part }, slaveCrc := Sequence.calculateCRC part false } := by
  rw [createSlave, Sequence.reduce_of_logical rfl]
  obtain rfl | rfl := h
  · exact t.checkSlave_bare hpart htwo
  · exact t.checkSlave_of_part hpart

/-- Only the answer without data and check sum is shorter than two bytes. -/
theorem two_le_of_received (hpart : SlavePart part) (h : Received part bytes)
    (hne : bytes ≠ [0]) : 2 ≤ bytes.length := by
  have hlength := hpart.length
  obtain rfl | rfl := h
  · by_contra hshort
    obtain ⟨count, rfl⟩ := List.length_eq_one_iff.mp
      (Nat.le_antisymm (by omega) hpart.length_bounds.1)
    have hzero : count.toNat = (0 : UInt8).toNat := by simpa using hlength
    rw [UInt8.toNat_inj.mp hzero] at hne
    exact hne rfl
  · rw [List.length_append, List.length_singleton]
    omega

theorem masterAgrees (bytes : List UInt8) : MasterAgrees t bytes := by
  have hpart (hok : (t.createMaster { bytes }).1.masterState = .seqOk) :
      ∃ part, MasterPart part ∧ Received part bytes := by
    have hreceived := createMaster_seqOk hok
    rw [Sequence.reduce_of_logical rfl] at hreceived
    rw [createMaster] at hok hreceived
    obtain ⟨error, hbad, -, heq⟩ | heq | ⟨part, crc, state, hpart, -, -, heq⟩ :=
      checkMaster_cases t (s := Sequence.reduce { bytes }) (Sequence.reduce_extended _)
    · rw [heq] at hok
      exact absurd (.inl hok) hbad
    · rw [heq] at hok
      cases hok
    · rw [heq] at hreceived
      exact ⟨part, hpart, hreceived⟩
  refine ⟨⟨hpart, ?_⟩, ?_⟩
  · rintro ⟨part, hpart, hreceived⟩
    rw [t.createMaster_received hpart hreceived]
  · intro _ part hpart hreceived
    rw [t.createMaster_received hpart hreceived]
    exact ⟨rfl, rfl⟩

theorem slaveAgrees (hne : bytes ≠ [0]) : SlaveAgrees t bytes := by
  refine ⟨⟨?_, ?_⟩, ?_⟩
  · intro hok
    obtain ⟨hpart, hreceived⟩ := createSlave_seqOk hok
    rw [Sequence.reduce_of_logical rfl] at hreceived
    exact ⟨_, hpart, hreceived⟩
  · rintro ⟨part, hpart, hreceived⟩
    rw [t.createSlave_received hpart hreceived (two_le_of_received hpart hreceived hne)]
  · intro _ part hpart hreceived
    rw [t.createSlave_received hpart hreceived (two_le_of_received hpart hreceived hne)]
    exact ⟨rfl, rfl⟩

end Accepting

/-- The checks agree with the format for every input but the answer without data that comes
without its check sum. -/
theorem agrees_iff (t : Telegram) (bytes : List UInt8) :
    MasterAgrees t bytes ∧ SlaveAgrees t bytes ↔ bytes ≠ [0] := by
  constructor
  · rintro ⟨-, hslave⟩ rfl
    have hpart : SlavePart [0] := ⟨by decide, by decide⟩
    have hok := hslave.accepts.mpr ⟨[0], hpart, .inl rfl⟩
    cases hok
  · intro hne
    exact ⟨t.masterAgrees bytes, t.slaveAgrees hne⟩

/-- The answer without data is rejected when its check sum is left to be computed. -/
theorem not_slaveAgrees_emptyAnswer :
    ¬ ∀ (t : Telegram) (bytes : List UInt8), MasterAgrees t bytes ∧ SlaveAgrees t bytes := by
  intro hall
  have hpart : SlavePart [0] := ⟨by decide, by decide⟩
  have hok := (hall {} [0]).2.accepts.mpr ⟨[0], hpart, .inl rfl⟩
  exact absurd hok (by decide)

end Telegram

end Ebus
