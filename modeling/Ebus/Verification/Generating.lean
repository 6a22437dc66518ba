import Ebus.Platform.SynGenerator

/-!
# One generator of SYN symbols

First a single participant: between the bytes that it reads and writes and a SYN of its own lies
at least the base time, so its carrier sense never has a reason to postpone. Then several
participants on one line: of those that have heard the same bytes the one with the shortest
time generates, and the timers of the others never run out.
-/

namespace Ebus

open BusLimits.Syn

/-- A participant with the clock and a record of the times of the bytes it has read and written;
no function of the model reads the record. -/
structure Clocked where
  now : Nat
  gen : SynGenerator
  bytes : List Nat := []
  deriving DecidableEq, Repr

namespace Clocked

inductive Action where
  | wait (d : Nat)
  | start
  | stop
  | readerEnds
  | setRuntimeConfig (address : UInt8) (synGen : Bool)
  | read (byte : UInt8)
  | write (byte : UInt8)
  /-- the thread of the generator goes on -/
  | synThread
  deriving DecidableEq, Repr

def step (s : Clocked) : Action → Clocked
  | .wait d => { s with now := s.now + d }
  | .start => { s with gen := s.gen.start s.now }
  | .stop => { s with gen := s.gen.stop }
  | .readerEnds => { s with gen := s.gen.readerEnds }
  | .setRuntimeConfig address synGen =>
      { s with gen := s.gen.setRuntimeConfig s.now address synGen }
  | .read byte =>
      { s with gen := s.gen.resetSynTimerInternal s.now byte, bytes := s.now :: s.bytes }
  | .write byte => { s with gen := s.gen.writeByte s.now byte, bytes := s.now :: s.bytes }
  | .synThread =>
      { s with gen := s.gen.synThread s.now
               bytes := if s.gen.thread = .write then s.now :: s.bytes else s.bytes }

end Clocked

namespace SynGenerator

/-- The timer is at least the base time behind the last activity. The thread can only be due
while it runs, and a timer is set before it is started. -/
structure Spaced (g : SynGenerator) (now : Nat) : Prop where
  base : milliseconds baseMs ≤ g.currentTUnique
  past : g.lastActivityTime ≤ now
  ahead : g.lastActivityTime + milliseconds baseMs ≤ g.nextSynExpiry ∨
    g.synRunning = false ∧ g.thread = .stopped
  unpostponed : g.synPostponedCount = 0

theorem Spaced.later {g : SynGenerator} {now : Nat} (h : g.Spaced now) {later : Nat}
    (hlater : now ≤ later) : g.Spaced later :=
  { h with past := Nat.le_trans h.past hlater }

theorem Spaced.resetSynTimerInternal {g : SynGenerator} {now : Nat} (h : g.Spaced now)
    (byte : UInt8) : (g.resetSynTimerInternal now byte).Spaced now := by
  obtain ⟨-, -, htUnique, hlast, hcount⟩ := g.resetSynTimerInternal_frame now byte
  refine ⟨by rw [htUnique]; exact h.base, Nat.le_of_eq hlast, .inl ?_, hcount.trans h.unpostponed⟩
  rw [hlast]
  exact (g.resetSynTimerInternal_expiry now byte h.base).1

theorem Spaced.writeByte {g : SynGenerator} {now : Nat} (h : g.Spaced now) (byte : UInt8) :
    (g.writeByte now byte).Spaced now := by
  refine ⟨h.base, Nat.le_refl _, .inl ?_, h.unpostponed⟩
  show now + milliseconds baseMs ≤ now + g.currentTUnique + milliseconds serializationDelayMs
  exact Nat.le_trans (Nat.add_le_add_left h.base now) (Nat.le_add_right _ _)

theorem Spaced.start {g : SynGenerator} {now : Nat} (h : g.Spaced now) :
    (g.start now).Spaced now := by
  have hbase := base_le_tUnique g.address
  unfold SynGenerator.start
  split
  · exact h
  · split
    · exact ⟨hbase, h.past, .inl (Nat.add_le_add h.past hbase), h.unpostponed⟩
    · exact ⟨h.base, h.past, h.ahead, h.unpostponed⟩

theorem Spaced.manageThread {g : SynGenerator} {now : Nat} (h : g.Spaced now)
    (wasEnabled : Bool) : (g.manageThread now wasEnabled).Spaced now := by
  unfold SynGenerator.manageThread
  split
  · exact h
  · split
    · split
      · exact ⟨h.base, h.past, .inl (Nat.add_le_add h.past h.base), h.unpostponed⟩
      · split
        · exact h.resetSynTimerInternal Symbols.syn
        · exact h
    · split
      · exact ⟨h.base, h.past, h.ahead.imp_right fun hstopped => ⟨rfl, hstopped.2⟩, h.unpostponed⟩
      · exact h

theorem Spaced.setRuntimeConfig {g : SynGenerator} {now : Nat} (h : g.Spaced now)
    (address : UInt8) (synGen : Bool) : (g.setRuntimeConfig now address synGen).Spaced now := by
  have hnew : Spaced { g with address, synGen, currentTUnique := tUnique address } now :=
    ⟨base_le_tUnique address, h.past, h.ahead, h.unpostponed⟩
  exact hnew.manageThread g.synGen

/-- Carrier sense: a timer that has run out is far enough behind the last activity. -/
theorem Spaced.carrier {g : SynGenerator} {now : Nat} (h : g.Spaced now)
    (hthread : g.thread ≠ .stopped) (hexpired : g.nextSynExpiry ≤ now) :
    g.lastActivityTime + milliseconds baseMs ≤ now ∧
    ¬ now - g.lastActivityTime < milliseconds carrierSenseMs := by
  have hahead := h.ahead.resolve_right fun hstopped => hthread hstopped.2
  have hcarrier : milliseconds carrierSenseMs ≤ milliseconds baseMs := by decide
  omega

theorem Spaced.synThread {g : SynGenerator} {now : Nat} (h : g.Spaced now) :
    (g.synThread now).Spaced now := by
  unfold SynGenerator.synThread
  split
  case h_1 => exact h
  case h_2 hthread =>
    have hrunning : g.thread ≠ .stopped := by rw [hthread]; exact SynPoint.noConfusion
    have hahead := h.ahead.resolve_right fun hstopped => hrunning hstopped.2
    split
    · exact ⟨h.base, h.past, .inl hahead, h.unpostponed⟩
    · split
      · exact h
      · case isFalse hexpired =>
          rw [if_neg (h.carrier hrunning (Nat.not_lt.mp hexpired)).2]
          exact ⟨h.base, h.past, .inl hahead, h.unpostponed⟩
  case h_3 hthread =>
    obtain ⟨hbase, hpast, hahead, hcount⟩ := h.writeByte Symbols.syn
    refine ⟨hbase, hpast, .inl (hahead.resolve_right fun hstopped => ?_), hcount⟩
    exact absurd (hthread.symm.trans hstopped.2) SynPoint.noConfusion
  case h_4 hthread =>
    have hahead := h.ahead.resolve_right fun hstopped =>
      absurd (hthread.symm.trans hstopped.2) SynPoint.noConfusion
    split
    · exact ⟨h.base, h.past, .inl (Nat.add_le_add h.past h.base), h.unpostponed⟩
    · exact ⟨h.base, h.past, .inl hahead, h.unpostponed⟩

/-- Of the steps of the thread only its write is activity. -/
theorem synThread_lastActivityTime (g : SynGenerator) (now : Nat) :
    (g.synThread now).lastActivityTime = if g.thread = .write then now else g.lastActivityTime := by
  unfold SynGenerator.synThread
  split
  case h_1 hthread => rw [if_neg (by rw [hthread]; exact SynPoint.noConfusion)]
  case h_2 hthread =>
    have hwrite : g.thread ≠ .write := by rw [hthread]; exact SynPoint.noConfusion
    rw [if_neg hwrite]
    split
    · rfl
    · split
      · rfl
      · split
        · rfl
        · rfl
  case h_3 hthread => rw [if_pos hthread]; rfl
  case h_4 hthread =>
    have hwrite : g.thread ≠ .write := by rw [hthread]; exact SynPoint.noConfusion
    rw [if_neg hwrite]
    split
    · rfl
    · rfl

end SynGenerator

namespace Clocked

/-- All bytes lie before the last activity. -/
structure Kept (s : Clocked) : Prop where
  spaced : s.gen.Spaced s.now
  recorded : ∀ t ∈ s.bytes, t ≤ s.gen.lastActivityTime

theorem recorded_cons {s : Clocked} (h : s.Kept) :
    ∀ t ∈ s.now :: s.bytes, t ≤ s.now := by
  refine List.forall_mem_cons.mpr ⟨Nat.le_refl _, fun t ht => ?_⟩
  exact Nat.le_trans (h.recorded t ht) h.spaced.past

theorem Kept.step {s : Clocked} (h : s.Kept) (action : Action) : (s.step action).Kept := by
  have hkeep (g : SynGenerator) (hspaced : g.Spaced s.now)
      (hlast : s.gen.lastActivityTime ≤ g.lastActivityTime) : Kept { s with gen := g } :=
    ⟨hspaced, fun t ht => Nat.le_trans (h.recorded t ht) hlast⟩
  cases action with
  | wait d => exact ⟨h.spaced.later (Nat.le_add_right _ _), h.recorded⟩
  | start =>
      refine hkeep _ h.spaced.start ?_
      unfold SynGenerator.start
      split
      · exact Nat.le_refl _
      · split
        · exact Nat.le_refl _
        · exact Nat.le_refl _
  | stop =>
      refine hkeep _ ⟨h.spaced.base, h.spaced.past, ?_, h.spaced.unpostponed⟩ (Nat.le_refl _)
      exact h.spaced.ahead.imp_right fun hstopped => ⟨rfl, hstopped.2⟩
  | readerEnds =>
      exact hkeep _ ⟨h.spaced.base, h.spaced.past, h.spaced.ahead, h.spaced.unpostponed⟩
        (Nat.le_refl _)
  | setRuntimeConfig address synGen =>
      refine hkeep _ (h.spaced.setRuntimeConfig address synGen) ?_
      unfold SynGenerator.setRuntimeConfig SynGenerator.manageThread
      split
      · exact Nat.le_refl _
      · split
        · split
          · exact Nat.le_refl _
          · split
            · rw [(SynGenerator.resetSynTimerInternal_frame _ _ _).2.2.2.1]
              exact h.spaced.past
            · exact Nat.le_refl _
        · split
          · exact Nat.le_refl _
          · exact Nat.le_refl _
  | read byte =>
      refine ⟨h.spaced.resetSynTimerInternal byte, fun t ht => ?_⟩
      rw [show (s.step (.read byte)).gen.lastActivityTime = s.now from
        (s.gen.resetSynTimerInternal_frame s.now byte).2.2.2.1]
      exact recorded_cons h t ht
  | write byte => exact ⟨h.spaced.writeByte byte, recorded_cons h⟩
  | synThread =>
      refine ⟨h.spaced.synThread, ?_⟩
      show ∀ t ∈ (if s.gen.thread = .write then s.now :: s.bytes else s.bytes),
        t ≤ (s.gen.synThread s.now).lastActivityTime
      rw [SynGenerator.synThread_lastActivityTime]
      by_cases hwrite : s.gen.thread = .write
      · rw [if_pos hwrite, if_pos hwrite]
        exact recorded_cons h
      · rw [if_neg hwrite, if_neg hwrite]
        exact h.recorded

theorem kept_run (now : Nat) (address : UInt8) (synGen : Bool) (actions : List Action) :
    (Runs.run step { now, gen := SynGenerator.create address synGen } actions).Kept := by
  refine Runs.invariant_always (fun _ action h => h.step action) ⟨?_, List.forall_mem_nil _⟩ actions
  exact ⟨SynGenerator.base_le_tUnique address, Nat.zero_le _, .inr ⟨rfl, rfl⟩, rfl⟩

/-- In every run, with changes of the configuration and any order of the threads: the generator is
never postponed, and when it goes on to write a SYN, the last byte that this participant has
read or written is at least 50 ms old. -/
theorem run_spaced (now : Nat) (address : UInt8) (synGen : Bool) (actions : List Action) :
    let s := Runs.run step { now, gen := SynGenerator.create address synGen } actions
    s.gen.synPostponedCount = 0 ∧
    (s.gen.thread = .check → (s.step .synThread).gen.thread = .write →
      ∀ t ∈ s.bytes, t + milliseconds baseMs ≤ s.now) := by
  intro s
  have hkept : s.Kept := kept_run now address synGen actions
  refine ⟨hkept.spaced.unpostponed, fun hcheck hwrite t ht => ?_⟩
  have hrunning : s.gen.thread ≠ .stopped := by rw [hcheck]; exact SynPoint.noConfusion
  have hexpired : s.gen.nextSynExpiry ≤ s.now := by
    by_contra hearly
    have hthread : (s.gen.synThread s.now).thread = .write := hwrite
    unfold SynGenerator.synThread at hthread
    rw [hcheck] at hthread
    simp only [if_pos (Nat.not_le.mp hearly)] at hthread
    split at hthread
    · exact SynPoint.noConfusion hthread
    · exact absurd (hcheck.symm.trans hthread) SynPoint.noConfusion
  exact Nat.le_trans (Nat.add_le_add_right (hkept.recorded t ht) _)
    (hkept.spaced.carrier hrunning hexpired).1

/-- The device with the shortest time, 55 ms behind the first byte that it hears. -/
theorem run_spaced_first :
    let s := Runs.run step { now := 1000, gen := SynGenerator.create 0x00 true }
      [.start, .wait 3000, .read 0x10, .wait 55000]
    (s.step .synThread).gen.thread = .write ∧ ∀ t ∈ s.bytes, t + milliseconds baseMs ≤ s.now :=
  ⟨by decide, (run_spaced 1000 0x00 true _).2 (by decide) (by decide)⟩

end Clocked

/-- Participants with generators, and for each of them the bytes that are on their way to it, with
the times at which they were written. `lastWritten` is the time of the last byte of all; no
function of the model reads it. -/
structure SynBus (ι : Type*) where
  now : Nat
  gen : ι → SynGenerator
  pending : ι → List (Nat × UInt8) := fun _ => []
  lastWritten : Nat

namespace SynBus

variable {ι : Type*}

inductive Action (ι : Type*) where
  | wait (d : Nat)
  /-- the thread of a generator goes on -/
  | synThread (i : ι)
  /-- the reader of a participant takes the next byte -/
  | read (i : ι)
  /-- a participant writes a byte that is not of its generator -/
  | write (i : ι) (byte : UInt8)
  deriving DecidableEq, Repr

/-- A byte is on its way to all participants, the one that wrote it included. -/
def put (s : SynBus ι) (byte : UInt8) : SynBus ι :=
  { s with pending := fun i => s.pending i ++ [(s.now, byte)], lastWritten := s.now }

def setGen [DecidableEq ι] (s : SynBus ι) (i : ι) (gen : SynGenerator) : SynBus ι :=
  { s with gen := Function.update s.gen i gen }

def step [DecidableEq ι] (s : SynBus ι) : Action ι → SynBus ι
  | .wait d => { s with now := s.now + d }
  | .synThread i =>
      let s' := s.setGen i ((s.gen i).synThread s.now)
      if (s.gen i).thread = .write then s'.put Symbols.syn else s'
  | .read i =>
      match s.pending i with
      | [] => s
      | (_, byte) :: rest =>
          { s.setGen i ((s.gen i).resetSynTimerInternal s.now byte) with
            pending := Function.update s.pending i rest }
  | .write i byte => (s.setGen i ((s.gen i).writeByte s.now byte)).put byte

/-- What the line and the threads of the first participant owe: a byte is read everywhere within
`transmission` of its writing; a thread whose time has come goes on within `latency`, and it
is back from writing before its time comes again. -/
def Timely (first : ι) (transmission latency : Nat) (s : SynBus ι) : Action ι → Prop
  | .wait d =>
      (∀ i, ∀ entry ∈ s.pending i, s.now + d ≤ entry.1 + transmission) ∧
      s.now + d ≤ (s.gen first).nextSynExpiry + latency ∧
      ((s.gen first).thread = .fallback → s.now + d < (s.gen first).nextSynExpiry)
  | _ => True

/-- Everybody has just heard the last byte, and nobody has generated a SYN since. -/
structure Settled (transmission : Nat) (s : SynBus ι) : Prop where
  idle : ∀ i, (s.gen i).thread = .check ∧ (s.gen i).synRunning = true ∧
    (s.gen i).synActive = false ∧ (s.gen i).synPostponedCount = 0 ∧
    (s.gen i).currentTUnique = SynGenerator.tUnique (s.gen i).address
  quiet : ∀ i, s.pending i = []
  heard : ∀ i, ∃ t, s.lastWritten ≤ t ∧ t ≤ s.lastWritten + transmission ∧ t ≤ s.now ∧
    (s.gen i).lastActivityTime = t ∧ (s.gen i).nextSynExpiry = t + (s.gen i).currentTUnique
  early : ∀ i, s.now < (s.gen i).nextSynExpiry

/-- The first participant: its time comes at the latest `tu` behind the last byte, as it was heard
here, and then it goes on. -/
structure Leading (transmission latency tu : Nat) (g : SynGenerator) (now lastWritten : Nat) :
    Prop where
  spaced : g.Spaced now
  time : g.currentTUnique = tu
  due : g.nextSynExpiry ≤ lastWritten + transmission + tu
  inTime : now ≤ g.nextSynExpiry + latency
  back : g.thread = .fallback → now < g.nextSynExpiry

/-- Another participant: it waits, and the bytes that are on their way come in time. -/
structure Following (transmission tu : Nat) (g : SynGenerator) (pending : List (Nat × UInt8))
    (now lastWritten : Nat) : Prop where
  waits : g.thread = .check ∧ g.synRunning = true
  passive : g.synActive = false
  time : g.currentTUnique = tu
  ahead : pending = [] → lastWritten + tu ≤ g.nextSynExpiry
  arriving : ∀ entry rest, pending = entry :: rest → entry.1 + transmission < g.nextSynExpiry

section Participants

variable {transmission latency tu now lastWritten : Nat} {g : SynGenerator}
variable {pending : List (Nat × UInt8)}

theorem Leading.later (h : Leading transmission latency tu g now lastWritten) {later : Nat}
    (hlater : now ≤ later) (htime : later ≤ g.nextSynExpiry + latency)
    (hback : g.thread = .fallback → later < g.nextSynExpiry) :
    Leading transmission latency tu g later lastWritten :=
  ⟨h.spaced.later hlater, h.time, h.due, htime, hback⟩

theorem Leading.put (h : Leading transmission latency tu g now lastWritten)
    (hpast : lastWritten ≤ now) : Leading transmission latency tu g now now := by
  refine ⟨h.spaced, h.time, ?_, h.inTime, h.back⟩
  have hdue := h.due
  omega

theorem Leading.read (h : Leading transmission latency tu g now lastWritten)
    (hrecent : now ≤ lastWritten + transmission) (byte : UInt8) :
    Leading transmission latency tu (g.resetSynTimerInternal now byte) now lastWritten := by
  obtain ⟨-, -, htime, -, -⟩ := g.resetSynTimerInternal_frame now byte
  obtain ⟨hearly, hlate⟩ := g.resetSynTimerInternal_expiry now byte h.spaced.base
  have hbase : 0 < milliseconds baseMs := by decide
  have hsame := h.time
  refine ⟨h.spaced.resetSynTimerInternal byte, htime.trans h.time, ?_, ?_, fun _ => ?_⟩
  · omega
  · omega
  · omega

theorem Leading.write (h : Leading transmission latency tu g now now)
    (hserial : milliseconds serializationDelayMs ≤ transmission) (byte : UInt8) :
    Leading transmission latency tu (g.writeByte now byte) now now := by
  have hbase := h.spaced.base
  have hpos : 0 < milliseconds baseMs := by decide
  have hexpiry : (g.writeByte now byte).nextSynExpiry =
      now + g.currentTUnique + milliseconds serializationDelayMs := rfl
  have hsame := h.time
  refine ⟨h.spaced.writeByte byte, h.time, ?_, ?_, fun _ => ?_⟩
  · omega
  · omega
  · omega

/-- The write of the thread itself, which then has to look at the timer once more. -/
theorem Leading.synThread_write (h : Leading transmission latency tu g now now)
    (hserial : milliseconds serializationDelayMs ≤ transmission) (hwrite : g.thread = .write) :
    Leading transmission latency tu (g.synThread now) now now := by
  have hspaced := h.spaced.synThread
  have hwritten := h.write hserial Symbols.syn
  have hpos : 0 < milliseconds baseMs := by decide
  have hbase := h.spaced.base
  have heq : g.synThread now = { g.writeByte now Symbols.syn with thread := .fallback } := by
    unfold SynGenerator.synThread
    rw [hwrite]
  rw [heq] at hspaced ⊢
  refine ⟨hspaced, hwritten.time, hwritten.due, hwritten.inTime, fun _ => ?_⟩
  show now < now + g.currentTUnique + milliseconds serializationDelayMs
  omega

/-- Its other steps leave the timer alone: carrier sense has no reason to postpone, and back from
writing it is in time. -/
theorem Leading.synThread (h : Leading transmission latency tu g now lastWritten)
    (hwrite : g.thread ≠ .write) :
    Leading transmission latency tu (g.synThread now) now lastWritten := by
  have hspaced := h.spaced.synThread
  suffices hframe : (g.synThread now).nextSynExpiry = g.nextSynExpiry ∧
      (g.synThread now).currentTUnique = g.currentTUnique ∧
      ((g.synThread now).thread = .fallback → g.thread = .fallback) by
    obtain ⟨hexpiry, htime, hthread⟩ := hframe
    refine ⟨hspaced, htime.trans h.time, ?_, ?_, ?_⟩
    · rw [hexpiry]
      exact h.due
    · rw [hexpiry]
      exact h.inTime
    · rw [hexpiry]
      exact fun hback => h.back (hthread hback)
  unfold SynGenerator.synThread
  split
  case h_1 => exact ⟨rfl, rfl, id⟩
  case h_2 hthread =>
    have hrunning : g.thread ≠ .stopped := by rw [hthread]; exact SynPoint.noConfusion
    split
    · exact ⟨rfl, rfl, fun hback => SynPoint.noConfusion hback⟩
    · split
      · exact ⟨rfl, rfl, id⟩
      · case isFalse hexpired =>
          rw [if_neg (h.spaced.carrier hrunning (Nat.not_lt.mp hexpired)).2]
          exact ⟨rfl, rfl, fun hback => SynPoint.noConfusion hback⟩
  case h_3 hthread => exact absurd hthread hwrite
  case h_4 hthread =>
    rw [if_neg (Nat.not_le.mpr (h.back hthread))]
    exact ⟨rfl, rfl, fun hback => SynPoint.noConfusion hback⟩

theorem Following.put (h : Following transmission tu g pending now lastWritten)
    (hgap : now + transmission < lastWritten + tu) (byte : UInt8) :
    Following transmission tu g (pending ++ [(now, byte)]) now now := by
  refine ⟨h.waits, h.passive, h.time, fun hnil => ?_, fun entry rest hcons => ?_⟩
  · exact absurd hnil (List.append_ne_nil_of_right_ne_nil _ (List.cons_ne_nil _ _))
  · cases pending with
    | nil =>
        obtain ⟨rfl, -⟩ := List.cons.inj hcons
        exact Nat.lt_of_lt_of_le hgap (h.ahead rfl)
    | cons first others =>
        obtain ⟨rfl, -⟩ := List.cons.inj hcons
        exact h.arriving _ others rfl

theorem Following.read {entry : Nat × UInt8}
    (h : Following transmission tu g (entry :: pending) now lastWritten)
    (hpast : lastWritten ≤ now) (hpending : ∀ e ∈ pending, e.1 ≤ now) (htu : transmission < tu)
    (byte : UInt8) :
    Following transmission tu (g.resetSynTimerInternal now byte) pending now lastWritten := by
  rw [SynGenerator.resetSynTimerInternal_passive h.passive]
  have hsame := h.time
  refine ⟨h.waits, h.passive, h.time, fun _ => ?_, fun e rest hcons => ?_⟩
  · show lastWritten + tu ≤ now + g.currentTUnique
    omega
  · have hnow := hpending e (hcons ▸ List.mem_cons_self)
    show e.1 + transmission < now + g.currentTUnique
    omega

theorem Following.write (h : Following transmission tu g pending now now)
    (hpending : ∀ e ∈ pending, e.1 ≤ now) (htu : transmission < tu) (byte : UInt8) :
    Following transmission tu (g.writeByte now byte) pending now now := by
  have hsame := h.time
  refine ⟨h.waits, ?_, h.time, fun _ => ?_, fun e rest hcons => ?_⟩
  · show (if byte ≠ Symbols.syn then false else g.synActive) = false
    rw [h.passive, ite_self]
  · show now + tu ≤ now + g.currentTUnique + milliseconds serializationDelayMs
    omega
  · have hnow := hpending e (hcons ▸ List.mem_cons_self)
    show e.1 + transmission < now + g.currentTUnique + milliseconds serializationDelayMs
    omega

/-- Its time has not come. -/
theorem Following.early (h : Following transmission tu g pending now lastWritten)
    (harriving : ∀ e ∈ pending, now ≤ e.1 + transmission)
    (hgap : now < lastWritten + tu) : now < g.nextSynExpiry := by
  cases pending with
  | nil => exact Nat.lt_of_lt_of_le hgap (h.ahead rfl)
  | cons entry rest =>
      exact Nat.lt_of_le_of_lt (harriving entry List.mem_cons_self) (h.arriving entry rest rfl)

theorem Following.synThread (h : Following transmission tu g pending now lastWritten)
    (hearly : now < g.nextSynExpiry) : g.synThread now = g := by
  unfold SynGenerator.synThread
  rw [h.waits.1]
  simp only [h.waits.2, Bool.true_eq_false, if_false, if_pos hearly]

end Participants

/-- What holds of the line while `first` generates. -/
structure Led (first : ι) (transmission latency : Nat) (tu : ι → Nat) (s : SynBus ι) : Prop where
  leading : Leading transmission latency (tu first) (s.gen first) s.now s.lastWritten
  following : ∀ j, j ≠ first →
    Following transmission (tu j) (s.gen j) (s.pending j) s.now s.lastWritten
  past : s.lastWritten ≤ s.now
  inFlight : ∀ i, ∀ entry ∈ s.pending i,
    entry.1 ≤ s.lastWritten ∧ s.now ≤ entry.1 + transmission

section Line

variable {first : ι} {transmission latency : Nat} {tu : ι → Nat} {s : SynBus ι}

/-- The first participant is that much faster than the others. -/
def Ahead (first : ι) (transmission latency : Nat) (tu : ι → Nat) : Prop :=
  ∀ j, j ≠ first → tu first + latency + 2 * transmission < tu j

theorem Led.gap (h : Led first transmission latency tu s)
    (hahead : Ahead first transmission latency tu) {j : ι} (hj : j ≠ first) :
    s.now + transmission < s.lastWritten + tu j := by
  have hj := hahead j hj
  have hdue := h.leading.due
  have htime := h.leading.inTime
  omega

theorem Led.put (h : Led first transmission latency tu s)
    (hahead : Ahead first transmission latency tu) (byte : UInt8) :
    Led first transmission latency tu (s.put byte) := by
  refine ⟨h.leading.put h.past, fun j hj => (h.following j hj).put (h.gap hahead hj) byte,
    Nat.le_refl _, fun i entry hentry => ?_⟩
  obtain hold | hnew := List.mem_append.mp hentry
  · obtain ⟨hbefore, hafter⟩ := h.inFlight i entry hold
    exact ⟨Nat.le_trans hbefore h.past, hafter⟩
  · obtain rfl := List.mem_singleton.mp hnew
    exact ⟨Nat.le_refl _, Nat.le_add_right _ _⟩

theorem Led.wait (h : Led first transmission latency tu s) {d : Nat}
    (hok : Timely first transmission latency s (.wait d)) :
    Led first transmission latency tu { s with now := s.now + d } := by
  obtain ⟨harrive, htime, hback⟩ := hok
  refine ⟨h.leading.later (Nat.le_add_right _ _) htime hback, fun j hj => ?_,
    Nat.le_trans h.past (Nat.le_add_right _ _), fun i entry hentry => ?_⟩
  · obtain ⟨hwaits, hpassive, htu, hnil, harriving⟩ := h.following j hj
    exact ⟨hwaits, hpassive, htu, hnil, harriving⟩
  · exact ⟨(h.inFlight i entry hentry).1, harrive i entry hentry⟩

theorem Settled.led (h : Settled transmission s)
    (htu : ∀ i, SynGenerator.tUnique (s.gen i).address = tu i) :
    Led first transmission latency tu s := by
  have hpast : s.lastWritten ≤ s.now := by
    obtain ⟨t, hbefore, -, hafter, -⟩ := h.heard first
    exact Nat.le_trans hbefore hafter
  refine ⟨?_, fun j hj => ?_, hpast, fun i entry hentry => ?_⟩
  · obtain ⟨hthread, -, -, hcount, htime⟩ := h.idle first
    obtain ⟨t, hbefore, hlate, hafter, hlast, hexpiry⟩ := h.heard first
    have hbase := SynGenerator.base_le_tUnique (s.gen first).address
    have hearly := h.early first
    have htu := htu first
    refine ⟨⟨?_, ?_, .inl ?_, hcount⟩, htime.trans htu, ?_, ?_, fun hback => ?_⟩
    · omega
    · omega
    · omega
    · omega
    · omega
    · exact absurd (hthread.symm.trans hback) SynPoint.noConfusion
  · obtain ⟨hthread, hrunning, hpassive, -, htime⟩ := h.idle j
    obtain ⟨t, hbefore, -, -, -, hexpiry⟩ := h.heard j
    have htu := htu j
    refine ⟨⟨hthread, hrunning⟩, hpassive, htime.trans htu, fun _ => ?_, fun e rest hcons => ?_⟩
    · omega
    · rw [h.quiet j] at hcons
      exact absurd hcons.symm (List.cons_ne_nil _ _)
  · rw [h.quiet i] at hentry
    exact absurd hentry List.not_mem_nil

variable [DecidableEq ι]

theorem Led.setFirst (h : Led first transmission latency tu s) {gen : SynGenerator}
    (hgen : Leading transmission latency (tu first) gen s.now s.lastWritten) :
    Led first transmission latency tu (s.setGen first gen) := by
  refine ⟨?_, fun j hj => ?_, h.past, h.inFlight⟩
  · show Leading transmission latency (tu first) (Function.update s.gen first gen first) _ _
    rw [Function.update_self]
    exact hgen
  · show Following transmission (tu j) (Function.update s.gen first gen j) _ _ _
    rw [Function.update_of_ne hj]
    exact h.following j hj

theorem Led.setOther (h : Led first transmission latency tu s) {i : ι} (hi : i ≠ first)
    {gen : SynGenerator}
    (hgen : Following transmission (tu i) gen (s.pending i) s.now s.lastWritten) :
    Led first transmission latency tu (s.setGen i gen) := by
  refine ⟨?_, fun j hj => ?_, h.past, h.inFlight⟩
  · show Leading transmission latency (tu first) (Function.update s.gen i gen first) _ _
    rw [Function.update_of_ne hi.symm]
    exact h.leading
  · show Following transmission (tu j) (Function.update s.gen i gen j) _ _ _
    by_cases heq : j = i
    · subst heq
      rw [Function.update_self]
      exact hgen
    · rw [Function.update_of_ne heq]
      exact h.following j hj

theorem Led.synThread (h : Led first transmission latency tu s)
    (hahead : Ahead first transmission latency tu)
    (hserial : milliseconds serializationDelayMs ≤ transmission) (i : ι) :
    Led first transmission latency tu (s.step (.synThread i)) := by
  show Led first transmission latency tu (if (s.gen i).thread = .write then _ else _)
  by_cases hi : i = first
  · subst hi
    split
    case isTrue hwrite =>
      have hput := h.put hahead Symbols.syn
      exact hput.setFirst (hput.leading.synThread_write hserial hwrite)
    case isFalse hwrite => exact h.setFirst (h.leading.synThread hwrite)
  · have hfollowing := h.following i hi
    have hearly : s.now < (s.gen i).nextSynExpiry :=
      hfollowing.early (fun e he => (h.inFlight i e he).2)
        (Nat.lt_of_le_of_lt (Nat.le_add_right _ _) (h.gap hahead hi))
    have hwrite : (s.gen i).thread ≠ .write := by
      rw [hfollowing.waits.1]
      exact SynPoint.noConfusion
    rw [if_neg hwrite, hfollowing.synThread hearly]
    exact h.setOther hi hfollowing

theorem Led.read (h : Led first transmission latency tu s)
    (hahead : Ahead first transmission latency tu) (i : ι) :
    Led first transmission latency tu (s.step (.read i)) := by
  cases hpending : s.pending i with
  | nil =>
      have hstep : s.step (.read i) = s := by simp only [SynBus.step, hpending]
      rw [hstep]
      exact h
  | cons entry rest =>
      have hstep : s.step (.read i) =
          { s.setGen i ((s.gen i).resetSynTimerInternal s.now entry.2) with
            pending := Function.update s.pending i rest } := by
        simp only [SynBus.step, hpending]
      rw [hstep]
      have hflight : ∀ j, ∀ e ∈ Function.update s.pending i rest j,
          e.1 ≤ s.lastWritten ∧ s.now ≤ e.1 + transmission := by
        intro j e he
        refine h.inFlight j e ?_
        by_cases hj : j = i
        · subst hj
          rw [Function.update_self] at he
          rw [hpending]
          exact List.mem_cons_of_mem _ he
        · rwa [Function.update_of_ne hj] at he
      obtain ⟨hwritten, harrive⟩ := h.inFlight i entry (hpending ▸ List.mem_cons_self)
      refine ⟨?_, fun j hj => ?_, h.past, hflight⟩
      · show Leading transmission latency (tu first) (Function.update s.gen i _ first) _ _
        by_cases hi : i = first
        · subst hi
          rw [Function.update_self]
          exact h.leading.read (Nat.le_trans harrive (Nat.add_le_add_right hwritten _)) entry.2
        · rw [Function.update_of_ne (Ne.symm hi)]
          exact h.leading
      · show Following transmission (tu j) (Function.update s.gen i _ j)
          (Function.update s.pending i rest j) _ _
        by_cases heq : j = i
        · subst heq
          rw [Function.update_self, Function.update_self]
          have hfollowing := h.following j hj
          rw [hpending] at hfollowing
          have htu := hahead j hj
          refine hfollowing.read h.past (fun e he => ?_) (by omega) entry.2
          have hflying := (h.inFlight j e (hpending ▸ List.mem_cons_of_mem _ he)).1
          exact Nat.le_trans hflying h.past
        · rw [Function.update_of_ne heq, Function.update_of_ne heq]
          exact h.following j hj

theorem Led.write (h : Led first transmission latency tu s)
    (hahead : Ahead first transmission latency tu)
    (hserial : milliseconds serializationDelayMs ≤ transmission) (i : ι) (byte : UInt8) :
    Led first transmission latency tu (s.step (.write i byte)) := by
  have hput := h.put hahead byte
  show Led first transmission latency tu
    ((s.put byte).setGen i ((s.gen i).writeByte s.now byte))
  by_cases hi : i = first
  · subst hi
    exact hput.setFirst (hput.leading.write hserial byte)
  · have htu := hahead i hi
    refine hput.setOther hi ((hput.following i hi).write (fun e he => ?_) (by omega) byte)
    exact (hput.inFlight i e he).1

theorem Led.step (h : Led first transmission latency tu s)
    (hahead : Ahead first transmission latency tu)
    (hserial : milliseconds serializationDelayMs ≤ transmission) {action : Action ι}
    (hok : Timely first transmission latency s action) :
    Led first transmission latency tu (s.step action) := by
  cases action with
  | wait d => exact h.wait hok
  | synThread i => exact h.synThread hahead hserial i
  | read i => exact h.read hahead i
  | write i byte => exact h.write hahead hserial i byte

/-- Where one participant's time is shorter than all others' by more than a byte takes twice and
its thread may be late, it alone generates: in every timely run from a line on which everybody
has heard the last byte the threads of the others keep waiting, and its own is never postponed. -/
theorem run_led (first : ι) {transmission latency : Nat} {s : SynBus ι}
    (hserial : milliseconds serializationDelayMs ≤ transmission) (hsettled : Settled transmission s)
    (hahead : ∀ j, j ≠ first → SynGenerator.tUnique (s.gen first).address + latency +
      2 * transmission < SynGenerator.tUnique (s.gen j).address)
    (actions : List (Action ι))
    (htimely : Runs.Meets step (Timely first transmission latency) s actions) :
    (∀ j, j ≠ first → ((Runs.run step s actions).gen j).thread = .check ∧
      ((Runs.run step s actions).gen j).synActive = false) ∧
    ((Runs.run step s actions).gen first).synPostponedCount = 0 := by
  have hled : Led first transmission latency
      (fun i => SynGenerator.tUnique (s.gen i).address) (Runs.run step s actions) :=
    Runs.invariant (fun _ _ led hok => led.step hahead hserial hok)
      (hsettled.led fun _ => rfl) htimely
  refine ⟨fun j hj => ?_, hled.leading.spaced.unpostponed⟩
  exact ⟨(hled.following j hj).waits.1, (hled.following j hj).passive⟩

/-- Two participants have heard the same byte, and the time of the first one comes. -/
theorem run_led_two :
    let gen (i : Fin 2) : SynGenerator :=
      { SynGenerator.create (if i = 0 then 0x00 else 0x10) true with
        isOpen := true, running := true, synRunning := true, thread := .check
        nextSynExpiry := SynGenerator.tUnique (if i = 0 then 0x00 else 0x10) }
    ((Runs.run step ({ now := 0, gen, lastWritten := 0 } : SynBus (Fin 2))
      [.wait 55000, .synThread 0, .synThread 0]).gen 1).synActive = false := by
  intro gen
  have hsettled : Settled 4000 ({ now := 0, gen, lastWritten := 0 } : SynBus (Fin 2)) := by
    refine ⟨fun i => ⟨rfl, rfl, rfl, rfl, rfl⟩, fun i => rfl, fun i => ?_, fun i => ?_⟩
    · exact ⟨0, Nat.le_refl _, Nat.zero_le _, Nat.le_refl _, rfl, (Nat.zero_add _).symm⟩
    · exact Nat.lt_of_lt_of_le (by decide)
        (SynGenerator.base_le_tUnique (if i = 0 then 0x00 else 0x10))
  have htimely : Runs.Meets step (Timely 0 4000 1000)
      ({ now := 0, gen, lastWritten := 0 } : SynBus (Fin 2))
      [.wait 55000, .synThread 0, .synThread 0] := by
    refine ⟨⟨fun i entry hmem => absurd hmem List.not_mem_nil, ?_, ?_⟩, trivial, trivial, trivial⟩
    · have hexpiry : (gen 0).nextSynExpiry = 55000 := by decide
      show 0 + 55000 ≤ (gen 0).nextSynExpiry + 1000
      rw [hexpiry]
      decide
    · exact fun h => SynPoint.noConfusion h
  have hahead : ∀ j : Fin 2, j ≠ 0 → SynGenerator.tUnique (gen 0).address + 1000 + 2 * 4000 <
      SynGenerator.tUnique (gen j).address := by decide
  exact ((run_led 0 (by decide) hsettled hahead _ htimely).1 1 (by decide)).2

end Line

/-- No step of the thread ends a generator's turn. -/
theorem synThread_active {g : SynGenerator} (h : g.synActive = true) (now : Nat) :
    (g.synThread now).synActive = true := by
  unfold SynGenerator.synThread
  split
  case h_1 => exact h
  case h_2 =>
    split
    · exact h
    · split
      · exact h
      · split
        · exact h
        · rfl
  case h_3 => exact h
  case h_4 =>
    split
    · exact h
    · exact h

/-- A generator is active, and only SYN symbols are on their way to it. -/
structure Active (s : SynBus ι) (i : ι) : Prop where
  active : (s.gen i).synActive = true
  syns : ∀ entry ∈ s.pending i, entry.2 = Symbols.syn

theorem Active.put {s : SynBus ι} {i : ι} (h : s.Active i) : (s.put Symbols.syn).Active i := by
  refine ⟨h.active, fun entry hentry => ?_⟩
  obtain hold | hnew := List.mem_append.mp hentry
  · exact h.syns entry hold
  · rw [List.mem_singleton.mp hnew]

variable [DecidableEq ι]

theorem Active.setGen {s : SynBus ι} {i : ι} (h : s.Active i) (j : ι) {gen : SynGenerator}
    (hgen : j = i → gen.synActive = true) : (s.setGen j gen).Active i := by
  refine ⟨?_, h.syns⟩
  show (Function.update s.gen j gen i).synActive = true
  by_cases hj : i = j
  · rw [hj, Function.update_self]
    exact hgen hj.symm
  · rw [Function.update_of_ne hj]
    exact h.active

theorem Active.step {s : SynBus ι} {i : ι} (h : s.Active i) {action : Action ι}
    (hsyn : ∀ k byte, action = .write k byte → byte = Symbols.syn) : (s.step action).Active i := by
  cases action with
  | wait d => exact ⟨h.active, h.syns⟩
  | synThread j =>
      have hgen : (s.setGen j ((s.gen j).synThread s.now)).Active i :=
        h.setGen j fun hj => synThread_active (hj ▸ h.active) s.now
      show Active (if (s.gen j).thread = .write then _ else _) i
      split
      · exact hgen.put
      · exact hgen
  | read j =>
      cases hpending : s.pending j with
      | nil =>
          have hstep : s.step (.read j) = s := by simp only [SynBus.step, hpending]
          rw [hstep]
          exact h
      | cons entry rest =>
          have hgen : (s.setGen j ((s.gen j).resetSynTimerInternal s.now entry.2)).Active i := by
            refine h.setGen j fun hj => ?_
            subst hj
            have hbyte := h.syns entry (hpending ▸ List.mem_cons_self)
            unfold SynGenerator.resetSynTimerInternal
            rw [if_pos ⟨h.active, hbyte⟩]
            exact h.active
          have hstep : s.step (.read j) =
              { s.setGen j ((s.gen j).resetSynTimerInternal s.now entry.2) with
                pending := Function.update s.pending j rest } := by
            simp only [SynBus.step, hpending]
          rw [hstep]
          refine ⟨hgen.active, fun e he => h.syns e ?_⟩
          by_cases hj : i = j
          · subst hj
            rw [hpending]
            exact List.mem_cons_of_mem _ (by simpa using he)
          · simpa [hj] using he
  | write j byte =>
      obtain rfl := hsyn j byte rfl
      refine Active.put (h.setGen j fun hj => ?_)
      show (if Symbols.syn ≠ Symbols.syn then false else (s.gen j).synActive) = true
      rw [if_neg (fun hne => hne rfl), hj]
      exact h.active

/-- A generator cannot tell the SYN of another one from its own: once active it stays so in every
run in which only SYN symbols are written. Two that have become active together never settle
which of them goes on. -/
theorem run_active (i : ι) (s : SynBus ι) (hactive : (s.gen i).synActive = true)
    (hpending : ∀ entry ∈ s.pending i, entry.2 = Symbols.syn) (actions : List (Action ι))
    (hsyn : ∀ k byte, .write k byte ∈ actions → byte = Symbols.syn) :
    ((Runs.run step s actions).gen i).synActive = true := by
  suffices hrun : (Runs.run step s actions).Active i from hrun.active
  refine Runs.invariant_forall (I := fun s : SynBus ι => s.Active i)
    (P := fun action : Action ι => ∀ k byte, action = .write k byte → byte = Symbols.syn)
    (fun _ _ active hwrite => active.step hwrite) ⟨hactive, hpending⟩ ?_
  intro action hmem k byte heq
  exact hsyn k byte (heq ▸ hmem)

/-- Both of two generators whose times came within one byte stay active. -/
theorem run_active_both :
    let gen (_ : Fin 2) : SynGenerator :=
      { SynGenerator.create 0x10 true with
        isOpen := true, running := true, synRunning := true, thread := .write, synActive := true }
    let t := Runs.run step ({ now := 300000, gen, lastWritten := 0 } : SynBus (Fin 2))
      [.synThread 0, .synThread 1, .wait 4200, .read 0, .read 1, .read 0, .read 1]
    (t.gen 0).synActive = true ∧ (t.gen 1).synActive = true :=
  ⟨run_active 0 _ rfl (List.forall_mem_nil _) _ (by simp),
    run_active 1 _ rfl (List.forall_mem_nil _) _ (by simp)⟩

end SynBus

end Ebus
