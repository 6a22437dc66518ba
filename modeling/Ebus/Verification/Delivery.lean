import Ebus.App.Queues

/-!
# Accounting of the reactor queues

An event that was pushed is delivered, waits in its queue, has been counted as dropped, or
is in the hands of a call in progress that still has to queue or to count it. For the bus
queue this holds unless the second push of a call fails; `pushProtocolEvent` does not
count the event that it discards, so that each discard leaves one event unaccounted for.

The reactor takes one bus event for each `bus_byte` signal. No event is left behind as
long as there are at least as many such signals, queued or to come, as bus events. A
signal is lost when its push finds the signal queue full, or when `pushSignal` discards it.
-/

namespace Ebus

namespace Queues

/-- Bus events that the call has in hand or has discarded and not yet counted. -/
@[simp] def owedBus : Call → Nat
  | .onBusEventInfo .push _ | .onBusEventInfo .discard _ | .onBusEventInfo .count _ => 1
  | .onBusEventInfo .pushAgain _ => 2
  | _ => 0

/-- Protocol events that the call has in hand. -/
@[simp] def owedProtocol : Call → Nat
  | .pushProtocolEvent .push _ | .pushProtocolEvent .discard _
  | .pushProtocolEvent .pushAgain _ | .pushProtocolEvent .count _ => 1
  | _ => 0

/-- `bus_byte` signals that the call will push beyond the bus events that it will push. -/
@[simp] def promised : Call → Nat
  | .onBusEventInfo .discard _ | .onBusEventInfo .count _ | .onBusEventInfo .signal _ => 1
  | _ => 0

def total (f : Call → Nat) : List Call → Nat
  | [] => 0
  | call :: calls => f call + total f calls

@[simp] theorem total_nil (f : Call → Nat) : total f [] = 0 := rfl

@[simp] theorem total_cons (f : Call → Nat) (call : Call) (calls : List Call) :
    total f (call :: calls) = f call + total f calls := rfl

theorem total_append (f : Call → Nat) (as bs : List Call) :
    total f (as ++ bs) = total f as + total f bs := by
  induction as with
  | nil => simp
  | cons call as ih =>
      rw [List.cons_append, total_cons, total_cons, ih]
      omega

/-- A call apart from the others. -/
theorem total_erase (f : Call → Nat) {call : Call} {calls : List Call} (h : call ∈ calls) :
    total f calls = f call + total f (calls.erase call) := by
  induction calls with
  | nil => cases h
  | cons first rest ih =>
      by_cases heq : first = call
      · subst heq
        rw [List.erase_cons_head, total_cons]
      · obtain hfirst | hrest := List.mem_cons.mp h
        · exact absurd hfirst.symm heq
        · rw [List.erase_cons_tail (by simpa using heq), total_cons, total_cons, ih hrest]
          omega

/-- `bus_byte` signals that are queued, promised, or being processed. -/
def coverage (q : Queues) : Nat :=
  q.signals.waiting.count .busByte + total promised q.calls + q.current.toList.count .busByte

/-- The second push of `onBusEventInfo` finds the queue full: two events are lost and one
is counted. -/
@[simp] def lostBus (q : Queues) : Call → Nat
  | .onBusEventInfo .pushAgain _ =>
      if q.bus.waiting.length < ReactorLimits.busQueueSize then 0 else 1
  | _ => 0

/-- `pushProtocolEvent` discards an event. -/
@[simp] def lostProtocol (q : Queues) : Call → Nat
  | .pushProtocolEvent .discard _ => if q.protocol.waiting = [] then 0 else 1
  | _ => 0

/-- A `bus_byte` signal finds the signal queue full, or is discarded by `pushSignal`. -/
@[simp] def lostSignal (q : Queues) : Call → Nat
  | .onBusEventInfo .signal _ =>
      if q.signals.waiting.length < ReactorLimits.signalQueueSize then 0 else 1
  | .pushSignal .discard _ => if q.signals.waiting.head? = some .busByte then 1 else 0
  | _ => 0

/-- The calls in progress lose no event, and a signal only while there are more of them than
bus events. -/
def Keeps (q : Queues) : Action → Prop
  | .goOn call => call ∈ q.calls →
      lostBus q call = 0 ∧ lostProtocol q call = 0 ∧
      (lostSignal q call = 1 → q.bus.waiting.length < q.coverage)
  | _ => True

/-- What one operation of a call does to the counts. -/
structure Counts (q : Queues) (call : Call) (after : Queues × Option Call) : Prop where
  calls : after.1.calls = q.calls
  current : after.1.current = q.current
  busPushed : after.1.busPushed = q.busPushed
  protocolPushed : after.1.protocolPushed = q.protocolPushed
  bus : after.1.bus.delivered.length + after.1.bus.waiting.length + after.1.busQueueDropped +
      total owedBus after.2.toList + lostBus q call =
    q.bus.delivered.length + q.bus.waiting.length + q.busQueueDropped + owedBus call
  protocol : after.1.protocol.delivered.length + after.1.protocol.waiting.length +
      after.1.protocolQueueDropped + total owedProtocol after.2.toList + lostProtocol q call =
    q.protocol.delivered.length + q.protocol.waiting.length + q.protocolQueueDropped +
      owedProtocol call
  signal : after.1.bus.waiting.length + q.signals.waiting.count .busByte + promised call ≤
    q.bus.waiting.length + after.1.signals.waiting.count .busByte +
      total promised after.2.toList + lostSignal q call
  lost : lostSignal q call = 1 → after.1.bus.waiting = q.bus.waiting ∧
    after.1.signals.waiting.count .busByte + total promised after.2.toList + 1 =
      q.signals.waiting.count .busByte + promised call

theorem onBusEventInfo_counts (q : Queues) (event : Nat) (point : Point) :
    Counts q (.onBusEventInfo point event) (q.onBusEventInfo event point) := by
  cases point with
  | push =>
      obtain ⟨-, heq⟩ | ⟨pushed, -, heq, hwaiting, -, hdelivered⟩ := q.bus.tryPush_cases event
      · constructor <;> simp [onBusEventInfo, heq]
      · constructor <;> simp [onBusEventInfo, heq, hwaiting, hdelivered]
        all_goals omega
  | discard =>
      obtain ⟨-, heq⟩ | ⟨oldest, shorter, hwaiting, heq, -, hdelivered⟩ := q.bus.discard_cases
      · constructor <;> simp [onBusEventInfo, heq]
      · constructor <;> simp [onBusEventInfo, heq, hwaiting, hdelivered]
        all_goals omega
  | pushAgain =>
      obtain ⟨hfull, heq⟩ | ⟨pushed, hroom, heq, hwaiting, -, hdelivered⟩ :=
        q.bus.tryPush_cases event
      · have hnot := Nat.not_lt.mpr hfull
        constructor <;> simp [onBusEventInfo, heq, hnot]
      · constructor <;> simp [onBusEventInfo, heq, hroom, hwaiting, hdelivered]
        all_goals omega
  | count =>
      constructor <;> simp [onBusEventInfo]
      all_goals omega
  | signal =>
      obtain ⟨hfull, heq⟩ | ⟨pushed, hroom, heq, hwaiting, -, -⟩ :=
        q.signals.tryPush_cases .busByte
      · have hnot := Nat.not_lt.mpr hfull
        constructor <;> simp [onBusEventInfo, heq, hnot]
      · constructor <;> simp [onBusEventInfo, heq, hroom, hwaiting, Nat.add_assoc]

theorem pushProtocolEvent_counts (q : Queues) (event : Nat) (point : Point) :
    Counts q (.pushProtocolEvent point event) (q.pushProtocolEvent event point) := by
  cases point with
  | push =>
      obtain ⟨-, heq⟩ | ⟨pushed, -, heq, hwaiting, -, hdelivered⟩ :=
        q.protocol.tryPush_cases event
      · constructor <;> simp [pushProtocolEvent, heq]
      · constructor <;> simp [pushProtocolEvent, heq, hwaiting, hdelivered]
        all_goals omega
  | discard =>
      obtain ⟨hempty, heq⟩ | ⟨oldest, shorter, hwaiting, heq, -, hdelivered⟩ :=
        q.protocol.discard_cases
      · constructor <;> simp [pushProtocolEvent, heq, hempty]
      · constructor <;> simp [pushProtocolEvent, heq, hwaiting, hdelivered]
        all_goals omega
  | pushAgain =>
      obtain ⟨-, heq⟩ | ⟨pushed, -, heq, hwaiting, -, hdelivered⟩ :=
        q.protocol.tryPush_cases event
      · constructor <;> simp [pushProtocolEvent, heq]
      · constructor <;> simp [pushProtocolEvent, heq, hwaiting, hdelivered]
        all_goals omega
  | count =>
      constructor <;> simp [pushProtocolEvent]
      all_goals omega
  | signal =>
      obtain ⟨-, heq⟩ | ⟨pushed, -, heq, hwaiting, -, -⟩ :=
        q.signals.tryPush_cases .callbackReady
      · constructor <;> simp [pushProtocolEvent, heq]
      · constructor <;> simp [pushProtocolEvent, heq, hwaiting]

theorem pushSignal_counts (q : Queues) (signal : ReactorSignal) (point : Point) :
    Counts q (.pushSignal point signal) (q.pushSignal signal point) := by
  cases point with
  | push =>
      obtain ⟨-, heq⟩ | ⟨pushed, -, heq, hwaiting, -, -⟩ := q.signals.tryPush_cases signal
      · constructor <;> simp [pushSignal, heq]
      · constructor <;> simp [pushSignal, heq, hwaiting]
  | discard =>
      obtain ⟨hempty, heq⟩ | ⟨oldest, shorter, hwaiting, heq, -, -⟩ := q.signals.discard_cases
      · constructor <;> simp [pushSignal, heq, hempty]
      · by_cases hbyte : oldest = .busByte
        · constructor <;> simp [pushSignal, heq, hwaiting, hbyte]
          all_goals omega
        · constructor <;> simp [pushSignal, heq, hwaiting, hbyte]
  | pushAgain =>
      obtain ⟨-, heq⟩ | ⟨pushed, -, heq, hwaiting, -, -⟩ := q.signals.tryPush_cases signal
      · constructor <;> simp [pushSignal, heq]
      · constructor <;> simp [pushSignal, heq, hwaiting]
  | count => constructor <;> simp [pushSignal]
  | signal => constructor <;> simp [pushSignal]

theorem next_counts (q : Queues) (call : Call) : Counts q call (q.next call) := by
  cases call with
  | onBusEventInfo point event => exact q.onBusEventInfo_counts event point
  | pushProtocolEvent point event => exact q.pushProtocolEvent_counts event point
  | pushSignal point signal => exact q.pushSignal_counts signal point

/-- Every event is accounted for. -/
structure Accounted (q : Queues) : Prop where
  bus : q.bus.delivered.length + q.bus.waiting.length + q.busQueueDropped +
    total owedBus q.calls = q.busPushed
  protocol : q.protocol.delivered.length + q.protocol.waiting.length + q.protocolQueueDropped +
    total owedProtocol q.calls = q.protocolPushed

/-- Every event is accounted for, and there is a signal for each bus event. -/
structure Covered (q : Queues) : Prop where
  bus : q.bus.delivered.length + q.bus.waiting.length + q.busQueueDropped +
    total owedBus q.calls = q.busPushed
  protocol : q.protocol.delivered.length + q.protocol.waiting.length + q.protocolQueueDropped +
    total owedProtocol q.calls = q.protocolPushed
  covered : q.bus.waiting.length ≤ q.coverage

/-- The counts after an operation of a call, as far as the others are not concerned. -/
theorem goOn_covered_iff {q : Queues} {call : Call} (hq : Covered q) (hcall : call ∈ q.calls) :
    Covered (q.goOn call) ↔ lostBus q call = 0 ∧ lostProtocol q call = 0 ∧
      (lostSignal q call = 1 → q.bus.waiting.length < q.coverage) := by
  obtain ⟨hbus, hprotocol, hcovered⟩ := hq
  rw [total_erase _ hcall] at hbus hprotocol
  have hcoverage : q.coverage = q.signals.waiting.count .busByte + (promised call +
      total promised (q.calls.erase call)) + q.current.toList.count .busByte := by
    rw [coverage, total_erase _ hcall]
  have hcounts := next_counts { q with calls := q.calls.erase call } call
  have hlostBus : lostBus { q with calls := q.calls.erase call } call = lostBus q call := rfl
  have hlostProtocol :
      lostProtocol { q with calls := q.calls.erase call } call = lostProtocol q call := rfl
  have hlostSignal :
      lostSignal { q with calls := q.calls.erase call } call = lostSignal q call := rfl
  have hone : lostSignal q call ≤ 1 := by
    unfold lostSignal
    split <;> first | split <;> decide | decide
  obtain ⟨calls, current, busPushed, protocolPushed, bus, protocol, signal, lost⟩ := hcounts
  rw [hlostBus] at bus
  rw [hlostProtocol] at protocol
  rw [hlostSignal] at signal lost
  unfold goOn
  generalize next { q with calls := q.calls.erase call } call = after at *
  dsimp only at *
  constructor
  · rintro ⟨hbus', hprotocol', hcovered'⟩
    simp only [total_append, calls, busPushed] at hbus'
    simp only [total_append, calls, protocolPushed] at hprotocol'
    simp only [total_append, calls, current, coverage] at hcovered'
    refine ⟨by omega, by omega, fun hlost => ?_⟩
    obtain ⟨hsame, hless⟩ := lost hlost
    rw [hsame] at hcovered'
    omega
  · rintro ⟨hlostBus, hlostProtocol, hcover⟩
    refine ⟨?_, ?_, ?_⟩
    · simp only [total_append, calls, busPushed]
      omega
    · simp only [total_append, calls, protocolPushed]
      omega
    · simp only [total_append, calls, current, coverage]
      omega

/-- What the reactor thread does with the signal in hand. -/
theorem processSignal_cases (q : Queues) :
    (∃ event, ∃ popped : BoundedQueue Nat ReactorLimits.busQueueSize,
      q.current = some .busByte ∧ q.bus.waiting = event :: popped.waiting ∧
      popped.entered = q.bus.entered ∧ popped.delivered = q.bus.delivered ++ [event] ∧
      q.processSignal = { q with bus := popped, current := none }) ∨
    ((q.current = some .busByte → q.bus.waiting = []) ∧
      q.processSignal = { q with current := none }) := by
  unfold processSignal
  split
  · rename_i hcurrent
    obtain ⟨hempty, heq⟩ | ⟨event, popped, hwaiting, heq, hentered, hdelivered⟩ :=
      q.bus.tryPop_cases
    · exact .inr ⟨fun _ => hempty, by rw [heq]⟩
    · exact .inl ⟨event, popped, hcurrent, hwaiting, hentered, hdelivered, by rw [heq]⟩
  · rename_i hother
    exact .inr ⟨fun hcurrent => absurd hcurrent hother, rfl⟩

theorem popSignal_cases (q : Queues) :
    step q .popSignal = q ∨
    ∃ signal, ∃ popped : BoundedQueue ReactorSignal ReactorLimits.signalQueueSize,
      q.current = none ∧ q.signals.waiting = signal :: popped.waiting ∧
      step q .popSignal = { q with signals := popped, current := some signal } := by
  cases hcurrent : q.current with
  | some signal => exact .inl (by simp [step, hcurrent])
  | none =>
      obtain ⟨-, heq⟩ | ⟨signal, popped, hwaiting, heq, -, -⟩ := q.signals.tryPop_cases
      · exact .inl (by simp [step, hcurrent, heq])
      · exact .inr ⟨signal, popped, rfl, hwaiting, by simp [step, hcurrent, heq]⟩

theorem processPublicEvent_cases (q : Queues) :
    step q .processPublicEvent = q ∨
    ∃ event, ∃ popped : BoundedQueue Nat ReactorLimits.protocolQueueSize,
      q.protocol.waiting = event :: popped.waiting ∧ popped.entered = q.protocol.entered ∧
      popped.delivered = q.protocol.delivered ++ [event] ∧
      step q .processPublicEvent = { q with protocol := popped } := by
  cases hcurrent : q.current with
  | some signal => exact .inl (by simp [step, hcurrent])
  | none =>
      obtain ⟨-, heq⟩ | ⟨event, popped, hwaiting, heq, hentered, hdelivered⟩ :=
        q.protocol.tryPop_cases
      · exact .inl (by simp [step, hcurrent, heq])
      · exact .inr ⟨event, popped, hwaiting, hentered, hdelivered, by simp [step, hcurrent, heq]⟩

theorem processSignal_covered {q : Queues} (hq : Covered q) : Covered q.processSignal := by
  obtain ⟨hbus, hprotocol, hcovered⟩ := hq
  unfold coverage at hcovered
  obtain ⟨event, popped, hcurrent, hwaiting, -, hdelivered, heq⟩ | ⟨hempty, heq⟩ :=
    q.processSignal_cases
  · rw [heq]
    rw [hwaiting, List.length_cons] at hbus hcovered
    rw [hcurrent, Option.toList_some, List.count_singleton_self] at hcovered
    refine ⟨?_, hprotocol, ?_⟩
    · dsimp only
      rw [hdelivered, List.length_append, List.length_singleton]
      omega
    · simp only [coverage, Option.toList_none, List.count_nil]
      omega
  · rw [heq]
    refine ⟨hbus, hprotocol, ?_⟩
    by_cases hcurrent : q.current = some .busByte
    · simp [hempty hcurrent]
    · -- another signal does not cover any event
      have hnone : q.current.toList.count .busByte = 0 :=
        List.count_eq_zero.mpr fun hmem => hcurrent (Option.mem_toList.mp hmem)
      rw [hnone] at hcovered
      exact hcovered

theorem popSignal_covered {q : Queues} (hq : Covered q) :
    Covered (step q .popSignal) := by
  obtain ⟨hbus, hprotocol, hcovered⟩ := hq
  obtain heq | ⟨signal, popped, hcurrent, hwaiting, heq⟩ := q.popSignal_cases
  · rw [heq]
    exact ⟨hbus, hprotocol, hcovered⟩
  · rw [heq]
    refine ⟨hbus, hprotocol, ?_⟩
    simp only [coverage, hcurrent, hwaiting, List.count_cons, Option.toList_none,
      Option.toList_some, List.count_nil] at hcovered ⊢
    omega

theorem processPublicEvent_covered {q : Queues} (hq : Covered q) :
    Covered (step q .processPublicEvent) := by
  obtain ⟨hbus, hprotocol, hcovered⟩ := hq
  obtain heq | ⟨event, popped, hwaiting, -, hdelivered, heq⟩ := q.processPublicEvent_cases
  · rw [heq]
    exact ⟨hbus, hprotocol, hcovered⟩
  · rw [heq]
    refine ⟨hbus, ?_, hcovered⟩
    rw [hwaiting, List.length_cons] at hprotocol
    dsimp only
    rw [hdelivered, List.length_append, List.length_singleton]
    omega

theorem step_covered_iff {q : Queues} (hq : Covered q) (action : Action) :
    Covered (step q action) ↔ Keeps q action := by
  cases action with
  | onBusEventInfo =>
      refine iff_of_true ⟨?_, by simpa [step] using hq.protocol, ?_⟩ trivial
      · have hbus := hq.bus
        simp only [step, total_cons, owedBus]
        omega
      · have hcovered := hq.covered
        simp only [coverage, step, total_cons, promised] at hcovered ⊢
        omega
  | pushProtocolEvent =>
      refine iff_of_true ⟨by simpa [step] using hq.bus, ?_, ?_⟩ trivial
      · have hprotocol := hq.protocol
        simp only [step, total_cons, owedProtocol]
        omega
      · have hcovered := hq.covered
        simp only [coverage, step, total_cons, promised] at hcovered ⊢
        omega
  | pushSignal signal =>
      refine iff_of_true ⟨?_, ?_, ?_⟩ trivial
      · simpa [step] using hq.bus
      · simpa [step] using hq.protocol
      · have hcovered := hq.covered
        simp only [coverage, step, total_cons, promised] at hcovered ⊢
        omega
  | goOn call =>
      by_cases hcall : call ∈ q.calls
      · simp only [step, hcall, if_true]
        rw [goOn_covered_iff hq hcall]
        exact ⟨fun h _ => h, fun h => h hcall⟩
      · have hstep : step q (.goOn call) = q := by simp [step, hcall]
        rw [hstep]
        exact iff_of_true hq fun h => absurd h hcall
  | popSignal => exact iff_of_true (popSignal_covered hq) trivial
  | processSignal => exact iff_of_true (processSignal_covered hq) trivial
  | processPublicEvent => exact iff_of_true (processPublicEvent_covered hq) trivial

/-- The bus event that the call may still push. -/
@[simp] def heldBus : Call → Option Nat
  | .onBusEventInfo .push event | .onBusEventInfo .discard event
  | .onBusEventInfo .pushAgain event => some event
  | _ => none

/-- The protocol event that the call may still push. -/
@[simp] def heldProtocol : Call → Option Nat
  | .pushProtocolEvent .push event | .pushProtocolEvent .discard event
  | .pushProtocolEvent .pushAgain event => some event
  | _ => none

/-- Each event comes once, from one of the calls made so far. -/
structure Distinct (events : List Nat) (pushed : Nat) : Prop where
  nodup : events.Nodup
  made : ∀ event ∈ events, event < pushed

theorem Distinct.of_sublist {events fewer : List Nat} {pushed : Nat} (h : Distinct events pushed)
    (hsub : fewer.Sublist events) : Distinct fewer pushed :=
  ⟨h.nodup.sublist hsub, fun event he => h.made event (hsub.subset he)⟩

theorem Distinct.of_perm {events others : List Nat} {pushed : Nat} (h : Distinct events pushed)
    (hperm : events.Perm others) : Distinct others pushed :=
  ⟨hperm.nodup_iff.mp h.nodup, fun event he => h.made event (hperm.mem_iff.mpr he)⟩

/-- A new call brings a new number. -/
theorem Distinct.insert {entered held : List Nat} {pushed : Nat}
    (h : Distinct (entered ++ held) pushed) :
    Distinct (entered ++ pushed :: held) (pushed + 1) := by
  refine Distinct.of_perm ?_ List.perm_middle.symm
  constructor
  · refine List.nodup_cons.mpr ⟨fun hmem => ?_, h.nodup⟩
    exact Nat.lt_irrefl pushed (h.made pushed hmem)
  · intro event hmem
    obtain rfl | hmem := List.mem_cons.mp hmem
    · exact Nat.lt_succ_self event
    · exact Nat.lt_succ_of_lt (h.made event hmem)

structure Once (q : Queues) : Prop where
  bus : Distinct (q.bus.entered ++ q.calls.filterMap heldBus) q.busPushed
  protocol : Distinct (q.protocol.entered ++ q.calls.filterMap heldProtocol) q.protocolPushed

theorem next_bus_sublist (q : Queues) (call : Call) :
    ((q.next call).1.bus.entered ++ (q.next call).2.toList.filterMap heldBus).Sublist
      (q.bus.entered ++ (heldBus call).toList) := by
  cases call with
  | onBusEventInfo point event =>
      cases point with
      | push =>
          obtain ⟨-, heq⟩ | ⟨pushed, -, heq, -, hentered, -⟩ := q.bus.tryPush_cases event
          · simp [next, onBusEventInfo, heq]
          · simp [next, onBusEventInfo, heq, hentered]
      | discard =>
          obtain ⟨-, heq⟩ | ⟨oldest, shorter, -, heq, hentered, -⟩ := q.bus.discard_cases
          · simp [next, onBusEventInfo, heq]
          · simp [next, onBusEventInfo, heq, hentered]
      | pushAgain =>
          obtain ⟨-, heq⟩ | ⟨pushed, -, heq, -, hentered, -⟩ := q.bus.tryPush_cases event
          · simp [next, onBusEventInfo, heq]
          · simp [next, onBusEventInfo, heq, hentered]
      | count => simp [next, onBusEventInfo]
      | signal => simp [next, onBusEventInfo]
  | pushProtocolEvent point event =>
      cases point <;> simp only [next, pushProtocolEvent] <;> (try split) <;> simp
  | pushSignal point signal =>
      cases point <;> simp only [next, pushSignal] <;> (try split) <;> simp

theorem next_protocol_sublist (q : Queues) (call : Call) :
    ((q.next call).1.protocol.entered ++ (q.next call).2.toList.filterMap heldProtocol).Sublist
      (q.protocol.entered ++ (heldProtocol call).toList) := by
  cases call with
  | onBusEventInfo point event =>
      cases point <;> simp only [next, onBusEventInfo] <;> (try split) <;> simp
  | pushProtocolEvent point event =>
      cases point with
      | push =>
          obtain ⟨-, heq⟩ | ⟨pushed, -, heq, -, hentered, -⟩ := q.protocol.tryPush_cases event
          · simp [next, pushProtocolEvent, heq]
          · simp [next, pushProtocolEvent, heq, hentered]
      | discard =>
          obtain ⟨-, heq⟩ | ⟨oldest, shorter, -, heq, hentered, -⟩ := q.protocol.discard_cases
          · simp [next, pushProtocolEvent, heq]
          · simp [next, pushProtocolEvent, heq, hentered]
      | pushAgain =>
          obtain ⟨-, heq⟩ | ⟨pushed, -, heq, -, hentered, -⟩ := q.protocol.tryPush_cases event
          · simp [next, pushProtocolEvent, heq]
          · simp [next, pushProtocolEvent, heq, hentered]
      | count => simp [next, pushProtocolEvent]
      | signal => simp [next, pushProtocolEvent]
  | pushSignal point signal =>
      cases point <;> simp only [next, pushSignal] <;> (try split) <;> simp

/-- An operation of one call, seen beside what the others hold. -/
theorem Distinct.goOn {held : Call → Option Nat} {call : Call} {calls : List Call}
    {entered after : List Nat} {rest : Option Call} {pushed : Nat} (hcall : call ∈ calls)
    (h : Distinct (entered ++ calls.filterMap held) pushed)
    (hsub : (after ++ rest.toList.filterMap held).Sublist (entered ++ (held call).toList)) :
    Distinct (after ++ (rest.toList ++ calls.erase call).filterMap held) pushed := by
  have hperm : (entered ++ calls.filterMap held).Perm
      (entered ++ (held call).toList ++ (calls.erase call).filterMap held) := by
    rw [List.append_assoc]
    refine List.Perm.append_left entered ?_
    have hcons := (List.perm_cons_erase hcall).filterMap held
    cases hheld : held call with
    | none =>
        rw [List.filterMap_cons_none hheld] at hcons
        exact hcons
    | some event =>
        rw [List.filterMap_cons_some hheld] at hcons
        exact hcons
  refine (h.of_perm hperm).of_sublist ?_
  rw [List.filterMap_append, ← List.append_assoc]
  exact hsub.append_right _

theorem goOn_once {q : Queues} {call : Call} (hq : Once q) (hcall : call ∈ q.calls) :
    Once (q.goOn call) := by
  have hbus := next_bus_sublist { q with calls := q.calls.erase call } call
  have hprotocol := next_protocol_sublist { q with calls := q.calls.erase call } call
  obtain ⟨calls, -, busPushed, protocolPushed, -, -, -, -⟩ :=
    next_counts { q with calls := q.calls.erase call } call
  unfold goOn
  generalize next { q with calls := q.calls.erase call } call = after at *
  dsimp only at *
  constructor
  · simp only [calls, busPushed]
    exact hq.bus.goOn hcall hbus
  · simp only [calls, protocolPushed]
    exact hq.protocol.goOn hcall hprotocol

theorem step_once {q : Queues} (hq : Once q) (action : Action) : Once (step q action) := by
  cases action with
  | onBusEventInfo => exact ⟨hq.bus.insert, hq.protocol⟩
  | pushProtocolEvent => exact ⟨hq.bus, hq.protocol.insert⟩
  | pushSignal signal => exact ⟨hq.bus, hq.protocol⟩
  | goOn call =>
      simp only [step]
      split
      · exact goOn_once hq ‹_›
      · exact hq
  | popSignal =>
      obtain heq | ⟨signal, popped, -, -, heq⟩ := q.popSignal_cases
      · rwa [heq]
      · rw [heq]
        exact ⟨hq.bus, hq.protocol⟩
  | processSignal =>
      show Once q.processSignal
      obtain ⟨event, popped, -, -, hentered, -, heq⟩ | ⟨-, heq⟩ := q.processSignal_cases
      · rw [heq]
        refine ⟨?_, hq.protocol⟩
        simpa only [hentered] using hq.bus
      · rw [heq]
        exact ⟨hq.bus, hq.protocol⟩
  | processPublicEvent =>
      obtain heq | ⟨event, popped, -, hentered, -, heq⟩ := q.processPublicEvent_cases
      · rwa [heq]
      · rw [heq]
        refine ⟨hq.bus, ?_⟩
        simpa only [hentered] using hq.protocol

/-- What the reactor owes its producers. -/
structure Delivers (q : Queues) : Prop where
  /-- What has been delivered and what waits was pushed in this order, each event once. -/
  busOrder : (q.bus.delivered ++ q.bus.waiting).Sublist q.bus.entered ∧ q.bus.entered.Nodup
  protocolOrder : (q.protocol.delivered ++ q.protocol.waiting).Sublist q.protocol.entered ∧
    q.protocol.entered.Nodup
  accounted : Accounted q
  /-- When no call is in progress, each event is delivered, queued or counted. -/
  balanced : q.calls = [] →
    q.bus.delivered.length + q.bus.waiting.length + q.busQueueDropped = q.busPushed ∧
    q.protocol.delivered.length + q.protocol.waiting.length + q.protocolQueueDropped =
      q.protocolPushed
  /-- When the signals have been drained, each bus event left is one of a call that has yet to
  push its signal. -/
  drained : q.signals.waiting = [] → q.current = none →
    q.bus.waiting.length ≤ total promised q.calls

theorem Covered.delivers {q : Queues} (h : Covered q) (honce : Once q) : Delivers q := by
  refine ⟨⟨q.bus.fifo, ?_⟩, ⟨q.protocol.fifo, ?_⟩, ⟨h.bus, h.protocol⟩, ?_, ?_⟩
  · exact honce.bus.nodup.sublist (List.sublist_append_left _ _)
  · exact honce.protocol.nodup.sublist (List.sublist_append_left _ _)
  · intro hcalls
    have hbus := h.bus
    have hprotocol := h.protocol
    rw [hcalls, total_nil, Nat.add_zero] at hbus hprotocol
    exact ⟨hbus, hprotocol⟩
  · intro hsignals hcurrent
    have hcovered := h.covered
    simpa [coverage, hsignals, hcurrent] using hcovered

/-- The reactor thread processes the signals in the queue, and nobody else does anything. -/
def drainSignals : Nat → Queues → Queues
  | 0, q => q
  | n + 1, q => drainSignals n (step (step q .popSignal) .processSignal)

/-- When the reactor thread is through with all signals that there are. -/
def drain (q : Queues) : Queues := drainSignals q.signals.waiting.length (step q .processSignal)

/-- One step of the reactor: it has at most one bus event for each signal that it takes. -/
structure Drains (q q' : Queues) : Prop where
  calls : q'.calls = q.calls
  bus : q.bus.waiting.length + q'.coverage ≤ q'.bus.waiting.length + q.coverage

theorem Drains.trans {q q' q'' : Queues} (h : Drains q q') (h' : Drains q' q'') :
    Drains q q'' := by
  refine ⟨h'.calls.trans h.calls, ?_⟩
  have hfirst := h.bus
  have hsecond := h'.bus
  omega

theorem processSignal_drains (q : Queues) :
    Drains q q.processSignal ∧ q.processSignal.signals = q.signals ∧
      q.processSignal.current = none := by
  obtain ⟨event, popped, hcurrent, hwaiting, -, -, heq⟩ | ⟨hempty, heq⟩ := q.processSignal_cases
  · rw [heq]
    refine ⟨⟨rfl, ?_⟩, rfl, rfl⟩
    simp only [coverage, hcurrent, hwaiting, List.length_cons, Option.toList_some,
      Option.toList_none, List.count_singleton_self, List.count_nil]
    omega
  · rw [heq]
    refine ⟨⟨rfl, ?_⟩, rfl, rfl⟩
    simp only [coverage, Option.toList_none, List.count_nil]
    omega

theorem popSignal_drains {q : Queues} (hcurrent : q.current = none) :
    Drains q (step q .popSignal) ∧
      (step q .popSignal).signals.waiting = q.signals.waiting.tail := by
  obtain ⟨hempty, heq⟩ | ⟨signal, popped, hwaiting, heq, -, -⟩ := q.signals.tryPop_cases
  · have hstep : step q .popSignal = q := by simp [step, hcurrent, heq]
    rw [hstep, hempty]
    exact ⟨⟨rfl, Nat.le_refl _⟩, rfl⟩
  · have hstep : step q .popSignal = { q with signals := popped, current := some signal } := by
      simp [step, hcurrent, heq]
    rw [hstep, hwaiting]
    refine ⟨⟨rfl, ?_⟩, rfl⟩
    simp only [coverage, hcurrent, hwaiting, List.count_cons, Option.toList_none,
      Option.toList_some, List.count_nil]
    omega

/-- By induction on the signals in the queue. -/
theorem drainSignals_drains {n : Nat} {q : Queues} (hcurrent : q.current = none)
    (hlength : q.signals.waiting.length = n) :
    Drains q (drainSignals n q) ∧ (drainSignals n q).signals.waiting = [] ∧
      (drainSignals n q).current = none := by
  induction n generalizing q with
  | zero => exact ⟨⟨rfl, Nat.le_refl _⟩, List.length_eq_zero_iff.mp hlength, hcurrent⟩
  | succ n ih =>
      obtain ⟨hpop, htail⟩ := popSignal_drains hcurrent
      obtain ⟨hprocess, hsame, hnone⟩ := processSignal_drains (step q .popSignal)
      obtain ⟨hrest, hsignals, hlast⟩ := @ih (step q .popSignal).processSignal hnone (by
        rw [hsame, htail, List.length_tail, hlength, Nat.add_sub_cancel])
      exact ⟨(hpop.trans hprocess).trans hrest, hsignals, hlast⟩

theorem drain_drains (q : Queues) :
    Drains q q.drain ∧ q.drain.signals.waiting = [] ∧ q.drain.current = none := by
  obtain ⟨hprocess, hsame, hnone⟩ := q.processSignal_drains
  obtain ⟨hrest, hsignals, hlast⟩ := drainSignals_drains hnone
    (congrArg (fun signals => signals.waiting.length) hsame)
  exact ⟨hprocess.trans hrest, hsignals, hlast⟩

theorem drain_invariant {I : Queues → Prop} {q : Queues}
    (hpop : ∀ q, I q → I (step q .popSignal)) (hprocess : ∀ q, I q → I (step q .processSignal))
    (h : I q) : I q.drain := by
  have hsignals (n : Nat) (q : Queues) (h : I q) : I (drainSignals n q) := by
    induction n generalizing q with
    | zero => exact h
    | succ n ih => exact ih _ (hprocess _ (hpop _ h))
  exact hsignals _ _ (hprocess q h)

/-- The events are covered if and only if the property holds, also when the signals that there are
have been processed. -/
theorem delivers_iff_covered {q : Queues} (honce : Once q) :
    Delivers q ∧ Delivers q.drain ↔ Covered q := by
  constructor
  · rintro ⟨hnow, hthen⟩
    obtain ⟨hdrains, hsignals, hcurrent⟩ := q.drain_drains
    refine ⟨hnow.accounted.bus, hnow.accounted.protocol, ?_⟩
    have hleft := hthen.drained hsignals hcurrent
    have hbus := hdrains.bus
    have hcoverage : q.drain.coverage = total promised q.drain.calls := by
      simp [coverage, hsignals, hcurrent]
    omega
  · intro h
    have honce' : Once q.drain :=
      drain_invariant (fun q hq => step_once hq _) (fun q hq => step_once hq _) honce
    have hcovered : Covered q.drain :=
      drain_invariant (fun _ => popSignal_covered) (fun _ => processSignal_covered) h
    exact ⟨h.delivers honce, hcovered.delivers honce'⟩

/-- The reactor delivers all along a run, and when it then processes the signals that there are,
exactly when no step of the run loses an event or a signal that is needed. -/
theorem run_delivers_iff (actions : List Action) :
    (∀ n, let q := Runs.run step {} (actions.take n); Delivers q ∧ Delivers q.drain) ↔
      Runs.Meets step Keeps {} actions := by
  have start : Once {} ∧ Covered {} := by
    refine ⟨⟨⟨?_, ?_⟩, ⟨?_, ?_⟩⟩, ⟨rfl, rfl, Nat.le_refl 0⟩⟩ <;> simp [BoundedQueue.empty]
  rw [← Runs.invariant_iff_meets (I := fun q => Once q ∧ Covered q) ?_ ?_ start actions]
  · refine forall_congr' fun n => ?_
    have honce : Once (Runs.run step {} (actions.take n)) :=
      Runs.invariant_always (I := Once) (fun _ action hq => step_once hq action) start.1 _
    rw [delivers_iff_covered honce, and_iff_right honce]
  · intro q action hq hkeeps
    exact ⟨step_once hq.1 action, (step_covered_iff hq.2 action).mpr hkeeps⟩
  · intro q action hq hloses hnext
    exact hloses ((step_covered_iff hq.2 action).mp hnext.2)

/-- The calls of `pushProtocolEvent`, one after the other, with nobody taking the events: the
ninth one finds the queue full. -/
def nineEvents : List Action :=
  (List.range 8).flatMap (fun event =>
    [.pushProtocolEvent, .goOn (.pushProtocolEvent .push event),
      .goOn (.pushProtocolEvent .signal event)]) ++
  [.pushProtocolEvent, .goOn (.pushProtocolEvent .push 8), .goOn (.pushProtocolEvent .discard 8),
    .goOn (.pushProtocolEvent .pushAgain 8), .goOn (.pushProtocolEvent .signal 8)]

/-- A bus event whose signal is discarded by the sixteenth of the wake-ups that follow, and the
reactor then takes all of these. -/
def sixteenWakeups : List Action :=
  [.onBusEventInfo, .goOn (.onBusEventInfo .push 0), .goOn (.onBusEventInfo .signal 0)] ++
  (List.replicate 16 [.pushSignal .timerWakeup, .goOn (.pushSignal .push .timerWakeup)]).flatten ++
  [.goOn (.pushSignal .discard .timerWakeup), .goOn (.pushSignal .pushAgain .timerWakeup)] ++
  (List.replicate 16 [.popSignal, .processSignal]).flatten

/-- Nine events have been pushed and one of them is neither delivered nor queued nor counted;
and a bus event stays in its queue behind a drained signal queue. -/
theorem nine_events_eight_accounted :
    (let q := Runs.run step {} nineEvents
     q.calls = [] ∧ q.protocolPushed = 9 ∧
      q.protocol.delivered.length + q.protocol.waiting.length + q.protocolQueueDropped = 8) ∧
    (let q := Runs.run step {} sixteenWakeups
     q.calls = [] ∧ q.current = none ∧ q.signals.waiting = [] ∧ q.bus.waiting = [0]) := by
  decide +kernel

end Queues

end Ebus
