import Ebus.Platform.Queue

/-!
# No notification of a queue is lost, and no entry

Any number of threads push into a queue, pop from it, wait in it, shut it down and clear it. The
first part counts what is on its way to the threads that sleep: as long as a consumer sleeps,
there is a notification or a notified consumer for every entry, and likewise for the producers
and the free cells. So calls can only be stuck in a queue that gives them a reason to be. The
second part is about the entries: they come out in the order in which they went in, and unless
somebody discards them each comes out once.
-/

namespace Ebus

namespace QueuePosix

variable {α : Type*} {capacity : Nat}

theorem create_spec [Inhabited α] {q : QueuePosix α capacity} (h : create capacity = some q) :
    0 < capacity ∧ q.shutdown = false ∧ q.view = [] := by
  unfold create at h
  split at h
  case isTrue => cases h
  case isFalse hcapacity =>
    obtain rfl := Option.some.inj h
    exact ⟨Nat.pos_of_ne_zero hcapacity, rfl, rfl⟩

/-- `tryPush` on the list of entries. -/
theorem view_tryPush (q : QueuePosix α capacity) (b : BoundedQueue α capacity)
    (hb : b.waiting = q.view) (item : α) :
    (b.tryPush item).map (·.waiting) =
      if h : q.size < capacity then some (q.put item h).view else none := by
  obtain ⟨hfull, hnone⟩ | ⟨pushed, hroom, hsome, hwaiting, -, -⟩ := b.tryPush_cases item
  · rw [hb, length_view] at hfull
    rw [hnone, dif_neg (Nat.not_lt.mpr hfull)]
    rfl
  · rw [hb, length_view] at hroom
    rw [hsome, dif_pos hroom, view_put, ← hb, ← hwaiting]
    rfl

/-- `tryPop` on the list of entries. -/
theorem view_tryPop (q : QueuePosix α capacity) (b : BoundedQueue α capacity)
    (hb : b.waiting = q.view) :
    b.tryPop.map (fun popped => (popped.1, popped.2.waiting)) =
      if h : 0 < q.size then some (q.buffer (q.head % capacity), (q.advance h).view)
      else none := by
  obtain ⟨hempty, hnone⟩ | ⟨a, popped, hcons, hsome, -, -⟩ := b.tryPop_cases
  · have hsize : q.size = 0 := by rw [← length_view, ← hb, hempty, List.length_nil]
    rw [hnone, dif_neg (by omega)]
    rfl
  · have hsize : 0 < q.size := by rw [← length_view, ← hb, hcons]; exact Nat.succ_pos _
    rw [hb, q.view_eq_cons hsize] at hcons
    obtain ⟨hfirst, hrest⟩ := List.cons.inj hcons
    rw [hsome, dif_pos hsize, hfirst, hrest]
    rfl

end QueuePosix

namespace Shared

variable {α : Type*} {capacity : Nat}

/-- What is on its way to the sleeping threads covers `entries` entries and `free` cells. -/
structure Guarded (s : Shared α capacity) (entries free : Nat) : Prop where
  consumers : s.notEmpty.Covers entries
  producers : s.notFull.Covers free
  closed : s.queue.shutdown = true → s.notEmpty.Released ∧ s.notFull.Released

/-- All entries and all free cells are covered. -/
def Kept (s : Shared α capacity) : Prop :=
  s.Guarded s.queue.size (capacity - s.queue.size)

theorem Guarded.store {s : Shared α capacity} {free : Nat} {item : α}
    (h : s.Guarded s.queue.size free) (hroom : s.queue.size < capacity)
    (hfree : capacity - s.queue.size - 1 ≤ free) : (s.store item hroom).Kept where
  consumers := h.consumers.willNotifyOne
  producers := h.producers.mono ((Nat.sub_add_eq _ _ _).trans_le hfree)
  closed := h.closed

theorem Guarded.fetch {s : Shared α capacity} {entries : Nat}
    (h : s.Guarded entries (capacity - s.queue.size)) (hsize : 0 < s.queue.size)
    (hentries : s.queue.size - 1 ≤ entries) : (s.fetch hsize).Kept where
  consumers := h.consumers.mono hentries
  producers := by
    refine h.producers.willNotifyOne.mono ?_
    show capacity - (s.queue.size - 1) ≤ capacity - s.queue.size + 1
    omega
  closed := h.closed

/-- A producer with the lock may be the one that was on its way to a free cell. -/
theorem Guarded.awaitNotFull {s : Shared α capacity} {free : Nat}
    (h : s.Guarded s.queue.size free) (hfree : capacity - s.queue.size - 1 ≤ free)
    (item : α) (timed timedOut : Bool) : (s.awaitNotFull item timed timedOut).Kept := by
  unfold Shared.awaitNotFull
  split
  case isTrue hshutdown => exact ⟨h.consumers, (h.closed hshutdown).2.covers _, h.closed⟩
  case isFalse hopen =>
    split
    case isTrue hroom => exact h.store hroom hfree
    case isFalse hfull =>
      have hnone : capacity - s.queue.size = 0 := by omega
      split
      case isTrue =>
        exact ⟨h.consumers, by rw [hnone]; exact s.notFull.covers_zero, h.closed⟩
      case isFalse =>
        refine ⟨h.consumers, ?_, fun hshutdown => absurd hshutdown hopen⟩
        show (s.notFull.sleep (item, timed)).Covers (capacity - s.queue.size)
        rw [hnone]
        exact Condition.covers_zero _

/-- A consumer with the lock may be the one that was on its way to an entry. -/
theorem Guarded.awaitNotEmpty {s : Shared α capacity} {entries : Nat}
    (h : s.Guarded entries (capacity - s.queue.size)) (hentries : s.queue.size - 1 ≤ entries)
    (timed timedOut : Bool) : (s.awaitNotEmpty timed timedOut).Kept := by
  unfold Shared.awaitNotEmpty
  split
  case isTrue hsize => exact h.fetch hsize hentries
  case isFalse hempty =>
    have hnone : s.queue.size = 0 := by omega
    have hzero (c : Condition Bool) : c.Covers s.queue.size := by
      rw [hnone]
      exact c.covers_zero
    split
    case isTrue => exact ⟨hzero _, h.producers, h.closed⟩
    case isFalse hopen =>
      split
      case isTrue => exact ⟨hzero _, h.producers, h.closed⟩
      case isFalse => exact ⟨hzero _, h.producers, fun hshutdown => absurd hshutdown hopen⟩

theorem Kept.step {s : Shared α capacity} (h : s.Kept) (action : Action α) :
    (s.step action).Kept := by
  cases action with
  | push item timed =>
      show (s.push item timed).Kept
      unfold Shared.push
      split
      · exact h
      · exact Guarded.awaitNotFull h (Nat.sub_le _ _) item timed false
  | pop timed =>
      show (s.pop timed).Kept
      unfold Shared.pop
      split
      · exact h
      · exact Guarded.awaitNotEmpty h (Nat.sub_le _ _) timed false
  | tryPush item =>
      show (s.tryPush item).Kept
      unfold Shared.tryPush
      split
      · exact h
      · split
        case isTrue hroom => exact Guarded.store h hroom (Nat.sub_le _ _)
        case isFalse => exact h
  | tryPop =>
      show (s.tryPop).Kept
      unfold Shared.tryPop
      split
      case isTrue hsize => exact Guarded.fetch h hsize.1 (Nat.sub_le _ _)
      case isFalse => exact h
  | discard count =>
      obtain ⟨hshutdown, hview⟩ := s.queue.discardLoop_spec count
      have hsize := congrArg List.length hview
      rw [QueuePosix.length_view, List.length_drop, QueuePosix.length_view] at hsize
      have hle : (s.discard count).queue.size ≤ s.queue.size := hsize.trans_le (Nat.sub_le _ _)
      have hclosed : (s.discard count).queue.shutdown = true →
          s.notEmpty.Released ∧ s.notFull.Released := by
        intro hs
        exact h.closed (hshutdown.symm.trans hs)
      refine ⟨h.consumers.mono hle, ?_, fun hs => ⟨(hclosed hs).1, ?_⟩⟩
      · show (if 0 < (s.queue.discardLoop count).2 then s.notFull.willNotifyAll
          else s.notFull).Covers (capacity - (s.queue.discardLoop count).1.size)
        split
        · exact Condition.covers_willNotifyAll _ _
        · refine h.producers.mono (Nat.sub_le_sub_left ?_ _)
          omega
      · show (if 0 < (s.queue.discardLoop count).2 then s.notFull.willNotifyAll
          else s.notFull).Released
        split
        · exact Condition.released_willNotifyAll _
        · exact (hclosed hs).2
  | shutdown =>
      exact ⟨Condition.covers_willNotifyAll _ _, Condition.covers_willNotifyAll _ _, fun _ =>
        ⟨Condition.released_willNotifyAll _, Condition.released_willNotifyAll _⟩⟩
  | clear =>
      exact ⟨Condition.covers_zero _, Condition.covers_wakeAll _ _, fun hs =>
        ⟨(h.closed hs).1, Condition.released_wakeAll _⟩⟩
  | reset =>
      refine ⟨Condition.covers_zero _, Condition.covers_wakeAll _ _, fun hs => ?_⟩
      exact absurd hs Bool.false_ne_true
  | notifyConsumer choice =>
      exact ⟨h.consumers.notifyOne choice, h.producers, fun hs =>
        ⟨(h.closed hs).1.notifyOne choice, (h.closed hs).2⟩⟩
  | notifyConsumers =>
      exact ⟨h.consumers.notifyAll, h.producers, fun hs =>
        ⟨(h.closed hs).1.notifyAll, (h.closed hs).2⟩⟩
  | notifyProducer choice =>
      exact ⟨h.consumers, h.producers.notifyOne choice, fun hs =>
        ⟨(h.closed hs).1, (h.closed hs).2.notifyOne choice⟩⟩
  | notifyProducers =>
      exact ⟨h.consumers, h.producers.notifyAll, fun hs =>
        ⟨(h.closed hs).1, (h.closed hs).2.notifyAll⟩⟩
  | consumer notified i timedOut =>
      simp only [Shared.step]
      split
      case h_1 timed notEmpty hresume =>
        have hguarded : Guarded { s with notEmpty } (s.queue.size - 1)
            (capacity - s.queue.size) :=
          ⟨h.consumers.resume hresume, h.producers, fun hs =>
            ⟨(h.closed hs).1.resume hresume, (h.closed hs).2⟩⟩
        exact hguarded.awaitNotEmpty (Nat.le_refl _) timed timedOut
      case h_2 => exact h
  | producer notified i timedOut =>
      simp only [Shared.step]
      split
      case h_1 item timed notFull hresume =>
        have hguarded : Guarded { s with notFull } s.queue.size
            (capacity - s.queue.size - 1) :=
          ⟨h.consumers, h.producers.resume hresume, fun hs =>
            ⟨(h.closed hs).1, (h.closed hs).2.resume hresume⟩⟩
        exact hguarded.awaitNotFull (Nat.le_refl _) item timed timedOut
      case h_2 => exact h

theorem kept_start (q : QueuePosix α capacity) (hshutdown : q.shutdown = false) :
    Kept { queue := q } :=
  ⟨.inl rfl, .inl rfl, fun hs => absurd (hshutdown.symm.trans hs) Bool.false_ne_true⟩

theorem run_kept {s : Shared α capacity} (h : s.Kept) (actions : List (Action α)) :
    (Runs.run step s actions).Kept :=
  Runs.invariant_always (fun _ action h => h.step action) h actions

/-- Every notification that was decided on has been made, and every thread that was notified has
had the lock. -/
def Quiet (s : Shared α capacity) : Prop := s.notEmpty.Quiet ∧ s.notFull.Quiet

/-- In every run of any number of threads from a queue that is open, when nothing is on its way
any more: a consumer only sleeps in a queue that is open and empty, a producer only in one
that is open and full. So a consumer and a producer never sleep at once, and nobody sleeps
after a shutdown. -/
theorem run_stuck [Inhabited α] (q : QueuePosix α capacity)
    (hcreate : QueuePosix.create capacity = some q) (actions : List (Action α)) :
    let s := Runs.run step { queue := q } actions
    s.Quiet →
      (s.notEmpty.sleeping ≠ [] → s.queue.size = 0 ∧ s.queue.shutdown = false) ∧
      (s.notFull.sleeping ≠ [] → s.queue.size = capacity ∧ s.queue.shutdown = false) ∧
      (s.notEmpty.sleeping = [] ∨ s.notFull.sleeping = []) := by
  intro s hquiet
  obtain ⟨hcapacity, hopen, -⟩ := QueuePosix.create_spec hcreate
  have hkept : s.Kept := run_kept (kept_start q hopen) actions
  have hopen_of {P : Prop} (hreleased : s.queue.shutdown = true → P) (hnot : ¬ P) :
      s.queue.shutdown = false := by
    cases hshutdown : s.queue.shutdown with
    | false => rfl
    | true => exact absurd (hreleased hshutdown) hnot
  have hconsumers : s.notEmpty.sleeping ≠ [] →
      s.queue.size = 0 ∧ s.queue.shutdown = false := by
    intro hsleeping
    exact ⟨hkept.consumers.eq_zero hquiet.1 hsleeping,
      hopen_of (fun hs => (hkept.closed hs).1.sleeping_eq hquiet.1) hsleeping⟩
  have hproducers : s.notFull.sleeping ≠ [] →
      s.queue.size = capacity ∧ s.queue.shutdown = false := by
    intro hsleeping
    have hzero := hkept.producers.eq_zero hquiet.2 hsleeping
    have hbounded := s.queue.bounded
    exact ⟨by omega, hopen_of (fun hs => (hkept.closed hs).2.sleeping_eq hquiet.2) hsleeping⟩
  refine ⟨hconsumers, hproducers, ?_⟩
  by_contra hboth
  rw [not_or] at hboth
  have hempty := (hconsumers hboth.1).1
  have hfull := (hproducers hboth.2).1
  omega

/-- A consumer sleeps until an entry comes in, then one of two producers that wait for its cell
gets it; the other one goes on waiting. -/
theorem run_stuck_producer :
    ∃ q : QueuePosix Nat 1, QueuePosix.create 1 = some q ∧
      (let s := Runs.run step { queue := q }
        [.pop false, .push 7 false, .notifyConsumer 0, .push 8 false, .push 9 false,
          .consumer true 0 false, .notifyProducer 1, .producer true 0 false, .notifyConsumer 0]
      s.Quiet ∧ s.queue.size = 1 ∧ s.queue.shutdown = false) := by
  refine ⟨_, rfl, ⟨⟨rfl, rfl, rfl⟩, ⟨rfl, rfl, rfl⟩⟩, ?_⟩
  exact (run_stuck _ rfl _ ⟨⟨rfl, rfl, rfl⟩, ⟨rfl, rfl, rfl⟩⟩).2.1 (by decide)

/-- What consumers have been given and what they can still be given. -/
def history (s : Shared α capacity) : List α := s.delivered ++ s.queue.view

@[simp] theorem history_store (s : Shared α capacity) (item : α)
    (h : s.queue.size < capacity) : (s.store item h).history = s.history ++ [item] := by
  show s.delivered ++ (s.queue.put item h).view = s.delivered ++ s.queue.view ++ [item]
  rw [QueuePosix.view_put, List.append_assoc]

@[simp] theorem history_fetch (s : Shared α capacity) (h : 0 < s.queue.size) :
    (s.fetch h).history = s.history := by
  show s.delivered ++ [_] ++ (s.queue.advance h).view = s.delivered ++ s.queue.view
  rw [s.queue.view_eq_cons h, List.append_assoc, List.singleton_append]

/-- Operations that take entries away. -/
def Action.drops : Action α → Bool
  | .discard _ | .clear | .reset => true
  | _ => false

/-- What one step does with the entries: nothing, one comes in, or some are taken away. -/
inductive Change (s s' : Shared α capacity) (drops : Bool) : Prop where
  | same (hentered : s'.entered = s.entered) (hhistory : s'.history = s.history)
  | entry (item : α) (hopen : s.queue.shutdown = false)
      (hentered : s'.entered = s.entered ++ [item]) (hhistory : s'.history = s.history ++ [item])
  | dropped (hdrops : drops = true) (hentered : s'.entered = s.entered)
      (hhistory : s'.history.Sublist s.history)

theorem change_awaitNotFull (s : Shared α capacity) (item : α) (timed timedOut drops : Bool) :
    Change s (s.awaitNotFull item timed timedOut) drops := by
  unfold awaitNotFull
  split
  case isTrue => exact .same rfl rfl
  case isFalse hopen =>
    split
    case isTrue h =>
      exact .entry item (Bool.eq_false_iff.mpr hopen) rfl (history_store s item h)
    case isFalse =>
      split
      · exact .same rfl rfl
      · exact .same rfl rfl

theorem change_awaitNotEmpty (s : Shared α capacity) (timed timedOut drops : Bool) :
    Change s (s.awaitNotEmpty timed timedOut) drops := by
  unfold awaitNotEmpty
  split
  case isTrue h => exact .same rfl (history_fetch s h)
  case isFalse =>
    split
    · exact .same rfl rfl
    · split
      · exact .same rfl rfl
      · exact .same rfl rfl

theorem step_change (s : Shared α capacity) (action : Action α) :
    Change s (s.step action) action.drops := by
  cases action with
  | push item timed =>
      show Change s (s.push item timed) _
      unfold push
      split
      · exact .same rfl rfl
      · exact change_awaitNotFull s item timed false _
  | pop timed =>
      show Change s (s.pop timed) _
      unfold pop
      split
      · exact .same rfl rfl
      · exact change_awaitNotEmpty s timed false _
  | tryPush item =>
      show Change s (s.tryPush item) _
      unfold tryPush
      split
      case isTrue => exact .same rfl rfl
      case isFalse hopen =>
        split
        case isTrue h =>
          exact .entry item (Bool.eq_false_iff.mpr hopen) rfl (history_store s item h)
        case isFalse => exact .same rfl rfl
  | tryPop =>
      show Change s s.tryPop _
      unfold tryPop
      split
      case isTrue h => exact .same rfl (history_fetch s h.1)
      case isFalse => exact .same rfl rfl
  | discard count =>
      refine .dropped rfl rfl ?_
      show (s.delivered ++ (s.queue.discardLoop count).1.view).Sublist _
      rw [(s.queue.discardLoop_spec count).2]
      exact (List.drop_sublist _ _).append_left _
  | clear => exact .dropped rfl rfl ((List.nil_sublist _).append_left _)
  | reset => exact .dropped rfl rfl ((List.nil_sublist _).append_left _)
  | shutdown => exact .same rfl rfl
  | notifyConsumer choice => exact .same rfl rfl
  | notifyConsumers => exact .same rfl rfl
  | notifyProducer choice => exact .same rfl rfl
  | notifyProducers => exact .same rfl rfl
  | consumer notified i timedOut =>
      simp only [step]
      split
      case h_1 timed notEmpty _ =>
        obtain ⟨hentered, hhistory⟩ | ⟨item, hopen, hentered, hhistory⟩ |
          ⟨hdrops, hentered, hhistory⟩ :=
          change_awaitNotEmpty { s with notEmpty } timed timedOut false
        · exact .same hentered hhistory
        · exact .entry item hopen hentered hhistory
        · exact absurd hdrops Bool.false_ne_true
      case h_2 => exact .same rfl rfl
  | producer notified i timedOut =>
      simp only [step]
      split
      case h_1 item timed notFull _ =>
        obtain ⟨hentered, hhistory⟩ | ⟨item', hopen, hentered, hhistory⟩ |
          ⟨hdrops, hentered, hhistory⟩ :=
          change_awaitNotFull { s with notFull } item timed timedOut false
        · exact .same hentered hhistory
        · exact .entry item' hopen hentered hhistory
        · exact absurd hdrops Bool.false_ne_true
      case h_2 => exact .same rfl rfl

theorem history_sublist_step {s : Shared α capacity} (action : Action α)
    (h : s.history.Sublist s.entered) :
    (s.step action).history.Sublist (s.step action).entered := by
  obtain ⟨hentered, hhistory⟩ | ⟨item, -, hentered, hhistory⟩ | ⟨-, hentered, hhistory⟩ :=
    s.step_change action
  · rw [hentered, hhistory]
    exact h
  · rw [hentered, hhistory]
    exact h.append_right [item]
  · rw [hentered]
    exact hhistory.trans h

theorem history_eq_step {s : Shared α capacity} {action : Action α}
    (h : s.history = s.entered) (hdrops : action.drops = false) :
    (s.step action).history = (s.step action).entered := by
  obtain ⟨hentered, hhistory⟩ | ⟨item, -, hentered, hhistory⟩ | ⟨hdropped, -, -⟩ :=
    s.step_change action
  · rw [hentered, hhistory, h]
  · rw [hentered, hhistory, h]
  · exact absurd (hdropped.symm.trans hdrops) Bool.false_ne_true.symm

/-- A queue that is shut down stays so until it is reset. -/
theorem shutdown_step {s : Shared α capacity} (h : s.queue.shutdown = true) {action : Action α}
    (hreset : action ≠ .reset) : (s.step action).queue.shutdown = true := by
  have hfull (s : Shared α capacity) (h : s.queue.shutdown = true) (item : α)
      (timed timedOut : Bool) : (s.awaitNotFull item timed timedOut).queue.shutdown = true := by
    unfold awaitNotFull
    rw [if_pos h]
    exact h
  have hempty (s : Shared α capacity) (h : s.queue.shutdown = true) (timed timedOut : Bool) :
      (s.awaitNotEmpty timed timedOut).queue.shutdown = true := by
    unfold awaitNotEmpty
    rw [if_pos h]
    split
    · exact h
    · exact h
  cases action with
  | push item timed => rw [step, push, if_pos h]; exact h
  | pop timed =>
      rw [step, pop]
      split
      · exact h
      · exact hempty s h timed false
  | tryPush item => rw [step, tryPush, if_pos h]; exact h
  | tryPop =>
      rw [step, tryPop, dif_neg (fun hopen => Bool.false_ne_true (hopen.2.symm.trans h))]
      exact h
  | discard count => exact (s.queue.discardLoop_spec count).1.trans h
  | reset => exact absurd rfl hreset
  | consumer notified i timedOut =>
      simp only [step]
      split
      case h_1 timed notEmpty _ => exact hempty { s with notEmpty } h timed timedOut
      case h_2 => exact h
  | producer notified i timedOut =>
      simp only [step]
      split
      case h_1 item timed notFull _ => exact hfull { s with notFull } h item timed timedOut
      case h_2 => exact h
  | shutdown => rfl
  | clear => exact h
  | notifyConsumer choice => exact h
  | notifyConsumers => exact h
  | notifyProducer choice => exact h
  | notifyProducers => exact h

/-- In every run of any number of threads: what consumers have been given, followed by what the
ring holds, is in the order in which it was put in, nothing twice. As long as nobody discards,
clears or resets, it is all that was put in. Behind a shutdown nothing comes in until the
queue is reset. -/
theorem run_fifo [Inhabited α] (q : QueuePosix α capacity)
    (hcreate : QueuePosix.create capacity = some q) (actions : List (Action α)) :
    let s := Runs.run step { queue := q } actions
    (s.delivered ++ s.queue.view).Sublist s.entered ∧
    ((∀ action ∈ actions, action.drops = false) → s.delivered ++ s.queue.view = s.entered) ∧
    ∀ rest : List (Action α), s.queue.shutdown = true → .reset ∉ rest →
      (Runs.run step s rest).entered = s.entered := by
  intro s
  have hstart : history { queue := q : Shared α capacity } = [] :=
    (QueuePosix.create_spec hcreate).2.2
  refine ⟨?_, ?_, ?_⟩
  · have hnil : (history { queue := q : Shared α capacity }).Sublist [] := by rw [hstart]
    exact Runs.invariant_always (I := fun s : Shared α capacity => s.history.Sublist s.entered)
      (fun _ action h => history_sublist_step action h) hnil actions
  · intro hdrops
    refine Runs.invariant_forall (P := fun action : Action α => action.drops = false)
      (I := fun s : Shared α capacity => s.history = s.entered) ?_ hstart hdrops
    intro s action h hdrop
    exact history_eq_step h hdrop
  · intro rest
    generalize s = s
    induction rest generalizing s with
    | nil => intro _ _; rfl
    | cons action rest ih =>
        intro hshutdown hreset
        rw [List.mem_cons, not_or] at hreset
        have hkept := shutdown_step hshutdown (Ne.symm hreset.1)
        refine (ih _ hkept hreset.2).trans ?_
        obtain ⟨hentered, -⟩ | ⟨item, hopen, -, -⟩ | ⟨-, hentered, -⟩ := s.step_change action
        · exact hentered
        · exact absurd (hopen.symm.trans hshutdown) Bool.false_ne_true
        · exact hentered

/-- Three entries go around the end of a ring of two cells, the last one past a waiting producer. -/
theorem run_fifo_around :
    ∃ q : QueuePosix Nat 2, QueuePosix.create 2 = some q ∧
      (let s := Runs.run step { queue := q }
        [.push 5 false, .push 6 false, .push 7 false, .pop false, .notifyProducer 0,
          .producer true 0 false, .tryPop]
      s.delivered ++ s.queue.view = s.entered ∧ s.entered = [5, 6, 7]) :=
  ⟨_, rfl, (run_fifo _ rfl _).2.1 (by decide), by decide⟩

end Shared

end Ebus
