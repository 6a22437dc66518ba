import Mathlib.Data.List.Perm.Subperm
import Mathlib.Data.List.Nodup
import Ebus.App.Scheduler

/-!
# Runs of the scheduler

All operations of the scheduler in any order. The engine that a tick finds and the
events that are injected are arbitrary, so that events may be stale, repeated or made
up. `Schedule` keeps beside the scheduler what its callers see of the items: the answer
of each `enqueue` and `enqueueAt` call and each start of an item by a tick. No function
of the model reads these records.
-/

namespace Ebus

namespace Schedule

/-- The answer of an `enqueue` call, and whether its item is in the queue after it. -/
structure Answer where
  sessionId : UInt32
  queued : Bool
  deriving DecidableEq, Repr

/-- A tick has handed an item to `sendActiveMessage` while the others went on waiting. -/
structure Start where
  item : Item
  waiting : List Item
  now : Int
  deriving DecidableEq, Repr

end Schedule

structure Schedule where
  scheduler : Scheduler := {}
  answers : List Schedule.Answer := []
  starts : List Schedule.Start := []
  deriving DecidableEq, Repr

namespace Schedule

inductive Action where
  | enqueue (priority : UInt8) (message : List UInt8) (now : Int) (pollId : UInt16)
  | enqueueAt (priority : UInt8) (message : List UInt8) (due : Int) (pollId : UInt16)
  | tick (handler : Handler) (now : Int)
  | injectProtocolEvent (event : ProtocolEvent) (now : Int)
  | clear
  | stop
  deriving DecidableEq, Repr

/-- What the caller of `enqueue` learns; the item has the number of the call. -/
def answered (d : Schedule) (result : Scheduler × UInt32) : Schedule :=
  { d with
    scheduler := result.1
    answers := d.answers ++
      [{ sessionId := result.2
         queued := d.scheduler.tickets ∈ result.1.scheduledItems.map Item.ticket }] }

/-- The start between two states of the scheduler. -/
def started (before after : Scheduler) (now : Int) : Option Start :=
  match before.activeItem, after.activeItem with
  | none, some active => some { item := active.item, waiting := after.scheduledItems, now }
  | _, _ => none

def tick (d : Schedule) (handler : Handler) (now : Int) : Schedule :=
  let scheduler := (d.scheduler.tick handler now).scheduler
  { d with scheduler, starts := d.starts ++ (started d.scheduler scheduler now).toList }

def step (d : Schedule) : Action → Schedule
  | .enqueue priority message now pollId =>
      d.answered (d.scheduler.enqueue priority message now pollId)
  | .enqueueAt priority message due pollId =>
      d.answered (d.scheduler.enqueueAt priority message due pollId)
  | .tick handler now => d.tick handler now
  | .injectProtocolEvent event now =>
      { d with scheduler := (d.scheduler.injectProtocolEvent event now).1 }
  | .clear => { d with scheduler := d.scheduler.clear }
  | .stop => { d with scheduler := d.scheduler.stop }

/-- A new scheduler with its configuration. -/
def create (maxAttempts : UInt8) (baseBackoff totalTimeout : Int) : Schedule :=
  { scheduler := { maxAttempts, baseBackoff, totalTimeout } }

/-- All items with their places: the queue and the one in progress. -/
def items (d : Schedule) : List Item :=
  d.scheduler.scheduledItems ++ (d.scheduler.activeItem.toList.map ActiveAttempt.item)

/-- What stays with an item for life: the number of its call and its session id. -/
def name (item : Item) : Nat × UInt32 := (item.ticket, item.sessionId)

def names (d : Schedule) : List (Nat × UInt32) := d.items.map name

/-- A tick changes nothing, or it starts the item at the top of the queue. -/
theorem tick_cases (d : Schedule) (handler : Handler) (now : Int) :
    d.tick handler now = d ∨
    ∃ top others, d.scheduler.activeItem = none ∧
      Scheduler.popGreatest d.scheduler.scheduledItems = some (top, others) ∧ top.due ≤ now ∧
      d.tick handler now =
        { d with
          scheduler := { d.scheduler with
            scheduledItems := others
            activeItem := some { item := top, startTime := now, sessionId := top.sessionId }
            currentSessionId := top.sessionId, currentPollId := top.pollId }
          starts := d.starts ++ [{ item := top, waiting := others, now }] } := by
  have hsame : started d.scheduler d.scheduler now = none := by
    unfold started
    cases d.scheduler.activeItem <;> rfl
  unfold tick
  obtain ⟨active, -, -, heq⟩ | heq | ⟨top, others, hidle, hpop, hdue, -, heq⟩ :=
    d.scheduler.tick_cases handler now
  · exact .inl (by simp [heq, hsame])
  · exact .inl (by simp [heq, hsame])
  · refine .inr ⟨top, others, hidle, hpop, hdue, ?_⟩
    simp [heq, Scheduler.start_scheduler, started, hidle]

/-- The item that an `enqueue` call makes. -/
def made (d : Schedule) (priority : UInt8) (message : List UInt8) (due : Int)
    (pollId : UInt16) : Item :=
  { priority, due, sessionId := d.scheduler.nextSessionId, pollId, message
    ticket := d.scheduler.tickets }

/-- A call of `enqueue` puts its item at the end of the queue, or refuses it. -/
theorem answered_cases (d : Schedule) (priority : UInt8) (message : List UInt8) (due : Int)
    (pollId : UInt16) (hfresh : ∀ n ∈ d.names, n.1 < d.scheduler.tickets) :
    (SchedulerLimits.maxItems ≤ d.scheduler.scheduledItems.length ∧
      d.answered (d.scheduler.enqueueAt priority message due pollId) =
        { d with
          scheduler := { d.scheduler with
            nextSessionId := d.scheduler.nextSessionId + 1
            tickets := d.scheduler.tickets + 1 }
          answers := d.answers ++ [{ sessionId := 0, queued := false }] }) ∨
    (d.scheduler.scheduledItems.length < SchedulerLimits.maxItems ∧
      d.answered (d.scheduler.enqueueAt priority message due pollId) =
        { d with
          scheduler := { d.scheduler with
            nextSessionId := d.scheduler.nextSessionId + 1
            tickets := d.scheduler.tickets + 1
            scheduledItems := d.scheduler.scheduledItems ++ [d.made priority message due pollId] }
          answers := d.answers ++
            [{ sessionId := d.scheduler.nextSessionId, queued := true }] }) := by
  obtain ⟨hfull, heq⟩ | ⟨hroom, heq⟩ := d.scheduler.enqueueAt_cases priority message due pollId
  · refine .inl ⟨hfull, ?_⟩
    have hout : d.scheduler.tickets ∉ d.scheduler.scheduledItems.map Item.ticket := by
      intro hmem
      obtain ⟨item, hitem, hticket⟩ := List.mem_map.mp hmem
      exact Nat.lt_irrefl _ (hticket ▸ hfresh (name item)
        (List.mem_map_of_mem (List.mem_append_left _ hitem)))
    simp only [answered, heq, hout, decide_false]
  · refine .inr ⟨hroom, ?_⟩
    simp [answered, heq, made]

theorem name_countAttempt (event : ProtocolEvent) (item : Item) :
    name (Scheduler.countAttempt event item) = name item := by
  unfold Scheduler.countAttempt
  split <;> rfl

theorem names_tick (d : Schedule) (handler : Handler) (now : Int) :
    (d.tick handler now).names.Perm d.names := by
  obtain heq | ⟨top, others, hidle, hpop, -, heq⟩ := d.tick_cases handler now
  · rw [heq]
  · have hmoved := (Scheduler.popGreatest_perm hpop).map name
    simp only [names, heq, items, hidle, Option.toList_some, Option.toList_none, List.map_cons,
      List.map_nil, List.append_nil, List.map_append]
    exact (List.perm_append_singleton _ _).trans hmoved.symm

/-- No event makes an item; a retried one has its old name. -/
theorem names_injectProtocolEvent (d : Schedule) (event : ProtocolEvent) (now : Int) :
    (step d (.injectProtocolEvent event now)).names.Subperm d.names := by
  have hidle : ({ d with scheduler := d.scheduler.idle } : Schedule).names.Subperm d.names := by
    simp only [names, items, Scheduler.idle, Option.toList_none, List.map_nil, List.append_nil,
      List.map_append]
    exact (List.sublist_append_left _ _).subperm
  obtain heq | ⟨active, hactive, -, -, ⟨-, -, heq⟩ | ⟨-, heq⟩⟩ :=
    d.scheduler.injectProtocolEvent_cases event now
  · simp only [step, heq]
    exact List.Subperm.refl _
  · simp only [step, heq]
    obtain ⟨-, hout⟩ | ⟨-, hback⟩ :=
      d.scheduler.requeue_cases (Scheduler.countAttempt event active.item) now
    · rw [hout]
      exact hidle
    · simp only [hback, names, items, hactive, Option.toList_none, Option.toList_some,
        List.map_nil, List.map_cons, List.append_nil, List.map_append]
      have hname := name_countAttempt event active.item
      unfold name at hname ⊢
      rw [hname]
  · simp only [step, heq]
    exact hidle

theorem names_enqueueAt (d : Schedule) (priority : UInt8) (message : List UInt8) (due : Int)
    (pollId : UInt16) :
    (d.answered (d.scheduler.enqueueAt priority message due pollId)).names.Subperm
      ((d.scheduler.tickets, d.scheduler.nextSessionId) :: d.names) := by
  obtain ⟨-, heq⟩ | ⟨-, heq⟩ := d.scheduler.enqueueAt_cases priority message due pollId
  · simp only [answered, heq]
    exact (List.sublist_cons_self _ _).subperm
  · simp only [answered, heq, names, items, List.map_append, List.map_cons, List.map_nil,
      List.append_assoc]
    exact List.perm_middle.subperm

theorem nodup_of_subperm {α β : Type*} {f : α → β} {xs ys : List α} (hsub : xs.Subperm ys)
    (honce : (ys.map f).Nodup) : (xs.map f).Nodup := by
  obtain ⟨zs, hperm, hsublist⟩ := hsub
  exact (hperm.map f).nodup_iff.mp (honce.sublist (hsublist.map f))

/-- The numbers of the items are given out once. -/
structure Numbered (d : Schedule) : Prop where
  issued : ∀ n ∈ d.names, n.1 < d.scheduler.tickets
  once : (d.names.map Prod.fst).Nodup

theorem Numbered.of_subperm {d d' : Schedule} (hi : Numbered d)
    (hsub : d'.names.Subperm d.names) (htickets : d'.scheduler.tickets = d.scheduler.tickets) :
    Numbered d' where
  issued := by
    intro n hn
    rw [htickets]
    exact hi.issued n (hsub.subset hn)
  once := nodup_of_subperm hsub hi.once

theorem Numbered.enqueueAt {d : Schedule} (hi : Numbered d) (priority : UInt8)
    (message : List UInt8) (due : Int) (pollId : UInt16) :
    Numbered (d.answered (d.scheduler.enqueueAt priority message due pollId)) := by
  have hsub := d.names_enqueueAt priority message due pollId
  have htickets : (d.answered (d.scheduler.enqueueAt priority message due pollId)).scheduler.tickets
      = d.scheduler.tickets + 1 := by
    obtain ⟨-, heq⟩ | ⟨-, heq⟩ := d.scheduler.enqueueAt_cases priority message due pollId <;>
      simp [answered, heq]
  constructor
  · intro n hn
    rw [htickets]
    obtain rfl | hold := List.mem_cons.mp (hsub.subset hn)
    · exact Nat.lt_succ_self _
    · exact Nat.lt_succ_of_lt (hi.issued n hold)
  · refine nodup_of_subperm hsub ?_
    rw [List.map_cons, List.nodup_cons]
    refine ⟨?_, hi.once⟩
    intro hmem
    obtain ⟨n, hn, hfst⟩ := List.mem_map.mp hmem
    exact Nat.lt_irrefl _ (hfst ▸ hi.issued n hn)

theorem Numbered.step {d : Schedule} (hi : Numbered d) (action : Action) :
    Numbered (step d action) := by
  cases action with
  | enqueue priority message now pollId => exact hi.enqueueAt priority message now pollId
  | enqueueAt priority message due pollId => exact hi.enqueueAt priority message due pollId
  | tick handler now =>
      refine hi.of_subperm (d.names_tick handler now).subperm ?_
      obtain heq | ⟨top, others, -, -, -, heq⟩ := d.tick_cases handler now <;>
        simp [Schedule.step, heq]
  | injectProtocolEvent event now =>
      refine hi.of_subperm (d.names_injectProtocolEvent event now) ?_
      obtain heq | ⟨active, -, -, -, ⟨-, -, heq⟩ | ⟨-, heq⟩⟩ :=
        d.scheduler.injectProtocolEvent_cases event now
      · simp only [Schedule.step, heq]
      · obtain ⟨-, hout⟩ | ⟨-, hback⟩ :=
          d.scheduler.requeue_cases (Scheduler.countAttempt event active.item) now
        · simp only [Schedule.step, heq, hout, Scheduler.idle]
        · simp only [Schedule.step, heq, hback]
      · simp only [Schedule.step, heq, Scheduler.idle]
  | clear => exact hi.of_subperm (List.nil_subperm) rfl
  | stop => exact hi.of_subperm (List.nil_subperm) rfl

theorem Numbered.create (maxAttempts : UInt8) (baseBackoff totalTimeout : Int) :
    Numbered (create maxAttempts baseBackoff totalTimeout) := by
  constructor <;> simp [Schedule.create, names, items]

end Schedule

end Ebus
