import Ebus.Lib.Run
import Ebus.App.Schedule

/-!
# Bounded attempts

Attempts are counted when an event ends one, transmissions happen when a tick starts
an item. An item in the queue has been handed over at most as often as it has attempts,
the item in progress once more, and only an item with attempts left goes back. Which
events arrive does not matter, because an event is only counted for the item in
progress and always takes it out of progress.
-/

namespace Ebus

namespace Schedule

/-- How often the message of an `enqueue` call has been handed to `sendActiveMessage`. -/
def handed (d : Schedule) (ticket : Nat) : Nat :=
  (d.starts.map fun start => start.item.ticket).count ticket

/-- The invariant of runs. -/
structure Counted (maxAttempts : UInt8) (d : Schedule) : Prop where
  limit : d.scheduler.maxAttempts = maxAttempts
  numbered : Numbered d
  issued : ∀ start ∈ d.starts, start.item.ticket < d.scheduler.tickets
  bound : ∀ ticket, d.handed ticket ≤ maxAttempts.toNat
  waiting : ∀ item ∈ d.scheduler.scheduledItems,
    item.attempts < maxAttempts ∧ d.handed item.ticket ≤ item.attempts.toNat
  active : ∀ active ∈ d.scheduler.activeItem,
    active.item.attempts < maxAttempts ∧
    d.handed active.item.ticket ≤ active.item.attempts.toNat + 1

theorem handed_unissued {d : Schedule} {ticket : Nat}
    (h : ∀ start ∈ d.starts, start.item.ticket < ticket) : d.handed ticket = 0 := by
  refine List.count_eq_zero.mpr fun hmem => ?_
  obtain ⟨start, hstart, heq⟩ := List.mem_map.mp hmem
  exact Nat.lt_irrefl _ (heq ▸ h start hstart)

/-- One more attempt of an item that has one left does not overflow. -/
theorem attempts_succ {maxAttempts : UInt8} {item : Item} (h : item.attempts < maxAttempts) :
    (item.attempts + 1).toNat = item.attempts.toNat + 1 := by
  have hlt : item.attempts.toNat < maxAttempts.toNat := UInt8.lt_iff_toNat_lt.mp h
  have hmax := maxAttempts.toNat_lt
  rw [UInt8.toNat_add]
  exact Nat.mod_eq_of_lt (by simpa using Nat.lt_of_le_of_lt hlt hmax)

/-- No event counts beyond the last attempt. -/
theorem countAttempt_le {maxAttempts : UInt8} {item : Item} (h : item.attempts < maxAttempts)
    (event : ProtocolEvent) :
    (Scheduler.countAttempt event item).attempts.toNat ≤ maxAttempts.toNat := by
  have hlt : item.attempts.toNat < maxAttempts.toNat := UInt8.lt_iff_toNat_lt.mp h
  unfold Scheduler.countAttempt
  split
  · rw [attempts_succ h]
    exact hlt
  · exact Nat.le_of_lt hlt

theorem Counted.enqueueAt {maxAttempts : UInt8} {d : Schedule} (hi : Counted maxAttempts d)
    (positive : 0 < maxAttempts) (priority : UInt8) (message : List UInt8) (due : Int)
    (pollId : UInt16) :
    Counted maxAttempts (d.answered (d.scheduler.enqueueAt priority message due pollId)) := by
  have hnumbered := hi.numbered.enqueueAt priority message due pollId
  obtain ⟨-, heq⟩ | ⟨-, heq⟩ := d.scheduler.enqueueAt_cases priority message due pollId
  · simp only [answered, heq] at hnumbered ⊢
    exact ⟨hi.limit, hnumbered, fun start hs => Nat.lt_succ_of_lt (hi.issued start hs), hi.bound,
      hi.waiting, hi.active⟩
  · simp only [answered, heq] at hnumbered ⊢
    refine ⟨hi.limit, hnumbered, fun start hs => Nat.lt_succ_of_lt (hi.issued start hs), hi.bound,
      ?_, hi.active⟩
    intro item hitem
    obtain hold | hnew := List.mem_append.mp hitem
    · exact hi.waiting item hold
    · obtain rfl := List.mem_singleton.mp hnew
      exact ⟨positive, Nat.le_of_eq (handed_unissued hi.issued)⟩

/-- A start raises the count of the started item only. -/
theorem handed_start (d : Schedule) (scheduler : Scheduler) (start : Start) (ticket : Nat) :
    ({ d with scheduler, starts := d.starts ++ [start] } : Schedule).handed ticket =
      d.handed ticket + if start.item.ticket = ticket then 1 else 0 := by
  unfold handed
  rw [List.map_append, List.count_append, List.map_singleton, List.count_singleton]
  simp only [beq_iff_eq]

theorem Counted.tick {maxAttempts : UInt8} {d : Schedule} (hi : Counted maxAttempts d)
    (handler : Handler) (now : Int) : Counted maxAttempts (d.tick handler now) := by
  have hnumbered := hi.numbered.step (.tick handler now)
  obtain heq | ⟨top, others, hidle, hpop, -, heq⟩ := d.tick_cases handler now
  · rwa [heq]
  · simp only [step, heq] at hnumbered
    rw [heq]
    have hperm := Scheduler.popGreatest_perm hpop
    have htop := hi.waiting top (hperm.mem_iff.mpr (List.mem_cons_self ..))
    have hlt : top.attempts.toNat < maxAttempts.toNat := UInt8.lt_iff_toNat_lt.mp htop.1
    -- the started item is not among the others
    have hapart : ∀ item ∈ others, top.ticket ≠ item.ticket := by
      intro item hitem hsame
      have honce := hi.numbered.once
      have hnodup : ((top :: others).map Item.ticket).Nodup := by
        refine (hperm.map Item.ticket).nodup_iff.mp ?_
        simpa [names, items, hidle, List.map_map, Function.comp_def, name] using honce
      rw [List.map_cons, List.nodup_cons] at hnodup
      exact hnodup.1 (hsame ▸ List.mem_map_of_mem hitem)
    refine ⟨hi.limit, hnumbered, ?_, ?_, ?_, ?_⟩
    · intro start hstart
      obtain hold | hnew := List.mem_append.mp hstart
      · exact hi.issued start hold
      · obtain rfl := List.mem_singleton.mp hnew
        exact hi.numbered.issued (name top) (List.mem_map_of_mem (List.mem_append_left _
          (hperm.mem_iff.mpr (List.mem_cons_self ..))))
    · intro ticket
      rw [handed_start]
      by_cases hticket : top.ticket = ticket
      · rw [if_pos hticket, ← hticket]
        exact Nat.le_trans (Nat.succ_le_succ htop.2) hlt
      · rw [if_neg hticket]
        exact hi.bound ticket
    · intro item hitem
      rw [handed_start, if_neg (hapart item hitem), Nat.add_zero]
      exact hi.waiting item (hperm.mem_iff.mpr (List.mem_cons_of_mem _ hitem))
    · intro active hactive
      obtain rfl := Option.mem_some.mp hactive
      rw [handed_start, if_pos rfl]
      exact ⟨htop.1, Nat.succ_le_succ htop.2⟩

theorem Counted.idle {maxAttempts : UInt8} {d : Schedule} (hi : Counted maxAttempts d)
    (hnumbered : Numbered { d with scheduler := d.scheduler.idle }) :
    Counted maxAttempts { d with scheduler := d.scheduler.idle } :=
  ⟨hi.limit, hnumbered, hi.issued, hi.bound, hi.waiting, by simp [Scheduler.idle]⟩

theorem Counted.injectProtocolEvent {maxAttempts : UInt8} {d : Schedule}
    (hi : Counted maxAttempts d) (event : ProtocolEvent) (now : Int) :
    Counted maxAttempts (Schedule.step d (.injectProtocolEvent event now)) := by
  have hnumbered := hi.numbered.step (.injectProtocolEvent event now)
  obtain heq | ⟨active, hactive, -, -, ⟨hagain, hleft, heq⟩ | ⟨-, heq⟩⟩ :=
    d.scheduler.injectProtocolEvent_cases event now
  · simpa only [Schedule.step, heq] using hi
  · simp only [Schedule.step, heq] at hnumbered ⊢
    obtain ⟨-, hout⟩ | ⟨-, hback⟩ :=
      d.scheduler.requeue_cases (Scheduler.countAttempt event active.item) now
    · rw [hout] at hnumbered ⊢
      exact hi.idle hnumbered
    · rw [hback] at hnumbered ⊢
      refine ⟨hi.limit, hnumbered, hi.issued, hi.bound, ?_, by simp⟩
      intro item hitem
      obtain hold | hnew := List.mem_append.mp hitem
      · exact hi.waiting item hold
      · obtain rfl := List.mem_singleton.mp hnew
        obtain ⟨hlt, hcount⟩ := hi.active active hactive
        -- an event that makes the session start again counts an attempt
        have hevent : event.type = .lost ∨ event.type = .error := by
          simp only [Scheduler.retries, Bool.and_eq_true, Bool.or_eq_true,
            decide_eq_true_eq] at hagain
          exact hagain.1
        have hitem : Scheduler.countAttempt event active.item =
            { active.item with attempts := active.item.attempts + 1 } := if_pos hevent
        refine ⟨hi.limit ▸ hleft, ?_⟩
        simp only [hitem]
        rw [attempts_succ hlt]
        exact hcount
  · simp only [Schedule.step, heq] at hnumbered ⊢
    exact hi.idle hnumbered

theorem Counted.step {maxAttempts : UInt8} (positive : 0 < maxAttempts) (d : Schedule)
    (action : Action) (hi : Counted maxAttempts d) :
    Counted maxAttempts (Schedule.step d action) := by
  cases action with
  | enqueue priority message now pollId => exact hi.enqueueAt positive priority message now pollId
  | enqueueAt priority message due pollId =>
      exact hi.enqueueAt positive priority message due pollId
  | tick handler now => exact hi.tick handler now
  | injectProtocolEvent event now => exact hi.injectProtocolEvent event now
  | clear =>
      exact ⟨hi.limit, hi.numbered.step .clear, hi.issued, hi.bound,
        by simp [Schedule.step, Scheduler.clear], by simp [Schedule.step, Scheduler.clear]⟩
  | stop =>
      exact ⟨hi.limit, hi.numbered.step .stop, hi.issued, hi.bound,
        by simp [Schedule.step, Scheduler.stop, Scheduler.clear],
        by simp [Schedule.step, Scheduler.stop, Scheduler.clear]⟩

/-- No session is handed over more often than its attempts allow, and no item counts more
of them, also not while the event that ends its last attempt is handled. -/
theorem run_attempts_bounded (maxAttempts : UInt8) (baseBackoff totalTimeout : Int)
    (positive : 0 < maxAttempts) (actions : List Action) :
    (∀ ticket, (Runs.run step (create maxAttempts baseBackoff totalTimeout) actions).handed
      ticket ≤ maxAttempts.toNat) ∧
    (∀ item ∈ (Runs.run step (create maxAttempts baseBackoff totalTimeout) actions).items,
      item.attempts.toNat ≤ maxAttempts.toNat) ∧
    ∀ active ∈ (Runs.run step (create maxAttempts baseBackoff totalTimeout)
      actions).scheduler.activeItem, ∀ event,
      (Scheduler.countAttempt event active.item).attempts.toNat ≤ maxAttempts.toNat := by
  have hstart : Counted maxAttempts (create maxAttempts baseBackoff totalTimeout) :=
    ⟨rfl, Numbered.create .., by simp [create], by simp [handed, create], by simp [create],
      by simp [create]⟩
  have hinv := Runs.invariant_always (Counted.step positive) hstart actions
  refine ⟨hinv.bound, ?_, ?_⟩
  · intro item hitem
    obtain hwaiting | hactive := List.mem_append.mp hitem
    · exact Nat.le_of_lt (UInt8.lt_iff_toNat_lt.mp (hinv.waiting item hwaiting).1)
    · obtain ⟨active, hmem, rfl⟩ := List.mem_map.mp hactive
      exact Nat.le_of_lt
        (UInt8.lt_iff_toNat_lt.mp (hinv.active active (Option.mem_toList.mp hmem)).1)
  · intro active hactive event
    exact countAttempt_le (hinv.active active hactive).1 event

/-- A loss that is reported three times, for one message with two attempts. -/
def repeatedLoss : List Action :=
  [.enqueue 1 [0xfe, 0x07, 0x04, 0x00] 0 0, .tick (Handler.create 0xff {}) 0] ++
    (List.replicate 3 [.injectProtocolEvent
        { type := .lost, sessionId := 1, pollId := 0, handlerState := .requestBus
          requestState := .observe } 0, .tick (Handler.create 0xff {}) 1000000000]).flatten

theorem run_attempts_bounded_repeatedLoss :
    (0 : UInt8) < 2 ∧
    (Runs.run step (create 2 100000 2000000) repeatedLoss).handed 0 = 2 ∧
    (Runs.run step (create 2 100000 2000000) repeatedLoss).handed 0 ≤ 2 :=
  ⟨by decide, by decide +kernel,
    (run_attempts_bounded 2 100000 2000000 (by decide) repeatedLoss).1 0⟩

end Schedule

end Ebus
