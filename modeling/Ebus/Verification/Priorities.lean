import Mathlib.Data.Prod.Lex
import Mathlib.Order.RelClasses
import Mathlib.Data.Int.Order.Basic
import Ebus.Lib.Run
import Ebus.App.Schedule

/-!
# Which item is started

The queue is ordered by due time first, counted in steps of the jitter threshold, then
by priority and then by age. The order is a strict weak one, so that a heap over it has
its greatest item at the top. A started item therefore has the best place among all
waiting items, but its priority is only compared with the items of its own step: an
item of low priority that became due in an earlier step goes first.
-/

namespace Ebus

namespace Item

/-- The step of the jitter threshold that the due time falls into. -/
def bucket (item : Item) : Int := item.due.tdiv SchedulerLimits.jitterThreshold

/-- The place in the queue, as a number of three digits. -/
def rank (item : Item) : Int ×ₗ Int ×ₗ Int :=
  toLex (-item.bucket, toLex ((item.priority.toNat : Int), -(item.sessionId.toNat : Int)))

theorem before_iff (a b : Item) :
    a.before b = true ↔
      b.bucket < a.bucket ∨ a.bucket = b.bucket ∧
        (a.priority < b.priority ∨ a.priority = b.priority ∧ b.sessionId < a.sessionId) := by
  unfold before
  change (if a.bucket ≠ b.bucket then _ else _) = true ↔ _
  by_cases hbucket : a.bucket = b.bucket
  · rw [if_neg (not_not.mpr hbucket)]
    by_cases hpriority : a.priority = b.priority
    · simp [hbucket, hpriority]
    · simp [hbucket, hpriority]
  · rw [if_pos hbucket]
    simp only [decide_eq_true_eq, hbucket, false_and, or_false]
    rfl

theorem before_iff_rank (a b : Item) : a.before b = true ↔ a.rank < b.rank := by
  rw [before_iff, rank, rank, Prod.Lex.toLex_lt_toLex, Prod.Lex.toLex_lt_toLex]
  simp only [Int.neg_lt_neg_iff, Int.neg_inj, Int.ofNat_lt, Int.natCast_inj, UInt8.lt_iff_toNat_lt,
    UInt32.lt_iff_toNat_lt, UInt8.toNat_inj]

/-- The comparison is one that a heap may be built with. -/
theorem before_strictWeakOrder : IsStrictWeakOrder Item (fun a b => a.before b = true) := by
  have hrank : (fun a b : Item => a.before b = true) = Order.Preimage rank (· < ·) := by
    funext a b
    exact propext (before_iff_rank a b)
  have hlex : IsStrictWeakOrder (Int ×ₗ Int ×ₗ Int) (· < ·) :=
    isStrictWeakOrder_of_isOrderConnected
  rw [hrank]
  infer_instance

end Item

namespace Scheduler

/-- No item of the queue comes after the one that is taken out. -/
theorem popGreatest_max {items others : List Item} {top : Item}
    (h : popGreatest items = some (top, others)) : ∀ item ∈ items, item.rank ≤ top.rank := by
  induction items generalizing top others with
  | nil => simp [popGreatest] at h
  | cons first rest ih =>
      rw [popGreatest] at h
      cases hrest : popGreatest rest with
      | none =>
          simp only [hrest, Option.some.injEq, Prod.mk.injEq] at h
          obtain ⟨rfl, -⟩ := h
          simp [popGreatest_eq_none hrest]
      | some found =>
          obtain ⟨greatest, remaining⟩ := found
          have hmax := ih hrest
          simp only [hrest] at h
          split at h
          · rename_i hbefore
            obtain ⟨rfl, -⟩ := by simpa using h
            intro item hitem
            obtain rfl | hmem := List.mem_cons.mp hitem
            · exact ((Item.before_iff_rank _ _).mp hbefore).le
            · exact hmax item hmem
          · rename_i hbefore
            obtain ⟨rfl, -⟩ := by simpa using h
            have hle : greatest.rank ≤ first.rank :=
              not_lt.mp fun hlt => hbefore ((Item.before_iff_rank _ _).mpr hlt)
            intro item hitem
            obtain rfl | hmem := List.mem_cons.mp hitem
            · exact le_rfl
            · exact (hmax item hmem).trans hle

end Scheduler

namespace Schedule

/-- The law of priorities, for the items that are due at the start. -/
def Start.ByPriority (start : Start) : Prop :=
  ∀ other ∈ start.waiting, other.due ≤ start.now →
    other.priority ≤ start.item.priority ∧
    (other.priority = start.item.priority → start.item.sessionId ≤ other.sessionId)

/-- The law that the comparison gives: priorities count within a step of the jitter
threshold, and no waiting item belongs to an earlier one. -/
structure Start.InTurn (start : Start) : Prop where
  due : start.item.due ≤ start.now
  bucket : ∀ other ∈ start.waiting, start.item.bucket ≤ other.bucket
  priority : ∀ other ∈ start.waiting, other.bucket = start.item.bucket →
    other.priority ≤ start.item.priority
  age : ∀ other ∈ start.waiting, other.bucket = start.item.bucket →
    other.priority = start.item.priority → start.item.sessionId ≤ other.sessionId

theorem Start.inTurn_of_rank {start : Start} (hdue : start.item.due ≤ start.now)
    (hmax : ∀ other ∈ start.waiting, other.rank ≤ start.item.rank) : start.InTurn := by
  have hnot (other : Item) (hother : other ∈ start.waiting) :
      ¬ (other.bucket < start.item.bucket ∨ start.item.bucket = other.bucket ∧
        (start.item.priority < other.priority ∨ start.item.priority = other.priority ∧
          other.sessionId < start.item.sessionId)) := by
    rw [← Item.before_iff, Item.before_iff_rank]
    exact not_lt.mpr (hmax other hother)
  refine ⟨hdue, ?_, ?_, ?_⟩
  · intro other hother
    exact not_lt.mp fun hlt => hnot other hother (.inl hlt)
  · intro other hother hbucket
    exact UInt8.not_lt.mp fun hlt => hnot other hother (.inr ⟨hbucket.symm, .inl hlt⟩)
  · intro other hother hbucket hpriority
    exact UInt32.not_lt.mp fun hlt =>
      hnot other hother (.inr ⟨hbucket.symm, .inr ⟨hpriority.symm, hlt⟩⟩)

theorem step_starts (d : Schedule) (action : Action)
    (hi : ∀ start ∈ d.starts, start.InTurn) :
    ∀ start ∈ (step d action).starts, start.InTurn := by
  cases action with
  | tick handler now =>
      obtain heq | ⟨top, others, -, hpop, hdue, heq⟩ := d.tick_cases handler now
      · simpa only [step, heq] using hi
      · simp only [step, heq]
        intro start hstart
        obtain hold | hnew := List.mem_append.mp hstart
        · exact hi start hold
        · obtain rfl := List.mem_singleton.mp hnew
          refine Start.inTurn_of_rank hdue fun other hother => ?_
          exact Scheduler.popGreatest_max hpop other
            ((Scheduler.popGreatest_perm hpop).mem_iff.mpr (List.mem_cons_of_mem _ hother))
  | enqueue priority message now pollId => exact hi
  | enqueueAt priority message due pollId => exact hi
  | injectProtocolEvent event now => exact hi
  | clear => exact hi
  | stop => exact hi

/-- Every item that a run starts is due and in turn, and the comparison that orders the
queue is a strict weak order. -/
theorem run_starts_inTurn (scheduler : Scheduler) (actions : List Action) :
    (∀ start ∈ (Runs.run step { scheduler } actions).starts, start.InTurn) ∧
    IsStrictWeakOrder Item (fun a b => a.before b = true) :=
  ⟨Runs.invariant_always step_starts (by simp) actions, Item.before_strictWeakOrder⟩

/-- A scan message is due two milliseconds before a message of the highest priority. -/
def urgentLater : List Action :=
  [.enqueueAt 5 [0x08, 0x07, 0x04, 0x00] 0 0, .enqueueAt 255 [0xfe, 0x07, 0x04, 0x00] 2000 0,
    .tick (Handler.create 0xff {}) 2000]

theorem urgent_waits :
    ¬ ∀ (scheduler : Scheduler) (actions : List Action),
      ∀ start ∈ (Runs.run step { scheduler } actions).starts, start.ByPriority := by
  intro hall
  have hstart := hall {} urgentLater
    { item := { priority := 5, due := 0, sessionId := 1, pollId := 0
                message := [0x08, 0x07, 0x04, 0x00], ticket := 0 }
      waiting := [{ priority := 255, due := 2000, sessionId := 2, pollId := 0
                    message := [0xfe, 0x07, 0x04, 0x00], ticket := 1 }]
      now := 2000 } (by decide)
  exact absurd (hstart _ (List.mem_singleton.mpr rfl) (by decide)).1 (by decide)

end Schedule

end Ebus
