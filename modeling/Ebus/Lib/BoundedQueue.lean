import Mathlib.Data.List.Basic

/-!
# Bounded queues with their history

A `BoundedQueue` remembers which entries have come in and which ones its
consumer has been given, both in order. An entry leaves the queue in one of two ways: it
is delivered, or it is discarded from the front without trace. What has been delivered
and what is waiting is therefore part of what has come in, in the same order; every queue
carries the proof of this.
-/

structure BoundedQueue (α : Type*) (capacity : Nat) where
  waiting : List α
  entered : List α
  delivered : List α
  bounded : waiting.length ≤ capacity
  fifo : (delivered ++ waiting).Sublist entered
  deriving DecidableEq, Repr

namespace BoundedQueue

variable {α : Type*} {capacity : Nat}

def empty : BoundedQueue α capacity where
  waiting := []
  entered := []
  delivered := []
  bounded := Nat.zero_le _
  fifo := .slnil

/-- Put an entry behind the others, if there is room. -/
def tryPush (q : BoundedQueue α capacity) (a : α) : Option (BoundedQueue α capacity) :=
  if h : q.waiting.length < capacity then
    some
      { waiting := q.waiting ++ [a]
        entered := q.entered ++ [a]
        delivered := q.delivered
        bounded := by
          rw [List.length_append]
          exact h
        fifo := by
          rw [← List.append_assoc]
          exact q.fifo.append_right [a] }
  else none

/-- Deliver the first entry. -/
def tryPop : BoundedQueue α capacity → Option (α × BoundedQueue α capacity)
  | ⟨[], _, _, _, _⟩ => none
  | ⟨a :: rest, entered, delivered, bounded, fifo⟩ =>
      some (a, ⟨rest, entered, delivered ++ [a], Nat.le_of_succ_le bounded, by simpa using fifo⟩)

/-- Take the first entry away. -/
def discard : BoundedQueue α capacity → Option (BoundedQueue α capacity)
  | ⟨[], _, _, _, _⟩ => none
  | ⟨a :: rest, entered, delivered, bounded, fifo⟩ =>
      some ⟨rest, entered, delivered, Nat.le_of_succ_le bounded,
        ((List.sublist_cons_self a rest).append_left delivered).trans fifo⟩

theorem tryPush_cases (q : BoundedQueue α capacity) (a : α) :
    (capacity ≤ q.waiting.length ∧ q.tryPush a = none) ∨
    ∃ pushed : BoundedQueue α capacity, q.waiting.length < capacity ∧ q.tryPush a = some pushed ∧
      pushed.waiting = q.waiting ++ [a] ∧ pushed.entered = q.entered ++ [a] ∧
      pushed.delivered = q.delivered := by
  unfold tryPush
  by_cases h : q.waiting.length < capacity
  · exact .inr ⟨_, h, dif_pos h, rfl, rfl, rfl⟩
  · exact .inl ⟨Nat.not_lt.mp h, dif_neg h⟩

theorem tryPop_cases (q : BoundedQueue α capacity) :
    (q.waiting = [] ∧ q.tryPop = none) ∨
    ∃ a, ∃ popped : BoundedQueue α capacity, q.waiting = a :: popped.waiting ∧
      q.tryPop = some (a, popped) ∧ popped.entered = q.entered ∧
      popped.delivered = q.delivered ++ [a] := by
  obtain ⟨waiting, entered, delivered, bounded, fifo⟩ := q
  cases waiting with
  | nil => exact .inl ⟨rfl, rfl⟩
  | cons a rest => exact .inr ⟨a, _, rfl, rfl, rfl, rfl⟩

theorem discard_cases (q : BoundedQueue α capacity) :
    (q.waiting = [] ∧ q.discard = none) ∨
    ∃ a, ∃ shorter : BoundedQueue α capacity, q.waiting = a :: shorter.waiting ∧
      q.discard = some shorter ∧ shorter.entered = q.entered ∧
      shorter.delivered = q.delivered := by
  obtain ⟨waiting, entered, delivered, bounded, fifo⟩ := q
  cases waiting with
  | nil => exact .inl ⟨rfl, rfl⟩
  | cons a rest => exact .inr ⟨a, _, rfl, rfl, rfl, rfl⟩

end BoundedQueue
