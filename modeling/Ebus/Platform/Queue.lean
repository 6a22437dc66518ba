import Ebus.Lib.BoundedQueue
import Ebus.Lib.Circular
import Ebus.Lib.Condition
import Ebus.Lib.Run

/-!
# The blocking queue of the threads

`QueuePosix` is a ring of `capacity` cells behind a mutex, with one condition variable for the
consumers and one for the producers. What a call does between taking the lock and giving it
back is one step; a call that waits gives the lock back too, and goes on with a step of its own.
Notifications that the source makes after leaving the lock are steps of their own.

Every ring carries the proof that its tail is where its entries end. `Shared` adds what has been
put in and what consumers have been given; no function of the model reads these two. What a call
answers is left out, as is the move of a queue.
-/

namespace Ebus

structure QueuePosix (α : Type*) (capacity : Nat) where
  buffer : Nat → α
  head : Nat
  tail : Nat
  size : Nat
  shutdown : Bool
  bounded : size ≤ capacity
  behind : tail = (head + size) % capacity

namespace QueuePosix

variable {α : Type*} {capacity : Nat}

/-- The constructor; it throws for a capacity of 0. -/
def create [Inhabited α] (capacity : Nat) : Option (QueuePosix α capacity) :=
  if capacity = 0 then none
  else some
    { buffer := fun _ => default, head := 0, tail := 0, size := 0, shutdown := false
      bounded := Nat.zero_le _
      behind := (Nat.zero_mod _).symm }

/-- The three statements that store an entry. -/
def put (q : QueuePosix α capacity) (item : α) (h : q.size < capacity) :
    QueuePosix α capacity where
  buffer := Function.update q.buffer q.tail item
  head := q.head
  tail := (q.tail + 1) % capacity
  size := q.size + 1
  shutdown := q.shutdown
  bounded := h
  behind := by rw [q.behind, Nat.mod_add_mod, Nat.add_assoc]

/-- The two statements that move the head behind the first entry. -/
def advance (q : QueuePosix α capacity) (h : 0 < q.size) : QueuePosix α capacity where
  buffer := q.buffer
  head := (q.head + 1) % capacity
  tail := q.tail
  size := q.size - 1
  shutdown := q.shutdown
  bounded := (Nat.sub_le _ _).trans q.bounded
  behind := by rw [q.behind, Nat.mod_add_mod, Nat.add_assoc, Nat.add_sub_cancel' h]

/-- The loop of `discard`, with the number of rounds it has made. -/
def discardLoop : Nat → QueuePosix α capacity → QueuePosix α capacity × Nat
  | 0, q => (q, 0)
  | count + 1, q =>
      if h : 0 < q.size ∧ q.shutdown = false then
        let rest := discardLoop count (q.advance h.1)
        (rest.1, rest.2 + 1)
      else (q, 0)

def clear (q : QueuePosix α capacity) : QueuePosix α capacity :=
  { q with head := 0, tail := 0, size := 0, bounded := Nat.zero_le _
           behind := (Nat.zero_mod _).symm }

/-- The entries, first in first. -/
def view (q : QueuePosix α capacity) : List α :=
  Circular.contents q.buffer capacity q.head q.size

@[simp] theorem length_view (q : QueuePosix α capacity) : q.view.length = q.size :=
  Circular.length_contents ..

@[simp] theorem view_clear (q : QueuePosix α capacity) : q.clear.view = [] := rfl

@[simp] theorem view_shutdown (q : QueuePosix α capacity) (shutdown : Bool) :
    { q with shutdown }.view = q.view := rfl

@[simp] theorem view_put (q : QueuePosix α capacity) (item : α) (h : q.size < capacity) :
    (q.put item h).view = q.view ++ [item] := by
  show Circular.contents (Function.update q.buffer q.tail item) capacity q.head (q.size + 1) = _
  rw [q.behind]
  exact Circular.contents_push item h

theorem view_advance (q : QueuePosix α capacity) (h : 0 < q.size) :
    (q.advance h).view = q.view.drop 1 := Circular.contents_drop 1

/-- The cell at the head holds the first entry. -/
theorem view_eq_cons (q : QueuePosix α capacity) (h : 0 < q.size) :
    q.view = q.buffer (q.head % capacity) :: (q.advance h).view := by
  have hfirst : q.view[0]? = some (q.buffer (q.head % capacity)) := by
    simp [view, Circular.contents, h]
  rw [view_advance]
  cases hview : q.view with
  | nil => rw [hview] at hfirst; cases hfirst
  | cons a rest =>
      rw [hview] at hfirst
      rw [← Option.some.inj hfirst]
      rfl

theorem discardLoop_spec (count : Nat) (q : QueuePosix α capacity) :
    (discardLoop count q).1.shutdown = q.shutdown ∧
    (discardLoop count q).1.view = q.view.drop (discardLoop count q).2 := by
  induction count generalizing q with
  | zero => exact ⟨rfl, rfl⟩
  | succ count ih =>
      unfold discardLoop
      split
      case isTrue h =>
        obtain ⟨hshutdown, hview⟩ := ih (q.advance h.1)
        refine ⟨hshutdown, ?_⟩
        show (discardLoop count (q.advance h.1)).1.view = _
        rw [hview, view_advance, List.drop_drop, Nat.add_comm]
      case isFalse => exact ⟨rfl, rfl⟩

end QueuePosix

/-- A queue with the calls that wait in it: consumers and producers, each with whether it has a
timeout, producers with their entry. -/
structure Shared (α : Type*) (capacity : Nat) where
  queue : QueuePosix α capacity
  notEmpty : Condition Bool := {}
  notFull : Condition (α × Bool) := {}
  entered : List α := []
  delivered : List α := []

namespace Shared

variable {α : Type*} {capacity : Nat}

/-- Store an entry; a consumer is to be notified. -/
def store (s : Shared α capacity) (item : α) (h : s.queue.size < capacity) :
    Shared α capacity :=
  { s with queue := s.queue.put item h
           notEmpty := s.notEmpty.willNotifyOne
           entered := s.entered ++ [item] }

/-- Hand the first entry out; a producer is to be notified. -/
def fetch (s : Shared α capacity) (h : 0 < s.queue.size) : Shared α capacity :=
  { s with queue := s.queue.advance h
           notFull := s.notFull.willNotifyOne
           delivered := s.delivered ++ [s.queue.buffer (s.queue.head % capacity)] }

/-- A producer looks whether it may go on: at first, and whenever it has the lock again. -/
def awaitNotFull (s : Shared α capacity) (item : α) (timed timedOut : Bool) :
    Shared α capacity :=
  if s.queue.shutdown then s
  else if h : s.queue.size < capacity then s.store item h
  else if timed && timedOut then s
  else { s with notFull := s.notFull.sleep (item, timed) }

/-- A consumer does so. Entries are still handed out after a shutdown. -/
def awaitNotEmpty (s : Shared α capacity) (timed timedOut : Bool) : Shared α capacity :=
  if h : 0 < s.queue.size then s.fetch h
  else if s.queue.shutdown then s
  else if timed && timedOut then s
  else { s with notEmpty := s.notEmpty.sleep timed }

def push (s : Shared α capacity) (item : α) (timed : Bool) : Shared α capacity :=
  if s.queue.shutdown then s else s.awaitNotFull item timed false

def pop (s : Shared α capacity) (timed : Bool) : Shared α capacity :=
  if s.queue.shutdown = true ∧ s.queue.size = 0 then s else s.awaitNotEmpty timed false

def tryPush (s : Shared α capacity) (item : α) : Shared α capacity :=
  if s.queue.shutdown then s
  else if h : s.queue.size < capacity then s.store item h else s

def tryPop (s : Shared α capacity) : Shared α capacity :=
  if h : 0 < s.queue.size ∧ s.queue.shutdown = false then s.fetch h.1 else s

def discard (s : Shared α capacity) (count : Nat) : Shared α capacity :=
  let rest := s.queue.discardLoop count
  { s with queue := rest.1
           notFull := if 0 < rest.2 then s.notFull.willNotifyAll else s.notFull }

def shutdown (s : Shared α capacity) : Shared α capacity :=
  { s with queue := { s.queue with shutdown := true }
           notEmpty := s.notEmpty.willNotifyAll
           notFull := s.notFull.willNotifyAll }

/-- `clear` and `reset` notify while they have the lock. -/
def clear (s : Shared α capacity) : Shared α capacity :=
  { s with queue := s.queue.clear, notFull := s.notFull.wakeAll }

def reset (s : Shared α capacity) : Shared α capacity :=
  { s with queue := { s.queue.clear with shutdown := false }, notFull := s.notFull.wakeAll }

inductive Action (α : Type*) where
  | push (item : α) (timed : Bool)
  | pop (timed : Bool)
  | tryPush (item : α)
  | tryPop
  | discard (count : Nat)
  | shutdown
  | clear
  | reset
  /-- notifications of the consumers and of the producers -/
  | notifyConsumer (choice : Nat)
  | notifyConsumers
  | notifyProducer (choice : Nat)
  | notifyProducers
  /-- a waiting call has the lock again -/
  | consumer (notified : Bool) (i : Nat) (timedOut : Bool)
  | producer (notified : Bool) (i : Nat) (timedOut : Bool)
  deriving DecidableEq, Repr

def step (s : Shared α capacity) : Action α → Shared α capacity
  | .push item timed => s.push item timed
  | .pop timed => s.pop timed
  | .tryPush item => s.tryPush item
  | .tryPop => s.tryPop
  | .discard count => s.discard count
  | .shutdown => s.shutdown
  | .clear => s.clear
  | .reset => s.reset
  | .notifyConsumer choice => { s with notEmpty := s.notEmpty.notifyOne choice }
  | .notifyConsumers => { s with notEmpty := s.notEmpty.notifyAll }
  | .notifyProducer choice => { s with notFull := s.notFull.notifyOne choice }
  | .notifyProducers => { s with notFull := s.notFull.notifyAll }
  | .consumer notified i timedOut =>
      match s.notEmpty.resume notified i with
      | some (timed, notEmpty) => { s with notEmpty }.awaitNotEmpty timed timedOut
      | none => s
  | .producer notified i timedOut =>
      match s.notFull.resume notified i with
      | some ((item, timed), notFull) => { s with notFull }.awaitNotFull item timed timedOut
      | none => s

end Shared

end Ebus
