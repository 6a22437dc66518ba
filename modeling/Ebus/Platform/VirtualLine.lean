import Ebus.Lib.BoundedQueue
import Ebus.Lib.Run
import Mathlib.Data.List.Nodup
import Mathlib.Logic.Function.Basic

/-!
# The wire of the simulation

Every participant has a queue of its own; a byte on the wire is pushed into each of them. All
operations take the lock of the wire, so each of them is one step, except `write`: a push into
a queue without room waits, and it waits with the lock. Its pushes are steps of their own.

A read that finds no byte gives up at once; in the source it waits for a few milliseconds with
the lock given back. `log` and `joined` are records that no function of the model reads.
-/

namespace Ebus

structure VirtualLine (κ : Type*) where
  attached : List κ := []
  queue : κ → BoundedQueue UInt8 32 := fun _ => .empty
  isShutdown : Bool := false
  /-- the `write` that has the lock: its byte and the participants it has yet to push to -/
  writing : Option (UInt8 × List κ) := none
  /-- the bytes written so far -/
  log : List UInt8 := []
  /-- how many there were when a participant's queue was put in place -/
  joined : κ → Nat := fun _ => 0
  nodup : attached.Nodup

namespace VirtualLine

variable {κ : Type*}

def create : VirtualLine κ := { nodup := List.nodup_nil }

variable [DecidableEq κ]

def attach (s : VirtualLine κ) (key : κ) : VirtualLine κ :=
  { s with attached := s.attached.insert key
           queue := Function.update s.queue key .empty
           joined := Function.update s.joined key s.log.length
           nodup := s.nodup.insert }

def detach (s : VirtualLine κ) (key : κ) : VirtualLine κ :=
  { s with attached := s.attached.erase key, nodup := s.nodup.erase key }

def write (s : VirtualLine κ) (byte : UInt8) : VirtualLine κ :=
  { s with writing := some (byte, s.attached) }

/-- The bus is active-low: of two bytes at once every bit is the lower one. -/
def writeCollision (s : VirtualLine κ) (byte1 byte2 : UInt8) : VirtualLine κ :=
  s.write (byte1 &&& byte2)

/-- The next push of the `write` that has the lock. Behind the last one it gives the lock back. -/
def pushNext (s : VirtualLine κ) : VirtualLine κ :=
  match s.writing with
  | none => s
  | some (byte, []) => { s with writing := none, log := s.log ++ [byte] }
  | some (byte, key :: rest) =>
      match (s.queue key).tryPush byte with
      | some queue =>
          { s with queue := Function.update s.queue key queue, writing := some (byte, rest) }
      | none => s

def read (s : VirtualLine κ) (key : κ) : VirtualLine κ :=
  if key ∈ s.attached ∧ s.isShutdown = false then
    match (s.queue key).tryPop with
    | some (_, queue) => { s with queue := Function.update s.queue key queue }
    | none => s
  else s

def shutdown (s : VirtualLine κ) : VirtualLine κ := { s with isShutdown := true }

def clear (s : VirtualLine κ) : VirtualLine κ :=
  { s with queue := fun _ => .empty, joined := fun _ => s.log.length }

inductive Action (κ : Type*) where
  | attach (key : κ)
  | detach (key : κ)
  | write (byte : UInt8)
  | writeCollision (byte1 byte2 : UInt8)
  | read (key : κ)
  | shutdown
  | clear
  /-- the thread with the lock goes on -/
  | pushNext
  deriving DecidableEq, Repr

/-- While one thread has the lock, the calls of the others wait for it. -/
def step (s : VirtualLine κ) (action : Action κ) : VirtualLine κ :=
  match s.writing, action with
  | _, .pushNext => s.pushNext
  | some _, _ => s
  | none, .attach key => s.attach key
  | none, .detach key => s.detach key
  | none, .write byte => s.write byte
  | none, .writeCollision byte1 byte2 => s.writeCollision byte1 byte2
  | none, .read key => s.read key
  | none, .shutdown => s.shutdown
  | none, .clear => s.clear

/-- What a participant has read since its queue was put in place, and what it can still read. -/
def heard (s : VirtualLine κ) (key : κ) : List UInt8 :=
  (s.queue key).delivered ++ (s.queue key).waiting

theorem step_locked {s : VirtualLine κ} {action : Action κ} (h : s.writing.isSome = true)
    (hnext : action ≠ .pushNext) : s.step action = s := by
  obtain ⟨w, hw⟩ := Option.isSome_iff_exists.mp h
  unfold step
  rw [hw]
  cases action with
  | pushNext => exact absurd rfl hnext
  | _ => rfl

end VirtualLine

end Ebus
