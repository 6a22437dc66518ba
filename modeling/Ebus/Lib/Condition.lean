import Mathlib.Data.List.Basic

/-!
# Condition variables and notifications under way

The threads that wait on a condition variable, each with what it waits for, and the notifications
that other threads have yet to make because they make them after leaving the lock. A thread that
has been notified still has to take the lock again.

`Covers n` says that `n` units of what the threads wait for are not forgotten: when a thread
sleeps, as many threads or notifications are on their way as there are units.
-/

structure Condition (ω : Type*) where
  /-- wait and have not been notified -/
  sleeping : List ω := []
  /-- have been notified and want the lock -/
  woken : List ω := []
  /-- calls of `notify_one` and of `notify_all` that are still to be made -/
  ones : Nat := 0
  alls : Nat := 0
  deriving DecidableEq, Repr

namespace Condition

variable {ω : Type*}

def sleep (c : Condition ω) (w : ω) : Condition ω := { c with sleeping := c.sleeping ++ [w] }

def willNotifyOne (c : Condition ω) : Condition ω := { c with ones := c.ones + 1 }

def willNotifyAll (c : Condition ω) : Condition ω := { c with alls := c.alls + 1 }

/-- Wake one of the sleeping threads, if there is any; which one is not specified. -/
def wakeOne (c : Condition ω) (choice : Nat) : Condition ω :=
  match c.sleeping[choice % c.sleeping.length]? with
  | some w =>
      { c with sleeping := c.sleeping.eraseIdx (choice % c.sleeping.length)
               woken := c.woken ++ [w] }
  | none => c

def wakeAll (c : Condition ω) : Condition ω :=
  { c with sleeping := [], woken := c.woken ++ c.sleeping }

/-- Make a notification that is under way. -/
def notifyOne (c : Condition ω) (choice : Nat) : Condition ω :=
  if 0 < c.ones then { c.wakeOne choice with ones := c.ones - 1 } else c

def notifyAll (c : Condition ω) : Condition ω :=
  if 0 < c.alls then { c.wakeAll with alls := c.alls - 1 } else c

/-- A thread takes the lock again: one that was notified, or one whose time is up or that wakes
for no reason. -/
def resume (c : Condition ω) (notified : Bool) (i : Nat) : Option (ω × Condition ω) :=
  if notified then c.woken[i]?.map fun w => (w, { c with woken := c.woken.eraseIdx i })
  else c.sleeping[i]?.map fun w => (w, { c with sleeping := c.sleeping.eraseIdx i })

/-- Nobody and nothing is on the way. -/
def Quiet (c : Condition ω) : Prop := c.woken = [] ∧ c.ones = 0 ∧ c.alls = 0

/-- When a thread sleeps, something is on the way for each of `n` units. -/
def Covers (c : Condition ω) (n : Nat) : Prop :=
  c.sleeping = [] ∨ 0 < c.alls ∨ n ≤ c.woken.length + c.ones

/-- When a thread sleeps, all are about to be notified. -/
def Released (c : Condition ω) : Prop := c.sleeping = [] ∨ 0 < c.alls

instance (c : Condition ω) : Decidable c.Released :=
  inferInstanceAs (Decidable (c.sleeping = [] ∨ 0 < c.alls))

theorem Covers.eq_zero {c : Condition ω} {n : Nat} (h : c.Covers n) (hquiet : c.Quiet)
    (hsleeping : c.sleeping ≠ []) : n = 0 := by
  obtain ⟨hwoken, hones, halls⟩ := hquiet
  obtain hnone | hall | hn := h
  · exact absurd hnone hsleeping
  · omega
  · simpa [hwoken, hones] using hn

theorem Released.sleeping_eq {c : Condition ω} (h : c.Released) (hquiet : c.Quiet) :
    c.sleeping = [] := by
  obtain hnone | hall := h
  · exact hnone
  · exact absurd hquiet.2.2 (Nat.ne_of_gt hall)

theorem Released.covers {c : Condition ω} (h : c.Released) (n : Nat) : c.Covers n := by
  obtain hnone | hall := h
  · exact .inl hnone
  · exact .inr (.inl hall)

theorem covers_zero (c : Condition ω) : c.Covers 0 := .inr (.inr (Nat.zero_le _))

theorem Covers.mono {c : Condition ω} {n m : Nat} (h : c.Covers n) (hm : m ≤ n) : c.Covers m :=
  h.imp_right fun h => h.imp_right (Nat.le_trans hm)

/-- One more unit, and a notification for it. -/
theorem Covers.willNotifyOne {c : Condition ω} {n : Nat} (h : c.Covers n) :
    c.willNotifyOne.Covers (n + 1) := by
  refine h.imp_right fun h => h.imp_right fun h => ?_
  simp only [Condition.willNotifyOne]
  omega

theorem covers_willNotifyAll (c : Condition ω) (n : Nat) : c.willNotifyAll.Covers n :=
  .inr (.inl (Nat.succ_pos _))

theorem covers_wakeAll (c : Condition ω) (n : Nat) : c.wakeAll.Covers n := .inl rfl

/-- Waking a thread moves it; no thread is lost. -/
theorem wakeOne_cases (c : Condition ω) (choice : Nat) :
    (c.sleeping = [] ∧ c.wakeOne choice = c) ∨
    ∃ i w, c.sleeping[i]? = some w ∧
      c.wakeOne choice =
        { c with sleeping := c.sleeping.eraseIdx i, woken := c.woken ++ [w] } := by
  unfold wakeOne
  cases hget : c.sleeping[choice % c.sleeping.length]? with
  | some w => exact .inr ⟨_, w, hget, rfl⟩
  | none =>
      refine .inl ⟨?_, rfl⟩
      by_contra hne
      have hlen := List.getElem?_eq_none_iff.mp hget
      exact absurd (Nat.mod_lt choice (List.length_pos_iff.mpr hne)) (by omega)

theorem Covers.notifyOne {c : Condition ω} {n : Nat} (h : c.Covers n) (choice : Nat) :
    (c.notifyOne choice).Covers n := by
  unfold Condition.notifyOne
  split
  case isFalse => exact h
  case isTrue hones =>
    obtain ⟨hnone, heq⟩ | ⟨i, w, -, heq⟩ := c.wakeOne_cases choice
    · exact .inl (by rw [heq]; exact hnone)
    · obtain hnone | hall | hn := h
      · exact .inl (by simp [heq, hnone])
      · exact .inr (.inl (by simpa [heq] using hall))
      · refine .inr (.inr ?_)
        simp only [heq, List.length_append, List.length_singleton]
        omega

theorem Covers.notifyAll {c : Condition ω} {n : Nat} (h : c.Covers n) :
    c.notifyAll.Covers n := by
  unfold Condition.notifyAll
  split
  · exact .inl rfl
  · exact h

theorem Released.willNotifyOne {c : Condition ω} (h : c.Released) : c.willNotifyOne.Released := h

theorem released_willNotifyAll (c : Condition ω) : c.willNotifyAll.Released :=
  .inr (Nat.succ_pos _)

theorem released_wakeAll (c : Condition ω) : c.wakeAll.Released := .inl rfl

theorem Released.notifyOne {c : Condition ω} (h : c.Released) (choice : Nat) :
    (c.notifyOne choice).Released := by
  unfold Condition.notifyOne
  split
  case isFalse => exact h
  case isTrue =>
    obtain ⟨hnone, heq⟩ | ⟨i, w, -, heq⟩ := c.wakeOne_cases choice
    · exact .inl (by rw [heq]; exact hnone)
    · obtain hnone | hall := h
      · exact .inl (by simp [heq, hnone])
      · exact .inr (by simpa [heq] using hall)

theorem Released.notifyAll {c : Condition ω} (h : c.Released) : c.notifyAll.Released := by
  unfold Condition.notifyAll
  split
  · exact .inl rfl
  · exact h

/-- The thread that resumes may have been one of those on the way. -/
theorem Covers.resume {c c' : Condition ω} {n : Nat} {notified : Bool} {i : Nat} {w : ω}
    (h : c.Covers n) (hresume : c.resume notified i = some (w, c')) : c'.Covers (n - 1) := by
  unfold Condition.resume at hresume
  split at hresume
  · obtain ⟨v, hget, heq⟩ := Option.map_eq_some_iff.mp hresume
    obtain ⟨rfl, rfl⟩ := Prod.mk.inj heq
    obtain ⟨hi, -⟩ := List.getElem?_eq_some_iff.mp hget
    refine h.imp_right fun h => h.imp_right fun h => ?_
    simp only [List.length_eraseIdx_of_lt hi]
    omega
  · obtain ⟨v, -, heq⟩ := Option.map_eq_some_iff.mp hresume
    obtain ⟨rfl, rfl⟩ := Prod.mk.inj heq
    obtain hnone | hall | hn := h
    · exact .inl (by simp [hnone])
    · exact .inr (.inl hall)
    · exact .inr (.inr (Nat.le_trans (Nat.sub_le n 1) hn))

theorem Released.resume {c c' : Condition ω} {notified : Bool} {i : Nat} {w : ω}
    (h : c.Released) (hresume : c.resume notified i = some (w, c')) : c'.Released := by
  unfold Condition.resume at hresume
  split at hresume
  · obtain ⟨v, -, heq⟩ := Option.map_eq_some_iff.mp hresume
    obtain ⟨rfl, rfl⟩ := Prod.mk.inj heq
    exact h
  · obtain ⟨v, -, heq⟩ := Option.map_eq_some_iff.mp hresume
    obtain ⟨rfl, rfl⟩ := Prod.mk.inj heq
    exact h.imp_left fun hnone => by simp [hnone]

end Condition
