import Mathlib.Data.Finset.Fold
import Mathlib.Data.Fintype.Basic
import Mathlib.Logic.Function.Basic

/-!
# Threads on a shared state

Finitely many threads, each at a place of its program, move one at a time. A move changes the
shared state and the place of the thread that makes it.

What the shared state holds and what the threads still carry are combined by one operation into
the balance. A move that trades between the two leaves the balance as it is, one that brings
something new adds just that; when nobody carries anything, the shared state holds the balance.
-/

structure Threads (ι σ π : Type*) where
  shared : σ
  place : ι → π

namespace Threads

variable {ι σ π α : Type*}

def move [DecidableEq ι] (s : Threads ι σ π) (i : ι) (after : σ × π) : Threads ι σ π :=
  ⟨after.1, Function.update s.place i after.2⟩

section

variable [DecidableEq ι] (s : Threads ι σ π) (i : ι) (after : σ × π)

@[simp] theorem move_shared : (s.move i after).shared = after.1 := rfl

@[simp] theorem move_place_self : (s.move i after).place i = after.2 :=
  Function.update_self ..

theorem move_place_ne {j : ι} (h : j ≠ i) : (s.move i after).place j = s.place j :=
  Function.update_of_ne h ..

/-- What holds of every thread, and is kept by the thread that moves and for the others. -/
theorem forall_move {P : σ → π → Prop} {s : Threads ι σ π} {i : ι} {after : σ × π}
    (all : ∀ j, P s.shared (s.place j)) (self : P after.1 after.2)
    (others : ∀ p, P s.shared p → P after.1 p) (j : ι) :
    P (s.move i after).shared ((s.move i after).place j) := by
  by_cases h : j = i
  · subst h
    rwa [move_shared, move_place_self]
  · rw [move_shared, move_place_ne s i after h]
    exact others _ (all j)

end

section

variable (op : α → α → α) [Std.Commutative op] [Std.Associative op]

theorem fold_op (a b : α) (f : ι → α) (t : Finset ι) :
    t.fold op (op a b) f = op a (t.fold op b f) := by
  classical
  induction t using Finset.induction_on with
  | empty => rw [Finset.fold_empty, Finset.fold_empty]
  | insert i t hi ih =>
    have hswap : op (f i) (op a (t.fold op b f)) = op a (op (f i) (t.fold op b f)) := by
      have hassoc : ∀ x y z : α, op (op x y) z = op x (op y z) := Std.Associative.assoc
      have hcomm : op (f i) a = op a (f i) := Std.Commutative.comm _ _
      rw [← hassoc, hcomm, hassoc]
    rw [Finset.fold_insert hi, Finset.fold_insert hi, ih, hswap]

theorem fold_unit {unit : α} (hunit : ∀ a, op unit a = a) (b : α) {f : ι → α} (t : Finset ι)
    (hf : ∀ i ∈ t, f i = unit) : t.fold op b f = b := by
  classical
  induction t using Finset.induction_on with
  | empty => rw [Finset.fold_empty]
  | insert i t hi ih =>
    rw [Finset.fold_insert hi, hf i (Finset.mem_insert_self i t), hunit]
    exact ih fun j hj => hf j (Finset.mem_insert_of_mem hj)

variable [Fintype ι] (held : σ → α) (carried : π → α)

def balance (s : Threads ι σ π) : α :=
  Finset.univ.fold op (held s.shared) fun i => carried (s.place i)

/-- The balance, seen from one thread. -/
theorem balance_eq [DecidableEq ι] (s : Threads ι σ π) (i : ι) :
    s.balance op held carried =
      (Finset.univ.erase i).fold op (op (carried (s.place i)) (held s.shared))
        fun j => carried (s.place j) := by
  rw [balance, ← Finset.insert_erase (Finset.mem_univ i),
    Finset.fold_insert (Finset.notMem_erase i _), fold_op,
    Finset.erase_insert (Finset.notMem_erase i _)]

variable {op held carried}

theorem balance_move_eq [DecidableEq ι] (s : Threads ι σ π) (i : ι) (after : σ × π) :
    (s.move i after).balance op held carried =
      (Finset.univ.erase i).fold op (op (carried after.2) (held after.1))
        fun j => carried (s.place j) := by
  rw [balance_eq op held carried (s.move i after) i, move_shared, move_place_self]
  refine Finset.fold_congr fun j hj => ?_
  rw [move_place_ne s i after (Finset.ne_of_mem_erase hj)]

theorem balance_move [DecidableEq ι] {s : Threads ι σ π} {i : ι} {after : σ × π}
    (h : op (carried after.2) (held after.1) = op (carried (s.place i)) (held s.shared)) :
    (s.move i after).balance op held carried = s.balance op held carried := by
  rw [balance_move_eq, balance_eq op held carried s i, h]

theorem balance_move_brings [DecidableEq ι] {s : Threads ι σ π} {i : ι} {after : σ × π} {a : α}
    (h : op (carried after.2) (held after.1) = op a (op (carried (s.place i)) (held s.shared))) :
    (s.move i after).balance op held carried = op a (s.balance op held carried) := by
  rw [balance_move_eq, balance_eq op held carried s i, h, fold_op]

theorem balance_quiet {unit : α} (hunit : ∀ a, op unit a = a) {s : Threads ι σ π}
    (quiet : ∀ i, carried (s.place i) = unit) : s.balance op held carried = held s.shared :=
  fold_unit op hunit _ _ fun i _ => quiet i

end

end Threads
