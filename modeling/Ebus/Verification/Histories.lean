import Ebus.Utils.CircularBuffer

/-!
# What a history shows

A circular buffer that is only pushed to, as the histories of the diagnostics are, shows the
entries since it was last cleared, or as many of the newest as it can hold, oldest first. Where
entries are popped too, it is still a part of them in one piece that ends with the newest.
-/

namespace Ebus

namespace CircularBuffer

variable {α : Type*} {capacity : Nat}

/-- What is there to show after one more call. -/
def record (items : List α) : Action α → List α
  | .push item => items ++ [item]
  | .tryPop => items
  | .clear => []

/-- The entries that have been pushed since the last call of `clear`. -/
def items (actions : List (Action α)) : List α := actions.foldl record []

/-- The newest entries, as many as fit. -/
def newest (capacity : Nat) (items : List α) : List α := items.drop (items.length - capacity)

theorem newest_push (items : List α) (item : α) :
    (newest capacity items ++ [item]).drop ((newest capacity items).length + 1 - capacity) =
      newest capacity (items ++ [item]) := by
  have hcut : items.length - capacity ≤ items.length := Nat.sub_le ..
  rw [newest, newest, ← List.drop_append_of_le_length hcut, List.drop_drop, List.length_append,
    List.length_singleton, List.length_drop]
  congr 1
  omega

theorem view_push_suffix {b : CircularBuffer α capacity} {items : List α} (item : α)
    (suffix : b.view <:+ items) : (b.step (.push item)).view <:+ items ++ [item] := by
  obtain ⟨before, rfl⟩ := suffix
  show (b.pushImpl item).1.view <:+ _
  rw [view_pushImpl, List.append_assoc]
  exact (List.drop_suffix _ _).trans (List.suffix_append _ _)

theorem step_suffix {b : CircularBuffer α capacity} {items : List α} (action : Action α)
    (suffix : b.view <:+ items) : (b.step action).view <:+ record items action := by
  cases action with
  | push item => exact view_push_suffix item suffix
  | tryPop =>
    rw [view_tryPop]
    exact (List.drop_suffix _ _).trans suffix
  | clear => exact List.suffix_rfl

theorem step_newest {b : CircularBuffer α capacity} {items : List α} {action : Action α}
    (hpop : action ≠ .tryPop) (shown : b.view = newest capacity items) :
    (b.step action).view = newest capacity (record items action) := by
  cases action with
  | push item =>
    show (b.pushImpl item).1.view = newest capacity (items ++ [item])
    rw [view_pushImpl, ← length_view, shown, newest_push]
  | tryPop => exact absurd rfl hpop
  | clear => exact List.drop_nil.symm

/-- In every run a circular buffer holds the last entries in order: never one that it was not
given since it was cleared, never a gap, and without pops as many as there are and fit. -/
theorem run_recent [Inhabited α] (hcapacity : 0 < capacity) (actions : List (Action α)) :
    (Runs.run step (create hcapacity) actions).view <:+ items actions ∧
    ((∀ action ∈ actions, action ≠ .tryPop) →
      (Runs.run step (create hcapacity) actions).view = newest capacity (items actions)) := by
  have hrun : ∀ (b : CircularBuffer α capacity) (known : List α), b.view <:+ known →
      (Runs.run step b actions).view <:+ actions.foldl record known ∧
      ((∀ action ∈ actions, action ≠ .tryPop) → b.view = newest capacity known →
        (Runs.run step b actions).view = newest capacity (actions.foldl record known)) := by
    induction actions with
    | nil => exact fun b known suffix => ⟨suffix, fun _ shown => shown⟩
    | cons action rest ih =>
      intro b known suffix
      obtain ⟨hsuffix, hshown⟩ := ih (b.step action) (record known action)
        (step_suffix action suffix)
      refine ⟨hsuffix, fun hpops shown => ?_⟩
      obtain ⟨hpop, hrest⟩ := List.forall_mem_cons.mp hpops
      exact hshown hrest (step_newest hpop shown)
  obtain ⟨hsuffix, hshown⟩ := hrun (create hcapacity) [] List.suffix_rfl
  exact ⟨hsuffix, fun hpops => hshown hpops List.drop_nil.symm⟩

/-- Three entries for two cells. -/
theorem run_recent_overwritten :
    (Runs.run step (create (by decide) : CircularBuffer Nat 2) [.push 1, .push 2, .push 3]).view =
      [2, 3] :=
  (run_recent (by decide) [.push 1, .push 2, .push 3]).2 (by decide)

end CircularBuffer

end Ebus
