import Ebus.Platform.VirtualLine

/-!
# What the participants of the wire hear

All participants hear the same bytes in the same order: what one has read and can still read is
what was written since its queue was put in place. And a `write` that finds a queue without
room never returns: its push waits with the lock that the reader of this queue would need.
-/

namespace Ebus

namespace VirtualLine

variable {κ : Type*} [DecidableEq κ]

/-- What the `write` under way has already put into the queue of a participant. -/
def ahead (s : VirtualLine κ) (key : κ) : List UInt8 :=
  match s.writing with
  | none => []
  | some (byte, todo) => if key ∈ todo then [] else [byte]

structure Kept (s : VirtualLine κ) : Prop where
  heard : ∀ key ∈ s.attached, s.heard key = s.log.drop (s.joined key) ++ s.ahead key
  joined_le : ∀ key ∈ s.attached, s.joined key ≤ s.log.length
  todo : ∀ byte todo, s.writing = some (byte, todo) → todo.Nodup

theorem ahead_of_free {s : VirtualLine κ} (h : s.writing = none) (key : κ) : s.ahead key = [] := by
  unfold ahead
  rw [h]

theorem Kept.attach {s : VirtualLine κ} (h : s.Kept) (hfree : s.writing = none) (key : κ) :
    (s.attach key).Kept where
  heard := by
    intro other hother
    have hahead : (s.attach key).ahead other = [] := ahead_of_free hfree other
    rw [hahead, List.append_nil]
    by_cases heq : other = key
    · subst heq
      simp [VirtualLine.heard, VirtualLine.attach, BoundedQueue.empty]
    · have hold := h.heard other ((List.mem_insert_iff.mp hother).resolve_left heq)
      rw [ahead_of_free hfree, List.append_nil] at hold
      simpa [VirtualLine.heard, VirtualLine.attach, heq] using hold
  joined_le := by
    intro other hother
    by_cases heq : other = key
    · subst heq
      simp [VirtualLine.attach]
    · have hold := h.joined_le other ((List.mem_insert_iff.mp hother).resolve_left heq)
      simpa [VirtualLine.attach, heq] using hold
  todo := fun byte todo hw => absurd (hfree.symm.trans hw) (Option.some_ne_none _).symm

theorem Kept.detach {s : VirtualLine κ} (h : s.Kept) (key : κ) : (s.detach key).Kept where
  heard := fun other hother => h.heard other (List.mem_of_mem_erase hother)
  joined_le := fun other hother => h.joined_le other (List.mem_of_mem_erase hother)
  todo := h.todo

theorem Kept.write {s : VirtualLine κ} (h : s.Kept) (hfree : s.writing = none) (byte : UInt8) :
    (s.write byte).Kept where
  heard := by
    intro key hkey
    have hold := h.heard key hkey
    rw [ahead_of_free hfree] at hold
    have hahead : (s.write byte).ahead key = [] := if_pos hkey
    rw [hahead]
    exact hold
  joined_le := h.joined_le
  todo := by
    intro byte' todo hw
    obtain ⟨-, rfl⟩ := Prod.mk.inj (Option.some.inj hw)
    exact s.nodup

theorem Kept.pushNext {s : VirtualLine κ} (h : s.Kept) : s.pushNext.Kept := by
  unfold VirtualLine.pushNext
  split
  case h_1 => exact h
  case h_2 byte hw =>
    refine ⟨fun key hkey => ?_, fun key hkey => ?_, fun _ _ hw' => by cases hw'⟩
    · have hold := h.heard key hkey
      have hahead : s.ahead key = [byte] := by
        unfold ahead
        rw [hw]
        exact if_neg (List.not_mem_nil)
      rw [hahead] at hold
      show s.heard key = (s.log ++ [byte]).drop (s.joined key) ++ []
      rw [List.append_nil, List.drop_append_of_le_length (h.joined_le key hkey)]
      exact hold
    · show s.joined key ≤ (s.log ++ [byte]).length
      rw [List.length_append]
      exact Nat.le_trans (h.joined_le key hkey) (Nat.le_add_right _ _)
  case h_3 byte key rest hw =>
    have hnodup := List.nodup_cons.mp (h.todo byte _ hw)
    obtain ⟨-, hnone⟩ | ⟨pushed, -, hsome, hwaiting, -, hdelivered⟩ :=
      (s.queue key).tryPush_cases byte
    · simp only [hnone]
      exact h
    · simp only [hsome]
      refine ⟨fun other hother => ?_, h.joined_le, ?_⟩
      · have hold := h.heard other hother
        unfold VirtualLine.heard ahead at hold ⊢
        rw [hw] at hold
        by_cases heq : other = key
        · subst heq
          simp only [List.mem_cons_self, if_true, List.append_nil] at hold
          simp only [Function.update_self, hwaiting, hdelivered, hnodup.1, if_false, ← hold,
            List.append_assoc]
        · simpa [heq] using hold
      · intro byte' todo hw'
        obtain ⟨-, rfl⟩ := Prod.mk.inj (Option.some.inj hw')
        exact hnodup.2

theorem heard_read (s : VirtualLine κ) (key other : κ) :
    (s.read key).heard other = s.heard other := by
  unfold read
  split
  case isFalse => rfl
  case isTrue =>
    obtain ⟨-, hnone⟩ | ⟨byte, popped, hwaiting, hsome, -, hdelivered⟩ :=
      (s.queue key).tryPop_cases
    · rw [hnone]
    · rw [hsome]
      by_cases heq : other = key
      · subst heq
        simp [heard, hwaiting, hdelivered]
      · simp [heard, heq]

theorem read_frame (s : VirtualLine κ) (key : κ) :
    (s.read key).attached = s.attached ∧ (s.read key).log = s.log ∧
    (s.read key).joined = s.joined ∧ (s.read key).writing = s.writing := by
  unfold read
  split
  case isFalse => exact ⟨rfl, rfl, rfl, rfl⟩
  case isTrue =>
    split
    · exact ⟨rfl, rfl, rfl, rfl⟩
    · exact ⟨rfl, rfl, rfl, rfl⟩

theorem Kept.read {s : VirtualLine κ} (h : s.Kept) (key : κ) : (s.read key).Kept := by
  obtain ⟨hattached, hlog, hjoined, hwriting⟩ := s.read_frame key
  refine ⟨fun other hother => ?_, fun other hother => ?_, ?_⟩
  · rw [hattached] at hother
    rw [heard_read, h.heard other hother, hlog, hjoined]
    unfold ahead
    rw [hwriting]
  · rw [hattached] at hother
    rw [hlog, hjoined]
    exact h.joined_le other hother
  · rw [hwriting]
    exact h.todo

theorem Kept.step {s : VirtualLine κ} (h : s.Kept) (action : Action κ) : (s.step action).Kept := by
  cases hw : s.writing with
  | some w =>
      by_cases hnext : action = .pushNext
      · subst hnext
        have heq : s.step .pushNext = s.pushNext := by
          unfold VirtualLine.step
          rw [hw]
        rw [heq]
        exact h.pushNext
      · rw [step_locked (by rw [hw]; rfl) hnext]
        exact h
  | none =>
      unfold VirtualLine.step
      rw [hw]
      cases action with
      | attach key => exact h.attach hw key
      | detach key => exact h.detach key
      | write byte => exact h.write hw byte
      | writeCollision byte1 byte2 => exact h.write hw _
      | read key => exact h.read key
      | shutdown => exact ⟨h.heard, h.joined_le, h.todo⟩
      | clear =>
          refine ⟨fun key _ => ?_, fun _ _ => Nat.le_refl _, h.todo⟩
          have hahead : s.clear.ahead key = [] := ahead_of_free hw key
          rw [hahead]
          show [] ++ [] = s.log.drop s.log.length ++ []
          rw [List.drop_length]
      | pushNext => exact h.pushNext

theorem kept_run (actions : List (Action κ)) : (Runs.run step create actions).Kept :=
  Runs.invariant_always (fun _ action h => h.step action)
    ⟨List.forall_mem_nil _, List.forall_mem_nil _, fun _ _ hw => by cases hw⟩ actions

/-- In every run of any number of participants, whenever no `write` is under way: what a
participant has read and can still read is what was written since its queue was put in place.
So of two participants the one that came later hears a tail of what the other one hears. -/
theorem run_heard (actions : List (Action κ)) :
    let s := Runs.run step create actions
    s.writing = none →
      (∀ key ∈ s.attached, s.heard key = s.log.drop (s.joined key)) ∧
      ∀ key ∈ s.attached, ∀ other ∈ s.attached, s.joined key ≤ s.joined other →
        s.heard other = (s.heard key).drop (s.joined other - s.joined key) := by
  intro s hfree
  have hkept : s.Kept := kept_run actions
  have hheard : ∀ key ∈ s.attached, s.heard key = s.log.drop (s.joined key) := by
    intro key hkey
    rw [hkept.heard key hkey, ahead_of_free hfree, List.append_nil]
  refine ⟨hheard, fun key hkey other hother hle => ?_⟩
  rw [hheard key hkey, hheard other hother, List.drop_drop, Nat.add_sub_cancel' hle]

/-- A participant attaches between two bytes and reads the second one. -/
theorem run_heard_late :
    let s := Runs.run step (create : VirtualLine Nat)
      [.attach 1, .write 0x10, .pushNext, .pushNext, .attach 2, .write 0x08, .pushNext, .pushNext,
        .read 1, .pushNext, .read 2]
    s.writing = none ∧ s.heard 2 = (s.heard 1).drop 1 ∧ s.heard 1 = [0x10, 0x08] :=
  ⟨by decide, (run_heard _ (by decide)).2 1 (by decide) 2 (by decide) (by decide), by decide⟩

/-- Room for one more byte. -/
def HasRoom (s : VirtualLine κ) (key : κ) : Prop := (s.queue key).waiting.length < 32

instance (s : VirtualLine κ) (key : κ) : Decidable (s.HasRoom key) :=
  inferInstanceAs (Decidable (_ < _))

/-- A push into a queue with room goes on to the next one and leaves the others alone. -/
theorem pushNext_room {s : VirtualLine κ} {byte : UInt8} {key : κ} {rest : List κ}
    (hw : s.writing = some (byte, key :: rest)) (hroom : s.HasRoom key) :
    s.pushNext.writing = some (byte, rest) ∧
    ∀ other, other ≠ key → s.pushNext.queue other = s.queue other := by
  obtain ⟨hfull, -⟩ | ⟨pushed, -, hsome, -⟩ := (s.queue key).tryPush_cases byte
  · exact absurd hroom (Nat.not_lt.mpr hfull)
  · unfold pushNext
    simp only [hw, hsome]
    exact ⟨trivial, fun other hne => Function.update_of_ne hne _ _⟩

/-- In whatever order the other threads try, a `write` whose queues have room gives the lock back
when its thread has had a turn for each of them and one more. -/
theorem exists_free {byte : UInt8} (todo : List κ) {s : VirtualLine κ}
    (hw : s.writing = some (byte, todo)) (hnodup : todo.Nodup)
    (hroom : ∀ key ∈ todo, s.HasRoom key) (actions : List (Action κ))
    (hturns : todo.length < actions.count .pushNext) :
    ∃ n, (Runs.run step s (actions.take n)).writing = none := by
  induction actions generalizing s todo with
  | nil => exact absurd hturns (Nat.not_lt_zero _)
  | cons action rest ih =>
      by_cases hnext : action = .pushNext
      · subst hnext
        rw [List.count_cons_self] at hturns
        have hstep : s.step .pushNext = s.pushNext := by
          unfold step
          rw [hw]
        cases todo with
        | nil =>
            refine ⟨1, ?_⟩
            show (s.step .pushNext).writing = none
            rw [hstep]
            unfold pushNext
            simp only [hw]
        | cons key keys =>
            obtain ⟨hfresh, hkeys⟩ := List.nodup_cons.mp hnodup
            obtain ⟨hrest, hsame⟩ := pushNext_room hw (hroom key List.mem_cons_self)
            have hroom' : ∀ other ∈ keys, (s.step .pushNext).HasRoom other := by
              intro other hother
              have hne : other ≠ key := fun heq => hfresh (heq ▸ hother)
              unfold HasRoom
              rw [hstep, hsame other hne]
              exact hroom other (List.mem_cons_of_mem _ hother)
            have hlength : keys.length < rest.count .pushNext := Nat.lt_of_succ_lt_succ hturns
            obtain ⟨n, hn⟩ := ih keys (hstep ▸ hrest) hkeys hroom' hlength
            exact ⟨n + 1, hn⟩
      · rw [List.count_cons_of_ne hnext] at hturns
        have hstep : s.step action = s := step_locked (by rw [hw]; rfl) hnext
        obtain ⟨n, hn⟩ := ih todo hw hnodup hroom hturns
        refine ⟨n + 1, ?_⟩
        show (Runs.run step (s.step action) (rest.take n)).writing = none
        rw [hstep]
        exact hn

/-- The lock is with a `write` that has yet to push into a queue without room. -/
def Stuck (s : VirtualLine κ) (key : κ) : Prop :=
  ∃ byte todo, s.writing = some (byte, todo) ∧ key ∈ todo ∧ ¬ s.HasRoom key

/-- What a thread finds that takes its turn while a `write` is stuck: it stays stuck, and nobody
reads anything. -/
theorem Stuck.step {s : VirtualLine κ} {key : κ} (h : s.Stuck key) (action : Action κ) :
    (s.step action).Stuck key ∧
    ∀ other, ((s.step action).queue other).delivered = (s.queue other).delivered := by
  obtain ⟨byte, todo, hw, hkey, hfull⟩ := h
  by_cases hnext : action = .pushNext
  · subst hnext
    have hstep : s.step .pushNext = s.pushNext := by
      unfold VirtualLine.step
      rw [hw]
    rw [hstep]
    cases todo with
    | nil => exact absurd hkey List.not_mem_nil
    | cons first rest =>
        unfold pushNext
        simp only [hw]
        obtain ⟨-, hnone⟩ | ⟨pushed, hroom, hsome, -, -, hdelivered⟩ :=
          (s.queue first).tryPush_cases byte
        · simp only [hnone]
          exact ⟨⟨byte, _, hw, hkey, hfull⟩, fun _ => trivial⟩
        · have hne : key ≠ first := fun heq => hfull (heq ▸ hroom)
          have hmem : key ∈ rest := (List.mem_cons.mp hkey).resolve_left hne
          simp only [hsome]
          refine ⟨⟨byte, rest, rfl, hmem, ?_⟩, fun other => ?_⟩
          · unfold HasRoom
            simp only [Function.update_of_ne hne]
            exact hfull
          · by_cases heq : other = first
            · subst heq
              rw [Function.update_self, hdelivered]
            · rw [Function.update_of_ne heq]
  · rw [step_locked (by rw [hw]; rfl) hnext]
    exact ⟨⟨byte, todo, hw, hkey, hfull⟩, fun _ => rfl⟩

theorem Stuck.run {s : VirtualLine κ} {key : κ} (h : s.Stuck key) (actions : List (Action κ)) :
    (Runs.run VirtualLine.step s actions).Stuck key ∧
    ∀ other, ((Runs.run VirtualLine.step s actions).queue other).delivered =
      (s.queue other).delivered := by
  induction actions generalizing s with
  | nil => exact ⟨h, fun _ => rfl⟩
  | cons action rest ih =>
      obtain ⟨hstuck, hsame⟩ := h.step action
      obtain ⟨hstuck', hsame'⟩ := ih hstuck
      exact ⟨hstuck', fun other => (hsame' other).trans (hsame other)⟩

/-- A byte is written to a wire whose lock is free. When every participant has room for it, the
lock is free again once the writer has had a turn for each participant and one more, whatever
the other threads try meanwhile. When one of them has none, the lock stays with the writer in
every run, and no participant ever reads a byte again. -/
theorem run_write (s : VirtualLine κ) (hfree : s.writing = none) (byte : UInt8)
    (actions : List (Action κ)) :
    ((∀ key ∈ s.attached, s.HasRoom key) → s.attached.length < actions.count .pushNext →
      ∃ n, (Runs.run step (s.step (.write byte)) (actions.take n)).writing = none) ∧
    ((∃ key ∈ s.attached, ¬ s.HasRoom key) →
      (Runs.run step (s.step (.write byte)) actions).writing ≠ none ∧
      ∀ other, ((Runs.run step (s.step (.write byte)) actions).queue other).delivered =
        (s.queue other).delivered) := by
  have hstep : s.step (.write byte) = s.write byte := by
    unfold step
    rw [hfree]
  rw [hstep]
  constructor
  · intro hroom hturns
    exact exists_free (s := s.write byte) s.attached rfl s.nodup hroom actions hturns
  · rintro ⟨key, hkey, hfull⟩
    have hstuck : (s.write byte).Stuck key := ⟨byte, s.attached, rfl, hkey, hfull⟩
    obtain ⟨⟨byte', todo, hw, -⟩, hsame⟩ := hstuck.run actions
    refine ⟨?_, hsame⟩
    rw [hw]
    exact Option.some_ne_none _

/-- A participant that does not read: 32 bytes fit into its queue, the next one stops the wire. -/
theorem run_write_unread :
    let s := Runs.run step (create : VirtualLine Nat)
      (.attach 1 :: (List.replicate 32 [.write 0xaa, .pushNext, .pushNext]).flatten)
    s.writing = none ∧ ¬ s.HasRoom 1 ∧
      (Runs.run step (s.step (.write 0x10))
        [.read 1, .pushNext, .clear, .detach 1, .pushNext, .read 1]).writing ≠ none :=
  ⟨by decide +kernel, by decide +kernel,
    ((run_write _ (by decide +kernel) 0x10 _).2 ⟨1, by decide +kernel⟩).1⟩

end VirtualLine

end Ebus
