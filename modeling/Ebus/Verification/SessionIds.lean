import Ebus.Lib.Run
import Ebus.App.Schedule

/-!
# Session ids

The session id is the answer of `enqueue`, with zero for a refused message, and the key
by which events find their session. It comes from a counter of 32 bits that advances
also for refused messages and is not compared with the ids in use. Ids stay distinct
and different from zero as long as the counter does not come round to zero or to the id
of an item that is still there when a message is taken into the queue.
-/

namespace Ebus

namespace Schedule

/-- The ids of all items are different from each other and from zero, and the answer of
a call is zero exactly when its item was not queued. -/
structure UniqueIds (d : Schedule) : Prop where
  distinct : (d.items.map Item.sessionId).Nodup
  positive : 0 ∉ d.items.map Item.sessionId
  answers : ∀ answer ∈ d.answers, answer.sessionId = 0 ↔ answer.queued = false

/-- The next id can be given to an item. -/
def IdFree (d : Schedule) : Prop :=
  d.scheduler.nextSessionId ≠ 0 ∧ d.scheduler.nextSessionId ∉ d.items.map Item.sessionId

instance (d : Schedule) : Decidable d.IdFree := inferInstanceAs (Decidable (_ ∧ _))

/-- A message that finds room in the queue finds a free id as well. -/
def TakesFreeId (d : Schedule) : Action → Prop
  | .enqueue _ _ _ _ | .enqueueAt _ _ _ _ =>
      d.scheduler.scheduledItems.length < SchedulerLimits.maxItems → d.IdFree
  | _ => True

instance (d : Schedule) : (action : Action) → Decidable (TakesFreeId d action)
  | .enqueue _ _ _ _ | .enqueueAt _ _ _ _ => inferInstanceAs (Decidable (_ → _))
  | .tick _ _ | .injectProtocolEvent _ _ | .clear | .stop => .isTrue trivial

theorem ids_eq (d : Schedule) : d.items.map Item.sessionId = d.names.map Prod.snd := by
  rw [names, List.map_map]
  rfl

/-- Items that move or go away keep the ids apart. -/
theorem UniqueIds.of_subperm {d d' : Schedule} (hi : UniqueIds d)
    (hsub : d'.names.Subperm d.names) (hanswers : d'.answers = d.answers) : UniqueIds d' where
  distinct := by
    rw [ids_eq]
    exact nodup_of_subperm hsub (d.ids_eq ▸ hi.distinct)
  positive := by
    intro hmem
    rw [ids_eq] at hmem
    obtain ⟨n, hn, hzero⟩ := List.mem_map.mp hmem
    exact hi.positive (d.ids_eq ▸ List.mem_map.mpr ⟨n, hsub.subset hn, hzero⟩)
  answers := hanswers ▸ hi.answers

/-- A taken message keeps the ids apart exactly when its id is free. -/
theorem uniqueIds_enqueueAt_iff {d : Schedule} (hn : Numbered d) (hi : UniqueIds d)
    (priority : UInt8) (message : List UInt8) (due : Int) (pollId : UInt16) :
    UniqueIds (d.answered (d.scheduler.enqueueAt priority message due pollId)) ↔
      (d.scheduler.scheduledItems.length < SchedulerLimits.maxItems → d.IdFree) := by
  obtain ⟨hfull, heq⟩ | ⟨hroom, heq⟩ :=
    d.answered_cases priority message due pollId hn.issued
  · rw [heq]
    refine ⟨fun _ hlt => absurd hlt (Nat.not_lt.mpr hfull), fun _ => ⟨hi.distinct, hi.positive, ?_⟩⟩
    intro answer hmem
    obtain hold | hnew := List.mem_append.mp hmem
    · exact hi.answers answer hold
    · simp [List.mem_singleton.mp hnew]
  · rw [heq]
    have hperm : (Schedule.items
        { d with
          scheduler := { d.scheduler with
            nextSessionId := d.scheduler.nextSessionId + 1
            tickets := d.scheduler.tickets + 1
            scheduledItems := d.scheduler.scheduledItems ++ [d.made priority message due pollId] }
          answers := d.answers ++
            [{ sessionId := d.scheduler.nextSessionId, queued := true }] }
        |>.map Item.sessionId).Perm
          (d.scheduler.nextSessionId :: d.items.map Item.sessionId) := by
      simp only [items, List.map_append, List.map_cons, List.append_assoc, List.map_nil, made]
      exact List.perm_middle
    constructor
    · rintro ⟨hdistinct, hpositive, -⟩ -
      have hnew := List.nodup_cons.mp (hperm.nodup_iff.mp hdistinct)
      refine ⟨?_, hnew.1⟩
      intro hzero
      exact hpositive (hperm.mem_iff.mpr (hzero ▸ List.mem_cons_self ..))
    · intro hfree
      obtain ⟨hne, hout⟩ := hfree hroom
      refine ⟨hperm.nodup_iff.mpr (List.nodup_cons.mpr ⟨hout, hi.distinct⟩), ?_, ?_⟩
      · intro hmem
        obtain hzero | hold := List.mem_cons.mp (hperm.mem_iff.mp hmem)
        · exact hne hzero.symm
        · exact hi.positive hold
      · intro answer hmem
        obtain hold | hnew := List.mem_append.mp hmem
        · exact hi.answers answer hold
        · simpa [List.mem_singleton.mp hnew] using hne

theorem step_uniqueIds_iff {d : Schedule} (hn : Numbered d) (hi : UniqueIds d)
    (action : Action) : UniqueIds (step d action) ↔ TakesFreeId d action := by
  cases action with
  | enqueue priority message now pollId =>
      exact uniqueIds_enqueueAt_iff hn hi priority message now pollId
  | enqueueAt priority message due pollId =>
      exact uniqueIds_enqueueAt_iff hn hi priority message due pollId
  | tick handler now =>
      refine iff_of_true (hi.of_subperm (d.names_tick handler now).subperm ?_) trivial
      obtain heq | ⟨top, others, -, -, -, heq⟩ := d.tick_cases handler now <;> simp [step, heq]
  | injectProtocolEvent event now =>
      exact iff_of_true (hi.of_subperm (d.names_injectProtocolEvent event now) rfl) trivial
  | clear => exact iff_of_true (hi.of_subperm List.nil_subperm rfl) trivial
  | stop => exact iff_of_true (hi.of_subperm List.nil_subperm rfl) trivial

/-- The ids are unique throughout a run exactly when each message that is taken into the
queue gets a free id. -/
theorem run_uniqueIds_iff (maxAttempts : UInt8) (baseBackoff totalTimeout : Int)
    (actions : List Action) :
    (∀ n, UniqueIds
      (Runs.run step (create maxAttempts baseBackoff totalTimeout) (actions.take n))) ↔
    Runs.Meets step TakesFreeId (create maxAttempts baseBackoff totalTimeout) actions := by
  have hnumbered (n : Nat) : Numbered
      (Runs.run step (create maxAttempts baseBackoff totalTimeout) (actions.take n)) :=
    Runs.invariant_always (fun _ action hi => hi.step action)
      (Numbered.create maxAttempts baseBackoff totalTimeout) _
  have hstart : Numbered (create maxAttempts baseBackoff totalTimeout) ∧
      UniqueIds (create maxAttempts baseBackoff totalTimeout) :=
    ⟨Numbered.create .., by constructor <;> simp [create, items]⟩
  have hkept (d : Schedule) (action : Action) (hi : Numbered d ∧ UniqueIds d)
      (hok : TakesFreeId d action) : Numbered (step d action) ∧ UniqueIds (step d action) :=
    ⟨hi.1.step action, (step_uniqueIds_iff hi.1 hi.2 action).mpr hok⟩
  have hbroken (d : Schedule) (action : Action) (hi : Numbered d ∧ UniqueIds d)
      (hnot : ¬ TakesFreeId d action) :
      ¬ (Numbered (step d action) ∧ UniqueIds (step d action)) := fun h =>
    hnot ((step_uniqueIds_iff hi.1 hi.2 action).mp h.2)
  have hrun := Runs.invariant_iff_meets hkept hbroken hstart actions
  rw [← hrun]
  exact forall_congr' fun n => (and_iff_right (hnumbered n)).symm

/-- At a full queue each call only advances the counter. -/
theorem run_refused (d : Schedule) (priority : UInt8) (message : List UInt8) (now : Int)
    (pollId : UInt16) (full : SchedulerLimits.maxItems ≤ d.scheduler.scheduledItems.length)
    (n : Nat) :
    (Runs.run step d (List.replicate n (.enqueue priority message now pollId))).scheduler =
      { d.scheduler with nextSessionId := d.scheduler.nextSessionId + UInt32.ofNat n
                         tickets := d.scheduler.tickets + n } := by
  induction n generalizing d with
  | zero => simp
  | succ n ih =>
      have hstep : (step d (.enqueue priority message now pollId)).scheduler =
          { d.scheduler with nextSessionId := d.scheduler.nextSessionId + 1
                             tickets := d.scheduler.tickets + 1 } := by
        obtain ⟨-, heq⟩ | ⟨hroom, -⟩ :=
          d.scheduler.enqueueAt_cases priority message now pollId
        · simp [step, Scheduler.enqueue, answered, heq]
        · exact absurd hroom (Nat.not_lt.mpr full)
      rw [List.replicate_succ, Runs.run_cons, ih _ (by rw [hstep]; exact full), hstep]
      simp only [Scheduler.mk.injEq, true_and]
      constructor
      · rw [UInt32.ofNat_add, UInt32.add_assoc, UInt32.add_comm 1]
        rfl
      · omega

/-- Eight messages fill the queue, as many are refused as bring the counter to zero, and
the next one is taken after the first has been started. -/
def counterWrapped : List Action :=
  List.replicate 8 (.enqueue 1 [0xfe, 0x07, 0x04, 0x00] 0 0) ++
    List.replicate 4294967287 (.enqueue 1 [0xfe, 0x07, 0x04, 0x00] 0 0) ++
    [.tick (Handler.create 0xff {}) 0, .enqueue 1 [0xfe, 0x07, 0x04, 0x00] 0 0]

/-- The scheduler before the last two steps. -/
def beforeWrap : Scheduler :=
  { (Runs.run step (create 3 100000 2000000)
      (List.replicate 8 (.enqueue 1 [0xfe, 0x07, 0x04, 0x00] 0 0))).scheduler with
    nextSessionId := 0, tickets := 4294967295 }

/-- A message waits in the queue under the id zero, which its caller got as a refusal. -/
theorem counterWrapped_zero :
    0 ∈ (Runs.run step (create 3 100000 2000000) counterWrapped).items.map
      Item.sessionId ∧
    { sessionId := 0, queued := true } ∈
      (Runs.run step (create 3 100000 2000000) counterWrapped).answers ∧
    ¬ UniqueIds (Runs.run step (create 3 100000 2000000) counterWrapped) := by
  have hrefused := run_refused
    (Runs.run step (create 3 100000 2000000)
      (List.replicate 8 (.enqueue 1 [0xfe, 0x07, 0x04, 0x00] 0 0)))
    1 [0xfe, 0x07, 0x04, 0x00] 0 0 (by decide) 4294967287
  -- the last two steps do not depend on the records of the steps before
  have hlast (d : Schedule) (hd : d.scheduler = beforeWrap) :
      0 ∈ (Runs.run step d [.tick (Handler.create 0xff {}) 0,
        .enqueue 1 [0xfe, 0x07, 0x04, 0x00] 0 0]).items.map Item.sessionId ∧
      { sessionId := 0, queued := true } ∈ (Runs.run step d
        [.tick (Handler.create 0xff {}) 0, .enqueue 1 [0xfe, 0x07, 0x04, 0x00] 0 0]).answers := by
    obtain ⟨s, answers, starts⟩ := d
    obtain rfl : s = beforeWrap := hd
    refine ⟨?_, List.mem_append_right _ ?_⟩
    · change 0 ∈ (Runs.run step { scheduler := beforeWrap } [.tick (Handler.create 0xff {}) 0,
        .enqueue 1 [0xfe, 0x07, 0x04, 0x00] 0 0]).items.map Item.sessionId
      decide
    · change { sessionId := 0, queued := true } ∈
        (Runs.run step { scheduler := beforeWrap } [.tick (Handler.create 0xff {}) 0,
          .enqueue 1 [0xfe, 0x07, 0x04, 0x00] 0 0]).answers
      decide +kernel
  have hbefore := hlast _ (hrefused.trans (by decide))
  rw [counterWrapped, Runs.run_append, Runs.run_append]
  exact ⟨hbefore.1, hbefore.2, fun h => h.positive hbefore.1⟩

end Schedule

end Ebus
