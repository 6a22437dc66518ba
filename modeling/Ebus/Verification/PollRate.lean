import Ebus.Verification.PollIds
import Ebus.Verification.PollOrder

/-!
# How often an item is polled

An item is handed out again when its interval has passed since the last time, whatever is added,
removed, loaded or purged in between and however often the loop is called. An item that is
registered anew counts as another one.
-/

namespace Ebus

namespace PollManager

/-- Two hand-outs of one registration are an interval apart. -/
def Apart (a b : Handout) : Prop :=
  a.item.ticket = b.item.ticket → a.reading + a.item.interval ≤ b.reading

/-- The hand-outs so far are apart, and so will be the next one of each item. -/
structure Paced (past : List Handout) (items : List PollItem) : Prop where
  apart : past.Pairwise Apart
  next : ∀ h ∈ past, ∀ item ∈ items, h.item.ticket = item.ticket →
    h.reading + h.item.interval ≤ item.nextDue

theorem Paced.subset {past : List Handout} {items items' : List PollItem} (paced : Paced past items)
    (hsubset : items' ⊆ items) : Paced past items' :=
  ⟨paced.apart, fun h hpast item hitem => paced.next h hpast item (hsubset hitem)⟩

/-- The next due time is an interval behind the callback at least. -/
theorem interval_le_rearm (item : PollItem) (now : Int) :
    now + item.interval ≤ (item.rearm now).nextDue := by
  simp only [PollItem.rearm]
  split
  · have hpos : (0 : Int) < millisecond := by decide
    omega
  · exact Int.le_refl _

/-- The item at the top is due; it is handed out and comes back later. -/
theorem Paced.handOut {past : List Handout} {items others items' : List PollItem} {top : PollItem}
    (paced : Paced past items) (honce : (items.map PollItem.ticket).Nodup) (round : Round)
    (hpop : items.Perm (top :: others)) (hdue : top.nextDue ≤ round.reading)
    (hpush : items'.Perm (top.rearm round.finished :: others)) :
    Paced (past ++ [{ item := top, reading := round.reading }]) items' := by
  have htop : top ∈ items := hpop.mem_iff.mpr List.mem_cons_self
  have hother {item : PollItem} (hitem : item ∈ others) : item ∈ items :=
    hpop.mem_iff.mpr (List.mem_cons_of_mem _ hitem)
  have hbehind := Int.le_trans (Int.add_le_add_right round.mono top.interval)
    (interval_le_rearm top round.finished)
  constructor
  · refine List.pairwise_append.mpr ⟨paced.apart, List.pairwise_singleton .., ?_⟩
    intro h hpast h' hnew hsame
    obtain rfl := List.mem_singleton.mp hnew
    exact Int.le_trans (paced.next h hpast top htop hsame) hdue
  · intro h hmem item hitem hsame
    obtain hpast | hnew := List.mem_append.mp hmem
    · obtain rfl | hitem := List.mem_cons.mp (hpush.mem_iff.mp hitem)
      · have hwas := Int.le_trans (paced.next h hpast top htop hsame) hdue
        have hlater := PollItem.lt_rearm top round.finished
        have hmono := round.mono
        omega
      · exact paced.next h hpast item (hother hitem) hsame
    · obtain rfl := List.mem_singleton.mp hnew
      obtain rfl | hitem := List.mem_cons.mp (hpush.mem_iff.mp hitem)
      · exact hbehind
      · -- no other item has the number of the one at the top
        have hnodup := (hpop.map PollItem.ticket).nodup_iff.mp honce
        rw [List.map_cons, List.nodup_cons] at hnodup
        exact absurd (hsame ▸ List.mem_map_of_mem hitem) hnodup.1

/-- One call of `processDueItems`, in rounds. -/
theorem Paced.drain {past : List Handout} {items : List PollItem} (paced : Paced past items)
    (honce : (items.map PollItem.ticket).Nodup) (rounds : List Round) :
    Paced (past ++ (drain items rounds).handed) (drain items rounds).left := by
  induction rounds generalizing past items with
  | nil =>
    rw [PollManager.drain, List.append_nil]
    exact paced
  | cons round rounds ih =>
    rw [PollManager.drain]
    cases hpop : Heap.popHeap PollItem.NotAfter items with
    | none =>
      rw [List.append_nil]
      exact paced
    | some found =>
      obtain ⟨top, others⟩ := found
      dsimp only
      split
      · rw [List.append_nil]
        exact paced
      next hdue =>
        split
        · rw [List.append_nil]
          exact paced
        · have hpopped := (Heap.popHeap_perm PollItem.NotAfter hpop).2
          have hpushed := Heap.pushHeap_perm PollItem.NotAfter others (top.rearm round.finished)
          have hstep := paced.handOut honce round hpopped (Int.not_lt.mp hdue) hpushed
          have hnodup : ((Heap.pushHeap PollItem.NotAfter others
              (top.rearm round.finished)).map PollItem.ticket).Nodup := by
            rw [(hpushed.map PollItem.ticket).nodup_iff]
            exact (hpopped.map PollItem.ticket).nodup_iff.mp honce
          have hrest := ih hstep hnodup
          rwa [List.append_assoc] at hrest

end PollManager

namespace Polling

open PollManager

/-- What the callback was given, call by call. -/
def handouts (d : Polling) : List Handout := d.batches.flatMap Batch.handed

structure Rated (d : Polling) : Prop where
  tracked : Tracked d
  paced : Paced d.handouts d.manager.items
  known : ∀ h ∈ d.handouts, h.item.ticket < d.manager.tickets

theorem Tracked.once_ticket {d : Polling} (tracked : Tracked d) :
    (d.manager.items.map PollItem.ticket).Nodup := by
  have honce := tracked.once
  rwa [names, List.map_map] at honce

/-- A new item has not been handed out yet. -/
theorem Rated.addPollItem {d : Polling} (rated : Rated d) (priority : UInt8)
    (message : List UInt8) (intervalMs : UInt32) (now : Int) :
    Rated { d with manager := (d.manager.addPollItem priority message intervalMs now).1 } := by
  refine ⟨rated.tracked.addPollItem priority message intervalMs now, ?_, ?_⟩
  · obtain ⟨-, heq⟩ | ⟨-, heq⟩ := d.manager.addPollItem_cases priority message intervalMs now
    · rw [heq]
      exact ⟨rated.paced.apart, rated.paced.next⟩
    · rw [heq]
      refine ⟨rated.paced.apart, fun h hpast item hitem hsame => ?_⟩
      obtain rfl | hold := List.mem_cons.mp ((Heap.pushHeap_perm ..).mem_iff.mp hitem)
      · exact absurd hsame (Nat.ne_of_lt (rated.known h hpast))
      · exact rated.paced.next h hpast item hold hsame
  · intro h hpast
    obtain ⟨-, heq⟩ | ⟨-, heq⟩ := d.manager.addPollItem_cases priority message intervalMs now
    · rw [heq]
      exact Nat.lt_succ_of_lt (rated.known h hpast)
    · rw [heq]
      exact Nat.lt_succ_of_lt (rated.known h hpast)

theorem Rated.merge {d : Polling} (rated : Rated d) (objects : List JsonObject) :
    Rated { d with manager := objects.foldl mergeObject d.manager } := by
  induction objects generalizing d with
  | nil => exact rated
  | cons object objects ih =>
    have hnext : Rated { d with manager := d.manager.mergeObject object } := by
      obtain ⟨-, heq⟩ | ⟨-, -, heq⟩ := d.manager.mergeObject_cases object
      · rw [heq]
        exact rated
      · rw [heq]
        exact rated.addPollItem _ _ _ _
    exact ih hnext

/-- What only takes items away. -/
theorem Rated.removes {d d' : Polling} (rated : Rated d) (tracked : Tracked d')
    (hsubset : d'.manager.items ⊆ d.manager.items) (hbatches : d'.batches = d.batches)
    (htickets : d'.manager.tickets = d.manager.tickets) : Rated d' := by
  have hhandouts : d'.handouts = d.handouts := congrArg (List.flatMap Batch.handed) hbatches
  refine ⟨tracked, ?_, ?_⟩
  · rw [hhandouts]
    exact rated.paced.subset hsubset
  · rw [hhandouts, htickets]
    exact rated.known

/-- The items that a call hands out are registered. -/
theorem handed_ticket {items : List PollItem} {rounds : List Round} {h : Handout}
    (hmem : h ∈ (drain items rounds).handed) :
    h.item.ticket ∈ items.map PollItem.ticket := by
  induction rounds generalizing items with
  | nil => exact absurd hmem List.not_mem_nil
  | cons round rounds ih =>
    rw [drain] at hmem
    cases hpop : Heap.popHeap PollItem.NotAfter items with
    | none =>
      rw [hpop] at hmem
      exact absurd hmem List.not_mem_nil
    | some found =>
      obtain ⟨top, others⟩ := found
      have hpopped := (Heap.popHeap_perm PollItem.NotAfter hpop).2.map PollItem.ticket
      rw [hpop] at hmem
      dsimp only at hmem
      split at hmem
      · exact absurd hmem List.not_mem_nil
      · split at hmem
        · exact absurd hmem List.not_mem_nil
        · rw [hpopped.mem_iff]
          obtain rfl | hlater := List.mem_cons.mp hmem
          · exact List.mem_cons_self
          · have hpushed := (Heap.pushHeap_perm PollItem.NotAfter others
              (top.rearm round.finished)).map PollItem.ticket
            exact hpushed.mem_iff.mp (ih hlater)

theorem Rated.step (d : Polling) (action : Action) (rated : Rated d) : Rated (step d action) := by
  have tracked := Tracked.step d action rated.tracked
  cases action with
  | addPollItem priority message intervalMs now =>
    obtain ⟨-, paced, known⟩ := rated.addPollItem priority message intervalMs now
    exact ⟨tracked, paced, known⟩
  | removePollItem id => exact rated.removes tracked List.eraseP_subset rfl rfl
  | setOwnAddress address => exact rated.removes tracked List.filter_sublist.subset rfl rfl
  | mergeFromJson text =>
    cases text with
    | noArray => exact rated
    | array objects wellFormed => exact rated.merge objects
  | processDueItems rounds =>
    have hhandouts : (Polling.step d (.processDueItems rounds)).handouts =
        d.handouts ++ (drain d.manager.items rounds).handed := by
      simp only [handouts, Polling.step, processDueItems, List.flatMap_append,
        List.flatMap_singleton]
    refine ⟨tracked, ?_, ?_⟩
    · rw [hhandouts]
      exact rated.paced.drain rated.tracked.once_ticket rounds
    · intro h hmem
      rw [hhandouts] at hmem
      obtain hpast | hnew := List.mem_append.mp hmem
      · exact rated.known h hpast
      · obtain ⟨item, hitem, hsame⟩ := List.mem_map.mp (handed_ticket hnew)
        have hissued := rated.tracked.issued item.name (List.mem_map_of_mem hitem)
        exact hsame ▸ hissued
  | clear => exact rated.removes tracked (List.nil_subset _) rfl rfl

/-- In every order of the calls, with any clock readings and any answers of the busy predicate, an
item is never handed out before its interval has passed since it was handed out last. -/
theorem run_apart (actions : List Action) :
    (Runs.run step {} actions).handouts.Pairwise Apart := by
  have hstart : Rated {} := by
    refine ⟨⟨?_, List.nodup_nil, ?_, ?_⟩, ⟨List.Pairwise.nil, ?_⟩, ?_⟩
    · exact fun n hn => absurd hn List.not_mem_nil
    · exact fun a ha => absurd ha List.not_mem_nil
    · exact fun a ha => absurd ha List.not_mem_nil
    · exact fun h hmem => absurd hmem List.not_mem_nil
    · exact fun h hmem => absurd hmem List.not_mem_nil
  exact (Runs.invariant_always Rated.step hstart actions).paced.apart

end Polling

end Ebus
