import Ebus.App.PollManager

/-!
# The order of the poll items

As long as the items are a heap the front one is due first, the next due time is the
least of all, and the due items are handed out in the order of their due times until
none is left. Adding, handing out and clearing keep the heap. Removing an item and
purging the items for the own address only shift the items behind the gap; whether the
heap survives depends on the items that come to stand below others in this way.
-/

namespace Ebus

namespace PollItem

/-- An item that was handed out is due again later. -/
theorem lt_rearm (item : PollItem) (now : Int) : now < (item.rearm now).nextDue := by
  unfold rearm millisecond
  dsimp only
  split <;> omega

end PollItem

namespace PollManager

/-- The items are in order for the heap operations. -/
def HeapOrdered (items : List PollItem) : Prop := Heap.IsHeap PollItem.NotAfter items

instance (items : List PollItem) : Decidable (HeapOrdered items) :=
  inferInstanceAs (Decidable (Heap.IsHeap ..))

/-- The next due time is the least one, and there is none exactly for an empty registry. -/
def NextIsLeast (m : PollManager) : Prop :=
  match m.nextDueTime false with
  | none => m.items = []
  | some time => (∃ item ∈ m.items, item.nextDue = time) ∧ ∀ item ∈ m.items, time ≤ item.nextDue

/-- Due items are handed out in the order of their due times; when the loop ends because
the front item is not due, none of the others is. -/
structure Batch.InOrder (batch : Batch) : Prop where
  due : ∀ h ∈ batch.handed, h.item.nextDue ≤ h.reading
  sorted : batch.handed.Pairwise fun a b => a.item.nextDue ≤ b.item.nextDue
  drained : ∀ reading, batch.ended = .notDue reading →
    ∀ item ∈ batch.left, reading < item.nextDue
  empty : batch.ended = .empty → batch.left = []

theorem nextIsLeast_of_heap {m : PollManager} (h : HeapOrdered m.items) : m.NextIsLeast := by
  unfold NextIsLeast nextDueTime
  cases hitems : m.items with
  | nil => simp
  | cons top rest =>
      simp only [Bool.false_eq_true, if_false, List.head?_cons, Option.map_some]
      refine ⟨⟨top, List.mem_cons_self .., rfl⟩, ?_⟩
      intro item hitem
      rw [hitems] at h
      exact PollItem.NotAfter.nextDue_le (h.root_le PollItem.NotAfter rfl hitem)

/-- The item that goes back is due after the reading that has found it due. -/
theorem nextDue_le_of_rearm {top : PollItem} {others : List PollItem} {round : Round}
    (hdue : top.nextDue ≤ round.reading)
    (hothers : ∀ item ∈ others, top.nextDue ≤ item.nextDue) :
    ∀ item ∈ Heap.pushHeap PollItem.NotAfter others (top.rearm round.finished),
      top.nextDue ≤ item.nextDue := by
  intro item hitem
  obtain rfl | hold := List.mem_cons.mp
    ((Heap.pushHeap_perm PollItem.NotAfter others _).mem_iff.mp hitem)
  · have hlater := top.lt_rearm round.finished
    have hmono := round.mono
    omega
  · exact hothers item hold

/-- What the loop does with a heap all of whose items are due at `since` or later. -/
theorem drain_since {items : List PollItem} (rounds : List Round) (hheap : HeapOrdered items)
    (since : Int) (hsince : ∀ item ∈ items, since ≤ item.nextDue) :
    HeapOrdered (drain items rounds).left ∧ (drain items rounds).InOrder ∧
    ∀ h ∈ (drain items rounds).handed, since ≤ h.item.nextDue := by
  induction rounds generalizing items since with
  | nil =>
      refine ⟨hheap, ⟨by simp [drain], by simp [drain], ?_, ?_⟩, by simp [drain]⟩
      · intro reading hended
        simp only [drain] at hended
        split at hended <;> cases hended
      · intro hended
        simp only [drain] at hended ⊢
        split at hended
        · assumption
        · cases hended
  | cons round rounds ih =>
      rw [drain]
      cases hpop : Heap.popHeap PollItem.NotAfter items with
      | none =>
          have hnil := Heap.eq_nil_of_popHeap PollItem.NotAfter hpop
          exact ⟨hheap, ⟨by simp, by simp, by simp, fun _ => hnil⟩, by simp⟩
      | some found =>
          obtain ⟨top, others⟩ := found
          obtain ⟨hfirst, hperm⟩ := Heap.popHeap_perm PollItem.NotAfter hpop
          have hothers := Heap.popHeap_isHeap PollItem.NotAfter hheap hpop
          have hleast (item : PollItem) (hitem : item ∈ items) : top.nextDue ≤ item.nextDue :=
            PollItem.NotAfter.nextDue_le (hheap.root_le PollItem.NotAfter hfirst hitem)
          dsimp only
          by_cases hdue : round.reading < top.nextDue
          · rw [if_pos hdue]
            refine ⟨hheap, ⟨by simp, by simp, ?_, by simp⟩, by simp⟩
            rintro reading ⟨rfl⟩ item hitem
            exact Int.lt_of_lt_of_le hdue (hleast item hitem)
          · rw [if_neg hdue]
            by_cases hbusy : round.busy = true
            · rw [if_pos hbusy]
              exact ⟨hheap, ⟨by simp, by simp, by simp, by simp⟩, by simp⟩
            · rw [if_neg hbusy]
              have hdue : top.nextDue ≤ round.reading := Int.not_lt.mp hdue
              have hrest := nextDue_le_of_rearm hdue fun item hitem =>
                hleast item (hperm.mem_iff.mpr (List.mem_cons_of_mem _ hitem))
              obtain ⟨hleft, horder, hhanded⟩ :=
                ih (Heap.pushHeap_isHeap PollItem.NotAfter hothers _) top.nextDue hrest
              have htop : since ≤ top.nextDue :=
                hsince top (hperm.mem_iff.mpr (List.mem_cons_self ..))
              refine ⟨hleft, ⟨?_, ?_, horder.drained, horder.empty⟩, ?_⟩
              · intro h hmem
                obtain rfl | hold := List.mem_cons.mp hmem
                · exact hdue
                · exact horder.due h hold
              · exact List.pairwise_cons.mpr ⟨hhanded, horder.sorted⟩
              · intro h hmem
                obtain rfl | hold := List.mem_cons.mp hmem
                · exact htop
                · exact Int.le_trans htop (hhanded h hold)

theorem drain_spec {items : List PollItem} (rounds : List Round) (hheap : HeapOrdered items) :
    HeapOrdered (drain items rounds).left ∧ (drain items rounds).InOrder := by
  obtain ⟨since, hsince⟩ : ∃ since, ∀ item ∈ items, since ≤ item.nextDue := by
    cases items with
    | nil => exact ⟨0, by simp⟩
    | cons top rest =>
        refine ⟨top.nextDue, fun item hitem => ?_⟩
        exact PollItem.NotAfter.nextDue_le (hheap.root_le PollItem.NotAfter rfl hitem)
  obtain ⟨hleft, horder, -⟩ := drain_since rounds hheap since hsince
  exact ⟨hleft, horder⟩

theorem addPollItem_heap {m : PollManager} (h : HeapOrdered m.items) (priority : UInt8)
    (message : List UInt8) (intervalMs : UInt32) (now : Int) :
    HeapOrdered (m.addPollItem priority message intervalMs now).1.items := by
  obtain ⟨-, heq⟩ | ⟨-, heq⟩ := m.addPollItem_cases priority message intervalMs now
  · rw [heq]
    exact h
  · rw [heq]
    exact Heap.pushHeap_isHeap PollItem.NotAfter h _

theorem mergeFromJson_heap {m : PollManager} (h : HeapOrdered m.items) (text : JsonText) :
    HeapOrdered (m.mergeFromJson text).1.items := by
  cases text with
  | noArray => exact h
  | array objects wellFormed =>
      unfold mergeFromJson
      dsimp only
      induction objects generalizing m with
      | nil => exact h
      | cons object objects ih =>
          refine ih ?_
          obtain ⟨-, heq⟩ | ⟨-, -, heq⟩ := m.mergeObject_cases object
          · rwa [heq]
          · rw [heq]
            exact addPollItem_heap h _ _ _ _

end PollManager

namespace Polling

open PollManager

/-- What is promised about the order after each call. -/
structure Ordered (d : Polling) : Prop where
  heap : HeapOrdered d.manager.items
  next : d.manager.NextIsLeast
  batches : ∀ batch ∈ d.batches, batch.InOrder

/-- The position that `removePollItem` erases; behind the last item when no item has the
id. -/
def gap (d : Polling) (id : UInt16) : Nat := d.manager.items.findIdx fun item => item.pollId = id

/-- The items that stay when the own address is set. -/
def stays (address : UInt8) (item : PollItem) : Bool :=
  !PollItem.polls item.message (slaveOf address)

/-- The calls that erase items: none of the items that move up is before the one that it
comes to stand below. -/
def ErasesInOrder (d : Polling) : Action → Prop
  | .removePollItem id =>
      ∀ j, d.gap id ≤ j →
        ∀ above ∈ d.manager.items[Heap.shifted (d.gap id) (Heap.parent j)]?,
        ∀ item ∈ d.manager.items[j + 1]?, 0 < j → PollItem.NotAfter above item
  | .setOwnAddress address =>
      ∀ b, Heap.place (stays address) d.manager.items b < b →
        ∀ item ∈ d.manager.items[b]?, stays address item = true →
        ∀ a, Heap.place (stays address) d.manager.items a =
            Heap.parent (Heap.place (stays address) d.manager.items b) →
        ∀ above ∈ d.manager.items[a]?, stays address above = true →
          0 < Heap.place (stays address) d.manager.items b → PollItem.NotAfter above item
  | _ => True

theorem removePollItem_items (d : Polling) (id : UInt16) :
    (d.manager.removePollItem id).items = d.manager.items.eraseIdx (d.gap id) := by
  unfold removePollItem gap
  dsimp only
  rw [List.eraseP_eq_eraseIdx]
  cases hfind : d.manager.items.findIdx? fun item => decide (item.pollId = id) with
  | none =>
      have hlength := List.findIdx?_eq_none_iff_findIdx_eq.mp hfind
      rw [hlength, List.eraseIdx_of_length_le (Nat.le_refl _)]
  | some i =>
      have hi := List.findIdx?_eq_some_iff_findIdx_eq.mp hfind
      rw [hi.2]

/-- Erasing keeps the heap exactly under the condition. -/
theorem step_heap_iff {d : Polling} (h : HeapOrdered d.manager.items) (action : Action) :
    HeapOrdered (step d action).manager.items ↔ ErasesInOrder d action := by
  cases action with
  | addPollItem priority message intervalMs now =>
      exact iff_of_true (addPollItem_heap h priority message intervalMs now) trivial
  | removePollItem id =>
      change Heap.IsHeap PollItem.NotAfter (d.manager.removePollItem id).items ↔ _
      rw [removePollItem_items]
      exact Heap.isHeap_eraseIdx_iff PollItem.NotAfter h (d.gap id)
  | setOwnAddress address => exact Heap.isHeap_filter_iff PollItem.NotAfter h (stays address)
  | mergeFromJson text => exact iff_of_true (mergeFromJson_heap h text) trivial
  | processDueItems rounds => exact iff_of_true (drain_spec rounds h).1 trivial
  | clear =>
      refine iff_of_true ?_ trivial
      intro j _ p hp
      simp [step, clear] at hp

theorem step_batches {d : Polling} (hd : Ordered d) (action : Action) :
    ∀ batch ∈ (step d action).batches, batch.InOrder := by
  cases action with
  | processDueItems rounds =>
      intro batch hbatch
      obtain hold | hnew := List.mem_append.mp hbatch
      · exact hd.batches batch hold
      · obtain rfl := List.mem_singleton.mp hnew
        exact (drain_spec rounds hd.heap).2
  | addPollItem priority message intervalMs now => exact hd.batches
  | removePollItem id => exact hd.batches
  | setOwnAddress address => exact hd.batches
  | mergeFromJson text => exact hd.batches
  | clear => exact hd.batches

theorem step_ordered (d : Polling) (action : Action) (hd : Ordered d)
    (hok : ErasesInOrder d action) : Ordered (step d action) :=
  have hheap := (step_heap_iff hd.heap action).mpr hok
  ⟨hheap, nextIsLeast_of_heap hheap, step_batches hd action⟩

theorem step_not_ordered (d : Polling) (action : Action) (hd : Ordered d)
    (hnot : ¬ ErasesInOrder d action) : ¬ Ordered (step d action) := fun h =>
  hnot ((step_heap_iff hd.heap action).mp h.heap)

/-- The items are a heap throughout a run, with what follows from it for the next due time
and for the order in which items are handed out, exactly when every call that erases items
keeps those that move up in order. -/
theorem run_ordered_iff (actions : List Action) :
    (∀ n, Ordered (Runs.run step {} (actions.take n))) ↔
    Runs.Meets step ErasesInOrder {} actions := by
  have hempty : HeapOrdered ({} : Polling).manager.items := by
    intro j _ p hp
    simp at hp
  have hstart : Ordered {} := ⟨hempty, nextIsLeast_of_heap hempty, by simp⟩
  exact Runs.invariant_iff_meets step_ordered step_not_ordered hstart actions

/-- Three items with intervals of one, ten and two seconds are polled once; then the first
one is removed. -/
def firstRemoved : List Action :=
  [.addPollItem 5 [0x08, 0x07, 0x04, 0x00] 1000 0, .addPollItem 5 [0x15, 0x07, 0x04, 0x00] 10000 0,
    .addPollItem 5 [0x26, 0x07, 0x04, 0x00] 2000 0,
    .processDueItems (List.replicate 4 ⟨0, false, 0, by decide⟩), .removePollItem 1]

/-- The next due time is the one of the item behind the gap, eight seconds late. -/
theorem not_ordered_firstRemoved :
    (Runs.run step {} firstRemoved).manager.nextDueTime false = some 10000000 ∧
    2000000 ∈ (Runs.run step {} firstRemoved).manager.items.map PollItem.nextDue ∧
    ¬ HeapOrdered (Runs.run step {} firstRemoved).manager.items ∧
    ¬ Ordered (Runs.run step {} firstRemoved) := by
  have hheap : ¬ HeapOrdered (Runs.run step {} firstRemoved).manager.items := by decide
  exact ⟨by decide, by decide, hheap, fun h => hheap h.heap⟩

end Polling

end Ebus
