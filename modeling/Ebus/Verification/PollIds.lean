import Mathlib.Data.List.Perm.Subperm
import Ebus.App.PollManager

/-!
# Poll ids

The id of a poll item is its handle for removal. It comes from a counter of 16 bits that
skips zero and is not compared with the ids in use. Ids are distinct as long as the
counter does not come round to the id of an item that is still registered; then each
handle removes the item that it was given out for and no other.
-/

namespace Ebus

namespace PollItem

/-- What stays with an item for life: the number of its call and its id. -/
def name (item : PollItem) : Nat × UInt16 := (item.ticket, item.pollId)

@[simp] theorem name_rearm (item : PollItem) (now : Int) : (item.rearm now).name = item.name := rfl

end PollItem

namespace PollManager

def names (m : PollManager) : List (Nat × UInt16) := m.items.map PollItem.name

/-- The loop hands items out and takes them back. -/
theorem names_drain (items : List PollItem) (rounds : List Round) :
    ((drain items rounds).left.map PollItem.name).Perm (items.map PollItem.name) := by
  induction rounds generalizing items with
  | nil => exact .refl _
  | cons round rounds ih =>
      rw [drain]
      cases hpop : Heap.popHeap PollItem.NotAfter items with
      | none => exact .refl _
      | some found =>
          obtain ⟨top, others⟩ := found
          dsimp only
          split
          · exact .refl _
          · split
            · exact .refl _
            · have hpushed := (Heap.pushHeap_perm PollItem.NotAfter others
                (top.rearm round.finished)).map PollItem.name
              have hpopped := ((Heap.popHeap_perm PollItem.NotAfter hpop).2).map PollItem.name
              rw [List.map_cons] at hpushed hpopped
              exact ((ih _).trans hpushed).trans hpopped.symm

theorem names_addPollItem (m : PollManager) (priority : UInt8) (message : List UInt8)
    (intervalMs : UInt32) (now : Int) :
    (m.accepts message = false ∧
      (m.addPollItem priority message intervalMs now).1.names = m.names) ∨
    (m.accepts message = true ∧
      (m.addPollItem priority message intervalMs now).1.names.Perm
        ((m.tickets, m.takeId.1) :: m.names)) := by
  obtain ⟨hrefused, heq⟩ | ⟨haccepts, heq⟩ :=
    m.addPollItem_cases priority message intervalMs now
  · exact .inl ⟨hrefused, by rw [heq]; rfl⟩
  · refine .inr ⟨haccepts, ?_⟩
    rw [heq]
    exact (Heap.pushHeap_perm PollItem.NotAfter m.items _).map PollItem.name

/-- The ids in use are different from each other and from zero. -/
structure UniqueIds (m : PollManager) : Prop where
  distinct : (m.items.map PollItem.pollId).Nodup
  positive : 0 ∉ m.items.map PollItem.pollId

theorem ids_eq (m : PollManager) : m.items.map PollItem.pollId = m.names.map Prod.snd := by
  rw [names, List.map_map]
  rfl

theorem UniqueIds.of_subperm {m m' : PollManager} (hm : UniqueIds m)
    (hsub : m'.names.Subperm m.names) : UniqueIds m' := by
  obtain ⟨names, hperm, hsublist⟩ := hsub
  have hids : (names.map Prod.snd).Perm (m'.items.map PollItem.pollId) := by
    rw [ids_eq]
    exact hperm.map Prod.snd
  have hless : (names.map Prod.snd).Sublist (m.items.map PollItem.pollId) := by
    rw [ids_eq]
    exact hsublist.map Prod.snd
  exact ⟨hids.nodup_iff.mp (hm.distinct.sublist hless),
    fun hmem => hm.positive (hless.subset (hids.mem_iff.mpr hmem))⟩

/-- The id that the next item gets is not in use. -/
def IdFree (m : PollManager) : Prop := m.takeId.1 ∉ m.items.map PollItem.pollId

/-- A new item keeps the ids apart exactly when its id is free. -/
theorem uniqueIds_addPollItem_iff {m : PollManager} (hm : UniqueIds m) (priority : UInt8)
    (message : List UInt8) (intervalMs : UInt32) (now : Int) :
    UniqueIds (m.addPollItem priority message intervalMs now).1 ↔
      (m.accepts message = true → m.IdFree) := by
  obtain ⟨hrefused, hnames⟩ | ⟨haccepts, hnames⟩ :=
    m.names_addPollItem priority message intervalMs now
  · refine iff_of_true (hm.of_subperm ?_) (by simp [hrefused])
    rewrite [hnames]
    exact List.Subperm.refl _
  · have hids : ((m.addPollItem priority message intervalMs now).1.items.map
        PollItem.pollId).Perm (m.takeId.1 :: m.items.map PollItem.pollId) := by
      rw [ids_eq, ids_eq]
      exact hnames.map Prod.snd
    constructor
    · intro h _
      exact (List.nodup_cons.mp (hids.nodup_iff.mp h.distinct)).1
    · intro hfree
      refine ⟨hids.nodup_iff.mpr (List.nodup_cons.mpr ⟨hfree haccepts, hm.distinct⟩), ?_⟩
      intro hmem
      obtain hzero | hold := List.mem_cons.mp (hids.mem_iff.mp hmem)
      · exact m.takeId_ne_zero hzero.symm
      · exact hm.positive hold

/-- Adding an item takes no other one away. -/
theorem names_subperm_addPollItem (m : PollManager) (priority : UInt8) (message : List UInt8)
    (intervalMs : UInt32) (now : Int) :
    m.names.Subperm (m.addPollItem priority message intervalMs now).1.names := by
  obtain ⟨-, hnames⟩ | ⟨-, hnames⟩ := m.names_addPollItem priority message intervalMs now
  · rewrite [hnames]
    exact List.Subperm.refl _
  · exact (List.sublist_cons_self _ _).subperm.trans hnames.symm.subperm

/-- An object of a text that adds an item finds a free id. -/
def ObjectTakesFreeId (m : PollManager) (object : JsonObject) : Prop :=
  object.item.ok = true → object.item.message ≠ [] → m.accepts object.item.bytes = true → m.IdFree

theorem uniqueIds_mergeObject_iff {m : PollManager} (hm : UniqueIds m) (object : JsonObject) :
    UniqueIds (m.mergeObject object) ↔ m.ObjectTakesFreeId object := by
  obtain ⟨hnot, heq⟩ | ⟨hok, hmessage, heq⟩ := m.mergeObject_cases object
  · rw [heq]
    exact iff_of_true hm fun hok hmessage => absurd ⟨hok, hmessage⟩ hnot
  · rw [heq, uniqueIds_addPollItem_iff hm]
    exact ⟨fun h _ _ => h, fun h => h hok hmessage⟩

theorem names_subperm_merge (m : PollManager) (objects : List JsonObject) :
    m.names.Subperm (objects.foldl mergeObject m).names := by
  induction objects generalizing m with
  | nil => exact List.Subperm.refl _
  | cons object objects ih =>
      refine List.Subperm.trans ?_ (ih (m.mergeObject object))
      obtain ⟨-, heq⟩ | ⟨-, -, heq⟩ := m.mergeObject_cases object
      · rewrite [heq]
        exact List.Subperm.refl _
      · rewrite [heq]
        exact m.names_subperm_addPollItem ..

/-- An id that is in use twice stays so while further items are added. -/
theorem uniqueIds_merge_iff {m : PollManager} (hm : UniqueIds m) (objects : List JsonObject) :
    UniqueIds (objects.foldl mergeObject m) ↔
      Runs.Meets mergeObject ObjectTakesFreeId m objects := by
  induction objects generalizing m with
  | nil => exact iff_of_true hm trivial
  | cons object objects ih =>
      rw [Runs.meets_cons, ← uniqueIds_mergeObject_iff hm]
      by_cases hnext : UniqueIds (m.mergeObject object)
      · rw [and_iff_right hnext]
        exact ih hnext
      · refine iff_of_false ?_ fun h => hnext h.1
        intro h
        exact hnext (h.of_subperm (names_subperm_merge ..))

end PollManager

namespace Polling

open PollManager

/-- The numbers of the items are given out once, and the item of a call has the id that the
call has answered. -/
structure Tracked (d : Polling) : Prop where
  issued : ∀ n ∈ d.manager.names, n.1 < d.manager.tickets
  once : (d.manager.names.map Prod.fst).Nodup
  past : ∀ a ∈ d.answers, a.ticket < d.manager.tickets
  agree : ∀ a ∈ d.answers, ∀ n ∈ d.manager.names, n.1 = a.ticket → n.2 = a.pollId

theorem Tracked.of_subperm {d d' : Polling} (hd : Tracked d)
    (hsub : d'.manager.names.Subperm d.manager.names)
    (htickets : d'.manager.tickets = d.manager.tickets) (hanswers : d'.answers = d.answers) :
    Tracked d' where
  issued := by
    intro n hn
    rw [htickets]
    exact hd.issued n (hsub.subset hn)
  once := by
    obtain ⟨names, hperm, hsublist⟩ := hsub
    exact (hperm.map Prod.fst).nodup_iff.mp (hd.once.sublist (hsublist.map Prod.fst))
  past := by
    rw [htickets, hanswers]
    exact hd.past
  agree := by
    intro a ha n hn
    rw [hanswers] at ha
    exact hd.agree a ha n (hsub.subset hn)

/-- A call of `addPollItem` uses a new number. -/
theorem Tracked.addPollItem {d : Polling} (hd : Tracked d) (priority : UInt8)
    (message : List UInt8) (intervalMs : UInt32) (now : Int) :
    Tracked { d with manager := (d.manager.addPollItem priority message intervalMs now).1 } := by
  have htickets : (d.manager.addPollItem priority message intervalMs now).1.tickets =
      d.manager.tickets + 1 := by
    obtain ⟨-, heq⟩ | ⟨-, heq⟩ := d.manager.addPollItem_cases priority message intervalMs now <;>
      rw [heq]
  have hsub : (d.manager.addPollItem priority message intervalMs now).1.names.Subperm
      ((d.manager.tickets, d.manager.takeId.1) :: d.manager.names) := by
    obtain ⟨-, hnames⟩ | ⟨-, hnames⟩ :=
      d.manager.names_addPollItem priority message intervalMs now
    · rewrite [hnames]
      exact (List.sublist_cons_self _ _).subperm
    · exact hnames.subperm
  have hfresh : ∀ n ∈ d.manager.names, n.1 ≠ d.manager.tickets := fun n hn =>
    Nat.ne_of_lt (hd.issued n hn)
  refine ⟨?_, ?_, ?_, ?_⟩
  · intro n hn
    dsimp only
    rw [htickets]
    obtain rfl | hold := List.mem_cons.mp (hsub.subset hn)
    · exact Nat.lt_succ_self _
    · exact Nat.lt_succ_of_lt (hd.issued n hold)
  · obtain ⟨names, hperm, hsublist⟩ := hsub
    refine (hperm.map Prod.fst).nodup_iff.mp (List.Nodup.sublist (hsublist.map Prod.fst) ?_)
    rw [List.map_cons, List.nodup_cons]
    refine ⟨fun hmem => ?_, hd.once⟩
    obtain ⟨n, hn, hfst⟩ := List.mem_map.mp hmem
    exact hfresh n hn hfst
  · intro a ha
    dsimp only
    rw [htickets]
    exact Nat.lt_succ_of_lt (hd.past a ha)
  · intro a ha n hn hticket
    obtain rfl | hold := List.mem_cons.mp (hsub.subset hn)
    · exact absurd hticket (Nat.ne_of_gt (hd.past a ha))
    · exact hd.agree a ha n hold hticket

/-- The answer of the call is the id of its item. -/
theorem Tracked.answered {d : Polling} (hd : Tracked d) (priority : UInt8)
    (message : List UInt8) (intervalMs : UInt32) (now : Int) :
    Tracked (d.addPollItem priority message intervalMs now) := by
  obtain ⟨issued, once, past, agree⟩ := hd.addPollItem priority message intervalMs now
  refine ⟨issued, once, ?_, ?_⟩
  · intro a ha
    obtain hold | hnew := List.mem_append.mp ha
    · exact past a hold
    · obtain rfl := List.mem_singleton.mp hnew
      obtain ⟨-, heq⟩ | ⟨-, heq⟩ :=
        d.manager.addPollItem_cases priority message intervalMs now <;>
        simp [Polling.addPollItem, answer, heq]
  · intro a ha n hn hticket
    obtain hold | hnew := List.mem_append.mp ha
    · exact agree a hold n hn hticket
    · obtain rfl := List.mem_singleton.mp hnew
      have hout : n ∉ d.manager.names := fun hmem =>
        Nat.lt_irrefl _ (hticket ▸ hd.issued n hmem)
      change n ∈ (d.manager.addPollItem priority message intervalMs now).1.names at hn
      obtain ⟨-, hnames⟩ | ⟨haccepts, hnames⟩ :=
        d.manager.names_addPollItem priority message intervalMs now
      · exact absurd (hnames ▸ hn) hout
      · obtain rfl | hmem := List.mem_cons.mp (hnames.mem_iff.mp hn)
        · obtain ⟨hrefused, -⟩ | ⟨-, heq⟩ :=
            d.manager.addPollItem_cases priority message intervalMs now
          · rw [haccepts] at hrefused
            cases hrefused
          · rw [heq, answer]
        · exact absurd hmem hout

theorem Tracked.merge {d : Polling} (hd : Tracked d) (objects : List JsonObject) :
    Tracked { d with manager := objects.foldl mergeObject d.manager } := by
  induction objects generalizing d with
  | nil => exact hd
  | cons object objects ih =>
      have hnext : Tracked { d with manager := d.manager.mergeObject object } := by
        obtain ⟨-, heq⟩ | ⟨-, -, heq⟩ := d.manager.mergeObject_cases object
        · rw [heq]
          exact hd
        · rw [heq]
          exact hd.addPollItem _ _ _ _
      exact ih hnext

theorem Tracked.step (d : Polling) (action : Action) (hd : Tracked d) :
    Tracked (step d action) := by
  cases action with
  | addPollItem priority message intervalMs now =>
      exact hd.answered priority message intervalMs now
  | removePollItem id =>
      exact hd.of_subperm ((List.eraseP_sublist.map PollItem.name).subperm) rfl rfl
  | setOwnAddress address =>
      exact hd.of_subperm ((List.filter_sublist.map PollItem.name).subperm) rfl rfl
  | mergeFromJson text =>
      cases text with
      | noArray => exact hd
      | array objects wellFormed => exact hd.merge objects
  | processDueItems rounds => exact hd.of_subperm (names_drain _ rounds).subperm rfl rfl
  | clear => exact hd.of_subperm List.nil_subperm rfl rfl

/-- The ids in use are distinct and not zero; a call of `addPollItem` has answered zero
exactly when nothing was added, and otherwise an id that no other item had; and the answer
of a call removes its item and nothing else. -/
structure Unique (d : Polling) : Prop where
  ids : UniqueIds d.manager
  answers : ∀ a ∈ d.answers,
    (a.pollId = 0 ↔ a.added = false) ∧ (a.added = true → a.pollId ∉ a.held)
  removes : ∀ a ∈ d.answers, a.ticket ∈ d.manager.items.map PollItem.ticket →
    (d.manager.removePollItem a.pollId).items =
      d.manager.items.filter fun item => item.ticket ≠ a.ticket

/-- The calls that add an item find a free id. -/
def TakesFreeId (d : Polling) : Action → Prop
  | .addPollItem _ message _ _ => d.manager.accepts message = true → d.manager.IdFree
  | .mergeFromJson (.array objects _) =>
      Runs.Meets mergeObject ObjectTakesFreeId d.manager objects
  | _ => True

/-- With distinct ids and numbers, one entry is found by either. -/
theorem eraseP_eq_filter {items : List PollItem} (hids : (items.map PollItem.pollId).Nodup)
    (htickets : (items.map PollItem.ticket).Nodup) {item : PollItem} (hitem : item ∈ items) :
    (items.eraseP fun other => other.pollId = item.pollId) =
      items.filter fun other => other.ticket ≠ item.ticket := by
  induction items with
  | nil => simp at hitem
  | cons first rest ih =>
      rw [List.map_cons, List.nodup_cons] at hids htickets
      obtain rfl | hrest := List.mem_cons.mp hitem
      · rw [List.eraseP_cons_of_pos (by simp), List.filter_cons_of_neg (by simp)]
        refine (List.filter_eq_self.mpr fun other hother => ?_).symm
        refine decide_eq_true fun hsame => ?_
        exact htickets.1 (hsame ▸ List.mem_map_of_mem hother)
      · have hid : first.pollId ≠ item.pollId := fun hsame =>
          hids.1 (hsame ▸ List.mem_map_of_mem hrest)
        have hticket : first.ticket ≠ item.ticket := fun hsame =>
          htickets.1 (hsame ▸ List.mem_map_of_mem hrest)
        rw [List.eraseP_cons_of_neg (by simpa using hid),
          List.filter_cons_of_pos (by simpa using hticket), ih hids.2 htickets.2 hrest]

/-- Distinct ids are enough for the rest. -/
theorem removes_of_uniqueIds {d : Polling} (hd : Tracked d) (hids : UniqueIds d.manager) :
    ∀ a ∈ d.answers, a.ticket ∈ d.manager.items.map PollItem.ticket →
      (d.manager.removePollItem a.pollId).items =
        d.manager.items.filter fun item => item.ticket ≠ a.ticket := by
  intro a ha hticket
  obtain ⟨item, hitem, hsame⟩ := List.mem_map.mp hticket
  have hid : item.pollId = a.pollId :=
    hd.agree a ha item.name (List.mem_map_of_mem hitem) hsame
  have honce : (d.manager.items.map PollItem.ticket).Nodup := by
    simpa [names, List.map_map, Function.comp_def, PollItem.name] using hd.once
  rw [← hid, ← hsame]
  exact eraseP_eq_filter hids.distinct honce hitem

/-- The answer to a call is zero exactly when nothing was added. -/
theorem addPollItem_answer {d : Polling} (hd : Tracked d) (priority : UInt8)
    (message : List UInt8) (intervalMs : UInt32) (now : Int)
    (hfree : d.manager.accepts message = true → d.manager.IdFree) :
    ∃ a : Answer,
      (d.addPollItem priority message intervalMs now).answers = d.answers ++ [a] ∧
      (a.pollId = 0 ↔ a.added = false) ∧ (a.added = true → a.pollId ∉ a.held) := by
  refine ⟨_, rfl, ?_⟩
  unfold answer
  obtain ⟨-, heq⟩ | ⟨haccepts, heq⟩ :=
    d.manager.addPollItem_cases priority message intervalMs now
  · have hout : d.manager.tickets ∉ d.manager.items.map PollItem.ticket := by
      intro hmem
      obtain ⟨item, hitem, hsame⟩ := List.mem_map.mp hmem
      exact Nat.lt_irrefl _ (hsame ▸ hd.issued item.name (List.mem_map_of_mem hitem))
    simp [heq, hout]
  · have hin : d.manager.tickets ∈ (Heap.pushHeap PollItem.NotAfter d.manager.items
        (d.manager.made priority message intervalMs now)).map PollItem.ticket :=
      ((Heap.pushHeap_perm PollItem.NotAfter d.manager.items _).map PollItem.ticket).mem_iff.mpr
        (List.mem_cons_self ..)
    simp only [heq, hin, decide_true, Bool.true_eq_false, iff_false, true_imp_iff]
    exact ⟨d.manager.takeId_ne_zero, hfree haccepts⟩

theorem step_uniqueIds_iff {d : Polling} (hids : UniqueIds d.manager) (action : Action) :
    UniqueIds (step d action).manager ↔ TakesFreeId d action := by
  cases action with
  | addPollItem priority message intervalMs now =>
      exact uniqueIds_addPollItem_iff hids priority message intervalMs now
  | removePollItem id =>
      exact iff_of_true (hids.of_subperm (List.eraseP_sublist.map PollItem.name).subperm) trivial
  | setOwnAddress address =>
      exact iff_of_true (hids.of_subperm (List.filter_sublist.map PollItem.name).subperm) trivial
  | mergeFromJson text =>
      cases text with
      | noArray => exact iff_of_true hids trivial
      | array objects wellFormed => exact uniqueIds_merge_iff hids objects
  | processDueItems rounds =>
      exact iff_of_true (hids.of_subperm (names_drain _ rounds).subperm) trivial
  | clear => exact iff_of_true (hids.of_subperm List.nil_subperm) trivial

theorem step_unique (d : Polling) (action : Action) (hd : Tracked d ∧ Unique d)
    (hok : TakesFreeId d action) : Tracked (step d action) ∧ Unique (step d action) := by
  have htracked := Tracked.step d action hd.1
  have hids := (step_uniqueIds_iff hd.2.ids action).mpr hok
  refine ⟨htracked, hids, ?_, removes_of_uniqueIds htracked hids⟩
  cases action with
  | addPollItem priority message intervalMs now =>
      obtain ⟨a, hanswers, ha⟩ :=
        addPollItem_answer hd.1 priority message intervalMs now hok
      intro b hb
      change b ∈ (d.addPollItem priority message intervalMs now).answers at hb
      rw [hanswers] at hb
      obtain hold | hnew := List.mem_append.mp hb
      · exact hd.2.answers b hold
      · obtain rfl := List.mem_singleton.mp hnew
        exact ha
  | removePollItem id => exact hd.2.answers
  | setOwnAddress address => exact hd.2.answers
  | mergeFromJson text => exact hd.2.answers
  | processDueItems rounds => exact hd.2.answers
  | clear => exact hd.2.answers

theorem step_not_unique (d : Polling) (action : Action) (hd : Tracked d ∧ Unique d)
    (hnot : ¬ TakesFreeId d action) : ¬ (Tracked (step d action) ∧ Unique (step d action)) :=
  fun h => hnot ((step_uniqueIds_iff hd.2.ids action).mp h.2.ids)

/-- The ids are handles of single items throughout a run exactly when every call that adds
an item finds a free id. -/
theorem run_unique_iff (actions : List Action) :
    (∀ n, Unique (Runs.run step {} (actions.take n))) ↔
    Runs.Meets step TakesFreeId {} actions := by
  have hstart : Tracked {} ∧ Unique {} :=
    ⟨by constructor <;> simp [names], ⟨by constructor <;> simp, by simp, by simp⟩⟩
  have htracked (n : Nat) : Tracked (Runs.run step {} (actions.take n)) :=
    Runs.invariant_always Tracked.step hstart.1 _
  rw [← Runs.invariant_iff_meets step_unique step_not_unique hstart actions]
  exact forall_congr' fun n => (and_iff_right (htracked n)).symm

/-- An item is registered and removed again. -/
def inAndOut (id : UInt16) : List Action :=
  [.addPollItem 5 [0x08, 0x07, 0x04, 0x00] 1000 0, .removePollItem id]

/-- One item stays while others come and go, until the counter has passed zero. -/
def comingRound : List Action :=
  [.addPollItem 5 [0x15, 0x07, 0x04, 0x00] 1000 0] ++
    ((List.range 65534).flatMap fun i => inAndOut (UInt16.ofNat (i + 2))) ++
    [.addPollItem 5 [0x08, 0x07, 0x04, 0x00] 1000 0]

/-- The registry with the item that stays. -/
def oneItem (nextPollId : UInt16) (tickets : Nat) : PollManager :=
  { items := [{ pollId := 1, priority := 5, message := [0x15, 0x07, 0x04, 0x00]
                interval := 1000000, nextDue := 0, ticket := 0 }]
    nextPollId, tickets }

theorem run_inAndOut {d : Polling} {id : UInt16} {tickets : Nat}
    (hd : d.manager = oneItem id tickets) (hid : 1 < id) :
    (Runs.run step d (inAndOut id)).manager = oneItem (id + 1) (tickets + 1) := by
  have hzero : id ≠ 0 := by
    rintro rfl
    exact absurd hid (by decide)
  have hone : (1 : UInt16) ≠ id := UInt16.ne_of_lt hid
  have htake : (oneItem id tickets).takeId = (id, id + 1) := if_neg hzero
  have haccepts : (oneItem id tickets).accepts [0x08, 0x07, 0x04, 0x00] = true := by
    simp [PollManager.accepts, oneItem, PollLimits.maxItems, PollItem.polls]
    decide
  have hpush (x : PollItem) (hdue : x.nextDue = 0) (hx : x.pollId = id) :
      Heap.pushHeap PollItem.NotAfter (oneItem id tickets).items x =
        (oneItem id tickets).items ++ [x] := by
    have hle : PollItem.NotAfter
        { pollId := 1, priority := 5, message := [0x15, 0x07, 0x04, 0x00]
          interval := 1000000, nextDue := 0, ticket := 0 } x :=
      (PollItem.notAfter_iff _ _).mpr (.inr ⟨hdue.symm, hx ▸ UInt16.le_of_lt hid⟩)
    simp [Heap.pushHeap, Heap.siftUp, Heap.parent, oneItem, hle]
  change ((d.manager.addPollItem 5 [0x08, 0x07, 0x04, 0x00] 1000 0).1.removePollItem id) = _
  rw [hd]
  obtain ⟨hrefused, -⟩ | ⟨-, heq⟩ :=
    (oneItem id tickets).addPollItem_cases 5 [0x08, 0x07, 0x04, 0x00] 1000 0
  · rw [haccepts] at hrefused
    cases hrefused
  · generalize hmade : (oneItem id tickets).made 5 [0x08, 0x07, 0x04, 0x00] 1000 0 = x at heq
    have hx : x.pollId = id := by rw [← hmade, PollManager.made, htake]
    have hdue : x.nextDue = 0 := by rw [← hmade, PollManager.made]
    rw [heq, hpush x hdue hx, htake]
    simp [PollManager.removePollItem, oneItem, hone, hx]

theorem run_comingRound {d : Polling} (hd : d.manager = oneItem 2 1) {n : Nat}
    (hn : n ≤ 65534) :
    (Runs.run step d
      ((List.range n).flatMap fun i => inAndOut (UInt16.ofNat (i + 2)))).manager =
      oneItem (UInt16.ofNat (n + 2)) (n + 1) := by
  induction n with
  | zero => exact hd
  | succ n ih =>
      have hbefore := ih (by omega)
      have hid : 1 < UInt16.ofNat (n + 2) := by
        have hsize : n + 2 < UInt16.size :=
          Nat.lt_of_le_of_lt (Nat.add_le_add_right hn 1) (by decide)
        rw [UInt16.lt_iff_toNat_lt, UInt16.toNat_ofNat_of_lt' hsize]
        exact Nat.succ_lt_succ (Nat.succ_pos n)
      rw [List.range_succ, List.flatMap_append, Runs.run_append, List.flatMap_singleton,
        run_inAndOut hbefore hid, show n + 1 + 2 = n + 2 + 1 by omega, UInt16.ofNat_add (n + 2)]
      rfl

/-- Two registered items have the id one. -/
theorem not_unique_comingRound :
    (Runs.run step {} comingRound).ids = [1, 1] ∧ ¬ Unique (Runs.run step {} comingRound) := by
  have hlast (d : Polling) (hd : d.manager = oneItem 0 65535) :
      (Runs.run step d [.addPollItem 5 [0x08, 0x07, 0x04, 0x00] 1000 0]).ids = [1, 1] := by
    change (d.manager.addPollItem 5 [0x08, 0x07, 0x04, 0x00] 1000 0).1.items.map
      PollItem.pollId = [1, 1]
    rw [hd]
    decide
  have hfirst : (Runs.run step {}
      [.addPollItem 5 [0x15, 0x07, 0x04, 0x00] 1000 0]).manager = oneItem 2 1 := by
    decide
  have hids : (Runs.run step {} comingRound).ids = [1, 1] := by
    rw [comingRound, Runs.run_append, Runs.run_append]
    exact hlast _ (run_comingRound hfirst (Nat.le_refl 65534))
  refine ⟨hids, fun h => ?_⟩
  have hdistinct : (Runs.run step {} comingRound).ids.Nodup := h.ids.distinct
  rw [hids] at hdistinct
  exact absurd hdistinct (by decide)

end Polling

end Ebus
