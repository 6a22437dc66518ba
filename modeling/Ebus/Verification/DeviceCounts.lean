import Ebus.App.DeviceManager
import Ebus.Lib.Run
import Mathlib.Data.Finset.Card
import Mathlib.Data.Finset.Image
import Mathlib.Data.Finset.SDiff

/-!
# The counters of devices

The monitor is told when an unknown participant shows up and when a device is entered in the table.
The number of devices is right at any time. The number of unknown participants, those that have
been observed and have no device, is never too high, and it is right as long as no master is
addressed that has not been observed before: its device is entered all the same, and one unknown
participant less is counted for it.
-/

namespace Ebus

namespace DeviceManager

/-- The slave addresses of the participants that have been observed. -/
def observed (m : DeviceManager) : Finset UInt8 := m.masters.image slaveOf ∪ m.slaves

def unknown (m : DeviceManager) : Finset UInt8 := m.observed \ m.identifiedDevices

/-- A master is addressed when it has been observed itself. -/
def Announced (m : DeviceManager) : Action → Prop
  | .setOwnAddress _ => True
  | .update v _ => isMaster v.target = true → slaveOf v.target ∈ m.observed

/-- What the engine reports has a master for its source. -/
def FromMaster : Action → Prop
  | .setOwnAddress _ => True
  | .update v _ => isMaster v.source = true

/-- The counters against the table; `exact` says whether the unknown ones are counted exactly. -/
structure Counted (exact : Prop) (m : DeviceManager) (metrics : DeviceMetrics) : Prop where
  monitored : m.monitor = some metrics
  masters : ∀ a ∈ m.masters, isMaster a = true
  mapped : ∀ a, a ∈ m.identifiedDevices ↔ m.addressMap a ≠ none
  usage : m.identifiedDevices.card = m.poolUsage
  identified : metrics.identifiedDevices = .ofNat m.poolUsage
  atMost : metrics.unknownDevices.toNat ≤ m.unknown.card
  exact : exact → metrics.unknownDevices.toNat = m.unknown.card

theorem slaveOf_masterOf {sa : UInt8} (hslave : isSlave sa = true)
    (hmaster : isMaster (masterOf sa) = true) : slaveOf (masterOf sa) = sa := by
  have hall : ∀ n : Fin 256, isSlave (UInt8.ofNat n.val) = true →
      isMaster (masterOf (UInt8.ofNat n.val)) = true →
      slaveOf (masterOf (UInt8.ofNat n.val)) = UInt8.ofNat n.val := by decide +kernel
  have h := hall ⟨sa.toNat, sa.toNat_lt⟩
  rw [UInt8.ofNat_toNat] at h
  exact h hslave hmaster

theorem slaveOf_master {a : UInt8} (hmaster : isMaster a = true) :
    isSlave (slaveOf a) = true ∧ masterOf (slaveOf a) = a := by
  have hall : ∀ n : Fin 256, isMaster (UInt8.ofNat n.val) = true →
      isSlave (slaveOf (UInt8.ofNat n.val)) = true ∧
        masterOf (slaveOf (UInt8.ofNat n.val)) = UInt8.ofNat n.val := by decide +kernel
  have h := hall ⟨a.toNat, a.toNat_lt⟩
  rw [UInt8.ofNat_toNat] at h
  exact h hmaster

theorem isSlave_of_isMaster {a : UInt8} (hmaster : isMaster a = true) : isSlave a = false := by
  simp [isSlave, hmaster]

section Counting

variable {m : DeviceManager}

theorem mem_observed (hmasters : ∀ a ∈ m.masters, isMaster a = true) {sa : UInt8}
    (hslave : isSlave sa = true) : sa ∈ m.observed ↔ masterOf sa ∈ m.masters ∨ sa ∈ m.slaves := by
  rw [observed, Finset.mem_union, Finset.mem_image]
  refine or_congr_left ⟨?_, fun hmem => ?_⟩
  · rintro ⟨a, ha, rfl⟩
    rwa [(slaveOf_master (hmasters a ha)).2]
  · exact ⟨masterOf sa, hmem, slaveOf_masterOf hslave (hmasters _ hmem)⟩

/-- An address is new when its participant has not been observed. -/
theorem isNew_eq (hmasters : ∀ a ∈ m.masters, isMaster a = true) {addr sa : UInt8}
    (hsa : (if isSlave addr then addr else slaveOf addr) = sa) (hslave : isSlave sa = true) :
    m.isNew addr = decide (sa ∉ m.observed) := by
  rw [isNew, hsa, Bool.eq_iff_iff, Bool.and_eq_true, decide_eq_true_eq, decide_eq_true_eq,
    decide_eq_true_eq, mem_observed hmasters hslave, not_or]

theorem card_le (s : Finset UInt8) : s.card ≤ 256 := by
  have hsubset : s.image UInt8.toNat ⊆ Finset.range 256 := by
    intro n hn
    obtain ⟨a, -, rfl⟩ := Finset.mem_image.mp hn
    exact Finset.mem_range.mpr a.toNat_lt
  calc s.card = (s.image UInt8.toNat).card :=
      (Finset.card_image_of_injective s fun _ _ => UInt8.toNat_inj.mp).symm
    _ ≤ (Finset.range 256).card := Finset.card_le_card hsubset
    _ = 256 := Finset.card_range 256

theorem card_insert_sdiff (s t : Finset UInt8) (a : UInt8) :
    (insert a s \ t).card = (s \ t).card + if a ∉ s ∧ a ∉ t then 1 else 0 := by
  by_cases ht : a ∈ t
  · rw [Finset.insert_sdiff_of_mem _ ht, if_neg fun h => h.2 ht, Nat.add_zero]
  · rw [Finset.insert_sdiff_of_notMem _ ht]
    by_cases hs : a ∈ s
    · rw [Finset.insert_eq_of_mem (Finset.mem_sdiff.mpr ⟨hs, ht⟩), if_neg fun h => h.1 hs,
        Nat.add_zero]
    · rw [Finset.card_insert_of_notMem fun h => hs (Finset.mem_sdiff.mp h).1, if_pos ⟨hs, ht⟩]

/-- What the monitor is told of one address that is observed. -/
theorem Counted.observes {exact : Prop} {metrics : DeviceMetrics}
    (counted : Counted exact m metrics) {m' : DeviceManager} {addr sa : UInt8} (hobserved : m'.observed = insert sa m.observed)
    (hsa : (if isSlave addr then addr else slaveOf addr) = sa) (hslave : isSlave sa = true)
    (hmasters : ∀ a ∈ m'.masters, isMaster a = true)
    (hidentified : m'.identifiedDevices = m.identifiedDevices)
    (hmap : m'.addressMap = m.addressMap) (husage : m'.poolUsage = m.poolUsage)
    (hmonitor : m'.monitor = some (m.countUnknown addr sa metrics)) :
    Counted exact m' (m.countUnknown addr sa metrics) := by
  have hunknown : m'.unknown.card =
      m.unknown.card + if sa ∉ m.observed ∧ sa ∉ m.identifiedDevices then 1 else 0 := by
    rw [unknown, hobserved, hidentified, card_insert_sdiff, unknown]
  have hcount : (m.countUnknown addr sa metrics).identifiedDevices = metrics.identifiedDevices ∧
      (m.countUnknown addr sa metrics).unknownDevices.toNat = metrics.unknownDevices.toNat +
        if sa ∉ m.observed ∧ sa ∉ m.identifiedDevices then 1 else 0 := by
    rw [countUnknown, isNew_eq counted.masters hsa hslave, ← Bool.decide_and]
    simp only [decide_eq_true_eq]
    split
    · have hle := Nat.le_trans counted.atMost (card_le m.unknown)
      refine ⟨rfl, ?_⟩
      rw [UInt32.toNat_add, UInt32.toNat_one, Nat.mod_eq_of_lt (by omega)]
    · exact ⟨rfl, rfl⟩
  refine ⟨hmonitor, hmasters, ?_, ?_, ?_, ?_, fun h => ?_⟩
  · rw [hidentified, hmap]
    exact counted.mapped
  · rw [hidentified, husage, counted.usage]
  · rw [hcount.1, husage, counted.identified]
  · rw [hcount.2, hunknown]
    exact Nat.add_le_add_right counted.atMost _
  · rw [hcount.2, hunknown, counted.exact h]

theorem Counted.observe {exact : Prop} {metrics : DeviceMetrics}
    (counted : Counted exact m metrics) (target : UInt8) {source : UInt8}
    (hsource : isMaster source = true) :
    ∃ metrics', Counted exact (m.observe source target) metrics' ∧
      (m.observe source target).observed =
        if isSlave target then insert target (insert (slaveOf source) m.observed)
        else insert (slaveOf source) m.observed := by
  have hsa : (if isSlave source then source else slaveOf source) = slaveOf source := by
    rw [isSlave_of_isMaster hsource, if_neg Bool.false_ne_true]
  have hmasters : ∀ a ∈ insert source m.masters, isMaster a = true := by
    intro a ha
    obtain rfl | ha := Finset.mem_insert.mp ha
    · exact hsource
    · exact counted.masters a ha
  have hobserved : (insert source m.masters).image slaveOf ∪ m.slaves =
      insert (slaveOf source) m.observed := by
    rw [Finset.image_insert, Finset.insert_union, observed]
  have hfirst : Counted exact
      { m with
        monitor := some (m.countUnknown source (slaveOf source) metrics)
        masters := insert source m.masters } (m.countUnknown source (slaveOf source) metrics) :=
    counted.observes hobserved hsa (slaveOf_master hsource).1 hmasters rfl rfl rfl rfl
  rw [DeviceManager.observe, counted.monitored]
  dsimp only
  split
  next hslave =>
    have hgrown : (insert source m.masters).image slaveOf ∪ insert target m.slaves =
        insert target (insert (slaveOf source) m.observed) := by
      rw [Finset.union_insert, hobserved]
    exact ⟨_, hfirst.observes (hgrown.trans (congrArg _ hobserved.symm)) (if_pos hslave) hslave
      hmasters rfl rfl rfl rfl, hgrown⟩
  next => exact ⟨_, hfirst, hobserved⟩

/-- A device is entered for one unknown participant, or for one that has not been observed. -/
theorem Counted.allocate {exact : Prop} {metrics : DeviceMetrics}
    (counted : Counted exact m metrics) {sa : UInt8} (hnone : m.addressMap sa = none) (hexact : exact → sa ∈ m.observed) :
    Counted exact (m.allocate sa) (recordIdentified (m.poolUsage + 1) metrics) := by
  have hnew : sa ∉ m.identifiedDevices := fun h => (counted.mapped sa).mp h hnone
  have hunknown : (m.allocate sa).unknown = m.unknown.erase sa :=
    Finset.sdiff_insert m.observed m.identifiedDevices sa
  have hcount : (recordIdentified (m.poolUsage + 1) metrics).unknownDevices.toNat =
      metrics.unknownDevices.toNat - 1 := by
    rw [recordIdentified]
    dsimp only
    split
    next hpos =>
      have hle : (1 : UInt32) ≤ metrics.unknownDevices := by
        rw [UInt32.lt_iff_toNat_lt, UInt32.toNat_zero] at hpos
        rw [UInt32.le_iff_toNat_le, UInt32.toNat_one]
        exact hpos
      rw [UInt32.toNat_sub_of_le _ _ hle, UInt32.toNat_one]
    next hzero =>
      rw [UInt32.lt_iff_toNat_lt, UInt32.toNat_zero] at hzero
      omega
  refine ⟨?_, counted.masters, ?_, ?_, rfl, ?_, fun h => ?_⟩
  · show m.monitor.map _ = _
    rw [counted.monitored]
    rfl
  · intro a
    show a ∈ insert sa m.identifiedDevices ↔
      Function.update m.addressMap sa (some m.poolUsage) a ≠ none
    by_cases ha : a = sa
    · rw [ha, Function.update_self]
      exact iff_of_true (Finset.mem_insert_self ..) (Option.some_ne_none _)
    · rw [Function.update_of_ne ha, Finset.mem_insert, or_iff_right ha]
      exact counted.mapped a
  · show (insert sa m.identifiedDevices).card = m.poolUsage + 1
    rw [Finset.card_insert_of_notMem hnew, counted.usage]
  · rw [hunknown, hcount]
    exact Nat.le_trans (Nat.sub_le_sub_right counted.atMost 1) Finset.pred_card_le_card_erase
  · have hmem : sa ∈ m.unknown := Finset.mem_sdiff.mpr ⟨hexact h, hnew⟩
    rw [hunknown, hcount, counted.exact h, Finset.card_erase_of_mem hmem]

theorem Counted.updateEntry {exact : Prop} {metrics : DeviceMetrics}
    (counted : Counted exact m metrics) (sa : UInt8) (hexact : exact → sa ∈ m.observed)
    (masterView slaveView : List UInt8) :
    (∃ metrics', Counted exact (m.updateEntry sa masterView slaveView) metrics') ∧
      (m.updateEntry sa masterView slaveView).observed = m.observed := by
  rw [DeviceManager.updateEntry]
  split
  next => exact ⟨⟨metrics, counted⟩, rfl⟩
  next =>
    split
    next idx hmap =>
      exact ⟨⟨metrics, ⟨counted.monitored, counted.masters, counted.mapped, counted.usage,
        counted.identified, counted.atMost, counted.exact⟩⟩, rfl⟩
    next hnone =>
      split
      next => exact ⟨⟨metrics, counted⟩, rfl⟩
      next =>
        obtain ⟨monitored, masters, mapped, usage, identified, atMost, hcount⟩ :=
          counted.allocate hnone hexact
        exact ⟨⟨_, ⟨monitored, masters, mapped, usage, identified, atMost, hcount⟩⟩, rfl⟩

theorem Counted.update {exact : Prop} {metrics : DeviceMetrics} (counted : Counted exact m metrics)
    {v : MasterView} (slaveView : List UInt8) (hsource : isMaster v.source = true)
    (hexact : exact → m.Announced (.update v slaveView)) :
    ∃ metrics', Counted exact (m.update v slaveView) metrics' := by
  obtain ⟨metrics₁, hobserve, hgrown⟩ := counted.observe v.target hsource
  rw [DeviceManager.update]
  generalize m.observe v.source v.target = m₁ at hobserve hgrown
  have hseen : slaveOf v.source ∈ m₁.observed := by
    rw [hgrown]
    split
    · exact Finset.mem_insert_of_mem (Finset.mem_insert_self ..)
    · exact Finset.mem_insert_self ..
  rw [updateSource, if_pos hsource]
  obtain ⟨⟨metrics₂, hupdated⟩, hsame⟩ :=
    hobserve.updateEntry (slaveOf v.source) (fun _ => hseen) v.bytes []
  generalize m₁.updateEntry (slaveOf v.source) v.bytes [] = m₂ at hupdated hsame
  rw [updateTarget]
  split
  next hmaster =>
    refine (hupdated.updateEntry _ (fun h => ?_) v.bytes []).1
    have hmem := hexact h hmaster
    rw [hsame, hgrown]
    split
    · exact Finset.mem_insert_of_mem (Finset.mem_insert_of_mem hmem)
    · exact Finset.mem_insert_of_mem hmem
  next =>
    split
    next hslave =>
      refine (hupdated.updateEntry _ (fun _ => ?_) v.bytes slaveView).1
      rw [hsame, hgrown, if_pos hslave]
      exact Finset.mem_insert_self ..
    next => exact ⟨metrics₂, hupdated⟩

theorem Counted.step {exact : Prop} {metrics : DeviceMetrics} (counted : Counted exact m metrics)
    {action : Action} (hmaster : FromMaster action) (hexact : exact → m.Announced action) :
    ∃ metrics', Counted exact (m.step action) metrics' := by
  cases action with
  | setOwnAddress address =>
    exact ⟨metrics, ⟨counted.monitored, counted.masters, counted.mapped, counted.usage,
      counted.identified, counted.atMost, counted.exact⟩⟩
  | update v slaveView => exact counted.update slaveView hmaster hexact

theorem Counted.run {exact : Prop} {metrics : DeviceMetrics} (counted : Counted exact m metrics)
    {actions : List Action} (hmasters : ∀ action ∈ actions, FromMaster action)
    (hexact : exact → Runs.Meets DeviceManager.step Announced m actions) :
    ∃ metrics', Counted exact (Runs.run DeviceManager.step m actions) metrics' := by
  induction actions generalizing m metrics with
  | nil => exact ⟨metrics, counted⟩
  | cons action rest ih =>
    obtain ⟨hmaster, hrest⟩ := List.forall_mem_cons.mp hmasters
    obtain ⟨metrics', hstep⟩ := counted.step hmaster fun h => (hexact h).1
    exact ih hstep hrest fun h => (hexact h).2

end Counting

theorem counted_start (exact : Prop) (maxDevices : Nat) :
    Counted exact { monitor := some {}, maxDevices } {} where
  monitored := rfl
  masters := fun a h => absurd h (Finset.notMem_empty a)
  mapped := fun a => iff_of_false (Finset.notMem_empty a) (fun h => h rfl)
  usage := rfl
  identified := rfl
  atMost := Nat.zero_le _
  exact := fun _ => rfl

/-- With a monitor attached, and telegrams of masters: the number of devices is the number of
addresses in the table at any time. The number of unknown participants never exceeds those that
have been observed and have no device; it is exactly theirs in every run in which a master is
addressed only when it has been observed. -/
theorem run_counts (maxDevices : Nat) (actions : List Action)
    (hmasters : ∀ action ∈ actions, FromMaster action) :
    let start : DeviceManager := { monitor := some {}, maxDevices }
    let m := Runs.run step start actions
    ∃ metrics, m.monitor = some metrics ∧
      metrics.identifiedDevices.toNat = m.identifiedDevices.card ∧
      metrics.unknownDevices.toNat ≤ m.unknown.card ∧
      (Runs.Meets step Announced start actions →
        metrics.unknownDevices.toNat = m.unknown.card) := by
  intro start m
  obtain ⟨metrics, hatMost⟩ :=
    (counted_start False maxDevices).run hmasters fun h => h.elim
  refine ⟨metrics, hatMost.monitored, ?_, hatMost.atMost, fun hannounced => ?_⟩
  · have hlt : m.identifiedDevices.card < UInt32.size :=
      Nat.lt_of_le_of_lt (card_le m.identifiedDevices) (by decide)
    rw [hatMost.identified, ← hatMost.usage, UInt32.toNat_ofNat_of_lt' hlt]
  · obtain ⟨metrics', hexact⟩ := (counted_start True maxDevices).run hmasters fun _ => hannounced
    have hsame : metrics = metrics' :=
      Option.some.inj (hatMost.monitored.symm.trans hexact.monitored)
    rw [hsame]
    exact hexact.exact trivial

/-- Two masters and a slave show up, one of the masters being ourselves, who has no device. -/
theorem run_counts_own :
    let start : DeviceManager := { monitor := some {}, maxDevices := 16 }
    let m := Runs.run step start
      [.setOwnAddress 0x30, .update ⟨0x30, 0x08, []⟩ [], .update ⟨0x10, 0x30, []⟩ []]
    ∃ metrics, m.monitor = some metrics ∧
      metrics.identifiedDevices.toNat = m.identifiedDevices.card ∧
      metrics.unknownDevices.toNat ≤ m.unknown.card ∧ metrics.unknownDevices.toNat = 1 := by
  intro start m
  obtain ⟨metrics, hmonitor, hidentified, hatMost, hexact⟩ := run_counts 16
    [.setOwnAddress 0x30, .update ⟨0x30, 0x08, []⟩ [], .update ⟨0x10, 0x30, []⟩ []]
    (List.forall_mem_cons.mpr ⟨trivial, List.forall_mem_cons.mpr ⟨rfl,
      List.forall_mem_cons.mpr ⟨rfl, List.forall_mem_nil _⟩⟩⟩)
  refine ⟨metrics, hmonitor, hidentified, hatMost, (hexact ?_).trans ?_⟩
  · refine ⟨trivial, ?_, ?_, trivial⟩
    · intro h
      exact absurd h (by decide)
    · intro _
      decide +kernel
  · decide

end DeviceManager

end Ebus
