import Ebus.App.DeviceManager
import Ebus.Lib.Run
import Ebus.Lib.Slots

/-!
# The table of devices stays consistent

The addresses with a slot are exactly those of the slots in use, one for each, and the slot of an
address holds its device. An update never moves a device, and it changes no device but those of its
source and of its target. The second part asks when the search for pending commands answers for the
device it is asked about.
-/

namespace Ebus

namespace DeviceManager

structure Consistent (m : DeviceManager) : Prop where
  slots : Slots.Valid m.addressMap m.poolUsage
  usage_le : m.poolUsage ≤ m.maxDevices
  identified : ∀ a, a ∈ m.identifiedDevices ↔ m.addressMap a ≠ none
  carries : ∀ {a i}, m.addressMap a = some i → (m.devicePool i).slave = a
  /-- a device is identified once there is data of it -/
  data : ∀ i, (m.devicePool i).identified = true ↔ (m.devicePool i).vec070400 ≠ []

/-- Devices keep their slots, and only those of the given addresses change. -/
structure Extends (touched : UInt8 → Prop) (m m' : DeviceManager) : Prop where
  maps : ∀ {a i}, m.addressMap a = some i → m'.addressMap a = some i
  entries : ∀ i, m'.devicePool i ≠ m.devicePool i → ∃ a, m'.addressMap a = some i ∧ touched a

/-- The slave addresses of the source and of the target of an update. -/
def touched : Action → UInt8 → Prop
  | .setOwnAddress _, _ => False
  | .update v _, a =>
      a = slaveOf v.source ∨ isMaster v.target = true ∧ a = slaveOf v.target ∨
        isSlave v.target = true ∧ a = v.target

namespace Extends

variable {touched touched' : UInt8 → Prop} {m m' m'' : DeviceManager}

theorem refl (m : DeviceManager) : Extends touched m m := ⟨id, fun _ h => absurd rfl h⟩

theorem mono (h : Extends touched m m') (himp : ∀ a, touched a → touched' a) :
    Extends touched' m m' := by
  refine ⟨h.maps, fun i hi => ?_⟩
  obtain ⟨a, ha, htouched⟩ := h.entries i hi
  exact ⟨a, ha, himp a htouched⟩

theorem trans (h : Extends touched m m') (h' : Extends touched m' m'') :
    Extends touched m m'' := by
  refine ⟨fun ha => h'.maps (h.maps ha), fun i hi => ?_⟩
  by_cases hsame : m'.devicePool i = m.devicePool i
  · exact h'.entries i (hsame ▸ hi)
  · obtain ⟨a, ha, htouched⟩ := h.entries i hsame
    exact ⟨a, h'.maps ha, htouched⟩

end Extends

@[simp] theorem slave_update (d : Device) (slaveAddr : UInt8) (masterView slaveView : List UInt8) :
    (d.update slaveAddr masterView slaveView).slave = slaveAddr := by
  rw [Device.update]
  split
  · rfl
  · simp only [Device.store]
    repeat' split
    all_goals rfl

/-- The data of the identification is replaced by other data at most. -/
theorem identified_update {d : Device} (h : d.identified = true ↔ d.vec070400 ≠ [])
    (slaveAddr : UInt8) (masterView slaveView : List UInt8) :
    (d.update slaveAddr masterView slaveView).identified = true ↔
      (d.update slaveAddr masterView slaveView).vec070400 ≠ [] := by
  rw [Device.update]
  split
  · exact h
  · rename_i hsome
    simp only [List.isEmpty_iff] at hsome
    generalize hstored :
      Device.store { d with slave := slaveAddr, messageCount := d.messageCount + 1 } masterView
        slaveView = stored
    have hkept : stored.identified = d.identified ∧
        (stored.vec070400 = d.vec070400 ∨ stored.vec070400 ≠ []) := by
      rw [← hstored, Device.store]
      repeat' split
      all_goals first | exact ⟨rfl, .inl rfl⟩ | exact ⟨rfl, .inr hsome⟩
    simp only [Bool.not_eq_true', List.isEmpty_eq_false_iff]
    split
    · rename_i hdata
      exact iff_of_true rfl hdata
    · rename_i hnone
      obtain ⟨hidentified, hsame | hdata⟩ := hkept
      · rw [hidentified, hsame]
        exact h
      · exact absurd hdata hnone

section Parts
variable {m : DeviceManager} {touched : UInt8 → Prop}

/-- What the monitor is told does not touch the table. -/
theorem observe_consistent (h : Consistent m) (source target : UInt8) :
    Consistent (m.observe source target) ∧
      Extends touched m (m.observe source target) ∧
      (m.observe source target).maxDevices = m.maxDevices := by
  rw [observe]
  split
  · exact ⟨h, .refl m, rfl⟩
  · dsimp only
    split
    · exact ⟨⟨h.slots, h.usage_le, h.identified, h.carries, h.data⟩,
        ⟨id, fun _ hne => absurd rfl hne⟩, rfl⟩
    · exact ⟨⟨h.slots, h.usage_le, h.identified, h.carries, h.data⟩,
        ⟨id, fun _ hne => absurd rfl hne⟩, rfl⟩

theorem updateDevice_consistent {idx : Nat} {slaveAddr : UInt8}
    (hslots : Slots.Valid m.addressMap m.poolUsage)
    (husage : m.poolUsage ≤ m.maxDevices)
    (hidentified : ∀ a, a ∈ m.identifiedDevices ↔ m.addressMap a ≠ none)
    (hcarries : ∀ {a i}, m.addressMap a = some i → i ≠ idx → (m.devicePool i).slave = a)
    (hdata : ∀ i, (m.devicePool i).identified = true ↔ (m.devicePool i).vec070400 ≠ [])
    (hmap : m.addressMap slaveAddr = some idx) (masterView slaveView : List UInt8) :
    Consistent (m.updateDevice idx slaveAddr masterView slaveView) := by
  refine ⟨hslots, husage, hidentified, fun {a i} ha => ?_, fun i => ?_⟩
  · change (Function.update m.devicePool idx _ i).slave = a
    by_cases hi : i = idx
    · rw [hi, Function.update_self, slave_update]
      exact hslots.injective hmap (hi ▸ ha)
    · rw [Function.update_of_ne hi]
      exact hcarries ha hi
  · change (Function.update m.devicePool idx _ i).identified = true ↔
      (Function.update m.devicePool idx _ i).vec070400 ≠ []
    by_cases hi : i = idx
    · rw [hi, Function.update_self]
      exact identified_update (hdata idx) slaveAddr masterView slaveView
    · rw [Function.update_of_ne hi]
      exact hdata i

theorem entries_updateDevice {idx i : Nat} {slaveAddr : UInt8} {masterView slaveView : List UInt8}
    (h : (m.updateDevice idx slaveAddr masterView slaveView).devicePool i ≠ m.devicePool i) :
    i = idx := by
  by_contra hi
  exact h (Function.update_of_ne hi ..)

theorem updateEntry_consistent (h : Consistent m) {slaveAddr : UInt8} (htouched : touched slaveAddr)
    (masterView slaveView : List UInt8) :
    Consistent (m.updateEntry slaveAddr masterView slaveView) ∧
      Extends touched m (m.updateEntry slaveAddr masterView slaveView) ∧
      (m.updateEntry slaveAddr masterView slaveView).maxDevices = m.maxDevices := by
  rw [updateEntry]
  split
  · exact ⟨h, .refl m, rfl⟩
  · split
    · rename_i idx hmap
      refine ⟨updateDevice_consistent h.slots h.usage_le h.identified (fun ha _ => h.carries ha)
        h.data hmap masterView slaveView, ⟨id, fun i hi => ?_⟩, rfl⟩
      rw [entries_updateDevice hi]
      exact ⟨slaveAddr, hmap, htouched⟩
    · rename_i hmap
      split
      · exact ⟨h, .refl m, rfl⟩
      · rename_i hroom
        have hmap' : (m.allocate slaveAddr).addressMap slaveAddr = some m.poolUsage :=
          Function.update_self ..
        refine ⟨updateDevice_consistent (m := m.allocate slaveAddr) (h.slots.alloc hmap)
          (Nat.lt_of_not_le hroom) ?_ ?_ h.data hmap' masterView slaveView, ⟨?_, ?_⟩, rfl⟩
        · intro a
          change a ∈ insert slaveAddr m.identifiedDevices ↔
            Function.update m.addressMap slaveAddr (some m.poolUsage) a ≠ none
          by_cases ha : a = slaveAddr
          · rw [ha, Function.update_self]
            exact iff_of_true (Finset.mem_insert_self ..) (Option.some_ne_none _)
          · rw [Function.update_of_ne ha, Finset.mem_insert, or_iff_right ha]
            exact h.identified a
        · intro a i ha hi
          obtain ⟨-, rfl⟩ | ⟨-, hold⟩ := Slots.update_eq_some ha
          · exact absurd rfl hi
          · exact h.carries hold
        · exact fun ha => Slots.update_of_some hmap ha
        · intro i hi
          rw [entries_updateDevice (m := m.allocate slaveAddr) hi]
          exact ⟨slaveAddr, hmap', htouched⟩

end Parts

theorem step_consistent {m : DeviceManager} (h : Consistent m) (action : Action) :
    Consistent (m.step action) ∧ Extends (touched action) m (m.step action) ∧
      (m.step action).maxDevices = m.maxDevices := by
  cases action with
  | setOwnAddress address =>
      exact ⟨⟨h.slots, h.usage_le, h.identified, h.carries, h.data⟩,
        ⟨id, fun _ hne => absurd rfl hne⟩, rfl⟩
  | update v slaveView =>
      obtain ⟨hobserved, hext, hmax⟩ := @observe_consistent m
        (touched (.update v slaveView)) h v.source v.target
      change Consistent (((m.observe v.source v.target).updateSource v).updateTarget v slaveView) ∧
        Extends _ m (((m.observe v.source v.target).updateSource v).updateTarget v slaveView) ∧
        (((m.observe v.source v.target).updateSource v).updateTarget v slaveView).maxDevices =
          m.maxDevices
      generalize m.observe v.source v.target = m₁ at hobserved hext hmax
      have hsource : Consistent (m₁.updateSource v) ∧
          Extends (touched (.update v slaveView)) m₁ (m₁.updateSource v) ∧
          (m₁.updateSource v).maxDevices = m₁.maxDevices := by
        rw [updateSource]
        split
        · exact updateEntry_consistent hobserved (.inl rfl) _ _
        · exact ⟨hobserved, .refl m₁, rfl⟩
      obtain ⟨hupdated, hext', hmax'⟩ := hsource
      generalize m₁.updateSource v = m₂ at hupdated hext' hmax'
      have htarget : Consistent (m₂.updateTarget v slaveView) ∧
          Extends (touched (.update v slaveView)) m₂ (m₂.updateTarget v slaveView) ∧
          (m₂.updateTarget v slaveView).maxDevices = m₂.maxDevices := by
        rw [updateTarget]
        split
        · rename_i hmaster
          exact updateEntry_consistent hupdated (.inr (.inl ⟨hmaster, rfl⟩)) _ _
        · split
          · rename_i hslave
            exact updateEntry_consistent hupdated (.inr (.inr ⟨hslave, rfl⟩)) _ _
          · exact ⟨hupdated, .refl m₂, rfl⟩
      exact ⟨htarget.1, (hext.trans hext').trans htarget.2.1,
        htarget.2.2.trans (hmax'.trans hmax)⟩

/-- A manager at the start. -/
def create (monitor : Option DeviceMetrics) (maxDevices : Nat) : DeviceManager :=
  { monitor, maxDevices }

theorem create_consistent (monitor : Option DeviceMetrics) (maxDevices : Nat) :
    Consistent (create monitor maxDevices) where
  slots := Slots.valid_empty
  usage_le := Nat.zero_le _
  identified _ := iff_of_false (Finset.notMem_empty _) (fun h => h rfl)
  carries h := by cases h
  data _ := iff_of_false Bool.false_ne_true (fun h => h rfl)

theorem consistent_run (monitor : Option DeviceMetrics) (maxDevices : Nat)
    (actions : List Action) :
    Consistent (Runs.run step (create monitor maxDevices) actions) ∧
      (Runs.run step (create monitor maxDevices) actions).maxDevices = maxDevices := by
  refine Runs.invariant_always (I := fun m => Consistent m ∧ m.maxDevices = maxDevices) ?_
    ⟨create_consistent monitor maxDevices, rfl⟩ actions
  rintro m action ⟨hm, hmax⟩
  obtain ⟨hstep, -, hmax'⟩ := step_consistent hm action
  exact ⟨hstep, hmax'.trans hmax⟩

/-- After any calls the table is consistent, and the next call keeps every slot and changes only
the devices that it is about. -/
theorem run_consistent (monitor : Option DeviceMetrics) (maxDevices : Nat) (actions : List Action)
    (action : Action) :
    let m := Runs.run step (create monitor maxDevices) actions
    Consistent m ∧ m.poolUsage ≤ maxDevices ∧ Extends (touched action) m (m.step action) := by
  have hrun := consistent_run monitor maxDevices actions
  exact ⟨hrun.1, hrun.1.usage_le.trans_eq hrun.2, (step_consistent hrun.1 action).2.1⟩

/-- The identification has been received and names the vendor, and one of the four blocks has
not. -/
def lacksBlock (d : Device) : Bool :=
  !d.vec070400.isEmpty && d.isVaillant && d.storageFields.any List.isEmpty

def Lacking (m : DeviceManager) (addr : UInt8) : Prop := (m.device addr).any lacksBlock = true

/-- No device behind `addr` lacks a block, or it does not matter. -/
def Undisturbed (m : DeviceManager) (addr : UInt8) : Prop :=
  m.isIdentified addr = true → Lacking m addr ∨ ∀ other, addr < other → ¬ Lacking m other

theorem isSome_missingBlock (d : Device) :
    (d.missingBlock 0).isSome = d.storageFields.any List.isEmpty := by
  rw [Device.missingBlock, Device.storageFields]
  cases d.vecB5090124 <;> cases d.vecB5090125 <;> cases d.vecB5090126 <;> cases d.vecB5090127 <;>
    rfl

theorem isSome_getFirstPendingVendorCommand (d : Device) :
    d.getFirstPendingVendorCommand.isSome = lacksBlock d := by
  rw [Device.getFirstPendingVendorCommand, lacksBlock, ← isSome_missingBlock]
  cases hvaillant : d.isVaillant with
  | true =>
      have hdata : d.vec070400.isEmpty = false := by
        rw [Device.isVaillant, Bool.and_eq_true, decide_eq_true_eq] at hvaillant
        exact List.isEmpty_eq_false_iff.mpr (List.ne_nil_of_length_pos (by omega))
      rw [if_pos rfl, Option.isSome_map, hdata]
      rfl
  | false => rw [if_neg Bool.false_ne_true, Bool.and_false, Bool.false_and]; rfl

theorem findNextPendingVendorCommand_lt_iff {m : DeviceManager} {addr : UInt8} :
    (m.findNextPendingVendorCommand addr.toNat).1 < 256 ↔
      ∃ other, addr ≤ other ∧ Lacking m other := by
  have hpending (n : Nat) :
      ((m.device (.ofNat n)).bind Device.getFirstPendingVendorCommand).isSome = true ↔
        Lacking m (.ofNat n) := by
    rw [Lacking]
    cases m.device (.ofNat n) with
    | none => exact iff_of_false Bool.false_ne_true Bool.false_ne_true
    | some d => exact (isSome_getFirstPendingVendorCommand d).congr_left
  rw [findNextPendingVendorCommand]
  dsimp only
  split
  · rename_i n hfound
    have hn := List.mem_of_find?_eq_some hfound
    rw [List.mem_range'_1] at hn
    have hlt : n < 256 := by
      have := addr.toNat_lt
      omega
    have hsome := List.find?_some hfound
    refine iff_of_true hlt ⟨.ofNat n, ?_, (hpending n).mp hsome⟩
    rw [UInt8.le_iff_toNat_le, UInt8.toNat_ofNat_of_lt' hlt]
    exact hn.1
  · rename_i hnone
    refine iff_of_false (Nat.lt_irrefl _) ?_
    rintro ⟨other, hle, hlacking⟩
    have hmem : other.toNat ∈ List.range' addr.toNat (256 - addr.toNat) := by
      rw [List.mem_range'_1]
      have := other.toNat_lt
      have := UInt8.le_iff_toNat_le.mp hle
      omega
    have hnot := List.find?_eq_none.mp hnone other.toNat hmem
    rw [hpending, UInt8.ofNat_toNat] at hnot
    exact hnot hlacking

theorem needsDeepScan_iff {m : DeviceManager} {addr : UInt8} :
    m.needsDeepScan addr = true ↔
      m.isIdentified addr = true ∧ ∃ other, addr ≤ other ∧ Lacking m other := by
  rw [needsDeepScan, Bool.and_eq_true, decide_eq_true_eq, findNextPendingVendorCommand_lt_iff]

theorem isIdentified_of_lacking {m : DeviceManager} (h : Consistent m) {addr : UInt8}
    (hlacking : Lacking m addr) : m.isIdentified addr = true := by
  rw [Lacking, device] at hlacking
  rw [isIdentified, device]
  cases hmap : m.addressMap addr with
  | none =>
      rw [hmap] at hlacking
      cases hlacking
  | some i =>
      rw [hmap] at hlacking
      have hdata : (m.devicePool i).vec070400 ≠ [] := by
        simp only [Option.map_some, Option.any_some, lacksBlock, Bool.and_eq_true,
          Bool.not_eq_true', List.isEmpty_eq_false_iff] at hlacking
        exact hlacking.1.1
      exact (h.data i).mpr hdata

/-- An answer about another device is given exactly where one behind it lacks a block. -/
theorem needsDeepScan_iff_lacking {m : DeviceManager} (h : Consistent m) {addr : UInt8} :
    (m.needsDeepScan addr = true ↔ Lacking m addr) ↔ Undisturbed m addr := by
  rw [needsDeepScan_iff]
  constructor
  · intro hown hidentified
    by_cases hlacking : Lacking m addr
    · exact .inl hlacking
    · refine .inr fun other hlt hother => hlacking (hown.mp ⟨hidentified, other, ?_, hother⟩)
      exact UInt8.le_of_lt hlt
  · intro hundisturbed
    constructor
    · rintro ⟨hidentified, other, hle, hother⟩
      obtain hlacking | hnone := hundisturbed hidentified
      · exact hlacking
      · by_cases heq : addr = other
        · exact heq ▸ hother
        · exact absurd hother (hnone other (UInt8.lt_of_le_of_ne hle heq))
    · exact fun hlacking =>
        ⟨isIdentified_of_lacking h hlacking, addr, UInt8.le_refl addr, hlacking⟩

/-- In every state that calls lead to `needsDeepScan` looks at its own device exactly where it is
undisturbed, and two states with the same device answer alike exactly where both are or neither. -/
theorem run_needsDeepScan_iff (monitor monitor' : Option DeviceMetrics)
    (maxDevices maxDevices' : Nat) (actions actions' : List Action) (addr : UInt8) :
    let m := Runs.run step (create monitor maxDevices) actions
    let m' := Runs.run step (create monitor' maxDevices') actions'
    ((m.needsDeepScan addr = true ↔ Lacking m addr) ↔ Undisturbed m addr) ∧
      (m.device addr = m'.device addr →
        (m.needsDeepScan addr = m'.needsDeepScan addr ↔
          (Undisturbed m addr ↔ Undisturbed m' addr))) := by
  have hm := (consistent_run monitor maxDevices actions).1
  have hm' := (consistent_run monitor' maxDevices' actions').1
  generalize Runs.run step (create monitor maxDevices) actions = m at hm
  generalize Runs.run step (create monitor' maxDevices') actions' = m' at hm'
  refine ⟨needsDeepScan_iff_lacking hm, fun hdevice => ?_⟩
  have hidentified : m.isIdentified addr = m'.isIdentified addr := by
    rw [isIdentified, isIdentified, hdevice]
  have hlacking : Lacking m addr ↔ Lacking m' addr := by
    rw [Lacking, Lacking, hdevice]
  rw [← needsDeepScan_iff_lacking hm, ← needsDeepScan_iff_lacking hm', hlacking, Bool.eq_iff_iff]
  tauto

/-- Device 0x08 is complete, but device 0x15 is not. -/
theorem not_needsDeepScan_own :
    ¬ ∀ (actions : List Action) (addr : UInt8),
      let m := Runs.run step (create none DeviceLimits.maxDevices) actions
      m.needsDeepScan addr = true ↔ Lacking m addr := by
  intro h
  have hown := h
    [.update ⟨0x10, 0x08, [0x07, 0x04, 0x00]⟩ [0x02, 0xb5, 0x01],
      .update ⟨0x10, 0x08, [0xb5, 0x09, 0x01, 0x24]⟩ [0x01, 0x00],
      .update ⟨0x10, 0x08, [0xb5, 0x09, 0x01, 0x25]⟩ [0x01, 0x00],
      .update ⟨0x10, 0x08, [0xb5, 0x09, 0x01, 0x26]⟩ [0x01, 0x00],
      .update ⟨0x10, 0x08, [0xb5, 0x09, 0x01, 0x27]⟩ [0x01, 0x00],
      .update ⟨0x10, 0x15, [0x07, 0x04, 0x00]⟩ [0x02, 0xb5, 0x01]] 0x08
  have hneeds := hown.mp (by decide)
  exact absurd hneeds (by unfold Lacking; decide)

end DeviceManager

end Ebus
