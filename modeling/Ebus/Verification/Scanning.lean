import Ebus.App.DeviceScanner
import Ebus.Lib.Run
import Ebus.Verification.DeviceTable

/-!
# The passes of `nextCommand`

What each loop of `nextCommand` can do to the scanner, and that the loops end: an inner loop uses
up the pending addresses or goes on to the next of all addresses, and the outer one is repeated only
after a startup scan, of which there are no more than 255.
-/

namespace Ebus

namespace DeviceScanner

/-- The addresses that the loop over pending addresses may come to. -/
def Candidate (s : DeviceScanner) (a : UInt8) : Prop :=
  s.currentDeepScanAddress ≠ 256 ∧ a = .ofNat s.currentDeepScanAddress ∨ a ∈ s.pendingDeepScans

/-- The address that a command is sent to. -/
def target (cmd : Sequence) : Option UInt8 := cmd.bytes.head?

/-- What the loop over pending addresses changes. -/
structure Searched (now : Int64) (s s' : DeviceScanner) : Prop where
  rest : s' =
    { s with
      currentDeepScanAddress := s'.currentDeepScanAddress
      currentDeepScanVendorCursor := s'.currentDeepScanVendorCursor
      pendingDeepScans := s'.pendingDeepScans
      lastScanAttempt := s'.lastScanAttempt }
  candidates : ∀ {a}, s'.Candidate a → s.Candidate a
  bounded : s.currentDeepScanAddress ≤ 256 → s'.currentDeepScanAddress ≤ 256
  attempt : s'.lastScanAttempt = s.lastScanAttempt ∨ s'.lastScanAttempt = now

namespace Searched

variable {now : Int64} {s s' s'' : DeviceScanner}

theorem refl (now : Int64) (s : DeviceScanner) : Searched now s s := ⟨rfl, id, id, .inl rfl⟩

theorem trans (h : Searched now s s') (h' : Searched now s' s'') : Searched now s s'' := by
  refine ⟨?_, fun ha => h.candidates (h'.candidates ha), fun hle => h'.bounded (h.bounded hle), ?_⟩
  · rw [h'.rest, h.rest]
  · obtain heq | heq := h'.attempt
    · rw [heq]
      exact h.attempt
    · exact .inr heq

/-- Dropping the current address. -/
theorem drop (h : Searched now s s') (cursor : Nat) {attempt : Int64}
    (hattempt : attempt = s'.lastScanAttempt ∨ attempt = now) :
    Searched now s
      { s' with
        currentDeepScanAddress := 256, currentDeepScanVendorCursor := cursor
        lastScanAttempt := attempt } := by
  refine h.trans ⟨rfl, ?_, fun _ => le_rfl, hattempt⟩
  rintro a (⟨hne, -⟩ | ha)
  · exact absurd rfl hne
  · exact .inr ha

end Searched

theorem mem_addresses (a : UInt8) : a ∈ addresses :=
  List.mem_map.mpr ⟨a.toNat, List.mem_range.mpr a.toNat_lt, UInt8.ofNat_toNat ..⟩

/-- The current address is kept, or a pending one is taken. -/
theorem takePending_cases (s : DeviceScanner) :
    s.currentDeepScanAddress ≠ 256 ∧ s.takePending = s ∨
      (∃ i ∈ s.pendingDeepScans, s.currentDeepScanAddress = 256 ∧
        s.takePending =
          { s with
            currentDeepScanAddress := i.toNat
            currentDeepScanVendorCursor := 0
            pendingDeepScans := s.pendingDeepScans.erase i }) ∨
      s.currentDeepScanAddress = 256 ∧ s.pendingDeepScans = ∅ ∧ s.takePending = s := by
  rw [takePending]
  split
  · rename_i hnone
    split
    · rename_i i hfound
      have hmem := List.find?_some hfound
      exact .inr (.inl ⟨i, of_decide_eq_true hmem, hnone, rfl⟩)
    · rename_i hnot
      refine .inr (.inr ⟨hnone, Finset.eq_empty_of_forall_notMem fun a ha => ?_, rfl⟩)
      exact List.find?_eq_none.mp hnot a (mem_addresses a) (decide_eq_true ha)
  · rename_i hsome
    exact .inl ⟨hsome, rfl⟩

/-- How many passes the loop has left at most. -/
def deepMeasure (s : DeviceScanner) : Nat :=
  s.pendingDeepScans.card + if s.currentDeepScanAddress = 256 then 0 else 1

/-- Taking an address leaves it as the current one and no new candidates. -/
theorem takePending_searched {s : DeviceScanner} (now : Int64)
    (h : s.currentDeepScanAddress < 256 ∨ s.pendingDeepScans.Nonempty) :
    Searched now s s.takePending ∧ s.takePending.currentDeepScanAddress ≠ 256 ∧
      s.takePending.pendingDeepScans.card < s.deepMeasure := by
  obtain ⟨hsome, htake⟩ | ⟨i, hi, hnone, htake⟩ | ⟨hnone, hempty, -⟩ := takePending_cases s
  · rw [htake, deepMeasure, if_neg hsome]
    exact ⟨.refl now s, hsome, Nat.lt_succ_self _⟩
  · rw [htake, deepMeasure, if_pos hnone]
    refine ⟨⟨rfl, ?_, fun _ => i.toNat_lt.le, .inl rfl⟩, ?_, Finset.card_erase_lt_of_mem hi⟩
    · rintro a (⟨-, rfl⟩ | ha)
      · right
        rwa [UInt8.ofNat_toNat]
      · exact .inr (Finset.mem_of_mem_erase ha)
    · exact Nat.ne_of_lt i.toNat_lt
  · rw [hnone, hempty] at h
    obtain hlt | ⟨a, ha⟩ := h
    · exact absurd hlt (Nat.lt_irrefl _)
    · exact absurd ha (Finset.notMem_empty a)

theorem target_createScanCommand (a : UInt8) : target (Device.createScanCommand a) = some a := by
  rw [target, Device.createScanCommand, Device.bytes_commandTo]
  rfl

/-- A command for a device goes to the device. -/
theorem target_getNextPendingVendorCommandForDevice {m : DeviceManager} (hm : m.Consistent)
    {a : UInt8} {cursor cursor' : Nat} {cmd : Sequence}
    (h : m.getNextPendingVendorCommandForDevice a cursor = (some cmd, cursor')) :
    target cmd = some a := by
  rw [DeviceManager.getNextPendingVendorCommandForDevice, DeviceManager.device] at h
  cases hmap : m.addressMap a with
  | none =>
      rw [hmap] at h
      cases h
  | some idx =>
      rw [hmap] at h
      simp only [Option.map_some, Device.getNextPendingVendorCommand] at h
      repeat' split at h
      all_goals first
        | (cases h; done)
        | (obtain ⟨hcmd, -⟩ := Prod.mk.inj h
           rw [← Option.some.inj hcmd, target, Device.vendorCommand, Device.bytes_commandTo,
             hm.carries hmap]
           rfl)

theorem createScanCommand_empty (a : UInt8) : (Device.createScanCommand a).empty = false := by
  rw [Sequence.empty, Device.createScanCommand, Device.bytes_commandTo]
  rfl

/-- There is a command for an address and a cursor. -/
def Serves (m : DeviceManager) (s : DeviceScanner) (a : UInt8) (cursor : Nat) : Prop :=
  a ∉ s.failedScans ∧ a ∉ s.quarantinedScans ∧
    (m.isIdentified a = true → (m.getNextPendingVendorCommandForDevice a cursor).1.isSome = true)

/-- There is no command for any candidate. -/
def DeepIdle (m : DeviceManager) (s : DeviceScanner) : Prop :=
  (s.currentDeepScanAddress ≠ 256 →
    ¬ s.Serves m (.ofNat s.currentDeepScanAddress) s.currentDeepScanVendorCursor) ∧
  ∀ a ∈ s.pendingDeepScans, ¬ s.Serves m a 0

/-- The address that is taken comes first, the others are the candidates once it is dropped. -/
theorem deepIdle_iff {m : DeviceManager} {s : DeviceScanner}
    (h : s.currentDeepScanAddress < 256 ∨ s.pendingDeepScans.Nonempty) (cursor : Nat) :
    s.DeepIdle m ↔
      ¬ s.takePending.Serves m (.ofNat s.takePending.currentDeepScanAddress)
        s.takePending.currentDeepScanVendorCursor ∧
      DeepIdle m { s.takePending with currentDeepScanVendorCursor := cursor }.dropCurrent := by
  obtain ⟨hsome, htake⟩ | ⟨i, hi, hnone, htake⟩ | ⟨hnone, hempty, -⟩ := takePending_cases s
  · rw [htake]
    exact ⟨fun hidle => ⟨hidle.1 hsome, fun hne => absurd rfl hne, hidle.2⟩,
      fun hidle => ⟨fun _ => hidle.1, hidle.2.2⟩⟩
  · rw [htake]
    dsimp only
    rw [UInt8.ofNat_toNat]
    constructor
    · exact fun hidle => ⟨hidle.2 i hi, fun hne => absurd rfl hne,
        fun a ha => hidle.2 a (Finset.mem_of_mem_erase ha)⟩
    · rintro ⟨hfirst, -, hrest⟩
      refine ⟨fun hne => absurd hnone hne, fun a ha => ?_⟩
      by_cases heq : a = i
      · rw [heq]
        exact hfirst
      · exact hrest a (Finset.mem_erase.mpr ⟨heq, ha⟩)
  · rw [hnone, hempty] at h
    obtain hlt | ⟨a, ha⟩ := h
    · exact absurd hlt (Nat.lt_irrefl _)
    · exact absurd ha (Finset.notMem_empty a)

theorem deepScanBody_continues {m : DeviceManager} {now : Int64} {s s' : DeviceScanner}
    (h : deepScanBody m now s = .inl s') :
    Searched now s s' ∧ s'.deepMeasure < s.deepMeasure ∧ (s.DeepIdle m ↔ s'.DeepIdle m) := by
  rw [deepScanBody] at h
  split at h
  · rename_i hmore
    obtain ⟨hsearched, hsome, hcard⟩ := takePending_searched now hmore
    have hidle := deepIdle_iff (m := m) hmore
    generalize s.takePending = t at h hsearched hsome hcard hidle
    -- an address that is not served is dropped
    have hdropped (cursor : Nat)
        (hnot : ¬ t.Serves m (.ofNat t.currentDeepScanAddress) t.currentDeepScanVendorCursor)
        (hs' : { t with currentDeepScanVendorCursor := cursor }.dropCurrent = s') :
        Searched now s s' ∧ s'.deepMeasure < s.deepMeasure ∧
          (s.DeepIdle m ↔ s'.DeepIdle m) := by
      rw [← hs']
      exact ⟨hsearched.drop cursor (.inl rfl), hcard, (hidle cursor).trans (and_iff_right hnot)⟩
    dsimp only at h
    rw [if_neg hsome] at h
    split at h
    · rename_i hheld
      refine hdropped t.currentDeepScanVendorCursor ?_ (Sum.inl.inj h)
      rintro ⟨hfailed, hquarantined, -⟩
      obtain hin | hin := hheld
      · exact hfailed hin
      · exact hquarantined hin
    · split at h
      · rw [createScanCommand_empty] at h
        cases h
      · rename_i hidentified
        split at h
        · cases h
        · rename_i cursor hnone
          refine hdropped cursor ?_ (Sum.inl.inj h)
          rintro ⟨-, -, hserved⟩
          rw [hnone] at hserved
          rw [Bool.not_eq_true', Bool.not_eq_false] at hidentified
          exact Bool.false_ne_true (hserved hidentified)
  · cases h

theorem deepScanBody_searched {m : DeviceManager} {now : Int64} {s s' : DeviceScanner}
    {cmd : Option Sequence} (h : deepScanBody m now s = .inr (s', cmd)) : Searched now s s' := by
  rw [deepScanBody] at h
  split at h
  · rename_i hmore
    obtain ⟨hsearched, -, -⟩ := takePending_searched now hmore
    generalize s.takePending = t at h hsearched
    dsimp only at h
    repeat' split at h
    all_goals first
      | (cases h; done)
      | (cases Sum.inr.inj h; exact hsearched)
      | (cases Sum.inr.inj h; exact hsearched.drop _ (.inr rfl))
      | (cases Sum.inr.inj h; exact hsearched.trans ⟨rfl, id, id, .inr rfl⟩)
  · cases Sum.inr.inj h
    exact .refl now s

/-- Each command is for a candidate that is neither on cooldown nor in quarantine. -/
theorem deepScanBody_returns {m : DeviceManager} (hm : m.Consistent) {now : Int64}
    {s s' : DeviceScanner} (hle : s.currentDeepScanAddress ≤ 256) {cmd : Option Sequence}
    (h : deepScanBody m now s = .inr (s', cmd)) :
    (∀ c ∈ cmd, ∃ a, s.Candidate a ∧ a ∉ s.failedScans ∧ a ∉ s.quarantinedScans ∧
        target c = some a) ∧
      (cmd = none → s'.pendingDeepScans = ∅) ∧ (cmd = none ↔ s.DeepIdle m) := by
  rw [deepScanBody] at h
  split at h
  · rename_i hmore
    obtain ⟨hsearched, hsome, -⟩ := takePending_searched now hmore
    have hfailed : s.takePending.failedScans = s.failedScans := by rw [hsearched.rest]
    have hquarantined : s.takePending.quarantinedScans = s.quarantinedScans := by
      rw [hsearched.rest]
    have hidle := deepIdle_iff (m := m) hmore
    generalize s.takePending = t at h hsearched hsome hfailed hquarantined hidle
    have hcandidate : s.Candidate (.ofNat t.currentDeepScanAddress) :=
      hsearched.candidates (.inl ⟨hsome, rfl⟩)
    dsimp only at h
    rw [if_neg hsome] at h
    split at h
    · cases h
    · rename_i hfree
      rw [not_or] at hfree
      -- a command says that the address is served
      have hcommand {c : Sequence}
          (hserved : m.isIdentified (.ofNat t.currentDeepScanAddress) = true →
            (m.getNextPendingVendorCommandForDevice (.ofNat t.currentDeepScanAddress)
              t.currentDeepScanVendorCursor).1.isSome = true)
          (htarget : target c = some (.ofNat t.currentDeepScanAddress)) :
          (∀ c' ∈ some c, ∃ a, s.Candidate a ∧ a ∉ s.failedScans ∧ a ∉ s.quarantinedScans ∧
            target c' = some a) ∧
          (some c = none → s'.pendingDeepScans = ∅) ∧ (some c = none ↔ s.DeepIdle m) := by
        refine ⟨?_, fun hnone => absurd hnone (Option.some_ne_none c),
          iff_of_false (Option.some_ne_none c) ?_⟩
        · rintro c' ⟨⟩
          exact ⟨_, hcandidate, hfailed ▸ hfree.1, hquarantined ▸ hfree.2, htarget⟩
        · exact fun hall => ((hidle 0).mp hall).1 ⟨hfree.1, hfree.2, hserved⟩
      split at h
      · rename_i hnew
        rw [createScanCommand_empty, Bool.not_false, if_pos rfl] at h
        cases Sum.inr.inj h
        refine hcommand (fun hidentified => ?_) (target_createScanCommand _)
        rw [hidentified] at hnew
        cases hnew
      · split at h
        · rename_i c cursor hcmd
          cases Sum.inr.inj h
          refine hcommand (fun _ => ?_) (target_getNextPendingVendorCommandForDevice hm hcmd)
          rw [hcmd]
          rfl
        · cases h
  · rename_i hnone
    cases Sum.inr.inj h
    rw [not_or, Finset.not_nonempty_iff_eq_empty] at hnone
    refine ⟨fun _ hc => absurd hc (Option.not_mem_none _), fun _ => hnone.2,
      iff_of_true rfl ⟨fun hne => absurd (Nat.lt_of_le_of_ne hle hne) hnone.1, ?_⟩⟩
    rw [hnone.2]
    exact fun a ha => absurd ha (Finset.notMem_empty a)

theorem deepScan_searched {m : DeviceManager} {now : Int64} {fuel : Nat} {s s' : DeviceScanner}
    {cmd : Option Sequence} (h : s.deepScan m now fuel = some (s', cmd)) :
    Searched now s s' := by
  refine Loop.run_induct (I := Searched now s) (Q := fun r => Searched now s r.1) ?_ ?_
    (.refl now s) h
  · intro t t' ht hbody
    exact ht.trans (deepScanBody_continues (Option.some.inj hbody)).1
  · rintro t ⟨t', cmd⟩ ht hbody
    exact ht.trans (deepScanBody_searched (Option.some.inj hbody))

/-- The loop: a command for a candidate, or none when there is no command for any. -/
theorem deepScan_returns {m : DeviceManager} (hm : m.Consistent) {now : Int64} {fuel : Nat}
    {s s' : DeviceScanner} (hle : s.currentDeepScanAddress ≤ 256) {cmd : Option Sequence}
    (h : s.deepScan m now fuel = some (s', cmd)) :
    (∀ c ∈ cmd, ∃ a, s.Candidate a ∧ a ∉ s.failedScans ∧ a ∉ s.quarantinedScans ∧
        target c = some a) ∧
      (cmd = none → s'.pendingDeepScans = ∅) ∧ (cmd = none ↔ s.DeepIdle m) := by
  refine Loop.run_induct
    (I := fun t => Searched now s t ∧ (s.DeepIdle m ↔ t.DeepIdle m))
    (Q := fun r =>
      (∀ c ∈ r.2, ∃ a, s.Candidate a ∧ a ∉ s.failedScans ∧ a ∉ s.quarantinedScans ∧
        target c = some a) ∧
      (r.2 = none → r.1.pendingDeepScans = ∅) ∧ (r.2 = none ↔ s.DeepIdle m))
    ?_ ?_ ⟨.refl now s, Iff.rfl⟩ h
  · rintro t t' ⟨ht, hidle⟩ hbody
    obtain ⟨hsearched, -, hidle'⟩ := deepScanBody_continues (Option.some.inj hbody)
    exact ⟨ht.trans hsearched, hidle.trans hidle'⟩
  · rintro t ⟨t', cmd⟩ ⟨ht, hidle⟩ hbody
    obtain ⟨hcmd, hempty, hidle'⟩ :=
      deepScanBody_returns hm (ht.bounded hle) (Option.some.inj hbody)
    refine ⟨fun c hc => ?_, hempty, hidle'.trans hidle.symm⟩
    obtain ⟨a, hcandidate, hfailed, hquarantined, htarget⟩ := hcmd c hc
    rw [ht.rest] at hfailed hquarantined
    exact ⟨a, ht.candidates hcandidate, hfailed, hquarantined, htarget⟩

/-- What the loop over all addresses changes. -/
structure Swept (now : Int64) (s s' : DeviceScanner) : Prop where
  rest : s' =
    { s with
      fullScan := s'.fullScan, fullScanAddress := s'.fullScanAddress
      lastScanAttempt := s'.lastScanAttempt }
  attempt : s'.lastScanAttempt = s.lastScanAttempt ∨ s'.lastScanAttempt = now

namespace Swept

variable {now : Int64} {s s' s'' : DeviceScanner}

theorem refl (now : Int64) (s : DeviceScanner) : Swept now s s := ⟨rfl, .inl rfl⟩

theorem trans (h : Swept now s s') (h' : Swept now s' s'') : Swept now s s'' := by
  refine ⟨?_, ?_⟩
  · rw [h'.rest, h.rest]
  · obtain heq | heq := h'.attempt
    · rw [heq]
      exact h.attempt
    · exact .inr heq

end Swept

/-- There is a command for an address that has not been identified. -/
def Probes (m : DeviceManager) (s : DeviceScanner) (a : UInt8) : Prop :=
  isSlave a = true ∧ a ≠ slaveOf s.ownAddress ∧ a ∉ s.failedScans ∧ a ∉ s.quarantinedScans ∧
    m.isIdentified a = false

/-- There is no command for any address that the loop has before it. -/
def SweepIdle (m : DeviceManager) (s : DeviceScanner) : Prop :=
  ∀ n, s.fullScanAddress ≤ n → n < 256 → ¬ s.Probes m (.ofNat n)

theorem fullScanBody_continues {m : DeviceManager} {now : Int64} {s s' : DeviceScanner}
    (h : fullScanBody m now s = .inl s') :
    Swept now s s' ∧ s.fullScanAddress < 256 ∧ s'.fullScanAddress = s.fullScanAddress + 1 ∧
      (s.SweepIdle m ↔ s'.SweepIdle m) := by
  rw [fullScanBody] at h
  split at h
  · rename_i hmore
    dsimp only at h
    have hskipped (hnot : ¬ s.Probes m (.ofNat s.fullScanAddress))
        (hs' : { s with fullScanAddress := s.fullScanAddress + 1 } = s') :
        Swept now s s' ∧ s.fullScanAddress < 256 ∧ s'.fullScanAddress = s.fullScanAddress + 1 ∧
          (s.SweepIdle m ↔ s'.SweepIdle m) := by
      rw [← hs']
      refine ⟨⟨rfl, .inl rfl⟩, hmore, rfl, fun hidle n hn => hidle n (Nat.le_of_succ_le hn), ?_⟩
      intro hidle n hn hlt
      obtain rfl | hgt := Nat.eq_or_lt_of_le hn
      · exact hnot
      · exact hidle n hgt hlt
    split at h
    · rename_i hother
      refine hskipped ?_ (Sum.inl.inj h)
      rintro ⟨hslave, hown, -⟩
      obtain hnot | heq := hother
      · rw [hslave] at hnot
        cases hnot
      · exact hown heq
    · split at h
      · rename_i hheld
        refine hskipped ?_ (Sum.inl.inj h)
        rintro ⟨-, -, hfailed, hquarantined, -⟩
        exact hheld.elim hfailed hquarantined
      · split at h
        · rw [createScanCommand_empty] at h
          cases h
        · rename_i hidentified
          refine hskipped ?_ (Sum.inl.inj h)
          rintro ⟨-, -, -, -, hnew⟩
          rw [hnew] at hidentified
          exact hidentified rfl
  · cases h

theorem fullScanBody_returns {m : DeviceManager} {now : Int64} {s s' : DeviceScanner}
    {cmd : Option Sequence} (h : fullScanBody m now s = .inr (s', cmd)) :
    Swept now s s' ∧
      (∀ c ∈ cmd, ∃ a, a ≠ slaveOf s.ownAddress ∧ a ∉ s.failedScans ∧ a ∉ s.quarantinedScans ∧
        target c = some a) ∧
      (cmd = none ↔ s.SweepIdle m) := by
  rw [fullScanBody] at h
  split at h
  · rename_i hmore
    dsimp only at h
    split at h
    · cases h
    · rename_i hother
      split at h
      · cases h
      · rename_i hfree
        split at h
        · rename_i hnew
          rw [createScanCommand_empty, Bool.not_false, if_pos rfl] at h
          cases Sum.inr.inj h
          rw [not_or, Bool.not_eq_true', Bool.not_eq_false] at hother
          rw [not_or] at hfree
          refine ⟨⟨rfl, .inr rfl⟩, ?_, iff_of_false (Option.some_ne_none _) fun hidle => ?_⟩
          · rintro c ⟨⟩
            exact ⟨_, hother.2, hfree.1, hfree.2, target_createScanCommand _⟩
          · exact hidle s.fullScanAddress le_rfl hmore
              ⟨hother.1, hother.2, hfree.1, hfree.2, Bool.not_eq_true' _ ▸ hnew⟩
        · cases h
  · rename_i hend
    cases Sum.inr.inj h
    exact ⟨⟨rfl, .inl rfl⟩, fun _ hc => absurd hc (Option.not_mem_none _),
      iff_of_true rfl fun n hn hlt => absurd (Nat.lt_of_le_of_lt hn hlt) hend⟩

/-- The loop, which is left out when there is no full scan. -/
theorem sweep_returns {m : DeviceManager} {now : Int64} {fuel : Nat} {s s' : DeviceScanner}
    {cmd : Option Sequence} (h : s.sweep m now fuel = some (s', cmd)) :
    Swept now s s' ∧
      (∀ c ∈ cmd, ∃ a, a ≠ slaveOf s.ownAddress ∧ a ∉ s.failedScans ∧ a ∉ s.quarantinedScans ∧
        target c = some a) ∧
      (cmd = none ↔ (s.fullScan = true → s.SweepIdle m)) := by
  rw [sweep] at h
  split at h
  · rename_i hon
    rw [forall_prop_of_true hon]
    refine Loop.run_induct (I := fun t => Swept now s t ∧ (s.SweepIdle m ↔ t.SweepIdle m))
      (Q := fun r => Swept now s r.1 ∧
        (∀ c ∈ r.2, ∃ a, a ≠ slaveOf s.ownAddress ∧ a ∉ s.failedScans ∧ a ∉ s.quarantinedScans ∧
          target c = some a) ∧
        (r.2 = none ↔ s.SweepIdle m)) ?_ ?_ ⟨Swept.refl now s, Iff.rfl⟩ h
    · rintro t t' ⟨ht, hidle⟩ hbody
      obtain ⟨hswept, -, -, hidle'⟩ := fullScanBody_continues (Option.some.inj hbody)
      exact ⟨ht.trans hswept, hidle.trans hidle'⟩
    · rintro t ⟨t', cmd⟩ ⟨ht, hidle⟩ hbody
      obtain ⟨hswept, hcmd, hidle'⟩ := fullScanBody_returns (Option.some.inj hbody)
      refine ⟨ht.trans hswept, ?_, hidle'.trans hidle.symm⟩
      rw [ht.rest] at hcmd
      exact hcmd
  · rename_i hoff
    cases Option.some.inj h
    exact ⟨Swept.refl now s, fun _ hc => absurd hc (Option.not_mem_none _),
      iff_of_true rfl fun hon => absurd hon hoff⟩

/-- Requested addresses become pending, the own one excepted; those that were not yet pending leave
quarantine. -/
structure Requested (s s' : DeviceScanner) (requested : UInt8 → Prop) : Prop where
  rest : s' =
    { s with
      pendingDeepScans := s'.pendingDeepScans
      failedScans := s'.failedScans
      quarantinedScans := s'.quarantinedScans }
  pending : ∀ a, a ∈ s'.pendingDeepScans ↔
    a ∈ s.pendingDeepScans ∨ requested a ∧ a ≠ slaveOf s.ownAddress
  failed : s'.failedScans ⊆ s.failedScans
  quarantined : ∀ a, a ∈ s'.quarantinedScans ↔ a ∈ s.quarantinedScans ∧
    (requested a → a = slaveOf s.ownAddress ∨ a ∈ s.pendingDeepScans)

theorem scanAddressInternal_requested (s : DeviceScanner) (address : UInt8) :
    Requested s (s.scanAddressInternal address).1 (· = address) := by
  rw [scanAddressInternal]
  split
  · rename_i hown
    refine ⟨rfl, fun a => ?_, subset_rfl, fun a => ?_⟩
    · exact (or_iff_left fun h => h.2 (h.1.trans hown)).symm
    · exact (and_iff_left fun heq => .inl (heq.trans hown)).symm
  · rename_i hother
    split
    · rename_i hpending
      refine ⟨rfl, fun a => ?_, subset_rfl, fun a => ?_⟩
      · exact (or_iff_left_of_imp fun h => h.1 ▸ hpending).symm
      · exact (and_iff_left fun heq => .inr (heq ▸ hpending)).symm
    · rename_i hnew
      refine ⟨rfl, fun a => ?_, Finset.erase_subset .., fun a => ?_⟩
      · rw [Finset.mem_insert, or_comm]
        refine or_congr_right ⟨?_, fun h => h.1⟩
        rintro rfl
        exact ⟨rfl, hother⟩
      · rw [Finset.mem_erase]
        constructor
        · exact fun ha => ⟨ha.2, fun heq => absurd heq ha.1⟩
        · rintro ⟨ha, hcase⟩
          refine ⟨?_, ha⟩
          rintro rfl
          obtain hown | hold := hcase rfl
          · exact hother hown
          · exact hnew hold

/-- By induction on the addresses; what has become pending is requested no second time. -/
theorem foldl_requested (combine : Bool → Bool → Bool) (list : List UInt8)
    (r : DeviceScanner × Bool) :
    Requested r.1 (list.foldl (fun r address =>
      ((r.1.scanAddressInternal address).1, combine r.2 (r.1.scanAddressInternal address).2)) r).1
      (· ∈ list) := by
  induction list generalizing r with
  | nil =>
      refine ⟨rfl, fun a => ?_, subset_rfl, fun a => ?_⟩
      · exact (or_iff_left fun h => List.not_mem_nil h.1).symm
      · exact (and_iff_left fun h => absurd h List.not_mem_nil).symm
  | cons address rest ih =>
      have hfirst := scanAddressInternal_requested r.1 address
      have hrest := ih ((r.1.scanAddressInternal address).1,
        combine r.2 (r.1.scanAddressInternal address).2)
      rw [List.foldl_cons]
      have hown : (r.1.scanAddressInternal address).1.ownAddress = r.1.ownAddress := by
        rw [hfirst.rest]
      refine ⟨?_, fun a => ?_, hrest.failed.trans hfirst.failed, fun a => ?_⟩
      · rw [hrest.rest, hfirst.rest]
      · rw [hrest.pending, hfirst.pending, hown, List.mem_cons]
        tauto
      · rw [hrest.quarantined, hfirst.quarantined, hfirst.pending, hown, List.mem_cons]
        tauto

theorem scanObservedDevices_requested (m : DeviceManager) (s : DeviceScanner) :
    Requested s (s.scanObservedDevices m).1 (· ∈ m.getObservedSlaves) := by
  have h := foldl_requested or (addresses.filter (· ∈ m.getObservedSlaves)) (s, false)
  have hmem (a : UInt8) :
      a ∈ addresses.filter (· ∈ m.getObservedSlaves) ↔ a ∈ m.getObservedSlaves := by
    rw [List.mem_filter, decide_eq_true_eq]
    exact and_iff_right (mem_addresses a)
  refine ⟨h.rest, fun a => ?_, h.failed, fun a => ?_⟩
  · rw [← hmem]
    exact h.pending a
  · rw [← hmem]
    exact h.quarantined a

/-- The startup scan is due and is not the last. -/
def StartupDue (s : DeviceScanner) (now : Int64) : Prop :=
  s.scanOnStartup = true ∧ s.nextStartupScanTime ≤ now ∧ s.startupScanCount < s.maxStartupScans

/-- Without a startup scan nothing but its switch changes; a startup scan counts itself. -/
theorem startupScan_cases (m : DeviceManager) (now : Int64) (s : DeviceScanner) :
    (¬ s.StartupDue now ∧
      s.startupScan m now = ({ s with scanOnStartup := (s.startupScan m now).1.scanOnStartup },
        false)) ∨
    (s.StartupDue now ∧
      s.startupScan m now =
        ({ (s.scanObservedDevices m).1 with
          startupScanCount := (s.scanObservedDevices m).1.startupScanCount + 1
          nextStartupScanTime := now + (s.scanObservedDevices m).1.startupScanInterval },
          (s.scanObservedDevices m).2)) := by
  rw [startupScan, StartupDue]
  split
  · rename_i hdue
    split
    · rename_i hlast
      exact .inl ⟨fun h => UInt8.not_le.mpr h.2.2 hlast, rfl⟩
    · rename_i hmore
      exact .inr ⟨⟨hdue.1, hdue.2, UInt8.not_le.mp hmore⟩, rfl⟩
  · rename_i hnot
    exact .inl ⟨fun h => hnot ⟨h.1, h.2.1⟩, rfl⟩

/-- A pass comes to the startup scan. -/
def Idle (m : DeviceManager) (reading : Reading) (s : DeviceScanner) : Prop :=
  s.DeepIdle m ∧ reading.busy = false ∧ (s.fullScan = true → s.SweepIdle m)

/-- What a pass does after its resets: it returns a command of one of the inner loops, it returns
none because the system is busy, or it comes to the startup scan. -/
inductive Passed (m : DeviceManager) (reading : Reading) (s : DeviceScanner) :
    DeviceScanner ⊕ (DeviceScanner × Sequence) → Prop
  | deep {s' cmd a} (searched : Searched reading.now s s') (candidate : s.Candidate a)
      (failed : a ∉ s.failedScans) (quarantined : a ∉ s.quarantinedScans)
      (target : target cmd = some a) (notIdle : ¬ s.Idle m reading) :
      Passed m reading s (.inr (s', cmd))
  | busy {s'} (searched : Searched reading.now s s') (notIdle : ¬ s.Idle m reading) :
      Passed m reading s (.inr (s', {}))
  | full {t s' cmd a} (searched : Searched reading.now s t) (swept : Swept reading.now t s')
      (other : a ≠ slaveOf s.ownAddress) (failed : a ∉ s.failedScans)
      (quarantined : a ∉ s.quarantinedScans) (target : target cmd = some a)
      (notIdle : ¬ s.Idle m reading) : Passed m reading s (.inr (s', cmd))
  | startup {t t'} (searched : Searched reading.now s t) (pending : t.pendingDeepScans = ∅)
      (swept : Swept reading.now t t') (idle : s.Idle m reading) :
      Passed m reading s
        (if (t'.startupScan m reading.now).2 then .inl (t'.startupScan m reading.now).1
          else .inr ((t'.startupScan m reading.now).1, {}))

theorem sweepIdle_searched {m : DeviceManager} {now : Int64} {s s' : DeviceScanner}
    (h : Searched now s s') : s'.SweepIdle m ↔ s.SweepIdle m := by
  rw [h.rest]
  rfl

theorem nextCommandBody_passed {m : DeviceManager} (hm : m.Consistent) {reading : Reading}
    {fuel : Nat} {s : DeviceScanner} (hle : (s.resets reading.now).currentDeepScanAddress ≤ 256)
    {next : DeviceScanner ⊕ (DeviceScanner × Sequence)}
    (h : nextCommandBody m reading fuel s = some next) :
    Passed m reading (s.resets reading.now) next := by
  rw [nextCommandBody] at h
  generalize s.resets reading.now = s₀ at h hle
  obtain ⟨⟨t, deep⟩, hdeep, h⟩ := Option.bind_eq_some_iff.mp h
  have hsearched := deepScan_searched hdeep
  obtain ⟨hcmd, hempty, hidle⟩ := deepScan_returns hm hle hdeep
  cases deep with
  | some cmd =>
      obtain ⟨a, hcandidate, hfailed, hquarantined, htarget⟩ := hcmd cmd rfl
      cases Option.some.inj h
      exact .deep hsearched hcandidate hfailed hquarantined htarget
        fun hall => absurd (hidle.mpr hall.1) (Option.some_ne_none cmd)
  | none =>
      dsimp only at h
      cases hbusy : reading.busy with
      | true =>
          rw [hbusy] at h
          cases Option.some.inj h
          exact .busy hsearched fun hall => absurd (hbusy.symm.trans hall.2.1) (by decide)
      | false =>
          rw [hbusy, if_neg Bool.false_ne_true] at h
          obtain ⟨⟨t', full⟩, hfull, h⟩ := Option.bind_eq_some_iff.mp h
          obtain ⟨hswept, hcommand, hnone⟩ := sweep_returns hfull
          have hfullScan : t.fullScan = s₀.fullScan := by rw [hsearched.rest]
          rw [sweepIdle_searched hsearched, hfullScan] at hnone
          rw [hsearched.rest] at hcommand
          cases full with
          | some cmd =>
              obtain ⟨a, hother, hfailed, hquarantined, htarget⟩ := hcommand cmd rfl
              cases Option.some.inj h
              exact .full hsearched hswept hother hfailed hquarantined htarget
                fun hall => absurd (hnone.mpr hall.2.2) (Option.some_ne_none cmd)
          | none =>
              have hnext : next =
                  if (t'.startupScan m reading.now).2 then .inl (t'.startupScan m reading.now).1
                  else .inr ((t'.startupScan m reading.now).1, {}) := by
                dsimp only at h
                split at h
                · rename_i hadded
                  rw [if_pos hadded]
                  exact (Option.some.inj h).symm
                · rename_i hadded
                  rw [if_neg hadded]
                  exact (Option.some.inj h).symm
              rw [hnext]
              exact .startup hsearched (hempty rfl) hswept
                ⟨hidle.mp rfl, hbusy, hnone.mp rfl⟩

theorem deepMeasure_le (s : DeviceScanner) : s.deepMeasure ≤ 257 := by
  have hcard : s.pendingDeepScans.card ≤ 256 := by
    have hsubset : s.pendingDeepScans ⊆ addresses.toFinset :=
      fun a _ => List.mem_toFinset.mpr (mem_addresses a)
    calc s.pendingDeepScans.card ≤ addresses.toFinset.card := Finset.card_le_card hsubset
      _ ≤ addresses.length := List.toFinset_card_le _
      _ = 256 := by rw [addresses, List.length_map, List.length_range]
  rw [deepMeasure]
  split <;> omega

/-- More passes than any of the loops makes. -/
def passLimit : Nat := 258

theorem deepScan_terminates (m : DeviceManager) (now : Int64) (s : DeviceScanner) :
    ∃ r, s.deepScan m now passLimit = some r :=
  Loop.run_of_measure deepMeasure (fun _ => rfl)
    (fun _ _ h => (deepScanBody_continues (Option.some.inj h)).2.1)
    (Nat.lt_succ_of_le s.deepMeasure_le)

theorem sweep_terminates (m : DeviceManager) (now : Int64) (s : DeviceScanner) :
    ∃ r, s.sweep m now passLimit = some r := by
  rw [sweep]
  split
  · refine Loop.run_of_measure (fun s => 256 - s.fullScanAddress) (fun _ => rfl) ?_ ?_
    · intro t t' hbody
      obtain ⟨-, hlt, hnext, -⟩ := fullScanBody_continues (Option.some.inj hbody)
      omega
    · rw [passLimit]
      omega
  · exact ⟨_, rfl⟩

theorem nextCommandBody_terminates (m : DeviceManager) (reading : Reading) (s : DeviceScanner) :
    (nextCommandBody m reading passLimit s).isSome := by
  obtain ⟨⟨t, deep⟩, hdeep⟩ := deepScan_terminates m reading.now (s.resets reading.now)
  obtain ⟨⟨t', full⟩, hfull⟩ := sweep_terminates m reading.now t
  rw [nextCommandBody, hdeep]
  cases deep with
  | some cmd => rfl
  | none =>
      cases reading.busy with
      | true => rfl
      | false =>
          cases full with
          | some cmd => simp [hfull]
          | none => simp [hfull]

/-- A pass is followed by another only after a startup scan, which is counted. -/
theorem nextCommandBody_continues {m : DeviceManager} {reading : Reading} {fuel : Nat}
    {s s' : DeviceScanner} (h : nextCommandBody m reading fuel s = some (.inl s')) :
    s.startupScanCount < s.maxStartupScans ∧ s'.startupScanCount = s.startupScanCount + 1 := by
  rw [nextCommandBody] at h
  obtain ⟨⟨t, deep⟩, hdeep, h⟩ := Option.bind_eq_some_iff.mp h
  have hsearched := deepScan_searched hdeep
  cases deep with
  | some cmd => cases Option.some.inj h
  | none =>
      dsimp only at h
      cases hbusy : reading.busy with
      | true =>
          rw [hbusy] at h
          cases Option.some.inj h
      | false =>
          rw [hbusy, if_neg Bool.false_ne_true] at h
          obtain ⟨⟨t', full⟩, hfull, h⟩ := Option.bind_eq_some_iff.mp h
          have hswept := (sweep_returns hfull).1
          cases full with
          | some cmd => cases Option.some.inj h
          | none =>
              dsimp only at h
              have hcount : t'.startupScanCount = s.startupScanCount ∧
                  t'.maxStartupScans = s.maxStartupScans := by
                rw [hswept.rest, hsearched.rest, resets, epochReset, cooldownReset]
                repeat' split
                all_goals exact ⟨rfl, rfl⟩
              obtain ⟨-, hscan⟩ | ⟨hdue, hscan⟩ := startupScan_cases m reading.now t'
              · rw [hscan] at h
                cases Option.some.inj h
              · rw [hscan] at h
                dsimp only at h
                split at h
                · cases Sum.inl.inj (Option.some.inj h)
                  have hsame := (scanObservedDevices_requested m t').rest
                  rw [← hcount.1, ← hcount.2]
                  refine ⟨hdue.2.2, ?_⟩
                  dsimp only
                  rw [hsame]
                · cases Option.some.inj h

theorem nextCommandBody_mono {m : DeviceManager} {reading : Reading} {fuel fuel' : Nat}
    (hle : fuel ≤ fuel') {s : DeviceScanner} {next : DeviceScanner ⊕ (DeviceScanner × Sequence)}
    (h : nextCommandBody m reading fuel s = some next) :
    nextCommandBody m reading fuel' s = some next := by
  rw [nextCommandBody] at h ⊢
  obtain ⟨⟨t, deep⟩, hdeep, h⟩ := Option.bind_eq_some_iff.mp h
  rw [deepScan, Loop.run_mono (fun _ _ => id) hle hdeep]
  cases deep with
  | some cmd => exact h
  | none =>
      dsimp only at h
      cases hbusy : reading.busy with
      | true =>
          rw [hbusy] at h
          exact h
      | false =>
          rw [hbusy, if_neg Bool.false_ne_true] at h
          obtain ⟨⟨t', full⟩, hfull, h⟩ := Option.bind_eq_some_iff.mp h
          have hfull' : t.sweep m reading.now fuel' = some (t', full) := by
            rw [sweep] at hfull ⊢
            cases hon : t.fullScan with
            | true =>
                rw [hon, if_pos rfl] at hfull
                rw [if_pos rfl]
                exact Loop.run_mono (fun _ _ => id) hle hfull
            | false =>
                rw [hon] at hfull
                exact hfull
          dsimp only [Option.bind_eq_bind, Option.bind_some]
          rw [if_neg Bool.false_ne_true]
          exact Option.bind_eq_some_iff.mpr ⟨(t', full), hfull', h⟩

/-- `nextCommand` returns, whatever the state, the table, the readings and the busy answers are. -/
theorem nextCommand_terminates (m : DeviceManager) (readings : Nat → Reading) (s : DeviceScanner) :
    ∃ result, ∀ fuel, passLimit ≤ fuel → nextCommand m readings fuel s = some result := by
  have hreturns : ∃ result, nextCommand m readings passLimit s = some result := by
    refine Loop.run_of_measure (fun p => 255 - p.1.startupScanCount.toNat) ?_ ?_ ?_
    · rintro ⟨t, n⟩
      rw [Option.isSome_map]
      exact nextCommandBody_terminates m (readings n) t
    · rintro ⟨t, n⟩ ⟨t', n'⟩ hnext
      obtain ⟨next, hbody, hmap⟩ := Option.map_eq_some_iff.mp hnext
      cases next with
      | inr r => cases hmap
      | inl t'' =>
          cases Sum.inl.inj hmap
          obtain ⟨hlt, hcount⟩ := nextCommandBody_continues hbody
          have hmax := t.maxStartupScans.toNat_lt
          have hlt' := UInt8.lt_iff_toNat_lt.mp hlt
          dsimp only
          rw [hcount, UInt8.toNat_add]
          have hone : (1 : UInt8).toNat = 1 := rfl
          omega
    · rw [passLimit]
      omega
  obtain ⟨result, hresult⟩ := hreturns
  refine ⟨result, fun fuel hfuel => ?_⟩
  rw [nextCommand, nextCommandLoop] at hresult ⊢
  refine Loop.run_mono (fun p next hnext => ?_) hfuel hresult
  obtain ⟨next', hbody, hmap⟩ := Option.map_eq_some_iff.mp hnext
  exact Option.map_eq_some_iff.mpr ⟨next', nextCommandBody_mono hfuel hbody, hmap⟩

end DeviceScanner

end Ebus
