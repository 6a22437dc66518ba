import Mathlib.Algebra.Group.Int.Defs
import Ebus.Verification.Scanning

/-!
# Runs of the scanner

Its calls in any order, with one pass of the loop in `nextCommand` for each reading of the clock
and with any consistent table of devices at each of them. Three questions are asked of each step:
whether a command is for the own address, whether an address leaves quarantine that nobody asked
for, and whether the cooldowns are reset in time.
-/

namespace Ebus

namespace DeviceScanner

/-- What a manager can contain. -/
abbrev Table := { m : DeviceManager // m.Consistent }

inductive Action where
  | stop
  | setOwnAddress (address : UInt8)
  | setScanOnStartup (enable : Bool) (now : Int64)
  | setMaxStartupScans (max : UInt8)
  | setInitialScanDelay (delay : UInt32)
  | setStartupScanInterval (interval : UInt32)
  | initFullScan (enable : Bool)
  | scanObservedDevices (m : Table)
  | scanAddress (address : UInt8)
  | scanAddresses (addresses : List UInt8)
  | onScanResult (m : Table) (address : UInt8) (success : Bool)
  /-- one pass of the loop in `nextCommand` -/
  | pass (m : Table) (reading : Reading)

/-- A pass, and the command if it is the one that returns. -/
def pass (m : DeviceManager) (reading : Reading) (s : DeviceScanner) :
    DeviceScanner × Option Sequence :=
  match nextCommandBody m reading passLimit s with
  | some (.inl s') => (s', none)
  | some (.inr (s', cmd)) => (s', some cmd)
  | none => (s, none)

def step (s : DeviceScanner) : Action → DeviceScanner
  | .stop => s.stop
  | .setOwnAddress address => s.setOwnAddress address
  | .setScanOnStartup enable now => s.setScanOnStartup enable now
  | .setMaxStartupScans max => s.setMaxStartupScans max
  | .setInitialScanDelay delay => s.setInitialScanDelay delay
  | .setStartupScanInterval interval => s.setStartupScanInterval interval
  | .initFullScan enable => s.initFullScan enable
  | .scanObservedDevices m => (s.scanObservedDevices m).1
  | .scanAddress address => (s.scanAddress address).1
  | .scanAddresses addresses => (s.scanAddresses addresses).1
  | .onScanResult m address success => s.onScanResult m address success
  | .pass m reading => (s.pass m reading).1

/-- The command that a step returns. -/
def returned (s : DeviceScanner) : Action → Option Sequence
  | .pass m reading => (s.pass m reading).2
  | _ => none

def create (ownAddress : UInt8) : DeviceScanner := { ownAddress }

theorem pass_of_continues {m : DeviceManager} {reading : Reading} {s s' : DeviceScanner}
    (h : nextCommandBody m reading passLimit s = some (.inl s')) :
    s.pass m reading = (s', none) := by
  rw [pass, h]

theorem pass_of_returns {m : DeviceManager} {reading : Reading} {s s' : DeviceScanner}
    {cmd : Sequence} (h : nextCommandBody m reading passLimit s = some (.inr (s', cmd))) :
    s.pass m reading = (s', some cmd) := by
  rw [pass, h]

/-- A call of `nextCommand` is one pass after another, and the last of them returns its command. -/
theorem nextCommand_eq_run (m : Table) (readings : Nat → Reading) (s : DeviceScanner) :
    ∃ n, let t := Runs.run step s ((List.range n).map fun i => .pass m (readings i))
      ∃ cmd, t.returned (.pass m (readings n)) = some cmd ∧
        nextCommand m readings passLimit s = some (t.step (.pass m (readings n)), cmd) := by
  obtain ⟨⟨s', cmd⟩, hresult⟩ := nextCommand_terminates m readings s
  have hloop := hresult passLimit le_rfl
  -- along the loop, the state is that of the passes made so far
  have hpasses := Loop.run_induct
    (I := fun p => p.1 = Runs.run step s ((List.range p.2).map fun i => .pass m (readings i)))
    (Q := fun r => ∃ n, let t := Runs.run step s ((List.range n).map fun i => .pass m (readings i))
      t.returned (.pass m (readings n)) = some r.2 ∧ r.1 = t.step (.pass m (readings n)))
    ?_ ?_ rfl hloop
  · obtain ⟨n, hreturned, hstate⟩ := hpasses
    refine ⟨n, cmd, hreturned, ?_⟩
    rw [hloop]
    exact congrArg (fun t => some (t, cmd)) hstate
  · rintro ⟨t, n⟩ ⟨t', n'⟩ ht hnext
    obtain ⟨next, hbody, hmap⟩ := Option.map_eq_some_iff.mp hnext
    cases next with
    | inr r => cases hmap
    | inl t'' =>
        cases Sum.inl.inj hmap
        dsimp only at ht ⊢
        rw [List.range_succ, List.map_append, Runs.run_append, ← ht]
        exact (congrArg Prod.fst (pass_of_continues hbody)).symm
  · rintro ⟨t, n⟩ ⟨t', cmd'⟩ ht hnext
    obtain ⟨next, hbody, hmap⟩ := Option.map_eq_some_iff.mp hnext
    cases next with
    | inl t'' => cases hmap
    | inr r =>
        cases Sum.inr.inj hmap
        have hpass := pass_of_returns hbody
        dsimp only at ht hpass
        rw [ht] at hpass
        exact ⟨n, congrArg Prod.snd hpass, (congrArg Prod.fst hpass).symm⟩

/-- The state after a pass, which returned or did not. -/
def after (next : DeviceScanner ⊕ (DeviceScanner × Sequence)) : DeviceScanner :=
  next.elim id Prod.fst

/-- A pass takes the scanner from `s`, after its resets, to `s'`. -/
structure Keeps (m : DeviceManager) (reading : Reading) (s s' : DeviceScanner) : Prop where
  own : s'.ownAddress = s.ownAddress
  bounded : s.currentDeepScanAddress ≤ 256 → s'.currentDeepScanAddress ≤ 256
  candidates : ∀ {a}, s'.Candidate a → s.Candidate a ∨ a ≠ slaveOf s.ownAddress
  failed : s'.failedScans ⊆ s.failedScans
  quarantined : ∀ a, a ∈ s'.quarantinedScans ↔ a ∈ s.quarantinedScans ∧
    ¬ (s.Idle m reading ∧ s.StartupDue reading.now ∧ a ∈ m.getObservedSlaves ∧
      a ≠ slaveOf s.ownAddress)
  attempt : s'.lastScanAttempt = s.lastScanAttempt ∨ s'.lastScanAttempt = reading.now
  resetTime : s'.lastFailureResetTime = s.lastFailureResetTime
  cooldown : s'.scanCooldownDuration = s.scanCooldownDuration

section Keeps
variable {m : DeviceManager} {reading : Reading} {s t t' : DeviceScanner}

/-- A pass that does not come to the startup scan. -/
theorem keeps_of_not_idle (hsearched : Searched reading.now s t) (hswept : Swept reading.now t t')
    (hidle : ¬ s.Idle m reading) : Keeps m reading s t' where
  own := by rw [hswept.rest, hsearched.rest]
  bounded hle := by
    rw [hswept.rest]
    exact hsearched.bounded hle
  candidates ha := by
    rw [hswept.rest] at ha
    exact .inl (hsearched.candidates ha)
  failed := by rw [hswept.rest, hsearched.rest]
  quarantined a := by
    rw [hswept.rest, hsearched.rest]
    exact (and_iff_left fun h => hidle h.1).symm
  attempt := by
    obtain heq | heq := hswept.attempt
    · rw [heq]
      exact hsearched.attempt
    · exact .inr heq
  resetTime := by rw [hswept.rest, hsearched.rest]
  cooldown := by rw [hswept.rest, hsearched.rest]

theorem keeps_of_startup (hsearched : Searched reading.now s t) (hpending : t.pendingDeepScans = ∅)
    (hswept : Swept reading.now t t') (hidle : s.Idle m reading) :
    Keeps m reading s (t'.startupScan m reading.now).1 := by
  have hdue : t'.StartupDue reading.now ↔ s.StartupDue reading.now := by
    rw [hswept.rest, hsearched.rest]
    rfl
  have hown : t'.ownAddress = s.ownAddress := by rw [hswept.rest, hsearched.rest]
  have hfailed : t'.failedScans = s.failedScans := by rw [hswept.rest, hsearched.rest]
  have hquarantined : t'.quarantinedScans = s.quarantinedScans := by
    rw [hswept.rest, hsearched.rest]
  have hnone : t'.pendingDeepScans = ∅ := by
    rw [hswept.rest]
    exact hpending
  have hcurrent : t'.currentDeepScanAddress = t.currentDeepScanAddress := by rw [hswept.rest]
  have hcandidate {a : UInt8} (ha : t'.currentDeepScanAddress ≠ 256 ∧
      a = .ofNat t'.currentDeepScanAddress) : s.Candidate a := by
    rw [hcurrent] at ha
    exact hsearched.candidates (.inl ha)
  have hattempt : t'.lastScanAttempt = s.lastScanAttempt ∨ t'.lastScanAttempt = reading.now := by
    obtain heq | heq := hswept.attempt
    · rw [heq]
      exact hsearched.attempt
    · exact .inr heq
  have hresetTime : t'.lastFailureResetTime = s.lastFailureResetTime := by
    rw [hswept.rest, hsearched.rest]
  have hcooldown : t'.scanCooldownDuration = s.scanCooldownDuration := by
    rw [hswept.rest, hsearched.rest]
  obtain ⟨hnot, hscan⟩ | ⟨hscans, hscan⟩ := startupScan_cases m reading.now t'
  · rw [hscan]
    refine ⟨hown, fun hle => hcurrent ▸ hsearched.bounded hle, ?_, hfailed.subset, ?_, hattempt,
      hresetTime, hcooldown⟩
    · rintro a (ha | ha)
      · exact .inl (hcandidate ha)
      · rw [hnone] at ha
        exact absurd ha (Finset.notMem_empty a)
    · intro a
      rw [hquarantined]
      exact (and_iff_left fun h => hnot (hdue.mpr h.2.1)).symm
  · have hrequested := scanObservedDevices_requested m t'
    have hrest := hrequested.rest
    rw [hscan]
    refine ⟨?_, fun hle => ?_, ?_, ?_, ?_, ?_, ?_, ?_⟩
    · dsimp only
      rw [hrest]
      exact hown
    · dsimp only
      rw [hrest]
      exact hcurrent ▸ hsearched.bounded hle
    · rintro a (ha | ha)
      · dsimp only at ha
        rw [hrest] at ha
        exact .inl (hcandidate ha)
      · rw [hrequested.pending, hnone, hown] at ha
        obtain hempty | ⟨-, hother⟩ := ha
        · exact absurd hempty (Finset.notMem_empty a)
        · exact .inr hother
    · exact hrequested.failed.trans hfailed.subset
    · intro a
      rw [hrequested.quarantined, hquarantined, hnone, hown]
      have hdue' := hdue.mp hscans
      have hempty := Finset.notMem_empty a
      tauto
    · dsimp only
      rw [hrest]
      exact hattempt
    · dsimp only
      rw [hrest]
      exact hresetTime
    · dsimp only
      rw [hrest]
      exact hcooldown

theorem Passed.keeps {next : DeviceScanner ⊕ (DeviceScanner × Sequence)}
    (h : Passed m reading s next) : Keeps m reading s (after next) := by
  cases h with
  | deep searched _ _ _ _ notIdle => exact keeps_of_not_idle searched (.refl _ _) notIdle
  | busy searched notIdle => exact keeps_of_not_idle searched (.refl _ _) notIdle
  | full searched swept _ _ _ _ notIdle => exact keeps_of_not_idle searched swept notIdle
  | startup searched pending swept idle =>
      have hkeeps := keeps_of_startup searched pending swept idle
      split
      · exact hkeeps
      · exact hkeeps

/-- A command goes to a candidate or to an address that is not the own one; in both cases it is
neither on cooldown nor in quarantine. -/
theorem Passed.command {s' : DeviceScanner} {cmd : Sequence} {a : UInt8}
    (h : Passed m reading s (.inr (s', cmd))) (htarget : target cmd = some a) :
    (s.Candidate a ∨ a ≠ slaveOf s.ownAddress) ∧ a ∉ s.failedScans ∧ a ∉ s.quarantinedScans := by
  generalize hnext : (Sum.inr (s', cmd) : DeviceScanner ⊕ (DeviceScanner × Sequence)) = next at h
  cases h with
  | deep _ candidate failed quarantined htarget' _ =>
      cases Sum.inr.inj hnext
      cases Option.some.inj (htarget.symm.trans htarget')
      exact ⟨.inl candidate, failed, quarantined⟩
  | busy _ _ =>
      cases Sum.inr.inj hnext
      cases htarget
  | full _ _ other failed quarantined htarget' _ =>
      cases Sum.inr.inj hnext
      cases Option.some.inj (htarget.symm.trans htarget')
      exact ⟨.inr other, failed, quarantined⟩
  | startup _ _ _ _ =>
      split at hnext
      · cases hnext
      · cases Sum.inr.inj hnext
        cases htarget

end Keeps

/-- What is known of a pass: the changes, and the command if it returns one. -/
theorem pass_keeps (m : Table) (reading : Reading) {s : DeviceScanner}
    (hle : s.currentDeepScanAddress ≤ 256) :
    Keeps m reading (s.resets reading.now) (s.pass m reading).1 ∧
      ∀ cmd ∈ (s.pass m reading).2, ∀ a, target cmd = some a →
        ((s.resets reading.now).Candidate a ∨ a ≠ slaveOf (s.resets reading.now).ownAddress) ∧
          a ∉ (s.resets reading.now).failedScans ∧ a ∉ (s.resets reading.now).quarantinedScans := by
  have hcurrent : (s.resets reading.now).currentDeepScanAddress ≤ 256 := by
    rw [resets, epochReset, cooldownReset]
    repeat' split
    all_goals exact hle
  obtain ⟨next, hbody⟩ := Option.isSome_iff_exists.mp (nextCommandBody_terminates m reading s)
  have hpassed := nextCommandBody_passed m.2 hcurrent hbody
  cases next with
  | inl s' =>
      rw [pass_of_continues hbody]
      exact ⟨hpassed.keeps, fun _ hcmd => absurd hcmd (Option.not_mem_none _)⟩
  | inr r =>
      rw [pass_of_returns hbody]
      refine ⟨hpassed.keeps, ?_⟩
      rintro cmd ⟨⟩ a htarget
      exact hpassed.command htarget

/-- The resets leave the candidates alone. -/
theorem resets_frame (s : DeviceScanner) (now : Int64) :
    s.resets now =
      { s with
        failedScans := (s.resets now).failedScans
        quarantinedScans := (s.resets now).quarantinedScans
        lastFailureResetTime := (s.resets now).lastFailureResetTime
        scanAttemptCounters := (s.resets now).scanAttemptCounters
        failureResets := (s.resets now).failureResets } := by
  rw [resets, epochReset, cooldownReset]
  repeat' split
  all_goals rfl

/-- A command that is returned is not for the own address. -/
def NeverSelf (s : DeviceScanner) (action : Action) : Prop :=
  ∀ cmd ∈ s.returned action, target cmd ≠ some (slaveOf s.ownAddress)

/-- The own address does not become one that is pending or current, and a result for it does not
make it pending. -/
def Guarded (s : DeviceScanner) : Action → Prop
  | .setOwnAddress address => ¬ s.Candidate (slaveOf address)
  | .onScanResult m address success =>
      address = slaveOf s.ownAddress → success = true → m.1.needsDeepScan address = true →
        maxAttempts ≤ s.scanAttemptCounters address + 1
  | _ => True

/-- The own address is no candidate. -/
structure Clear (s : DeviceScanner) : Prop where
  bounded : s.currentDeepScanAddress ≤ 256
  other : ∀ {a}, s.Candidate a → a ≠ slaveOf s.ownAddress

theorem clear_requested {s s' : DeviceScanner} {requested : UInt8 → Prop} (h : Clear s)
    (hrequested : Requested s s' requested) : Clear s' := by
  refine ⟨?_, ?_⟩
  · rw [hrequested.rest]
    exact h.bounded
  · rintro a (ha | ha)
    · rw [hrequested.rest] at ha ⊢
      exact h.other (.inl ha)
    · have hown : s'.ownAddress = s.ownAddress := by rw [hrequested.rest]
      rw [hown]
      obtain hold | ⟨-, hother⟩ := (hrequested.pending a).mp ha
      · exact h.other (.inr hold)
      · exact hother

/-- A result makes its address pending, when it succeeds and more is to be asked, and no other. -/
theorem candidate_onScanResult {s : DeviceScanner} {m : DeviceManager} {address a : UInt8}
    {success : Bool} (h : (s.onScanResult m address success).Candidate a) :
    s.Candidate a ∨ a = address ∧ success = true ∧ m.needsDeepScan address = true ∧
      s.scanAttemptCounters address + 1 < maxAttempts := by
  rw [onScanResult] at h
  dsimp only at h
  cases success with
  | false =>
      rw [Bool.not_false, if_pos rfl] at h
      split at h
      · exact .inl h
      · exact .inl h
  | true =>
      rw [Bool.not_true, if_neg Bool.false_ne_true] at h
      split at h
      · rename_i hneeds
        split at h
        · rename_i hless
          obtain hcurrent | hpending := h
          · exact .inl (.inl hcurrent)
          · obtain rfl | hold := Finset.mem_insert.mp hpending
            · exact .inr ⟨rfl, rfl, hneeds, hless⟩
            · exact .inl (.inr hold)
        · exact .inl h
      · exact .inl h

theorem onScanResult_frame (s : DeviceScanner) (m : DeviceManager) (address : UInt8)
    (success : Bool) :
    s.onScanResult m address success =
      { s with
        pendingDeepScans := (s.onScanResult m address success).pendingDeepScans
        failedScans := (s.onScanResult m address success).failedScans
        quarantinedScans := (s.onScanResult m address success).quarantinedScans
        scanAttemptCounters := (s.onScanResult m address success).scanAttemptCounters } := by
  rw [onScanResult]
  dsimp only
  repeat' split
  all_goals rfl

theorem clear_step {s : DeviceScanner} {action : Action} (h : Clear s)
    (hguarded : Guarded s action) : Clear (s.step action) := by
  cases action with
  | stop =>
      refine ⟨le_rfl, ?_⟩
      rintro a (⟨hne, -⟩ | ha)
      · exact absurd rfl hne
      · exact absurd ha (Finset.notMem_empty a)
  | setOwnAddress address =>
      refine ⟨h.bounded, ?_⟩
      rintro a ha rfl
      exact hguarded ha
  | setScanOnStartup enable now => cases enable <;> exact ⟨h.bounded, h.other⟩
  | setMaxStartupScans max => exact ⟨h.bounded, h.other⟩
  | setInitialScanDelay delay => exact ⟨h.bounded, h.other⟩
  | setStartupScanInterval interval => exact ⟨h.bounded, h.other⟩
  | initFullScan enable => cases enable <;> exact ⟨h.bounded, h.other⟩
  | scanObservedDevices m => exact clear_requested h (scanObservedDevices_requested m.1 s)
  | scanAddress address => exact clear_requested h (scanAddressInternal_requested s address)
  | scanAddresses addresses => exact clear_requested h (foldl_requested and addresses (s, true))
  | onScanResult m address success =>
      refine ⟨?_, fun {a} ha => ?_⟩
      · rw [step, onScanResult_frame]
        exact h.bounded
      · have hown : (s.step (.onScanResult m address success)).ownAddress = s.ownAddress := by
          rw [step, onScanResult_frame]
        rw [hown]
        obtain hold | ⟨rfl, hsuccess, hneeds, hless⟩ := candidate_onScanResult ha
        · exact h.other hold
        · intro heq
          exact UInt8.not_le.mpr hless (hguarded heq hsuccess hneeds)
  | pass m reading =>
      obtain ⟨hkeeps, -⟩ := pass_keeps m reading h.bounded
      have hown : (s.resets reading.now).ownAddress = s.ownAddress := by rw [resets_frame]
      refine ⟨hkeeps.bounded ?_, fun {a} ha => ?_⟩
      · rw [resets_frame]
        exact h.bounded
      · rw [step, hkeeps.own, hown]
        obtain hold | hother := hkeeps.candidates ha
        · rw [resets_frame] at hold
          exact h.other hold
        · rwa [hown] at hother

theorem neverSelf_of_clear {s : DeviceScanner} (h : Clear s) (action : Action) :
    NeverSelf s action := by
  cases action with
  | pass m reading =>
      rintro cmd hcmd htarget
      obtain ⟨hcandidate, -⟩ := (pass_keeps m reading h.bounded).2 cmd hcmd _ htarget
      rw [resets_frame] at hcandidate
      obtain hcandidate | hother := hcandidate
      · exact h.other hcandidate rfl
      · exact hother rfl
  | _ => exact fun _ hcmd => absurd hcmd (Option.not_mem_none _)

theorem create_clear (ownAddress : UInt8) : Clear (create ownAddress) := by
  refine ⟨le_rfl, ?_⟩
  rintro a (⟨hne, -⟩ | ha)
  · exact absurd rfl hne
  · exact absurd ha (Finset.notMem_empty a)

/-- As long as the own address does not become a candidate, no command is for it. -/
theorem run_neverSelf (ownAddress : UInt8) {actions : List Action}
    (h : Runs.Meets step Guarded (create ownAddress) actions) :
    Runs.Meets step NeverSelf (create ownAddress) actions :=
  Runs.meets_of_invariant (I := Clear) (fun _ _ hclear hguarded => clear_step hclear hguarded)
    (fun _ action hclear _ => neverSelf_of_clear hclear action) (create_clear ownAddress) h

/-- The table of a manager that has seen nothing. -/
def noDevices : Table := ⟨DeviceManager.create none 16, DeviceManager.create_consistent none 16⟩

theorem run_neverSelf_request :
    Runs.Meets step NeverSelf (create 0x31)
      [.scanAddress 0x08, .setOwnAddress 0x10, .pass noDevices ⟨0, false⟩] :=
  run_neverSelf 0x31
    ⟨trivial, by rw [Guarded, Candidate]; decide, trivial, trivial⟩

/-- The address 0x08 is requested before it becomes the own one. -/
theorem not_neverSelf :
    ¬ ∀ (ownAddress : UInt8) (actions : List Action),
      Runs.Meets step NeverSelf (create ownAddress) actions := by
  intro h
  have hmeets := h 0x31 [.scanAddress 0x08, .setOwnAddress 0x03, .pass noDevices ⟨0, false⟩]
  exact hmeets.2.2.1 (Device.createScanCommand 0x08) (by decide) (by decide)

/-- What ends the quarantine of an address by right. -/
def Excused (s : DeviceScanner) (action : Action) (a : UInt8) : Prop :=
  match action with
  | .stop => True
  | .scanAddress address => a = address
  | .scanAddresses addresses => a ∈ addresses
  | .scanObservedDevices m => a ∈ m.1.getObservedSlaves
  | .pass _ reading => reading.now - s.lastScanAttempt > epoch
  | _ => False

/-- An address in quarantine stays there, and no command is for it, unless it is excused. -/
structure Held (s : DeviceScanner) (action : Action) : Prop where
  stays : ∀ a ∈ s.quarantinedScans, a ∈ (s.step action).quarantinedScans ∨ s.Excused action a
  silent : ∀ cmd ∈ s.returned action, ∀ a ∈ s.quarantinedScans, target cmd = some a →
    s.Excused action a

/-- A pass that comes to a startup scan finds no observed address in quarantine. -/
def LiftsNone (s : DeviceScanner) : Action → Prop
  | .pass m reading =>
      ¬ reading.now - s.lastScanAttempt > epoch → (s.resets reading.now).Idle m reading →
        s.StartupDue reading.now →
        ∀ a ∈ m.1.getObservedSlaves, a ≠ slaveOf s.ownAddress → a ∉ s.quarantinedScans
  | _ => True

theorem quarantined_resets {s : DeviceScanner} {now : Int64}
    (h : ¬ now - s.lastScanAttempt > epoch) :
    (s.resets now).quarantinedScans = s.quarantinedScans := by
  have hattempt : (s.cooldownReset now).lastScanAttempt = s.lastScanAttempt := by
    rw [cooldownReset]
    split <;> rfl
  rw [resets, epochReset, hattempt, if_neg h, cooldownReset]
  split <;> rfl

/-- A result puts addresses into quarantine and takes none out. -/
theorem quarantined_onScanResult (s : DeviceScanner) (m : DeviceManager) (address : UInt8)
    (success : Bool) :
    s.quarantinedScans ⊆ (s.onScanResult m address success).quarantinedScans := by
  rw [onScanResult]
  dsimp only
  repeat' split
  all_goals first
    | exact subset_rfl
    | exact Finset.subset_insert ..

theorem held_of_subset {s : DeviceScanner} {action : Action}
    (h : s.quarantinedScans ⊆ (s.step action).quarantinedScans)
    (hreturned : s.returned action = none) : Held s action := by
  refine ⟨fun a ha => .inl (h ha), fun cmd hcmd => ?_⟩
  rw [hreturned] at hcmd
  exact absurd hcmd (Option.not_mem_none _)

theorem held_of_requested {s : DeviceScanner} {action : Action}
    (h : Requested s (s.step action) (s.Excused action)) (hreturned : s.returned action = none) :
    Held s action := by
  refine ⟨fun a ha => ?_, fun cmd hcmd => ?_⟩
  · by_cases hexcused : s.Excused action a
    · exact .inr hexcused
    · exact .inl ((h.quarantined a).mpr ⟨ha, fun hreq => absurd hreq hexcused⟩)
  · rw [hreturned] at hcmd
    exact absurd hcmd (Option.not_mem_none _)

/-- A pass takes out of quarantine what its startup scan requests. -/
theorem held_pass_iff {s : DeviceScanner} (hle : s.currentDeepScanAddress ≤ 256) (m : Table)
    (reading : Reading) : Held s (.pass m reading) ↔ LiftsNone s (.pass m reading) := by
  obtain ⟨hkeeps, hcmd⟩ := pass_keeps m reading hle
  have hdue : (s.resets reading.now).StartupDue reading.now ↔ s.StartupDue reading.now := by
    rw [resets_frame]
    rfl
  have hown : (s.resets reading.now).ownAddress = s.ownAddress := by rw [resets_frame]
  by_cases hepoch : reading.now - s.lastScanAttempt > epoch
  · exact iff_of_true ⟨fun _ _ => .inr hepoch, fun _ _ _ _ _ => hepoch⟩
      fun hnot => absurd hepoch hnot
  · have hsame := quarantined_resets hepoch
    have hquarantined := hkeeps.quarantined
    rw [hsame, hdue, hown] at hquarantined
    constructor
    · intro hheld _ hidle hscan a hobserved hother ha
      obtain hstays | hexcused := hheld.stays a ha
      · exact ((hquarantined a).mp hstays).2 ⟨hidle, hscan, hobserved, hother⟩
      · exact hepoch hexcused
    · intro hlifts
      refine ⟨fun a ha => .inl ((hquarantined a).mpr ⟨ha, ?_⟩), fun cmd hmem a ha htarget => ?_⟩
      · rintro ⟨hidle, hscan, hobserved, hother⟩
        exact hlifts hepoch hidle hscan a hobserved hother ha
      · have hnot := (hcmd cmd hmem a htarget).2.2
        rw [hsame] at hnot
        exact absurd ha hnot

theorem held_iff {s : DeviceScanner} (hle : s.currentDeepScanAddress ≤ 256) (action : Action) :
    Held s action ↔ LiftsNone s action := by
  cases action with
  | stop =>
      exact iff_of_true ⟨fun _ _ => .inr trivial, fun _ _ _ _ _ => trivial⟩ trivial
  | setOwnAddress address => exact iff_of_true (held_of_subset subset_rfl rfl) trivial
  | setScanOnStartup enable now =>
      cases enable <;> exact iff_of_true (held_of_subset subset_rfl rfl) trivial
  | setMaxStartupScans max => exact iff_of_true (held_of_subset subset_rfl rfl) trivial
  | setInitialScanDelay delay => exact iff_of_true (held_of_subset subset_rfl rfl) trivial
  | setStartupScanInterval interval => exact iff_of_true (held_of_subset subset_rfl rfl) trivial
  | initFullScan enable =>
      cases enable <;> exact iff_of_true (held_of_subset subset_rfl rfl) trivial
  | scanObservedDevices m =>
      exact iff_of_true (held_of_requested (scanObservedDevices_requested m.1 s) rfl) trivial
  | scanAddress address =>
      exact iff_of_true (held_of_requested (scanAddressInternal_requested s address) rfl) trivial
  | scanAddresses addresses =>
      exact iff_of_true (held_of_requested (foldl_requested and addresses (s, true)) rfl) trivial
  | onScanResult m address success =>
      exact iff_of_true (held_of_subset (quarantined_onScanResult s m address success) rfl) trivial
  | pass m reading => exact held_pass_iff hle m reading

theorem bounded_step {s : DeviceScanner} (h : s.currentDeepScanAddress ≤ 256) (action : Action) :
    (s.step action).currentDeepScanAddress ≤ 256 := by
  cases action with
  | stop => exact le_rfl
  | setScanOnStartup enable now => cases enable <;> exact h
  | initFullScan enable => cases enable <;> exact h
  | scanObservedDevices m =>
      rw [step, (scanObservedDevices_requested m.1 s).rest]
      exact h
  | scanAddress address =>
      rw [step, scanAddress, (scanAddressInternal_requested s address).rest]
      exact h
  | scanAddresses addresses =>
      rw [step, scanAddresses, (foldl_requested and addresses (s, true)).rest]
      exact h
  | onScanResult m address success =>
      rw [step, onScanResult_frame]
      exact h
  | pass m reading =>
      refine (pass_keeps m reading h).1.bounded ?_
      rw [resets_frame]
      exact h
  | _ => exact h

/-- In a run every address stays in quarantine as it should exactly when no startup scan finds an
observed address there. -/
theorem run_held_iff (ownAddress : UInt8) (actions : List Action) :
    Runs.Meets step Held (create ownAddress) actions ↔
      Runs.Meets step LiftsNone (create ownAddress) actions :=
  Runs.meets_congr (I := fun s => s.currentDeepScanAddress ≤ 256)
    (fun _ action hle _ => bounded_step hle action) (fun _ action hle => held_iff hle action)
    (Nat.le_refl 256) actions

/-- What the steps say together: as long as an address is not excused, there is no command for
it. -/
theorem silent_of_held {s : DeviceScanner} {actions : List Action} {a : UInt8}
    (ha : a ∈ s.quarantinedScans) (hheld : Runs.Meets step Held s actions)
    (hnot : Runs.Meets step (fun s action => ¬ s.Excused action a) s actions) :
    Runs.Meets step (fun s action => ∀ cmd ∈ s.returned action, target cmd ≠ some a) s actions := by
  induction actions generalizing s with
  | nil => exact trivial
  | cons action rest ih =>
      obtain ⟨hfirst, hrest⟩ := hheld
      obtain ⟨hnotFirst, hnotRest⟩ := hnot
      refine ⟨fun cmd hcmd htarget => hnotFirst (hfirst.silent cmd hcmd a ha htarget), ?_⟩
      exact ih ((hfirst.stays a ha).resolve_right hnotFirst) hrest hnotRest

/-- The table of a manager that has seen a message of master 0x10 to device 0x15. -/
def oneDevice : Table :=
  ⟨(DeviceManager.create (some {}) 16).step (.update ⟨0x10, 0x15, [0x07, 0x04, 0x00]⟩ []),
    (DeviceManager.step_consistent (DeviceManager.create_consistent (some {}) 16) _).1⟩

/-- Device 0x15 fails ten times, and then the startup scan is due. -/
theorem not_held :
    ¬ ∀ (ownAddress : UInt8) (actions : List Action),
      Runs.Meets step Held (create ownAddress) actions := by
  intro h
  have hmeets := h 0x31 (List.replicate 10 (.onScanResult oneDevice 0x15 false) ++
    [.setInitialScanDelay 0, .setScanOnStartup true 0, .pass oneDevice ⟨0, false⟩])
  have hheld := hmeets.2.2.2.2.2.2.2.2.2.2.2.2.1
  obtain hstays | hexcused := hheld.stays 0x15 (by decide)
  · exact absurd hstays (by decide)
  · exact absurd hexcused (by rw [Excused]; decide +kernel)

/-- The scanner beside the last reading of the clock. -/
structure Timed where
  scanner : DeviceScanner
  clock : Int64 := 0

namespace Timed

/-- The reading that an action takes. -/
def reads : Action → Option Int64
  | .setScanOnStartup _ now => some now
  | .pass _ reading => some reading.now
  | _ => none

def step (t : Timed) (action : Action) : Timed :=
  { scanner := t.scanner.step action, clock := (reads action).getD t.clock }

/-- The clock does not go back. -/
def Monotone (t : Timed) (action : Action) : Prop := ∀ now ∈ reads action, t.clock ≤ now

end Timed

/-- The difference of two times has no overflow. -/
def InRange (a b : Int64) : Prop :=
  -2 ^ 63 ≤ a.toInt - b.toInt ∧ a.toInt - b.toInt < 2 ^ 63

instance (a b : Int64) : Decidable (InRange a b) :=
  inferInstanceAs (Decidable (_ ∧ _))

/-- A pass computes its differences without overflow and resets the cooldowns when the last reset
was more than 60 seconds before it. -/
structure Expires (s : DeviceScanner) (m : DeviceManager) (reading : Reading) : Prop where
  attempt : InRange reading.now s.lastScanAttempt
  failure : s.failedScans.Nonempty → InRange reading.now s.lastFailureResetTime
  cooled : s.lastFailureResetTime.toInt + 60000000 < reading.now.toInt →
    ∀ a ∈ s.failedScans, a ∉ (s.pass m reading).1.failedScans

/-- A command has been returned before, and no address is on cooldown. -/
structure Uncooled (s : DeviceScanner) : Prop where
  attempt : s.lastScanAttempt ≠ Clock.timePointMin
  failed : s.failedScans = ∅

/-- A time that is not set or is an earlier reading. -/
def Past (clock t : Int64) : Prop := t = Clock.timePointMin ∨ 0 ≤ t ∧ t ≤ clock

structure Timely (t : Timed) : Prop where
  bounded : t.scanner.currentDeepScanAddress ≤ 256
  cooldown : t.scanner.scanCooldownDuration = Clock.seconds 60
  clock : 0 ≤ t.clock
  attempt : Past t.clock t.scanner.lastScanAttempt
  failure : t.scanner.lastFailureResetTime = Clock.timePointMin

theorem toInt_timePointMin : Clock.timePointMin.toInt = -2 ^ 63 := Int64.toInt_minValue

theorem toInt_nonneg {t : Int64} (h : 0 ≤ t) : 0 ≤ t.toInt := Int64.le_iff_toInt_le.mp h

/-- The difference from the least time is the one that has an overflow. -/
theorem sub_inRange_iff {clock now t : Int64} (hclock : clock ≤ now) (hnow : 0 ≤ now)
    (h : Past clock t) : InRange now t ↔ t ≠ Clock.timePointMin := by
  have hnow' := toInt_nonneg hnow
  have hlt := now.toInt_lt
  obtain rfl | ⟨hzero, hle⟩ := h
  · refine iff_of_false ?_ (fun hne => hne rfl)
    rw [InRange, toInt_timePointMin]
    omega
  · have hzero' := toInt_nonneg hzero
    have hle' := Int64.le_iff_toInt_le.mp hle
    have hclock' := Int64.le_iff_toInt_le.mp hclock
    refine iff_of_true ⟨by omega, by omega⟩ ?_
    rintro rfl
    rw [toInt_timePointMin] at hzero'
    omega

theorem past_of_le {clock clock' t : Int64} (h : Past clock t) (hle : clock ≤ clock') :
    Past clock' t :=
  h.imp_right fun hpast => ⟨hpast.1, Int64.le_trans hpast.2 hle⟩

/-- With arithmetic that wraps the time of the last reset is never set: its difference from each
reading is negative, so the cooldowns are not reset. -/
theorem resetTime_pass {s : DeviceScanner} (hbounded : s.currentDeepScanAddress ≤ 256)
    (hcooldown : s.scanCooldownDuration = Clock.seconds 60)
    (hunset : s.lastFailureResetTime = Clock.timePointMin) (m : Table) {reading : Reading}
    (hnow : 0 ≤ reading.now) :
    (s.pass m reading).1.lastFailureResetTime = Clock.timePointMin := by
  have hduration : (Clock.seconds 60).toInt = 60000000 := by decide
  have hnot : ¬ reading.now - s.lastFailureResetTime > s.scanCooldownDuration := by
    rw [hcooldown, hunset, gt_iff_lt, Int64.lt_iff_toInt_lt, hduration, Int64.toInt_sub,
      toInt_timePointMin]
    have hnonneg := toInt_nonneg hnow
    have hlt := reading.now.toInt_lt
    have hwraps : (reading.now.toInt - -2 ^ 63).bmod (2 ^ 64) = reading.now.toInt - 2 ^ 63 := by
      rw [Int.bmod_def]
      omega
    rw [hwraps]
    omega
  rw [(pass_keeps m reading hbounded).1.resetTime, resets, cooldownReset,
    if_neg fun hall => hnot hall.2, epochReset]
  split
  · exact hunset
  · exact hunset

theorem create_timely (ownAddress : UInt8) : Timely { scanner := create ownAddress } where
  bounded := le_rfl
  cooldown := rfl
  clock := Int64.le_refl 0
  attempt := .inl rfl
  failure := rfl

/-- A pass sets the time of the attempt, and no action that of the reset. -/
theorem timely_step {t : Timed} {action : Action} (h : Timely t) (hmono : t.Monotone action) :
    Timely (t.step action) := by
  have hbounded : (t.step action).scanner.currentDeepScanAddress ≤ 256 :=
    bounded_step h.bounded action
  have hsame (hattempt : (t.step action).scanner.lastScanAttempt = t.scanner.lastScanAttempt)
      (hfailure : (t.step action).scanner.lastFailureResetTime = t.scanner.lastFailureResetTime)
      (hcooldown : (t.step action).scanner.scanCooldownDuration = t.scanner.scanCooldownDuration)
      (hclock : t.clock ≤ (t.step action).clock) : Timely (t.step action) :=
    ⟨hbounded, hcooldown.trans h.cooldown, Int64.le_trans h.clock hclock,
      hattempt ▸ past_of_le h.attempt hclock, hfailure.trans h.failure⟩
  have hrefl : t.clock ≤ t.clock := Int64.le_refl _
  cases action with
  | stop => exact ⟨hbounded, h.cooldown, h.clock, h.attempt, rfl⟩
  | setScanOnStartup enable now =>
      have hclock : t.clock ≤ now := hmono now rfl
      cases enable with
      | true => exact hsame rfl rfl rfl hclock
      | false => exact hsame rfl rfl rfl hclock
  | initFullScan enable =>
      cases enable with
      | true => exact hsame rfl rfl rfl hrefl
      | false => exact hsame rfl rfl rfl hrefl
  | scanObservedDevices m =>
      have hrest := (scanObservedDevices_requested m.1 t.scanner).rest
      refine hsame ?_ ?_ ?_ hrefl <;> rw [Timed.step, DeviceScanner.step, hrest]
  | scanAddress address =>
      have hrest := (scanAddressInternal_requested t.scanner address).rest
      refine hsame ?_ ?_ ?_ hrefl <;> rw [Timed.step, DeviceScanner.step, scanAddress, hrest]
  | scanAddresses addresses =>
      have hrest := (foldl_requested and addresses (t.scanner, true)).rest
      refine hsame ?_ ?_ ?_ hrefl <;> rw [Timed.step, DeviceScanner.step, scanAddresses, hrest]
  | onScanResult m address success =>
      refine hsame ?_ ?_ ?_ hrefl <;> rw [Timed.step, DeviceScanner.step, onScanResult_frame]
  | pass m reading =>
      have hclock : t.clock ≤ reading.now := hmono reading.now rfl
      have hnow : 0 ≤ reading.now := Int64.le_trans h.clock hclock
      obtain ⟨hkeeps, -⟩ := pass_keeps m reading h.bounded
      have hframe := resets_frame t.scanner reading.now
      have hset {time : Int64} (hpast : Past t.clock time) {time' : Int64}
          (htime : time' = time ∨ time' = reading.now) : Past reading.now time' := by
        obtain rfl | rfl := htime
        · exact past_of_le hpast hclock
        · exact .inr ⟨hnow, Int64.le_refl _⟩
      refine ⟨hbounded, ?_, hnow, hset h.attempt ?_,
        resetTime_pass h.bounded h.cooldown h.failure m hnow⟩
      · refine hkeeps.cooldown.trans ?_
        rw [hframe]
        exact h.cooldown
      · have hattempt := hkeeps.attempt
        rw [hframe] at hattempt
        exact hattempt
  | _ => exact hsame rfl rfl rfl hrefl

theorem run_timely (ownAddress : UInt8) {actions : List Action}
    (h : Runs.Meets Timed.step Timed.Monotone { scanner := create ownAddress } actions) :
    Timely (Runs.run Timed.step { scanner := create ownAddress } actions) :=
  Runs.invariant (I := Timely) (fun _ _ htimely hmono => timely_step htimely hmono)
    (create_timely ownAddress) h

/-- The time of the last reset is never set. -/
theorem run_resetTime (ownAddress : UInt8) {actions : List Action}
    (h : Runs.Meets Timed.step Timed.Monotone { scanner := create ownAddress } actions) :
    (Runs.run Timed.step { scanner := create ownAddress } actions).scanner.lastFailureResetTime =
      Clock.timePointMin :=
  (run_timely ownAddress h).failure

/-- In every state that a run leads to, cooldowns expire exactly where there are none. -/
theorem run_expires_iff (ownAddress : UInt8) {actions : List Action}
    (h : Runs.Meets Timed.step Timed.Monotone { scanner := create ownAddress } actions)
    (m : Table) {reading : Reading}
    (hnow : (Runs.run Timed.step { scanner := create ownAddress } actions).clock ≤ reading.now) :
    Expires (Runs.run Timed.step { scanner := create ownAddress } actions).scanner m reading ↔
      Uncooled (Runs.run Timed.step { scanner := create ownAddress } actions).scanner := by
  have hunset := run_resetTime ownAddress h
  have htimely := run_timely ownAddress h
  generalize Runs.run Timed.step { scanner := create ownAddress } actions = t at *
  have hnonneg : 0 ≤ reading.now := Int64.le_trans htimely.clock hnow
  have hattempt := sub_inRange_iff hnow hnonneg htimely.attempt
  have hfailure := sub_inRange_iff hnow hnonneg (.inl hunset)
  constructor
  · intro hexpires
    refine ⟨hattempt.mp hexpires.attempt, Finset.not_nonempty_iff_eq_empty.mp fun hsome => ?_⟩
    exact hfailure.mp (hexpires.failure hsome) hunset
  · intro huncooled
    have hnone (a : UInt8) (ha : a ∈ t.scanner.failedScans) : False := by
      rw [huncooled.failed] at ha
      exact Finset.notMem_empty a ha
    exact ⟨hattempt.mpr huncooled.attempt, fun ⟨a, ha⟩ => (hnone a ha).elim,
      fun _ a ha => (hnone a ha).elim⟩

/-- A command has been returned and has not failed. -/
theorem run_expires_request :
    Expires (Runs.run Timed.step { scanner := create 0x31 }
      [.scanAddress 0x08, .pass noDevices ⟨0, false⟩]).scanner noDevices ⟨61000000, false⟩ :=
  (@run_expires_iff 0x31 [.scanAddress 0x08, .pass noDevices ⟨0, false⟩]
    ⟨fun _ hnow => absurd hnow (Option.not_mem_none _), by
      rintro now ⟨⟩
      decide, trivial⟩ noDevices ⟨61000000, false⟩ (by decide +kernel)).mpr
    ⟨by decide, by decide⟩

/-- The command for 0x08 fails, and 61 seconds later 0x08 is still on cooldown. -/
theorem not_expires :
    ¬ ∀ (ownAddress : UInt8) (actions : List Action),
      Runs.Meets Timed.step Timed.Monotone { scanner := create ownAddress } actions →
      ∀ (m : Table) (reading : Reading),
        (Runs.run Timed.step { scanner := create ownAddress } actions).clock ≤ reading.now →
        Expires (Runs.run Timed.step { scanner := create ownAddress } actions).scanner m
          reading := by
  intro h
  have hexpires := h 0x31
    [.scanAddress 0x08, .pass noDevices ⟨0, false⟩, .onScanResult noDevices 0x08 false]
    ⟨fun _ hnow => absurd hnow (Option.not_mem_none _), by
      rintro now ⟨⟩
      decide, fun _ hnow => absurd hnow (Option.not_mem_none _), trivial⟩
    noDevices ⟨61000000, false⟩ (by decide)
  exact absurd (hexpires.cooled (by decide) 0x08 (by decide)) (by decide)

end DeviceScanner

end Ebus
