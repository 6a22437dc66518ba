import Ebus.Core.BusMonitor
import Ebus.Lib.Run
import Mathlib.Algebra.Group.Nat.Defs
import Mathlib.Data.Finset.Card
import Mathlib.Data.List.GetD
import Mathlib.Data.List.Perm.Basic

/-!
# The table of errors

A table of a few entries follows the errors of any number of addresses. It holds the last address
at any time, in its order, each address once, and it never counts more than there was. An address
that is new takes the place of one with the least count, so that as long as no more addresses have
failed than there are entries, every count is exact.
-/

namespace Ebus.HandlerMetrics

open SystemMetricsLimits (topErrorAddressesCount)

section Entries

variable {top : List ErrorAddressStats} {address : UInt8}

/-- The loop from the entry `i` on, when none before it has the address. -/
theorem findEntry_loop {left i minIdx : Nat} (hend : i + left = top.length)
    (hmin : minIdx < top.length) (others : ∀ j < i, (top.getD j {}).address ≠ address)
    (least : ∀ j < i, (top.getD minIdx {}).count ≤ (top.getD j {}).count)
    {idx : Nat} {found : Bool} (h : findEntry top address left i minIdx = (idx, found)) :
    idx < top.length ∧
      (found = true → (top.getD idx {}).address = address ∧
        ∀ j < idx, (top.getD j {}).address ≠ address) ∧
      (found = false → ∀ j < top.length, (top.getD j {}).address ≠ address ∧
        (top.getD idx {}).count ≤ (top.getD j {}).count) := by
  induction left generalizing i minIdx with
  | zero =>
    obtain ⟨rfl, rfl⟩ := Prod.mk.inj h
    refine ⟨hmin, fun h => absurd h Bool.false_ne_true, fun _ j hj => ?_⟩
    have hi : j < i := by omega
    exact ⟨others j hi, least j hi⟩
  | succ left ih =>
    rw [findEntry] at h
    split at h
    next haddress =>
      obtain ⟨rfl, rfl⟩ := Prod.mk.inj h
      exact ⟨by omega, fun _ => ⟨haddress, others⟩, fun h => absurd h.symm Bool.false_ne_true⟩
    next haddress =>
      refine ih (by omega) ?_ (fun j hj => ?_) (fun j hj => ?_) h
      · split
        · omega
        · exact hmin
      · obtain hlt | rfl := Nat.lt_succ_iff_lt_or_eq.mp hj
        · exact others j hlt
        · exact haddress
      · obtain hlt | rfl := Nat.lt_succ_iff_lt_or_eq.mp hj
        · split
          next hless => exact UInt32.le_trans (UInt32.le_of_lt hless) (least j hlt)
          next => exact least j hlt
        · split
          next => exact UInt32.le_refl _
          next hless => exact UInt32.not_lt.mp hless

theorem before_eq_false {a b : ErrorAddressStats} (h : b.before a = false) :
    b.count ≤ a.count := by
  rw [ErrorAddressStats.before] at h
  split at h
  next hne =>
    exact UInt32.not_lt.mp (of_decide_eq_false h)
  next heq =>
    rw [not_not.mp heq]
    exact UInt32.le_refl _

/-- An entry is taken out of the table and another one is put in. -/
theorem perm_set (idx : Nat) (h : idx < top.length) (entry : ErrorAddressStats) :
    top.Perm (top.getD idx {} :: top.eraseIdx idx) ∧
      (top.set idx entry).Perm (entry :: top.eraseIdx idx) := by
  constructor
  · rw [List.getD_eq_getElem _ _ h]
    exact (List.getElem_cons_eraseIdx_perm h).symm
  · have hset : idx < (top.set idx entry).length := by rwa [List.length_set]
    have hperm := List.getElem_cons_eraseIdx_perm hset
    rw [List.getElem_set_self, List.eraseIdx_set_eq] at hperm
    exact hperm.symm

end Entries

/-- What an error makes of the table: the entry of its address counts one more, or a new entry
takes the place of one with the least count. -/
inductive Records (top : List ErrorAddressStats) (address : UInt8)
    (after : List ErrorAddressStats) : Prop where
  | counts (old new : ErrorAddressStats) (rest : List ErrorAddressStats)
      (perm : top.Perm (old :: rest)) (perm' : after.Perm (new :: rest))
      (known : old.address = address)
      (most : ∀ e ∈ rest, e.address = address → e.count ≤ old.count)
      (same : new.address = address) (count : new.count = old.count + 1)
  | replaces (old new : ErrorAddressStats) (rest : List ErrorAddressStats)
      (perm : top.Perm (old :: rest)) (perm' : after.Perm (new :: rest))
      (unknown : ∀ e ∈ top, e.address ≠ address) (least : ∀ e ∈ top, old.count ≤ e.count)
      (same : new.address = address) (count : new.count = 1)

theorem recordHandlerError_records (m : HandlerMetrics) (sorting : Sorting) (address : UInt8)
    (nowUs : UInt64) (hpos : 0 < m.topErrors.length)
    (sorted : m.topErrors.Pairwise fun a b => b.before a = false) :
    Records m.topErrors address (m.recordHandlerError sorting address nowUs).topErrors := by
  obtain ⟨idx, found, hfind⟩ : ∃ idx found,
      findEntry m.topErrors address m.topErrors.length 0 0 = (idx, found) := ⟨_, _, rfl⟩
  obtain ⟨hidx, hfound, hnone⟩ := findEntry_loop (Nat.zero_add _) hpos
    (fun j hj => absurd hj (Nat.not_lt_zero j)) (fun j hj => absurd hj (Nat.not_lt_zero j)) hfind
  have hmem (e : ErrorAddressStats) (he : e ∈ m.topErrors) :
      ∃ j < m.topErrors.length, m.topErrors.getD j {} = e := by
    obtain ⟨j, hj, rfl⟩ := List.getElem_of_mem he
    exact ⟨j, hj, List.getD_eq_getElem _ _ hj⟩
  simp only [recordHandlerError, hfind]
  cases found with
  | true =>
    obtain ⟨haddress, hfirst⟩ := hfound rfl
    obtain ⟨perm, perm'⟩ := perm_set idx hidx { m.topErrors.getD idx {} with
      count := (m.topErrors.getD idx {}).count + 1, lastSeenUs := nowUs }
    refine .counts _ _ _ perm ((sorting.perm _).trans perm') haddress ?_ haddress rfl
    intro e he hsame
    obtain ⟨j, hj, rfl⟩ := hmem e (List.mem_of_mem_eraseIdx he)
    obtain hlt | rfl | hgt := Nat.lt_trichotomy j idx
    · exact absurd hsame (hfirst j hlt)
    · exact UInt32.le_refl _
    · rw [List.getD_eq_getElem _ _ hj, List.getD_eq_getElem _ _ hidx]
      exact before_eq_false (List.pairwise_iff_getElem.mp sorted idx j hidx hj hgt)
  | false =>
    obtain ⟨perm, perm'⟩ := perm_set idx hidx { address, count := 1, lastSeenUs := nowUs }
    refine .replaces _ _ _ perm ((sorting.perm _).trans perm') ?_ ?_ rfl rfl
    · intro e he
      obtain ⟨j, hj, rfl⟩ := hmem e he
      exact (hnone rfl j hj).1
    · intro e he
      obtain ⟨j, hj, rfl⟩ := hmem e he
      exact (hnone rfl j hj).2

/-- What the table says about the addresses of the errors so far. -/
structure Faithful (errors : List UInt8) (top : List ErrorAddressStats) : Prop where
  length : top.length = topErrorAddressesCount
  sorted : top.Pairwise fun a b => b.before a = false
  distinct : top.Pairwise fun a b => a.address = b.address → a.count = 0 ∨ b.count = 0
  sound : ∀ e ∈ top, e.count.toNat ≤ errors.count e.address
  recent : ∀ address, errors.getLast? = some address →
    ∃ e ∈ top, e.address = address ∧ e.count ≠ 0
  exact : errors.toFinset.card ≤ topErrorAddressesCount →
    ∀ address ∈ errors, ∃ e ∈ top, e.address = address ∧ e.count.toNat = errors.count address

section Step

variable {errors : List UInt8} {top after : List ErrorAddressStats} {address : UInt8}

theorem toNat_ne_zero {count : UInt32} : count ≠ 0 ↔ 0 < count.toNat := by
  rw [Nat.pos_iff_ne_zero, ne_eq, ne_eq, ← UInt32.toNat_inj, UInt32.toNat_zero]

theorem count_concat_ne {b : UInt8} (h : b ≠ address) :
    (errors ++ [address]).count b = errors.count b := by
  rw [List.count_append, List.count_singleton, if_neg (by simpa using Ne.symm h), Nat.add_zero]

theorem count_concat_self : (errors ++ [address]).count address = errors.count address + 1 := by
  rw [List.count_append, List.count_singleton_self]

/-- What was exact behind the errors so far, when there is still room behind one more. -/
theorem Faithful.entry (faithful : Faithful errors top)
    (hroom : (errors ++ [address]).toFinset.card ≤ topErrorAddressesCount) {b : UInt8}
    (hb : b ∈ errors) : ∃ e ∈ top, e.address = b ∧ e.count.toNat = errors.count b := by
  refine faithful.exact (Nat.le_trans (Finset.card_le_card ?_) hroom) b hb
  rw [List.toFinset_append]
  exact Finset.subset_union_left

/-- The entries that count something belong to different addresses that have failed. -/
theorem Faithful.card_le (faithful : Faithful errors top) (full : ∀ e ∈ top, e.count ≠ 0) :
    topErrorAddressesCount ≤ errors.toFinset.card := by
  have hnodup : (top.map (·.address)).Nodup := by
    refine List.pairwise_map.mpr (faithful.distinct.imp_of_mem fun ha hb hdistinct hsame => ?_)
    exact (hdistinct hsame).elim (full _ ha) (full _ hb)
  have hsubset : (top.map (·.address)).toFinset ⊆ errors.toFinset := by
    intro a ha
    obtain ⟨e, he, rfl⟩ := List.mem_map.mp (List.mem_toFinset.mp ha)
    refine List.mem_toFinset.mpr (List.count_pos_iff.mp ?_)
    exact Nat.lt_of_lt_of_le (toNat_ne_zero.mp (full e he)) (faithful.sound e he)
  calc topErrorAddressesCount = top.length := faithful.length.symm
    _ = (top.map (·.address)).toFinset.card := by
      rw [List.toFinset_card_of_nodup hnodup, List.length_map]
    _ ≤ errors.toFinset.card := Finset.card_le_card hsubset

/-- With room for all, the entry of a new address takes the place of an empty one. -/
theorem Faithful.empty_of_unknown (faithful : Faithful errors top)
    (hroom : (errors ++ [address]).toFinset.card ≤ topErrorAddressesCount)
    (unknown : ∀ e ∈ top, e.address ≠ address) {old : ErrorAddressStats}
    (least : ∀ e ∈ top, old.count ≤ e.count) : address ∉ errors ∧ old.count = 0 := by
  have hnew : address ∉ errors := by
    intro hmem
    obtain ⟨e, he, hsame, -⟩ := faithful.entry hroom hmem
    exact unknown e he hsame
  refine ⟨hnew, ?_⟩
  by_contra hcount
  have hfull : ∀ e ∈ top, e.count ≠ 0 := by
    intro e he
    have hle := UInt32.le_iff_toNat_le.mp (least e he)
    exact toNat_ne_zero.mpr (Nat.lt_of_lt_of_le (toNat_ne_zero.mp hcount) hle)
  have hcard := faithful.card_le hfull
  have hgrown : (errors ++ [address]).toFinset.card = errors.toFinset.card + 1 := by
    rw [List.toFinset_append, List.toFinset_cons, List.toFinset_nil, Finset.union_insert,
      Finset.union_empty, Finset.card_insert_of_notMem (by rwa [List.mem_toFinset])]
  omega

/-- The entries beside the one that is touched. -/
theorem Faithful.rest_distinct (faithful : Faithful errors top) {old : ErrorAddressStats}
    {rest : List ErrorAddressStats} (perm : top.Perm (old :: rest)) :
    (∀ e ∈ rest, old.address = e.address → old.count = 0 ∨ e.count = 0) ∧
      rest.Pairwise fun a b => a.address = b.address → a.count = 0 ∨ b.count = 0 :=
  List.pairwise_cons.mp
    ((perm.pairwise_iff fun h heq => (h heq.symm).symm).mp faithful.distinct)

/-- The entry that counts is the one of the address that counts anything. -/
theorem Faithful.others_zero (faithful : Faithful errors top) {old : ErrorAddressStats}
    {rest : List ErrorAddressStats} (perm : top.Perm (old :: rest)) (known : old.address = address)
    (most : ∀ e ∈ rest, e.address = address → e.count ≤ old.count) {e : ErrorAddressStats}
    (he : e ∈ rest) (hsame : e.address = address) : e.count = 0 := by
  obtain hold | hzero := (faithful.rest_distinct perm).1 e he (known.trans hsame.symm)
  · have hle := UInt32.le_iff_toNat_le.mp (most e he hsame)
    rw [hold, UInt32.toNat_zero, Nat.le_zero] at hle
    exact UInt32.toNat_inj.mp hle
  · exact hzero

/-- The other entries, behind one more error. -/
theorem Faithful.rest_sound (faithful : Faithful errors top) {old : ErrorAddressStats}
    {rest : List ErrorAddressStats} (perm : top.Perm (old :: rest)) {e : ErrorAddressStats}
    (he : e ∈ rest) : e.count.toNat ≤ (errors ++ [address]).count e.address := by
  have hsound := faithful.sound e (perm.mem_iff.mpr (List.mem_cons_of_mem _ he))
  rw [List.count_append]
  omega

theorem Faithful.exact_of_ne (faithful : Faithful errors top) {old new : ErrorAddressStats}
    {rest : List ErrorAddressStats} (perm : top.Perm (old :: rest))
    (perm' : after.Perm (new :: rest))
    (hroom : (errors ++ [address]).toFinset.card ≤ topErrorAddressesCount) {b : UInt8}
    (hb : b ∈ errors ++ [address]) (hne : b ≠ address)
    (hold : old.address = b → b ∈ errors → old.count.toNat ≠ errors.count b) :
    ∃ e ∈ after, e.address = b ∧ e.count.toNat = (errors ++ [address]).count b := by
  have hmem : b ∈ errors := by
    obtain h | h := List.mem_append.mp hb
    · exact h
    · exact absurd (List.mem_singleton.mp h) hne
  obtain ⟨e, he, hsame, hexact⟩ := faithful.entry hroom hmem
  obtain rfl | he := List.mem_cons.mp (perm.mem_iff.mp he)
  · exact absurd hexact (hold hsame hmem)
  · exact ⟨e, perm'.mem_iff.mpr (List.mem_cons_of_mem _ he), hsame,
      hexact.trans (count_concat_ne hne).symm⟩

/-- The address has an entry. -/
theorem Faithful.counts (faithful : Faithful errors top) {old new : ErrorAddressStats}
    {rest : List ErrorAddressStats} (perm : top.Perm (old :: rest))
    (perm' : after.Perm (new :: rest))
    (known : old.address = address) (most : ∀ e ∈ rest, e.address = address → e.count ≤ old.count)
    (same : new.address = address) (count : new.count = old.count + 1)
    (sorted : after.Pairwise fun a b => b.before a = false) (hlength : errors.length + 1 < 2 ^ 32) :
    Faithful (errors ++ [address]) after := by
  have hold : old ∈ top := perm.mem_iff.mpr List.mem_cons_self
  have hnew : new ∈ after := perm'.mem_iff.mpr List.mem_cons_self
  have hzero {e : ErrorAddressStats} (he : e ∈ rest) (hsame : e.address = address) :
      e.count = 0 := faithful.others_zero perm known most he hsame
  have hbound : old.count.toNat ≤ errors.count address := known ▸ faithful.sound old hold
  have hcount : new.count.toNat = old.count.toNat + 1 := by
    have hle := List.count_le_length (a := address) (l := errors)
    rw [count, UInt32.toNat_add, UInt32.toNat_one, Nat.mod_eq_of_lt (by omega)]
  refine ⟨?_, sorted, ?_, ?_, ?_, ?_⟩
  · rw [perm'.length_eq, List.length_cons, ← List.length_cons (a := old), ← perm.length_eq,
      faithful.length]
  · refine (perm'.pairwise_iff fun h heq => (h heq.symm).symm).mpr (.cons ?_ ?_)
    · exact fun e he hsame => .inr (hzero he (hsame.symm.trans same))
    · exact (faithful.rest_distinct perm).2
  · intro e he
    obtain rfl | he := List.mem_cons.mp (perm'.mem_iff.mp he)
    · rw [hcount, same, count_concat_self]
      exact Nat.add_le_add_right hbound 1
    · exact faithful.rest_sound perm he
  · intro b hb
    rw [List.getLast?_concat, Option.some.injEq] at hb
    exact ⟨new, hnew, same.trans hb, toNat_ne_zero.mpr (by omega)⟩
  · intro hroom b hb
    by_cases hne : b = address
    · subst hne
      refine ⟨new, hnew, same, ?_⟩
      rw [hcount, count_concat_self, Nat.add_right_cancel_iff]
      by_cases hmem : b ∈ errors
      · obtain ⟨e, he, hsame, hexact⟩ := faithful.entry hroom hmem
        obtain rfl | he := List.mem_cons.mp (perm.mem_iff.mp he)
        · exact hexact
        · rw [hzero he hsame, UInt32.toNat_zero] at hexact
          exact absurd hexact.symm (Nat.ne_of_gt (List.count_pos_iff.mpr hmem))
      · have hnone := List.count_eq_zero_of_not_mem hmem
        omega
    · exact faithful.exact_of_ne perm perm' hroom hb hne
        fun h => absurd (h.symm.trans known) hne

/-- The address is new. -/
theorem Faithful.replaces (faithful : Faithful errors top) {old new : ErrorAddressStats}
    {rest : List ErrorAddressStats} (perm : top.Perm (old :: rest))
    (perm' : after.Perm (new :: rest))
    (unknown : ∀ e ∈ top, e.address ≠ address) (least : ∀ e ∈ top, old.count ≤ e.count)
    (same : new.address = address) (count : new.count = 1)
    (sorted : after.Pairwise fun a b => b.before a = false) :
    Faithful (errors ++ [address]) after := by
  have hold : old ∈ top := perm.mem_iff.mpr List.mem_cons_self
  have hnew : new ∈ after := perm'.mem_iff.mpr List.mem_cons_self
  have hrest {e : ErrorAddressStats} (he : e ∈ rest) : e.address ≠ address :=
    unknown e (perm.mem_iff.mpr (List.mem_cons_of_mem _ he))
  refine ⟨?_, sorted, ?_, ?_, ?_, ?_⟩
  · rw [perm'.length_eq, List.length_cons, ← List.length_cons (a := old), ← perm.length_eq,
      faithful.length]
  · refine (perm'.pairwise_iff fun h heq => (h heq.symm).symm).mpr (.cons ?_ ?_)
    · exact fun e he hsame => absurd (hsame.symm.trans same) (hrest he)
    · exact (faithful.rest_distinct perm).2
  · intro e he
    obtain rfl | he := List.mem_cons.mp (perm'.mem_iff.mp he)
    · rw [count, same, count_concat_self]
      exact Nat.le_add_left 1 _
    · exact faithful.rest_sound perm he
  · intro b hb
    rw [List.getLast?_concat, Option.some.injEq] at hb
    exact ⟨new, hnew, same.trans hb, by rw [count]; decide⟩
  · intro hroom b hb
    obtain ⟨hfresh, hempty⟩ := faithful.empty_of_unknown hroom unknown least
    by_cases hne : b = address
    · subst hne
      refine ⟨new, hnew, same, ?_⟩
      rw [count, count_concat_self, List.count_eq_zero_of_not_mem hfresh]
      rfl
    · refine faithful.exact_of_ne perm perm' hroom hb hne fun _ hmem => ?_
      rw [hempty, UInt32.toNat_zero]
      exact (Nat.ne_of_gt (List.count_pos_iff.mpr hmem)).symm

theorem Faithful.step (faithful : Faithful errors top) (records : Records top address after)
    (sorted : after.Pairwise fun a b => b.before a = false) (hlength : errors.length + 1 < 2 ^ 32) :
    Faithful (errors ++ [address]) after := by
  cases records with
  | counts old new rest perm perm' known most same count =>
    exact faithful.counts perm perm' known most same count sorted hlength
  | replaces old new rest perm perm' unknown least same count =>
    exact faithful.replaces perm perm' unknown least same count sorted

end Step

/-- The errors of a run, each with the time at which it was recorded. -/
def run (sorting : Sorting) (records : List (UInt8 × UInt64)) : HandlerMetrics :=
  Runs.run (fun m (record : UInt8 × UInt64) => m.recordHandlerError sorting record.1 record.2) {}
    records

theorem faithful_start : Faithful [] ({} : HandlerMetrics).topErrors where
  length := rfl
  sorted := by decide
  distinct := by decide
  sound := by decide
  recent := fun _ h => absurd h (by simp)
  exact := fun _ address h => absurd h List.not_mem_nil

/-- Since the metrics were cleared the table has been faithful to the errors, in whatever order the
addresses failed, at whatever times, and however the entries that are alike were sorted. -/
theorem run_faithful (sorting : Sorting) (records : List (UInt8 × UInt64))
    (hlength : records.length < 2 ^ 32) :
    Faithful (records.map Prod.fst) (run sorting records).topErrors := by
  induction records using List.reverseRecOn with
  | nil => exact faithful_start
  | append_singleton records record ih =>
    rw [List.length_append, List.length_singleton] at hlength
    have faithful := ih (Nat.lt_of_succ_lt hlength)
    have hpos : 0 < (run sorting records).topErrors.length := by
      rw [faithful.length]
      decide
    rw [List.map_append, List.map_singleton, run, Runs.run_append]
    refine faithful.step (recordHandlerError_records _ sorting record.1 record.2 hpos
      faithful.sorted) (sorting.sorted _) ?_
    rwa [List.length_map]

/-- Four addresses fail; the last one takes the place of one that has failed once. -/
theorem run_faithful_four :
    ∃ sorting : Sorting,
      Faithful [0x10, 0x30, 0x10, 0x31, 0x71] (run sorting
        [(0x10, 1), (0x30, 2), (0x10, 3), (0x31, 4), (0x71, 5)]).topErrors := by
  have htotal (a b : ErrorAddressStats) : (!b.before a || !a.before b) = true := by
    simp only [ErrorAddressStats.before]
    grind
  have htrans (a b c : ErrorAddressStats) (hab : (!b.before a) = true)
      (hbc : (!c.before b) = true) : (!c.before a) = true := by
    simp only [ErrorAddressStats.before] at *
    grind
  refine ⟨{ sort := fun top => top.mergeSort fun a b => !b.before a, perm := ?_, sorted := ?_ }, ?_⟩
  · exact fun top => List.mergeSort_perm top _
  · intro top
    refine (List.pairwise_mergeSort htrans htotal top).imp fun h => ?_
    simpa using h
  · exact run_faithful _ [(0x10, 1), (0x30, 2), (0x10, 3), (0x31, 4), (0x71, 5)] (by decide)

end Ebus.HandlerMetrics
