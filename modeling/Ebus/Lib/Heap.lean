import Mathlib.Order.Defs.Unbundled
import Mathlib.Data.List.Perm.Basic
import Mathlib.Tactic.Common

/-!
# Binary heaps in arrays

The entry at position `j` stands below the one at `parent j`. In a heap no entry is
smaller than the one above it, for an order that is total and transitive but may have
ties. `pushHeap` moves a new last entry up, `popHeap` takes the first entry out, puts
the last one in its place and moves it down. Both are given a fuel that is always
sufficient, so that they can be evaluated.

Taking entries out of the middle moves up the entries behind them. Nothing changes in
front, so that only these have to be compared with what they come to stand below
(`isHeap_eraseIdx_iff`, `isHeap_filter_iff`).
-/

namespace Heap

/-- The position above; the first position is its own parent. -/
def parent (j : Nat) : Nat := (j - 1) / 2

variable {α : Type*} (le : α → α → Prop)

/-- From position `k` on no entry is smaller than the one above it. -/
def IsHeapFrom (k : Nat) (xs : List α) : Prop :=
  ∀ j, k ≤ j → ∀ p ∈ xs[parent j]?, ∀ c ∈ xs[j]?, 0 < j → le p c

def IsHeap (xs : List α) : Prop := IsHeapFrom le 0 xs

section Deciding

variable [DecidableRel le]

instance (k : Nat) (xs : List α) : Decidable (IsHeapFrom le k xs) :=
  decidable_of_iff
    (∀ j < xs.length, k ≤ j → ∀ p ∈ xs[parent j]?, ∀ c ∈ xs[j]?, 0 < j → le p c) <| by
      constructor
      · intro h j hk p hp c hc
        exact h j (List.getElem?_eq_some_iff.mp hc).1 hk p hp c hc
      · intro h j _ hk
        exact h j hk

instance (xs : List α) : Decidable (IsHeap le xs) := inferInstanceAs (Decidable (IsHeapFrom ..))

/-- Move the entry at `j` up until it is not smaller than the one above it. -/
def siftUp : Nat → List α → Nat → List α
  | 0, xs, _ => xs
  | fuel + 1, xs, j =>
      match xs[parent j]?, xs[j]? with
      | some p, some c =>
          if le p c then xs else siftUp fuel ((xs.set (parent j) c).set j p) (parent j)
      | _, _ => xs

/-- A new entry behind the others, moved to its place. -/
def pushHeap (xs : List α) (x : α) : List α := siftUp le xs.length (xs ++ [x]) xs.length

/-- The smaller one of the entries below `i`, with its position. -/
def lowerChild (xs : List α) (i : Nat) : Option (Nat × α) :=
  match xs[2 * i + 1]?, xs[2 * i + 2]? with
  | some l, some r => if le l r then some (2 * i + 1, l) else some (2 * i + 2, r)
  | some l, none => some (2 * i + 1, l)
  | none, _ => none

/-- Move the entry at `i` down until it is not greater than the ones below it. -/
def siftDown : Nat → List α → Nat → List α
  | 0, xs, _ => xs
  | fuel + 1, xs, i =>
      match xs[i]?, lowerChild le xs i with
      | some v, some (c, w) =>
          if le v w then xs else siftDown fuel ((xs.set i w).set c v) c
      | _, _ => xs

/-- The first entry and the heap of the others. -/
def popHeap : List α → Option (α × List α)
  | [] => none
  | top :: rest =>
      match rest.getLast? with
      | none => some (top, [])
      | some last => some (top, siftDown le rest.length (last :: rest.dropLast) 0)

end Deciding

theorem parent_lt {j : Nat} (h : 0 < j) : parent j < j := by
  unfold parent
  omega

theorem parent_eq_iff {j i : Nat} (h : 0 < j) :
    parent j = i ↔ j = 2 * i + 1 ∨ j = 2 * i + 2 := by
  unfold parent
  omega

theorem perm_swap {xs : List α} {i j : Nat} {a b : α} (hi : xs[i]? = some a)
    (hj : xs[j]? = some b) : ((xs.set i b).set j a).Perm xs := by
  obtain ⟨hilt, rfl⟩ := List.getElem?_eq_some_iff.mp hi
  obtain ⟨hjlt, rfl⟩ := List.getElem?_eq_some_iff.mp hj
  exact List.set_set_perm hilt hjlt

/-- What stands where after two different entries are swapped. -/
theorem getElem?_swap {xs : List α} {i j : Nat} {a b : α} (hi : xs[i]? = some a)
    (hj : xs[j]? = some b) (n : Nat) :
    ((xs.set i b).set j a)[n]? = if n = j then some a else if n = i then some b else xs[n]? := by
  have hilt := (List.getElem?_eq_some_iff.mp hi).1
  have hjlt := (List.getElem?_eq_some_iff.mp hj).1
  grind

/-- The part in front of `k` is not touched by a change behind it. -/
theorem isHeap_iff_from {k : Nat} {xs ys : List α} (hxs : IsHeap le xs)
    (hsame : ∀ j < k, ys[j]? = xs[j]?) : IsHeap le ys ↔ IsHeapFrom le k ys := by
  constructor
  · intro h j _
    exact h j (Nat.zero_le j)
  · intro h j _ p hp c hc hj
    by_cases hk : k ≤ j
    · exact h j hk p hp c hc hj
    · have hpj := parent_lt hj
      rw [hsame j (by omega)] at hc
      rw [hsame (parent j) (by omega)] at hp
      exact hxs j (Nat.zero_le j) p hp c hc hj

/-- Where the entry at position `i` stood before the one at `gap` was taken out. -/
def shifted (gap i : Nat) : Nat := if i < gap then i else i + 1

/-- An array stays a heap without the entry at `gap` when no entry behind it is smaller than
the one that it comes to stand below. -/
theorem isHeap_eraseIdx_iff {xs : List α} (hxs : IsHeap le xs) (gap : Nat) :
    IsHeap le (xs.eraseIdx gap) ↔
      ∀ j, gap ≤ j → ∀ p ∈ xs[shifted gap (parent j)]?, ∀ c ∈ xs[j + 1]?, 0 < j → le p c := by
  have hplace (i : Nat) : (xs.eraseIdx gap)[i]? = xs[shifted gap i]? := by
    rw [List.getElem?_eraseIdx, shifted]
    split <;> rfl
  have hsame : ∀ j < gap, (xs.eraseIdx gap)[j]? = xs[j]? := by
    intro j hj
    rw [hplace, shifted, if_pos hj]
  rw [isHeap_iff_from le hxs hsame]
  refine forall_congr' fun j => forall_congr' fun hj => ?_
  rw [hplace, hplace, shifted, shifted, if_neg (Nat.not_lt.mpr hj)]

/-- The place of the entry at position `i` when only the entries in `keep` stay. -/
def place (keep : α → Bool) (xs : List α) (i : Nat) : Nat := (xs.take i).countP keep

theorem getElem?_filter_iff {keep : α → Bool} {xs : List α} {r : Nat} {x : α} :
    (xs.filter keep)[r]? = some x ↔
      ∃ i, xs[i]? = some x ∧ keep x = true ∧ place keep xs i = r := by
  induction xs generalizing r with
  | nil => simp
  | cons first rest ih =>
      have hplace (i : Nat) : place keep (first :: rest) (i + 1) =
          place keep rest i + if keep first then 1 else 0 := List.countP_cons
      by_cases hkeep : keep first = true
      · rw [List.filter_cons_of_pos hkeep]
        cases r with
        | zero =>
            rw [List.getElem?_cons_zero]
            constructor
            · intro hx
              exact ⟨0, hx, Option.some.inj hx ▸ hkeep, rfl⟩
            · rintro ⟨i, hi, hx, hr⟩
              cases i with
              | zero => exact hi
              | succ i =>
                  rw [hplace, if_pos hkeep] at hr
                  omega
        | succ r =>
            rw [List.getElem?_cons_succ, ih]
            constructor
            · rintro ⟨i, hi, hx, hr⟩
              exact ⟨i + 1, hi, hx, by rw [hplace, if_pos hkeep, hr]⟩
            · rintro ⟨i, hi, hx, hr⟩
              cases i with
              | zero => cases hr
              | succ i =>
                  rw [hplace, if_pos hkeep] at hr
                  exact ⟨i, hi, hx, by omega⟩
      · rw [List.filter_cons_of_neg hkeep, ih]
        constructor
        · rintro ⟨i, hi, hx, hr⟩
          exact ⟨i + 1, hi, hx, by rw [hplace, if_neg hkeep, hr, Nat.add_zero]⟩
        · rintro ⟨i, hi, hx, hr⟩
          cases i with
          | zero =>
              obtain rfl : first = x := Option.some.inj hi
              exact absurd hx hkeep
          | succ i =>
              rw [hplace, if_neg hkeep] at hr
              exact ⟨i, hi, hx, hr⟩

theorem place_le (keep : α → Bool) (xs : List α) (i : Nat) : place keep xs i ≤ i :=
  Nat.le_trans List.countP_le_length (List.length_take_le i xs)

theorem place_mono (keep : α → Bool) (xs : List α) {i j : Nat} (h : i ≤ j) :
    place keep xs i ≤ place keep xs j := by
  have htake : xs.take i = (xs.take j).take i := by rw [List.take_take, Nat.min_eq_left h]
  unfold place
  rw [htake]
  exact (List.take_sublist i (xs.take j)).countP_le

/-- An entry that keeps its place has no entry in front of it that goes away. -/
theorem place_eq_of_le {keep : α → Bool} {xs : List α} {i j : Nat} (hi : i ≤ xs.length)
    (h : place keep xs i = i) (hj : j ≤ i) : place keep xs j = j := by
  have hall : ∀ a ∈ xs.take i, keep a = true := by
    refine List.countP_eq_length.mp ?_
    rw [List.length_take, Nat.min_eq_left hi]
    exact h
  unfold place
  rw [List.countP_eq_length.mpr, List.length_take, Nat.min_eq_left (by omega)]
  intro a ha
  have htake : xs.take j = (xs.take i).take j := by rw [List.take_take, Nat.min_eq_left hj]
  exact hall a (List.mem_of_mem_take (htake ▸ ha))

/-- An array stays a heap without the entries outside `keep` when no entry that moves up is
smaller than the one that it comes to stand below. -/
theorem isHeap_filter_iff {xs : List α} (hxs : IsHeap le xs) (keep : α → Bool) :
    IsHeap le (xs.filter keep) ↔
      ∀ b, place keep xs b < b → ∀ c ∈ xs[b]?, keep c = true →
        ∀ a, place keep xs a = parent (place keep xs b) → ∀ p ∈ xs[a]?, keep p = true →
          0 < place keep xs b → le p c := by
  constructor
  · intro h b _ c hc hkeepc a ha p hp hkeepp hpos
    exact h (place keep xs b) (Nat.zero_le _) p
      (getElem?_filter_iff.mpr ⟨a, hp, hkeepp, ha⟩) c
      (getElem?_filter_iff.mpr ⟨b, hc, hkeepc, rfl⟩) hpos
  · intro h j _ p hp c hc hpos
    obtain ⟨b, hb, hkeepc, rfl⟩ := getElem?_filter_iff.mp hc
    obtain ⟨a, ha, hkeepp, hplace⟩ := getElem?_filter_iff.mp hp
    by_cases hmoves : place keep xs b < b
    · exact h b hmoves c hb hkeepc a hplace p ha hkeepp hpos
    · -- nothing in front of it goes away, so that the entry above it stands there already
      have hstays : place keep xs b = b := Nat.le_antisymm (place_le ..) (Nat.not_lt.mp hmoves)
      have hbound := (List.getElem?_eq_some_iff.mp hb).1
      rw [hstays] at hplace hpos
      have hlt := parent_lt hpos
      have hbelow := place_eq_of_le (by omega) hstays (Nat.succ_le_of_lt hlt)
      have hsame : a = parent b := by
        obtain hless | heq | hmore := Nat.lt_trichotomy a (parent b)
        · have hle := place_le keep xs a
          omega
        · exact heq
        · have hle := place_mono keep xs (Nat.succ_le_of_lt hmore)
          omega
      exact hxs b (Nat.zero_le b) p (hsame ▸ ha) c hb hpos

section Sifting

variable [Std.Total le]

theorem le_self (a : α) : le a a := (Std.Total.total a a : le a a ∨ le a a).elim id id

theorem le_of_not_le {a b : α} (h : ¬ le a b) : le b a :=
  (Std.Total.total a b : le a b ∨ le b a).resolve_left h

variable [IsTrans α le]

theorem IsHeap.root_le {xs : List α} (h : IsHeap le xs) {top : α} (htop : xs[0]? = some top)
    {x : α} (hx : x ∈ xs) : le top x := by
  obtain ⟨j, hj⟩ := List.mem_iff_getElem?.mp hx
  -- up the path from the entry to the root
  induction j using Nat.strongRecOn generalizing x with
  | ind j ih =>
      by_cases hzero : j = 0
      · subst hzero
        obtain rfl : top = x := Option.some.inj (htop.symm.trans hj)
        exact le_self le top
      · have hpos : 0 < j := Nat.pos_of_ne_zero hzero
        have hlt := parent_lt hpos
        have hjlt := (List.getElem?_eq_some_iff.mp hj).1
        have habove : xs[parent j]? = some (xs.get ⟨parent j, by omega⟩) :=
          List.getElem?_eq_getElem _
        exact IsTrans.trans _ _ _ (ih (parent j) hlt (List.get_mem ..) habove)
          (h j (Nat.zero_le j) _ habove x hj hpos)

/-- Only the entry at `k` may be smaller than the one above it, and what stands above it
is not greater than what stands below it. -/
structure UpOrder (xs : List α) (k : Nat) : Prop where
  others : ∀ j, j ≠ k → ∀ p ∈ xs[parent j]?, ∀ c ∈ xs[j]?, 0 < j → le p c
  across : ∀ j, parent j = k → ∀ p ∈ xs[parent k]?, ∀ c ∈ xs[j]?, 0 < j → 0 < k → le p c

omit [Std.Total le] [IsTrans α le] in
theorem UpOrder.isHeap {xs : List α} {k : Nat} (h : UpOrder le xs k)
    (hk : ∀ p ∈ xs[parent k]?, ∀ c ∈ xs[k]?, 0 < k → le p c) : IsHeap le xs := by
  intro j _ p hp c hc hj
  by_cases heq : j = k
  · subst heq
    exact hk p hp c hc hj
  · exact h.others j heq p hp c hc hj

omit [Std.Total le] in
/-- Swapping a smaller entry with the one above it. -/
theorem UpOrder.swap {xs : List α} {k : Nat} (h : UpOrder le xs k) {p c : α}
    (hp : xs[parent k]? = some p) (hc : xs[k]? = some c) (hpos : 0 < k) (hle : le c p) :
    UpOrder le ((xs.set (parent k) c).set k p) (parent k) := by
  have hlt := parent_lt hpos
  constructor
  · intro j hj q hq d hd hjpos
    have hjlt := parent_lt hjpos
    rw [getElem?_swap hp hc] at hq hd
    by_cases hjk : j = k
    · subst hjk
      rw [if_neg (by omega), if_pos rfl] at hq
      rw [if_pos rfl] at hd
      obtain rfl := Option.some.inj hq
      obtain rfl := Option.some.inj hd
      exact hle
    · rw [if_neg hjk, if_neg hj] at hd
      by_cases hbelow : parent j = k
      · rw [if_pos hbelow] at hq
        obtain rfl := Option.some.inj hq
        exact h.across j hbelow p hp d hd hjpos hpos
      · rw [if_neg hbelow] at hq
        by_cases hbeside : parent j = parent k
        · rw [if_pos hbeside] at hq
          obtain rfl := Option.some.inj hq
          exact IsTrans.trans _ _ _ hle (h.others j hjk p (hbeside ▸ hp) d hd hjpos)
        · rw [if_neg hbeside] at hq
          exact h.others j hjk q hq d hd hjpos
  · intro j hj q hq d hd hjpos hkpos
    have hup := parent_lt hkpos
    rw [getElem?_swap hp hc, if_neg (by omega), if_neg (by omega)] at hq
    rw [getElem?_swap hp hc] at hd
    have habove : le q p := h.others (parent k) (by omega) q hq p hp hkpos
    by_cases hjk : j = k
    · rw [if_pos hjk] at hd
      obtain rfl := Option.some.inj hd
      exact habove
    · have hjlt := parent_lt hjpos
      rw [if_neg hjk, if_neg (by omega)] at hd
      exact IsTrans.trans _ _ _ habove (h.others j hjk p (hj ▸ hp) d hd hjpos)

variable [DecidableRel le]

theorem siftUp_isHeap {fuel k : Nat} {xs : List α} (hfuel : k ≤ fuel) (h : UpOrder le xs k) :
    IsHeap le (siftUp le fuel xs k) := by
  induction fuel generalizing xs k with
  | zero =>
      refine h.isHeap le fun p _ c _ hk => ?_
      omega
  | succ fuel ih =>
      rw [siftUp]
      split
      · rename_i p c hp hc
        by_cases hle : le p c
        · rw [if_pos hle]
          refine h.isHeap le fun p' hp' c' hc' _ => ?_
          obtain rfl := Option.some.inj (hp.symm.trans hp')
          obtain rfl := Option.some.inj (hc.symm.trans hc')
          exact hle
        · rw [if_neg hle]
          have hpos : 0 < k := by
            refine Nat.pos_of_ne_zero fun hzero => hle ?_
            subst hzero
            obtain rfl : p = c := Option.some.inj (hp.symm.trans hc)
            exact le_self le p
          have hlt := parent_lt hpos
          exact ih (by omega) (h.swap le hp hc hpos (le_of_not_le le hle))
      · rename_i hnone
        refine h.isHeap le fun p hp c hc _ => ?_
        exact absurd hc (hnone p c hp)

omit [Std.Total le] [IsTrans α le] in
theorem siftUp_perm (fuel : Nat) (xs : List α) (k : Nat) : (siftUp le fuel xs k).Perm xs := by
  induction fuel generalizing xs k with
  | zero => exact .refl _
  | succ fuel ih =>
      rw [siftUp]
      split
      · rename_i p c hp hc
        split
        · exact .refl _
        · exact (ih _ _).trans (perm_swap hp hc)
      · exact .refl _

omit [Std.Total le] [IsTrans α le] in
theorem pushHeap_perm (xs : List α) (x : α) : (pushHeap le xs x).Perm (x :: xs) :=
  (siftUp_perm le _ _ _).trans (List.perm_append_singleton x xs)

theorem pushHeap_isHeap {xs : List α} (h : IsHeap le xs) (x : α) :
    IsHeap le (pushHeap le xs x) := by
  refine siftUp_isHeap le (Nat.le_refl _) ⟨?_, ?_⟩
  · intro j hj p hp c hc hpos
    have hlt := parent_lt hpos
    have hjlt : j < xs.length := by
      have hbound := (List.getElem?_eq_some_iff.mp hc).1
      rw [List.length_append, List.length_singleton] at hbound
      omega
    rw [List.getElem?_append_left hjlt] at hc
    rw [List.getElem?_append_left (by omega)] at hp
    exact h j (Nat.zero_le j) p hp c hc hpos
  · intro j hj p _ c hc hpos _
    have hlt := parent_lt hpos
    have hbound := (List.getElem?_eq_some_iff.mp hc).1
    rw [List.length_append, List.length_singleton] at hbound
    omega

/-- Only the entry at `k` may be greater than the ones below it, and what stands above it
is not greater than what stands below it. -/
structure DownOrder (xs : List α) (k : Nat) : Prop where
  others : ∀ j, parent j ≠ k → ∀ p ∈ xs[parent j]?, ∀ c ∈ xs[j]?, 0 < j → le p c
  across : ∀ j, parent j = k → ∀ p ∈ xs[parent k]?, ∀ c ∈ xs[j]?, 0 < j → 0 < k → le p c

omit [Std.Total le] [IsTrans α le] [DecidableRel le] in
theorem DownOrder.isHeap {xs : List α} {k : Nat} (h : DownOrder le xs k)
    (hk : ∀ v ∈ xs[k]?, ∀ j, parent j = k → ∀ c ∈ xs[j]?, 0 < j → le v c) : IsHeap le xs := by
  intro j _ p hp c hc hj
  by_cases heq : parent j = k
  · exact hk p (heq ▸ hp) j heq c hc hj
  · exact h.others j heq p hp c hc hj

omit [IsTrans α le] in
/-- The smaller child stands below and is not greater than the other one. -/
theorem lowerChild_some {xs : List α} {i c : Nat} {w : α}
    (h : lowerChild le xs i = some (c, w)) :
    xs[c]? = some w ∧ parent c = i ∧ 0 < c ∧
    ∀ j, parent j = i → ∀ d ∈ xs[j]?, 0 < j → le w d := by
  have hchild (b : Nat) (hb : b = 2 * i + 1 ∨ b = 2 * i + 2) : parent b = i ∧ 0 < b :=
    have hpos : 0 < b := by omega
    ⟨(parent_eq_iff hpos).mpr hb, hpos⟩
  unfold lowerChild at h
  cases hl : xs[2 * i + 1]? with
  | none => simp [hl] at h
  | some l =>
      cases hr : xs[2 * i + 2]? with
      | none =>
          simp only [hl, hr, Option.some.injEq, Prod.mk.injEq] at h
          obtain ⟨rfl, rfl⟩ := h
          refine ⟨hl, (hchild _ (.inl rfl)).1, by omega, ?_⟩
          intro j hj d hd hpos
          obtain rfl | rfl := (parent_eq_iff hpos).mp hj
          · obtain rfl := Option.some.inj (hl.symm.trans hd)
            exact le_self le l
          · simp [hr] at hd
      | some r =>
          simp only [hl, hr] at h
          by_cases hle : le l r
          · simp only [hle, if_true, Option.some.injEq, Prod.mk.injEq] at h
            obtain ⟨rfl, rfl⟩ := h
            refine ⟨hl, (hchild _ (.inl rfl)).1, by omega, ?_⟩
            intro j hj d hd hpos
            obtain rfl | rfl := (parent_eq_iff hpos).mp hj
            · obtain rfl := Option.some.inj (hl.symm.trans hd)
              exact le_self le l
            · obtain rfl := Option.some.inj (hr.symm.trans hd)
              exact hle
          · simp only [hle, if_false, Option.some.injEq, Prod.mk.injEq] at h
            obtain ⟨rfl, rfl⟩ := h
            refine ⟨hr, (hchild _ (.inr rfl)).1, by omega, ?_⟩
            intro j hj d hd hpos
            obtain rfl | rfl := (parent_eq_iff hpos).mp hj
            · obtain rfl := Option.some.inj (hl.symm.trans hd)
              exact le_of_not_le le hle
            · obtain rfl := Option.some.inj (hr.symm.trans hd)
              exact le_self le r

omit [Std.Total le] [IsTrans α le] in
theorem lowerChild_none {xs : List α} {i : Nat} (h : lowerChild le xs i = none) {j : Nat}
    (hj : parent j = i) (hpos : 0 < j) : xs[j]? = none := by
  have hl : xs[2 * i + 1]? = none := by
    unfold lowerChild at h
    cases hl : xs[2 * i + 1]? with
    | none => rfl
    | some l =>
        simp only [hl] at h
        cases hr : xs[2 * i + 2]? with
        | none => simp [hr] at h
        | some r =>
            simp only [hr] at h
            split at h <;> simp at h
  have hbound := List.getElem?_eq_none_iff.mp hl
  refine List.getElem?_eq_none_iff.mpr ?_
  obtain rfl | rfl := (parent_eq_iff hpos).mp hj <;> omega

omit [Std.Total le] [IsTrans α le] [DecidableRel le] in
/-- Swapping a greater entry with the smaller one of those below it. -/
theorem DownOrder.swap {xs : List α} {k c : Nat} (h : DownOrder le xs k) {v w : α}
    (hv : xs[k]? = some v) (hw : xs[c]? = some w) (hc : parent c = k) (hpos : 0 < c)
    (hleast : ∀ j, parent j = k → ∀ d ∈ xs[j]?, 0 < j → le w d) (hle : le w v) :
    DownOrder le ((xs.set k w).set c v) c := by
  have hlt := parent_lt hpos
  constructor
  · intro j hj p hp d hd hjpos
    have hjlt := parent_lt hjpos
    rw [getElem?_swap hv hw] at hp hd
    rw [if_neg hj] at hp
    by_cases hbelow : parent j = k
    · -- below the entry that has moved up
      rw [if_pos hbelow] at hp
      obtain rfl := Option.some.inj hp
      by_cases hjc : j = c
      · rw [if_pos hjc] at hd
        obtain rfl := Option.some.inj hd
        exact hle
      · rw [if_neg hjc, if_neg (by omega)] at hd
        exact hleast j hbelow d hd hjpos
    · rw [if_neg hbelow] at hp
      have hjc : j ≠ c := fun heq => hbelow (heq ▸ hc)
      rw [if_neg hjc] at hd
      by_cases hjk : j = k
      · -- above the entry that has moved up
        rw [if_pos hjk] at hd
        obtain rfl := Option.some.inj hd
        exact h.across c hc p (hjk ▸ hp) w hw hpos (hjk ▸ hjpos)
      · rw [if_neg hjk] at hd
        exact h.others j hbelow p hp d hd hjpos
  · intro j hj p hp d hd hjpos _
    have hjlt := parent_lt hjpos
    rw [getElem?_swap hv hw, if_neg (by omega), if_pos hc] at hp
    rw [getElem?_swap hv hw, if_neg (by omega), if_neg (by omega)] at hd
    obtain rfl := Option.some.inj hp
    exact h.others j (by omega) w (hj ▸ hw) d hd hjpos

theorem siftDown_isHeap {fuel k : Nat} {xs : List α} (hfuel : xs.length ≤ k + fuel)
    (h : DownOrder le xs k) : IsHeap le (siftDown le fuel xs k) := by
  induction fuel generalizing xs k with
  | zero =>
      refine h.isHeap le fun v hv j _ c _ _ => ?_
      have hbound := (List.getElem?_eq_some_iff.mp hv).1
      omega
  | succ fuel ih =>
      rw [siftDown]
      split
      · rename_i v c w hv hchild
        obtain ⟨hw, hparent, hpos, hleast⟩ := lowerChild_some le hchild
        by_cases hle : le v w
        · rw [if_pos hle]
          refine h.isHeap le fun v' hv' j hj d hd hjpos => ?_
          obtain rfl := Option.some.inj (hv.symm.trans hv')
          exact IsTrans.trans _ _ _ hle (hleast j hj d hd hjpos)
        · rw [if_neg hle]
          have hlt := parent_lt hpos
          refine ih ?_ (h.swap le hv hw hparent hpos hleast (le_of_not_le le hle))
          rw [List.length_set, List.length_set]
          omega
      · rename_i hnone
        refine h.isHeap le fun v hv j hj d hd hjpos => ?_
        cases hchild : lowerChild le xs k with
        | none =>
            rw [lowerChild_none le hchild hj hjpos] at hd
            simp at hd
        | some found => exact absurd hchild (hnone v found.1 found.2 hv)

omit [IsTrans α le] in
theorem siftDown_perm (fuel : Nat) (xs : List α) (k : Nat) :
    (siftDown le fuel xs k).Perm xs := by
  induction fuel generalizing xs k with
  | zero => exact .refl _
  | succ fuel ih =>
      rw [siftDown]
      split
      · rename_i v c w hv hchild
        split
        · exact .refl _
        · exact (ih _ _).trans (perm_swap hv (lowerChild_some le hchild).1)
      · exact .refl _

omit [Std.Total le] [IsTrans α le] in
theorem eq_nil_of_popHeap {xs : List α} (h : popHeap le xs = none) : xs = [] := by
  cases xs with
  | nil => rfl
  | cons top rest =>
      rw [popHeap] at h
      split at h <;> cases h

omit [IsTrans α le] in
/-- The entry that is taken out stood first, and nothing is lost. -/
theorem popHeap_perm {xs rest : List α} {top : α} (h : popHeap le xs = some (top, rest)) :
    xs[0]? = some top ∧ xs.Perm (top :: rest) := by
  cases xs with
  | nil => simp [popHeap] at h
  | cons first others =>
      rw [popHeap] at h
      cases hlast : others.getLast? with
      | none =>
          simp only [hlast, Option.some.injEq, Prod.mk.injEq] at h
          obtain ⟨rfl, rfl⟩ := h
          rw [List.getLast?_eq_none_iff.mp hlast]
          exact ⟨rfl, .refl _⟩
      | some last =>
          simp only [hlast, Option.some.injEq, Prod.mk.injEq] at h
          obtain ⟨rfl, rfl⟩ := h
          refine ⟨rfl, List.Perm.cons _ ?_⟩
          obtain ⟨front, rfl⟩ := List.getLast?_eq_some_iff.mp hlast
          rw [List.dropLast_concat]
          exact (List.perm_append_singleton last front).trans (siftDown_perm le _ _ _).symm

theorem popHeap_isHeap {xs rest : List α} {top : α} (hxs : IsHeap le xs)
    (h : popHeap le xs = some (top, rest)) : IsHeap le rest := by
  cases xs with
  | nil => simp [popHeap] at h
  | cons first others =>
      rw [popHeap] at h
      cases hlast : others.getLast? with
      | none =>
          simp only [hlast, Option.some.injEq, Prod.mk.injEq] at h
          obtain ⟨rfl, rfl⟩ := h
          intro j _ p hp
          simp at hp
      | some last =>
          simp only [hlast, Option.some.injEq, Prod.mk.injEq] at h
          obtain ⟨rfl, rfl⟩ := h
          obtain ⟨front, rfl⟩ := List.getLast?_eq_some_iff.mp hlast
          rw [List.dropLast_concat]
          refine siftDown_isHeap le (by simp) ⟨?_, ?_⟩
          · -- behind the first position nothing has changed
            intro j hj p hp c hc hpos
            have hsame (n : Nat) (hn : 0 < n) (d : α) (hd : d ∈ (last :: front)[n]?) :
                (first :: (front ++ [last]))[n]? = some d := by
              cases n with
              | zero => omega
              | succ n =>
                  rw [List.getElem?_cons_succ] at hd ⊢
                  rw [List.getElem?_append_left (List.getElem?_eq_some_iff.mp hd).1]
                  exact hd
            exact hxs j (Nat.zero_le j) p (hsame _ (Nat.pos_of_ne_zero hj) p hp) c
              (hsame j hpos c hc) hpos
          · intro j _ p _ c _ _ hzero
            omega

end Sifting

end Heap
