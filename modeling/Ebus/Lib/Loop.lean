import Mathlib.Data.Option.Basic
import Mathlib.Tactic.Common

/-!
# Loops

A body either goes on with a new state or returns a value; it may fail to do either, when a loop in
it does. `Loop.run` is the loop with a number of passes that it must not need. A measure that each
pass makes smaller bounds that number, and what every pass keeps holds of what is returned.
-/

namespace Loop

variable {σ ρ : Type*} (body : σ → Option (σ ⊕ ρ))

def run : Nat → σ → Option ρ
  | 0, _ => none
  | fuel + 1, s => (body s).bind fun next => next.elim (run fuel) some

variable {body}

theorem run_succ (fuel : Nat) (s : σ) :
    run body (fuel + 1) s = (body s).bind fun next => next.elim (run body fuel) some := rfl

theorem run_of_returns {s : σ} {r : ρ} (h : body s = some (.inr r)) (fuel : Nat) :
    run body (fuel + 1) s = some r := by
  rw [run_succ, h]
  rfl

theorem run_of_continues {s s' : σ} (h : body s = some (.inl s')) (fuel : Nat) :
    run body (fuel + 1) s = run body fuel s' := by
  rw [run_succ, h]
  rfl

/-- More passes, of a body that returns at least as often, give the same result. -/
theorem run_mono {body' : σ → Option (σ ⊕ ρ)}
    (hbody : ∀ s next, body s = some next → body' s = some next) {fuel fuel' : Nat}
    (hle : fuel ≤ fuel') {s : σ} {r : ρ} (h : run body fuel s = some r) :
    run body' fuel' s = some r := by
  induction fuel generalizing fuel' s with
  | zero => cases h
  | succ fuel ih =>
      obtain ⟨fuel', rfl⟩ := Nat.exists_eq_add_of_le' (Nat.le_of_add_left_le hle)
      cases hnext : body s with
      | none =>
          rw [run_succ, hnext] at h
          cases h
      | some next =>
          cases next with
          | inl s' =>
              rw [run_of_continues hnext] at h
              rw [run_of_continues (hbody s _ hnext)]
              exact ih (Nat.le_of_succ_le_succ hle) h
          | inr r' =>
              rw [run_of_returns hnext] at h
              rw [run_of_returns (hbody s _ hnext), h]

/-- The measure bounds the number of passes. -/
theorem run_of_measure (measure : σ → Nat) (hbody : ∀ s, (body s).isSome)
    (hdecr : ∀ s s', body s = some (.inl s') → measure s' < measure s) {fuel : Nat} {s : σ}
    (hfuel : measure s < fuel) : ∃ r, run body fuel s = some r := by
  induction fuel generalizing s with
  | zero => exact absurd hfuel (Nat.not_lt_zero _)
  | succ fuel ih =>
      obtain ⟨next, hnext⟩ := Option.isSome_iff_exists.mp (hbody s)
      cases next with
      | inl s' =>
          have hlt := hdecr s s' hnext
          obtain ⟨r, hr⟩ := ih (Nat.lt_of_lt_of_le hlt (Nat.le_of_lt_succ hfuel))
          exact ⟨r, (run_of_continues hnext fuel).trans hr⟩
      | inr r => exact ⟨r, run_of_returns hnext fuel⟩

/-- What each pass keeps, and what it then says of the value that is returned. -/
theorem run_induct {I : σ → Prop} {Q : ρ → Prop}
    (hnext : ∀ s s', I s → body s = some (.inl s') → I s')
    (hreturn : ∀ s r, I s → body s = some (.inr r) → Q r) {fuel : Nat} {s : σ} {r : ρ}
    (hstart : I s) (h : run body fuel s = some r) : Q r := by
  induction fuel generalizing s with
  | zero => cases h
  | succ fuel ih =>
      cases hbody : body s with
      | none =>
          rw [run_succ, hbody] at h
          cases h
      | some next =>
          cases next with
          | inl s' =>
              rw [run_of_continues hbody] at h
              exact ih (hnext s s' hstart hbody) h
          | inr r' =>
              rw [run_of_returns hbody] at h
              cases h
              exact hreturn s r hstart hbody

end Loop
