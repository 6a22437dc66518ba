import Mathlib.Tactic.Common
import Mathlib.Data.List.Basic

/-!
# Runs of a deterministic machine and properties of its log

A machine is a step function on states and actions. `Runs.Meets` says that every
action of a run satisfies a side condition at the state in which it is taken;
`Runs.invariant` is the induction over such runs.

A machine that records what it does in a log has its properties stated with
`Log.AtEach`: a predicate of every entry and of the entries before it. Logs grow
at the end, so the rule used in proofs is `Log.atEach_append`.
-/

namespace Runs

variable {σ α : Type*} (step : σ → α → σ)

def run (s : σ) (actions : List α) : σ := actions.foldl step s

@[simp] theorem run_nil (s : σ) : run step s [] = s := rfl

@[simp] theorem run_cons (s : σ) (a : α) (rest : List α) :
    run step s (a :: rest) = run step (step s a) rest := rfl

theorem run_append (s : σ) (as bs : List α) :
    run step s (as ++ bs) = run step (run step s as) bs := List.foldl_append ..

/-- Each action is taken in a state that satisfies the side condition for it. -/
def Meets (ok : σ → α → Prop) : σ → List α → Prop
  | _, [] => True
  | s, a :: rest => ok s a ∧ Meets ok (step s a) rest

@[simp] theorem meets_nil (ok : σ → α → Prop) (s : σ) : Meets step ok s [] := trivial

@[simp] theorem meets_cons {ok : σ → α → Prop} {s : σ} {a : α} {rest : List α} :
    Meets step ok s (a :: rest) ↔ ok s a ∧ Meets step ok (step s a) rest := Iff.rfl

instance decidableMeets (ok : σ → α → Prop) [∀ s a, Decidable (ok s a)] :
    (s : σ) → (actions : List α) → Decidable (Meets step ok s actions)
  | _, [] => .isTrue trivial
  | s, a :: rest =>
      have := decidableMeets ok (step s a) rest
      inferInstanceAs (Decidable (ok s a ∧ Meets step ok (step s a) rest))

variable {step}

theorem meets_append {ok : σ → α → Prop} {s : σ} {first rest : List α}
    (hfirst : Meets step ok s first) (hrest : Meets step ok (run step s first) rest) :
    Meets step ok s (first ++ rest) := by
  induction first generalizing s with
  | nil => exact hrest
  | cons a first ih => exact ⟨hfirst.1, ih hfirst.2 hrest⟩

/-- What one admissible step preserves holds at the end of every admissible run. -/
theorem invariant {ok : σ → α → Prop} {I : σ → Prop}
    (preserved : ∀ s a, I s → ok s a → I (step s a)) {s : σ} {actions : List α}
    (start : I s) (meets : Meets step ok s actions) : I (run step s actions) := by
  induction actions generalizing s with
  | nil => exact start
  | cons a rest ih => exact ih (preserved s a start meets.1) meets.2

/-- The same rule for a machine whose every action is admissible. -/
theorem invariant_always {I : σ → Prop} (preserved : ∀ s a, I s → I (step s a)) {s : σ}
    (start : I s) (actions : List α) : I (run step s actions) := by
  induction actions generalizing s with
  | nil => exact start
  | cons a rest ih => exact ih (preserved s a start)

/-- The same rule for a side condition of the actions alone. -/
theorem invariant_forall {P : α → Prop} {I : σ → Prop}
    (preserved : ∀ s a, I s → P a → I (step s a)) {s : σ} {actions : List α}
    (start : I s) (admissible : ∀ a ∈ actions, P a) : I (run step s actions) := by
  induction actions generalizing s with
  | nil => exact start
  | cons a rest ih =>
    obtain ⟨first, others⟩ := List.forall_mem_cons.mp admissible
    exact ih (preserved s a start first) others

/-- A measure that no admissible action raises and that the counted ones lower down to 0. -/
theorem countdown {P : α → Prop} {I : σ → Prop} {p : α → Bool} (m : σ → Nat)
    (preserved : ∀ s a, I s → P a → I (step s a))
    (lowered : ∀ s a, I s → P a → m (step s a) ≤ m s - (if p a then 1 else 0)) {s : σ}
    {actions : List α} (start : I s) (admissible : ∀ a ∈ actions, P a) :
    m (run step s actions) ≤ m s - actions.countP p := by
  induction actions generalizing s with
  | nil => exact Nat.le_refl _
  | cons a rest ih =>
    obtain ⟨first, others⟩ := List.forall_mem_cons.mp admissible
    have hfirst := lowered s a start first
    have hrest := ih (preserved s a start first) others
    rw [List.countP_cons, run_cons]
    omega

/-- What an invariant says of each step of an admissible run. -/
theorem meets_of_invariant {I : σ → Prop} {ok ok' : σ → α → Prop}
    (preserved : ∀ s a, I s → ok' s a → I (step s a)) (holds : ∀ s a, I s → ok' s a → ok s a)
    {s : σ} {actions : List α} (start : I s) (meets : Meets step ok' s actions) :
    Meets step ok s actions := by
  induction actions generalizing s with
  | nil => exact trivial
  | cons a rest ih =>
      exact ⟨holds s a start meets.1, ih (preserved s a start meets.1) meets.2⟩

/-- Side conditions that say the same where an invariant holds that they keep. -/
theorem meets_congr {I : σ → Prop} {ok ok' : σ → α → Prop}
    (preserved : ∀ s a, I s → ok' s a → I (step s a)) (same : ∀ s a, I s → (ok s a ↔ ok' s a))
    {s : σ} (start : I s) (actions : List α) :
    Meets step ok s actions ↔ Meets step ok' s actions := by
  induction actions generalizing s with
  | nil => exact Iff.rfl
  | cons a rest ih =>
      rw [meets_cons, meets_cons, same s a start]
      exact and_congr_right fun hok => ih (preserved s a start hok)

/-- Where every other step breaks the invariant, the admissible runs are exactly those that
keep it all the way. -/
theorem invariant_iff_meets {ok : σ → α → Prop} {I : σ → Prop}
    (preserved : ∀ s a, I s → ok s a → I (step s a))
    (broken : ∀ s a, I s → ¬ ok s a → ¬ I (step s a)) {s : σ} (start : I s)
    (actions : List α) :
    (∀ n, I (run step s (actions.take n))) ↔ Meets step ok s actions := by
  induction actions generalizing s with
  | nil => simpa using start
  | cons a rest ih =>
      rw [meets_cons]
      constructor
      · intro hall
        have hok : ok s a := by
          by_contra hnot
          exact broken s a start hnot (by simpa using hall 1)
        refine ⟨hok, (ih (preserved s a start hok)).mp fun n => ?_⟩
        simpa using hall (n + 1)
      · rintro ⟨hok, hrest⟩ n
        cases n with
        | zero => exact start
        | succ n => exact (ih (preserved s a start hok)).mpr hrest n

end Runs

namespace Log

variable {ε : Type*}

/-- Every entry of the log satisfies `P` together with the entries before it. -/
def AtEach (P : List ε → ε → Prop) (log : List ε) : Prop :=
  ∀ before e after, log = before ++ e :: after → P before e

@[simp] theorem atEach_nil (P : List ε → ε → Prop) : AtEach P [] := by
  intro before e after h
  simp at h

@[simp] theorem atEach_cons {P : List ε → ε → Prop} {e : ε} {rest : List ε} :
    AtEach P (e :: rest) ↔ P [] e ∧ AtEach (fun before => P (e :: before)) rest := by
  constructor
  · intro h
    refine ⟨h [] e rest rfl, ?_⟩
    rintro before e' after rfl
    exact h (e :: before) e' after rfl
  · rintro ⟨hfirst, hrest⟩ before e' after heq
    cases before with
    | nil =>
        obtain ⟨rfl, -⟩ := List.cons.inj heq
        exact hfirst
    | cons b before =>
        obtain ⟨rfl, rfl⟩ := List.cons.inj heq
        exact hrest before e' after rfl

/-- A log that grows at its end: the new entries see all the old ones. -/
@[simp] theorem atEach_append {P : List ε → ε → Prop} {log new : List ε} :
    AtEach P (log ++ new) ↔ AtEach P log ∧ AtEach (fun before => P (log ++ before)) new := by
  induction log generalizing P with
  | nil => simp
  | cons e log ih => simp [ih, and_assoc]

/-- Every entry satisfies `P`, whatever came before it. -/
def Each (P : ε → Prop) (log : List ε) : Prop := AtEach (fun _ e => P e) log

@[simp] theorem each_nil (P : ε → Prop) : Each P [] := atEach_nil _

@[simp] theorem each_cons {P : ε → Prop} {e : ε} {rest : List ε} :
    Each P (e :: rest) ↔ P e ∧ Each P rest := atEach_cons

@[simp] theorem each_append {P : ε → Prop} {log new : List ε} :
    Each P (log ++ new) ↔ Each P log ∧ Each P new := atEach_append

theorem Each.of_mem {P : ε → Prop} {log : List ε} {e : ε} (h : Each P log) (he : e ∈ log) :
    P e := by
  obtain ⟨before, after, rfl⟩ := List.append_of_mem he
  exact h before e after rfl

end Log
