import Ebus.Core.BusMonitor
import Ebus.Lib.Run

/-!
# The books of the arbitration

Every arbitration that has begun is accounted for: it was won, was lost, failed, was broken off
from outside or is still under way. The rates are related to the bytes on which an arbitration had
to decide.
-/

namespace Ebus

namespace RequestMetrics

/-- Those that have come to an end of their own. -/
def ended (m : RequestMetrics) : UInt32 := m.wonTotal + m.lostTotal + m.arbitrationErrors

/-- What one byte does to the machine and what it adds to the counters. -/
inductive Decides (m : RequestMetrics) (r : Request) (byte : UInt8) : Prop where
  | observes (before : r.state = .observe) (after : (r.run byte).state = .observe)
      (same : m.run r byte = m)
  | opens (before : r.state = .retry) (hbyte : byte = Symbols.syn)
      (after : (r.run byte).state ≠ .observe) (same : m.run r byte = m)
  | goesOn (before : r.state = .first) (after : (r.run byte).state ≠ .observe)
      (ended : (m.run r byte).ended = m.ended)
      (attempts : (m.run r byte).attempts = m.attempts + 1)
  | ends (before : r.state ≠ .observe) (undecided : r.state = .retry → byte ≠ Symbols.syn)
      (after : (r.run byte).state = .observe) (ended : (m.run r byte).ended = m.ended + 1)
      (attempts : (m.run r byte).attempts = m.attempts + 1)

section Counters

variable (m : RequestMetrics)

theorem ended_won : { m with wonTotal := m.wonTotal + 1 }.ended = m.ended + 1 := by
  simp only [ended]
  grind

theorem ended_lost : { m with lostTotal := m.lostTotal + 1 }.ended = m.ended + 1 := by
  simp only [ended]
  grind

theorem ended_error :
    { m with arbitrationErrors := m.arbitrationErrors + 1 }.ended = m.ended + 1 := by
  simp only [ended]
  grind

theorem attempts_won : { m with wonTotal := m.wonTotal + 1 }.attempts = m.attempts + 1 := by
  simp only [attempts]
  grind

theorem attempts_lost : { m with lostTotal := m.lostTotal + 1 }.attempts = m.attempts + 1 := by
  simp only [attempts]
  grind

theorem attempts_collision :
    { m with collisions := m.collisions + 1 }.attempts = m.attempts + 1 := by
  simp only [attempts]
  grind

theorem attempts_error :
    { m with arbitrationErrors := m.arbitrationErrors + 1 }.attempts = m.attempts + 1 := by
  simp only [attempts]
  grind

theorem attempts_firstSyn : { m with firstSyn := m.firstSyn + 1 }.attempts = m.attempts + 1 := by
  simp only [attempts]
  grind

end Counters

theorem decides_first (m : RequestMetrics) {r : Request} (hr : r.state = .first) (byte : UInt8) :
    Decides m r byte := by
  have hne : r.state ≠ .observe := by rw [hr]; decide
  have hretry : r.state = .retry → byte ≠ Symbols.syn := by rw [hr]; intro h; cases h
  have hrun : r.run byte = r.first byte := by rw [Request.run, hr]
  have hcount : m.run r byte = m.first r byte := by rw [run, hr]
  by_cases hsyn : byte = Symbols.syn
  · refine .goesOn hr ?_ ?_ ?_
    · rw [hrun, Request.first, if_pos hsyn]
      simp [Request.transitionTo, hr]
    · rw [hcount, first, if_pos hsyn]
      rfl
    · rw [hcount, first, if_pos hsyn, attempts_firstSyn]
  by_cases hwon : byte = r.requestAddress
  · refine .ends hne hretry ?_ ?_ ?_
    · rw [hrun, Request.first, if_neg hsyn, if_pos hwon]
      exact Request.transitionTo_observe_state _
    · rw [hcount, first, if_neg hsyn, if_pos hwon, ended_won]
    · rw [hcount, first, if_neg hsyn, if_pos hwon, attempts_won]
  by_cases hmaster : isMaster byte = true
  · by_cases hclass : byte &&& 0x0f = r.requestAddress &&& 0x0f
    · refine .goesOn hr ?_ ?_ ?_
      · rw [hrun, Request.first, if_neg hsyn, if_neg hwon, if_pos hmaster, if_pos hclass]
        simp [Request.transitionTo, Request.transitionMasks, hr]
      · rw [hcount, first, if_neg hsyn, if_neg hwon, if_pos hmaster, if_pos hclass]
        rfl
      · rw [hcount, first, if_neg hsyn, if_neg hwon, if_pos hmaster, if_pos hclass,
          attempts_collision]
    · refine .ends hne hretry ?_ ?_ ?_
      · rw [hrun, Request.first, if_neg hsyn, if_neg hwon, if_pos hmaster, if_neg hclass]
        exact Request.transitionTo_observe_state _
      · rw [hcount, first, if_neg hsyn, if_neg hwon, if_pos hmaster, if_neg hclass, ended_lost]
      · rw [hcount, first, if_neg hsyn, if_neg hwon, if_pos hmaster, if_neg hclass,
          attempts_lost]
  · refine .ends hne hretry ?_ ?_ ?_
    · rw [hrun, Request.first, if_neg hsyn, if_neg hwon, if_neg hmaster]
      exact Request.transitionTo_observe_state _
    · rw [hcount, first, if_neg hsyn, if_neg hwon, if_neg hmaster, ended_error]
    · rw [hcount, first, if_neg hsyn, if_neg hwon, if_neg hmaster, attempts_error]

theorem decides_retry (m : RequestMetrics) {r : Request} (hr : r.state = .retry) (byte : UInt8) :
    Decides m r byte := by
  have hrun : r.run byte = r.retry byte := by rw [Request.run, hr]
  have hcount : m.run r byte = m.retry byte := by rw [run, hr]
  by_cases hsyn : byte = Symbols.syn
  · refine .opens hr hsyn ?_ ?_
    · rw [hrun, Request.retry, if_pos hsyn]
      simp [Request.transitionTo, Request.transitionMasks, hr]
    · rw [hcount, retry, if_pos hsyn]
  · refine .ends (by rw [hr]; decide) (fun _ => hsyn) ?_ ?_ ?_
    · rw [hrun, Request.retry, if_neg hsyn]
      exact Request.transitionTo_observe_state _
    · rw [hcount, retry, if_neg hsyn, ended_error]
    · rw [hcount, retry, if_neg hsyn, attempts_error]

theorem decides_second (m : RequestMetrics) {r : Request} (hr : r.state = .second) (byte : UInt8) :
    Decides m r byte := by
  have hne : r.state ≠ .observe := by rw [hr]; decide
  have hretry : r.state = .retry → byte ≠ Symbols.syn := by rw [hr]; intro h; cases h
  have hrun : r.run byte = r.second byte := by rw [Request.run, hr]
  have hcount : m.run r byte = m.second r byte := by rw [run, hr]
  have hafter : (r.run byte).state = .observe := by
    rw [hrun, Request.second]
    repeat' split
    all_goals exact Request.transitionTo_observe_state _
  by_cases hwon : byte = r.requestAddress
  · refine .ends hne hretry hafter ?_ ?_
    · rw [hcount, second, if_pos hwon, ended_won]
    · rw [hcount, second, if_pos hwon, attempts_won]
  by_cases hmaster : isMaster byte = true
  · refine .ends hne hretry hafter ?_ ?_
    · rw [hcount, second, if_neg hwon, if_pos hmaster, ended_lost]
    · rw [hcount, second, if_neg hwon, if_pos hmaster, attempts_lost]
  · refine .ends hne hretry hafter ?_ ?_
    · rw [hcount, second, if_neg hwon, if_neg hmaster, ended_error]
    · rw [hcount, second, if_neg hwon, if_neg hmaster, attempts_error]

theorem run_decides (m : RequestMetrics) (r : Request) (byte : UInt8) : Decides m r byte := by
  cases hr : r.state with
  | observe =>
    refine .observes hr ?_ (by rw [run, hr])
    rw [Request.run, hr]
    simp only [Request.observe]
    split <;> exact hr
  | first => exact decides_first m hr byte
  | retry => exact decides_retry m hr byte
  | second => exact decides_second m hr byte

end RequestMetrics

/-- The machine with its counters, and what has happened since these were cleared: how many
arbitrations have begun, how many were broken off, and on how many bytes one had to decide. -/
structure Monitored where
  request : Request := {}
  metrics : RequestMetrics := {}
  begun : Nat := 0
  aborted : Nat := 0
  decisions : Nat := 0
  deriving Repr

namespace Monitored

def step (s : Monitored) (call : Request.Call) : Monitored :=
  let next :=
    { s with request := s.request.call call, metrics := s.metrics.call s.request call }
  match call with
  | .busRequestCompleted =>
    if s.request.state = .observe then { next with begun := s.begun + 1 } else next
  | .startBit | .reset =>
    if s.request.state = .observe then next else { next with aborted := s.aborted + 1 }
  | .run byte =>
    if s.request.state = .observe ∨ s.request.state = .retry ∧ byte = Symbols.syn then next
    else { next with decisions := s.decisions + 1 }
  | .requestBus _ _ | .setLockCounter _ => next

def underWay (s : Monitored) : UInt32 := if s.request.state = .observe then 0 else 1

/-- The counters are what has happened; all of them go around with their 32 bits. -/
structure Accounted (s : Monitored) : Prop where
  begun : s.metrics.ended + .ofNat s.aborted + s.underWay = .ofNat s.begun
  decided : s.metrics.attempts = .ofNat s.decisions

theorem ofNat_succ (n : Nat) : UInt32.ofNat (n + 1) = .ofNat n + 1 := UInt32.ofNat_add n 1

/-- A call that neither begins nor ends an arbitration and counts no attempt. -/
theorem Accounted.keeps {s s' : Monitored} (accounted : Accounted s)
    (hended : s'.metrics.ended = s.metrics.ended)
    (hattempts : s'.metrics.attempts = s.metrics.attempts) (hbegun : s'.begun = s.begun)
    (haborted : s'.aborted = s.aborted) (hdecisions : s'.decisions = s.decisions)
    (hopen : s'.underWay = s.underWay) : Accounted s' where
  begun := by rw [hended, haborted, hopen, hbegun, accounted.begun]
  decided := by rw [hattempts, hdecisions, accounted.decided]

theorem underWay_of_state {s s' : Monitored} (h : s'.request.state = s.request.state) :
    s'.underWay = s.underWay := by
  rw [underWay, underWay, h]

theorem Accounted.busRequestCompleted {s : Monitored} (accounted : Accounted s) :
    Accounted (s.step .busRequestCompleted) := by
  simp only [step]
  split
  next hobserve =>
    constructor
    · have hbegun := accounted.begun
      have hfirst : s.request.busRequestCompleted.state = .first := by
        simp [Request.busRequestCompleted, Request.transitionTo, Request.transitionMasks, hobserve]
      simp only [underWay, hobserve, if_pos] at hbegun
      simp only [underWay, Request.call, hfirst]
      rw [if_neg (by decide), ofNat_succ, ← hbegun, UInt32.add_zero]
      rfl
    · exact accounted.decided
  next harbitrating =>
    refine accounted.keeps rfl rfl rfl rfl rfl (underWay_of_state ?_)
    show s.request.busRequestCompleted.state = s.request.state
    simp only [Request.busRequestCompleted]
    rw [if_neg harbitrating]

/-- What breaks off leaves the machine observing. -/
theorem Accounted.aborts {s : Monitored} (accounted : Accounted s) {call : Request.Call}
    (hcall : call = .startBit ∨ call = .reset) : Accounted (s.step call) := by
  have hafter : (s.request.call call).state = .observe := by
    obtain rfl | rfl := hcall
    · exact Request.transitionTo_observe_state _
    · exact Request.transitionTo_observe_state _
  have hended : (s.metrics.call s.request call).ended = s.metrics.ended := by
    obtain rfl | rfl := hcall <;> rfl
  have hattempts : (s.metrics.call s.request call).attempts = s.metrics.attempts := by
    obtain rfl | rfl := hcall <;> rfl
  have hstep : s.step call =
      if s.request.state = .observe then
        { s with request := s.request.call call, metrics := s.metrics.call s.request call }
      else
        { s with
          request := s.request.call call
          metrics := s.metrics.call s.request call
          aborted := s.aborted + 1 } := by
    obtain rfl | rfl := hcall <;> rfl
  rw [hstep]
  split
  next hobserve =>
    exact accounted.keeps hended hattempts rfl rfl rfl
      (underWay_of_state (hafter.trans hobserve.symm))
  next harbitrating =>
    have hbegun := accounted.begun
    rw [underWay, if_neg harbitrating] at hbegun
    constructor
    · simp only [underWay, hafter, if_pos, hended]
      rw [ofNat_succ, ← hbegun, UInt32.add_zero, UInt32.add_assoc]
    · exact hattempts.trans accounted.decided

theorem Accounted.run {s : Monitored} (accounted : Accounted s) (byte : UInt8) :
    Accounted (s.step (.run byte)) := by
  have hbegun := accounted.begun
  have hdecided := accounted.decided
  cases RequestMetrics.run_decides s.metrics s.request byte with
  | observes before after same =>
    have hstep : s.step (.run byte) =
        { s with request := s.request.run byte, metrics := s.metrics.run s.request byte } :=
      if_pos (.inl before)
    rw [hstep, same]
    exact accounted.keeps rfl rfl rfl rfl rfl (underWay_of_state (after.trans before.symm))
  | opens before hbyte after same =>
    have hstep : s.step (.run byte) =
        { s with request := s.request.run byte, metrics := s.metrics.run s.request byte } :=
      if_pos (.inr ⟨before, hbyte⟩)
    rw [hstep, same]
    refine accounted.keeps rfl rfl rfl rfl rfl ?_
    rw [underWay, underWay, if_neg after, before, if_neg (by decide)]
  | goesOn before after ended attempts =>
    have hstep : s.step (.run byte) =
        { s with
          request := s.request.run byte
          metrics := s.metrics.run s.request byte
          decisions := s.decisions + 1 } :=
      if_neg (by rw [before]; simp)
    rw [hstep]
    constructor
    · rw [underWay, before, if_neg (by decide)] at hbegun
      rw [underWay, if_neg after, ended, hbegun]
    · rw [attempts, hdecided, ofNat_succ]
  | ends before undecided after ended attempts =>
    have hstep : s.step (.run byte) =
        { s with
          request := s.request.run byte
          metrics := s.metrics.run s.request byte
          decisions := s.decisions + 1 } :=
      if_neg fun h => h.elim before fun hretry => undecided hretry.1 hretry.2
    rw [hstep]
    constructor
    · rw [underWay, if_neg before] at hbegun
      rw [underWay, if_pos after, ended, ← hbegun]
      grind
    · rw [attempts, hdecided, ofNat_succ]

theorem Accounted.step {s : Monitored} (accounted : Accounted s) (call : Request.Call) :
    Accounted (s.step call) := by
  cases call with
  | requestBus address isExternal =>
    have hmetrics : (s.metrics.call s.request (.requestBus address isExternal)).ended =
        s.metrics.ended ∧ (s.metrics.call s.request (.requestBus address isExternal)).attempts =
          s.metrics.attempts := by
      simp only [RequestMetrics.call]
      split <;> exact ⟨rfl, rfl⟩
    refine accounted.keeps hmetrics.1 hmetrics.2 rfl rfl rfl (underWay_of_state ?_)
    simp only [Monitored.step, Request.call, Request.requestBus]
    split <;> rfl
  | busRequestCompleted => exact accounted.busRequestCompleted
  | run byte => exact accounted.run byte
  | startBit => exact accounted.aborts (.inl rfl)
  | reset => exact accounted.aborts (.inr rfl)
  | setLockCounter lockCounter =>
    exact accounted.keeps rfl rfl rfl rfl rfl (underWay_of_state rfl)

/-- The counters have been cleared; an arbitration that is under way then begins anew. -/
def start (request : Request) : Monitored :=
  { request, begun := if request.state = .observe then 0 else 1 }

/-- In every order of the calls each arbitration that has begun has been won, lost or given up by
the machine, has been broken off, or is still under way; and each byte on which an arbitration had
to decide counts as one attempt. -/
theorem run_accounted (request : Request) (calls : List Request.Call) :
    Accounted (Runs.run step (start request) calls) := by
  refine Runs.invariant_always (I := Accounted)
    (fun s call accounted => accounted.step call) ?_ calls
  constructor
  · show (0 : UInt32) + 0 + (start request).underWay = .ofNat (start request).begun
    rw [underWay, start]
    split <;> rfl
  · rfl

end Monitored

end Ebus
