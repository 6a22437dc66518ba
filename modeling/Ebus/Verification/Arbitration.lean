import Ebus.Verification.Reading

/-!
# Whose arbitration it is

Two users share one arbitration machine: the engine and the external user. This module
follows an arbitration from the call that asks for it to the result that ends it. It shows
that the engine only waits while the machine arbitrates, and what keeps the address and the
user of an accepted request in place until its arbitration has ended.
-/

namespace Ebus

namespace Request

/-- The results that ask the engine to wait, and where they leave the machine. -/
inductive Arbitrates : RequestState → RequestResult → Prop where
  | first : Arbitrates .first .firstSyn
  | retry : Arbitrates .retry .firstRetry
  | second : Arbitrates .second .retrySyn

theorem run_arbitrates (r : Request) (byte : UInt8)
    (hresult : (r.run byte).result = .firstSyn ∨ (r.run byte).result = .firstRetry ∨
      (r.run byte).result = .retrySyn) :
    Arbitrates (r.run byte).state (r.run byte).result := by
  have hmove := (r.run_move byte).1
  generalize (r.run byte).state = state, (r.run byte).busRequest = request,
    (r.run byte).result = result at hmove hresult ⊢
  cases hmove
  case firstSyn => exact .first
  case firstRetry => exact .retry
  case retrySyn => exact .second
  case observed h => obtain rfl | rfl := h <;> simp at hresult
  case firstLost h => obtain rfl | rfl := h <;> simp at hresult
  case secondLost h => obtain rfl | rfl := h <;> simp at hresult
  all_goals simp at hresult

end Request

namespace BusHandler

/-- Behind an event the engine waits for the bus only with a machine that arbitrates. -/
theorem onBusEvent_waits {h : Handler} {event : BusEvent} {response : Sequence}
    (hs : (onBusEvent h event response).state = .requestBus) :
    Request.Arbitrates (onBusEvent h event response).request.state
      (onBusEvent h event response).request.result := by
  obtain ⟨d, hb, heq⟩ := onBusEvent_branch h event response
  rw [heq, Handler.flush_state] at hs
  rw [heq, Handler.flush_request]
  obtain ⟨hrequest, -, hwaiting, -⟩ := hb.asks
  obtain ⟨-, hresult⟩ := hwaiting hs
  rw [hrequest.resolve_right (by simp [hs])]
  exact Request.run_arbitrates _ _ hresult

/-- In every run, after every event: when the engine waits for the bus, the arbitration
machine is in one of the three states that lead to a result. -/
theorem run_waits_in_step (address : UInt8) (request : Request) (actions : List Action)
    (event : BusEvent) (response : Sequence) :
    let h := Runs.run step (Handler.create address request)
      (actions ++ [.busEvent event response])
    h.state = .requestBus →
      h.request.state = .first ∨ h.request.state = .retry ∨ h.request.state = .second := by
  intro h hs
  have hrun : h = onBusEvent (Runs.run step (Handler.create address request) actions) event
      response := Runs.run_append step _ actions _
  rw [hrun] at hs ⊢
  have harbitrates := onBusEvent_waits hs
  generalize (onBusEvent _ _ _).request.state = state, (onBusEvent _ _ _).request.result = result
    at harbitrates
  cases harbitrates
  · exact .inl rfl
  · exact .inr (.inl rfl)
  · exact .inr (.inr rfl)

/-- A message waits for the bus, and another master of the same class has written its
address with the own one. -/
theorem run_waits_in_step_collision :
    let h := Runs.run step (Handler.create 0xff {})
      ((.sendActiveMessage [0x08, 0x07, 0x04, 0x00] :: feed [0xaa, 0xaa, 0xaa] ++
        [.busEvent { byte := 0xaa, busRequest := true } {}]) ++
        [.busEvent { byte := 0x3f } {}])
    h.state = .requestBus ∧
      (h.request.state = .first ∨ h.request.state = .retry ∨ h.request.state = .second) :=
  ⟨by decide, run_waits_in_step 0xff {} _ _ _ (by decide)⟩

end BusHandler

/-- The arbitration machine beside a record of the call whose arbitration is under way. No
function of the machine reads the record. -/
structure Owned where
  request : Request
  owner : Option (UInt8 × Bool) := none
  deriving DecidableEq, Repr

namespace Owned

open Request (Call)

/-- The record begins with an accepted request and ends with the machine back in `observe`,
with a start bit or with a reset. -/
def step (s : Owned) (c : Call) : Owned :=
  { request := s.request.call c
    owner := match c with
      | .requestBus address isExternal =>
          if s.request.busAvailable && s.owner.isNone then some (address, isExternal) else s.owner
      | .run byte =>
          if s.request.state ≠ .observe ∧ (s.request.run byte).state = .observe then none
          else s.owner
      | .startBit | .reset => none
      | .busRequestCompleted | .setLockCounter _ => s.owner }

/-- The address and the user that the machine works for. -/
def holder (r : Request) : UInt8 × Bool := (r.requestAddress, r.externalBusRequest)

/-- A request is not made for another holder while one is pending, nor between the written
address and the byte behind it. -/
def Exclusive (s : Owned) : Call → Prop
  | .requestBus address isExternal =>
      s.request.busRequest = true ∨
        s.request.state ≠ .observe ∧ s.request.busAvailable = true →
      holder s.request = (address, isExternal)
  | _ => True

instance (s : Owned) : (c : Call) → Decidable (s.Exclusive c)
  | .requestBus _ _ => inferInstanceAs (Decidable (_ → _))
  | .busRequestCompleted | .run _ | .startBit | .reset | .setLockCounter _ => .isTrue trivial

/-- While an arbitration has an owner, its request waits or the machine is in it, and the
machine works for this owner. -/
structure Kept (s : Owned) : Prop where
  underway : s.owner.isSome = true → s.request.busRequest = true ∨ s.request.state ≠ .observe
  holder : ∀ owner, s.owner = some owner → Owned.holder s.request = owner

/-- The answer to a request, and who holds the machine behind it. -/
theorem holder_of_requestBus (r : Request) (address : UInt8) (isExternal : Bool) :
    r.busAvailable = true ∧ (r.requestBus address isExternal).2 = true ∧
      holder (r.requestBus address isExternal).1 = (address, isExternal) ∨
    r.busAvailable = false ∧ r.requestBus address isExternal = (r, r.busRequest) := by
  unfold Request.requestBus
  cases havailable : r.busAvailable with
  | true => exact .inl ⟨rfl, rfl, rfl⟩
  | false => exact .inr ⟨rfl, rfl⟩

theorem Kept.requestBus {s : Owned} (hi : s.Kept) {address : UInt8} {isExternal : Bool}
    (hexclusive : s.Exclusive (.requestBus address isExternal)) :
    (s.step (.requestBus address isExternal)).Kept := by
  have hrequest : (s.step (.requestBus address isExternal)).request =
      (s.request.requestBus address isExternal).1 := rfl
  have howner : (s.step (.requestBus address isExternal)).owner =
      if s.request.busAvailable && s.owner.isNone then some (address, isExternal)
      else s.owner := rfl
  obtain ⟨havailable, hpending, hholder⟩ | ⟨havailable, hsame⟩ :=
    holder_of_requestBus s.request address isExternal
  · refine ⟨fun _ => .inl ?_, ?_⟩
    · rw [hrequest]
      exact hpending
    · intro owner ho
      rw [hrequest, hholder]
      rw [howner, havailable] at ho
      cases hbefore : s.owner with
      | none =>
          rw [hbefore] at ho
          exact Option.some.inj ho
      | some o =>
          -- the machine was available in the middle of an arbitration
          rw [hbefore] at ho
          have hidle : s.request.busRequest = false := by
            simp [Request.busAvailable] at havailable
            exact havailable.2
          have hwindow : s.request.state ≠ .observe :=
            (hi.underway (by simp [hbefore])).resolve_left (by simp [hidle])
          rw [← hexclusive (.inr ⟨hwindow, havailable⟩), hi.holder o hbefore]
          exact Option.some.inj ho
  · rw [havailable, Bool.false_and, if_neg (by decide)] at howner
    rw [hsame] at hrequest
    exact ⟨by rw [howner, hrequest]; exact hi.underway, by rw [howner, hrequest]; exact hi.holder⟩

theorem Kept.run {s : Owned} (hi : s.Kept) (byte : UInt8) : (s.step (.run byte)).Kept := by
  obtain ⟨hmove, haddress, hexternal⟩ := s.request.run_move byte
  have hholder : Owned.holder (s.request.run byte) = Owned.holder s.request := by
    rw [Owned.holder, Owned.holder, haddress, hexternal]
  unfold Owned.step
  by_cases hended : s.request.state ≠ .observe ∧ (s.request.run byte).state = .observe
  · simp only [if_pos hended]
    exact ⟨by simp, by simp⟩
  · simp only [if_neg hended]
    refine ⟨fun hsome => ?_, fun owner howner => hholder.trans (hi.holder owner howner)⟩
    change (s.request.run byte).busRequest = true ∨ (s.request.run byte).state ≠ .observe
    by_cases hobserve : s.request.state = .observe
    · have hpending := (hi.underway hsome).resolve_right (not_not.mpr hobserve)
      left
      generalize (s.request.run byte).state = state, (s.request.run byte).busRequest = request,
        (s.request.run byte).result = result at hmove
      cases hmove <;> simp_all
    · exact .inr fun hs => hended ⟨hobserve, hs⟩

theorem Kept.step {s : Owned} (hi : s.Kept) {c : Call} (hexclusive : s.Exclusive c) :
    (Owned.step s c).Kept := by
  cases c with
  | requestBus address isExternal => exact hi.requestBus hexclusive
  | busRequestCompleted =>
      refine ⟨fun _ => .inr ?_, ?_⟩
      · simp only [Owned.step, Request.call, Request.busRequestCompleted_eq]
        split <;> simp_all
      · simp only [Owned.step, Request.call, Request.busRequestCompleted_eq]
        exact hi.holder
  | run byte => exact hi.run byte
  | startBit => exact ⟨by simp [Owned.step], by simp [Owned.step]⟩
  | reset => exact ⟨by simp [Owned.step], by simp [Owned.step]⟩
  | setLockCounter lockCounter => exact ⟨hi.underway, hi.holder⟩

/-- The machine works for the owner of the arbitration that is under way. -/
def WorksForOwner (s : Owned) : Prop :=
  ∀ address isExternal, s.owner = some (address, isExternal) →
    s.request.requestAddress = address ∧ s.request.externalBusRequest = isExternal

/-- A request that is answered with `true` is the one that waits. -/
def AnswersOwner (s : Owned) (address : UInt8) (isExternal : Bool) : Prop :=
  (s.request.requestBus address isExternal).2 = true →
    (s.request.requestBus address isExternal).1.requestAddress = address ∧
      (s.request.requestBus address isExternal).1.externalBusRequest = isExternal

/-- In every interleaving of exclusive requests an accepted request keeps the machine until
its arbitration has ended, and only the user of a pending request is told so. -/
theorem run_owner_kept (calls : List Call)
    (hexclusive : Runs.Meets step Exclusive { request := {} } calls) :
    let s := Runs.run step { request := {} } calls
    s.WorksForOwner ∧ ∀ address isExternal, s.Exclusive (.requestBus address isExternal) →
      s.AnswersOwner address isExternal := by
  have hi := Runs.invariant (I := Kept) (fun _ _ hi hexclusive => hi.step hexclusive)
    ⟨by simp, by simp⟩ hexclusive
  refine ⟨?_, ?_⟩
  · intro address isExternal howner
    exact Prod.mk.inj (hi.holder _ howner)
  · intro address isExternal hnext htrue
    apply Prod.mk.inj
    change holder _ = _
    obtain ⟨-, -, hholder⟩ | ⟨-, hsame⟩ :=
      holder_of_requestBus (Runs.run step { request := {} } calls).request address isExternal
    · exact hholder
    · rw [hsame] at htrue ⊢
      exact hnext (.inl htrue)

/-- The engine asks behind three SYNs and wins the bus behind the fourth. -/
def granted : List Call :=
  [.run 0xaa, .run 0xaa, .run 0xaa, .requestBus 0xff false, .busRequestCompleted, .run 0xaa]

theorem run_owner_kept_granted :
    (Runs.run step { request := {} } granted).owner = some (0xff, false) ∧
    (Runs.run step { request := {} } granted).WorksForOwner ∧
    ∀ address isExternal,
      (Runs.run step { request := {} } granted).Exclusive (.requestBus address isExternal) →
      (Runs.run step { request := {} } granted).AnswersOwner address isExternal :=
  ⟨by decide, run_owner_kept granted (by decide)⟩

/-- Between the written address and the byte behind it another request takes the machine
over; and a request that finds another one pending is answered as if it were its own. -/
theorem owner_not_kept :
    ¬ (∀ calls : List Call, (Runs.run step { request := {} } calls).WorksForOwner) ∧
    ¬ ∀ (calls : List Call) (address : UInt8) (isExternal : Bool),
      (Runs.run step { request := {} } calls).AnswersOwner address isExternal := by
  constructor
  · intro hall
    have hkept := hall [.run 0xaa, .run 0xaa, .run 0xaa, .requestBus 0xff false,
      .busRequestCompleted, .requestBus 0x31 true] 0xff false (by decide)
    exact absurd hkept.1 (by decide)
  · intro hall
    have hanswer := hall [.run 0xaa, .run 0xaa, .run 0xaa, .requestBus 0xff false] 0x31 true
      (by decide)
    exact absurd hanswer.1 (by decide)

end Owned

end Ebus
