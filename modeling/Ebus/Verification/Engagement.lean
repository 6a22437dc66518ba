import Mathlib.Tactic.MkIffOfInductiveProp
import Ebus.Core.BusHandler

/-!
# When the engine works for an own message

An own message waits in the engine until an arbitration for it starts; from then on
the engine is engaged with it, first for the bus and then in the exchange itself. This
module says which steps can begin that work and which reports belong to it. Nothing
here depends on the contents of the buffers, so that it holds for every event.
-/

namespace Ebus

namespace Effect

/-- A report about traffic of other masters: observed and answered telegrams, and the
errors of these two sides. -/
def foreign : Effect → Bool
  | .protocol info =>
      if info.isError then
        match info.protocolError with
        | .errorPassiveMaster | .errorPassiveMasterAck | .errorPassiveSlave
        | .errorPassiveSlaveAck | .errorReactiveMaster | .errorReactiveMasterAck
        | .errorReactiveSlave | .errorReactiveSlaveAck | .checkPassiveBuffers => true
        | .illegalFsmTransition => info.handlerState ≠ .activeSendMaster
        | _ => false
      else info.messageType ≠ .active
  | _ => false

/-- The callbacks of the own message come from the states that work for it. -/
def FromState (state : HandlerState) (e : Effect) : Prop :=
  (e = .won → state = .requestBus) ∧ (e.isActiveTelegram = true → state.exchanging = true)

end Effect

namespace Handler

/-- The engine has taken a message, or is engaged with one. -/
def busy (h : Handler) : Bool := h.activeMessage || h.state.engaged

theorem reset_busy (h : Handler) : h.reset.busy = false ∧ h.reset.state.exchanging = false := by
  rw [reset_eq]
  exact ⟨rfl, rfl⟩

/-- What a step from `h` to `d` can do for the own message. -/
@[mk_iff] structure Engages (h d : Handler) : Prop where
  busy : d.busy = true → h.busy = true
  exchange : d.state.exchanging = true → h.state.exchanging = true ∨ Effect.won ∈ d.log
  reports : Log.Each (Effect.FromState h.state) d.log

section Step

variable {h d : Handler} {byte : UInt8} {response : Sequence}

/-- Only a won arbitration starts an exchange. -/
theorem Branch.engages (hlog : Log.Each (Effect.FromState h.state) h.log)
    (hb : Branch h byte response d) : Engages h d := by
  have hbuffered : Log.Each (Effect.FromState h.state) (h.bufferMaster byte).log := by
    rw [bufferMaster_log, Log.each_append]
    refine ⟨hlog, ?_⟩
    split <;> simp [Effect.FromState, Effect.isActiveTelegram]
  have hchecked : Log.Each (Effect.FromState h.state) (h.checkedMaster byte).log := by
    rw [checkedMaster, createPassiveMaster_log, Log.each_append]
    exact ⟨hbuffered, by simp [Effect.FromState, Effect.isActiveTelegram]⟩
  cases hb
  case buffered hs _ _ _ =>
    exact ⟨id, fun hstate => .inl hstate, hbuffered⟩
  case syn hs _ =>
    have hstate := h.receiveSyn_state
    have hkept : (h.receiveSyn.activeMessage = true → h.activeMessage = true) ∧
        Log.Each (Effect.FromState h.state) h.receiveSyn.log := by
      apply receiveSyn_rule (P := fun a => (a.activeMessage = true → h.activeMessage = true) ∧
        Log.Each (Effect.FromState h.state) a.log) ⟨id, hlog⟩
      · intro _ _
        simp [hlog, Effect.FromState, Effect.isActiveTelegram]
      · rintro a ⟨-, halog⟩ _ _
        simp [halog, Effect.FromState, Effect.isActiveTelegram]
      · intro a ha _
        exact ha
    obtain ⟨hmessage, hreports⟩ := hkept
    refine ⟨?_, fun hexchange => .inl (hstate ▸ hexchange), hreports⟩
    simp only [Handler.busy, hstate, Bool.or_eq_true]
    exact Or.imp_left hmessage
  case refused ht =>
    obtain ⟨-, rfl⟩ | ⟨-, rfl⟩ := ht <;> subst_vars <;>
      simp_all [engages_iff, Handler.busy, HandlerState.exchanging, HandlerState.engaged,
        Effect.FromState, Effect.isActiveTelegram]
  all_goals
    subst_vars
    rw [‹h.state = _›] at hlog hchecked
    simp [engages_iff, Handler.busy, HandlerState.exchanging, HandlerState.engaged,
      Effect.FromState, Effect.isActiveTelegram, answered, checkedSlave, checkedActiveSlave, *]

end Step

/-- The flags of an event begin no work that has not been asked for. -/
theorem ready_busy {h : Handler} {event : BusEvent} (hbusy : (h.ready event).busy = true) :
    h.busy = true := by
  have hrequested (hengaged : (h.requestedState event).engaged = true) : h.busy = true := by
    unfold requestedState at hengaged
    split at hengaged
    · rename_i hflag
      simp [busy, hflag.2.2]
    · simp [busy, hengaged]
  cases hstart : event.startBit with
  | false =>
      obtain ⟨request, hready⟩ := h.ready_of_quiet event hstart
      rw [hready, busy, Bool.or_eq_true] at hbusy
      obtain hmessage | hengaged := (by exact hbusy : h.activeMessage = true ∨ _)
      · simp [busy, hmessage]
      · exact hrequested hengaged
  | true =>
      obtain ⟨request, -, hready⟩ := h.ready_of_startBit event hstart
      rw [hready, busy] at hbusy
      exact hrequested (by simpa using hbusy)

theorem ready_state (h : Handler) (event : BusEvent) :
    (h.ready event).state = h.requestedState event := by
  cases hstart : event.startBit with
  | false =>
      obtain ⟨request, hready⟩ := h.ready_of_quiet event hstart
      rw [hready]
  | true =>
      obtain ⟨request, -, hready⟩ := h.ready_of_startBit event hstart
      rw [hready]

theorem requestedState_exchanging {h : Handler} {event : BusEvent}
    (hstate : (h.requestedState event).exchanging = true) : h.state.exchanging = true := by
  unfold requestedState at hstate
  split at hstate
  · simp [HandlerState.exchanging] at hstate
  · exact hstate

end Handler

namespace BusHandler

/-- What an event does for the own message, with the log read from the event on. -/
theorem onBusEvent_engages (h : Handler) (event : BusEvent) (response : Sequence) :
    let d := onBusEvent { h with log := [] } event response
    (d.busy = true → h.busy = true) ∧
    (d.state.exchanging = true → h.state.exchanging = true ∨ Effect.won ∈ d.log) ∧
    ∀ e ∈ d.log, (e = .won → h.busy = true) ∧
      (e.isActiveTelegram = true → h.state.exchanging = true) := by
  intro d
  obtain ⟨b, hbranch, heq⟩ := onBusEvent_branch { h with log := [] } event response
  have hlog : Log.Each (Effect.FromState (Handler.ready { h with log := [] } event).state)
      (Handler.ready { h with log := [] } event).log := by
    cases hstart : event.startBit with
    | false =>
        obtain ⟨request, hready⟩ := Handler.ready_of_quiet { h with log := [] } event hstart
        rw [hready]
        exact Log.each_nil _
    | true =>
        obtain ⟨request, -, hready⟩ := Handler.ready_of_startBit { h with log := [] } event hstart
        rw [hready]
        simp [Effect.FromState, Effect.isActiveTelegram]
  obtain ⟨busy, exchange, reports⟩ := hbranch.engages hlog
  rw [Handler.ready_state] at exchange reports
  have hstates : d.state = b.state ∧ d.activeMessage = b.activeMessage ∧
      (Effect.won ∈ b.log → Effect.won ∈ d.log) ∧
      Log.Each (Effect.FromState (Handler.requestedState { h with log := [] } event)) d.log := by
    obtain hflush | ⟨byte, hflush⟩ := b.flush_cases
    · simp [d, heq, hflush, reports]
    · simp [d, heq, hflush, reports, Effect.FromState, Effect.isActiveTelegram]
  obtain ⟨hstate, hmessage, hwon, hreports⟩ := hstates
  refine ⟨?_, ?_, ?_⟩
  · intro hbusy
    have hb : b.busy = true := by simpa [Handler.busy, hstate, hmessage] using hbusy
    exact Handler.ready_busy (h := { h with log := [] }) (busy hb)
  · intro hexchange
    obtain hbefore | hnew := exchange (hstate ▸ hexchange)
    · exact .inl (Handler.requestedState_exchanging (h := { h with log := [] }) hbefore)
    · exact .inr (hwon hnew)
  · intro e he
    obtain ⟨hwonState, htelegram⟩ := hreports.of_mem he
    refine ⟨?_, ?_⟩
    · intro hew
      apply @Handler.ready_busy { h with log := [] } event
      simp [Handler.busy, Handler.ready_state, hwonState hew, HandlerState.engaged]
    · intro het
      exact Handler.requestedState_exchanging (h := { h with log := [] }) (htelegram het)

end BusHandler

end Ebus
