import Ebus.Core.Reader
import Ebus.Verification.Engagement

/-!
# Flags and exchanges

A flag of the byte reader takes the engine out of whatever it does. This module shows
that for the events that the readers produce no flag of the own request comes while an
own exchange goes on: when the arbitration is won, the request that led to it is settled
and its flag has been handed over.
-/

namespace Ebus

namespace Request

/-- What one byte does to the machine: its new state, whether a request waits, and the
result; the address and its user stay. -/
inductive Move (r : Request) (byte : UInt8) : RequestState → Bool → RequestResult → Prop where
  | observed {result : RequestResult} (hs : r.state = .observe)
      (hresult : result = .observeSyn ∨ result = .observeData) :
      Move r byte .observe r.busRequest result
  | firstSyn (hs : r.state = .first) (hbyte : byte = Symbols.syn) :
      Move r byte .first r.busRequest .firstSyn
  | firstWon (hs : r.state = .first) (hbyte : byte ≠ Symbols.syn)
      (hown : byte = r.requestAddress) : Move r byte .observe r.busRequest .firstWon
  | firstRetry (hs : r.state = .first) (hbyte : byte ≠ Symbols.syn) :
      Move r byte .retry true .firstRetry
  | firstLost {result : RequestResult} (hs : r.state = .first) (hbyte : byte ≠ Symbols.syn)
      (hresult : result = .firstLost ∨ result = .firstError) :
      Move r byte .observe r.busRequest result
  | retrySyn (hs : r.state = .retry) (hbyte : byte = Symbols.syn) :
      Move r byte .second r.busRequest .retrySyn
  | retryError (hs : r.state = .retry) (hbyte : byte ≠ Symbols.syn) :
      Move r byte .observe r.busRequest .retryError
  | secondWon (hs : r.state = .second) (hown : byte = r.requestAddress) :
      Move r byte .observe r.busRequest .secondWon
  | secondLost {result : RequestResult} (hs : r.state = .second)
      (hresult : result = .secondLost ∨ result = .secondError) :
      Move r byte .observe r.busRequest result

/-- A transition that the table permits. -/
theorem transitionTo_of_permitted {r : Request} {next : RequestState}
    (permitted : next ∈ transitionMasks r.state) :
    r.transitionTo next = { r with state := next } := by
  unfold transitionTo
  split
  · rename_i hsame
    rw [hsame]
  · rfl

theorem transitionTo_observe (r : Request) :
    r.transitionTo .observe = { r with state := .observe } := by
  apply transitionTo_of_permitted
  cases r.state <;> decide

theorem run_move (r : Request) (byte : UInt8) :
    Move r byte (r.run byte).state (r.run byte).busRequest (r.run byte).result ∧
      (r.run byte).requestAddress = r.requestAddress ∧
      (r.run byte).externalBusRequest = r.externalBusRequest := by
  cases hs : r.state with
  | observe =>
      rw [run, hs]
      simp only [observe]
      split
      · exact ⟨hs ▸ .observed hs (.inl rfl), rfl, rfl⟩
      · exact ⟨hs ▸ .observed hs (.inr rfl), rfl, rfl⟩
  | first =>
      rw [run, hs]
      simp only [first]
      split_ifs with hsyn hown hmaster hclass
      · rw [transitionTo_of_permitted (by rw [hs]; decide)]
        exact ⟨.firstSyn hs hsyn, rfl, rfl⟩
      · rw [transitionTo_observe]
        exact ⟨.firstWon hs hsyn hown, rfl, rfl⟩
      · rw [transitionTo_of_permitted (by rw [hs]; decide)]
        exact ⟨.firstRetry hs hsyn, rfl, rfl⟩
      · rw [transitionTo_observe]
        exact ⟨.firstLost hs hsyn (.inl rfl), rfl, rfl⟩
      · rw [transitionTo_observe]
        exact ⟨.firstLost hs hsyn (.inr rfl), rfl, rfl⟩
  | retry =>
      rw [run, hs]
      simp only [retry]
      split_ifs with hsyn
      · rw [transitionTo_of_permitted (by rw [hs]; decide)]
        exact ⟨.retrySyn hs hsyn, rfl, rfl⟩
      · rw [transitionTo_observe]
        exact ⟨.retryError hs hsyn, rfl, rfl⟩
  | second =>
      rw [run, hs]
      simp only [second]
      split_ifs with hown hmaster
      · rw [transitionTo_observe]
        exact ⟨.secondWon hs hown, rfl, rfl⟩
      · rw [transitionTo_observe]
        exact ⟨.secondLost hs (.inl rfl), rfl, rfl⟩
      · rw [transitionTo_observe]
        exact ⟨.secondLost hs (.inr rfl), rfl, rfl⟩

theorem busRequestCompleted_eq (r : Request) : r.busRequestCompleted =
    { r with busRequest := false, state := if r.state = .observe then .first else r.state } := by
  cases hs : r.state <;> simp [busRequestCompleted, transitionTo, hs, transitionMasks]

/-- An arbitration is under way: a request waits, the machine is in it, or a flag may come. -/
def Pending (r : Request) (flag : FlagDue) : Prop :=
  r.busRequest = true ∨ r.state ≠ .observe ∨ flag ≠ .none

/-- What the readers keep between events. -/
structure Arbitrating (source : UInt8) (r : Request) (flag : FlagDue) : Prop where
  result : r.state ≠ .observe → r.result ≠ .observeSyn
  first : r.state = .first → r.busRequest = false
  second : r.state = .second → r.busRequest = true → flag = .due
  own : r.externalBusRequest = false → r.Pending flag → r.requestAddress = source

/-- The machine after the flag of an event. -/
def afterFlag (r : Request) (flagged : Bool) : Request :=
  if flagged then r.busRequestCompleted else r

/-- The flag that an event leaves due. -/
def flagAfter (r : Request) (event : BusEvent) : FlagDue :=
  if event.byte == Symbols.syn && r.busRequest then
    (if event.busRequest then .delivered else .due)
  else .none

section Event

variable {source : UInt8} {r : Request} {flag : FlagDue} {event : BusEvent}

theorem afterFlag_address (r : Request) (flagged : Bool) :
    (r.afterFlag flagged).requestAddress = r.requestAddress ∧
      (r.afterFlag flagged).externalBusRequest = r.externalBusRequest := by
  cases flagged
  · exact ⟨rfl, rfl⟩
  · rw [afterFlag, if_pos rfl, busRequestCompleted_eq]
    exact ⟨rfl, rfl⟩

/-- A flag is only raised for a request, so that an event begins no arbitration. -/
theorem pending_of_event
    (honly : event.busRequest = true →
      flag ≠ .none ∨ (event.byte == Symbols.syn && r.busRequest) = true)
    (h : ((r.afterFlag event.busRequest).run event.byte).Pending (r.flagAfter event)) :
    r.Pending flag := by
  by_contra hnot
  simp only [Pending, not_or, Bool.not_eq_true, not_not] at hnot
  obtain ⟨hrequest, hstate, hflag⟩ := hnot
  have hquiet : event.busRequest = false := by
    by_contra hflagged
    simpa [hflag, hrequest] using honly (by simpa using hflagged)
  have hafter : r.flagAfter event = .none := by simp [flagAfter, hrequest]
  rw [hquiet, afterFlag, hafter] at h
  have hmove := (r.run_move event.byte).1
  simp only [Pending, Bool.false_eq_true, if_false] at h
  generalize (r.run event.byte).state = state, (r.run event.byte).busRequest = request,
    (r.run event.byte).result = result at h hmove
  cases hmove <;> simp_all

section Settled

variable (hi : r.Arbitrating source flag) (hdue : flag = .due → event.busRequest = true)

include hi in
theorem afterFlag_first (hs : (r.afterFlag event.busRequest).state = .first) :
    (r.afterFlag event.busRequest).busRequest = false := by
  cases hflagged : event.busRequest with
  | false =>
      rw [hflagged] at hs
      exact hi.first hs
  | true => rw [afterFlag, if_pos rfl, busRequestCompleted_eq]

include hi hdue in
/-- In the second round the flag for the own address has come before its echo. -/
theorem afterFlag_second (hs : (r.afterFlag event.busRequest).state = .second) :
    (r.afterFlag event.busRequest).busRequest = false := by
  cases hflagged : event.busRequest with
  | false =>
      rw [hflagged] at hs
      by_contra hrequest
      have hcome := hdue (hi.second hs (by simpa [afterFlag] using hrequest))
      rw [hflagged] at hcome
      cases hcome
  | true => rw [afterFlag, if_pos rfl, busRequestCompleted_eq]

/-- A request that is left by the flag was there before it. -/
theorem busRequest_of_afterFlag (h : (r.afterFlag event.busRequest).busRequest = true) :
    event.busRequest = false ∧ r.busRequest = true := by
  cases hflagged : event.busRequest with
  | false =>
      rw [hflagged] at h
      exact ⟨rfl, h⟩
  | true =>
      rw [hflagged, afterFlag, if_pos rfl, busRequestCompleted_eq] at h
      cases h

variable (honly : event.busRequest = true →
  flag ≠ .none ∨ (event.byte == Symbols.syn && r.busRequest) = true)

include hi honly

theorem Arbitrating.after :
    ((r.afterFlag event.busRequest).run event.byte).Arbitrating source (r.flagAfter event) := by
  obtain ⟨hmove, haddress, hexternal⟩ := (r.afterFlag event.busRequest).run_move event.byte
  obtain ⟨haddress', hexternal'⟩ := r.afterFlag_address event.busRequest
  have hpending := pending_of_event honly
  have hfirst (hs : (r.afterFlag event.busRequest).state = .first) := afterFlag_first hi hs
  have hkept (h : (r.afterFlag event.busRequest).busRequest = true) := busRequest_of_afterFlag h
  refine ⟨?_, ?_, ?_, ?_⟩
  · generalize (Request.run _ _).state = state, (Request.run _ _).busRequest = request,
      (Request.run _ _).result = result at hmove
    cases hmove <;> simp
  · generalize (Request.run _ _).state = state, (Request.run _ _).busRequest = request,
      (Request.run _ _).result = result at hmove
    cases hmove <;> simp_all
  · generalize (Request.run _ _).state = state, (Request.run _ _).busRequest = request,
      (Request.run _ _).result = result at hmove
    cases hmove
    case retrySyn hs hbyte =>
      intro _ hrequest
      obtain ⟨hquiet, hbefore⟩ := hkept hrequest
      simp [flagAfter, hbyte, hquiet, hbefore]
    all_goals simp
  · intro hown hp
    rw [haddress, haddress']
    exact hi.own (by rw [← hexternal', ← hexternal]; exact hown) (hpending hp)

include hdue in
/-- When the bus is won for the own address nothing of the request is left. -/
theorem settled_of_won (hsource : isMaster source = true) (hown : r.externalBusRequest = false)
    (hwon : ((r.afterFlag event.busRequest).run event.byte).result = .firstWon ∨
      ((r.afterFlag event.busRequest).run event.byte).result = .secondWon) :
    ¬ ((r.afterFlag event.busRequest).run event.byte).Pending (r.flagAfter event) := by
  obtain ⟨hmove, -, -⟩ := (r.afterFlag event.busRequest).run_move event.byte
  obtain ⟨haddress, -⟩ := r.afterFlag_address event.busRequest
  have hnone (hbyte : event.byte ≠ Symbols.syn) : r.flagAfter event = .none := by
    simp [flagAfter, hbyte]
  unfold Pending
  generalize (Request.run _ _).state = state, (Request.run _ _).busRequest = request,
    (Request.run _ _).result = result at hmove hwon ⊢
  cases hmove
  case firstWon hs hbyte _ => simp [afterFlag_first hi hs, hnone hbyte]
  case secondWon hs hecho =>
    -- the own address is a master address, so its echo is no SYN
    have hpending : r.Pending flag := by
      cases hflagged : event.busRequest with
      | false =>
          rw [hflagged] at hs
          exact .inr (.inl (by simp [show r.state = .second from hs]))
      | true =>
          obtain hflag | hsyn := honly hflagged
          · exact .inr (.inr hflag)
          · exact .inl (by simp_all)
    have hbyte : event.byte ≠ Symbols.syn := by
      rw [hecho, haddress, hi.own hown hpending]
      rintro rfl
      exact absurd hsource (by decide)
    simp [afterFlag_second hi hdue hs, hnone hbyte]
  case observed hresult => obtain rfl | rfl := hwon <;> simp at hresult
  case firstLost hresult => obtain rfl | rfl := hwon <;> simp at hresult
  case secondLost hresult => obtain rfl | rfl := hwon <;> simp at hresult
  all_goals simp at hwon

end Settled

end Event

/-- A request that is granted finds no arbitration under way. -/
theorem Arbitrating.requestBus {source address : UInt8} {r : Request} {flag : FlagDue}
    {isExternal : Bool} (hi : r.Arbitrating source flag)
    (haddress : isExternal = false → address = source) :
    (r.requestBus address isExternal).1.Arbitrating source flag := by
  unfold Request.requestBus
  by_cases havailable : r.busAvailable = true
  · have hobserve : r.state = .observe := by
      by_contra hs
      have hresult := hi.result hs
      simp [busAvailable] at havailable
      exact hresult havailable.1.1
    simp only [havailable, if_true]
    exact ⟨fun hs => absurd hobserve hs, fun hs => by simp [hobserve] at hs,
      fun hs => by simp [hobserve] at hs, fun hown _ => haddress hown⟩
  · simp only [havailable]
    exact hi

end Request

namespace Handler

/-- The request after an event is that of the arbitration machine, or the engine has asked
for the bus in its resting state. -/
structure Asks (h d : Handler) : Prop where
  request : d.request = h.request ∨ d.state = .passiveReceiveMaster ∧
    d.request = (h.request.requestBus h.sourceAddress false).1
  source : d.sourceAddress = h.sourceAddress
  waiting : d.state = .requestBus → h.state = .requestBus ∧
    (h.lastResult = .firstSyn ∨ h.lastResult = .firstRetry ∨ h.lastResult = .retrySyn)
  exchanging : d.state.exchanging = true → h.state.exchanging = true ∨
    h.state = .requestBus ∧ (h.lastResult = .firstWon ∨ h.lastResult = .secondWon)

theorem receiveSyn_asks {h : Handler} (hs : h.state = .passiveReceiveMaster) :
    Asks h h.receiveSyn := by
  obtain ⟨hrequest', hsource', hstate', -⟩ := h.checkPassiveBuffers_kept
  obtain ⟨hrequest, hsource, hstate⟩ := h.checkPassiveBuffers.checkActiveBuffers_kept
  rw [hrequest'] at hrequest
  rw [hsource'] at hsource
  rw [hstate', hs] at hstate
  unfold receiveSyn
  dsimp only
  split
  · exact ⟨.inr ⟨hstate, by rw [hrequest, hsource]⟩, hsource, by simp [hstate],
      by simp [hstate, HandlerState.exchanging, HandlerState.engaged]⟩
  · exact ⟨.inl hrequest, hsource, by simp [hstate],
      by simp [hstate, HandlerState.exchanging, HandlerState.engaged]⟩

theorem Branch.asks {h d : Handler} {byte : UInt8} {response : Sequence}
    (hb : Branch h byte response d) : Asks h d := by
  cases hb
  case syn hs _ => exact receiveSyn_asks hs
  case refused ht =>
    obtain ⟨-, rfl⟩ | ⟨-, rfl⟩ := ht <;> subst_vars <;> constructor <;>
      simp [HandlerState.exchanging, HandlerState.engaged]
  all_goals
    subst_vars
    constructor <;> simp [HandlerState.exchanging, HandlerState.engaged, *]

/-- The engine before its state function, when the event has no start bit. -/
theorem ready_eq (h : Handler) {event : BusEvent} (hquiet : event.startBit = false) :
    h.ready event =
      { h with request := (h.request.afterFlag event.busRequest).run event.byte
               lastResult := ((h.request.afterFlag event.busRequest).run event.byte).result
               pendingWrite := none
               state := h.requestedState event } := by
  simp [ready, afterFlags, hquiet, afterBusRequest_eq, afterRequest, Request.afterFlag]

end Handler

namespace Line

/-- What holds between the events of the byte readers. -/
structure Orderly (l : Line) : Prop where
  source : isMaster l.handler.sourceAddress = true
  arbitrating : l.handler.request.Arbitrating l.handler.sourceAddress l.flag
  waiting : l.handler.state = .requestBus →
    l.handler.request.externalBusRequest = false ∧ l.handler.request.result ≠ .observeSyn
  exchanging : l.handler.state.exchanging = true → l.handler.request.Pending l.flag →
    l.handler.request.externalBusRequest = true

/-- During an own exchange only the external user can have a request, and its flag does not
concern the engine. -/
theorem Orderly.requestedState {l : Line} (hi : l.Orderly) {event : BusEvent}
    (hstate : l.handler.state.exchanging = true)
    (honly : event.busRequest = true → l.flag ≠ .none ∨ l.pendingSyn event.byte = true) :
    l.handler.requestedState event = l.handler.state := by
  unfold Handler.requestedState
  split
  · rename_i hflag
    have hpending : l.handler.request.Pending l.flag := by
      obtain hdue | hsyn := honly hflag.1
      · exact .inr (.inr hdue)
      · exact .inl (by simp_all [pendingSyn])
    have hexternal := hi.exchanging hstate hpending
    rw [hflag.2.1] at hexternal
    cases hexternal
  · rfl

/-- The engine waits for the bus in its own name. -/
theorem Orderly.own_of_requestBus {l : Line} (hi : l.Orderly) {event : BusEvent}
    (hs : l.handler.requestedState event = .requestBus) :
    l.handler.request.externalBusRequest = false := by
  unfold Handler.requestedState at hs
  split at hs
  · rename_i hflag
    exact hflag.2.1
  · exact (hi.waiting hs).1

/-- An event is one branch of the engine; the byte it leaves to write comes last. -/
theorem busEvent_rule (l : Line) {event : BusEvent} (response : Sequence)
    (hquiet : event.startBit = false) :
    ∃ d, Handler.Branch
        { l.handler with
          request := (l.handler.request.afterFlag event.busRequest).run event.byte
          lastResult := ((l.handler.request.afterFlag event.busRequest).run event.byte).result
          pendingWrite := none
          state := l.handler.requestedState event
          log := [] } event.byte response d ∧
      (l.busEvent event response).handler = d.flush := by
  obtain ⟨d, hbranch, heq⟩ := BusHandler.onBusEvent_branch { l.handler with log := [] } event
    response
  rw [Handler.ready_eq _ hquiet] at hbranch
  exact ⟨d, hbranch, heq⟩

theorem busEvent_flag (l : Line) (event : BusEvent) (response : Sequence) :
    (l.busEvent event response).flag = l.handler.request.flagAfter event := rfl

theorem Orderly.busEvent {l : Line} (hi : l.Orderly) {event : BusEvent} {response : Sequence}
    (hproduced : l.Produced (.busEvent event response)) :
    (l.busEvent event response).Orderly := by
  obtain ⟨hquiet, hdue, honly⟩ := hproduced
  obtain ⟨d, hbranch, heq⟩ := l.busEvent_rule response hquiet
  obtain ⟨request, source, waiting, exchanging⟩ := hbranch.asks
  dsimp only at request source waiting exchanging
  have hafter := hi.arbitrating.after honly
  have hexternal : ((l.handler.request.afterFlag event.busRequest).run
      event.byte).externalBusRequest = l.handler.request.externalBusRequest :=
    (Request.run_move _ _).2.2.trans (Request.afterFlag_address _ _).2
  have hrequest := d.flush_request
  have hsource := d.flush_sourceAddress
  have hstate := d.flush_state
  constructor
  · rw [heq, hsource, source]
    exact hi.source
  · rw [heq, busEvent_flag, hrequest, hsource, source]
    obtain hsame | ⟨-, hask⟩ := request
    · rw [hsame]
      exact hafter
    · rw [hask]
      exact hafter.requestBus fun _ => rfl
  · rw [heq, hstate, hrequest]
    intro hs
    obtain ⟨hbefore, hresult⟩ := waiting hs
    have hsame : d.request = _ := request.resolve_right (by simp [hs])
    rw [hsame, hexternal]
    exact ⟨hi.own_of_requestBus hbefore, by obtain hr | hr | hr := hresult <;> simp [hr]⟩
  · rw [heq, hstate, hrequest, busEvent_flag]
    intro hs hpending
    have hsame : d.request = _ := request.resolve_right (by
      rintro ⟨hrest, -⟩
      simp [hrest, HandlerState.exchanging, HandlerState.engaged] at hs)
    rw [hsame] at hpending ⊢
    rw [hexternal]
    obtain hbefore | ⟨hbefore, hwon⟩ := exchanging hs
    · exact hi.exchanging (Handler.requestedState_exchanging hbefore)
        (Request.pending_of_event honly hpending)
    · exact absurd hpending (Request.settled_of_won hi.arbitrating hdue honly hi.source
        (hi.own_of_requestBus hbefore) hwon)

/-- Only these parts of the engine matter here. -/
theorem Orderly.congr {l l' : Line} (hi : l.Orderly) (hflag : l'.flag = l.flag)
    (hrequest : l'.handler.request = l.handler.request)
    (hsource : l'.handler.sourceAddress = l.handler.sourceAddress)
    (hstate : l'.handler.state = l.handler.state) : l'.Orderly := by
  refine ⟨?_, ?_, ?_, ?_⟩
  · rw [hsource]
    exact hi.source
  · rw [hrequest, hsource, hflag]
    exact hi.arbitrating
  · rw [hrequest, hstate]
    exact hi.waiting
  · rw [hrequest, hstate, hflag]
    exact hi.exchanging

theorem Orderly.requestExternal {l : Line} (hi : l.Orderly) (address : UInt8) :
    (l.step (.requestExternal address)).Orderly := by
  by_cases havailable : l.handler.request.busAvailable = true
  · have hresult : l.handler.request.result = .observeSyn := by
      simp [Request.busAvailable] at havailable
      exact havailable.1.1
    refine ⟨hi.source, hi.arbitrating.requestBus (by simp), ?_, ?_⟩
    · intro hs
      exact absurd hresult (hi.waiting hs).2
    · intro _ _
      simp [Line.step, BusHandler.step, Request.requestBus, havailable]
  · refine hi.congr rfl ?_ rfl rfl
    simp [Line.step, BusHandler.step, Request.requestBus, havailable]

/-- A reset of the arbitration leaves its user and its address, and nothing pending that was
not pending before. -/
theorem Orderly.resetRequest {l : Line} (hi : l.Orderly) : (l.step .resetRequest).Orderly := by
  have hreset : (l.step .resetRequest).handler.request =
      { l.handler.request with lockCounter := l.handler.request.lockCounterMax, bytesSinceSyn := 0
                               busRequest := false, state := .observe } :=
    Request.transitionTo_observe _
  have hpending (h : (l.step .resetRequest).handler.request.Pending l.flag) :
      l.handler.request.Pending l.flag := by
    rw [hreset] at h
    obtain hrequest | hstate | hflag := h
    · cases hrequest
    · exact absurd rfl hstate
    · exact .inr (.inr hflag)
  refine ⟨hi.source, ⟨?_, ?_, ?_, ?_⟩, ?_, ?_⟩
  · rw [hreset]
    exact fun hs => absurd rfl hs
  · rw [hreset]
    exact fun _ => rfl
  · rw [hreset]
    exact fun hs => by cases hs
  · intro hown h
    have hbefore := hpending h
    rw [hreset] at hown ⊢
    exact hi.arbitrating.own hown hbefore
  · rw [hreset]
    exact hi.waiting
  · intro hs h
    have hbefore := hpending h
    rw [hreset]
    exact hi.exchanging hs hbefore

theorem Orderly.step {l : Line} (hi : l.Orderly) {action : Action} (hproduced : l.Produced action) :
    (l.step action).Orderly := by
  cases action with
  | busEvent event response => exact hi.busEvent hproduced
  | suppressedSyn =>
      obtain ⟨hrequest, hexternal⟩ := hproduced
      refine ⟨hi.source, ⟨hi.arbitrating.result, hi.arbitrating.first, fun _ _ => rfl, ?_⟩,
        hi.waiting, fun _ _ => hexternal⟩
      intro hown
      exact absurd (hexternal.symm.trans hown) (by decide)
  | sendActiveMessage message =>
      obtain heq | ⟨t, -, -, -, heq⟩ | ⟨t, -, -, -, heq⟩ :=
        l.handler.sendActiveMessage_cases message <;> refine hi.congr rfl ?_ ?_ ?_ <;>
        simp [Line.step, Line.sendActiveMessage, heq]
  | requestExternal address => exact hi.requestExternal address
  | resetRequest => exact hi.resetRequest
  | setLockCounter lockCounter =>
      exact ⟨hi.source, ⟨hi.arbitrating.1, hi.arbitrating.2, hi.arbitrating.3, hi.arbitrating.4⟩,
        hi.waiting, hi.exchanging⟩

end Line

end Ebus
