import Ebus.Verification.Arbitration

/-!
# Requests that nobody waits for

A request for the bus makes the byte reader write an address, whoever waits for it. It is
set with the call that asks for the bus and once more, inside the machine, when the first
round ends in a collision; the message it stands for is dropped by the engine. This module
says which events and resets leave a request without a message, or pending behind the end of
its arbitration, and shows that there are no others.
-/

namespace Ebus

namespace Request

/-- The results that end an arbitration. -/
def ends : RequestResult → Bool
  | .firstWon | .firstLost | .firstError | .retryError | .secondWon | .secondLost
  | .secondError => true
  | _ => false

/-- Another master of the own priority class has written its address as well. -/
def collides (r : Request) (byte : UInt8) : Bool :=
  byte != Symbols.syn && byte != r.requestAddress && isMaster byte &&
    byte &&& 0x0f == r.requestAddress &&& 0x0f

/-- A byte arms a request only in a collision of the first round. -/
theorem busRequest_of_run {r : Request} {byte : UInt8} (h : (r.run byte).busRequest = true) :
    r.busRequest = true ∨
      r.state = .first ∧ r.collides byte = true ∧ (r.run byte).result = .firstRetry := by
  cases hrequest : r.busRequest with
  | true => exact .inl rfl
  | false =>
      right
      have hmove := (r.run_move byte).1
      have hfirst (hs : r.state = .first) : r.collides byte = true := by
        rw [run, hs] at h
        simp only [first] at h
        split_ifs at h with hsyn hown hmaster hclass
        · simp [@transitionTo_of_permitted r .first (by rw [hs]; decide),
            hrequest] at h
        · simp [transitionTo_observe, hrequest] at h
        · simp [collides, hsyn, hown, hmaster, hclass]
        · simp [transitionTo_observe, hrequest] at h
        · simp [transitionTo_observe, hrequest] at h
      generalize (r.run byte).state = state, (r.run byte).busRequest = request,
        (r.run byte).result = result at hmove h
      cases hmove <;> simp_all

/-- Outside `observe` no byte is merely observed. -/
theorem run_result_of_busy {r : Request} (hs : r.state ≠ .observe) (byte : UInt8) :
    (r.run byte).result ≠ .observeSyn ∧ (r.run byte).result ≠ .observeData := by
  have hmove := (r.run_move byte).1
  generalize (r.run byte).state = state, (r.run byte).busRequest = request,
    (r.run byte).result = result at hmove ⊢
  cases hmove
  case observed hobserve _ => exact absurd hobserve hs
  case firstLost hresult => obtain rfl | rfl := hresult <;> simp
  case secondLost hresult => obtain rfl | rfl := hresult <;> simp
  all_goals simp

theorem run_result_ne (r : Request) (byte : UInt8) (hs : (r.run byte).state ≠ .observe) :
    (r.run byte).result ≠ .observeSyn := by
  have hmove := (r.run_move byte).1
  generalize (r.run byte).state = state, (r.run byte).busRequest = request,
    (r.run byte).result = result at hmove hs ⊢
  cases hmove <;> simp_all

/-- In the states where a round of the arbitration is decided nothing is pending any more. -/
structure Withdrawn (r : Request) (byte : UInt8) : Prop where
  first : r.state = .first → r.busRequest = false
  retry : r.state = .retry → byte ≠ Symbols.syn → r.busRequest = false
  second : r.state = .second → r.busRequest = false

/-- An arbitration that ends leaves nothing pending. -/
theorem Withdrawn.of_ends {r : Request} {byte : UInt8} (h : r.Withdrawn byte)
    (hends : ends (r.run byte).result = true) : (r.run byte).busRequest = false := by
  have hmove := (r.run_move byte).1
  generalize (r.run byte).state = state, (r.run byte).busRequest = request,
    (r.run byte).result = result at hmove hends ⊢
  cases hmove
  case observed hresult => obtain rfl | rfl := hresult <;> cases hends
  case firstWon hs _ _ => exact h.first hs
  case firstLost hs _ _ => exact h.first hs
  case retryError hs hbyte => exact h.retry hs hbyte
  case secondWon hs _ => exact h.second hs
  case secondLost hs _ => exact h.second hs
  all_goals cases hends

theorem Withdrawn.first_run {r : Request} {byte : UInt8} (h : r.Withdrawn byte)
    (hs : (r.run byte).state = .first) : (r.run byte).busRequest = false := by
  have hmove := (r.run_move byte).1
  generalize (r.run byte).state = state, (r.run byte).busRequest = request,
    (r.run byte).result = result at hmove hs ⊢
  cases hmove
  case firstSyn hfirst _ => exact h.first hfirst
  all_goals cases hs

/-- A request changes neither the round nor the last result. -/
theorem requestBus_keeps (r : Request) (address : UInt8) (isExternal : Bool) :
    (r.requestBus address isExternal).1.state = r.state ∧
      (r.requestBus address isExternal).1.result = r.result := by
  unfold requestBus
  cases r.busAvailable <;> exact ⟨rfl, rfl⟩

/-- A request that is accepted finds the machine observing. -/
theorem requestBus_pending {r : Request} {address : UInt8} {isExternal : Bool}
    (h : (r.requestBus address isExternal).1.busRequest = true) :
    r.busRequest = true ∨ r.result = .observeSyn := by
  unfold requestBus at h
  cases havailable : r.busAvailable with
  | true =>
      simp [busAvailable] at havailable
      exact .inr havailable.1.1
  | false =>
      rw [havailable] at h
      exact .inl h

end Request

namespace Handler

/-- What an event does to the request and to the message it stands for. -/
structure Stands (h d : Handler) : Prop where
  request : d.request = h.request ∨
    d.state = .passiveReceiveMaster ∧ d.activeMessage = true ∧ d.activeMaster.bytes = [] ∧
      d.activeSlave.bytes = [] ∧ d.request = (h.request.requestBus h.sourceAddress false).1
  idle : h.state.engaged = false → d.state.engaged = false
  kept : h.state.engaged = false → h.activeMaster.bytes = [] → h.activeSlave.bytes = [] →
    d.activeMessage = h.activeMessage ∧ d.activeMaster.bytes = [] ∧ d.activeSlave.bytes = []
  waiting : h.state = .requestBus → Request.ends h.lastResult = false →
    h.lastResult ≠ .observeSyn → h.lastResult ≠ .observeData →
    d.state = .requestBus ∧ d.activeMessage = h.activeMessage

theorem receiveSyn_stands {h : Handler} (hs : h.state = .passiveReceiveMaster) :
    Stands h h.receiveSyn := by
  obtain ⟨hrequest, hsource, hstate, hmessage, hmaster, hslave⟩ := h.checkPassiveBuffers_kept
  rw [hs] at hstate
  unfold receiveSyn checkActiveBuffers
  generalize h.checkPassiveBuffers = p at *
  by_cases hfull : 0 < p.activeMaster.size ∨ 0 < p.activeSlave.size
  · simp only [if_pos hfull]
    refine ⟨.inl (by simpa using hrequest), fun _ => by simp [hstate, HandlerState.engaged],
      fun _ hm hsl => ?_, by simp [hs]⟩
    rw [hmaster, hslave] at hfull
    simp [Sequence.size, hm, hsl] at hfull
  · simp only [if_neg hfull]
    have hempty : p.activeMaster.bytes = [] ∧ p.activeSlave.bytes = [] := by
      simpa [Sequence.size] using hfull
    split
    · rename_i hsend
      exact ⟨.inr ⟨hstate, hsend, hempty.1, hempty.2, by rw [hrequest, hsource]⟩,
        fun _ => by simp [hstate, HandlerState.engaged],
        fun _ _ _ => ⟨hmessage, hempty.1, hempty.2⟩, by simp [hs]⟩
    · exact ⟨.inl hrequest, fun _ => by simp [hstate, HandlerState.engaged],
        fun _ _ _ => ⟨hmessage, hempty.1, hempty.2⟩, by simp [hs]⟩

theorem Branch.stands {h d : Handler} {byte : UInt8} {response : Sequence}
    (hb : Branch h byte response d) : Stands h d := by
  cases hb
  case syn hs _ => exact receiveSyn_stands hs
  case refused ht =>
    obtain ⟨-, rfl⟩ | ⟨-, rfl⟩ := ht <;> subst_vars <;> constructor <;>
      simp_all [HandlerState.engaged, Request.ends]
  case won hs hresult _ _ =>
    subst_vars
    constructor <;> simp_all [HandlerState.engaged]
    intro hends
    obtain hr | hr := hresult <;> simp [hr, Request.ends] at hends
  case wonEmpty hs hresult _ _ =>
    subst_vars
    constructor <;> simp_all [HandlerState.engaged]
    intro hends
    obtain hr | hr := hresult <;> simp [hr, Request.ends] at hends
  case lost hs hresult =>
    constructor <;> simp_all [HandlerState.engaged]
    intro hends
    obtain hr | hr | hr | hr := hresult <;> simp [hr, Request.ends] at hends
  case failed hs hresult =>
    constructor <;> simp_all [HandlerState.engaged]
    intro hends
    obtain hr | hr | hr := hresult <;> simp [hr, Request.ends] at hends ⊢
  all_goals
    subst_vars
    constructor <;> simp [HandlerState.engaged, *]
  -- outside an exchange nothing is buffered for the own message
  all_goals exact And.intro

/-- The arbitration machine when the flags of an event are dealt with. -/
theorem afterFlags_request (h : Handler) (event : BusEvent) :
    (h.afterFlags event).request =
      if event.startBit then (h.request.afterFlag event.busRequest).startBit
      else h.request.afterFlag event.busRequest := by
  unfold afterFlags
  split
  · simp [startBit, onStartBit, afterBusRequest_eq, Request.afterFlag]
  · simp [afterBusRequest_eq, Request.afterFlag]

/-- A request that is pending behind the flags was pending before, and there were none. -/
theorem busRequest_of_afterFlags {h : Handler} {event : BusEvent}
    (hpending : (h.afterFlags event).request.busRequest = true) :
    event.startBit = false ∧ event.busRequest = false ∧
      (h.afterFlags event).request = h.request := by
  rw [afterFlags_request] at hpending ⊢
  cases hstart : event.startBit with
  | true =>
      rw [hstart, if_pos rfl, Request.startBit] at hpending
      simp [Request.transitionTo_observe] at hpending
  | false =>
      rw [hstart, if_neg (by decide)] at hpending
      obtain ⟨hquiet, -⟩ := Request.busRequest_of_afterFlag hpending
      exact ⟨rfl, hquiet, by rw [hquiet]; rfl⟩

theorem afterFlags_external (h : Handler) (event : BusEvent) :
    (h.afterFlags event).request.externalBusRequest = h.request.externalBusRequest := by
  rw [afterFlags_request]
  split
  · rw [Request.startBit, Request.transitionTo_observe]
    exact (Request.afterFlag_address _ _).2
  · exact (Request.afterFlag_address _ _).2

end Handler

/-- The engine beside a record of the arbitrations: the last one has ended, and no request
has been accepted since. No function of the engine reads the record. -/
structure Docket where
  handler : Handler
  ended : Bool := false
  deriving DecidableEq, Repr

namespace Docket

open BusHandler (Action)

def step (l : Docket) (action : Action) : Docket :=
  let handler := BusHandler.step l.handler action
  { handler
    ended := match action with
      | .busEvent event _ =>
          let answer := (l.handler.afterFlags event).request.run event.byte
          if handler.request.busRequest && !answer.busRequest then false
          else Request.ends answer.result || l.ended
      | .requestExternal _ => !l.handler.request.busAvailable && l.ended
      | _ => l.ended }

/-- No request is left behind. A collision arms the request again only for a user that waits
for it; the next SYN takes this request before the round can end; and the engine is not reset
under its own request. -/
def Withdraws (l : Docket) : Action → Prop
  | .busEvent event _ =>
      let r := (l.handler.afterFlags event).request
      (r.state = .first → r.collides event.byte = true →
        l.ended = false ∧
          (r.externalBusRequest = false → l.handler.requestedState event = .requestBus)) ∧
      (r.state = .retry → event.byte ≠ Symbols.syn → r.busRequest = false) ∧
      (r.state = .second → r.busRequest = false)
  | .resetHandler =>
      l.handler.request.busRequest = true → l.handler.request.externalBusRequest = true
  | _ => True

instance (l : Docket) : (action : Action) → Decidable (l.Withdraws action)
  | .busEvent _ _ => inferInstanceAs (Decidable (_ ∧ _ ∧ _))
  | .resetHandler => inferInstanceAs (Decidable (_ → _))
  | .sendActiveMessage _ | .requestExternal _ | .resetRequest | .setLockCounter _ =>
      .isTrue trivial

/-- What holds between events: an own request stands for a message that the engine waits
with or will ask for again, and the machine is not asked in the middle of an arbitration. -/
structure Accounted (l : Docket) : Prop where
  own : l.handler.request.busRequest = true → l.handler.request.externalBusRequest = false →
    l.handler.activeMessage = true ∧ (l.handler.state = .requestBus ∨
      l.handler.state.engaged = false ∧ l.handler.activeMaster.bytes = [] ∧
        l.handler.activeSlave.bytes = [])
  ended : l.ended = true → l.handler.request.busRequest = false
  first : l.handler.request.state = .first → l.handler.request.busRequest = false
  result : l.handler.request.state ≠ .observe → l.handler.request.result ≠ .observeSyn
  waiting : l.handler.state = .requestBus → l.handler.activeMessage = true ∧
    l.handler.request.externalBusRequest = false ∧ l.handler.request.result ≠ .observeSyn ∧
    (l.handler.request.state = .observe → l.handler.request.busRequest = false)

section Event

variable {l : Docket} {event : BusEvent} {response : Sequence}

/-- Behind the flags nothing is pending in the first round. -/
theorem Accounted.withdrawn (hi : l.Accounted) (hok : l.Withdraws (.busEvent event response)) :
    (l.handler.afterFlags event).request.Withdrawn event.byte := by
  refine ⟨fun hs => ?_, hok.2.1, hok.2.2⟩
  by_contra hpending
  obtain ⟨-, -, heq⟩ := Handler.busRequest_of_afterFlags (by simpa using hpending)
  rw [heq] at hs hpending
  exact hpending (hi.first hs)

/-- When the engine waits for the bus, it is for its own message. -/
theorem Accounted.waits (hi : l.Accounted)
    (hs : l.handler.requestedState event = .requestBus) :
    l.handler.activeMessage = true ∧ l.handler.request.externalBusRequest = false := by
  unfold Handler.requestedState at hs
  split at hs
  · rename_i hflag
    exact ⟨hflag.2.2, hflag.2.1⟩
  · exact ⟨(hi.waiting hs).1, (hi.waiting hs).2.1⟩

/-- An own request that is pending behind the byte of an event: the engine goes on waiting
for it, or it was pending before and its message is not in use. -/
theorem Accounted.pending (hi : l.Accounted) (hok : l.Withdraws (.busEvent event response))
    (hpending : ((l.handler.afterFlags event).request.run event.byte).busRequest = true)
    (hown : l.handler.request.externalBusRequest = false) :
    event.startBit = false ∧
    (l.handler.requestedState event = .requestBus ∧
      Request.ends ((l.handler.afterFlags event).request.run event.byte).result = false ∧
      ((l.handler.afterFlags event).request.run event.byte).result ≠ .observeSyn ∧
      ((l.handler.afterFlags event).request.run event.byte).result ≠ .observeData ∨
    l.handler.requestedState event = l.handler.state ∧ l.handler.activeMessage = true ∧
      l.handler.state.engaged = false ∧ l.handler.activeMaster.bytes = [] ∧
        l.handler.activeSlave.bytes = []) := by
  have hwithdrawn := hi.withdrawn hok
  obtain hbefore | ⟨hfirst, hcollides, hresult⟩ := Request.busRequest_of_run hpending
  · obtain ⟨hstart, hflag, heq⟩ := Handler.busRequest_of_afterFlags hbefore
    have hstate : l.handler.requestedState event = l.handler.state := by
      simp [Handler.requestedState, hflag]
    rw [heq] at hbefore
    obtain ⟨hmessage, hwaits | hidle⟩ := hi.own hbefore hown
    · refine ⟨hstart, .inl ⟨hstate.trans hwaits, ?_, ?_⟩⟩
      · by_contra hends
        have hnone := hwithdrawn.of_ends (by simpa using hends)
        simp [hpending] at hnone
      · have hbusy : l.handler.request.state ≠ .observe := by
          intro hs
          simp [(hi.waiting hwaits).2.2.2 hs] at hbefore
        rw [heq]
        exact Request.run_result_of_busy hbusy event.byte
    · exact ⟨hstart, .inr ⟨hstate, hmessage, hidle⟩⟩
  · have hstart : event.startBit = false := by
      by_contra htrue
      rw [Handler.afterFlags_request, if_pos (by simpa using htrue)] at hfirst
      simp [Request.startBit] at hfirst
    have hwaits := (hok.1 hfirst hcollides).2 (by rw [Handler.afterFlags_external]; exact hown)
    exact ⟨hstart, .inl ⟨hwaits, by rw [hresult]; rfl, by simp [hresult], by simp [hresult]⟩⟩

/-- Behind a start bit the machine observes. -/
theorem quiet_of_busy
    (hresult : ((l.handler.afterFlags event).request.run event.byte).result ≠ .observeSyn ∧
      ((l.handler.afterFlags event).request.run event.byte).result ≠ .observeData) :
    event.startBit = false := by
  by_contra hstart
  rw [Handler.afterFlags_request, if_pos (by simpa using hstart)] at hresult
  obtain h | h :=
    Request.run_startBit_result (l.handler.request.afterFlag event.busRequest) event.byte
  · exact hresult.1 h
  · exact hresult.2 h

/-- The message and its buffers are those of before, unless there is a start bit. -/
theorem ready_active (hquiet : event.startBit = false) :
    (l.handler.ready event).activeMessage = l.handler.activeMessage ∧
      (l.handler.ready event).activeMaster = l.handler.activeMaster ∧
      (l.handler.ready event).activeSlave = l.handler.activeSlave := by
  obtain ⟨request, hready⟩ := l.handler.ready_of_quiet event hquiet
  rw [hready]
  exact ⟨rfl, rfl, rfl⟩

section Answer

variable {d : Handler} {answer : Request} (hi : l.Accounted)
  (hok : l.Withdraws (.busEvent event response))
  (hanswer : answer = (l.handler.afterFlags event).request.run event.byte)

include hi hok hanswer

/-- The own request that is pending behind the byte stands for a message. -/
theorem Accounted.own_answer
    (hb : Handler.Branch (l.handler.ready event) event.byte response d)
    (hpending : answer.busRequest = true)
    (hown : l.handler.request.externalBusRequest = false) :
    d.activeMessage = true ∧ (d.state = .requestBus ∨
      d.state.engaged = false ∧ d.activeMaster.bytes = [] ∧ d.activeSlave.bytes = []) := by
  obtain ⟨-, hidle, hkept, hwaiting⟩ := hb.stands
  rw [Handler.ready_state] at hidle hkept hwaiting
  rw [hanswer] at hpending
  obtain ⟨hquiet, ⟨hs, hends, hsyn, hdata⟩ | ⟨hs, hmessage, hengaged, hmaster, hslave⟩⟩ :=
    hi.pending hok hpending hown
  · obtain ⟨hstate, hmessage⟩ := hwaiting hs hends hsyn hdata
    rw [(ready_active hquiet).1, (hi.waits hs).1] at hmessage
    exact ⟨hmessage, .inl hstate⟩
  · obtain ⟨hmessage', hmaster', hslave'⟩ := ready_active (l := l) hquiet
    rw [hs] at hkept hidle
    rw [hmessage', hmaster', hslave'] at hkept
    obtain ⟨hsame, hempty⟩ := hkept hengaged hmaster hslave
    exact ⟨hsame.trans hmessage, .inr ⟨hidle hengaged, hempty⟩⟩

/-- Nothing is pending behind the byte that ends an arbitration, nor as long as none is asked
for. -/
theorem Accounted.ended_answer (hend : (Request.ends answer.result || l.ended) = true) :
    answer.busRequest = false := by
  rw [hanswer] at hend ⊢
  by_contra hpending
  obtain hends | hbefore := Bool.or_eq_true_iff.mp hend
  · simp [(hi.withdrawn hok).of_ends hends] at hpending
  · obtain hold | ⟨hs, hcollides, -⟩ := Request.busRequest_of_run (by simpa using hpending)
    · obtain ⟨-, -, hrequest⟩ := Handler.busRequest_of_afterFlags hold
      rw [hrequest, hi.ended hbefore] at hold
      cases hold
    · simp [(hok.1 hs hcollides).1] at hbefore

omit hok in
/-- The engine waits on only for its own arbitration, and while it goes on. -/
theorem Accounted.waiting_answer
    (hb : Handler.Branch (l.handler.ready event) event.byte response d)
    (hs : d.state = .requestBus) :
    d.activeMessage = true ∧ l.handler.request.externalBusRequest = false ∧
      answer.result ≠ .observeSyn ∧ answer.state ≠ .observe := by
  obtain ⟨-, -, -, hwaiting⟩ := hb.stands
  obtain ⟨-, -, hwaits, -⟩ := hb.asks
  rw [Handler.ready_state] at hwaiting hwaits
  obtain ⟨hbefore, hwait⟩ := hwaits hs
  have hlast : (l.handler.ready event).lastResult = answer.result := by
    rw [hanswer]
    rfl
  rw [hlast] at hwait hwaiting
  have hbusy : Request.ends answer.result = false ∧ answer.result ≠ .observeSyn ∧
      answer.result ≠ .observeData := by
    obtain hr | hr | hr := hwait <;> rw [hr] <;> decide
  have hrounds : Request.Arbitrates answer.state answer.result := by
    rw [hanswer] at hwait ⊢
    exact Request.run_arbitrates _ _ hwait
  have hquiet : event.startBit = false := by
    apply quiet_of_busy (l := l)
    rw [← hanswer]
    exact hbusy.2
  obtain ⟨hmessage, hown⟩ := hi.waits hbefore
  have hkeeps := (hwaiting hbefore hbusy.1 hbusy.2.1 hbusy.2.2).2
  rw [(ready_active hquiet).1, hmessage] at hkeeps
  refine ⟨hkeeps, hown, hbusy.2.1, fun hobserve => ?_⟩
  rw [hobserve] at hrounds
  cases hrounds

/-- The engine and the machine behind the byte of an event, before the engine asks again. -/
theorem Accounted.answered
    (hb : Handler.Branch (l.handler.ready event) event.byte response d) :
    Accounted { handler := { d with request := answer }
                ended := Request.ends answer.result || l.ended } := by
  have hexternal : answer.externalBusRequest = l.handler.request.externalBusRequest := by
    rw [hanswer, (Request.run_move _ _).2.2, Handler.afterFlags_external]
  refine ⟨fun hpending hown => ?_, hi.ended_answer hok hanswer, fun hs => ?_, fun hs => ?_,
    fun hs => ?_⟩
  · have hstands := hi.own_answer hok hanswer hb hpending (hexternal.symm.trans hown)
    exact hstands
  · dsimp only at hs ⊢
    rw [hanswer] at hs ⊢
    exact (hi.withdrawn hok).first_run hs
  · dsimp only at hs ⊢
    rw [hanswer] at hs ⊢
    exact Request.run_result_ne _ _ hs
  · obtain ⟨hmessage, hown, hresult, hbusy⟩ := hi.waiting_answer hanswer hb hs
    exact ⟨hmessage, hexternal.trans hown, hresult, fun hobserve => absurd hobserve hbusy⟩

end Answer

/-- The engine asks for the bus where it awaits a master part. -/
theorem Accounted.asks (hi : l.Accounted) (hstate : l.handler.state = .passiveReceiveMaster)
    (hmessage : l.handler.activeMessage = true) (hmaster : l.handler.activeMaster.bytes = [])
    (hslave : l.handler.activeSlave.bytes = []) (address : UInt8) :
    let request := (l.handler.request.requestBus address false).1
    Accounted { handler := { l.handler with request }
                ended := if request.busRequest && !l.handler.request.busRequest then false
                  else l.ended } := by
  obtain ⟨hround, hlast⟩ := l.handler.request.requestBus_keeps address false
  refine ⟨fun _ _ => ?_, fun hend => ?_, fun hs => ?_, fun hs => ?_, fun hs => ?_⟩
  · exact ⟨hmessage, .inr ⟨by simp [hstate, HandlerState.engaged], hmaster, hslave⟩⟩
  · dsimp only at hend ⊢
    by_contra hpending
    have hpending := eq_true_of_ne_false hpending
    cases hbefore : l.handler.request.busRequest with
    | false => simp [hpending, hbefore] at hend
    | true =>
        have hended : l.ended = true := by simpa [hbefore] using hend
        simp [hi.ended hended] at hbefore
  · dsimp only at hs ⊢
    rw [hround] at hs
    by_contra hpending
    obtain hbefore | hsyn := Request.requestBus_pending (by simpa using hpending)
    · simp [hi.first hs] at hbefore
    · exact hi.result (by simp [hs]) hsyn
  · dsimp only at hs ⊢
    rw [hround] at hs
    rw [hlast]
    exact hi.result hs
  · simp [hstate] at hs

theorem Accounted.withLog (hi : l.Accounted) (log : List Effect) :
    Accounted { l with handler := { l.handler with log } } :=
  ⟨hi.own, hi.ended, hi.first, hi.result, hi.waiting⟩

theorem Accounted.busEvent (hi : l.Accounted) (hok : l.Withdraws (.busEvent event response)) :
    (l.step (.busEvent event response)).Accounted := by
  obtain ⟨d, hb, heq⟩ := BusHandler.onBusEvent_branch l.handler event response
  obtain ⟨log, hflush⟩ := d.flush_eq
  obtain ⟨answer, hanswer⟩ : ∃ answer, answer =
    (l.handler.afterFlags event).request.run event.byte := ⟨_, rfl⟩
  have hanswered := hi.answered hok hanswer hb
  have hstep : l.step (.busEvent event response) =
      { handler := { d with log }
        ended := if d.request.busRequest && !answer.busRequest then false
          else Request.ends answer.result || l.ended } := by
    rw [hanswer]
    simp only [Docket.step, BusHandler.step, heq, hflush]
  have hready : (l.handler.ready event).request = answer := by
    rw [hanswer]
    rfl
  obtain ⟨hrequest, -, -, -⟩ := hb.stands
  rw [hready] at hrequest
  rw [hstep]
  obtain hrequest | ⟨hstate, hmessage, hmaster, hslave, hasked⟩ := hrequest
  · -- the engine leaves the request alone
    have hlogged := hanswered.withLog log
    rw [← hrequest] at hlogged ⊢
    simpa using hlogged
  · -- the engine asks for the bus
    have hlogged := (hanswered.asks hstate hmessage hmaster hslave
      (l.handler.ready event).sourceAddress).withLog log
    dsimp only at hlogged
    rwa [← hasked] at hlogged

end Event

theorem Accounted.requestExternal {l : Docket} (hi : l.Accounted) (address : UInt8) :
    (l.step (.requestExternal address)).Accounted := by
  have hrequest : (l.step (.requestExternal address)).handler =
      { l.handler with request := (l.handler.request.requestBus address true).1 } := rfl
  have hended : (l.step (.requestExternal address)).ended =
      (!l.handler.request.busAvailable && l.ended) := rfl
  unfold Request.requestBus at hrequest
  cases havailable : l.handler.request.busAvailable with
  | true =>
      rw [havailable] at hrequest hended
      have hsyn : l.handler.request.result = .observeSyn := by
        simp [Request.busAvailable] at havailable
        exact havailable.1.1
      have hobserve : l.handler.request.state = .observe := by
        by_contra hs
        exact hi.result hs hsyn
      refine ⟨?_, ?_, ?_, ?_, ?_⟩
      · rw [hrequest]
        exact fun _ hown => by cases hown
      · rw [hended]
        exact fun hend => by cases hend
      · rw [hrequest]
        exact fun hs => by simp [hobserve] at hs
      · rw [hrequest]
        exact fun hs => absurd hobserve hs
      · rw [hrequest]
        exact fun hs => absurd hsyn (hi.waiting hs).2.2.1
  | false =>
      rw [havailable] at hrequest hended
      exact ⟨by rw [hrequest]; exact hi.own, by rw [hrequest, hended]; exact hi.ended,
        by rw [hrequest]; exact hi.first, by rw [hrequest]; exact hi.result,
        by rw [hrequest]; exact hi.waiting⟩

theorem Accounted.resetRequest {l : Docket} (hi : l.Accounted) :
    (l.step .resetRequest).Accounted := by
  have hrequest : (l.step .resetRequest).handler.request =
      { l.handler.request with lockCounter := l.handler.request.lockCounterMax, bytesSinceSyn := 0
                               busRequest := false, state := .observe } :=
    Request.transitionTo_observe _
  refine ⟨?_, ?_, ?_, ?_, ?_⟩
  · rw [hrequest]
    exact fun hpending => by cases hpending
  · rw [hrequest]
    exact fun _ => rfl
  · rw [hrequest]
    exact fun _ => rfl
  · rw [hrequest]
    exact fun hs => absurd rfl hs
  · rw [hrequest]
    exact fun hs => ⟨(hi.waiting hs).1, (hi.waiting hs).2.1, (hi.waiting hs).2.2.1, fun _ => rfl⟩

theorem Accounted.resetHandler {l : Docket} (hi : l.Accounted)
    (hok : l.Withdraws .resetHandler) : (l.step .resetHandler).Accounted := by
  have hreset : (l.step .resetHandler).handler.request = l.handler.request ∧
      (l.step .resetHandler).handler.state = .passiveReceiveMaster := by
    change l.handler.reset.request = _ ∧ l.handler.reset.state = _
    rw [Handler.reset_eq]
    exact ⟨rfl, rfl⟩
  obtain ⟨hrequest, hstate⟩ := hreset
  refine ⟨?_, by rw [hrequest]; exact hi.ended, by rw [hrequest]; exact hi.first,
    by rw [hrequest]; exact hi.result, by simp [hstate]⟩
  rw [hrequest]
  intro hpending hown
  have hexternal := hok hpending
  rw [hown] at hexternal
  cases hexternal

theorem Accounted.sendActiveMessage {l : Docket} (hi : l.Accounted) (message : List UInt8) :
    (l.step (.sendActiveMessage message)).Accounted := by
  obtain ⟨own, ended, first, result, waiting⟩ := hi
  have hhandler : (l.step (.sendActiveMessage message)).handler =
      (l.handler.sendActiveMessage message).1 := rfl
  have hfree (hmessage : l.handler.activeMessage = false) :
      l.handler.request.busRequest = true → l.handler.request.externalBusRequest ≠ false := by
    intro hpending hown
    simp [(own hpending hown).1] at hmessage
  have hrest (hmessage : l.handler.activeMessage = false) : l.handler.state ≠ .requestBus := by
    intro hs
    simp [(waiting hs).1] at hmessage
  obtain heq | ⟨t, -, hmessage, -, heq⟩ | ⟨t, -, hmessage, -, heq⟩ :=
    l.handler.sendActiveMessage_cases message
  · rw [heq] at hhandler
    exact ⟨by rw [hhandler]; exact own, by rw [hhandler]; exact ended,
      by rw [hhandler]; exact first, by rw [hhandler]; exact result,
      by rw [hhandler]; exact waiting⟩
  · rw [heq] at hhandler
    exact ⟨by rw [hhandler]; exact fun hp ho => absurd ho (hfree hmessage hp),
      by rw [hhandler]; exact ended, by rw [hhandler]; exact first,
      by rw [hhandler]; exact result, by rw [hhandler]; exact fun hs => absurd hs (hrest hmessage)⟩
  · rw [heq] at hhandler
    exact ⟨by rw [hhandler]; exact fun hp ho => absurd ho (hfree hmessage hp),
      by rw [hhandler]; exact ended, by rw [hhandler]; exact first,
      by rw [hhandler]; exact result, by rw [hhandler]; exact fun hs => absurd hs (hrest hmessage)⟩

theorem Accounted.step {l : Docket} (hi : l.Accounted) {action : Action}
    (hok : l.Withdraws action) : (Docket.step l action).Accounted := by
  cases action with
  | busEvent event response => exact hi.busEvent hok
  | sendActiveMessage message => exact hi.sendActiveMessage message
  | resetHandler => exact hi.resetHandler hok
  | requestExternal address => exact hi.requestExternal address
  | resetRequest => exact hi.resetRequest
  | setLockCounter lockCounter => exact ⟨hi.own, hi.ended, hi.first, hi.result, hi.waiting⟩

/-- An own request stands for a message. -/
def OwnHasMessage (l : Docket) : Prop :=
  l.handler.request.busRequest = true → l.handler.request.externalBusRequest = false →
    l.handler.activeMessage = true

/-- Behind the end of an arbitration nothing is pending until a request is accepted. -/
def EndsWithdrawn (l : Docket) : Prop := l.ended = true → l.handler.request.busRequest = false

instance (l : Docket) : Decidable l.OwnHasMessage := inferInstanceAs (Decidable (_ → _))

instance (l : Docket) : Decidable l.EndsWithdrawn := inferInstanceAs (Decidable (_ → _))

/-- In every run that leaves no request behind, no request is an orphan. -/
theorem run_no_orphan (address : UInt8) (actions : List Action)
    (hok : Runs.Meets step Withdraws { handler := Handler.create address {} } actions) :
    (Runs.run step { handler := Handler.create address {} } actions).OwnHasMessage ∧
      (Runs.run step { handler := Handler.create address {} } actions).EndsWithdrawn := by
  have hi := Runs.invariant (I := Accounted) (fun _ _ hi hok => hi.step hok)
    ⟨by simp [Handler.create], by simp, by simp [Handler.create], by simp [Handler.create],
      by simp [Handler.create]⟩ hok
  exact ⟨fun hpending hown => (hi.own hpending hown).1, hi.ended⟩

/-- The own message waits for the bus and another master of its class asks as well. -/
def collision : List Action :=
  .sendActiveMessage [0x08, 0x07, 0x04, 0x00] :: BusHandler.feed [0xaa, 0xaa, 0xaa] ++
    [.busEvent { byte := 0xaa, busRequest := true } {}] ++ BusHandler.feed [0x3f]

/-- The second round is won. -/
theorem run_no_orphan_secondRound :
    (Runs.run step { handler := Handler.create 0xff {} } (collision ++
      [.busEvent { byte := 0xaa, busRequest := true } {}] ++
        BusHandler.feed [0xff])).OwnHasMessage ∧
    (Runs.run step { handler := Handler.create 0xff {} } (collision ++
      [.busEvent { byte := 0xaa, busRequest := true } {}] ++
        BusHandler.feed [0xff])).EndsWithdrawn :=
  run_no_orphan 0xff _ (by decide)

/-- Noise instead of the SYN ends the arbitration with its request armed, and a reset of the
engine leaves a request behind that waits for its first round. -/
theorem orphan_after_noise :
    ¬ (∀ (address : UInt8) (actions : List Action),
      (Runs.run step { handler := Handler.create address {} } actions).OwnHasMessage ∧
        (Runs.run step { handler := Handler.create address {} } actions).EndsWithdrawn) ∧
    ¬ (Runs.run step { handler := Handler.create 0xff {} }
        (collision ++ BusHandler.feed [0x00])).EndsWithdrawn ∧
    ¬ (Runs.run step { handler := Handler.create 0xff {} }
        (.sendActiveMessage [0x08, 0x07, 0x04, 0x00] :: BusHandler.feed [0xaa, 0xaa, 0xaa] ++
          [.resetHandler])).OwnHasMessage := by
  refine ⟨?_, by decide, by decide⟩
  intro hall
  have hnoise := (hall 0xff (collision ++ BusHandler.feed [0x00])).1
  exact absurd hnoise (by decide)

end Docket

end Ebus
