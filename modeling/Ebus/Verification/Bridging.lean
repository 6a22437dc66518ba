import Ebus.Verification.Orderly
import Ebus.Verification.Clients

/-!
# Order and echo of the bytes of a session

Both threads take bytes of the active client and write them, and the mutex is not held
between the look at the session, the byte taken and the write. As long as neither thread
touches the session while the other one is in between, the bytes reach the bus in the
order of the queue, and each one is read back before the next is written.

The second condition is about the bytes that a client takes for an echo: a won
arbitration may be another one's, a data byte may equal the last byte taken before the
session has the bus, and an enhanced client compares with the byte that it has queued last.
-/

namespace Ebus

namespace ClientManager

variable (m : ClientManager)

/-- The client is there and has a byte for the bus. -/
def hasByte (client : Nat) : Bool :=
  (m.clients[client]?).any fun c => c.isConnected && c.hasPendingIncomingData

/-- The section takes a byte of a client or hands one to the bus. -/
def sends : Section → Bool
  | .takeAddress client => m.request.busAvailable && m.hasByte client
  | .trySendNextByte client => m.hasByte client
  | .requestBus _ _ | .writeByte _ => true
  | _ => false

/-- The section moves the session on or ends it. -/
def moves : Section → Bool
  | .onBusRequested => m.sessionState = .request && m.currentActiveSender.isSome
  | .bypassWait => true
  | .stopActiveSession => m.currentActiveSender.isSome
  | .handleActiveSenderDisconnected =>
      m.currentActiveSender.any fun client => !m.isConnected client
  | _ => false

end ClientManager

namespace Bridge

/-- The byte that a client takes for an echo is one. The arbitration that it is told to have won
is the one for its address; a data byte that equals the last byte taken comes when the session
has the bus, and an enhanced client has not queued another byte since. -/
def Echo (d : Bridge) : Section → Prop
  | .onBusByte client byte result => ∀ c ∈ d.manager.clients[client]?,
      (result = .firstWon ∨ result = .secondWon → d.session.sent = [byte]) ∧
      (result = .observeData ∧ byte = c.lastSentByte → 0 < d.session.confirmed ∧
        (c.type = .enhanced → d.session.sent.getLast? = some byte))
  | _ => True

instance (d : Bridge) : (next : Section) → Decidable (d.Echo next)
  | .onBusByte client _ _ => inferInstanceAs (Decidable (∀ c ∈ d.manager.clients[client]?, _))
  | .runRequest _ | .onBusRequested | .onBusEventInfo _ _ | .bridge _ _ _ | .bypassWait
  | .checkRequest _ | .handleBusAvailableForSession | .takeAddress _ | .requestBus _ _
  | .handleIncomingStream _ _ | .handleSocketInput _ | .tryStartSessionForClient _
  | .startSession _ | .trySendNextByte _ | .writeByte _ | .stopActiveSession | .stopClient _
  | .resetRequest | .checkSessionTimeout _ | .handleActiveSenderDisconnected => .isTrue trivial

/-- A thread sends a byte, moves the session or ends it only while the other one does not go by
an earlier look at it; and the I/O thread sends only while the bus thread has no byte of the bus
for the session. -/
def Keeps (d : Bridge) : ClientManager.Action → Prop
  | .bus => ∀ next ∈ d.manager.bus.head?,
      (d.manager.sends next || d.manager.moves next → ∀ s ∈ d.manager.io, s.relies = false) ∧
      d.Echo next
  | .io => ∀ next ∈ d.manager.io.head?,
      (d.manager.sends next || d.manager.moves next → ∀ s ∈ d.manager.bus, s.relies = false) ∧
      (d.manager.sends next → ∀ s ∈ d.manager.bus, s.carries = false)
  | _ => True

instance (d : Bridge) : (action : ClientManager.Action) → Decidable (d.Keeps action)
  | .bus => inferInstanceAs (Decidable (∀ next ∈ d.manager.bus.head?, _))
  | .io => inferInstanceAs (Decidable (∀ next ∈ d.manager.io.head?, _))
  | .busEvent _ | .receive _ _ | .idleTick _ | .stopActiveSession | .addClient _ | .disconnect _
  | .requestBus _ | .setLockCounter _ => .isTrue trivial

/-- What the manager owes a client. -/
structure Bridged (d : Bridge) : Prop where
  /-- Behind its address a session writes its bytes, and nobody else does. -/
  written : d.manager.written = (d.past ++ [d.session]).flatMap fun s => s.sent.tail
  /-- What a client has put on the bus is the front of what it has queued. -/
  order : ∀ client, d.sentBy client <+: d.queuedBy client
  /-- The rest waits in its queue, unless a thread has just taken a byte. -/
  kept : (∀ s ∈ d.manager.bus ++ d.manager.io, s.inHand (some 0) = none) →
    ∀ client, d.queuedBy client = d.sentBy client ++ d.waiting client
  /-- At most one byte of a session has not been read back. -/
  gated : ∀ s ∈ d.past ++ [d.session], s.sent.length ≤ s.confirmed + 1

section Exec

variable {d : Bridge} {rest others : List Section}

theorem onBusByte_bypassWait {c : Client} {byte : UInt8} {result : RequestResult}
    (h : (c.onBusByte byte result).2 = .bypassWait) :
    (result = .firstWon ∨ result = .secondWon) ∨
      result = .observeData ∧ byte = c.lastSentByte ∧ (c.type = .regular ∨ c.type = .enhanced) := by
  unfold Client.onBusByte at h
  split at h
  · cases h
  · cases htype : c.type with
    | readOnly => simp [htype] at h
    | regular =>
        cases result <;> simp [htype] at h ⊢
        by_contra hother
        simp [hother] at h
    | enhanced => cases result <;> simp [htype] at h ⊢; exact h

/-- While a thread has a byte in its hands, the session waits for nothing. -/
theorem settled_of_inHand {s : Section} {sender : Option Nat} (hs : d.Committed s)
    (hhand : s.inHand sender ≠ none) : d.session.Settled ∨ d.session.sent = [] := by
  cases s with
  | writeByte byte => exact .inl hs.2
  | requestBus client byte => exact .inr hs.2.2
  | _ => exact absurd rfl hhand

theorem Orderly.settled_of_hands {mine : List Section} (hi : Orderly d mine others)
    (hhands : d.hands mine ++ d.hands others ≠ []) :
    d.session.Settled ∨ d.session.sent = [] := by
  obtain ⟨entry, hentry⟩ := List.exists_mem_of_ne_nil _ hhands
  obtain hentry | hentry := List.mem_append.mp hentry
  · obtain ⟨s, hs, hhand⟩ := List.mem_filterMap.mp hentry
    exact settled_of_inHand (hi.mine.2 s hs) (by rw [hhand]; simp)
  · obtain ⟨s, hs, hhand⟩ := List.mem_filterMap.mp hentry
    exact settled_of_inHand (hi.others.2 s hs) (by rw [hhand]; simp)

/-- A client that has no byte in the hands of a thread compares with the byte sent last. -/
theorem Orderly.getLast?_sent {mine : List Section} (hi : Orderly d mine others) {client : Nat}
    {c : Client} (hsender : d.manager.currentActiveSender = some client)
    (hc : d.manager.clients[client]? = some c) (hregular : c.type = .regular)
    (hhands : d.hands mine ++ d.hands others = []) (hsent : d.session.sent ≠ []) :
    d.session.sent.getLast? = some c.lastSentByte := by
  have hsome : d.session.sent.getLast? = some (d.session.sent.getLast hsent) :=
    List.getLast?_eq_some_getLast hsent
  obtain ⟨c', hc', hlast⟩ := hi.last client hsender _
    (by rw [hhands, List.map_nil, List.append_nil]; exact hsome)
  obtain rfl := Option.some.inj (hc.symm.trans hc')
  rw [hlast hregular]
  exact hsome

/-- A byte that the client takes for an echo is one. -/
theorem settled_of_bypassWait {mine : List Section} (hi : Orderly d mine others) {client : Nat}
    {byte : UInt8} {result : RequestResult} {c : Client}
    (hcommitted : d.Committed (.onBusByte client byte result))
    (hecho : d.Echo (.onBusByte client byte result))
    (hc : d.manager.clients[client]? = some c)
    (haction : (c.onBusByte byte result).2 = .bypassWait) : d.session.Settled := by
  obtain ⟨hsender, hflight, htold⟩ := hcommitted
  obtain ⟨hwon, hdata⟩ := hecho c hc
  have hconfirmed := hi.confirmed
  have hgated := hi.gated
  obtain hresult | ⟨rfl, hbyte, htype⟩ := onBusByte_bypassWait haction
  · have hsent := hwon hresult
    have hpos := htold hresult hsent
    rw [hsent, List.length_singleton] at hconfirmed
    refine ⟨by simp [hsent], ?_⟩
    rw [hsent, List.length_singleton]
    omega
  · obtain ⟨hpos, henhanced⟩ := hdata ⟨rfl, hbyte⟩
    have hsent : d.session.sent ≠ [] := by
      intro h
      rw [h, List.length_nil] at hconfirmed
      omega
    by_cases hhands : d.hands mine ++ d.hands others = []
    · have hlast : d.session.sent.getLast? = some byte := by
        obtain hregular | henhance := htype
        · rw [hbyte]
          exact hi.getLast?_sent hsender hc hregular hhands hsent
        · exact henhanced henhance
      refine ⟨hsent, ?_⟩
      by_contra hopen
      -- the byte that is still to be read back would have been found to be this one
      have hindex : d.session.confirmed = d.session.sent.length - 1 := by omega
      rw [List.getLast?_eq_getElem?, ← hindex] at hlast
      exact hflight hpos hlast
    · exact (hi.settled_of_hands hhands).resolve_right hsent

theorem Orderly.readAddress {mine : List Section} (hi : Orderly d mine others) (byte : UInt8)
    (result : RequestResult) :
    Orderly { d with session := d.session.readAddress byte result } mine others := by
  unfold Session.readAddress
  split
  · rename_i h
    refine hi.confirm ?_
    rw [h.1]
    exact (List.getElem?_eq_some_iff.mp h.2.1).1
  · exact hi

theorem Orderly.readBack {mine : List Section} (hi : Orderly d mine others) (byte : UInt8) :
    Orderly { d with session := d.session.readBack byte } mine others := by
  unfold Session.readBack
  split
  · rename_i h
    exact hi.confirm (List.getElem?_eq_some_iff.mp h.2).1
  · exact hi

theorem told_readAddress {s : Session} {byte : UInt8} {result : RequestResult}
    (hflight : InFlight (s.readAddress byte result) byte) :
    Told (s.readAddress byte result) byte result := by
  refine ⟨hflight, ?_⟩
  unfold Session.readAddress
  split
  · exact fun _ _ => Nat.succ_pos _
  · rename_i hother
    intro hwon hsent
    by_contra hzero
    refine hother ⟨Nat.eq_zero_of_not_pos hzero, ?_, hwon⟩
    simp [hsent]

theorem Orderly.runRequest {event : BusEvent} (hi : Orderly d (.runRequest event :: rest) others) :
    Orderly (d.exec (.runRequest event)) ((d.manager.exec (.runRequest event)).2 ++ rest)
      others := by
  have hrest := hi.mine.1.rest (by simp) (by simp)
  let request := if event.startBit then d.manager.request.startBit else d.manager.request
  let result := (request.run event.byte).result
  have hlook {e : Bridge} (he : Orderly e (.runRequest event :: rest) others)
      (halike : Alike e (d.exec (.runRequest event)))
      (htold : e.manager.currentActiveSender ≠ none → Told e.session event.byte result) :
      Orderly (d.exec (.runRequest event)) ((d.manager.exec (.runRequest event)).2 ++ rest)
        others := by
    exact he.next halike (fun _ => rfl) hrest htold fun _ => rfl
  cases hsender : d.manager.currentActiveSender with
  | none =>
      refine hlook hi ⟨?_, ?_, ?_, rfl, rfl, rfl, fun _ => rfl⟩ fun h => absurd hsender h
      all_goals simp [exec, record, hsender]
  | some client =>
      have he := hi.readAddress event.byte result
      refine hlook he ⟨?_, ?_, ?_, rfl, rfl, rfl, fun _ => rfl⟩ fun h =>
        told_readAddress (he.mine.2 (.runRequest event) (List.mem_cons_self ..) h)
      all_goals simp [exec, record, hsender, request, result]

theorem Orderly.onBusRequested (hi : Orderly d (.onBusRequested :: rest) others)
    (hmoves : d.manager.moves .onBusRequested → ∀ s ∈ others, s.relies = false) :
    Orderly (d.exec .onBusRequested) rest others := by
  have hdrop := hi.drop hi.mine.1.tail fun _ => rfl
  simp only [exec, record, ClientManager.exec, ClientManager.onBusRequested]
  split
  · rename_i h
    refine hdrop.transit (by simp) (by simp) (fun s hs => hi.mine.1.address hs) (hmoves ?_)
    simpa [ClientManager.moves] using h
  · exact hdrop

theorem Orderly.onBusByte {client : Nat} {byte : UInt8} {result : RequestResult}
    (hi : Orderly d (.onBusByte client byte result :: rest) others)
    (hecho : d.Echo (.onBusByte client byte result)) :
    Orderly (d.exec (.onBusByte client byte result))
      ((d.manager.exec (.onBusByte client byte result)).2 ++ rest) others := by
  have hrest := hi.mine.1.rest (by simp) (by simp)
  have hcommitted := hi.mine.2 _ (List.mem_cons_self ..)
  cases hc : d.manager.clients[client]? with
  | none =>
      simp only [exec, record, ClientManager.exec, hc]
      exact hi.drop hi.mine.1.tail fun _ => rfl
  | some c =>
      have halike : Alike d { d with manager :=
          (d.manager.updateClient client fun _ => (c.onBusByte byte result).1) } := by
        refine ⟨rfl, rfl, rfl, rfl, rfl, rfl, view_updateClient _ _ ?_⟩
        intro c' hc'
        obtain rfl := Option.some.inj (hc.symm.trans hc')
        exact c.view_onBusByte byte result
      cases haction : (c.onBusByte byte result).2 with
      | keepActive =>
          simp only [exec, record, ClientManager.exec, hc, haction]
          exact hi.next halike (fun _ => rfl) hrest trivial fun _ => rfl
      | stopSession =>
          simp only [exec, record, ClientManager.exec, hc, haction]
          refine hi.plain halike (fun _ => rfl) hrest ?_
          simp [Plain, Section.relies, Section.carries]
      | bypassWait =>
          have hsettled := settled_of_bypassWait hi hcommitted hecho hc haction
          simp only [exec, record, ClientManager.exec, hc, haction]
          refine hi.look halike (fun _ => rfl) ?_ ?_
          · intro next more heq
            obtain ⟨rfl, rfl⟩ := List.cons.inj heq
            refine .inr (.inl ⟨rfl, client, .checkRequest false :: rest, rfl, ?_⟩)
            intro s hs
            obtain rfl | hs := List.mem_cons.mp hs
            · simp [Plain, Section.relies, Section.carries]
            · exact hrest s hs
          · simp [Committed, Section.inHand, hcommitted.1, hsettled]

/-- The sections that take a byte do so when there is one. -/
theorem hasByte_of_pop {m : ClientManager} {client : Nat} {c popped : Client} {byte : UInt8}
    (hc : m.clients[client]? = some c) (hconnected : c.isConnected = true)
    (hpop : c.popPendingIncomingData = (popped, some byte)) : m.hasByte client = true := by
  unfold Client.popPendingIncomingData at hpop
  split at hpop
  · cases hpop
  · cases hpop
  · rename_i first rest hbuffer htype
    have hpending : c.hasPendingIncomingData = true := by
      unfold Client.hasPendingIncomingData
      split
      · exact absurd ‹_› htype
      · simp [hbuffer]
    simp [ClientManager.hasByte, hc, hconnected, hpending]

theorem Orderly.takeAddress {client : Nat} (hi : Orderly d (.takeAddress client :: rest) others)
    (hsends : d.manager.sends (.takeAddress client) → ∀ s ∈ others, s.relies = false) :
    Orderly (d.exec (.takeAddress client)) ((d.manager.exec (.takeAddress client)).2 ++ rest)
      others := by
  have hrest := hi.mine.1.rest (by simp) (by simp)
  have hcommitted := hi.mine.2 _ (List.mem_cons_self ..)
  have hdrop := hi.drop hi.mine.1.tail fun _ => rfl
  simp only [exec, record, ClientManager.exec]
  split
  · exact hdrop
  · rename_i c hc
    split
    · rename_i hready
      rw [Bool.and_eq_true] at hready
      split
      · rename_i popped byte hpop
        have hothers := hsends (by
          simp [ClientManager.sends, hready.2, hasByte_of_pop hc hready.1 hpop])
        exact hi.pop hcommitted.1 hc hpop (fun _ => rfl) hrest hothers rfl hcommitted
      · exact hi.next (.refl d) (fun _ => rfl) hrest trivial fun _ => rfl
    · exact hdrop

theorem Orderly.trySendNextByte {client : Nat}
    (hi : Orderly d (.trySendNextByte client :: rest) others)
    (hsends : d.manager.sends (.trySendNextByte client) → ∀ s ∈ others, s.relies = false) :
    Orderly (d.exec (.trySendNextByte client))
      ((d.manager.exec (.trySendNextByte client)).2 ++ rest) others := by
  have hrest := hi.mine.1.rest (by simp) (by simp)
  obtain ⟨hsender, hsettled⟩ := hi.mine.2 _ (List.mem_cons_self ..)
  have hdrop := hi.drop hi.mine.1.tail fun _ => rfl
  simp only [exec, record, ClientManager.exec]
  split
  · exact hdrop
  · rename_i c hc
    split
    · rename_i hconnected
      split
      · rename_i popped byte hpop
        have hothers := hsends (hasByte_of_pop hc hconnected hpop)
        exact hi.pop hsender hc hpop (fun _ => rfl) hrest hothers rfl
          ⟨by simp [hsender], hsettled⟩
      · exact hdrop
    · exact hdrop

theorem Orderly.requestBus {client : Nat} {byte : UInt8}
    (hi : Orderly d (.requestBus client byte :: rest) others) (hothers : ∀ s ∈ others, Plain s) :
    Orderly (d.exec (.requestBus client byte)) rest others := by
  have hrest := hi.mine.1.rest (by simp) (by simp)
  obtain ⟨hsender, hstate, hsent⟩ := hi.mine.2 _ (List.mem_cons_self ..)
  have hfull : d.session.confirmed = d.session.sent.length := by
    have hconfirmed := hi.confirmed
    rw [hsent, List.length_nil] at hconfirmed ⊢
    omega
  have hgoes : ¬ (d.manager.sessionState ≠ .request ∨
      d.manager.currentActiveSender ≠ some client) := by
    simp [hsender, hstate]
  simp only [exec, record, ClientManager.exec, ClientManager.requestBus, if_neg hgoes]
  exact hi.send hsender rfl hfull hrest hothers rfl hsender rfl
    (by simp [hsent, ClientManager.transitSessionState])

theorem Orderly.writeByte {byte : UInt8} (hi : Orderly d (.writeByte byte :: rest) others)
    (hothers : ∀ s ∈ others, Plain s) : Orderly (d.exec (.writeByte byte)) rest others := by
  have hrest := hi.mine.1.rest (by simp) (by simp)
  obtain ⟨hsome, hsettled⟩ := hi.mine.2 _ (List.mem_cons_self ..)
  obtain ⟨client, hsender⟩ := Option.ne_none_iff_exists'.mp hsome
  have hsend (m : ClientManager) (hm : m = { d.manager with
      written := d.manager.written ++ [byte], sessionState := .response }) :
      Orderly { d with session := d.session.send byte, manager := m } rest others := by
    subst hm
    exact hi.send hsender (by simp [Section.inHand]) hsettled.2 hrest hothers rfl hsender rfl
      (by simp [hsettled.1])
  have hgoes : d.manager.currentActiveSender.isSome = true := by simp [hsender]
  simp only [exec, record, ClientManager.exec, ClientManager.writeByte, if_pos hgoes]
  split
  · exact (hsend _ rfl).endSession hrest fun s hs => (hothers s hs).1
  · exact hsend _ rfl

theorem Orderly.handleIncomingStream {client : Nat} {data : List UInt8}
    (hi : Orderly d (.handleIncomingStream client data :: rest) others) :
    Orderly (d.exec (.handleIncomingStream client data))
      ((d.manager.exec (.handleIncomingStream client data)).2 ++ rest) others := by
  have hrest := hi.mine.1.rest (by simp) (by simp)
  cases hc : d.manager.clients[client]? with
  | none =>
      simp only [exec, record, ClientManager.exec, arrivals, hc, List.map_nil, List.append_nil]
      exact hi.drop hi.mine.1.tail fun _ => rfl
  | some c =>
      obtain ⟨htype, hbuffer⟩ := c.extends_handleIncomingStream data
      have hlook : Orderly d (.handleSocketInput client :: rest) others :=
        hi.next (.refl d) (fun _ => rfl) hrest trivial fun _ => rfl
      simp only [exec, record, ClientManager.exec, arrivals, hc]
      refine hlook.arrive hc (List.prefix_iff_eq_append.mp hbuffer).symm htype ?_ ?_ ?_ ?_ ?_
      · exact fun hregular => Client.handleIncomingStream_lastSentByte hregular data
      · intro other
        split <;> exact clients_updateClient _ _ hc other
      all_goals split <;> rfl

/-- A session ends, and its client is stopped. -/
theorem Orderly.stop {next : Section} (hi : Orderly d (next :: rest) others) (client : Nat)
    (hnext : ∀ sender, next.inHand sender = none) (hrest : ∀ s ∈ rest, Plain s)
    (hothers : ∀ s ∈ others, s.relies = false) :
    Orderly { d with manager := d.manager.endSession }
      ([.stopClient client, .resetRequest] ++ rest) others := by
  have hnew : ∀ s ∈ [Section.stopClient client, .resetRequest], Plain s := by
    simp [Plain, Section.relies, Section.carries]
  refine (hi.plain (.refl d) hnext hrest hnew).endSession ?_ hothers
  intro s hs
  obtain hs | hs := List.mem_append.mp hs
  · exact hnew s hs
  · exact hrest s hs

theorem Orderly.start {client : Nat} (hi : Orderly d (.startSession client :: rest) others) :
    Orderly (d.exec (.startSession client)) rest others := by
  have hrest := hi.mine.1.rest (by simp) (by simp)
  have hdrop := hi.drop hi.mine.1.tail fun _ => rfl
  simp only [exec, record, ClientManager.exec, ClientManager.startSession]
  split
  · exact hdrop
  · rename_i hfree
    have hidle : d.manager.currentActiveSender = none := by
      simpa using fun h => hfree (.inl h)
    refine hdrop.startSession client hidle hrest rfl rfl rfl ?_
    refine view_updateClient _ client ?_
    intro c _
    unfold Client.onSessionStart
    split <;> rfl

/-- What a section of a thread does keeps the invariant, if it meets the condition. -/
theorem Orderly.exec {next : Section} (hi : Orderly d (next :: rest) others)
    (hacts : d.manager.sends next || d.manager.moves next → ∀ s ∈ others, s.relies = false)
    (hsends : d.manager.sends next → ∀ s ∈ others, s.carries = false) (hecho : d.Echo next) :
    Orderly (d.exec next) ((d.manager.exec next).2 ++ rest) others := by
  have hsent (h : d.manager.sends next = true) : ∀ s ∈ others, Plain s := fun s hs =>
    ⟨hacts (by simp [h]) s hs, hsends h s hs⟩
  have hdrop (hnext : ∀ sender, next.inHand sender = none) : Orderly d rest others :=
    hi.drop hi.mine.1.tail hnext
  have hrest := hi.mine.1.rest
  cases next with
  | runRequest event => exact hi.runRequest
  | onBusRequested => exact hi.onBusRequested fun h => hacts (by simp [h])
  | onBusByte client byte result => exact hi.onBusByte hecho
  | takeAddress client => exact hi.takeAddress fun h => hacts (by simp [h])
  | trySendNextByte client => exact hi.trySendNextByte fun h => hacts (by simp [h])
  | requestBus client byte => exact hi.requestBus (hsent rfl)
  | writeByte byte => exact hi.writeByte (hsent rfl)
  | handleIncomingStream client data => exact hi.handleIncomingStream
  | onBusEventInfo byte result =>
      have htold := hi.mine.2 _ (List.mem_cons_self ..)
      simp only [Bridge.exec, record, ClientManager.exec]
      split
      · rename_i client hsender
        exact hi.next (.refl d) (fun _ => rfl) (hrest (by simp) (by simp))
          ⟨hsender, htold (by simp [hsender])⟩ fun _ => rfl
      · exact hdrop fun _ => rfl
  | bridge client byte result =>
      have hcommitted := hi.mine.2 _ (List.mem_cons_self ..)
      simp only [Bridge.exec, record, ClientManager.exec]
      split
      · exact hi.next (.refl d) (fun _ => rfl) (hrest (by simp) (by simp)) hcommitted fun _ => rfl
      · exact hdrop fun _ => rfl
  | bypassWait =>
      obtain ⟨-, hsettled⟩ := hi.mine.2 _ (List.mem_cons_self ..)
      exact (hdrop fun _ => rfl).transit (by simp) (fun _ => hsettled)
        (fun s hs => hi.mine.1.address hs) (hacts (by simp [ClientManager.moves]))
  | checkRequest withSender =>
      simp only [Bridge.exec, record, ClientManager.exec]
      split
      · exact hi.next (.refl d) (fun _ => rfl) (hrest (by simp) (by simp)) trivial fun _ => rfl
      · exact hdrop fun _ => rfl
  | handleBusAvailableForSession =>
      simp only [Bridge.exec, record, ClientManager.exec]
      split
      · rename_i client hsender
        split
        · rename_i hstate
          exact hi.next (.refl d) (fun _ => rfl) (hrest (by simp) (by simp))
            ⟨hsender, hstate, hi.request (by simp [hsender]) hstate⟩ fun _ => rfl
        · exact hdrop fun _ => rfl
      · exact hdrop fun _ => rfl
  | handleSocketInput client =>
      simp only [Bridge.exec, record, ClientManager.exec]
      split
      · rename_i hactive
        exact hi.next (.refl d) (fun _ => rfl) (hrest (by simp) (by simp))
          ⟨hactive.1, hi.transmit (by simp [hactive.1]) hactive.2⟩ fun _ => rfl
      · exact hi.next (.refl d) (fun _ => rfl) (hrest (by simp) (by simp)) trivial fun _ => rfl
  | tryStartSessionForClient client =>
      simp only [Bridge.exec, record, ClientManager.exec]
      split
      · exact hdrop fun _ => rfl
      · split
        · exact hi.next (.refl d) (fun _ => rfl) (hrest (by simp) (by simp)) trivial fun _ => rfl
        · exact hdrop fun _ => rfl
  | startSession client => exact hi.start
  | stopActiveSession =>
      simp only [Bridge.exec, record, ClientManager.exec]
      split
      · rename_i client hsender
        refine hi.stop client (fun _ => rfl) (hrest (by simp) (by simp)) (hacts ?_)
        simp [ClientManager.moves, hsender]
      · exact hdrop fun _ => rfl
  | stopClient client =>
      refine hi.plain ⟨rfl, rfl, rfl, rfl, rfl, rfl, ?_⟩ (fun _ => rfl) (hrest (by simp) (by simp))
        (by simp [ClientManager.exec])
      exact view_updateClient d.manager client fun c _ => rfl
  | resetRequest =>
      exact hi.plain ⟨rfl, rfl, rfl, rfl, rfl, rfl, fun _ => rfl⟩ (fun _ => rfl)
        (hrest (by simp) (by simp)) (by simp [ClientManager.exec])
  | checkSessionTimeout elapsed =>
      simp only [Bridge.exec, record, ClientManager.exec]
      split
      · split
        · exact hi.next (.refl d) (fun _ => rfl) (hrest (by simp) (by simp)) trivial fun _ => rfl
        · exact hdrop fun _ => rfl
      · exact hdrop fun _ => rfl
  | handleActiveSenderDisconnected =>
      simp only [Bridge.exec, record, ClientManager.exec]
      split
      · rename_i client hsender
        split
        · exact hdrop fun _ => rfl
        · rename_i hgone
          refine hi.stop client (fun _ => rfl) (hrest (by simp) (by simp)) (hacts ?_)
          simp [ClientManager.moves, hsender, hgone]
      · exact hdrop fun _ => rfl

end Exec

theorem Orderly.symm {d : Bridge} {mine others : List Section} (hi : Orderly d mine others) :
    Orderly d others mine := by
  have hswap : d.hands others ++ d.hands mine = d.hands mine ++ d.hands others := by
    obtain h | h := hi.alone
    · rw [h, List.append_nil, List.nil_append]
    · rw [h, List.append_nil, List.nil_append]
  obtain ⟨written, past, gated, confirmed, account, alone, sender, request, transmit, last, mine,
    others⟩ := hi
  refine ⟨written, past, gated, confirmed, ?_, alone.symm, sender, request, transmit, ?_, others,
    mine⟩
  · rw [hswap]
    exact account
  · rw [hswap]
    exact last

/-- The sections that only the bus thread runs. -/
def ofBus : Section → Bool
  | .runRequest _ | .onBusEventInfo _ _ | .bridge _ _ _ | .onBusByte _ _ _ => true
  | _ => false

theorem ofBus_exec {m : ClientManager} {next : Section} (hnext : ofBus next = false) :
    ∀ s ∈ (m.exec next).2, ofBus s = false := by
  cases next <;> try cases hnext
  all_goals
    simp only [ClientManager.exec]
    repeat' split
    all_goals simp [ofBus]

theorem echo_of_not_ofBus (d : Bridge) {s : Section} (hs : ofBus s = false) : d.Echo s := by
  cases s <;> first | exact trivial | cases hs

theorem carries_of_not_ofBus {s : Section} (hs : ofBus s = false) : s.carries = false := by
  cases s <;> first | rfl | cases hs

/-- A section knows nothing of what is behind it. -/
theorem exec_threads (m : ClientManager) (next : Section) :
    (m.exec next).1.bus = m.bus ∧ (m.exec next).1.io = m.io := by
  cases next <;> simp only [ClientManager.exec, ClientManager.onBusRequested,
    ClientManager.requestBus, ClientManager.startSession, ClientManager.writeByte, and_self]
  all_goals
    repeat' split
    all_goals exact ⟨rfl, rfl⟩

theorem inFlight_readBack (s : Session) (byte : UInt8) (hgated : s.sent.length ≤ s.confirmed + 1) :
    InFlight (s.readBack byte) byte := by
  unfold Session.readBack
  split
  · intro _
    simp [Session.confirm, List.getElem?_eq_none hgated]
  · rename_i hother
    exact fun hpos hnext => hother ⟨hpos, hnext⟩

theorem inHand_of_free {s : Section} (hs : s.inHand (some 0) = none) (sender : Option Nat) :
    s.inHand sender = none := by
  cases s <;> first | rfl | cases hs

/-- The invariant of both threads. -/
structure Ordered (d : Bridge) : Prop where
  orderly : Orderly d d.manager.bus d.manager.io
  io : ∀ s ∈ d.manager.io, ofBus s = false

theorem ordered_initial : Ordered {} := by
  have hnone : Tidy [] ∧ ∀ s ∈ ([] : List Section), Committed {} s :=
    ⟨tidy_of_plain (by simp), by simp⟩
  exact ⟨⟨rfl, by simp, by simp, by simp, by simp [queuedBy, sentBy, waiting, hands], .inl rfl,
    by simp, by simp, by simp, by simp, hnone, hnone⟩, by simp⟩

section Steps

variable {d : Bridge}

theorem Ordered.bus (hi : Ordered d) (hok : d.Keeps .bus) : Ordered (d.step .bus) := by
  cases hbus : d.manager.bus with
  | nil => simpa only [step, hbus] using hi
  | cons next rest =>
      obtain ⟨hacts, hecho⟩ := hok next (by simp [hbus])
      have horderly := hi.orderly
      rw [hbus] at horderly
      have hexec := horderly.exec hacts (fun _ s hs => carries_of_not_ofBus (hi.io s hs)) hecho
      have hio := (exec_threads d.manager next).2
      simp only [step, hbus, ClientManager.step, ClientManager.runBus]
      refine ⟨?_, ?_⟩
      · rw [hio]
        exact hexec.alike ⟨rfl, rfl, rfl, rfl, rfl, rfl, fun _ => rfl⟩
      · rw [hio]
        exact hi.io

theorem Ordered.ioStep (hi : Ordered d) (hok : d.Keeps .io) : Ordered (d.step .io) := by
  cases hio : d.manager.io with
  | nil => simpa only [step, hio] using hi
  | cons next rest =>
      obtain ⟨hacts, hsends⟩ := hok next (by simp [hio])
      have horderly := hi.orderly.symm
      have hown := hi.io
      rw [hio] at horderly hown
      have hnext := hown next (List.mem_cons_self ..)
      have hexec := horderly.exec hacts hsends (d.echo_of_not_ofBus hnext)
      have hbus := (exec_threads d.manager next).1
      simp only [step, hio, ClientManager.step, ClientManager.runIo]
      refine ⟨?_, ?_⟩
      · rw [hbus]
        exact hexec.symm.alike ⟨rfl, rfl, rfl, rfl, rfl, rfl, fun _ => rfl⟩
      · intro s hs
        obtain hs | hs := List.mem_append.mp hs
        · exact ofBus_exec hnext s hs
        · exact hown s (List.mem_cons_of_mem _ hs)

/-- The I/O thread takes up a task. -/
theorem Ordered.ioTask (hi : Ordered d) {sections : List Section}
    (hsections : ∀ s ∈ sections, Plain s ∧ ofBus s = false) :
    Ordered { d with manager := d.manager.ioTask sections } := by
  unfold ClientManager.ioTask
  split
  · rename_i hidle
    have hio : d.manager.io = [] := List.isEmpty_iff.mp hidle
    have horderly := hi.orderly.symm
    rw [hio] at horderly
    have hplain : ∀ s ∈ sections, Plain s := fun s hs => (hsections s hs).1
    have htask : Orderly d sections d.manager.bus := by
      refine horderly.follow ?_
        ⟨tidy_of_plain hplain, fun s hs => d.committed_of_plain (hplain s hs)⟩
      exact d.hands_of_not_relies fun s hs => (hplain s hs).1
    exact ⟨htask.symm.alike ⟨rfl, rfl, rfl, rfl, rfl, rfl, fun _ => rfl⟩,
      fun s hs => (hsections s hs).2⟩
  · exact hi

/-- The bus thread takes up a byte, which may be the one that the session waits for. -/
theorem Ordered.busEvent (hi : Ordered d) (event : BusEvent) :
    Ordered (d.step (.busEvent event)) := by
  by_cases hidle : d.manager.bus.isEmpty = true
  · have hbus : d.manager.bus = [] := List.isEmpty_iff.mp hidle
    have horderly := hi.orderly
    rw [hbus] at horderly
    -- the byte is looked at before it is passed on
    obtain ⟨e, he, hstep, hflight⟩ : ∃ e : Bridge, Orderly e [] d.manager.io ∧
        Alike e (d.step (.busEvent event)) ∧
        (e.manager.currentActiveSender ≠ none → InFlight e.session event.byte) := by
      cases hsender : d.manager.currentActiveSender with
      | none =>
          refine ⟨d, horderly, ?_, fun h => absurd hsender h⟩
          constructor <;> simp [step, ClientManager.step, ClientManager.busEvent, hidle, hsender]
      | some client =>
          refine ⟨_, horderly.readBack event.byte, ?_, fun _ =>
            inFlight_readBack _ _ horderly.gated⟩
          constructor <;> simp [step, ClientManager.step, ClientManager.busEvent, hidle, hsender]
    have hnext (sections : List Section)
        (hsections : sections = [.runRequest event] ∨
          sections = [.onBusRequested, .runRequest event]) :
        Orderly (d.step (.busEvent event)) sections d.manager.io := by
      refine (he.follow ?_ ⟨?_, ?_⟩).alike hstep
      · obtain rfl | rfl := hsections <;> rfl
      · obtain rfl | rfl := hsections
        · exact tidy_cons _ (by simp)
        · intro next rest heq
          obtain ⟨rfl, rfl⟩ := List.cons.inj heq
          exact .inr (.inr ⟨rfl, event, rfl⟩)
      · obtain rfl | rfl := hsections
        · simpa [Committed] using hflight
        · simpa [Committed] using hflight
    have hio : (d.step (.busEvent event)).manager.io = d.manager.io := by
      simp [step, ClientManager.step, ClientManager.busEvent, hidle]
    refine ⟨?_, ?_⟩
    · rw [hio]
      refine hnext _ ?_
      simp only [step, ClientManager.step, ClientManager.busEvent, hidle, if_true]
      generalize (event.busRequest && _) = answered
      cases answered with
      | false => exact .inl rfl
      | true => exact .inr rfl
    · rw [hio]
      exact hi.io
  · simpa [step, ClientManager.step, ClientManager.busEvent, hidle] using hi

/-- A client comes: it has nothing to say yet. -/
theorem Orderly.addClient {mine others : List Section} (hi : Orderly d mine others)
    (type : ClientType) : Orderly (d.step (.addClient type)) mine others := by
  obtain ⟨written, past, gated, confirmed, account, alone, sender, request, transmit, last, mine,
    others⟩ := hi
  refine ⟨written, past, gated, confirmed, ?_, alone, sender, request, transmit, ?_,
    ⟨mine.1, fun s hs => ?_⟩, ⟨others.1, fun s hs => ?_⟩⟩
  · intro client
    have hwaiting : (d.step (.addClient type)).waiting client = d.waiting client := by
      simp only [waiting, step, ClientManager.step, List.getElem?_append]
      split
      · rfl
      · rename_i hlong
        rw [List.getElem?_eq_none (Nat.le_of_not_lt hlong)]
        cases hc : [({ type } : Client)][client - d.manager.clients.length]? with
        | none => rfl
        | some c =>
            obtain rfl := List.mem_singleton.mp (List.mem_of_getElem? hc)
            rfl
    rw [hwaiting]
    exact account client
  · intro client hsender byte hlast
    obtain ⟨c, hc, hregular⟩ := last client hsender byte hlast
    refine ⟨c, ?_, hregular⟩
    simp only [step, ClientManager.step]
    rw [List.getElem?_append_left (List.getElem?_eq_some_iff.mp hc).1]
    exact hc
  · have hcommitted := mine.2 s hs
    cases s <;> exact hcommitted
  · have hcommitted := others.2 s hs
    cases s <;> exact hcommitted

theorem Ordered.step (hi : Ordered d) {action : ClientManager.Action} (hok : d.Keeps action) :
    Ordered (d.step action) := by
  cases action with
  | busEvent event => exact hi.busEvent event
  | bus => exact hi.bus hok
  | io => exact hi.ioStep hok
  | receive client data =>
      simp only [Bridge.step, ClientManager.step]
      split
      · exact hi.ioTask (by simp [Plain, Section.relies, Section.carries, ofBus])
      · exact hi
  | idleTick elapsed => exact hi.ioTask (by simp [Plain, Section.relies, Section.carries, ofBus])
  | stopActiveSession => exact hi.ioTask (by simp [Plain, Section.relies, Section.carries, ofBus])
  | addClient type => exact ⟨hi.orderly.addClient type, hi.io⟩
  | disconnect client =>
      have hview := view_updateClient d.manager client (f := Client.stop) fun c _ => rfl
      exact ⟨hi.orderly.alike ⟨rfl, rfl, rfl, rfl, rfl, rfl, hview⟩, hi.io⟩
  | requestBus address =>
      exact ⟨hi.orderly.alike ⟨rfl, rfl, rfl, rfl, rfl, rfl, fun _ => rfl⟩, hi.io⟩
  | setLockCounter lockCounter =>
      exact ⟨hi.orderly.alike ⟨rfl, rfl, rfl, rfl, rfl, rfl, fun _ => rfl⟩, hi.io⟩

theorem Ordered.bridged (hi : Ordered d) : Bridged d := by
  obtain ⟨⟨written, past, gated, -, account, -, -, -, -, -, -, -⟩, -⟩ := hi
  refine ⟨written, fun client => ?_, fun hfree client => ?_, ?_⟩
  · rw [account client, List.append_assoc]
    exact List.prefix_append _ _
  · have hnone (sections : List Section)
        (hsub : ∀ s ∈ sections, s ∈ d.manager.bus ++ d.manager.io) : d.hands sections = [] :=
      List.filterMap_eq_nil_iff.mpr fun s hs => inHand_of_free (hfree s (hsub s hs)) _
    have haccount := account client
    rw [hnone _ fun s hs => List.mem_append_left _ hs,
      hnone _ fun s hs => List.mem_append_right _ hs] at haccount
    simpa using haccount
  · intro s hs
    obtain hs | hs := List.mem_append.mp hs
    · exact past s hs
    · obtain rfl := List.mem_singleton.mp hs
      exact gated

end Steps

/-- As long as neither thread touches the session while the other one goes by an earlier look at
it, and no other byte is taken for an echo, the bytes of every client reach the bus in their
order, none lost and none twice, and each one is read back before the next. -/
theorem run_bridged (actions : List ClientManager.Action)
    (hok : Runs.Meets step Keeps {} actions) : Bridged (Runs.run step {} actions) :=
  have hordered : Ordered (Runs.run step {} actions) :=
    Runs.invariant (fun _ _ hi hok => hi.step hok) ordered_initial hok
  hordered.bridged

open ClientManager (settle)

/-- A client that is given the bus for its address, in a round of the threads for each byte. -/
def granted : List ClientManager.Action :=
  settle (.addClient .regular) ++ settle (.receive 0 [0x31, 0x08]) ++
    settle (.busEvent { byte := 0xaa }) ++ settle (.busEvent { byte := 0xaa }) ++
    settle (.busEvent { byte := 0xaa }) ++
    settle (.busEvent { byte := 0xaa, busRequest := true })

/-- Both bytes are read back before the client goes on with a third one. -/
def echoed : List ClientManager.Action :=
  granted ++ settle (.busEvent { byte := 0x31 }) ++ settle (.busEvent { byte := 0x08 }) ++
    settle (.receive 0 [0x07])

theorem run_bridged_echoed :
    Runs.Meets step Keeps {} echoed ∧ Bridged (Runs.run step {} echoed) ∧
      (Runs.run step {} echoed).sentBy 0 = [0x31, 0x08, 0x07] :=
  ⟨by decide +kernel, run_bridged echoed (by decide +kernel), by decide +kernel⟩

/-- The bus thread has moved the session on and not yet taken the second byte when the third
one arrives. The I/O thread takes the second, the bus thread takes the third and is first to
write. -/
def overtaken : List ClientManager.Action :=
  granted ++ [.busEvent { byte := 0x31 }, .bus, .bus, .bus, .bus, .bus] ++
    [.receive 0 [0x07], .io, .io, .io] ++ [.bus, .bus, .io]

theorem not_bridged_overtaken :
    (¬ ∀ (actions : List ClientManager.Action) (client : Nat),
      (Runs.run step {} actions).sentBy client <+: (Runs.run step {} actions).queuedBy client) ∧
    ¬ ∀ actions : List ClientManager.Action,
      ∀ s ∈ (Runs.run step {} actions).past ++ [(Runs.run step {} actions).session],
        s.sent.length ≤ s.confirmed + 1 := by
  refine ⟨fun hall => ?_, fun hall => ?_⟩
  · exact absurd (hall overtaken 0) (by decide +kernel)
  · exact absurd (hall overtaken) (by decide +kernel)

end Bridge

end Ebus
