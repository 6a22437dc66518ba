import Mathlib.Data.List.Infix
import Ebus.App.Bridge

/-!
# The session between two threads

A thread looks at the session, takes a byte of the client, and hands it to the bus; in
between the other thread runs. `Orderly` says, from the side of one of them, what the
sections that are still to be run go by, and that every byte of a client has been put on
the bus, is in the hands of a thread or waits in the queue. What a section can do to the
session is one lemma each: it looks, it moves the session on or ends it, it takes a byte
or sends it, it starts a session, or bytes of a client arrive.
-/

namespace Ebus

namespace Section

/-- The section goes by an earlier look at the session. -/
def relies : Section → Bool
  | .bridge _ _ _ | .onBusByte _ _ _ | .bypassWait | .trySendNextByte _ | .writeByte _
  | .takeAddress _ | .requestBus _ _ => true
  | _ => false

/-- The section brings a byte of the bus that the session has not seen yet. -/
def carries : Section → Bool
  | .runRequest _ | .onBusEventInfo _ _ => true
  | _ => false

/-- The byte that the section has taken from a client and not yet handed to the bus. -/
def inHand (sender : Option Nat) : Section → Option (Nat × UInt8)
  | .requestBus client byte => some (client, byte)
  | .writeByte byte => sender.map (·, byte)
  | _ => none

end Section

namespace Session

/-- The session has the bus, and everything that it has written has been read back. -/
def Settled (s : Session) : Prop := s.sent ≠ [] ∧ s.confirmed = s.sent.length

instance (s : Session) : Decidable s.Settled := inferInstanceAs (Decidable (_ ∧ _))

end Session

namespace Client

/-- What counts for the bytes that go to the bus. -/
def view (c : Client) : ClientType × List UInt8 × UInt8 :=
  (c.type, c.inboundBuffer, c.lastSentByte)

theorem view_enqueueOutgoingData (c : Client) (data : List UInt8) :
    (c.enqueueOutgoingData data).view = c.view := by
  unfold enqueueOutgoingData
  split <;> rfl

theorem view_onBusByte (c : Client) (byte : UInt8) (result : RequestResult) :
    (c.onBusByte byte result).1.view = c.view := by
  unfold onBusByte createEnhancedResponse
  repeat' split
  all_goals first | rfl | exact c.view_enqueueOutgoingData _

/-- The queue of `d` is the one of `c`, or longer. -/
def Extends (c d : Client) : Prop := d.type = c.type ∧ c.inboundBuffer <+: d.inboundBuffer

theorem Extends.refl (c : Client) : c.Extends c := ⟨rfl, List.prefix_refl _⟩

theorem Extends.trans {c d e : Client} (h : c.Extends d) (h' : d.Extends e) : c.Extends e :=
  ⟨h'.1.trans h.1, h.2.trans h'.2⟩

theorem extends_createEnhancedResponse (c : Client) (response : Enhanced.Response)
    (value : UInt8) : c.Extends (c.createEnhancedResponse response value) := by
  obtain ⟨htype, hbuffer⟩ := Prod.mk.inj (c.view_enqueueOutgoingData [response.code, value])
  refine ⟨htype, ?_⟩
  rw [createEnhancedResponse, (Prod.mk.inj hbuffer).1]

theorem extends_take (s : Intake) (byte : UInt8) : s.client.Extends (s.take byte).client := by
  unfold Intake.take
  dsimp only
  split
  · exact .refl _
  · split
    · exact .refl _
    · split
      · -- the short form
        split
        · exact ⟨rfl, List.prefix_append _ _⟩
        · exact ⟨rfl, List.prefix_refl _⟩
      · split
        · exact ⟨rfl, List.prefix_refl _⟩
        · split
          · unfold Intake.command
            dsimp only
            repeat' split
            all_goals exact ⟨rfl, by simp⟩
          · exact extends_createEnhancedResponse { s.client with incomingBuf := [] } .errorHost
              Enhanced.framing

theorem extends_foldl {α : Type*} {f : Client → α → Client}
    (h : ∀ (c : Client) a, c.Extends (f c a)) (c : Client) (as : List α) :
    c.Extends (as.foldl f c) := by
  induction as generalizing c with
  | nil => exact .refl c
  | cons a as ih => exact (h c a).trans (ih _)

theorem extends_foldl_take (s : Intake) (data : List UInt8) :
    s.client.Extends (data.foldl Intake.take s).client := by
  induction data generalizing s with
  | nil => exact .refl _
  | cons byte data ih => exact (extends_take s byte).trans (ih _)

theorem extends_handleIncomingStream (c : Client) (data : List UInt8) :
    c.Extends (c.handleIncomingStream data).1 := by
  unfold handleIncomingStream
  split
  · exact .refl c
  · split
    · exact .refl c
    · exact ⟨rfl, List.prefix_append _ _⟩
  · split
    · exact .refl c
    · have hfold := extends_foldl_take { client := c } data
      have hinfo (c : Client) : c.Extends
          (infoResponse.foldl (fun c value => c.createEnhancedResponse .info value) c) :=
        extends_foldl (fun c value => c.extends_createEnhancedResponse .info value) c infoResponse
      have hreset (c : Client) := c.extends_createEnhancedResponse .resetted 0x00
      dsimp only
      split
      · exact hfold
      · split
        · split
          · exact (hfold.trans (hreset _)).trans (hinfo _)
          · exact hfold.trans (hinfo _)
        · split
          · exact hfold.trans (hreset _)
          · exact hfold

/-- A regular client compares with the byte that was taken last, whatever it queues. -/
theorem handleIncomingStream_lastSentByte {c : Client} (hregular : c.type = .regular)
    (data : List UInt8) : (c.handleIncomingStream data).1.lastSentByte = c.lastSentByte := by
  simp only [handleIncomingStream, hregular]
  split <;> rfl

end Client

namespace Bridge

/-- A byte under way is not the read-back that the session still waits for. -/
def InFlight (s : Session) (byte : UInt8) : Prop :=
  0 < s.confirmed → s.sent[s.confirmed]? ≠ some byte

/-- What the arbitration machine says of the byte: the session knows when it has got the bus. -/
def Told (s : Session) (byte : UInt8) (result : RequestResult) : Prop :=
  InFlight s byte ∧
    (result = .firstWon ∨ result = .secondWon → s.sent = [byte] → 0 < s.confirmed)

/-- What holds for a section from the look at the session until it is run. -/
def Committed (d : Bridge) : Section → Prop
  | .runRequest event => d.manager.currentActiveSender ≠ none → InFlight d.session event.byte
  | .onBusEventInfo byte result =>
      d.manager.currentActiveSender ≠ none → Told d.session byte result
  | .bridge client byte result | .onBusByte client byte result =>
      d.manager.currentActiveSender = some client ∧ Told d.session byte result
  | .bypassWait | .writeByte _ => d.manager.currentActiveSender ≠ none ∧ d.session.Settled
  | .trySendNextByte client =>
      d.manager.currentActiveSender = some client ∧ d.session.Settled
  | .takeAddress client | .requestBus client _ =>
      d.manager.currentActiveSender = some client ∧ d.manager.sessionState = .request ∧
        d.session.sent = []
  | _ => True

/-- The section neither goes by a look at the session nor brings a byte for it. -/
def Plain (s : Section) : Prop := s.relies = false ∧ s.carries = false

/-- Only the first section of a thread is not plain, with two exceptions. -/
def Tidy (sections : List Section) : Prop :=
  ∀ next rest, sections = next :: rest →
    (∀ s ∈ rest, Plain s) ∨
    (next = .bypassWait ∧ ∃ client more, rest = .trySendNextByte client :: more ∧
      ∀ s ∈ more, Plain s) ∨
    (next = .onBusRequested ∧ ∃ event, rest = [.runRequest event])

/-- The bytes in the hands of a thread. -/
def hands (d : Bridge) (sections : List Section) : List (Nat × UInt8) :=
  sections.filterMap (Section.inHand d.manager.currentActiveSender)

/-- The invariant, seen from one of the threads. -/
structure Orderly (d : Bridge) (mine others : List Section) : Prop where
  written : d.manager.written = (d.past ++ [d.session]).flatMap fun s => s.sent.tail
  past : ∀ s ∈ d.past, s.sent.length ≤ s.confirmed + 1
  gated : d.session.sent.length ≤ d.session.confirmed + 1
  confirmed : d.session.confirmed ≤ d.session.sent.length
  account : ∀ client, d.queuedBy client =
    d.sentBy client ++ ofClient client (d.hands mine ++ d.hands others) ++ d.waiting client
  alone : d.hands mine = [] ∨ d.hands others = []
  sender : ∀ client, d.manager.currentActiveSender = some client → d.session.client = client
  request : d.manager.currentActiveSender ≠ none → d.manager.sessionState = .request →
    d.session.sent = []
  transmit : d.manager.currentActiveSender ≠ none → d.manager.sessionState = .transmit →
    d.session.Settled
  last : ∀ client, d.manager.currentActiveSender = some client → ∀ byte,
    (d.session.sent ++ (d.hands mine ++ d.hands others).map Prod.snd).getLast? = some byte →
    ∃ c, d.manager.clients[client]? = some c ∧ (c.type = .regular → c.lastSentByte = byte)
  mine : Tidy mine ∧ ∀ s ∈ mine, d.Committed s
  others : Tidy others ∧ ∀ s ∈ others, d.Committed s

@[simp] theorem ofClient_nil (client : Nat) : ofClient client [] = [] := rfl

@[simp] theorem ofClient_append (client : Nat) (as bs : List (Nat × UInt8)) :
    ofClient client (as ++ bs) = ofClient client as ++ ofClient client bs := by
  simp [ofClient]

theorem ofClient_map (client other : Nat) (bytes : List UInt8) :
    ofClient client (bytes.map (other, ·)) = if other = client then bytes else [] := by
  unfold ofClient
  split
  · rename_i heq
    rw [List.filter_eq_self.mpr (by simp [heq])]
    simp [Function.comp_def]
  · rename_i hne
    rw [List.filter_eq_nil_iff.mpr (by simp [hne])]
    rfl

theorem inHand_of_not_relies {s : Section} (h : s.relies = false) (sender : Option Nat) :
    s.inHand sender = none := by
  cases s <;> first | rfl | cases h

theorem hands_of_not_relies (d : Bridge) {sections : List Section}
    (h : ∀ s ∈ sections, s.relies = false) : d.hands sections = [] :=
  List.filterMap_eq_nil_iff.mpr fun s hs => inHand_of_not_relies (h s hs) _

theorem hands_append (d : Bridge) (as bs : List Section) :
    d.hands (as ++ bs) = d.hands as ++ d.hands bs := List.filterMap_append

theorem committed_of_plain (d : Bridge) {s : Section} (h : Plain s) : d.Committed s := by
  obtain ⟨hrelies, hcarries⟩ := h
  cases s <;> simp_all [Section.relies, Section.carries, Committed]

/-- Whatever goes by a look at the session knows its sender. -/
theorem sender_of_relies {d : Bridge} {s : Section} (hs : d.Committed s)
    (hrelies : s.relies = true) :
    d.manager.currentActiveSender ≠ none := by
  cases s with
  | bridge client byte result => simp [hs.1]
  | onBusByte client byte result => simp [hs.1]
  | bypassWait => exact hs.1
  | trySendNextByte client => simp [hs.1]
  | writeByte byte => exact hs.1
  | takeAddress client => simp [hs.1]
  | requestBus client byte => simp [hs.1]
  | _ => cases hrelies

theorem tidy_cons {rest : List Section} (s : Section) (h : ∀ t ∈ rest, Plain t) :
    Tidy (s :: rest) := by
  intro next more heq
  obtain ⟨rfl, rfl⟩ := List.cons.inj heq
  exact .inl h

theorem tidy_of_plain {sections : List Section} (h : ∀ t ∈ sections, Plain t) :
    Tidy sections := by
  cases sections with
  | nil =>
      intro next rest heq
      cases heq
  | cons s rest => exact tidy_cons s fun t ht => h t (List.mem_cons_of_mem _ ht)

theorem Tidy.rest {next : Section} {rest : List Section} (h : Tidy (next :: rest))
    (hbypass : next ≠ .bypassWait) (hrequested : next ≠ .onBusRequested) :
    ∀ s ∈ rest, Plain s := by
  obtain hplain | ⟨rfl, -⟩ | ⟨rfl, -⟩ := h next rest rfl
  · exact hplain
  · exact absurd rfl hbypass
  · exact absurd rfl hrequested

theorem Tidy.tail {next : Section} {rest : List Section} (h : Tidy (next :: rest)) : Tidy rest := by
  obtain hplain | ⟨-, client, more, rfl, hmore⟩ | ⟨-, event, rfl⟩ := h next rest rfl
  · exact tidy_of_plain hplain
  · exact tidy_cons _ hmore
  · exact tidy_cons _ (by simp)

/-- No section but the first one is about the address. -/
theorem Tidy.address {next s : Section} {rest : List Section} (h : Tidy (next :: rest))
    (hs : s ∈ rest) :
    (∀ client, s ≠ .takeAddress client) ∧ ∀ client byte, s ≠ .requestBus client byte := by
  have hplain (hp : Plain s) :
      (∀ client, s ≠ .takeAddress client) ∧ ∀ client byte, s ≠ .requestBus client byte := by
    refine ⟨?_, ?_⟩
    · rintro client rfl
      cases hp.1
    · rintro client byte rfl
      cases hp.1
  obtain hrest | ⟨-, client, more, rfl, hmore⟩ | ⟨-, event, rfl⟩ := h next rest rfl
  · exact hplain (hrest s hs)
  · obtain rfl | hs := List.mem_cons.mp hs
    · simp
    · exact hplain (hmore s hs)
  · obtain rfl := List.mem_singleton.mp hs
    simp

/-- The two states differ in nothing that the invariant knows of, the threads apart. -/
structure Alike (d e : Bridge) : Prop where
  past : e.past = d.past
  session : e.session = d.session
  queued : e.queued = d.queued
  written : e.manager.written = d.manager.written
  state : e.manager.sessionState = d.manager.sessionState
  sender : e.manager.currentActiveSender = d.manager.currentActiveSender
  clients : ∀ client : Nat,
    (e.manager.clients[client]?).map Client.view = (d.manager.clients[client]?).map Client.view

section Alike

variable {d e : Bridge}

theorem Alike.committed (h : Alike d e) {s : Section} (hs : d.Committed s) : e.Committed s := by
  obtain ⟨-, session, -, -, state, sender, -⟩ := h
  cases s <;> simp only [Committed, session, state, sender] at hs ⊢ <;> exact hs

theorem Alike.hands (h : Alike d e) (sections : List Section) :
    e.hands sections = d.hands sections := by
  rw [Bridge.hands, h.sender]
  rfl

theorem Alike.waiting (h : Alike d e) (client : Nat) : e.waiting client = d.waiting client := by
  have hview := h.clients client
  unfold Bridge.waiting
  cases hd : d.manager.clients[client]? <;> cases he : e.manager.clients[client]?
  · rfl
  · simp [hd, he] at hview
  · simp [hd, he] at hview
  · simp only [hd, he, Option.map_some, Option.some.injEq, Client.view, Prod.mk.injEq] at hview
    simp [hview.2.1]

theorem Orderly.alike {mine others : List Section} (hi : Orderly d mine others) (h : Alike d e) :
    Orderly e mine others := by
  obtain ⟨written, past, gated, confirmed, account, alone, sender, request, transmit, last, mine,
    others⟩ := hi
  refine ⟨?_, ?_, ?_, ?_, ?_, ?_, ?_, ?_, ?_, ?_, ⟨mine.1, ?_⟩, others.1, ?_⟩
  · rw [h.written, h.past, h.session]
    exact written
  · rw [h.past]
    exact past
  · rw [h.session]
    exact gated
  · rw [h.session]
    exact confirmed
  · intro client
    rw [h.hands, h.hands, h.waiting]
    have haccount := account client
    unfold queuedBy sentBy at *
    rw [h.queued, h.past, h.session]
    exact haccount
  · rw [h.hands, h.hands]
    exact alone
  · rw [h.sender, h.session]
    exact sender
  · rw [h.sender, h.state, h.session]
    exact request
  · rw [h.sender, h.state, h.session]
    exact transmit
  · intro client hsender byte hlast
    rw [h.hands, h.hands, h.session] at hlast
    rw [h.sender] at hsender
    obtain ⟨c, hc, hregular⟩ := last client hsender byte hlast
    have hview := h.clients client
    rw [hc] at hview
    obtain ⟨c', hc', hsame⟩ := Option.map_eq_some_iff.mp hview
    simp only [Client.view, Prod.mk.injEq] at hsame
    refine ⟨c', hc', ?_⟩
    rw [hsame.1, hsame.2.2]
    exact hregular
  · intro s hs
    exact h.committed (mine.2 s hs)
  · intro s hs
    exact h.committed (others.2 s hs)

/-- A thread may go on with other sections that have the same bytes in their hands. -/
theorem Orderly.follow {mine others new : List Section} (hi : Orderly d mine others)
    (hhands : d.hands new = d.hands mine) (hnew : Tidy new ∧ ∀ s ∈ new, d.Committed s) :
    Orderly d new others := by
  obtain ⟨written, past, gated, confirmed, account, alone, sender, request, transmit, last, -,
    others⟩ := hi
  refine ⟨written, past, gated, confirmed, ?_, ?_, sender, request, transmit, ?_, hnew, others⟩
  · rw [hhands]
    exact account
  · rw [hhands]
    exact alone
  · rw [hhands]
    exact last

/-- A section that only looks is followed by sections whose conditions it has found. -/
theorem Orderly.look {next : Section} {rest others new : List Section}
    (hi : Orderly d (next :: rest) others) (h : Alike d e)
    (hnext : ∀ sender, next.inHand sender = none) (htidy : Tidy (new ++ rest))
    (hnew : ∀ s ∈ new, d.Committed s ∧ ∀ sender, s.inHand sender = none) :
    Orderly e (new ++ rest) others := by
  have hnone : d.hands new = [] := List.filterMap_eq_nil_iff.mpr fun s hs => (hnew s hs).2 _
  refine (hi.follow ?_ ⟨htidy, fun s hs => ?_⟩).alike h
  · rw [hands_append, hnone, List.nil_append]
    unfold Bridge.hands
    rw [List.filterMap_cons_none (hnext _)]
  · obtain hs | hs := List.mem_append.mp hs
    · exact (hnew s hs).1
    · exact hi.mine.2 s (List.mem_cons_of_mem _ hs)

/-- The usual case: one section follows. -/
theorem Orderly.next {next s : Section} {rest others : List Section}
    (hi : Orderly d (next :: rest) others) (h : Alike d e)
    (hnext : ∀ sender, next.inHand sender = none) (hrest : ∀ t ∈ rest, Plain t)
    (hs : d.Committed s) (hhand : ∀ sender, s.inHand sender = none) :
    Orderly e (s :: rest) others := by
  show Orderly e ([s] ++ rest) others
  refine hi.look h hnext (tidy_cons s hrest) fun t ht => ?_
  obtain rfl := List.mem_singleton.mp ht
  exact ⟨hs, hhand⟩

/-- Any number of plain sections may follow. -/
theorem Orderly.plain {next : Section} {rest others new : List Section}
    (hi : Orderly d (next :: rest) others) (h : Alike d e)
    (hnext : ∀ sender, next.inHand sender = none) (hrest : ∀ s ∈ rest, Plain s)
    (hnew : ∀ s ∈ new, Plain s) : Orderly e (new ++ rest) others := by
  refine hi.look h hnext (tidy_of_plain ?_) ?_
  · intro s hs
    obtain hs | hs := List.mem_append.mp hs
    · exact hnew s hs
    · exact hrest s hs
  · intro s hs
    exact ⟨d.committed_of_plain (hnew s hs), inHand_of_not_relies (hnew s hs).1⟩

end Alike

/-- A byte of the session has been read back. -/
theorem Committed.confirm {d : Bridge} {s : Section} (hs : d.Committed s)
    (hgated : d.session.sent.length ≤ d.session.confirmed + 1)
    (hopen : d.session.confirmed < d.session.sent.length) :
    { d with session := d.session.confirm }.Committed s := by
  have hflight (byte : UInt8) : InFlight d.session.confirm byte := by
    intro _
    have hend : d.session.sent.length ≤ d.session.confirmed + 1 := hgated
    simp [Session.confirm, List.getElem?_eq_none hend]
  have htold (byte : UInt8) (result : RequestResult) : Told d.session.confirm byte result :=
    ⟨hflight byte, fun _ _ => Nat.succ_pos _⟩
  have hunsettled : ¬ d.session.Settled := fun h => Nat.ne_of_lt hopen h.2
  have hsent : d.session.sent ≠ [] := by
    intro h
    simp [h] at hopen
  cases s with
  | runRequest event => exact fun _ => hflight event.byte
  | onBusEventInfo byte result => exact fun _ => htold byte result
  | bridge client byte result => exact ⟨hs.1, htold byte result⟩
  | onBusByte client byte result => exact ⟨hs.1, htold byte result⟩
  | bypassWait => exact absurd hs.2 hunsettled
  | writeByte byte => exact absurd hs.2 hunsettled
  | trySendNextByte client => exact absurd hs.2 hunsettled
  | takeAddress client => exact absurd hs.2.2 hsent
  | requestBus client byte => exact absurd hs.2.2 hsent
  | _ => exact trivial

theorem Orderly.confirm {d : Bridge} {mine others : List Section} (hi : Orderly d mine others)
    (hopen : d.session.confirmed < d.session.sent.length) :
    Orderly { d with session := d.session.confirm } mine others := by
  obtain ⟨written, past, gated, confirmed, account, alone, sender, request, transmit, last, mine,
    others⟩ := hi
  refine ⟨?_, past, Nat.le_succ_of_le gated, hopen, ?_, alone, sender, request, ?_, last,
    ⟨mine.1, fun s hs => (mine.2 s hs).confirm gated hopen⟩,
    ⟨others.1, fun s hs => (others.2 s hs).confirm gated hopen⟩⟩
  · simpa [Session.confirm] using written
  · intro client
    have haccount := account client
    simp only [sentBy, List.flatMap_append, List.flatMap_singleton] at haccount ⊢
    exact haccount
  · intro hsender hstate
    exact absurd (transmit hsender hstate).2 (Nat.ne_of_lt hopen)

/-- The state of the session changes while nobody goes by it. -/
theorem Committed.transit {d : Bridge} {s : Section} (hs : d.Committed s) (state : SessionState)
    (htake : ∀ client, s ≠ .takeAddress client)
    (hrequest : ∀ client byte, s ≠ .requestBus client byte) :
    { d with manager := d.manager.transitSessionState state }.Committed s := by
  cases s with
  | takeAddress client => exact absurd rfl (htake client)
  | requestBus client byte => exact absurd rfl (hrequest client byte)
  | _ => exact hs

theorem Alike.refl (d : Bridge) : Alike d d := ⟨rfl, rfl, rfl, rfl, rfl, rfl, fun _ => rfl⟩

theorem clients_updateClient (m : ClientManager) {client : Nat} {c : Client} (f : Client → Client)
    (hc : m.clients[client]? = some c) (other : Nat) :
    (m.updateClient client f).clients[other]? =
      if client = other then some (f c) else m.clients[other]? := by
  simp only [ClientManager.updateClient, List.getElem?_modify]
  split
  · rename_i heq
    rw [← heq, hc]
    rfl
  · simp

theorem view_updateClient (m : ClientManager) (client : Nat) {f : Client → Client}
    (hf : ∀ c ∈ m.clients[client]?, (f c).view = c.view) (other : Nat) :
    ((m.updateClient client f).clients[other]?).map Client.view =
      (m.clients[other]?).map Client.view := by
  simp only [ClientManager.updateClient, List.getElem?_modify]
  split
  · rename_i heq
    subst heq
    cases hc : m.clients[client]? with
    | none => rfl
    | some c => simp [hf c hc]
  · simp

theorem popPendingIncomingData_eq {c popped : Client} {byte : UInt8}
    (hpop : c.popPendingIncomingData = (popped, some byte)) :
    popped.type = c.type ∧ popped.lastSentByte = byte ∧
      c.inboundBuffer = byte :: popped.inboundBuffer := by
  unfold Client.popPendingIncomingData at hpop
  split at hpop
  · cases hpop
  · cases hpop
  · rename_i first rest hbuffer htype
    obtain ⟨rfl, hbyte⟩ := Prod.mk.inj hpop
    obtain rfl := Option.some.inj hbyte
    exact ⟨rfl, rfl, hbuffer⟩

section Acts

variable {d : Bridge} {next : Section} {mine rest others : List Section}

/-- The head of a list can be dropped when it has done its work. -/
theorem Orderly.drop (hi : Orderly d (next :: rest) others) (htidy : Tidy rest)
    (hnext : ∀ sender, next.inHand sender = none) : Orderly d rest others :=
  have hlook : Orderly d ([] ++ rest) others := hi.look (.refl d) hnext htidy (by simp)
  hlook

theorem Orderly.transit (hi : Orderly d mine others) {state : SessionState}
    (hstate : state ≠ .request) (hsettled : state = .transmit → d.session.Settled)
    (hmine : ∀ s ∈ mine, (∀ client, s ≠ .takeAddress client) ∧
      ∀ client byte, s ≠ .requestBus client byte)
    (hothers : ∀ s ∈ others, s.relies = false) :
    Orderly { d with manager := d.manager.transitSessionState state } mine others := by
  obtain ⟨written, past, gated, confirmed, account, alone, sender, request, transmit, last, mine,
    others⟩ := hi
  refine ⟨written, past, gated, confirmed, account, alone, sender, ?_, ?_, last,
    ⟨mine.1, fun s hs => ?_⟩, ⟨others.1, fun s hs => ?_⟩⟩
  · intro _ h
    exact absurd h hstate
  · intro _ h
    exact hsettled h
  · exact (mine.2 s hs).transit state (hmine s hs).1 (hmine s hs).2
  · refine (others.2 s hs).transit state ?_ ?_
    · rintro client rfl
      exact absurd (hothers _ hs) (by simp [Section.relies])
    · rintro client byte rfl
      exact absurd (hothers _ hs) (by simp [Section.relies])

/-- The session ends while nobody goes by it. -/
theorem Orderly.endSession (hi : Orderly d mine others) (hmine : ∀ s ∈ mine, Plain s)
    (hothers : ∀ s ∈ others, s.relies = false) :
    Orderly { d with manager := d.manager.endSession } mine others := by
  obtain ⟨written, past, gated, confirmed, account, alone, sender, request, transmit, last, mine,
    others⟩ := hi
  have hnone (e : Bridge) : e.hands _ = [] ∧ e.hands _ = [] :=
    ⟨e.hands_of_not_relies fun s hs => (hmine s hs).1, e.hands_of_not_relies hothers⟩
  refine ⟨written, past, gated, confirmed, ?_, .inl (hnone _).1, by simp [ClientManager.endSession],
    by simp [ClientManager.endSession], by simp [ClientManager.endSession],
    by simp [ClientManager.endSession], ⟨mine.1, fun s hs => ?_⟩, ⟨others.1, fun s hs => ?_⟩⟩
  · intro client
    have haccount := account client
    rw [(hnone d).1, (hnone d).2] at haccount
    rw [(hnone _).1, (hnone _).2]
    exact haccount
  · exact committed_of_plain _ (hmine s hs)
  · have hrelies := hothers s hs
    cases s <;> first | exact trivial | exact fun h => absurd rfl h | cases hrelies

/-- A thread takes a byte of the active client. -/
theorem Orderly.pop (hi : Orderly d (next :: rest) others) {client : Nat} {c popped : Client}
    {byte : UInt8} {taken : Section} (hsender : d.manager.currentActiveSender = some client)
    (hc : d.manager.clients[client]? = some c)
    (hpop : c.popPendingIncomingData = (popped, some byte))
    (hnext : ∀ sender, next.inHand sender = none) (hrest : ∀ s ∈ rest, Plain s)
    (hothers : ∀ s ∈ others, s.relies = false)
    (htaken : taken.inHand (some client) = some (client, byte)) (hcommitted : d.Committed taken) :
    Orderly { d with manager := d.manager.updateClient client fun _ => popped } (taken :: rest)
      others := by
  obtain ⟨written, past, gated, confirmed, account, alone, sender, request, transmit, last, mine,
    others'⟩ := hi
  obtain ⟨htype, hlast, hbuffer⟩ := popPendingIncomingData_eq hpop
  have hbefore : d.hands (next :: rest) = [] := by
    unfold hands
    rw [List.filterMap_cons_none (hnext _)]
    exact d.hands_of_not_relies fun s hs => (hrest s hs).1
  have hclients := clients_updateClient d.manager (fun _ => popped) hc
  have hnone (e : Bridge) : e.hands others = [] := e.hands_of_not_relies hothers
  have hafter : hands { d with manager := d.manager.updateClient client fun _ => popped }
      (taken :: rest) = [(client, byte)] := by
    have hsame : (d.manager.updateClient client fun _ => popped).currentActiveSender =
        some client := hsender
    unfold hands
    rw [hsame, List.filterMap_cons_some htaken]
    congr 1
    exact List.filterMap_eq_nil_iff.mpr fun s hs => inHand_of_not_relies (hrest s hs).1 _
  refine ⟨written, past, gated, confirmed, ?_, .inr (hnone _), sender, request, transmit, ?_,
    ⟨tidy_cons taken hrest, fun s hs => ?_⟩, ⟨others'.1, others'.2⟩⟩
  · intro other
    have haccount := account other
    rw [hbefore, hnone] at haccount
    rw [hafter, hnone]
    show d.queuedBy other = d.sentBy other ++ _ ++ _
    simp only [waiting, hclients]
    simp only [waiting] at haccount
    by_cases heq : client = other
    · subst heq
      simp only [hc, Option.map_some, Option.getD_some, hbuffer] at haccount
      simpa [ofClient] using haccount
    · simpa [ofClient, heq] using haccount
  · intro other hother last' hlast'
    obtain rfl : client = other := Option.some.inj (hsender.symm.trans hother)
    rw [hafter, hnone] at hlast'
    refine ⟨popped, ?_, fun _ => ?_⟩
    · rw [hclients, if_pos rfl]
    · rw [hlast]
      simpa using hlast'
  · obtain rfl | hs := List.mem_cons.mp hs
    · exact hcommitted
    · exact committed_of_plain _ (hrest s hs)

/-- A thread hands the byte that it has taken to the bus. -/
theorem Orderly.send (hi : Orderly d (next :: rest) others) {client : Nat} {byte : UInt8}
    {m : ClientManager} (hsender : d.manager.currentActiveSender = some client)
    (hnext : next.inHand (some client) = some (client, byte))
    (hfull : d.session.confirmed = d.session.sent.length) (hrest : ∀ s ∈ rest, Plain s)
    (hothers : ∀ s ∈ others, Plain s)
    (hclients : m.clients = d.manager.clients) (hsame : m.currentActiveSender = some client)
    (hstate : m.sessionState = .response)
    (hwritten : m.written = d.manager.written ++ if d.session.sent = [] then [] else [byte]) :
    Orderly { d with session := d.session.send byte, manager := m } rest others := by
  obtain ⟨written, past, gated, confirmed, account, alone, sender, request, transmit, last, mine,
    others'⟩ := hi
  have hclient : d.session.client = client := sender client hsender
  have hrests (e : Bridge) : e.hands rest = [] :=
    e.hands_of_not_relies fun s hs => (hrest s hs).1
  have hnone (e : Bridge) : e.hands others = [] :=
    e.hands_of_not_relies fun s hs => (hothers s hs).1
  have hbefore : d.hands (next :: rest) = [(client, byte)] := by
    unfold hands
    rw [hsender, List.filterMap_cons_some hnext, ← hsender]
    congr 1
    exact hrests d
  refine ⟨?_, past, ?_, ?_, ?_, .inr (hnone _), ?_, ?_, ?_, ?_,
    ⟨tidy_of_plain hrest, fun s hs => ?_⟩, ⟨others'.1, fun s hs => ?_⟩⟩
  · rw [hwritten, written]
    simp only [List.flatMap_append, List.flatMap_singleton, Session.send, List.append_assoc]
    congr 1
    split
    · rename_i hempty
      simp [hempty]
    · rename_i hsent
      rw [List.tail_append_of_ne_nil hsent]
  · simp [Session.send, hfull]
  · simp [Session.send, hfull]
  · intro other
    have haccount := account other
    rw [hbefore, hnone] at haccount
    rw [hrests, hnone]
    have hwaiting : waiting { d with session := d.session.send byte, manager := m } other =
        d.waiting other := by
      simp [waiting, hclients]
    rw [hwaiting]
    have hqueued : queuedBy { d with session := d.session.send byte, manager := m } other =
        d.queuedBy other := rfl
    rw [hqueued, haccount]
    simp only [sentBy, List.flatMap_append, List.flatMap_singleton, Session.send, hclient]
    by_cases heq : client = other
    · simp [ofClient, heq]
    · simp [ofClient, heq]
  · intro other hother
    rw [hsame] at hother
    exact hclient.trans (Option.some.inj hother)
  · intro _ h
    simp [hstate] at h
  · intro _ h
    simp [hstate] at h
  · intro other hother last' hlast'
    rw [hsame] at hother
    rw [hrests, hnone] at hlast'
    rw [hclients]
    refine last other (hsender.trans hother) last' ?_
    rw [hbefore, hnone]
    simpa [Session.send] using hlast'
  · exact committed_of_plain _ (hrest s hs)
  · exact committed_of_plain _ (hothers s hs)

/-- A session starts when there is none. -/
theorem Orderly.startSession (hi : Orderly d mine others) (client : Nat) {m : ClientManager}
    (hidle : d.manager.currentActiveSender = none) (hmine : ∀ s ∈ mine, Plain s)
    (hsame : m.currentActiveSender = some client) (hstate : m.sessionState = .request)
    (hwritten : m.written = d.manager.written)
    (hclients : ∀ other : Nat, (m.clients[other]?).map Client.view =
      (d.manager.clients[other]?).map Client.view) :
    Orderly { d with past := d.past ++ [d.session], session := { client }, manager := m } mine
      others := by
  obtain ⟨written, past, gated, confirmed, account, alone, sender, request, transmit, last, mine,
    others'⟩ := hi
  have hothers : ∀ s ∈ others, s.relies = false := by
    intro s hs
    by_contra hrelies
    exact sender_of_relies (others'.2 s hs) (by simpa using hrelies) hidle
  have hnone (e : Bridge) : e.hands _ = [] ∧ e.hands _ = [] :=
    ⟨e.hands_of_not_relies fun s hs => (hmine s hs).1, e.hands_of_not_relies hothers⟩
  refine ⟨?_, ?_, Nat.zero_le _, Nat.le_refl _, ?_, .inl (hnone _).1, ?_, fun _ _ => rfl, ?_, ?_,
    ⟨mine.1, fun s hs => committed_of_plain _ (hmine s hs)⟩, ⟨others'.1, fun s hs => ?_⟩⟩
  · rw [hwritten, written]
    simp
  · intro s hs
    obtain hs | hs := List.mem_append.mp hs
    · exact past s hs
    · obtain rfl := List.mem_singleton.mp hs
      exact gated
  · intro other
    have haccount := account other
    rw [(hnone d).1, (hnone d).2] at haccount
    rw [(hnone _).1, (hnone _).2]
    have hwaiting : waiting { d with past := d.past ++ [d.session], session := { client }
                                     manager := m } other = d.waiting other := by
      have hview := congrArg (Option.map fun v => v.2.1) (hclients other)
      simp only [Option.map_map] at hview
      exact congrArg (Option.getD · []) hview
    rw [hwaiting]
    simpa [queuedBy, sentBy] using haccount
  · intro other hother
    rw [hsame] at hother
    exact Option.some.inj hother
  · intro _ h
    simp [hstate] at h
  · intro other hother last' hlast'
    rw [(hnone _).1, (hnone _).2] at hlast'
    simp at hlast'
  · have hrelies := hothers s hs
    cases s <;>
      first
      | exact trivial
      | exact fun _ h => absurd h (Nat.lt_irrefl 0)
      | exact fun _ => ⟨fun h => absurd h (Nat.lt_irrefl 0), fun _ h => nomatch h⟩
      | cases hrelies

/-- Bytes of a client arrive. -/
theorem Orderly.arrive (hi : Orderly d mine others) {client : Nat} {c grown : Client}
    {m : ClientManager} {bytes : List UInt8} (hc : d.manager.clients[client]? = some c)
    (hbuffer : grown.inboundBuffer = c.inboundBuffer ++ bytes) (htype : grown.type = c.type)
    (hlast : c.type = .regular → grown.lastSentByte = c.lastSentByte)
    (hclients : ∀ other : Nat, m.clients[other]? =
      if client = other then some grown else d.manager.clients[other]?)
    (hsender : m.currentActiveSender = d.manager.currentActiveSender)
    (hstate : m.sessionState = d.manager.sessionState)
    (hwritten : m.written = d.manager.written) :
    Orderly { d with queued := d.queued ++ bytes.map (client, ·), manager := m } mine others := by
  obtain ⟨written, past, gated, confirmed, account, alone, sender, request, transmit, last, mine,
    others⟩ := hi
  have hhands (sections : List Section) :
      hands { d with queued := d.queued ++ bytes.map (client, ·), manager := m } sections =
        d.hands sections := by
    simp [hands, hsender]
  have hcommitted (s : Section) (hs : d.Committed s) :
      Committed { d with queued := d.queued ++ bytes.map (client, ·), manager := m } s := by
    cases s <;> simp only [Committed, hsender, hstate] at hs ⊢ <;> exact hs
  refine ⟨hwritten.trans written, past, gated, confirmed, ?_, ?_, ?_, ?_, ?_, ?_,
    ⟨mine.1, fun s hs => hcommitted s (mine.2 s hs)⟩,
    ⟨others.1, fun s hs => hcommitted s (others.2 s hs)⟩⟩
  · intro other
    rw [hhands, hhands]
    have haccount := account other
    simp only [queuedBy, sentBy, waiting, hclients, ofClient_append, ofClient_map] at haccount ⊢
    rw [haccount]
    by_cases heq : client = other
    · subst heq
      simp [hc, hbuffer]
    · simp [heq]
  · rw [hhands, hhands]
    exact alone
  · simpa only [hsender] using sender
  · simpa only [hsender, hstate] using request
  · simpa only [hsender, hstate] using transmit
  · intro other hother byte hbyte
    rw [hhands, hhands] at hbyte
    rw [hsender] at hother
    obtain ⟨c', hc', hregular⟩ := last other hother byte hbyte
    simp only [hclients]
    split
    · rename_i heq
      subst heq
      obtain rfl := Option.some.inj (hc.symm.trans hc')
      refine ⟨grown, rfl, fun hgrown => ?_⟩
      rw [htype] at hgrown
      rw [hlast hgrown]
      exact hregular hgrown
    · exact ⟨c', hc', hregular⟩

end Acts

end Bridge

end Ebus
