import Ebus.App.ClientManager
import Ebus.Lib.Run
import Mathlib.Logic.Function.Iterate

/-!
# The chunks of a client's stream

The I/O thread hands the bytes of each `recv` to the client and then, where no session is
active, starts one for it if it has something for the bus. What the session takes from the
queue of the client before the next chunk is an input here, as is whether a session is active.

`ClientManager.runIo_receive` connects this to the sections of the I/O thread.
-/

namespace Ebus

namespace Enhanced

/-- What the loop over the incoming bytes finds. -/
inductive Item where
  /-- the short form of a byte -/
  | short (byte : UInt8)
  | sequence (command : Option Command) (value : UInt8)
  /-- two bytes that are no valid sequence -/
  | broken
  deriving DecidableEq, Repr

/-- The items of some bytes, behind those of an incomplete sequence, and the bytes that stay
incomplete. Nothing is read behind a sequence that is not valid. -/
def scan : List UInt8 → List UInt8 → List Item × List UInt8
  | pending, [] => ([], pending)
  | [], byte :: rest =>
      if byte < dataThreshold then
        let (items, pending) := scan [] rest
        (.short byte :: items, pending)
      else scan [byte] rest
  | first :: _, byte :: rest =>
      if isValidSequence first byte then
        let (items, pending) := scan [] rest
        (.sequence (decode first byte).1 (decode first byte).2 :: items, pending)
      else ([.broken], [])

/-- The items of each chunk. The connection ends with a sequence that is not valid. -/
def scanChunks (pending : List UInt8) : List (List UInt8) → List (List Item)
  | [] => []
  | chunk :: rest =>
      let (items, pending) := scan pending chunk
      if .broken ∈ items then items :: rest.map fun _ => []
      else items :: scanChunks pending rest

/-- What an item puts into the queue for the bus. -/
def Item.pushed : Item → List UInt8
  | .short byte => [byte]
  | .sequence (some .send) value => [value]
  | .sequence (some .start) value => if value = Symbols.syn then [] else [value]
  | _ => []

def Item.asksReset : Item → Bool
  | .sequence (some .init) _ => true
  | _ => false

def Item.asksInfo : Item → Bool
  | .sequence (some .info) _ => true
  | _ => false

end Enhanced

namespace Client

/-- `tryStartSessionForClient` while no session is active. -/
def tryStartSession (c : Client) : Client :=
  if c.isConnected && c.isWriteCapable && c.hasPendingIncomingData then c.onSessionStart else c

end Client

/-- A chunk of the stream and what happens until the next one. -/
structure Arrival where
  data : List UInt8
  /-- no session is active when the client has the chunk -/
  idle : Bool := false
  /-- how many bytes the session takes -/
  takes : Nat := 0
  deriving DecidableEq, Repr

/-- A client and the bytes that were taken from its queue. -/
structure Served where
  client : Client
  taken : List UInt8 := []
  deriving DecidableEq, Repr

namespace Served

/-- All that was ever put into the queue. -/
def pushed (s : Served) : List UInt8 := s.taken ++ s.client.inboundBuffer

/-- The session takes a byte. -/
def take (s : Served) : Served :=
  match s.client.popPendingIncomingData with
  | (client, some byte) => { client, taken := s.taken ++ [byte] }
  | (_, none) => s

def receive (s : Served) (arrival : Arrival) : Served :=
  let client := (s.client.handleIncomingStream arrival.data).1
  let client := if arrival.idle then client.tryStartSession else client
  take^[arrival.takes] { s with client }

/-- What the stream of a client has led to: the bytes for the bus, the responses, and whether
the client is still connected. -/
def outcome (s : Served) : List UInt8 × List (List UInt8) × Bool :=
  (s.pushed, s.client.outgoing, s.client.connected)

/-- A new enhanced client. -/
def fresh : Served := { client := { type := .enhanced } }

end Served

namespace ClientManager

theorem step_io {m : ClientManager} {next : Section} {rest : List Section}
    (hio : m.io = next :: rest) :
    step m .io = { (m.exec next).1 with io := (m.exec next).2 ++ rest } := by
  simp only [step, runIo, hio]

theorem step_io_nil {m : ClientManager} (hio : m.io = []) : step m .io = m := by
  simp only [step, runIo, hio]

section Receive
variable {m : ClientManager} {client : Nat} {c : Client}

theorem getElem?_updateClient (hclient : m.clients[client]? = some c) (f : Client → Client) :
    (m.updateClient client f).clients[client]? = some (f c) := by
  simp [updateClient, hclient]

/-- The end of `handleSocketInput` for a client that is transmitting. -/
theorem run_trySendNextByte (hclient : m.clients[client]? = some c)
    (hio : m.io = [.trySendNextByte client]) :
    (Runs.run step m [.io, .io]).clients[client]? =
      some (if c.isConnected then c.popPendingIncomingData.1 else c) := by
  rw [Runs.run_cons, Runs.run_cons, Runs.run_nil, step_io hio]
  simp only [exec, hclient]
  by_cases hconnected : c.isConnected = true
  · simp only [hconnected, if_true]
    cases hpop : c.popPendingIncomingData with | mk popped byte =>
    cases byte with
    | none =>
        have hsame : popped = c := by
          unfold Client.popPendingIncomingData at hpop
          split at hpop <;> cases hpop <;> rfl
        rw [step_io_nil rfl, hsame]
        exact hclient
    | some byte =>
        rw [step_io rfl]
        have hwrite (d : ClientManager) : (d.writeByte byte).clients = d.clients := by
          unfold writeByte
          split <;> rfl
        dsimp only [exec]
        rw [hwrite]
        exact getElem?_updateClient hclient _
  · simp only [hconnected, Bool.false_eq_true, if_false, List.append_nil]
    rw [step_io_nil rfl]
    exact hclient

/-- The end of `handleSocketInput` for another client. -/
theorem run_tryStartSession (hclient : m.clients[client]? = some c)
    (hio : m.io = [.tryStartSessionForClient client]) :
    (Runs.run step m [.io, .io]).clients[client]? =
      some (if m.currentActiveSender = none ∧ m.sessionState = .idle then c.tryStartSession
        else c) := by
  rw [Runs.run_cons, Runs.run_cons, Runs.run_nil, step_io hio]
  unfold Client.tryStartSession
  simp only [exec, hclient]
  by_cases hready : (c.isConnected && c.isWriteCapable && c.hasPendingIncomingData) = true
  · simp only [hready, if_true, List.append_nil]
    rw [step_io rfl]
    dsimp only [exec, startSession]
    by_cases hbusy : m.currentActiveSender.isSome ∨ m.sessionState ≠ .idle
    · rw [if_pos hbusy, if_neg]
      · exact hclient
      · rintro ⟨hnone, hidle⟩
        simp [hnone, hidle] at hbusy
    · rw [if_neg hbusy, if_pos]
      · exact getElem?_updateClient hclient _
      · simpa using hbusy
  · simp only [hready, Bool.false_eq_true, if_false, List.append_nil, ite_self]
    rw [step_io_nil rfl]
    exact hclient

/-- The I/O thread with a chunk of a client, while the other thread does nothing: behind the
chunk the client is asked for a byte if it is transmitting, or given a session if nobody has
one. -/
theorem runIo_receive (data : List UInt8) (hclient : m.clients[client]? = some c)
    (hio : m.io = [.handleIncomingStream client data]) :
    (Runs.run step m [.io, .io, .io, .io]).clients[client]? = some
      (if m.currentActiveSender = some client ∧ m.sessionState = .transmit then
        let c := (c.handleIncomingStream data).1
        if c.isConnected then c.popPendingIncomingData.1 else c
      else if m.currentActiveSender = none ∧ m.sessionState = .idle then
        (c.handleIncomingStream data).1.tryStartSession
      else (c.handleIncomingStream data).1) := by
  -- the client has its bytes; a start command with SYN resets the arbitration
  obtain ⟨d, hd, hsender, hstate, hio'⟩ : ∃ d, step m .io = d ∧
      d.currentActiveSender = m.currentActiveSender ∧ d.sessionState = m.sessionState ∧
      d.io = [.handleSocketInput client] := by
    refine ⟨_, rfl, ?_, ?_, ?_⟩ <;> rw [step_io hio]
    · simp only [exec, hclient]
      split <;> rfl
    · simp only [exec, hclient]
      split <;> rfl
    · simp only [exec, hclient, List.append_nil]
  have hclient' : d.clients[client]? = some (c.handleIncomingStream data).1 := by
    rw [← hd, step_io hio]
    simp only [exec, hclient]
    split <;> exact getElem?_updateClient hclient _
  rw [Runs.run_cons, hd, Runs.run_cons, step_io hio', ← hsender, ← hstate]
  simp only [exec]
  by_cases htransmit : d.currentActiveSender = some client ∧ d.sessionState = .transmit
  · rw [if_pos htransmit, if_pos htransmit]
    exact run_trySendNextByte (m := { d with io := [.trySendNextByte client] }) hclient' rfl
  · rw [if_neg htransmit, if_neg htransmit]
    exact run_tryStartSession (m := { d with io := [.tryStartSessionForClient client] })
      hclient' rfl

end Receive

end ClientManager

end Ebus
