import Ebus.App.ClientManager

/-!
# What the sessions of the clients put on the bus

`Bridge` keeps beside the client manager which bytes the clients have queued and, for
every session, which bytes it has put on the bus and how many of them have been read back.
The first byte of a session is the address that arbitration is asked for, the others are
written. No function of the manager reads these records.

A byte counts as read back when it is delivered by the bus thread after it was written, and
the address when the arbitration is won with it.
-/

namespace Ebus

structure Session where
  client : Nat := 0
  /-- the address, then the bytes written -/
  sent : List UInt8 := []
  confirmed : Nat := 0
  deriving DecidableEq, Repr

namespace Session

def send (s : Session) (byte : UInt8) : Session := { s with sent := s.sent ++ [byte] }

def confirm (s : Session) : Session := { s with confirmed := s.confirmed + 1 }

/-- A byte is delivered that may be the read-back of a byte written. -/
def readBack (s : Session) (byte : UInt8) : Session :=
  if 0 < s.confirmed ∧ s.sent[s.confirmed]? = some byte then s.confirm else s

/-- A byte that decides an arbitration may be the read-back of the address. -/
def readAddress (s : Session) (byte : UInt8) (result : RequestResult) : Session :=
  if s.confirmed = 0 ∧ s.sent[0]? = some byte ∧ (result = .firstWon ∨ result = .secondWon) then
    s.confirm
  else s

end Session

structure Bridge where
  manager : ClientManager := {}
  /-- the sessions before the last one, in order -/
  past : List Session := []
  /-- the last session; before the first one, a session that has sent nothing -/
  session : Session := {}
  /-- the bytes that were queued, each with its client -/
  queued : List (Nat × UInt8) := []
  deriving DecidableEq, Repr

namespace Bridge

/-- The bytes of one client among those of all. -/
def ofClient (client : Nat) (entries : List (Nat × UInt8)) : List UInt8 :=
  (entries.filter fun entry => entry.1 = client).map Prod.snd

variable (d : Bridge)

/-- What a call of `handleIncomingStream` adds to the queue of a client. -/
def arrivals (client : Nat) (data : List UInt8) : List UInt8 :=
  match d.manager.clients[client]? with
  | none => []
  | some c => (c.handleIncomingStream data).1.inboundBuffer.drop c.inboundBuffer.length

/-- What a section of one of the threads adds to the records. -/
def record : Section → Bridge
  | .runRequest event =>
      let request := if event.startBit then d.manager.request.startBit else d.manager.request
      if d.manager.currentActiveSender.isSome then
        { d with session :=
            d.session.readAddress event.byte (request.run event.byte).result }
      else d
  | .startSession client =>
      if d.manager.currentActiveSender.isSome ∨ d.manager.sessionState ≠ .idle then d
      else { d with past := d.past ++ [d.session], session := { client } }
  | .requestBus client byte =>
      if d.manager.sessionState ≠ .request ∨ d.manager.currentActiveSender ≠ some client then d
      else { d with session := d.session.send byte }
  | .writeByte byte =>
      if d.manager.currentActiveSender.isSome then { d with session := d.session.send byte } else d
  | .handleIncomingStream client data =>
      { d with queued := d.queued ++ (d.arrivals client data).map (client, ·) }
  | _ => d

/-- One section with its records. -/
def exec (next : Section) : Bridge := { d.record next with manager := (d.manager.exec next).1 }

def step : ClientManager.Action → Bridge
  | .busEvent event =>
      { d with
        manager := ClientManager.step d.manager (.busEvent event)
        session := if d.manager.bus.isEmpty && d.manager.currentActiveSender.isSome then
          d.session.readBack event.byte else d.session }
  | .bus =>
      match d.manager.bus with
      | [] => d
      | next :: _ => { d.exec next with manager := ClientManager.step d.manager .bus }
  | .io =>
      match d.manager.io with
      | [] => d
      | next :: _ => { d.exec next with manager := ClientManager.step d.manager .io }
  | action => { d with manager := ClientManager.step d.manager action }

/-- The bytes that a client has queued. -/
def queuedBy (client : Nat) : List UInt8 := ofClient client d.queued

/-- The bytes that the sessions of a client have put on the bus. -/
def sentBy (client : Nat) : List UInt8 :=
  (d.past ++ [d.session]).flatMap fun s => if s.client = client then s.sent else []

/-- The bytes of a client that still wait in its queue. -/
def waiting (client : Nat) : List UInt8 :=
  ((d.manager.clients[client]?).map Client.inboundBuffer).getD []

end Bridge

end Ebus
