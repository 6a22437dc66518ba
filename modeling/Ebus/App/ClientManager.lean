import Ebus.App.Client
import Ebus.Core.BusHandler

/-!
# Sessions of network clients

`ClientManager` gives the bus to one client at a time. Two threads work on it: the bus
thread delivers what was read, the I/O thread serves the sockets. They share the state of
the session behind a mutex, which is given back between the parts of a function, so the
other thread can change the session there.

A function is cut where that can happen: `Section` lists the parts, each one step. The
parts under the mutex are the critical sections of the source; between two of them stand
what a client does under its own lock and what is done without any. A thread is the list of
sections that it has still to run. The clock is an input, log texts, the counter of
sessions and the forwarding to the other clients are left out, and the manager is taken to
be running.
-/

namespace Ebus

inductive SessionState where
  | idle
  | request
  | response
  | transmit
  deriving DecidableEq, Repr

/-- A step of one of the two threads. Clients are named by the order of their arrival. -/
inductive Section where
  /-- `BusHandler::onBusEvent`: the arbitration machine consumes the byte -/
  | runRequest (event : BusEvent)
  | onBusRequested
  /-- `onBusEventInfo`: look up the active sender -/
  | onBusEventInfo (byte : UInt8) (result : RequestResult)
  | bridge (client : Nat) (byte : UInt8) (result : RequestResult)
  | onBusByte (client : Nat) (byte : UInt8) (result : RequestResult)
  /-- the wait of a session is over -/
  | bypassWait
  /-- a session may wait for the bus: the fallback of the I/O loop also looks at the sender -/
  | checkRequest (withSender : Bool)
  /-- `handleBusAvailableForSession`: look up the active sender, take its first byte, ask -/
  | handleBusAvailableForSession
  | takeAddress (client : Nat)
  | requestBus (client : Nat) (byte : UInt8)
  /-- `handleSocketInput`: queue the bytes, look up the session -/
  | handleIncomingStream (client : Nat) (data : List UInt8)
  | handleSocketInput (client : Nat)
  /-- `tryStartSessionForClient`: look at the client, then at the session -/
  | tryStartSessionForClient (client : Nat)
  | startSession (client : Nat)
  /-- `trySendNextByte`: take a byte of the client, write it -/
  | trySendNextByte (client : Nat)
  | writeByte (byte : UInt8)
  | stopActiveSession
  | stopClient (client : Nat)
  | resetRequest
  | checkSessionTimeout (elapsed : Bool)
  | handleActiveSenderDisconnected
  deriving DecidableEq, Repr

structure ClientManager where
  sessionState : SessionState := .idle
  currentActiveSender : Option Nat := none
  /-- all clients that have come, also those that have gone -/
  clients : List Client := []
  request : Request := {}
  /-- the bytes handed to the bus -/
  written : List UInt8 := []
  bus : List Section := []
  io : List Section := []
  deriving DecidableEq, Repr

namespace ClientManager

section Sections

variable (m : ClientManager)

def isConnected (client : Nat) : Bool := (m.clients[client]?).any Client.isConnected

def updateClient (client : Nat) (f : Client → Client) : ClientManager :=
  { m with clients := m.clients.modify client f }

def transitSessionState (state : SessionState) : ClientManager := { m with sessionState := state }

/-- The end of a session: the sender is forgotten. -/
def endSession : ClientManager := { m with currentActiveSender := none, sessionState := .idle }

def onBusRequested : ClientManager :=
  if m.sessionState = .request ∧ m.currentActiveSender.isSome then
    m.transitSessionState .response
  else m

def writeByte (byte : UInt8) : ClientManager :=
  let m := { m with written := m.written ++ [byte] }
  -- the session is complete after a clean SYN
  if byte = Symbols.syn then m.endSession else m.transitSessionState .response

def requestBus (client : Nat) (byte : UInt8) : ClientManager :=
  if m.sessionState ≠ .request ∨ m.currentActiveSender ≠ some client then m
  else { m with request := (m.request.requestBus byte true).1 }.transitSessionState .response

def startSession (client : Nat) : ClientManager :=
  if m.currentActiveSender.isSome ∨ m.sessionState ≠ .idle then m
  else
    { m with currentActiveSender := some client }.transitSessionState .request
      |>.updateClient client Client.onSessionStart

/-- One section: the state behind it, and the sections that it is followed by. -/
def exec : Section → ClientManager × List Section
  | .runRequest event =>
      let request := if event.startBit then m.request.startBit else m.request
      let request := request.run event.byte
      ({ m with request }, [.onBusEventInfo event.byte request.result])
  | .onBusRequested => (m.onBusRequested, [])
  | .onBusEventInfo byte result =>
      match m.currentActiveSender with
      | some client => (m, [.bridge client byte result])
      | none => (m, [])
  | .bridge client byte result =>
      if m.isConnected client then (m, [.onBusByte client byte result]) else (m, [])
  | .onBusByte client byte result =>
      match m.clients[client]? with
      | none => (m, [])
      | some c =>
          let (c, action) := c.onBusByte byte result
          let m := m.updateClient client fun _ => c
          match action with
          | .keepActive => (m, [.checkRequest false])
          | .stopSession => (m, [.stopActiveSession, .checkRequest false])
          | .bypassWait => (m, [.bypassWait, .trySendNextByte client, .checkRequest false])
  | .bypassWait => (m.transitSessionState .transmit, [])
  | .checkRequest withSender =>
      if m.sessionState = .request ∧ (withSender = true → m.currentActiveSender.isSome) then
        (m, [.handleBusAvailableForSession])
      else (m, [])
  | .handleBusAvailableForSession =>
      match m.currentActiveSender with
      | some client =>
          if m.sessionState = .request then (m, [.takeAddress client]) else (m, [])
      | none => (m, [])
  | .takeAddress client =>
      match m.clients[client]? with
      | none => (m, [])
      | some c =>
          if c.isConnected && m.request.busAvailable then
            match c.popPendingIncomingData with
            | (c, some byte) => (m.updateClient client fun _ => c, [.requestBus client byte])
            | (_, none) => (m, [.stopActiveSession])
          else (m, [])
  | .requestBus client byte => (m.requestBus client byte, [])
  | .handleIncomingStream client data =>
      match m.clients[client]? with
      | none => (m, [])
      | some c =>
          let (c, resets) := c.handleIncomingStream data
          let m := if resets then { m with request := m.request.reset } else m
          (m.updateClient client fun _ => c, [.handleSocketInput client])
  | .handleSocketInput client =>
      if m.currentActiveSender = some client ∧ m.sessionState = .transmit then
        (m, [.trySendNextByte client])
      else (m, [.tryStartSessionForClient client])
  | .tryStartSessionForClient client =>
      match m.clients[client]? with
      | none => (m, [])
      | some c =>
          if c.isConnected && c.isWriteCapable && c.hasPendingIncomingData then
            (m, [.startSession client])
          else (m, [])
  | .startSession client => (m.startSession client, [])
  | .trySendNextByte client =>
      match m.clients[client]? with
      | none => (m, [])
      | some c =>
          if c.isConnected then
            match c.popPendingIncomingData with
            | (c, some byte) => (m.updateClient client fun _ => c, [.writeByte byte])
            | (_, none) => (m, [])
          else (m, [])
  | .writeByte byte => (m.writeByte byte, [])
  | .stopActiveSession =>
      match m.currentActiveSender with
      | some client => (m.endSession, [.stopClient client, .resetRequest])
      | none => (m, [])
  | .stopClient client => (m.updateClient client Client.stop, [])
  | .resetRequest => ({ m with request := m.request.reset }, [])
  | .checkSessionTimeout elapsed =>
      match m.currentActiveSender with
      | some _ => if elapsed then (m, [.stopActiveSession]) else (m, [])
      | none => (m, [])
  | .handleActiveSenderDisconnected =>
      match m.currentActiveSender with
      | some client =>
          if m.isConnected client then (m, [])
          else (m.endSession, [.stopClient client, .resetRequest])
      | none => (m, [])

end Sections

inductive Action where
  /-- the bus thread delivers an event -/
  | busEvent (event : BusEvent)
  /-- a `recv` has returned bytes of a client -/
  | receive (client : Nat) (data : List UInt8)
  /-- nothing has happened on the sockets for a while; has the session timed out? -/
  | idleTick (elapsed : Bool)
  | stopActiveSession
  /-- the next section of a thread -/
  | bus
  | io
  | addClient (type : ClientType)
  /-- a socket is closed: by its peer, after an error or by `removeClient` -/
  | disconnect (client : Nat)
  /-- the other users of the arbitration machine -/
  | requestBus (address : UInt8)
  | setLockCounter (lockCounter : UInt8)
  deriving DecidableEq, Repr

/-- A thread takes up a new task when it has finished the last one. The flag of the reader
is dealt with before the byte: the manager is called back if the request was a client's. -/
def busEvent (m : ClientManager) (event : BusEvent) : ClientManager :=
  if m.bus.isEmpty then
    let request := if event.busRequest then m.request.busRequestCompleted else m.request
    { m with
      request
      bus := (if event.busRequest && request.externalBusRequest then [.onBusRequested] else []) ++
        [.runRequest event] }
  else m

def ioTask (m : ClientManager) (sections : List Section) : ClientManager :=
  if m.io.isEmpty then { m with io := sections } else m

def runBus (m : ClientManager) : ClientManager :=
  match m.bus with
  | [] => m
  | next :: rest =>
      let (m, sections) := m.exec next
      { m with bus := sections ++ rest }

def runIo (m : ClientManager) : ClientManager :=
  match m.io with
  | [] => m
  | next :: rest =>
      let (m, sections) := m.exec next
      { m with io := sections ++ rest }

def step (m : ClientManager) : Action → ClientManager
  | .busEvent event => m.busEvent event
  | .receive client data =>
      if m.isConnected client then m.ioTask [.handleIncomingStream client data] else m
  | .idleTick elapsed =>
      m.ioTask [.checkSessionTimeout elapsed, .handleActiveSenderDisconnected, .checkRequest true]
  | .stopActiveSession => m.ioTask [.stopActiveSession]
  | .bus => m.runBus
  | .io => m.runIo
  | .addClient type => { m with clients := m.clients ++ [{ type }] }
  | .disconnect client => m.updateClient client Client.stop
  | .requestBus address => { m with request := (m.request.requestBus address false).1 }
  | .setLockCounter lockCounter => { m with request := m.request.setLockCounter lockCounter }

end ClientManager

end Ebus
