import Ebus.Core.Request

/-!
# Network clients

A client bridges the bus to a socket. What it sends is queued byte by byte for the bus;
what it is sent is collected in `outgoing`, one entry for each call of
`enqueueOutgoingData`. The ring buffer behind these calls and the capacity of the queue
are left out. An enhanced client packs commands and values into sequences of two bytes.
-/

namespace Ebus

namespace Enhanced

/-- The numbers that requests of a client and answers to it are given on the socket. -/
inductive Command where
  | init
  | send
  | start
  | info
  deriving DecidableEq, Repr

def Command.ofCode : UInt8 → Option Command
  | 0x00 => some .init
  | 0x01 => some .send
  | 0x02 => some .start
  | 0x03 => some .info
  | _ => none

inductive Response where
  | resetted
  | received
  | started
  | info
  | failed
  | errorEbus
  | errorHost
  deriving DecidableEq, Repr

def Response.code : Response → UInt8
  | .resetted => 0x00
  | .received => 0x01
  | .started => 0x02
  | .info => 0x03
  | .failed => 0x0a
  | .errorEbus => 0x0b
  | .errorHost => 0x0c

/-- `Error::framing`, the only one in use. -/
def framing : UInt8 := 0x00

def dataThreshold : UInt8 := 0x80

/-- The command and the value of a sequence `11cc ccdd 10dd dddd`. -/
def decode (first second : UInt8) : Option Command × UInt8 :=
  (Command.ofCode ((first >>> 2) &&& 0x0f), ((first &&& 0x03) <<< 6) ||| (second &&& 0x3f))

def isValidSequence (first second : UInt8) : Bool :=
  first &&& 0xc0 == 0xc0 && second &&& 0xc0 == 0x80

end Enhanced

inductive ClientType where
  | readOnly
  | regular
  | enhanced
  deriving DecidableEq, Repr

/-- What a client wants after a byte of its session. -/
inductive BridgeAction where
  | keepActive
  | stopSession
  | bypassWait
  deriving DecidableEq, Repr

structure Client where
  type : ClientType
  /-- the socket is valid -/
  connected : Bool := true
  inboundBuffer : List UInt8 := []
  lastSentByte : UInt8 := 0
  /-- the bytes of a sequence that is not complete -/
  incomingBuf : List UInt8 := []
  outgoing : List (List UInt8) := []
  deriving DecidableEq, Repr

namespace Client

variable (c : Client)

def isConnected : Bool := c.connected

def isWriteCapable : Bool := c.type != .readOnly

def stop : Client := { c with connected := false }

def enqueueOutgoingData (data : List UInt8) : Client :=
  if !c.connected || data.isEmpty then c else { c with outgoing := c.outgoing ++ [data] }

def createEnhancedResponse (response : Enhanced.Response) (value : UInt8) : Client :=
  c.enqueueOutgoingData [response.code, value]

/-- Only the accumulation of an enhanced client starts anew with a session. -/
def onSessionStart : Client :=
  match c.type with
  | .enhanced => { c with incomingBuf := [] }
  | _ => c

def hasPendingIncomingData : Bool :=
  match c.type with
  | .readOnly => false
  | _ => !c.inboundBuffer.isEmpty

def popPendingIncomingData : Client × Option UInt8 :=
  match c.type, c.inboundBuffer with
  | .readOnly, _ => (c, none)
  | _, [] => (c, none)
  | _, byte :: rest => ({ c with inboundBuffer := rest, lastSentByte := byte }, some byte)

/-- The state of the loop in `handleIncomingStream` of an enhanced client. -/
structure Intake where
  client : Client
  needResetResponse : Bool := false
  needInfoResponse : Bool := false
  /-- the request for the bus is to be reset -/
  resetsRequest : Bool := false
  /-- the loop has been left for a framing error -/
  failed : Bool := false
  deriving DecidableEq, Repr

/-- One complete sequence that has passed its check. -/
def Intake.command (s : Intake) (first second : UInt8) : Intake :=
  let (command, value) := Enhanced.decode first second
  let queued : Client :=
    if s.client.isWriteCapable then
      { s.client with inboundBuffer := s.client.inboundBuffer ++ [value], lastSentByte := value }
    else s.client
  match command with
  | some .init => { s with needResetResponse := true }
  | some .send => { s with client := queued }
  | some .start =>
      if value = Symbols.syn then { s with resetsRequest := true } else { s with client := queued }
  | some .info => { s with needInfoResponse := true }
  | none => s

def Intake.take (s : Intake) (byte : UInt8) : Intake :=
  if s.failed then s
  else
    let emptied : Client := { s.client with incomingBuf := [] }
    match s.client.incomingBuf ++ [byte] with
    | [] => s
    | first :: rest =>
        if first < Enhanced.dataThreshold then
          -- the short form of a byte below the threshold
          { s with client := if s.client.isWriteCapable then
              { emptied with inboundBuffer := emptied.inboundBuffer ++ [first] } else emptied }
        else
          match rest with
          | [] => { s with client := { s.client with incomingBuf := [first] } }
          | second :: _ =>
              if Enhanced.isValidSequence first second then
                { s with client := emptied }.command first second
              else
                { s with
                  client := (emptied.createEnhancedResponse .errorHost Enhanced.framing).stop
                  failed := true }

/-- The version that is answered to an info command. -/
def infoResponse : List UInt8 := [0x08, 0x11, 0x07, 0x9a, 0xeb, 0x0b, 0x21, 0xc4, 0x31]

/-- The bytes of one `recv`, and whether the request for the bus is to be reset. -/
def handleIncomingStream (data : List UInt8) : Client × Bool :=
  match c.type with
  | .readOnly => (c, false)
  | .regular =>
      if !c.connected || data.isEmpty then (c, false)
      else ({ c with inboundBuffer := c.inboundBuffer ++ data }, false)
  | .enhanced =>
      if !c.connected || data.isEmpty then (c, false)
      else
        let s := data.foldl Intake.take { client := c }
        if s.failed then (s.client, s.resetsRequest)
        else
          let answered := if s.needResetResponse then
            s.client.createEnhancedResponse .resetted 0x00 else s.client
          let informed := if s.needInfoResponse then
            infoResponse.foldl (fun c value => c.createEnhancedResponse .info value) answered
            else answered
          (informed, s.resetsRequest)

def onBusByte (byte : UInt8) (result : RequestResult) : Client × BridgeAction :=
  if !c.connected then (c, .stopSession)
  else
    match c.type with
    | .readOnly => (c, .stopSession)
    | .regular =>
        match result with
        | .firstWon | .secondWon => (c.enqueueOutgoingData [byte], .bypassWait)
        | .firstLost | .secondLost | .firstError | .secondError | .retryError => (c, .stopSession)
        | .observeData =>
            if byte = c.lastSentByte then (c.enqueueOutgoingData [byte], .bypassWait)
            else (c, .stopSession)
        | .observeSyn | .firstSyn | .firstRetry | .retrySyn =>
            (c.enqueueOutgoingData [byte], .keepActive)
    | .enhanced =>
        match result with
        | .firstLost | .secondLost => (c.createEnhancedResponse .failed byte, .stopSession)
        | .firstError | .retryError | .secondError =>
            (c.createEnhancedResponse .errorEbus Enhanced.framing, .stopSession)
        | .firstWon | .secondWon => (c.createEnhancedResponse .started byte, .bypassWait)
        | .observeData =>
            (c.createEnhancedResponse .received byte,
              if byte = c.lastSentByte then .bypassWait else .keepActive)
        | .observeSyn | .firstSyn | .firstRetry | .retrySyn =>
            (c.createEnhancedResponse .received byte, .keepActive)

end Client

end Ebus
