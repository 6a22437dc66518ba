import Ebus.Lib.Run
import Ebus.App.Client

/-!
# The inbound queue of a client

`handleIncomingStream` holds the lock of the client while it puts the bytes of a chunk
into a bounded queue, and a push into the full queue waits until a byte is popped.
`popPendingIncomingData` takes the same lock first. The call is therefore modelled round
by round: a round that has to push into the full queue does not go on, and a pop has to
wait while a call is in progress.

`Inbound.rounds_eq` says that a call whose rounds all go on is the function
`Client.handleIncomingStream`.
-/

namespace Ebus

namespace Enhanced

/-- The value of the sequence goes to the bus. -/
def carriesData (first second : UInt8) : Bool :=
  match decode first second with
  | (some .send, _) => true
  | (some .start, value) => value ≠ Symbols.syn
  | _ => false

end Enhanced

namespace Client

/-- Default capacity of a queue. -/
def inboundCapacity : Nat := 32

/-- One round of the loop over a chunk. -/
def Intake.round (s : Intake) (byte : UInt8) : Intake :=
  match s.client.type with
  | .readOnly => s
  | .regular =>
      { s with client := { s.client with inboundBuffer := s.client.inboundBuffer ++ [byte] } }
  | .enhanced => s.take byte

/-- The round puts a byte into the queue. -/
def Intake.pushes (s : Intake) (byte : UInt8) : Bool :=
  match s.client.type with
  | .readOnly => false
  | .regular => true
  | .enhanced =>
      !s.failed &&
        match s.client.incomingBuf ++ [byte] with
        | [] => false
        | first :: rest =>
            if first < Enhanced.dataThreshold then true
            else
              match rest with
              | [] => false
              | second :: _ =>
                  Enhanced.isValidSequence first second && Enhanced.carriesData first second

/-- The bytes of a chunk that go into the queue of an enhanced client, behind the bytes of
an incomplete sequence: the short forms and the values of the complete sequences, up to a
sequence that is not valid. -/
def dataBytes (pending : List UInt8) : List UInt8 → Nat
  | [] => 0
  | byte :: rest =>
      match pending ++ [byte] with
      | [] => 0
      | first :: more =>
          if first < Enhanced.dataThreshold then 1 + dataBytes [] rest
          else
            match more with
            | [] => dataBytes [first] rest
            | second :: _ =>
                if Enhanced.isValidSequence first second then
                  (if Enhanced.carriesData first second then 1 else 0) + dataBytes [] rest
                else 0

/-- The bytes of a chunk that go into the queue. -/
def demand (c : Client) (data : List UInt8) : Nat :=
  match c.type with
  | .readOnly => 0
  | .regular => data.length
  | .enhanced => dataBytes c.incomingBuf data

/-- What is sent after the loop, without the lock. -/
def Intake.finish (s : Intake) : Client :=
  if s.failed then s.client
  else
    let answered := if s.needResetResponse then
      s.client.createEnhancedResponse .resetted 0x00 else s.client
    if s.needInfoResponse then
      infoResponse.foldl (fun c value => c.createEnhancedResponse .info value) answered
    else answered

@[simp] theorem enqueueOutgoingData_type (c : Client) (data : List UInt8) :
    (c.enqueueOutgoingData data).type = c.type := by
  unfold enqueueOutgoingData
  split <;> rfl

@[simp] theorem enqueueOutgoingData_inboundBuffer (c : Client) (data : List UInt8) :
    (c.enqueueOutgoingData data).inboundBuffer = c.inboundBuffer := by
  unfold enqueueOutgoingData
  split <;> rfl

/-- A complete sequence puts its value into the queue, or nothing. -/
theorem Intake.command_spec (s : Intake) (first second : UInt8)
    (henhanced : s.client.type = .enhanced) :
    (s.command first second).client.type = .enhanced ∧
    (s.command first second).failed = s.failed ∧
    (s.command first second).client.incomingBuf = s.client.incomingBuf ∧
    (s.command first second).client.inboundBuffer.length = s.client.inboundBuffer.length +
      if Enhanced.carriesData first second then 1 else 0 := by
  have hwrite : s.client.isWriteCapable = true := by simp [isWriteCapable, henhanced]
  unfold Intake.command Enhanced.carriesData
  obtain ⟨command, value⟩ := Enhanced.decode first second
  simp only [hwrite, if_true]
  cases command with
  | none => simp [henhanced]
  | some command =>
      cases command with
      | init => simp [henhanced]
      | send => simp [henhanced]
      | start =>
          by_cases hsyn : value = Symbols.syn
          · simp [henhanced, hsyn]
          · simp [henhanced, hsyn]
      | info => simp [henhanced]

/-- A round of an enhanced client: the loop has failed before, the short form of a byte, the
start of a sequence, a complete one, or one that is not valid. -/
theorem Intake.take_spec (s : Intake) (byte : UInt8) (henhanced : s.client.type = .enhanced) :
    (s.take byte).client.type = .enhanced ∧
    (s.take byte).client.inboundBuffer.length = s.client.inboundBuffer.length +
      (if s.pushes byte then 1 else 0) ∧
    ∀ rest, (if s.failed then 0 else dataBytes s.client.incomingBuf (byte :: rest)) =
      (if s.pushes byte then 1 else 0) +
        if (s.take byte).failed then 0 else dataBytes (s.take byte).client.incomingBuf rest := by
  have hwrite : s.client.isWriteCapable = true := by simp [isWriteCapable, henhanced]
  cases hfailed : s.failed with
  | true => simp [Intake.take, Intake.pushes, henhanced, hfailed]
  | false =>
      cases hbytes : s.client.incomingBuf ++ [byte] with
      | nil => simp at hbytes
      | cons first more =>
          by_cases hshort : first < Enhanced.dataThreshold
          · simp [Intake.take, Intake.pushes, dataBytes, henhanced, hfailed, hbytes, hshort, hwrite]
          · cases more with
            | nil =>
                simp [Intake.take, Intake.pushes, dataBytes, henhanced, hfailed, hbytes, hshort]
            | cons second more =>
                by_cases hvalid : Enhanced.isValidSequence first second = true
                · have htake : s.take byte = Intake.command
                      { s with client := { s.client with incomingBuf := [] } } first second := by
                    simp [Intake.take, hfailed, hbytes, hshort, hvalid]
                  have hpushes : s.pushes byte = Enhanced.carriesData first second := by
                    simp [Intake.pushes, henhanced, hfailed, hbytes, hshort, hvalid]
                  obtain ⟨htype, hkept, hbuf, hlength⟩ := Intake.command_spec
                    { s with client := { s.client with incomingBuf := [] } } first second henhanced
                  rw [htake, hpushes, hkept, hbuf]
                  refine ⟨htype, hlength, fun rest => ?_⟩
                  simp [dataBytes, hfailed, hbytes, hshort, hvalid]
                · simp [Intake.take, Intake.pushes, dataBytes, hfailed, hbytes, hshort, hvalid,
                    createEnhancedResponse, stop, henhanced]

/-- The bytes that the rest of a chunk puts into the queue. -/
def Intake.demand (s : Intake) (rest : List UInt8) : Nat :=
  if s.failed then 0 else s.client.demand rest

/-- Only the loop of an enhanced client can fail. -/
def Intake.Plausible (s : Intake) : Prop := s.failed = false ∨ s.client.type = .enhanced

theorem Intake.round_spec (s : Intake) (byte : UInt8) (hs : s.Plausible) :
    (s.round byte).Plausible ∧
    (s.round byte).client.inboundBuffer.length = s.client.inboundBuffer.length +
      (if s.pushes byte then 1 else 0) ∧
    ∀ rest, s.demand (byte :: rest) =
      (if s.pushes byte then 1 else 0) + (s.round byte).demand rest := by
  cases htype : s.client.type with
  | readOnly =>
      have hround : s.round byte = s := by simp [Intake.round, htype]
      rw [hround]
      refine ⟨hs, ?_, fun rest => ?_⟩
      · simp [Intake.pushes, htype]
      · simp [Intake.pushes, Intake.demand, Client.demand, htype]
  | regular =>
      have hfailed : s.failed = false := by simpa [Intake.Plausible, htype] using hs
      refine ⟨.inl (by simpa [Intake.round, htype] using hfailed), ?_, fun rest => ?_⟩
      · simp [Intake.round, Intake.pushes, htype]
      · simp [Intake.round, Intake.pushes, Intake.demand, Client.demand, htype, hfailed,
          Nat.add_comm]
  | enhanced =>
      have hround : s.round byte = s.take byte := by simp [Intake.round, htype]
      obtain ⟨hkept, hlength, hdemand⟩ := s.take_spec byte htype
      rw [hround]
      refine ⟨.inr hkept, hlength, fun rest => ?_⟩
      simpa [Intake.demand, Client.demand, htype, hkept] using hdemand rest

end Client

open Client

/-- A call of `handleIncomingStream` that has the lock: its loop and the bytes to come. -/
structure Inbound.Call where
  intake : Intake
  rest : List UInt8
  deriving DecidableEq, Repr

structure Inbound where
  client : Client
  call : Option Inbound.Call := none
  /-- the call is in the waiting branch of a push -/
  waiting : Bool := false
  deriving DecidableEq, Repr

namespace Inbound

inductive Action where
  /-- the I/O thread enters `handleIncomingStream` -/
  | handleIncomingStream (data : List UInt8)
  /-- the call in progress goes on by one round, or ends -/
  | goOn
  | popPendingIncomingData
  deriving DecidableEq, Repr

def goOn (s : Inbound) (call : Call) : Inbound :=
  match call.rest with
  | [] => { client := call.intake.finish }
  | byte :: rest =>
      if call.intake.pushes byte = true ∧
          inboundCapacity ≤ call.intake.client.inboundBuffer.length then
        { s with waiting := true }
      else { s with call := some { intake := call.intake.round byte, rest }, waiting := false }

/-- There is one I/O thread, so that no call is entered during another one. -/
def step (s : Inbound) : Action → Inbound
  | .handleIncomingStream data =>
      if s.call.isSome || !s.client.connected || !s.client.isWriteCapable || data.isEmpty then s
      else { s with call := some { intake := { client := s.client }, rest := data } }
  | .goOn =>
      match s.call with
      | none => s
      | some call => s.goOn call
  | .popPendingIncomingData =>
      if s.call.isSome then s else { s with client := s.client.popPendingIncomingData.1 }

/-- A call whose rounds all go on. -/
theorem rounds_eq (c : Client) (data : List UInt8) (connected : c.connected = true)
    (writeCapable : c.isWriteCapable = true) (nonempty : data ≠ []) :
    (data.foldl Intake.round { client := c }).finish = (c.handleIncomingStream data).1 := by
  have hdata : data.isEmpty = false := by simp [nonempty]
  cases htype : c.type with
  | readOnly => simp [isWriteCapable, htype] at writeCapable
  | regular =>
      have hfold (s : Intake) (hs : s.client.type = .regular) :
          data.foldl Intake.round s =
            { s with client :=
                { s.client with inboundBuffer := s.client.inboundBuffer ++ data } } := by
        clear nonempty hdata
        induction data generalizing s with
        | nil => simp
        | cons byte data ih =>
            rw [List.foldl_cons, ih _ (by simp [Intake.round, hs])]
            simp [Intake.round, hs]
      rw [hfold _ htype]
      simp [handleIncomingStream, htype, connected, hdata, Intake.finish]
  | enhanced =>
      have hfold : data.foldl Intake.round { client := c } =
          data.foldl Intake.take { client := c } := by
        have hsame (s : Intake) (hs : s.client.type = .enhanced) :
            data.foldl Intake.round s = data.foldl Intake.take s := by
          clear nonempty hdata
          induction data generalizing s with
          | nil => rfl
          | cons byte data ih =>
              have hround : s.round byte = s.take byte := by simp [Intake.round, hs]
              rw [List.foldl_cons, List.foldl_cons, hround, ih _ (s.take_spec byte hs).1]
        exact hsame _ htype
      rw [hfold]
      simp only [handleIncomingStream, htype, connected, hdata, Intake.finish, Bool.not_true,
        Bool.or_self, Bool.false_eq_true, if_false]
      split <;> rfl

end Inbound

end Ebus
