import Ebus.Verification.Segmentation

/-!
# The echo of an enhanced client

`onBusByte` compares a bus byte with `lastSentByte`, which both the socket and the bus side write:
`popPendingIncomingData` with the byte that goes to the bus, `handleIncomingStream` with the value
of a pair that is only queued. The comparison is with the byte that was sent as long as no other
value has been queued in between.
-/

namespace Ebus

open Client Enhanced

/-- What an item queues as the value of a pair. -/
def Enhanced.Item.paired : Enhanced.Item → List UInt8
  | .short _ => []
  | item => item.pushed

namespace Client

theorem lastSentByte_createEnhancedResponse (c : Client) (response : Response) (value : UInt8) :
    (c.createEnhancedResponse response value).lastSentByte = c.lastSentByte :=
  congrArg (fun view => view.2.2) (c.view_enqueueOutgoingData [response.code, value])

/-- A complete sequence. -/
theorem lastSentByte_command (s : Intake) (first second : UInt8)
    (htype : s.client.type = .enhanced) :
    (s.command first second).client.lastSentByte =
      (Enhanced.Item.sequence (Enhanced.decode first second).1
        (Enhanced.decode first second).2).paired.getLast?.getD s.client.lastSentByte := by
  have hwrite : s.client.isWriteCapable = true := by simp [isWriteCapable, htype]
  rw [Intake.command]
  obtain ⟨command, value⟩ := Enhanced.decode first second
  cases command with
  | none => rfl
  | some command =>
      cases command with
      | init | info => rfl
      | send => simp [hwrite, Enhanced.Item.paired, Enhanced.Item.pushed]
      | start =>
          by_cases hsyn : value = Symbols.syn
          · simp [hsyn, Enhanced.Item.paired, Enhanced.Item.pushed]
          · simp [hsyn, hwrite, Enhanced.Item.paired, Enhanced.Item.pushed]

theorem getD_getLast?_append (as bs : List UInt8) (byte : UInt8) :
    (as ++ bs).getLast?.getD byte = bs.getLast?.getD (as.getLast?.getD byte) := by
  rw [List.getLast?_append]
  cases bs.getLast? <;> rfl

/-- By induction on the bytes, with the byte that waits general. -/
theorem lastSentByte_foldl_take (s : Intake) (data : List UInt8) (htype : s.client.type = .enhanced)
    (hok : s.failed = false) (hwaits : Waits s.client.incomingBuf) :
    (data.foldl Intake.take s).client.lastSentByte =
      ((scan s.client.incomingBuf data).1.flatMap Enhanced.Item.paired).getLast?.getD
        s.client.lastSentByte := by
  induction data generalizing s with
  | nil =>
      rw [scan]
      rfl
  | cons byte data ih =>
      rw [List.foldl_cons]
      obtain hnone | ⟨first, hfirst, hlarge⟩ := hwaits
      · by_cases hshort : byte < dataThreshold
        · have htake : s.take byte = { s with client := { s.client with
              incomingBuf := [], inboundBuffer := s.client.inboundBuffer ++ [byte] } } := by
            simp [Intake.take, hok, hnone, hshort, isWriteCapable, htype]
          rw [htake, hnone, scan, if_pos hshort]
          exact ih _ htype hok (.inl rfl)
        · have htake : s.take byte = { s with client := { s.client with
              incomingBuf := [byte] } } := by
            simp [Intake.take, hok, hnone, hshort]
          rw [htake, hnone, scan, if_neg hshort]
          exact ih _ htype hok (.inr ⟨byte, rfl, hshort⟩)
      · by_cases hvalid : isValidSequence first byte = true
        · have htake : s.take byte = Intake.command
              { s with client := { s.client with incomingBuf := [] } } first byte := by
            simp [Intake.take, hok, hfirst, hlarge, hvalid]
          obtain ⟨htype', -, -, -, hfailed, hbuf, -, -⟩ :=
            Intake.command_eq { s with client := { s.client with incomingBuf := [] } } first byte
              htype
          have hcommand := lastSentByte_command
            { s with client := { s.client with incomingBuf := [] } } first byte htype
          rw [← htake] at htype' hfailed hbuf hcommand
          rw [ih (s.take byte) htype' (hfailed.trans hok) (.inl hbuf), hbuf, hcommand, hfirst, scan,
            if_pos hvalid]
          exact (getD_getLast?_append _ _ _).symm
        · have htake : s.take byte = { s with
              client := (({ s.client with incomingBuf := [] } : Client).createEnhancedResponse
                .errorHost framing).stop, failed := true } := by
            simp [Intake.take, hok, hfirst, hlarge, hvalid]
          have hfailed : (s.take byte).failed = true := by rw [htake]
          rw [Intake.foldl_take_failed hfailed, htake, hfirst, scan, if_neg hvalid]
          exact lastSentByte_createEnhancedResponse _ _ _

theorem lastSentByte_foldl {c : Client} (response : Response) (values : List UInt8) :
    (values.foldl (fun c value => c.createEnhancedResponse response value) c).lastSentByte =
      c.lastSentByte := by
  induction values generalizing c with
  | nil => rfl
  | cons value values ih =>
      rw [List.foldl_cons, ih, lastSentByte_createEnhancedResponse]

/-- The reference behind a chunk is the value of the last pair that is queued from it. -/
theorem lastSentByte_handleIncomingStream {c : Client} (htype : c.type = .enhanced)
    (hconnected : c.connected = true) (hwaits : Waits c.incomingBuf) (data : List UInt8) :
    (c.handleIncomingStream data).1.lastSentByte =
      ((scan c.incomingBuf data).1.flatMap Enhanced.Item.paired).getLast?.getD
        c.lastSentByte := by
  have hfold := lastSentByte_foldl_take { client := c } data htype rfl hwaits
  cases data with
  | nil => simp [handleIncomingStream, htype, scan]
  | cons byte data =>
      rw [← hfold]
      simp only [handleIncomingStream, htype, hconnected, Bool.not_true, List.isEmpty_cons,
        Bool.or_self, Bool.false_eq_true, if_false]
      split
      · rfl
      · dsimp only
        split
        · rw [lastSentByte_foldl]
          split
          · exact lastSentByte_createEnhancedResponse _ _ _
          · rfl
        · split
          · exact lastSentByte_createEnhancedResponse _ _ _
          · rfl

end Client

/-- An enhanced client with the byte that was last taken for the bus, and the value of the last
pair that was queued since. -/
structure Echoed where
  client : Client := { type := .enhanced }
  sent : Option UInt8 := none
  queued : Option UInt8 := none
  deriving DecidableEq, Repr

namespace Echoed

/-- The calls that the threads make, in any order. -/
inductive Action where
  | handleIncomingStream (data : List UInt8)
  | popPendingIncomingData
  | onBusByte (byte : UInt8) (result : RequestResult)
  | enqueueOutgoingData (data : List UInt8)
  | onSessionStart
  | stop
  deriving DecidableEq, Repr

def step (d : Echoed) : Action → Echoed
  | .handleIncomingStream data =>
      let values := (scan d.client.incomingBuf data).1.flatMap Enhanced.Item.paired
      { d with
        client := (d.client.handleIncomingStream data).1
        queued := if d.client.connected then values.getLast?.or d.queued else d.queued }
  | .popPendingIncomingData =>
      match d.client.popPendingIncomingData with
      | (client, some byte) => { client, sent := some byte }
      | (client, none) => { d with client }
  | .onBusByte byte result => { d with client := (d.client.onBusByte byte result).1 }
  | .enqueueOutgoingData data => { d with client := d.client.enqueueOutgoingData data }
  | .onSessionStart => { d with client := d.client.onSessionStart }
  | .stop => { d with client := d.client.stop }

/-- What is claimed: the comparison is with the byte that was sent last, and only that one is taken
for its echo. -/
def ComparesSent (d : Echoed) : Action → Prop
  | .onBusByte byte .observeData => d.client.connected = true →
      d.sent = some d.client.lastSentByte ∧
        ((d.client.onBusByte byte .observeData).2 = .bypassWait → d.sent = some byte)
  | _ => True

/-- Some byte was sent, and the pairs that were queued since end with the same value. -/
def NoneQueued (d : Echoed) : Action → Prop
  | .onBusByte _ .observeData => d.client.connected = true →
      ∃ byte, d.sent = some byte ∧ (d.queued = none ∨ d.queued = some byte)
  | _ => True

/-- The reference is the value of the last pair, or the byte that was sent last. -/
structure Tracked (d : Echoed) : Prop where
  type : d.client.type = .enhanced
  waits : Waits d.client.incomingBuf
  reference : d.client.lastSentByte = d.queued.getD (d.sent.getD 0)

theorem tracked_of_client {d : Echoed} {client : Client} (h : Tracked d)
    (hview : client.view = d.client.view) (hbuf : client.incomingBuf = d.client.incomingBuf) :
    Tracked { d with client } := by
  obtain ⟨htype, hview⟩ := Prod.mk.inj hview
  exact ⟨htype.trans h.type, hbuf ▸ h.waits, (Prod.mk.inj hview).2.trans h.reference⟩

theorem incomingBuf_enqueueOutgoingData (c : Client) (data : List UInt8) :
    (c.enqueueOutgoingData data).incomingBuf = c.incomingBuf := by
  rw [enqueueOutgoingData]
  split <;> rfl

theorem incomingBuf_onBusByte (c : Client) (byte : UInt8) (result : RequestResult) :
    (c.onBusByte byte result).1.incomingBuf = c.incomingBuf := by
  unfold onBusByte createEnhancedResponse
  repeat' split
  all_goals first | rfl | exact incomingBuf_enqueueOutgoingData _ _

theorem step_tracked (d : Echoed) (action : Action) (h : Tracked d) : Tracked (step d action) := by
  cases action with
  | handleIncomingStream data =>
      rw [step]
      cases hconnected : d.client.connected with
      | true =>
          obtain ⟨htype, -, -, -, -, hwaits⟩ :=
            handleIncomingStream_enhanced h.type hconnected h.waits data
          refine ⟨htype, hwaits, ?_⟩
          dsimp only
          rw [lastSentByte_handleIncomingStream h.type hconnected h.waits, h.reference, if_pos rfl]
          cases ((scan d.client.incomingBuf data).1.flatMap Enhanced.Item.paired).getLast? <;> rfl
      | false =>
          have hsame : (d.client.handleIncomingStream data).1 = d.client := by
            simp [handleIncomingStream, h.type, hconnected]
          rw [hsame, if_neg (by simp)]
          exact h
  | popPendingIncomingData =>
      cases hbuffer : d.client.inboundBuffer with
      | nil =>
          have hpop : d.client.popPendingIncomingData = (d.client, none) := by
            simp [popPendingIncomingData, h.type, hbuffer]
          rw [step, hpop]
          exact h
      | cons byte rest =>
          have hpop : d.client.popPendingIncomingData =
              ({ d.client with inboundBuffer := rest, lastSentByte := byte }, some byte) := by
            simp [popPendingIncomingData, h.type, hbuffer]
          rw [step, hpop]
          exact ⟨h.type, h.waits, rfl⟩
  | onBusByte byte result =>
      exact tracked_of_client h (view_onBusByte _ _ _) (incomingBuf_onBusByte _ _ _)
  | enqueueOutgoingData data =>
      exact tracked_of_client h (view_enqueueOutgoingData _ _) (incomingBuf_enqueueOutgoingData _ _)
  | onSessionStart =>
      have hstart : d.client.onSessionStart = { d.client with incomingBuf := [] } := by
        simp [onSessionStart, h.type]
      rw [step, hstart]
      exact ⟨h.type, .inl rfl, h.reference⟩
  | stop => exact ⟨h.type, h.waits, h.reference⟩

theorem onBusByte_observeData {c : Client} (htype : c.type = .enhanced)
    (hconnected : c.connected = true) (byte : UInt8) :
    (c.onBusByte byte .observeData).2 =
      if byte = c.lastSentByte then .bypassWait else .keepActive := by
  simp [onBusByte, htype, hconnected]

theorem comparesSent_iff {d : Echoed} (h : Tracked d) (action : Action) :
    ComparesSent d action ↔ NoneQueued d action := by
  cases action with
  | onBusByte byte result =>
      cases result with
      | observeData =>
          refine forall_congr' fun hconnected => ?_
          rw [onBusByte_observeData h.type hconnected, h.reference]
          constructor
          · rintro ⟨hsent, -⟩
            refine ⟨_, hsent, ?_⟩
            cases hqueued : d.queued with
            | none => exact .inl rfl
            | some value => exact .inr rfl
          · rintro ⟨sent, hsent, hqueued⟩
            have hreference : d.queued.getD (d.sent.getD 0) = sent := by
              obtain hnone | hsome := hqueued
              · rw [hnone, hsent]
                rfl
              · rw [hsome]
                rfl
            rw [hreference, hsent]
            refine ⟨rfl, fun hbypass => ?_⟩
            split at hbypass
            · rename_i heq
              rw [heq]
            · cases hbypass
      | _ => exact Iff.rfl
  | _ => exact Iff.rfl

/-- In a run every comparison is with the byte that was sent exactly when no pair with another
value is queued between a byte that is sent and the bytes of the bus that are compared with it. -/
theorem run_comparesSent_iff (actions : List Action) :
    Runs.Meets step ComparesSent {} actions ↔ Runs.Meets step NoneQueued {} actions :=
  Runs.meets_congr (fun _ action h _ => step_tracked _ action h)
    (fun _ action h => comparesSent_iff h action) ⟨rfl, .inl rfl, rfl⟩ actions

/-- The client queues 0x31 and, when that has been sent, 0x08; then the bus has 0x31. -/
theorem not_comparesSent :
    ¬ ∀ actions, Runs.Meets step ComparesSent {} actions := by
  intro h
  have hmeets := h [.handleIncomingStream [0xc4, 0xb1], .popPendingIncomingData,
    .handleIncomingStream [0xc4, 0x88], .onBusByte 0x31 .observeData]
  have hsame := hmeets.2.2.2.1 (by decide)
  exact absurd hsame.1 (by decide)

end Echoed

end Ebus
