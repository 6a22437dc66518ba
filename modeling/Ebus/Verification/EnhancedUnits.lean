import Ebus.Lib.Words
import Ebus.Verification.OutboundRing

/-!
# What an enhanced client is sent can be decoded

The units of the protocol are bytes below 0x80 and valid sequences of two bytes. The ring makes room
by dropping single bytes. As long as these are whole units and no unit has been sent in part, what
was sent and what waits are units, and what was sent reads as some of the responses, in order.
-/

namespace Ebus

namespace Enhanced

/-- A command and a value. -/
abbrev Reply := UInt8 × UInt8

/-- The response that a sequence of two bytes stands for, as `Protocol::decode` has it. -/
def replyOf (first second : UInt8) : Reply :=
  ((first >>> 2) &&& 0x0f, ((first &&& 0x03) <<< 6) ||| (second &&& 0x3f))

def nextUnit : List UInt8 → Option (Reply × List UInt8)
  | [] => none
  | [first] => if first < dataThreshold then some ((Response.received.code, first), []) else none
  | first :: second :: rest =>
      if first < dataThreshold then some ((Response.received.code, first), second :: rest)
      else if isValidSequence first second then some (replyOf first second, rest)
      else none

theorem nextUnit_short {first : UInt8} (h : first < dataThreshold) (rest : List UInt8) :
    nextUnit (first :: rest) = some ((Response.received.code, first), rest) := by
  cases rest with
  | nil => exact if_pos h
  | cons second rest => exact if_pos h

theorem nextUnit_pair {first second : UInt8} (hfirst : ¬ first < dataThreshold)
    (h : isValidSequence first second = true) (rest : List UInt8) :
    nextUnit (first :: second :: rest) = some (replyOf first second, rest) :=
  (if_neg hfirst).trans (if_pos h)

/-- The units of the protocol. -/
def units : WordReader UInt8 Reply where
  next := nextUnit
  word := by
    intro l reply rest h
    match l with
    | [] => cases h
    | first :: tail =>
        by_cases hfirst : first < dataThreshold
        · rw [nextUnit_short hfirst] at h
          cases h
          exact ⟨[first], List.cons_ne_nil _ _, rfl, fun rest' => nextUnit_short hfirst rest'⟩
        · match tail with
          | [] => exact absurd ((if_neg hfirst).symm.trans h) (by simp)
          | second :: tail =>
              by_cases hvalid : isValidSequence first second = true
              · rw [nextUnit_pair hfirst hvalid] at h
                cases h
                exact ⟨[first, second], List.cons_ne_nil _ _, rfl,
                  fun rest' => nextUnit_pair hfirst hvalid rest'⟩
              · have hnone : nextUnit (first :: second :: tail) = none :=
                  (if_neg hfirst).trans (if_neg hvalid)
                rw [hnone] at h
                cases h

/-- Every response fits into the four bits that a sequence has for it. -/
theorem encode_response (response : Response) (value : UInt8) :
    ¬ (encode response.code value).1 < dataThreshold ∧
      isValidSequence (encode response.code value).1 (encode response.code value).2 = true ∧
      replyOf (encode response.code value).1 (encode response.code value).2 =
        (response.code, value) := by
  have hall : ∀ n : Fin 256,
      ¬ (encode response.code (UInt8.ofNat n)).1 < dataThreshold ∧
      isValidSequence (encode response.code (UInt8.ofNat n)).1
        (encode response.code (UInt8.ofNat n)).2 = true ∧
      replyOf (encode response.code (UInt8.ofNat n)).1
        (encode response.code (UInt8.ofNat n)).2 = (response.code, UInt8.ofNat n) := by
    cases response <;> decide +kernel
  have hvalue := hall ⟨value.toNat, value.toNat_lt⟩
  rwa [UInt8.ofNat_toNat] at hvalue

end Enhanced

namespace Outbound

open Enhanced (units Reply)

/-- What a response is sent as is one unit, and it reads as the response. -/
theorem next_unitOf (response : Enhanced.Response) (value : UInt8) :
    units.next (unitOf response.code value) = some ((response.code, value), []) := by
  rw [unitOf]
  split
  · rename_i hshort
    rw [hshort.1]
    exact Enhanced.nextUnit_short hshort.2 []
  · obtain ⟨hfirst, hvalid, hreply⟩ := Enhanced.encode_response response value
    rw [← hreply]
    exact Enhanced.nextUnit_pair hfirst hvalid []

/-- The ring beside the responses that were put into it. -/
structure Answering where
  ring : Outbound
  replies : List Reply := []

namespace Answering

/-- The response of an action; a single byte is a received one. -/
def replyIn : Action → Option Reply
  | .enqueueByte byte => some (Enhanced.Response.received.code, byte)
  | .createEnhancedResponse response value => some (response.code, value)
  | _ => none

def step (t : Answering) (action : Action) : Answering :=
  { ring := t.ring.step action
    replies := if t.ring.connected then t.replies ++ (replyIn action).toList else t.replies }

/-- What was sent and what waits are units; what was sent reads as responses, in order. -/
def Decodable (t : Answering) : Prop :=
  units.Whole (t.ring.sent ++ t.ring.waiting) ∧ (units.values t.ring.sent).Sublist t.replies

/-- When bytes have to go for a response, no unit is sent in part and those bytes are units. -/
def DropsUnits (t : Answering) (action : Action) : Prop :=
  t.ring.connected = true → (replyIn action).isSome → t.ring.maxBufferSize < t.ring.count + 2 →
    units.Whole t.ring.sent ∧
    units.Whole (t.ring.waiting.take (t.ring.count + 2 - t.ring.maxBufferSize))

/-- What the steps of an enhanced client keep. -/
structure Intact (t : Answering) : Prop where
  sound : Sound t.ring
  type : t.ring.type = .enhanced
  room : 2 ≤ t.ring.maxBufferSize
  whole : units.Whole (t.ring.sent ++ t.ring.waiting)
  replies : (units.values (t.ring.sent ++ t.ring.waiting)).Sublist t.replies

variable {t : Answering}

theorem Intact.decodable (h : Intact t) : Decodable t :=
  ⟨h.whole, (WordReader.values_prefix _ _).sublist.trans h.replies⟩

/-- Units in front of those that wait may go, and a unit may come behind them. -/
theorem whole_drop {sent waiting unit : List UInt8} {reply : Reply} {replies : List Reply} {k : Nat}
    (hwhole : units.Whole (sent ++ waiting))
    (hreplies : (units.values (sent ++ waiting)).Sublist replies)
    (hdrop : k = 0 ∨ units.Whole sent ∧ units.Whole (waiting.take k))
    (hunit : units.next unit = some (reply, [])) :
    units.Whole (sent ++ (waiting.drop k ++ unit)) ∧
      (units.values (sent ++ (waiting.drop k ++ unit))).Sublist (replies ++ [reply]) := by
  have hrest : units.Whole (sent ++ waiting.drop k) ∧
      (units.values (sent ++ waiting.drop k)).Sublist replies := by
    obtain rfl | ⟨hsent, htake⟩ := hdrop
    · exact ⟨hwhole, hreplies⟩
    · have hwaiting : units.Whole (waiting.take k ++ waiting.drop k) := by
        rw [List.take_append_drop]
        exact hwhole.of_append hsent
      have hread : units.values (sent ++ waiting) =
          units.values sent ++ (units.values (waiting.take k) ++
            units.values (waiting.drop k)) := by
        rw [WordReader.values_append hsent, ← WordReader.values_append htake,
          List.take_append_drop]
      refine ⟨hsent.append (hwaiting.of_append htake), List.Sublist.trans ?_ hreplies⟩
      rw [WordReader.values_append hsent, hread]
      exact (List.sublist_append_right ..).append_left _
  rw [← List.append_assoc]
  refine ⟨hrest.1.append (.single hunit), ?_⟩
  rw [WordReader.values_append hrest.1, WordReader.values_single hunit]
  exact hrest.2.append (.refl _)

theorem intact_enqueue (h : Intact t) (hconnected : t.ring.connected = true) {action : Action}
    {reply : Reply} {data : List UInt8}
    (hstep : t.ring.step action = t.ring.enqueueOutgoingData data)
    (hroom : Outbound.room .enhanced data = 2)
    (hunit : units.next (bytesOf .enhanced data) = some (reply, []))
    (hreply : replyIn action = some reply) (hdrops : DropsUnits t action) :
    Intact (t.step action) := by
  have hfits : Outbound.room t.ring.type data ≤ t.ring.maxBufferSize := by
    rw [h.type, hroom]
    exact h.room
  obtain ⟨hsound, hwaiting, hsame⟩ := enqueueOutgoingData_sound h.sound hconnected hfits
  rw [h.type, hroom] at hwaiting
  have hring : (t.step action).ring = t.ring.enqueueOutgoingData data := hstep
  have hreplies : (t.step action).replies = t.replies ++ [reply] := by
    rw [step, hconnected, hreply]
    rfl
  have hdrop : t.ring.count + 2 - t.ring.maxBufferSize = 0 ∨ units.Whole t.ring.sent ∧
      units.Whole (t.ring.waiting.take (t.ring.count + 2 - t.ring.maxBufferSize)) := by
    by_cases hfull : t.ring.maxBufferSize < t.ring.count + 2
    · exact .inr (hdrops hconnected (by rw [hreply]; rfl) hfull)
    · exact .inl (Nat.sub_eq_zero_of_le (Nat.not_lt.mp hfull))
  obtain ⟨hwhole, hread⟩ := whole_drop h.whole h.replies hdrop hunit
  refine ⟨hring ▸ hsound, ?_, ?_, ?_, ?_⟩
  · rw [hring, hsame.type, h.type]
  · rw [hring, hsame.size]
    exact h.room
  · rw [hring, hsame.sent, hwaiting]
    exact hwhole
  · rw [hring, hsame.sent, hwaiting, hreplies]
    exact hread

/-- Sending moves bytes from what waits to what was sent. -/
theorem intact_taken (h : Intact t) {action : Action} {taken : Nat}
    (hsound : Sound (t.ring.step action))
    (hsent : (t.ring.step action).sent = t.ring.sent ++ t.ring.waiting.take taken)
    (hwaiting : (t.ring.step action).waiting = t.ring.waiting.drop taken)
    (htype : (t.ring.step action).type = t.ring.type)
    (hsize : (t.ring.step action).maxBufferSize = t.ring.maxBufferSize)
    (hreplies : (t.step action).replies = t.replies) : Intact (t.step action) := by
  have hall : (t.step action).ring.sent ++ (t.step action).ring.waiting =
      t.ring.sent ++ t.ring.waiting := by
    calc (t.step action).ring.sent ++ (t.step action).ring.waiting
        = t.ring.sent ++ t.ring.waiting.take taken ++ t.ring.waiting.drop taken :=
          congrArg₂ (· ++ ·) hsent hwaiting
      _ = t.ring.sent ++ t.ring.waiting := by rw [List.append_assoc, List.take_append_drop]
  exact ⟨hsound, htype.trans h.type, hsize.symm ▸ h.room, hall ▸ h.whole,
    hall ▸ hreplies ▸ h.replies⟩

theorem intact_step (h : Intact t) {action : Action} (hdrops : DropsUnits t action) :
    Intact (t.step action) := by
  have hidle (hstep : t.ring.step action = t.ring)
      (hreplies : (t.step action).replies = t.replies) : Intact (t.step action) := by
    have hsent : (t.ring.step action).sent = t.ring.sent ++ t.ring.waiting.take 0 := by
      rw [hstep, List.take_zero, List.append_nil]
    exact intact_taken h (hstep.symm ▸ h.sound) hsent (by rw [hstep]; rfl) (by rw [hstep])
      (by rw [hstep]) hreplies
  cases action with
  | enqueueByte byte =>
      cases hconnected : t.ring.connected with
      | true =>
          exact intact_enqueue h hconnected rfl rfl (next_unitOf .received byte) rfl hdrops
      | false =>
          exact hidle (enqueueOutgoingData_of_stopped hconnected _) (by rw [step, hconnected]; rfl)
  | createEnhancedResponse response value =>
      have hview : view t.ring.type (.createEnhancedResponse response value) =
          [response.code, value] := if_pos h.type
      cases hconnected : t.ring.connected with
      | true =>
          have hstep : t.ring.step (.createEnhancedResponse response value) =
              t.ring.enqueueOutgoingData [response.code, value] :=
            congrArg t.ring.enqueueOutgoingData hview
          exact intact_enqueue h hconnected hstep rfl (next_unitOf response value) rfl hdrops
      | false =>
          exact hidle (enqueueOutgoingData_of_stopped hconnected _) (by rw [step, hconnected]; rfl)
  | flushOutgoingData answers =>
      obtain ⟨hsound, ⟨taken, hsent, hwaiting⟩, htype, hsize⟩ :=
        flushOutgoingData_sound h.sound answers
      exact intact_taken h hsound hsent hwaiting htype hsize (by simp [step, replyIn])
  | stop =>
      have hsound := h.sound
      have hsent : (t.ring.step .stop).sent = t.ring.sent ++ t.ring.waiting.take 0 := by
        simp [Outbound.step, Outbound.stop]
      exact intact_taken h ⟨hsound.size_lt, hsound.head_lt, hsound.count_le, hsound.wrapped⟩
        hsent rfl rfl rfl (by simp [step, replyIn])

/-- As long as only whole units are dropped, what an enhanced client is sent can be decoded. -/
theorem run_decodable {size : Nat} {cells : Nat → UInt8} {d : Outbound} (hsize : 2 ≤ size)
    (hcreate : create .enhanced size cells = some d) {actions : List Action}
    (h : Runs.Meets step DropsUnits { ring := d } actions) :
    Decodable (Runs.run step { ring := d } actions) := by
  have hstart : Intact { ring := d } := by
    rw [create] at hcreate
    split at hcreate
    · rename_i hlt
      cases hcreate
      exact ⟨⟨hlt, by dsimp only; omega, Nat.zero_le _, rfl⟩, rfl, hsize, .nil, by
        simp [waiting]⟩
    · cases hcreate
  have hintact : Intact (Runs.run step { ring := d } actions) :=
    Runs.invariant (I := Intact) (fun _ _ hintact hdrops => intact_step hintact hdrops) hstart h
  exact hintact.decodable

/-- In a ring of two bytes 0x31 waits and makes room for a response. -/
theorem run_decodable_two :
    Decodable (Runs.run step
      { ring := { type := .enhanced, maxBufferSize := 2, outboundBuffer := fun _ => 0 } }
      [.enqueueByte 0x31, .createEnhancedResponse .started 0x10]) :=
  @run_decodable 2 (fun _ => 0) _ (by decide) rfl _
    ⟨fun _ _ hfull => absurd hfull (by decide),
      fun _ _ _ => ⟨.nil, .single (b := (0x01, 0x31)) rfl⟩, trivial⟩

/-- In a ring of three bytes the first byte of a response makes room for 0x31. -/
theorem not_decodable :
    ¬ ∀ (size : Nat) (cells : Nat → UInt8) (d : Outbound), 2 ≤ size →
      create .enhanced size cells = some d →
      ∀ actions, Decodable (Runs.run step { ring := d } actions) := by
  intro h
  have hdecodable := h 3 (fun _ => 0) _ (by decide) rfl
    [.createEnhancedResponse .started 0x31, .enqueueByte 0x31]
  have hsplit : ¬ units.Whole [0xb1, 0x31] := by
    have hnone : units.next [0xb1, 0x31] = none := rfl
    rintro (_ | ⟨hnext, -⟩)
    rw [hnone] at hnext
    cases hnext
  exact hsplit hdecodable.1

end Answering

end Outbound

end Ebus
