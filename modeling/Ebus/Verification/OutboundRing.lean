import Ebus.App.Outbound
import Ebus.Lib.Circular
import Ebus.Lib.Run

/-!
# The ring of outgoing bytes keeps its bounds

`Sound` says that the indices of the ring are in range and that no subtraction has wrapped. As long
as there can be room for what is put into it, each call keeps this: it takes bytes from the front of
what waits and puts new ones behind it. An enhanced client makes room for two bytes, so that it can
drop one that there is room for.
-/

namespace Ebus

namespace Outbound

/-- What is buffered, the oldest byte first. -/
def waiting (d : Outbound) : List UInt8 :=
  Circular.contents d.outboundBuffer d.maxBufferSize d.head d.count

structure Sound (d : Outbound) : Prop where
  size_lt : d.maxBufferSize < 2 ^ 63
  head_lt : d.head < d.maxBufferSize
  count_le : d.count ≤ d.maxBufferSize
  wrapped : d.wrapped = false

/-- The parts of the state that putting bytes into the ring leaves alone. -/
structure Same (d d' : Outbound) : Prop where
  type : d'.type = d.type
  connected : d'.connected = d.connected
  size : d'.maxBufferSize = d.maxBufferSize
  sent : d'.sent = d.sent

namespace Same

variable {d d' d'' : Outbound}

theorem refl (d : Outbound) : Same d d := ⟨rfl, rfl, rfl, rfl⟩

theorem trans (h : Same d d') (h' : Same d' d'') : Same d d'' :=
  ⟨h'.type.trans h.type, h'.connected.trans h.connected, h'.size.trans h.size,
    h'.sent.trans h.sent⟩

end Same

theorem add_eq {a b : Nat} (h : a + b < 2 ^ 64) : SizeT.add a b = a + b := Nat.mod_eq_of_lt h

theorem sub_eq {a b : Nat} (ha : a < 2 ^ 64) (h : b ≤ a) : SizeT.sub a b = a - b := by
  have hsize : SizeT.size = 2 ^ 64 := rfl
  rw [SizeT.sub, hsize]
  omega

@[simp] theorem length_waiting (d : Outbound) : d.waiting.length = d.count :=
  Circular.length_contents ..

section Parts
variable {d : Outbound}

theorem store_same (d : Outbound) (byte : UInt8) : Same d (d.store byte) := ⟨rfl, rfl, rfl, rfl⟩

theorem dropOldest_same (d : Outbound) (n : Nat) : Same d (d.dropOldest n) := ⟨rfl, rfl, rfl, rfl⟩

theorem store_sound (h : Sound d) (hroom : d.count < d.maxBufferSize) (byte : UInt8) :
    Sound (d.store byte) ∧ (d.store byte).waiting = d.waiting ++ [byte] := by
  have hsize := h.size_lt
  have hhead := h.head_lt
  have hcount : (d.store byte).count = d.count + 1 := add_eq (by omega)
  have hslot : SizeT.add d.head d.count = d.head + d.count := add_eq (by omega)
  refine ⟨⟨h.size_lt, h.head_lt, hcount ▸ hroom, h.wrapped⟩, ?_⟩
  rw [waiting, hcount, store]
  dsimp only
  rw [hslot]
  exact Circular.contents_push byte hroom

theorem dropOldest_sound (h : Sound d) {n : Nat} (hn : n ≤ d.count) :
    Sound (d.dropOldest n) ∧ (d.dropOldest n).waiting = d.waiting.drop n ∧
      (d.dropOldest n).count = d.count - n := by
  have hsize := h.size_lt
  have hhead := h.head_lt
  have hle := h.count_le
  have hcount : (d.dropOldest n).count = d.count - n := sub_eq (by omega) hn
  have hslot : SizeT.add d.head n = d.head + n := add_eq (by omega)
  refine ⟨⟨h.size_lt, Nat.mod_lt _ (Nat.zero_lt_of_lt hhead), ?_, ?_⟩, ?_, hcount⟩
  · rw [hcount]
    exact (Nat.sub_le ..).trans hle
  · simp [dropOldest, h.wrapped, Nat.not_lt.mpr hn]
  · rw [waiting, hcount, dropOldest]
    dsimp only
    rw [hslot]
    exact Circular.contents_drop n

/-- By induction on the bytes. -/
theorem foldl_store_sound (h : Sound d) (data : List UInt8)
    (hroom : d.count + data.length ≤ d.maxBufferSize) :
    Sound (data.foldl store d) ∧ (data.foldl store d).waiting = d.waiting ++ data ∧
      Same d (data.foldl store d) := by
  induction data generalizing d with
  | nil => exact ⟨h, (List.append_nil _).symm, .refl d⟩
  | cons byte data ih =>
      rw [List.length_cons] at hroom
      obtain ⟨hstored, hwaiting⟩ := store_sound h (by omega) byte
      have hcount : (d.store byte).count = d.count + 1 := by
        rw [← length_waiting, hwaiting, List.length_append, length_waiting]
        rfl
      obtain ⟨hsound, hrest, hsame⟩ := ih hstored (by
        rw [hcount]
        exact (Nat.add_right_comm ..).trans_le hroom)
      refine ⟨hsound, ?_, (d.store_same byte).trans hsame⟩
      rw [List.foldl_cons, hrest, hwaiting, List.append_assoc, List.singleton_append]

/-- What does not fit with the new bytes is dropped. -/
theorem enqueueBytes_sound (h : Sound d) {data : List UInt8}
    (hfits : data.length ≤ d.maxBufferSize) :
    Sound (d.enqueueBytes data) ∧
      (d.enqueueBytes data).waiting =
        d.waiting.drop (d.count + data.length - d.maxBufferSize) ++ data ∧
      Same d (d.enqueueBytes data) := by
  have hsize := h.size_lt
  have hle := h.count_le
  have hadd : SizeT.add d.count data.length = d.count + data.length := add_eq (by omega)
  rw [enqueueBytes, hadd]
  by_cases hfull : d.maxBufferSize < d.count + data.length
  · rw [if_pos hfull, sub_eq (by omega) hfull.le]
    obtain ⟨hdropped, hwaiting, hcount⟩ :=
      dropOldest_sound h (n := d.count + data.length - d.maxBufferSize) (by omega)
    obtain ⟨hsound, hstored, hsame⟩ := foldl_store_sound hdropped data (by
      rw [hcount, (d.dropOldest_same _).size]
      omega)
    exact ⟨hsound, by rw [hstored, hwaiting], (d.dropOldest_same _).trans hsame⟩
  · rw [if_neg hfull, Nat.sub_eq_zero_of_le (Nat.not_lt.mp hfull), List.drop_zero]
    exact foldl_store_sound h data (Nat.not_lt.mp hfull)

/-- Two bytes of room. By induction on the fuel, which is more than there are bytes. -/
theorem makeRoom_sound (h : Sound d) (hsize : 2 ≤ d.maxBufferSize) {fuel : Nat}
    (hfuel : d.count < fuel) :
    Sound (makeRoom fuel d) ∧
      (makeRoom fuel d).waiting = d.waiting.drop (d.count + 2 - d.maxBufferSize) ∧
      (makeRoom fuel d).count + 2 ≤ d.maxBufferSize ∧ Same d (makeRoom fuel d) := by
  induction fuel generalizing d with
  | zero => exact absurd hfuel (Nat.not_lt_zero _)
  | succ fuel ih =>
      have hlimit := h.size_lt
      have hle := h.count_le
      have hadd : SizeT.add d.count Enhanced.maxSequenceLen = d.count + 2 := add_eq (by
        rw [Enhanced.maxSequenceLen]
        omega)
      rw [makeRoom, hadd]
      by_cases hfull : d.maxBufferSize < d.count + 2
      · rw [if_pos hfull]
        obtain ⟨hdropped, hwaiting, hcount⟩ := dropOldest_sound h (n := 1) (by omega)
        have hsame := d.dropOldest_same 1
        obtain ⟨hsound, hrest, hroom, hsame'⟩ := ih hdropped (by rw [hsame.size]; exact hsize) (by
          rw [hcount]
          omega)
        rw [hsame.size] at hroom hrest
        refine ⟨hsound, ?_, hroom, hsame.trans hsame'⟩
        have hsum : 1 + (d.count - 1 + 2 - d.maxBufferSize) = d.count + 2 - d.maxBufferSize := by
          omega
        rw [hrest, hwaiting, hcount, List.drop_drop, hsum]
      · rw [if_neg hfull, Nat.sub_eq_zero_of_le (Nat.not_lt.mp hfull), List.drop_zero]
        exact ⟨h, rfl, Nat.not_lt.mp hfull, .refl d⟩

theorem pushByte_eq (hroom : d.count < d.maxBufferSize) (byte : UInt8) :
    d.pushByte byte = d.store byte := by
  rw [pushByte, if_neg (Nat.not_le.mpr hroom)]

/-- The bytes that a response is sent as. -/
def unitOf (command value : UInt8) : List UInt8 :=
  if command = Enhanced.Response.received.code ∧ value < Enhanced.dataThreshold then [value]
  else [(Enhanced.encode command value).1, (Enhanced.encode command value).2]

theorem enqueueSequence_sound (h : Sound d) (hsize : 2 ≤ d.maxBufferSize) (command value : UInt8) :
    Sound (d.enqueueSequence command value) ∧
      (d.enqueueSequence command value).waiting =
        d.waiting.drop (d.count + 2 - d.maxBufferSize) ++ unitOf command value ∧
      Same d (d.enqueueSequence command value) := by
  obtain ⟨hmade, hwaiting, hroom, hsame⟩ := @makeRoom_sound d h hsize (d.count + 2) (by omega)
  rw [enqueueSequence, unitOf]
  generalize makeRoom (d.count + 2) d = m at hmade hwaiting hroom hsame
  have hfits : m.count + 2 ≤ m.maxBufferSize := hsame.size.symm ▸ hroom
  obtain ⟨hfirst, hwaiting'⟩ := store_sound hmade (by omega) (Enhanced.encode command value).1
  have hcount : (m.store (Enhanced.encode command value).1).count = m.count + 1 := by
    rw [← length_waiting, hwaiting', List.length_append, length_waiting]
    rfl
  dsimp only
  split
  · obtain ⟨hstored, hshort⟩ := store_sound hmade (by omega) value
    rw [pushByte_eq (by omega)]
    exact ⟨hstored, by rw [hshort, hwaiting], hsame.trans (m.store_same _)⟩
  · have hroom' : (m.store (Enhanced.encode command value).1).count <
        (m.store (Enhanced.encode command value).1).maxBufferSize := by
      rw [hcount]
      exact hfits
    obtain ⟨hsecond, hboth⟩ := store_sound hfirst hroom' (Enhanced.encode command value).2
    have hpush : m.pushByte (Enhanced.encode command value).1 =
        m.store (Enhanced.encode command value).1 := pushByte_eq (by omega) _
    rw [hpush, pushByte_eq hroom']
    refine ⟨hsecond, ?_, (hsame.trans (m.store_same _)).trans (store_same _ _)⟩
    rw [hboth, hwaiting', hwaiting, List.append_assoc]
    rfl

end Parts

/-- The bytes that a view is sent as. -/
def bytesOf (type : ClientType) : List UInt8 → List UInt8
  | [] => []
  | [byte] =>
      match type with
      | .enhanced => unitOf Enhanced.Response.received.code byte
      | _ => [byte]
  | command :: value :: rest =>
      match type with
      | .enhanced => unitOf command value
      | _ => command :: value :: rest

/-- The room that is made for a view. -/
def room (type : ClientType) (data : List UInt8) : Nat :=
  match type with
  | .readOnly | .regular => data.length
  | .enhanced => if data = [] then 0 else 2

section Calls
variable {d : Outbound}

/-- The oldest bytes make room for a view. -/
theorem enqueueOutgoingData_sound (h : Sound d) (hconnected : d.connected = true)
    {data : List UInt8} (hfits : room d.type data ≤ d.maxBufferSize) :
    Sound (d.enqueueOutgoingData data) ∧
      (d.enqueueOutgoingData data).waiting =
        d.waiting.drop (d.count + room d.type data - d.maxBufferSize) ++ bytesOf d.type data ∧
      Same d (d.enqueueOutgoingData data) := by
  have hempty : Sound d ∧ d.waiting = d.waiting.drop (d.count + 0 - d.maxBufferSize) ++ [] ∧
      Same d d := by
    rw [Nat.add_zero, Nat.sub_eq_zero_of_le h.count_le, List.drop_zero, List.append_nil]
    exact ⟨h, rfl, .refl d⟩
  cases htype : d.type with
  | enhanced =>
      rw [htype] at hfits
      simp only [enqueueOutgoingData, hconnected, htype]
      match data with
      | [] => exact hempty
      | [byte] => exact enqueueSequence_sound h hfits _ _
      | command :: value :: _ => exact enqueueSequence_sound h hfits _ _
  | readOnly | regular =>
      rw [htype] at hfits
      simp only [enqueueOutgoingData, hconnected, htype]
      match data with
      | [] => exact hempty
      | [_] => exact enqueueBytes_sound h hfits
      | _ :: _ :: _ => exact enqueueBytes_sound h hfits

theorem enqueueOutgoingData_of_stopped (h : d.connected = false) (data : List UInt8) :
    d.enqueueOutgoingData data = d := by
  simp [enqueueOutgoingData, h]

/-- What a call of `write` takes is the front of what waits. -/
theorem wrote_sound (h : Sound d) {n : Nat} (hn : n ≤ d.partLen) :
    Sound (d.wrote n) ∧ (d.wrote n).sent = d.sent ++ d.waiting.take n ∧
      (d.wrote n).waiting = d.waiting.drop n := by
  have hsize := h.size_lt
  have hhead := h.head_lt
  have hpart : d.partLen = min d.count (d.maxBufferSize - d.head) := by
    rw [partLen, sub_eq (by omega) hhead.le]
  rw [hpart] at hn
  obtain ⟨hdropped, hwaiting, -⟩ := dropOldest_sound h (n := n) (hn.trans (Nat.min_le_left ..))
  refine ⟨⟨h.size_lt, hdropped.head_lt, hdropped.count_le, ?_⟩, ?_, hwaiting⟩
  · simp only [wrote, h.wrapped, Bool.false_or, Bool.or_eq_false_iff, decide_eq_false_iff_not]
    omega
  · rw [wrote]
    dsimp only
    rw [waiting, @Circular.contents_take _ d.outboundBuffer d.maxBufferSize d.head d.count n
      (by omega) (by omega)]

/-- By induction on the answers of the socket. -/
theorem flushLoop_sound (h : Sound d) (answers : List Written) :
    Sound (flushLoop answers d).1 ∧
      (∃ n, (flushLoop answers d).1.sent = d.sent ++ d.waiting.take n ∧
        (flushLoop answers d).1.waiting = d.waiting.drop n) ∧
      (flushLoop answers d).1.type = d.type ∧
      (flushLoop answers d).1.maxBufferSize = d.maxBufferSize := by
  have hsame : Sound d ∧ (∃ n, d.sent = d.sent ++ d.waiting.take n ∧
      d.waiting = d.waiting.drop n) ∧ d.type = d.type ∧ d.maxBufferSize = d.maxBufferSize :=
    ⟨h, ⟨0, by simp⟩, rfl, rfl⟩
  induction answers generalizing d with
  | nil => exact hsame
  | cons answer answers ih =>
      unfold flushLoop
      split
      · exact hsame
      · cases answer with
        | bytes n =>
            dsimp only
            have hn := Nat.min_le_right n d.partLen
            generalize min n d.partLen = n at hn
            obtain ⟨hwrote, hsent, hwaiting⟩ := wrote_sound h hn
            split
            · exact hsame
            · split
              · exact ⟨hwrote, ⟨n, hsent, hwaiting⟩, rfl, rfl⟩
              · obtain ⟨hsound, ⟨m, hsent', hwaiting'⟩, htype, hsize⟩ :=
                  ih hwrote ⟨hwrote, ⟨0, by simp⟩, rfl, rfl⟩
                refine ⟨hsound, ⟨n + m, ?_, ?_⟩, htype, hsize⟩
                · rw [hsent', hsent, hwaiting, List.append_assoc, List.take_add]
                · rw [hwaiting', hwaiting, List.drop_drop]
        | wouldBlock => exact hsame
        | failed =>
            exact ⟨⟨h.size_lt, h.head_lt, h.count_le, h.wrapped⟩, ⟨0, by simp [stop], by
              rw [List.drop_zero]; rfl⟩, rfl, rfl⟩

theorem flushOutgoingData_sound (h : Sound d) (answers : List Written) :
    Sound (d.flushOutgoingData answers).1 ∧
      (∃ n, (d.flushOutgoingData answers).1.sent = d.sent ++ d.waiting.take n ∧
        (d.flushOutgoingData answers).1.waiting = d.waiting.drop n) ∧
      (d.flushOutgoingData answers).1.type = d.type ∧
      (d.flushOutgoingData answers).1.maxBufferSize = d.maxBufferSize := by
  rw [flushOutgoingData]
  split
  · exact ⟨h, ⟨0, by simp⟩, rfl, rfl⟩
  · exact flushLoop_sound h answers

end Calls

section Wraps
variable {d : Outbound}

theorem wrapped_dropOldest {n : Nat} (h : d.wrapped = true ∨ d.count < n) :
    (d.dropOldest n).wrapped = true := by
  rw [dropOldest]
  dsimp only
  simpa using h

theorem wrapped_pushByte (h : d.wrapped = true) (byte : UInt8) :
    (d.pushByte byte).wrapped = true := by
  rw [pushByte]
  split
  · exact @wrapped_dropOldest d 1 (.inl h)
  · exact h

theorem wrapped_makeRoom (h : d.wrapped = true) (fuel : Nat) :
    (makeRoom fuel d).wrapped = true := by
  induction fuel generalizing d with
  | zero => exact h
  | succ fuel ih =>
      rw [makeRoom]
      split
      · exact ih (wrapped_dropOldest (.inl h))
      · exact h

theorem wrapped_enqueueSequence (h : (makeRoom (d.count + 2) d).wrapped = true)
    (command value : UInt8) : (d.enqueueSequence command value).wrapped = true := by
  rw [enqueueSequence]
  dsimp only
  split
  · exact wrapped_pushByte h value
  · exact wrapped_pushByte (wrapped_pushByte h _) _

/-- Room for two bytes is made by dropping a byte of an empty ring. -/
theorem makeRoom_wraps (hsize : d.maxBufferSize = 1) (hcount : d.count ≤ 1) :
    (makeRoom (d.count + 2) d).wrapped = true := by
  have hadd (n : Nat) (hn : n ≤ 1) : SizeT.add n Enhanced.maxSequenceLen = n + 2 :=
    add_eq (by rw [Enhanced.maxSequenceLen]; omega)
  rw [makeRoom, hadd d.count hcount, if_pos (by omega)]
  obtain hempty | hone : d.count = 0 ∨ d.count = 1 := by omega
  · exact wrapped_makeRoom (wrapped_dropOldest (.inr (by omega))) _
  · have hless : (d.dropOldest 1).count = 0 := by
      rw [dropOldest, hone]
      rfl
    rw [makeRoom, hless, hadd 0 (by omega), if_pos (by rw [dropOldest, hsize]; decide)]
    exact wrapped_makeRoom (wrapped_dropOldest (.inr (by omega))) _

end Wraps

/-- The ring beside all the bytes that were put into it. -/
structure Traced where
  ring : Outbound
  entered : List UInt8 := []

namespace Traced

/-- The bytes that an action puts into the ring. -/
def entering (t : Traced) (action : Action) : List UInt8 :=
  if t.ring.connected then bytesOf t.ring.type (view t.ring.type action) else []

def step (t : Traced) (action : Action) : Traced :=
  { ring := t.ring.step action, entered := t.entered ++ t.entering action }

/-- What waits are the last bytes that were entered, and what was sent are some of those before
them, in order. -/
def Ordered (t : Traced) : Prop :=
  ∃ front, t.entered = front ++ t.ring.waiting ∧ t.ring.sent.Sublist front

/-- The indices stay in range and nothing wraps; the oldest bytes that wait are dropped where there
is no room for those that are entered, no more of them than do not fit, and no other is lost. -/
structure Kept (t : Traced) (action : Action) : Prop where
  sound : Sound (t.step action).ring
  order : Ordered (t.step action)
  flow : ∃ taken dropped,
    (t.step action).ring.sent = t.ring.sent ++ t.ring.waiting.take taken ∧
    (t.step action).ring.waiting = t.ring.waiting.drop (taken + dropped) ++ t.entering action ∧
    dropped ≤ t.ring.count + (t.entering action).length - t.ring.maxBufferSize

/-- What an enhanced client is given is sent as two bytes, or finds room for two. -/
def Fits (t : Traced) (action : Action) : Prop :=
  t.ring.connected = true → t.ring.type = .enhanced → view t.ring.type action ≠ [] →
    2 ≤ t.ring.maxBufferSize ∧
      ((t.entering action).length = 2 ∨ t.ring.count + 2 ≤ t.ring.maxBufferSize)

variable {t : Traced}

theorem length_unitOf (command value : UInt8) :
    (unitOf command value).length = 1 ∨ (unitOf command value).length = 2 := by
  rw [unitOf]
  split
  · exact .inl rfl
  · exact .inr rfl

/-- The room that is made, and the bytes that take it. -/
theorem entering_length (hconnected : t.ring.connected = true) (action : Action) :
    (t.ring.type ≠ .enhanced → room t.ring.type (view t.ring.type action) ≤ 1 ∧
      (t.entering action).length = room t.ring.type (view t.ring.type action)) ∧
    (t.ring.type = .enhanced → view t.ring.type action ≠ [] →
      room t.ring.type (view t.ring.type action) = 2 ∧
      ((t.entering action).length = 1 ∨ (t.entering action).length = 2)) := by
  rw [entering, if_pos hconnected]
  constructor
  · intro htype
    cases action with
    | enqueueByte byte =>
        cases hring : t.ring.type with
        | enhanced => exact absurd hring htype
        | readOnly | regular => exact ⟨le_rfl, rfl⟩
    | createEnhancedResponse response value =>
        rw [view, if_neg htype]
        cases hring : t.ring.type with
        | enhanced => exact absurd hring htype
        | readOnly | regular => exact ⟨Nat.zero_le _, rfl⟩
    | flushOutgoingData answers | stop =>
        cases hring : t.ring.type with
        | enhanced => exact absurd hring htype
        | readOnly | regular => exact ⟨Nat.zero_le _, rfl⟩
  · intro htype hsome
    rw [htype] at hsome ⊢
    refine ⟨if_neg hsome, ?_⟩
    cases action with
    | enqueueByte byte => exact length_unitOf _ byte
    | createEnhancedResponse response value => exact length_unitOf _ value
    | flushOutgoingData answers | stop => exact absurd rfl hsome

/-- Where an action fits, no room is made that its bytes do not need. -/
theorem room_of_fits (h : Sound t.ring) (hconnected : t.ring.connected = true) {action : Action}
    (hfits : Fits t action) :
    room t.ring.type (view t.ring.type action) ≤ t.ring.maxBufferSize ∧
      t.ring.count + room t.ring.type (view t.ring.type action) - t.ring.maxBufferSize ≤
        t.ring.count + (t.entering action).length - t.ring.maxBufferSize := by
  have hhead := h.head_lt
  obtain ⟨hplain, henhanced⟩ := entering_length hconnected action
  by_cases htype : t.ring.type = .enhanced
  · by_cases hsome : view t.ring.type action = []
    · have hzero : room t.ring.type (view t.ring.type action) = 0 := by
        rw [hsome, htype]
        rfl
      omega
    · obtain ⟨hroom, -⟩ := henhanced htype hsome
      obtain ⟨hsize, hlength⟩ := hfits hconnected htype hsome
      omega
  · obtain ⟨hroom, hlength⟩ := hplain htype
    omega

/-- What leaves the front is sent or dropped. -/
theorem ordered_step (h : Ordered t) {action : Action} {taken dropped : Nat}
    (hsent : (t.step action).ring.sent = t.ring.sent ++ t.ring.waiting.take taken)
    (hwaiting : (t.step action).ring.waiting =
      t.ring.waiting.drop (taken + dropped) ++ t.entering action) :
    Ordered (t.step action) := by
  obtain ⟨front, hentered, hsub⟩ := h
  refine ⟨front ++ t.ring.waiting.take (taken + dropped), ?_, ?_⟩
  · rw [hwaiting, List.append_assoc, ← List.append_assoc (List.take ..), List.take_append_drop,
      ← List.append_assoc, ← hentered]
    rfl
  · rw [hsent]
    exact hsub.append ((List.take_sublist_take_left (Nat.le_add_right ..)))

theorem kept_of_enqueued (h : Sound t.ring) (hordered : Ordered t) {action : Action}
    (hstep : t.ring.step action =
      t.ring.enqueueOutgoingData (view t.ring.type action)) (hfits : Fits t action) :
    Kept t action := by
  have hring : (t.step action).ring = t.ring.enqueueOutgoingData (view t.ring.type action) := hstep
  have hflow : Sound (t.step action).ring ∧ ∃ taken dropped,
      (t.step action).ring.sent = t.ring.sent ++ t.ring.waiting.take taken ∧
      (t.step action).ring.waiting = t.ring.waiting.drop (taken + dropped) ++ t.entering action ∧
      dropped ≤ t.ring.count + (t.entering action).length - t.ring.maxBufferSize := by
    rw [hring]
    cases hconnected : t.ring.connected with
    | true =>
        obtain ⟨hroom, hdropped⟩ := room_of_fits h hconnected hfits
        obtain ⟨hsound, hwaiting, hsame⟩ := enqueueOutgoingData_sound h hconnected hroom
        refine ⟨hsound, 0, _, ?_, ?_, hdropped⟩
        · rw [hsame.sent, List.take_zero, List.append_nil]
        · rw [hwaiting, Nat.zero_add, entering, if_pos hconnected]
    | false =>
        rw [enqueueOutgoingData_of_stopped hconnected]
        exact ⟨h, 0, 0, by simp, by simp [entering, hconnected], Nat.zero_le _⟩
  obtain ⟨hsound, taken, dropped, hsent, hwaiting, hdropped⟩ := hflow
  exact ⟨hsound, ordered_step hordered hsent hwaiting, taken, dropped, hsent, hwaiting, hdropped⟩

theorem kept_of_taken (hordered : Ordered t) {action : Action} {taken : Nat}
    (hsound : Sound (t.ring.step action))
    (hsent : (t.ring.step action).sent = t.ring.sent ++ t.ring.waiting.take taken)
    (hwaiting : (t.ring.step action).waiting = t.ring.waiting.drop taken)
    (hnone : view t.ring.type action = []) : Kept t action := by
  have hentering : t.entering action = [] := by
    rw [entering, hnone, bytesOf, ite_self]
  have hrest : (t.step action).ring.waiting =
      t.ring.waiting.drop (taken + 0) ++ t.entering action := by
    rw [hentering, List.append_nil]
    exact hwaiting
  exact ⟨hsound, ordered_step hordered hsent hrest, taken, 0, hsent, hrest, Nat.zero_le _⟩

theorem kept_of_fits (h : Sound t.ring) (hordered : Ordered t) {action : Action}
    (hfits : Fits t action) : Kept t action := by
  cases action with
  | enqueueByte byte => exact kept_of_enqueued h hordered rfl hfits
  | createEnhancedResponse response value => exact kept_of_enqueued h hordered rfl hfits
  | flushOutgoingData answers =>
      obtain ⟨hsound, ⟨taken, hsent, hwaiting⟩, -, -⟩ := flushOutgoingData_sound h answers
      exact kept_of_taken hordered hsound hsent hwaiting rfl
  | stop =>
      have hsent : (t.ring.step .stop).sent = t.ring.sent ++ t.ring.waiting.take 0 := by
        simp [Outbound.step, Outbound.stop]
      exact kept_of_taken hordered ⟨h.size_lt, h.head_lt, h.count_le, h.wrapped⟩ hsent rfl rfl

/-- An enhanced client with a ring of one byte drops a byte of an empty ring. -/
theorem wraps_of_one (h : Sound t.ring) {action : Action} (hconnected : t.ring.connected = true)
    (htype : t.ring.type = .enhanced) (hsome : view t.ring.type action ≠ [])
    (hsize : t.ring.maxBufferSize = 1) : (t.step action).ring.wrapped = true := by
  have hwraps (command value : UInt8) : (t.ring.enqueueSequence command value).wrapped = true :=
    wrapped_enqueueSequence (makeRoom_wraps hsize (hsize ▸ h.count_le)) command value
  cases action with
  | enqueueByte byte =>
      simpa [step, Outbound.step, view, enqueueOutgoingData, hconnected, htype] using hwraps _ byte
  | createEnhancedResponse response value =>
      simpa [step, Outbound.step, view, enqueueOutgoingData, hconnected, htype] using hwraps _ value
  | flushOutgoingData answers => exact absurd rfl hsome
  | stop => exact absurd rfl hsome

/-- Room for two bytes, of which one is entered: a byte goes for a cell that stays free. -/
theorem not_kept_of_spare (h : Sound t.ring) {action : Action}
    (hconnected : t.ring.connected = true) (hroom : room t.ring.type (view t.ring.type action) = 2)
    (hsize : 2 ≤ t.ring.maxBufferSize) (hlength : (t.entering action).length = 1)
    (hfull : t.ring.maxBufferSize < t.ring.count + 2)
    (hring : (t.step action).ring = t.ring.enqueueOutgoingData (view t.ring.type action)) :
    ¬ Kept t action := by
  intro hkept
  obtain ⟨taken, dropped, hsent, hwaiting, hdropped⟩ := hkept.flow
  obtain ⟨-, hmade, hsame⟩ := enqueueOutgoingData_sound h hconnected (hroom ▸ hsize)
  -- nothing is sent, so that what left the ring was dropped
  have htaken : taken = 0 ∨ t.ring.count = 0 := by
    rw [hring, hsame.sent, List.self_eq_append_right, List.take_eq_nil_iff] at hsent
    refine hsent.imp id fun hnil => ?_
    rw [← length_waiting, hnil]
    rfl
  have hleft : (t.step action).ring.waiting.length =
      t.ring.count - (taken + dropped) + 1 := by
    rw [hwaiting, List.length_append, List.length_drop, length_waiting, hlength]
  have hmade' : (t.step action).ring.waiting.length =
      t.ring.count - (t.ring.count + 2 - t.ring.maxBufferSize) + 1 := by
    rw [hring, hmade, List.length_append, List.length_drop, length_waiting, hroom]
    rw [entering, if_pos hconnected] at hlength
    rw [hlength]
  rw [hlength] at hdropped
  omega

theorem fits_of_kept (h : Sound t.ring) {action : Action} (hkept : Kept t action) :
    Fits t action := by
  intro hconnected htype hsome
  obtain ⟨hroom, hlength⟩ := (entering_length hconnected action).2 htype hsome
  have hhead := h.head_lt
  have hsize : 2 ≤ t.ring.maxBufferSize := by
    by_contra hsmall
    have hwrapped := wraps_of_one h hconnected htype hsome (by omega)
    rw [hkept.sound.wrapped] at hwrapped
    cases hwrapped
  refine ⟨hsize, ?_⟩
  by_contra hspare
  obtain ⟨hnot, hfull⟩ := not_or.mp hspare
  have hring : (t.step action).ring = t.ring.enqueueOutgoingData (view t.ring.type action) := by
    cases action with
    | enqueueByte byte | createEnhancedResponse response value => rfl
    | flushOutgoingData answers | stop => exact absurd rfl hsome
  exact not_kept_of_spare h hconnected hroom hsize (hlength.resolve_right hnot)
    (Nat.not_le.mp hfull) hring hkept

/-- In a run every call keeps the ring exactly when there can be room for what it enters and no
more is made. -/
theorem run_kept_iff {type : ClientType} {size : Nat} {cells : Nat → UInt8} {d : Outbound}
    (hsize : 1 ≤ size) (hcreate : create type size cells = some d) (actions : List Action) :
    Runs.Meets step Kept { ring := d } actions ↔ Runs.Meets step Fits { ring := d } actions := by
  have hstart : Sound d ∧ Ordered { ring := d } := by
    rw [create] at hcreate
    split at hcreate
    · rename_i hlt
      cases hcreate
      exact ⟨⟨hlt, hsize, Nat.zero_le _, rfl⟩, [], rfl, .refl _⟩
    · cases hcreate
  refine Runs.meets_congr (I := fun t => Sound t.ring ∧ Ordered t) ?_ ?_ hstart actions
  · rintro t action ⟨hsound, hordered⟩ hfits
    have hkept := kept_of_fits hsound hordered hfits
    exact ⟨hkept.sound, hkept.order⟩
  · rintro t action ⟨hsound, hordered⟩
    exact ⟨fits_of_kept hsound, kept_of_fits hsound hordered⟩

/-- A ring of two bytes: the second response drops the first. -/
theorem run_kept_two :
    Runs.Meets step Kept
      { ring := { type := .enhanced, maxBufferSize := 2, outboundBuffer := fun _ => 0 } }
      [.createEnhancedResponse .started 0x31, .enqueueByte 0xaa, .flushOutgoingData [.bytes 1]] :=
  (@run_kept_iff .enhanced 2 (fun _ => 0) _ (by decide) rfl _).mpr
    ⟨fun _ _ _ => by decide, fun _ _ _ => by decide, fun _ _ hsome => absurd rfl hsome, trivial⟩

/-- A ring of one byte, which the configuration allows: the count of an empty ring is decreased. -/
theorem not_kept :
    ¬ ∀ (type : ClientType) (size : Nat) (cells : Nat → UInt8) (d : Outbound), 1 ≤ size →
      create type size cells = some d → ∀ actions, Runs.Meets step Kept { ring := d } actions := by
  intro h
  have hkept := (h .enhanced 1 (fun _ => 0) _ le_rfl rfl [.enqueueByte 0x31]).1
  exact absurd hkept.sound.wrapped (by decide)

end Traced

end Outbound

end Ebus
