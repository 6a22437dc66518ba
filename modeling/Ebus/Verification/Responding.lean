import Ebus.Platform.BusSimulator
import Ebus.Verification.Histories

/-!
# The simulator as an abstract responder

A `Responder` remembers everything it has heard and answers with the first rule whose trigger
ends it. `BusSimulator` does the same with a history of 64 bytes: what it cannot see is that a
longer trigger has been heard (`Refines.step`, `run_refines`).

The messages and reactions that `VirtualBus` makes are not always what a participant would write:
`append` brings a framed part back into its logical form when the sequence in front of it is in
that form, and a part that is extended again is escaped twice. `mocks_wire` says for which data
they are in wire form.
-/

namespace Ebus

open CircularBuffer (newest)

structure Responder where
  nextId : UInt32 := 0
  /-- what has been heard since the last call of `clear` -/
  heard : List UInt8 := []
  rules : List MockReaction := []
  queued : List ResponseItem := []
  stopped : Bool := false
  deriving DecidableEq, Repr

namespace Responder

/-- What has been heard ends with the trigger of a rule that still answers. -/
def Due (heard : List UInt8) (rule : MockReaction) : Prop :=
  rule.repeatCount ≠ -1 ∧ rule.trigger.bytes <:+ heard ∧
    rule.trigger.size ≤ SequenceLimits.defaultCapacity

instance (heard : List UInt8) (rule : MockReaction) : Decidable (Due heard rule) :=
  inferInstanceAs (Decidable (_ ∧ _ ∧ _))

/-- The answer of the first rule that is due, and the rules after it. -/
def answer (heard : List UInt8) : List MockReaction → Option (ResponseItem × List MockReaction)
  | [] => none
  | rule :: rest =>
      if Due heard rule then some (.ofReaction rule, rule.used :: rest)
      else (answer heard rest).map fun result => (result.1, rule :: result.2)

/-- No item can be queued. -/
def Blocked (s : Responder) : Prop :=
  s.stopped = true ∨ SimulationLimits.outboundQueueCapacity ≤ s.queued.length

instance (s : Responder) : Decidable s.Blocked := inferInstanceAs (Decidable (_ ∨ _))

def hear (s : Responder) (byte : UInt8) : Responder :=
  let heard := s.heard ++ [byte]
  if s.Blocked then { s with heard }
  else
    match answer heard s.rules with
    | some (item, rules) => { s with heard, rules, queued := s.queued ++ [item] }
    | none => { s with heard }

def step (s : Responder) : BusSimulator.Action → Responder
  | .onRead byte => s.hear byte
  | .addMockReaction reaction =>
      { s with nextId := s.nextId + 1
               rules := s.rules ++ [{ reaction with id := s.nextId + 1 }] }
  | .removeById id => { s with rules := s.rules.filter fun r => r.id ≠ id }
  | .removeByTrigger trigger =>
      { s with rules := s.rules.filter fun r => !r.trigger.logicallyEquals trigger }
  | .clear => { s with heard := [], rules := [], queued := [] }
  | .inject item => if s.Blocked then s else { s with queued := s.queued ++ [item] }
  | .pop => { s with queued := s.queued.drop 1 }
  | .stop => { s with stopped := true }

end Responder

theorem matchesAt_end {bytes search : List UInt8} (h : search.length ≤ bytes.length) :
    matchesAt bytes search (bytes.length - search.length) = true ↔ search <:+ bytes := by
  rw [matchesAt, Bool.or_eq_true, Bool.and_eq_true, Bool.and_eq_true, decide_eq_true_eq,
    decide_eq_true_eq, beq_iff_eq, List.suffix_iff_eq_drop, List.isEmpty_iff]
  have hall : (bytes.drop (bytes.length - search.length)).take search.length =
      bytes.drop (bytes.length - search.length) := by
    refine List.take_of_length_le ?_
    rw [List.length_drop]
    omega
  rw [hall]
  constructor
  · rintro (rfl | ⟨-, heq⟩)
    · rw [List.length_nil, Nat.sub_zero, List.drop_length]
    · exact heq.symm
  · intro heq
    rcases Nat.eq_zero_or_pos search.length with hzero | hpos
    · exact .inl (List.eq_nil_of_length_eq_zero hzero)
    · exact .inr ⟨⟨by omega, by omega⟩, heq.symm⟩

/-- The newest bytes end with whatever ends them all, as far as it fits. -/
theorem suffix_newest_iff {bytes heard : List UInt8} {capacity : Nat} :
    bytes <:+ newest capacity heard ↔ bytes <:+ heard ∧ bytes.length ≤ capacity := by
  have hsuffix : newest capacity heard <:+ heard := List.drop_suffix _ _
  have hlength : (newest capacity heard).length = min heard.length capacity := by
    rw [newest, List.length_drop]
    omega
  constructor
  · intro h
    refine ⟨h.trans hsuffix, h.length_le.trans ?_⟩
    rw [hlength]
    exact Nat.min_le_right ..
  · rintro ⟨h, hfits⟩
    refine List.suffix_of_suffix_length_le h hsuffix ?_
    rw [hlength]
    exact Nat.le_min.mpr ⟨h.length_le, hfits⟩

namespace BusSimulator

theorem triggered_iff {history : CircularBuffer UInt8 SequenceLimits.defaultCapacity}
    {heard : List UInt8} (hhistory : history.view = newest SequenceLimits.defaultCapacity heard)
    (trigger : Sequence) : triggered history trigger = true ↔
      trigger.bytes <:+ heard ∧ trigger.size ≤ SequenceLimits.defaultCapacity := by
  rw [triggered, Bool.and_eq_true, decide_eq_true_eq, ← history.length_view]
  show trigger.bytes.length ≤ _ ∧ matchesAt _ _ (_ - trigger.bytes.length) = true ↔ _
  rw [Sequence.size, ← suffix_newest_iff, ← hhistory]
  constructor
  · rintro ⟨hlength, hmatches⟩
    exact (matchesAt_end hlength).mp hmatches
  · intro h
    exact ⟨h.length_le, (matchesAt_end h.length_le).mpr h⟩

section

variable {queue : QueuePosix ResponseItem SimulationLimits.outboundQueueCapacity}

/-- No item can be put into the queue. -/
def Blocked (queue : QueuePosix ResponseItem SimulationLimits.outboundQueueCapacity) : Prop :=
  queue.shutdown = true ∨ SimulationLimits.outboundQueueCapacity ≤ queue.view.length

theorem tryPush_of_blocked (h : Blocked queue) (item : ResponseItem) :
    tryPush queue item = none := by
  rw [Blocked, queue.length_view] at h
  rw [tryPush]
  rcases h with hshutdown | hfull
  · exact if_pos hshutdown
  · rw [dif_neg (Nat.not_lt.mpr hfull), ite_self]

theorem tryPush_of_free (h : ¬Blocked queue) (item : ResponseItem) :
    ∃ pushed, tryPush queue item = some pushed ∧ pushed.view = queue.view ++ [item] ∧
      pushed.shutdown = queue.shutdown := by
  rw [Blocked, not_or, queue.length_view, Nat.not_le] at h
  refine ⟨queue.put item h.2, ?_, queue.view_put item h.2, rfl⟩
  rw [tryPush, if_neg h.1, dif_pos h.2]

variable {history : CircularBuffer UInt8 SequenceLimits.defaultCapacity} {heard : List UInt8}

theorem react_of_blocked (h : Blocked queue) (rules : List MockReaction) :
    react history queue rules = (rules, queue) := by
  induction rules with
  | nil => rfl
  | cons rule rest ih =>
    rw [react, ih, tryPush_of_blocked h]
    dsimp only
    rw [ite_self, ite_self]

/-- The loop over the reactions finds the first one that is due. -/
theorem react_of_free (hhistory : history.view = newest SequenceLimits.defaultCapacity heard)
    (h : ¬Blocked queue) (rules : List MockReaction) :
    match Responder.answer heard rules with
    | none => react history queue rules = (rules, queue)
    | some (item, after) => ∃ pushed, react history queue rules = (after, pushed) ∧
        pushed.view = queue.view ++ [item] ∧ pushed.shutdown = queue.shutdown := by
  induction rules with
  | nil => rfl
  | cons rule rest ih =>
    rw [Responder.answer, react]
    by_cases hdue : Responder.Due heard rule
    · obtain ⟨hcount, hheard⟩ := hdue
      obtain ⟨pushed, hpush, hview, hshutdown⟩ := tryPush_of_free h (.ofReaction rule)
      have htriggered := (triggered_iff hhistory rule.trigger).mpr hheard
      rw [if_pos ⟨hcount, hheard⟩, if_neg hcount, if_pos htriggered, hpush]
      exact ⟨pushed, rfl, hview, hshutdown⟩
    · have hskip : ∀ next other : List MockReaction ×
          QueuePosix ResponseItem SimulationLimits.outboundQueueCapacity,
          (if rule.repeatCount = -1 then next
            else if triggered history rule.trigger then other else next) = next := by
        intro next other
        split
        · rfl
        next hcount =>
          refine if_neg fun htriggered => hdue ⟨hcount, ?_⟩
          exact (triggered_iff hhistory rule.trigger).mp htriggered
      rw [if_neg hdue, hskip]
      cases hanswer : Responder.answer heard rest with
      | none =>
        rw [hanswer] at ih
        dsimp only [Option.map_none] at ih ⊢
        rw [ih]
      | some result =>
        rw [hanswer] at ih
        obtain ⟨pushed, heq, hrest⟩ := ih
        exact ⟨pushed, by rw [heq], hrest⟩

end

/-- What of a responder the simulator holds. -/
structure Refines (s : BusSimulator) (a : Responder) : Prop where
  ids : s.nextReactionId = a.nextId
  history : s.writeHistory.view = newest SequenceLimits.defaultCapacity a.heard
  rules : s.reactions = a.rules
  queue : s.outboundQueue.view = a.queued
  stopped : s.outboundQueue.shutdown = a.stopped

variable {s : BusSimulator} {a : Responder}

theorem Refines.blocked (refines : s.Refines a) : Blocked s.outboundQueue ↔ a.Blocked := by
  rw [Blocked, Responder.Blocked, refines.queue, refines.stopped]

theorem Refines.onRead (refines : s.Refines a) (byte : UInt8) :
    (s.onRead byte).Refines (a.hear byte) := by
  have hhistory : (s.writeHistory.pushImpl byte).1.view =
      newest SequenceLimits.defaultCapacity (a.heard ++ [byte]) := by
    have hpush : CircularBuffer.Action.push byte ≠ .tryPop := fun h => by cases h
    exact CircularBuffer.step_newest hpush refines.history
  rw [BusSimulator.onRead, Responder.hear, refines.rules]
  split
  next hblocked =>
    rw [react_of_blocked (refines.blocked.mpr hblocked)]
    exact ⟨refines.ids, hhistory, rfl, refines.queue, refines.stopped⟩
  next hfree =>
    have hreact := react_of_free hhistory (mt refines.blocked.mp hfree) a.rules
    cases hanswer : Responder.answer (a.heard ++ [byte]) a.rules with
    | none =>
      rw [hanswer] at hreact
      rw [hreact]
      exact ⟨refines.ids, hhistory, rfl, refines.queue, refines.stopped⟩
    | some result =>
      rw [hanswer] at hreact
      obtain ⟨pushed, heq, hview, hshutdown⟩ := hreact
      rw [heq]
      refine ⟨refines.ids, hhistory, rfl, ?_, hshutdown.trans refines.stopped⟩
      rw [hview, refines.queue]

theorem Refines.inject (refines : s.Refines a) (item : ResponseItem) :
    (s.step (.inject item)).Refines (a.step (.inject item)) := by
  rw [BusSimulator.step, Responder.step]
  split
  next hblocked =>
    rw [tryPush_of_blocked (refines.blocked.mpr hblocked), Option.getD_none]
    exact refines
  next hfree =>
    obtain ⟨pushed, hpush, hview, hshutdown⟩ :=
      tryPush_of_free (mt refines.blocked.mp hfree) item
    rw [hpush, Option.getD_some]
    exact ⟨refines.ids, refines.history, refines.rules, by rw [hview, refines.queue],
      hshutdown.trans refines.stopped⟩

theorem Refines.pop (refines : s.Refines a) : (s.step .pop).Refines (a.step .pop) := by
  rw [BusSimulator.step, Responder.step]
  split
  next hentry =>
    refine ⟨refines.ids, refines.history, refines.rules, ?_, refines.stopped⟩
    rw [QueuePosix.view_advance, refines.queue]
  next hempty =>
    have hnil : a.queued = [] := by
      refine List.eq_nil_of_length_eq_zero ?_
      rw [← refines.queue, QueuePosix.length_view]
      exact Nat.eq_zero_of_not_pos hempty
    refine ⟨refines.ids, refines.history, refines.rules, ?_, refines.stopped⟩
    rw [refines.queue, hnil]
    rfl

theorem Refines.step (refines : s.Refines a) (action : Action) :
    (s.step action).Refines (a.step action) := by
  cases action with
  | onRead byte => exact refines.onRead byte
  | addMockReaction reaction =>
    refine ⟨congrArg (· + 1) refines.ids, refines.history, ?_, refines.queue, refines.stopped⟩
    show s.reactions ++ [{ reaction with id := s.nextReactionId + 1 }] = _
    rw [refines.rules, refines.ids]
    rfl
  | removeById id =>
    exact ⟨refines.ids, refines.history, congrArg _ refines.rules, refines.queue,
      refines.stopped⟩
  | removeByTrigger trigger =>
    exact ⟨refines.ids, refines.history, congrArg _ refines.rules, refines.queue,
      refines.stopped⟩
  | clear => exact ⟨refines.ids, List.drop_nil.symm, rfl, rfl, refines.stopped⟩
  | inject item => exact refines.inject item
  | pop => exact refines.pop
  | stop => exact ⟨refines.ids, refines.history, refines.rules, refines.queue, rfl⟩

/-- Whatever is called and heard in whatever order, the simulator answers as a responder that
remembers all bytes: with the first reaction that is not used up and whose trigger, of at most
64 bytes, ends what has been heard, if there is room for the answer. -/
theorem run_refines (actions : List Action) :
    (Runs.run step create actions).Refines (Runs.run Responder.step {} actions) := by
  have hrun : ∀ (s : BusSimulator) (a : Responder), s.Refines a →
      (Runs.run step s actions).Refines (Runs.run Responder.step a actions) := by
    induction actions with
    | nil => exact fun s a refines => refines
    | cons action rest ih => exact fun s a refines => ih _ _ (refines.step action)
  exact hrun create {} ⟨rfl, rfl, rfl, rfl, rfl⟩

/-- A part with its check sum, as it is before it is stuffed. -/
def summed (part : List UInt8) : List UInt8 := part ++ [Sequence.calculateCRC part false]

/-- No byte of the part has to be escaped, nor has its check sum. -/
def Plain (part : List UInt8) : Prop := ∀ byte ∈ summed part, Symbols.needsEscape byte = false

theorem wire_eq (part : List UInt8) : Sequence.wire part = Sequence.stuff (summed part) := rfl

theorem length_stuff (bytes : List UInt8) : (Sequence.stuff bytes).length =
    bytes.length + bytes.countP Symbols.needsEscape := Sequence.code.length_stuff bytes

theorem stuff_eq_self_iff {bytes : List UInt8} :
    Sequence.stuff bytes = bytes ↔ ∀ byte ∈ bytes, Symbols.needsEscape byte = false := by
  constructor
  · intro heq byte hmem
    have hlength := congrArg List.length heq
    rw [length_stuff] at hlength
    have hnone : bytes.countP Symbols.needsEscape = 0 := by omega
    exact Bool.eq_false_iff.mpr (List.countP_eq_zero.mp hnone byte hmem)
  · intro hplain
    exact Sequence.code.stuff_eq_self hplain

theorem stuff_summed_iff {part : List UInt8} :
    Sequence.stuff (summed part) = summed part ↔ Plain part := stuff_eq_self_iff

/-- Stuffing never takes bytes away, so that it changes nothing where it adds none. -/
theorem stuff_of_length {bytes : List UInt8}
    (h : (Sequence.stuff bytes).length ≤ bytes.length) : Sequence.stuff bytes = bytes := by
  rw [length_stuff] at h
  refine stuff_eq_self_iff.mpr fun byte hmem => Bool.eq_false_iff.mpr ?_
  exact List.countP_eq_zero.mp (by omega) byte hmem

theorem reduce_of_bytes {s : Sequence} {part : List UInt8} (hextended : s.extended = true)
    (hbytes : s.bytes = Sequence.wire part) : s.reduce.bytes = summed part := by
  rw [Sequence.reduce_of_wire hextended, hbytes, wire_eq]
  exact Sequence.unstuff_stuff _

theorem reduce_frameMaster (source : UInt8) (payload : List UInt8) :
    (frameMaster source payload).reduce.bytes = summed (source :: payload) :=
  reduce_of_bytes (by rw [frameMaster, Sequence.extend_of_logical rfl])
    (Sequence.frameMaster_bytes source payload)

theorem reduce_frameSlave (payload : List UInt8) :
    (frameSlave payload).reduce.bytes = summed payload :=
  reduce_of_bytes (by rw [frameSlave, Sequence.extend_of_logical rfl])
    (Sequence.frameSlave_bytes payload)

theorem slaveReaction_bytes (source : UInt8) (trigger reaction : List UInt8)
    (repeatCount : Int) (delayMs : UInt32) :
    (MockReaction.slaveReaction source trigger reaction repeatCount delayMs).action.bytes =
      Symbols.ack :: summed reaction := by
  show [Symbols.ack] ++ (frameSlave reaction).reduce.bytes = _
  rw [reduce_frameSlave]
  rfl

/-- The bytes of an exchange between two parts and their acknowledgements. -/
def exchange (master slave : List UInt8) : List UInt8 :=
  master ++ Symbols.ack :: slave ++ [Symbols.ack, Symbols.syn]

theorem masterSlaveMessage_data (source : UInt8) (master slave : List UInt8) :
    (ResponseItem.masterSlaveMessage source master slave).data =
      (exchange (summed (source :: master)) (summed slave)).take
        SequenceLimits.defaultCapacity := by
  show ((((([] ++ (frameMaster source master).reduce.bytes) ++ [Symbols.ack]) ++
    (frameSlave slave).reduce.bytes) ++ [Symbols.ack]) ++ [Symbols.syn]).take _ = _
  rw [reduce_frameMaster, reduce_frameSlave, exchange]
  simp only [List.nil_append, List.append_assoc, List.cons_append]

/-- The flag that the acknowledgement sets is that of a sequence in logical form. -/
theorem fullTelegramReaction_trigger (source : UInt8) (master slave : List UInt8)
    (actionByte : UInt8) (repeatCount : Int) (delayMs : UInt32) :
    (MockReaction.fullTelegramReaction source master slave actionByte repeatCount
      delayMs).trigger.bytes =
      Sequence.stuff (Sequence.wire (source :: master)) ++
        Symbols.ack :: Sequence.wire slave := by
  have hack : Sequence.stuff [Symbols.ack] = [Symbols.ack] := by decide
  rw [MockReaction.fullTelegramReaction, Sequence.extend_of_logical rfl]
  show Sequence.stuff (((frameMaster source master).bytes ++ [Symbols.ack]) ++
    (frameSlave slave).reduce.bytes) = _
  rw [Sequence.frameMaster_bytes, reduce_frameSlave, Sequence.stuff_append,
    Sequence.stuff_append, hack, List.append_assoc]
  rfl

/-- A message is cut off, and it is stuffed nowhere. -/
theorem exchange_take_iff {master slave : List UInt8} {capacity : Nat} :
    (exchange (summed master) (summed slave)).take capacity =
        exchange (Sequence.wire master) (Sequence.wire slave) ↔
      Plain master ∧ Plain slave ∧
        (exchange (summed master) (summed slave)).length ≤ capacity := by
  have hlength (m s : List UInt8) : (exchange m s).length = m.length + s.length + 3 := by
    simp only [exchange, List.length_append, List.length_cons, List.length_nil]
    omega
  constructor
  · intro heq
    have hle := congrArg List.length heq
    rw [List.length_take, hlength, hlength, wire_eq, wire_eq, length_stuff, length_stuff] at hle
    refine ⟨stuff_summed_iff.mp (stuff_of_length ?_), stuff_summed_iff.mp (stuff_of_length ?_), ?_⟩
    · rw [length_stuff]
      omega
    · rw [length_stuff]
      omega
    · rw [hlength]
      omega
  · rintro ⟨hmaster, hslave, hfits⟩
    rw [List.take_of_length_le hfits, wire_eq, wire_eq, stuff_summed_iff.mpr hmaster,
      stuff_summed_iff.mpr hslave]

/-- What consists of one framed part is in wire form. -/
theorem framed_wire (source symbol : UInt8) (part : List UInt8) (repeatCount : Int)
    (delayMs : UInt32) :
    (MockReaction.replyReaction symbol source part repeatCount delayMs).trigger.bytes =
        Sequence.wire (source :: part) ∧
    (MockReaction.masterAckReaction part repeatCount delayMs).trigger.bytes =
        Sequence.wire part ∧
    (MockReaction.masterNakReaction part repeatCount delayMs).trigger.bytes =
        Sequence.wire part ∧
    (ResponseItem.masterMessage source part).data =
        (Sequence.wire (source :: part)).take SequenceLimits.defaultCapacity :=
  ⟨Sequence.frameMaster_bytes source part, Sequence.frameSlave_bytes part,
    Sequence.frameSlave_bytes part, congrArg _ (Sequence.frameMaster_bytes source part)⟩

/-- Where the simulator stands in for a participant, it does not always write what one would: the
answer of a slave is in wire form exactly when nothing in it has to be escaped, a whole exchange
when moreover it fits into one item, and the trigger for a whole telegram is what will be heard
of it exactly when nothing in its master part has to be escaped. -/
theorem mocks_wire (source : UInt8) (master slave : List UInt8) (actionByte : UInt8)
    (repeatCount : Int) (delayMs : UInt32) :
    ((MockReaction.slaveReaction source master slave repeatCount delayMs).action.bytes =
        Symbols.ack :: Sequence.wire slave ↔ Plain slave) ∧
    ((ResponseItem.masterSlaveMessage source master slave).data =
        exchange (Sequence.wire (source :: master)) (Sequence.wire slave) ↔
      Plain (source :: master) ∧ Plain slave ∧
        (exchange (summed (source :: master)) (summed slave)).length ≤
          SequenceLimits.defaultCapacity) ∧
    ((MockReaction.fullTelegramReaction source master slave actionByte repeatCount
        delayMs).trigger.bytes =
        Sequence.wire (source :: master) ++ Symbols.ack :: Sequence.wire slave ↔
      Plain (source :: master)) := by
  refine ⟨?_, ?_, ?_⟩
  · rw [slaveReaction_bytes, List.cons.injEq, wire_eq, ← stuff_summed_iff]
    exact ⟨fun h => h.2.symm, fun h => ⟨rfl, h.symm⟩⟩
  · rw [masterSlaveMessage_data]
    exact exchange_take_iff
  · rw [fullTelegramReaction_trigger, List.append_cancel_right_eq, ← stuff_summed_iff]
    constructor
    · intro h
      -- the stuffed part has an escape byte for every byte that was escaped
      refine stuff_of_length ?_
      have hcount := congrArg List.length h
      rw [length_stuff, wire_eq] at hcount
      have hnone : (Sequence.stuff (summed (source :: master))).countP Symbols.needsEscape = 0 := by
        omega
      have hext := Sequence.code.count_esc_stuff (summed (source :: master))
      have hfew : (Sequence.stuff (summed (source :: master))).count Symbols.ext ≤
          (Sequence.stuff (summed (source :: master))).countP Symbols.needsEscape := by
        refine List.countP_mono_left fun byte _ heq => ?_
        rw [beq_iff_eq] at heq
        rw [heq]
        decide
      rw [length_stuff]
      have hzero : (summed (source :: master)).countP Symbols.needsEscape = 0 :=
        Nat.eq_zero_of_le_zero (hext ▸ hnone ▸ hfew)
      rw [hzero]
      exact Nat.le_refl _
    · intro h
      rw [wire_eq, h, h]

end BusSimulator

end Ebus
