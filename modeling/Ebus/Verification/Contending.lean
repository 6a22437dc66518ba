import Ebus.Lib.Least
import Ebus.Platform.Participants
import Ebus.Verification.Orphans
import Mathlib.Order.Fin.Basic

/-!
# Who wins the bus

Any number of participants write their addresses at once and read what the line makes of them.
A master address consists of two of five nibbles that lie in one another bit by bit, so on the
line each nibble by itself is the least one. This is enough to see that nobody wins the bus who
has not asked for it, that no two win it together, and that two rounds are enough to settle
it: the participant with the least priority class wins, and within the class the one with
the least address.
-/

namespace Ebus

open Least

/-- The nibble of a rank: `0`, `1`, `3`, `7` or `f`. -/
def rankNibble (rank : Fin 5) : UInt8 := (1 <<< UInt8.ofNat rank.val) - 1

/-- The address of a priority class and a number within it. -/
def masterAddress (priority sub : Fin 5) : UInt8 := rankNibble sub <<< 4 ||| rankNibble priority

theorem masterAddress_and (p q r s : Fin 5) :
    masterAddress p q &&& masterAddress r s = masterAddress (min p r) (min q s) := by
  revert p q r s
  decide +kernel

theorem isMaster_masterAddress (p q : Fin 5) : isMaster (masterAddress p q) = true := by
  revert p q
  decide

/-- The lower nibble is the class. -/
theorem masterAddress_low (p q : Fin 5) : masterAddress p q &&& 0x0f = rankNibble p := by
  revert p q
  decide

theorem masterAddress_high (p q : Fin 5) : masterAddress p q >>> 4 = rankNibble q := by
  revert p q
  decide

theorem rankNibble_lt (p q : Fin 5) : rankNibble p < rankNibble q ↔ p < q := by
  revert p q
  decide

theorem rankNibble_inj (p q : Fin 5) : rankNibble p = rankNibble q ↔ p = q := by
  refine ⟨fun h => le_antisymm ?_ ?_, congrArg rankNibble⟩
  · exact not_lt.mp fun hlt => UInt8.lt_irrefl _ (h ▸ (rankNibble_lt q p).mpr hlt)
  · exact not_lt.mp fun hlt => UInt8.lt_irrefl _ (h ▸ (rankNibble_lt p q).mpr hlt)

theorem masterAddress_injective {p q r s : Fin 5} (h : masterAddress p q = masterAddress r s) :
    p = r ∧ q = s := by
  constructor
  · rw [← rankNibble_inj, ← masterAddress_low p q, h, masterAddress_low]
  · rw [← rankNibble_inj, ← masterAddress_high p q, h, masterAddress_high]

/-- Two addresses are of one class if their lower nibbles agree. -/
theorem masterAddress_class (p q r s : Fin 5) :
    masterAddress p q &&& 0x0f = masterAddress r s &&& 0x0f ↔ p = r := by
  rw [masterAddress_low, masterAddress_low, rankNibble_inj]

theorem masterAddress_class_lt (p q r s : Fin 5) :
    masterAddress p q &&& 0x0f < masterAddress r s &&& 0x0f ↔ p < r := by
  rw [masterAddress_low, masterAddress_low, rankNibble_lt]

theorem masterAddress_le (p q s : Fin 5) :
    masterAddress p q ≤ masterAddress p s ↔ q ≤ s := by
  revert p q s
  decide

theorem exists_masterAddress {byte : UInt8} (h : isMaster byte = true) :
    ∃ p q, byte = masterAddress p q := by
  have hall : ∀ n : Fin 256, isMaster (UInt8.ofNat n.val) = true →
      ∃ p q, UInt8.ofNat n.val = masterAddress p q := by decide +kernel
  have hbyte := hall ⟨byte.toNat, byte.toNat_lt⟩
  rw [UInt8.ofNat_toNat] at hbyte
  exact hbyte h

theorem ne_syn_of_isMaster {byte : UInt8} (h : isMaster byte = true) : byte ≠ Symbols.syn := by
  rintro rfl
  exact absurd h (by decide)

/-- The line shows the least class and the least number. -/
theorem lineLevel_addresses {ι : Type*} (priority sub : ι → Fin 5) (writers : List ι) :
    lineLevel (writers.map fun i => masterAddress (priority i) (sub i)) =
      masterAddress (least (writers.map priority)) (least (writers.map sub)) := by
  have hidle : masterAddress ⊤ ⊤ = 0xff := by decide
  unfold lineLevel
  rw [← hidle]
  exact foldr_code (· &&& ·) masterAddress masterAddress_and priority sub writers

namespace Participant

/-- An event that is not suppressed makes of the arbitration machine of an engine what it makes of
that of a participant, before the engine answers. -/
theorem read_eq_engine (h : Handler) (byte : UInt8) (flag fast : Bool)
    (hdelivered : (byte == Symbols.syn && h.request.busRequest && h.request.externalBusRequest) =
      false) :
    ((h.afterFlags
        { byte, busRequest := flag || byte == Symbols.syn && h.request.busRequest && fast
        }).afterRequest byte).request =
      (read { request := h.request, busRequestFlag := flag } byte fast).request := by
  unfold read
  simp only [hdelivered, Bool.false_eq_true, if_false]
  show ((h.afterFlags _).request.run byte) = _
  rw [Handler.afterFlags_request]
  rfl

/-- Between two rounds: no task is under way, and a machine that waits for the second round has
its request pending. -/
structure Rested (own : UInt8) (p : Participant) : Prop where
  flags : p.busRequestFlag = false ∧ p.armed = false ∧ p.reported = false
  state : p.request.state = .observe ∨
    p.request.state = .retry ∧ p.request.busRequest = true
  address : p.request.busRequest = true → p.request.requestAddress = own

/-- Where a machine stands when the line shows the addresses. -/
def contest (p : Participant) : RequestState :=
  if p.request.state = .observe then .first
  else if p.request.externalBusRequest then .retry else .second

variable {own : UInt8} {p : Participant}

theorem read_quiet (h : p.Rested own) (hquiet : p.request.busRequest = false) (byte : UInt8)
    (fast : Bool) : p.read byte fast = { request := p.request.run byte } := by
  obtain ⟨hflag, harmed, hreported⟩ := h.flags
  unfold read
  simp [hquiet, hflag, harmed, hreported]

theorem read_other (h : p.Rested own) {byte : UInt8} (hbyte : byte ≠ Symbols.syn) (fast : Bool) :
    p.read byte fast = { request := p.request.run byte } := by
  obtain ⟨hflag, harmed, hreported⟩ := h.flags
  unfold read
  simp [hbyte, hflag, harmed, hreported]

/-- The machine that meets the level of the line behind a SYN with its request pending. -/
def contender (p : Participant) (fast : Bool) : Request :=
  if p.request.externalBusRequest then p.request.busRequestCompleted
  else if fast then p.request.busRequestCompleted.run Symbols.syn
  else (p.request.run Symbols.syn).busRequestCompleted

/-- A pending request is written behind the SYN, whoever made it and however fast the task is. -/
theorem read_pending (h : p.Rested own) (hpending : p.request.busRequest = true) (fast : Bool) :
    (p.read Symbols.syn fast).armed = true ∧
    (p.read Symbols.syn fast).request.requestAddress = own ∧
    ∀ level, level ≠ Symbols.syn →
      (p.read Symbols.syn fast).written.read level false =
        { request := (p.contender fast).run level } := by
  obtain ⟨hflag, harmed, hreported⟩ := h.flags
  have haddress := h.address hpending
  unfold contender
  cases hexternal : p.request.externalBusRequest with
  | true =>
      have hread : p.read Symbols.syn fast = { p with armed := true } := by
        unfold read
        simp [hpending, hexternal]
      rw [hread]
      refine ⟨rfl, haddress, fun level hlevel => ?_⟩
      simp [read, written, hlevel, hreported]
  | false =>
      cases fast with
      | true =>
          have hread : p.read Symbols.syn true =
              { request := p.request.busRequestCompleted.run Symbols.syn
                armed := true, reported := true } := by
            unfold read
            simp [hpending, hexternal, hflag, harmed, hreported]
          rw [hread]
          refine ⟨rfl, ?_, fun level hlevel => ?_⟩
          · rw [(Request.run_move _ _).2.1, Request.busRequestCompleted_eq]
            exact haddress
          · simp [read, written, hlevel]
      | false =>
          have hread : p.read Symbols.syn false =
              { request := p.request.run Symbols.syn, armed := true } := by
            unfold read
            simp [hpending, hexternal, hflag, harmed, hreported]
          rw [hread]
          refine ⟨rfl, (Request.run_move _ _).2.1.trans haddress, fun level hlevel => ?_⟩
          simp [read, written, hlevel]

/-- Where this machine stands. -/
theorem contender_spec (h : p.Rested own) (hpending : p.request.busRequest = true) (fast : Bool) :
    (p.contender fast).state = p.contest ∧ (p.contender fast).requestAddress = own ∧
    (p.contender fast).busRequest = false := by
  have haddress := h.address hpending
  unfold contender contest
  obtain hs | ⟨hs, -⟩ := h.state
  · cases p.request.externalBusRequest <;> cases fast <;>
      simp [Request.busRequestCompleted, Request.run, Request.observe, Request.first, hs, haddress,
        Request.transitionTo, Request.transitionMasks]
  · cases p.request.externalBusRequest <;> cases fast <;>
      simp [Request.busRequestCompleted, Request.run, Request.retry, hs, haddress,
        Request.transitionTo, Request.transitionMasks]

/-- The bus is won by the address that the line shows, unless the machine still waits for a SYN. -/
theorem won_run_iff {r : Request} {level : UInt8} (hlevel : level ≠ Symbols.syn)
    (hs : r.state = .first ∨ r.state = .second ∨ r.state = .retry) :
    Won { request := r.run level } ↔ r.state ≠ .retry ∧ level = r.requestAddress := by
  unfold Won Request.run
  obtain hs | hs | hs := hs
  · simp only [hs, Request.first, if_neg hlevel]
    split_ifs with hown hmaster hclass <;> simp [hown]
  · simp only [hs, Request.second]
    split_ifs with hown hmaster <;> simp [hown]
  · simp [hs, Request.retry, hlevel]

/-- Behind a byte other than SYN a participant is ready for the next round. -/
theorem rested_run {r : Request} {level : UInt8} (hlevel : level ≠ Symbols.syn)
    (haddress : r.busRequest = true ∨ r.state = .first → r.requestAddress = own) :
    Rested own { request := r.run level } := by
  obtain ⟨hmove, hsame, -⟩ := r.run_move level
  refine ⟨⟨rfl, rfl, rfl⟩, ?_, fun hpending => hsame.trans (haddress ?_)⟩
  · show (r.run level).state = .observe ∨
      (r.run level).state = .retry ∧ (r.run level).busRequest = true
    generalize (r.run level).state = state, (r.run level).busRequest = request,
      (r.run level).result = result at hmove
    cases hmove
    case observed hs => exact .inl rfl
    case firstSyn hs hsyn => exact absurd hsyn hlevel
    case firstRetry => exact .inr ⟨rfl, rfl⟩
    case retrySyn hs hsyn => exact absurd hsyn hlevel
    all_goals exact .inl rfl
  · have hrequest : (r.run level).busRequest = true := hpending
    generalize (r.run level).state = state, (r.run level).busRequest = request,
      (r.run level).result = result at hmove hrequest
    cases hmove
    case firstRetry hs _ => exact .inr hs
    all_goals exact .inl hrequest

/-- An observing machine wins nothing, and goes on observing. -/
theorem observe_run {r : Request} (hs : r.state = .observe) (byte : UInt8) :
    (r.run byte).state = .observe ∧ (r.run byte).busRequest = r.busRequest ∧
    ¬ Won { request := r.run byte } := by
  unfold Won Request.run
  simp only [hs, Request.observe]
  split <;> simp

/-- It has not asked and has not won. -/
structure Idle (own : UInt8) (p : Participant) : Prop where
  rested : p.Rested own
  quiet : p.request.busRequest = false
  lost : ¬ p.Won

theorem idle_run {r : Request} (hs : r.state = .observe) (hquiet : r.busRequest = false)
    (byte : UInt8) : Idle own { request := r.run byte } := by
  obtain ⟨hs', hrequest, hlost⟩ := observe_run hs byte
  refine ⟨⟨⟨rfl, rfl, rfl⟩, .inl hs', fun hpending => ?_⟩, hrequest.trans hquiet, hlost⟩
  exact absurd (hpending.symm.trans (hrequest.trans hquiet)) Bool.false_ne_true.symm

/-- Who has not asked reads the SYN and what the line shows behind it. -/
theorem read_round_quiet (h : p.Rested own) (hquiet : p.request.busRequest = false) (fast : Bool)
    (level : UInt8) :
    (p.read Symbols.syn fast).armed = false ∧ Idle own (p.read Symbols.syn fast) ∧
    Idle own ((p.read Symbols.syn fast).written.read level false) := by
  have hs : p.request.state = .observe :=
    h.state.resolve_right fun hretry => Bool.false_ne_true (hquiet.symm.trans hretry.2)
  obtain ⟨hs', hrequest', -⟩ := observe_run hs Symbols.syn
  have hidle : Idle own (p.read Symbols.syn fast) := by
    rw [read_quiet h hquiet Symbols.syn fast]
    exact idle_run hs hquiet Symbols.syn
  refine ⟨hidle.rested.flags.2.1, hidle, ?_⟩
  have hwritten : (p.read Symbols.syn fast).written = p.read Symbols.syn fast :=
    if_neg (Bool.eq_false_iff.mp hidle.rested.flags.2.1)
  rw [hwritten, read_quiet hidle.rested hidle.quiet level false,
    read_quiet h hquiet Symbols.syn fast]
  exact idle_run hs' (hrequest'.trans hquiet) level

/-- Who has asked wins if the line shows the own address, and not in a second round that began
without the machine. -/
theorem read_round_pending (h : p.Rested own) (hpending : p.request.busRequest = true)
    (fast : Bool) {level : UInt8} (hlevel : level ≠ Symbols.syn) :
    Rested own ((p.read Symbols.syn fast).written.read level false) ∧
    (((p.read Symbols.syn fast).written.read level false).Won ↔
      p.contest ≠ .retry ∧ level = own) := by
  obtain ⟨-, -, hread⟩ := read_pending h hpending fast
  obtain ⟨hs, haddress, hrequest⟩ := contender_spec h hpending fast
  rw [hread level hlevel]
  refine ⟨rested_run hlevel fun _ => haddress, ?_⟩
  rw [won_run_iff hlevel ?_, hs, haddress]
  rw [hs]
  unfold contest
  split
  · exact .inl rfl
  · split
    · exact .inr (.inr rfl)
    · exact .inr (.inl rfl)

/-- A byte other than SYN ends what is left of an arbitration. -/
theorem read_data (h : p.Rested own) {byte : UInt8} (hbyte : byte ≠ Symbols.syn) (fast : Bool) :
    (p.read byte fast).armed = false ∧ Rested own (p.read byte fast) ∧
    ¬ (p.read byte fast).Won := by
  rw [read_other h hbyte fast]
  refine ⟨rfl, rested_run hbyte ?_, ?_⟩
  · rintro (hpending | hs)
    · exact h.address hpending
    · obtain hs' | ⟨hs', -⟩ := h.state
      · exact absurd (hs.symm.trans hs') (by decide)
      · exact absurd (hs.symm.trans hs') (by decide)
  · obtain hs | ⟨hs, -⟩ := h.state
    · exact (observe_run hs byte).2.2
    · rw [won_run_iff hbyte (.inr (.inr hs))]
      exact fun hwon => hwon.1 hs

end Participant

namespace Participants

variable {ι : Type*} {own : ι → UInt8} {s : Participants ι}

/-- Those whose requests are pending. -/
def askers (s : Participants ι) : List ι :=
  s.members.filter fun i => (s.participant i).request.busRequest

def Rested (own : ι → UInt8) (s : Participants ι) : Prop :=
  ∀ i ∈ s.members, (s.participant i).Rested (own i)

theorem mem_askers {i : ι} :
    i ∈ s.askers ↔ i ∈ s.members ∧ (s.participant i).request.busRequest = true :=
  List.mem_filter

/-- What the line shows is the address of a master. -/
theorem isMaster_lineLevel (hmaster : ∀ i, isMaster (own i) = true) (writers : List ι) :
    isMaster (lineLevel (writers.map own)) = true := by
  choose priority sub hown using fun i => exists_masterAddress (hmaster i)
  obtain rfl : own = fun i => masterAddress (priority i) (sub i) := funext hown
  rw [lineLevel_addresses]
  exact isMaster_masterAddress _ _

/-- Behind the SYN those write who have asked. -/
theorem writers_syn (h : s.Rested own) (fast : ι → Bool) :
    writers { s with participant := fun i => (s.participant i).read Symbols.syn (fast i) } =
      s.askers := by
  refine List.filter_congr fun i hi => ?_
  show ((s.participant i).read Symbols.syn (fast i)).armed =
    (s.participant i).request.busRequest
  cases hrequest : (s.participant i).request.busRequest with
  | true => exact (Participant.read_pending (h i hi) hrequest (fast i)).1
  | false => exact (Participant.read_round_quiet (h i hi) hrequest (fast i) 0).1

/-- A round: the SYN, and what the line shows when somebody writes. -/
theorem byte_syn (h : s.Rested own) (fast : ι → Bool) :
    s.byte Symbols.syn fast =
      if s.askers = [] then
        { s with participant := fun i => (s.participant i).read Symbols.syn (fast i) }
      else
        let level := lineLevel (s.askers.map own)
        { s with participant := fun i =>
            ((s.participant i).read Symbols.syn (fast i)).written.read level false } := by
  unfold byte contend
  rw [writers_syn h]
  split
  · rfl
  · have haddresses : (s.askers.map fun i =>
        ((s.participant i).read Symbols.syn (fast i)).request.requestAddress) =
        s.askers.map own := by
      refine List.map_congr_left fun i hi => ?_
      obtain ⟨hmember, hrequest⟩ := mem_askers.mp hi
      exact (Participant.read_pending (h i hmember) hrequest (fast i)).2.1
    simp only [haddresses]

/-- Who wins a round. -/
theorem won_syn (hmaster : ∀ i, isMaster (own i) = true) (h : s.Rested own) (fast : ι → Bool)
    {i : ι} (hi : i ∈ s.members) :
    ((s.byte Symbols.syn fast).participant i).Rested (own i) ∧
    (((s.byte Symbols.syn fast).participant i).Won ↔
      i ∈ s.askers ∧ (s.participant i).contest ≠ .retry ∧
        lineLevel (s.askers.map own) = own i) := by
  have hlevel := ne_syn_of_isMaster (isMaster_lineLevel hmaster s.askers)
  rw [byte_syn h]
  cases hrequest : (s.participant i).request.busRequest with
  | true =>
      have hasker : i ∈ s.askers := mem_askers.mpr ⟨hi, hrequest⟩
      rw [if_neg (List.ne_nil_of_mem hasker)]
      obtain ⟨hrested, hwon⟩ :=
        Participant.read_round_pending (h i hi) hrequest (fast i) hlevel
      refine ⟨hrested, hwon.trans ?_⟩
      rw [and_iff_right hasker]
  | false =>
      have hasker : i ∉ s.askers := fun hmem =>
        Bool.false_ne_true (hrequest.symm.trans (mem_askers.mp hmem).2)
      obtain ⟨-, hidle, hidle'⟩ :=
        Participant.read_round_quiet (h i hi) hrequest (fast i) (lineLevel (s.askers.map own))
      split
      · exact ⟨hidle.rested, iff_of_false hidle.lost fun hboth => hasker hboth.1⟩
      · exact ⟨hidle'.rested, iff_of_false hidle'.lost fun hboth => hasker hboth.1⟩

/-- A byte within a telegram. -/
theorem byte_data (h : s.Rested own) {byte : UInt8} (hbyte : byte ≠ Symbols.syn)
    (fast : ι → Bool) {i : ι} (hi : i ∈ s.members) :
    ((s.byte byte fast).participant i).Rested (own i) ∧
    ¬ ((s.byte byte fast).participant i).Won := by
  have hwriters : writers
      { s with participant := fun i => (s.participant i).read byte (fast i) } = [] := by
    refine List.filter_eq_nil_iff.mpr fun j hj => ?_
    rw [(Participant.read_data (h j hj) hbyte (fast j)).1]
    exact Bool.false_ne_true
  unfold Participants.byte contend
  rw [if_pos hwriters]
  exact (Participant.read_data (h i hi) hbyte (fast i)).2

theorem byte_members (s : Participants ι) (byte : UInt8) (fast : ι → Bool) :
    (s.byte byte fast).members = s.members := by
  unfold Participants.byte contend
  split
  · rfl
  · rfl

/-- Who has not asked before the round does not ask behind it. -/
theorem quiet_syn (h : s.Rested own) {i : ι} (hi : i ∈ s.members) (hasker : i ∉ s.askers)
    (fast : ι → Bool) :
    ¬ ((s.byte Symbols.syn fast).participant i).request.busRequest = true := by
  have hquiet : (s.participant i).request.busRequest = false :=
    Bool.eq_false_iff.mpr fun hrequest => hasker (mem_askers.mpr ⟨hi, hrequest⟩)
  obtain ⟨-, hidle, hidle'⟩ :=
    Participant.read_round_quiet (h i hi) hquiet (fast i) (lineLevel (s.askers.map own))
  rw [byte_syn h]
  split
  · exact Bool.eq_false_iff.mp hidle.quiet
  · exact Bool.eq_false_iff.mp hidle'.quiet

theorem participant_syn (h : s.Rested own) {i : ι} (hasker : i ∈ s.askers) (fast : ι → Bool)
    (hlevel : lineLevel (s.askers.map own) ≠ Symbols.syn) :
    (s.byte Symbols.syn fast).participant i =
      ⟨((s.participant i).contender (fast i)).run (lineLevel (s.askers.map own)), false, false,
        false⟩ := by
  obtain ⟨hmember, hrequest⟩ := mem_askers.mp hasker
  rw [byte_syn h, if_neg (List.ne_nil_of_mem hasker)]
  exact (Participant.read_pending (h i hmember) hrequest (fast i)).2.2 _ hlevel

/-- What the first round leaves of a participant that has asked through its engine and has not
won: it waits for the second round, if the line shows its class. -/
theorem asker_first (h : s.Rested own) {i : ι} (hasker : i ∈ s.askers)
    (hobserve : (s.participant i).request.state = .observe)
    (hinternal : (s.participant i).request.externalBusRequest = false) (fast : ι → Bool)
    (hlevel : isMaster (lineLevel (s.askers.map own)) = true)
    (hlost : lineLevel (s.askers.map own) ≠ own i) :
    let p := (s.byte Symbols.syn fast).participant i
    (p.request.busRequest = true ↔ lineLevel (s.askers.map own) &&& 0x0f = own i &&& 0x0f) ∧
    (p.request.busRequest = true → p.contest = .second) := by
  intro p
  obtain ⟨hmember, hrequest⟩ := mem_askers.mp hasker
  have hrested := h i hmember
  obtain ⟨hs, haddress, hsettled⟩ := Participant.contender_spec hrested hrequest (fast i)
  have hsyn := ne_syn_of_isMaster hlevel
  have hp := participant_syn h hasker fast hsyn
  have hfirst : ((s.participant i).contender (fast i)).state = .first := by
    rw [hs]
    exact if_pos hobserve
  have hexternal : ((s.participant i).contender (fast i)).externalBusRequest = false := by
    unfold Participant.contender
    rw [hinternal]
    cases fast i
    · simp [Request.busRequestCompleted_eq, (Request.run_move _ _).2.2, hinternal]
    · simp [Request.busRequestCompleted_eq, (Request.run_move _ _).2.2, hinternal]
  show (((s.byte Symbols.syn fast).participant i).request.busRequest = true ↔ _) ∧
    (((s.byte Symbols.syn fast).participant i).request.busRequest = true →
      ((s.byte Symbols.syn fast).participant i).contest = .second)
  rw [hp]
  clear hp p
  generalize (s.participant i).contender (fast i) = r at *
  generalize lineLevel (s.askers.map own) = level at *
  rw [← haddress] at hlost ⊢
  have hrun : r.run level = r.first level := by rw [Request.run, hfirst]
  have hstay : (r.first level).externalBusRequest = false := by
    rw [← hrun, (Request.run_move _ _).2.2]
    exact hexternal
  rw [hrun]
  by_cases hclass : level &&& 0x0f = r.requestAddress &&& 0x0f
  · have hretry : (r.first level).busRequest = true ∧ (r.first level).state = .retry := by
      simp [Request.first, hsyn, hlost, hlevel, hclass, Request.transitionTo, hfirst,
        Request.transitionMasks]
    refine ⟨iff_of_true hretry.1 hclass, fun _ => ?_⟩
    unfold Participant.contest
    simp [hretry.2, hstay]
  · have hquiet : (r.first level).busRequest = false := by
      simp [Request.first, hsyn, hlost, hlevel, hclass, Request.transitionTo_observe, hsettled]
    refine ⟨iff_of_false (by rw [hquiet]; exact Bool.false_ne_true) hclass, fun hrequest' => ?_⟩
    exact absurd (hquiet.symm.trans hrequest') Bool.false_ne_true

/-- What the addresses have to do with the line: of the askers of the least class one has the least
number, and it is the first of all. -/
theorem exists_first (priority sub : ι → Fin 5) {askers : List ι} (hsome : askers ≠ []) :
    ∃ w ∈ askers, priority w = least (askers.map priority) ∧
      (∀ i ∈ askers, priority i = priority w → sub w ≤ sub i) ∧
      least (askers.map sub) ≤ sub w := by
  have hclass := least_mem (by simpa using hsome : askers.map priority ≠ [])
  obtain ⟨first, hfirst, hpriority⟩ := List.mem_map.mp hclass
  let others := askers.filter fun i => priority i = least (askers.map priority)
  have hothers : others ≠ [] :=
    List.ne_nil_of_mem (List.mem_filter.mpr ⟨hfirst, by simpa using hpriority⟩)
  have hsub := least_mem (by simpa using hothers : others.map sub ≠ [])
  obtain ⟨w, hw, hleast⟩ := List.mem_map.mp hsub
  obtain ⟨hasker, hwclass⟩ := List.mem_filter.mp hw
  have hwclass : priority w = least (askers.map priority) := by simpa using hwclass
  refine ⟨w, hasker, hwclass, fun i hi heq => ?_, least_le (List.mem_map_of_mem hasker)⟩
  rw [hleast]
  refine least_le (List.mem_map_of_mem (List.mem_filter.mpr ⟨hi, ?_⟩))
  simpa using heq.trans hwclass

/-- In the class of the first asker the line shows its address. -/
theorem lineLevel_class {priority sub : ι → Fin 5} {w : ι} {askers : List ι} (hw : w ∈ askers)
    (hclass : ∀ i ∈ askers, priority i = priority w) (hsub : ∀ i ∈ askers, sub w ≤ sub i) :
    lineLevel (askers.map fun i => masterAddress (priority i) (sub i)) =
      masterAddress (priority w) (sub w) := by
  rw [lineLevel_addresses]
  have hleft : least (askers.map priority) = priority w := by
    obtain ⟨i, hi, heq⟩ :=
      List.mem_map.mp (least_mem (List.ne_nil_of_mem (List.mem_map_of_mem (f := priority) hw)))
    rw [← heq]
    exact hclass i hi
  have hright : least (askers.map sub) = sub w := by
    refine le_antisymm (least_le (List.mem_map_of_mem hw)) ?_
    obtain ⟨i, hi, heq⟩ :=
      List.mem_map.mp (least_mem (List.ne_nil_of_mem (List.mem_map_of_mem (f := sub) hw)))
    rw [← heq]
    exact hsub i hi
  rw [hleft, hright]

/-- Any number of participants with different master addresses have asked for the bus through their
engines, and nobody asks in between. Then one of them wins, in the first round or in the
second, and nobody else wins in either: the one of the least priority class and, within
it, of the least address. -/
theorem elects (own : ι → UInt8) (hmaster : ∀ i, isMaster (own i) = true) (s : Participants ι)
    (hown : ∀ i ∈ s.members, ∀ j ∈ s.members, own i = own j → i = j) (hrested : s.Rested own)
    (hobserve : ∀ i ∈ s.askers, (s.participant i).request.state = .observe ∧
      (s.participant i).request.externalBusRequest = false)
    (hsome : s.askers ≠ []) (fast fast' : ι → Bool) :
    let t := s.byte Symbols.syn fast
    let u := t.byte Symbols.syn fast'
    ∃ w ∈ s.askers,
      (∀ i ∈ s.askers, own w &&& 0x0f < own i &&& 0x0f ∨
        own w &&& 0x0f = own i &&& 0x0f ∧ own w ≤ own i) ∧
      ((∀ i ∈ s.members, (t.participant i).Won ↔ i = w) ∨
        (∀ i ∈ s.members, ¬ (t.participant i).Won) ∧
          ∀ i ∈ s.members, (u.participant i).Won ↔ i = w) := by
  intro t u
  choose priority sub haddress using fun i => exists_masterAddress (hmaster i)
  have hfun : own = fun i => masterAddress (priority i) (sub i) := funext haddress
  obtain ⟨w, hw, hclass, hleast, -⟩ := exists_first priority sub hsome
  have hmember : w ∈ s.members := (mem_askers.mp hw).1
  have hcontest (i : ι) (hi : i ∈ s.askers) : (s.participant i).contest ≠ .retry := by
    unfold Participant.contest
    rw [if_pos (hobserve i hi).1]
    exact RequestState.noConfusion
  have hlevel : lineLevel (s.askers.map own) =
      masterAddress (priority w) (least (s.askers.map sub)) := by
    rw [hfun, lineLevel_addresses, hclass]
  -- Who wins the first round has the least class and the least number of all.
  have hround (i : ι) (hi : i ∈ s.members) : (t.participant i).Won ↔
      i ∈ s.askers ∧ priority i = priority w ∧ sub i = least (s.askers.map sub) := by
    refine (won_syn hmaster hrested fast hi).2.trans ?_
    rw [hlevel, haddress i]
    constructor
    · rintro ⟨hasker, -, heq⟩
      obtain ⟨hp, hq⟩ := masterAddress_injective heq
      exact ⟨hasker, hp.symm, hq.symm⟩
    · rintro ⟨hasker, hp, hq⟩
      exact ⟨hasker, hcontest i hasker, by rw [hp, hq]⟩
  refine ⟨w, hw, fun i hi => ?_, ?_⟩
  · rw [haddress w, haddress i, masterAddress_class_lt, masterAddress_class]
    obtain hlt | heq := (hclass.trans_le (least_le (List.mem_map_of_mem hi))).lt_or_eq
    · exact .inl hlt
    · refine .inr ⟨heq, ?_⟩
      rw [heq, masterAddress_le]
      exact hleast i hi heq.symm
  · by_cases hfirst : sub w = least (s.askers.map sub)
    · refine .inl fun i hi => (hround i hi).trans ⟨?_, ?_⟩
      · rintro ⟨-, hp, hq⟩
        refine hown i hi w hmember ?_
        rw [haddress i, haddress w, hp, hq, hfirst]
      · rintro rfl
        exact ⟨hw, rfl, hfirst⟩
    · have hnobody (i : ι) (hi : i ∈ s.members) : ¬ (t.participant i).Won := by
        rw [hround i hi]
        rintro ⟨hasker, hp, hq⟩
        refine hfirst (le_antisymm ?_ (least_le (List.mem_map_of_mem hw)))
        rw [← hq]
        exact hleast i hasker hp
      refine .inr ⟨hnobody, ?_⟩
      have hmembers : t.members = s.members := byte_members s Symbols.syn fast
      have hrested' : t.Rested own := fun i hi => (won_syn hmaster hrested fast (hmembers ▸ hi)).1
      have hlost (i : ι) (hi : i ∈ s.askers) : lineLevel (s.askers.map own) ≠ own i := by
        intro heq
        have hi' := (mem_askers.mp hi).1
        exact hnobody i hi' ((won_syn hmaster hrested fast hi').2.mpr ⟨hi, hcontest i hi, heq⟩)
      -- The second round is among those of the least class.
      have hsecond (i : ι) (hi : i ∈ s.members) :
          i ∈ t.askers ↔ i ∈ s.askers ∧ priority i = priority w := by
        rw [mem_askers, hmembers, and_iff_right hi]
        by_cases hasker : i ∈ s.askers
        · obtain ⟨hiff, -⟩ := asker_first hrested hasker (hobserve i hasker).1
            (hobserve i hasker).2 fast (isMaster_lineLevel hmaster _) (hlost i hasker)
          rw [and_iff_right hasker]
          refine hiff.trans ?_
          rw [hlevel, haddress i, masterAddress_class, eq_comm]
        · refine iff_of_false ?_ fun hboth => hasker hboth.1
          exact quiet_syn hrested hi hasker fast
      have hsub : ∀ i ∈ t.askers, i ∈ s.members := fun i hi => hmembers ▸ (mem_askers.mp hi).1
      have hwasker : w ∈ t.askers := (hsecond w hmember).mpr ⟨hw, rfl⟩
      have hlevel' : lineLevel (t.askers.map own) = own w := by
        rw [hfun]
        refine lineLevel_class hwasker (fun i hi => ((hsecond i (hsub i hi)).mp hi).2)
          fun i hi => ?_
        obtain ⟨hasker, hp⟩ := (hsecond i (hsub i hi)).mp hi
        exact hleast i hasker hp
      intro i hi
      refine (won_syn hmaster hrested' fast' (hmembers.symm ▸ hi)).2.trans ?_
      rw [hlevel']
      constructor
      · rintro ⟨-, -, heq⟩
        exact (hown w hmember i hi heq).symm
      · rintro rfl
        refine ⟨hwasker, ?_, rfl⟩
        obtain ⟨-, hcontest'⟩ := asker_first hrested hw (hobserve i hw).1 (hobserve i hw).2 fast
          (isMaster_lineLevel hmaster _) (hlost i hw)
        rw [hcontest' (mem_askers.mp hwasker).2]
        exact RequestState.noConfusion

/-- Of 0x30, 0x10 and 0x01 the line shows 0x00, which is nobody's address. In the second round,
without 0x01, it shows 0x10. -/
theorem elects_second :
    let own (i : Fin 3) : UInt8 := if i = 0 then 0x30 else if i = 1 then 0x10 else 0x01
    let s : Participants (Fin 3) :=
      { members := [0, 1, 2]
        participant := fun i => { request := { requestAddress := own i, busRequest := true } } }
    let t := s.byte Symbols.syn fun _ => false
    let u := t.byte Symbols.syn fun _ => false
    (u.participant 1).Won ∧ (∀ i ∈ s.members, ¬ (t.participant i).Won) ∧
      ∃ w ∈ s.askers, (∀ i ∈ s.members, (t.participant i).Won ↔ i = w) ∨
        ∀ i ∈ s.members, (u.participant i).Won ↔ i = w := by
  intro own s t u
  refine ⟨by decide, by decide, ?_⟩
  obtain ⟨w, hw, -, hwon⟩ := elects own (by decide) s (by decide)
    (fun i _ => ⟨⟨rfl, rfl, rfl⟩, .inl rfl, fun _ => rfl⟩) (fun i _ => ⟨rfl, rfl⟩) (by decide)
    (fun _ => false) (fun _ => false)
  exact ⟨w, hw, hwon.imp_right And.right⟩

variable [DecidableEq ι]

/-- Participants ask with their own addresses. -/
def Own (own : ι → UInt8) (_ : Participants ι) : Action ι → Prop
  | .requestBus i address _ => address = own i
  | _ => True

theorem Rested.update (h : s.Rested own) (i : ι) {f : Request → Request}
    (hf : ∀ p : Participant, p.Rested (own i) → Participant.Rested (own i)
      { p with request := f p.request }) : (s.update i f).Rested own := by
  intro j hj
  show (Function.update s.participant i _ j).Rested (own j)
  by_cases heq : j = i
  · subst heq
    rw [Function.update_self]
    exact hf _ (h j hj)
  · rw [Function.update_of_ne heq]
    exact h j hj

theorem Rested.step (hmaster : ∀ i, isMaster (own i) = true) (h : s.Rested own)
    {action : Action ι} (hown : Own own s action) : (s.step action).Rested own := by
  cases action with
  | byte byte fast =>
      intro i hi
      rw [show (s.step (.byte byte fast)).members = s.members from byte_members s byte fast] at hi
      by_cases hbyte : byte = Symbols.syn
      · subst hbyte
        exact (won_syn hmaster h fast hi).1
      · exact (byte_data h hbyte fast hi).1
  | requestBus i address isExternal =>
      obtain rfl : address = own i := hown
      refine h.update i fun p hp => ⟨hp.flags, ?_, ?_⟩
      · show (p.request.requestBus (own i) isExternal).1.state = .observe ∨ _
        unfold Request.requestBus
        split
        · exact hp.state.imp_right fun hs => ⟨hs.1, rfl⟩
        · exact hp.state
      · show (p.request.requestBus (own i) isExternal).1.busRequest = true → _
        unfold Request.requestBus
        split
        · exact fun _ => rfl
        · exact hp.address
  | startBit i =>
      refine h.update i fun p hp => ⟨hp.flags, .inl (by simp [Request.startBit]), ?_⟩
      simp [Request.startBit, Request.transitionTo_observe]
  | reset i =>
      refine h.update i fun p hp => ⟨hp.flags, .inl (by simp [Request.reset]), ?_⟩
      simp [Request.reset, Request.transitionTo_observe]
  | setLockCounter i lockCounter =>
      exact h.update i fun p hp => ⟨hp.flags, hp.state, hp.address⟩

end Participants

end Ebus
