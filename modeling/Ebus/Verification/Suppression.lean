import Ebus.Verification.Orphans

/-!
# The arbitration of the external user

The byte reader hands a SYN over with the flag of an own request; for the external user it
keeps the SYN to itself and raises the flag with the next event. This module compares the two
arbitrations over the same bytes on the wire. The second round begins with a SYN that the
machine must see, so that it is where they differ.
-/

namespace Ebus

/-- The byte reader in front of the arbitration machine. -/
structure ReaderThread where
  request : Request := {}
  /-- an address is written and has not been reported yet -/
  busRequestFlag : Bool := false
  deriving DecidableEq, Repr

namespace ReaderThread

/-- One byte from the wire, and the result of its event if it has one. -/
def read (s : ReaderThread) (byte : UInt8) : ReaderThread × Option RequestResult :=
  let pending := byte == Symbols.syn && s.request.busRequest
  if pending && s.request.externalBusRequest then ({ s with busRequestFlag := true }, none)
  else
    let request := (s.request.afterFlag (s.busRequestFlag || pending)).run byte
    ({ request }, some request.result)

/-- The result that ends the arbitration under way. -/
def outcome (s : ReaderThread) : List UInt8 → Option RequestResult
  | [] => none
  | byte :: rest =>
      match s.read byte with
      | (s, some result) => if Request.ends result then some result else s.outcome rest
      | (s, none) => s.outcome rest

def wins (s : ReaderThread) (bytes : List UInt8) : Bool :=
  s.outcome bytes = some .firstWon || s.outcome bytes = some .secondWon

/-- A user asks for the bus. -/
def requestBus (s : ReaderThread) (address : UInt8) (isExternal : Bool) : ReaderThread :=
  { s with request := (s.request.requestBus address isExternal).1 }

inductive Input where
  | byte (byte : UInt8)
  | requestBus (address : UInt8) (isExternal : Bool)
  | setLockCounter (lockCounter : UInt8)
  deriving DecidableEq, Repr

def step (s : ReaderThread) : Input → ReaderThread
  | .byte byte => (s.read byte).1
  | .requestBus address isExternal => s.requestBus address isExternal
  | .setLockCounter lockCounter => { s with request := s.request.setLockCounter lockCounter }

/-- The byte that decides the first round: the first one behind a SYN. -/
def contested (bytes : List UInt8) : List UInt8 :=
  (bytes.dropWhile (· != Symbols.syn)).dropWhile (· == Symbols.syn)

/-- The bytes of a second round that is won: behind the SYN another master of the class has
written its address, the next SYN follows and then the own address. -/
def secondRound (address : UInt8) (bytes : List UInt8) : Bool :=
  match contested bytes with
  | other :: rest =>
      ({ requestAddress := address } : Request).collides other &&
        rest.take 2 == [Symbols.syn, address]
  | [] => false

/-- Where the arbitration for an address stands. -/
structure At (address : UInt8) (isExternal : Bool) (state : RequestState) (pending flag : Bool)
    (s : ReaderThread) : Prop where
  address : s.request.requestAddress = address
  isExternal : s.request.externalBusRequest = isExternal
  state : s.request.state = state
  pending : s.request.busRequest = pending
  flag : s.busRequestFlag = flag

section Rounds

variable {address : UInt8} {isExternal flag : Bool} {s : ReaderThread} {byte : UInt8}
  {bytes : List UInt8}

/-- The answer of the first round to a byte other than SYN. -/
theorem first_answer {r : Request} (hs : r.state = .first) (hbyte : byte ≠ Symbols.syn) :
    byte = r.requestAddress ∧ (r.run byte).result = .firstWon ∨
    r.collides byte = true ∧ (r.run byte).result = .firstRetry ∧
      (r.run byte).state = .retry ∧ (r.run byte).busRequest = true ∨
    byte ≠ r.requestAddress ∧ r.collides byte = false ∧
      ((r.run byte).result = .firstLost ∨ (r.run byte).result = .firstError) := by
  rw [Request.run, hs]
  simp only [Request.first, Request.collides, if_neg hbyte]
  split_ifs with hown hmaster hclass
  · exact .inl ⟨hown, rfl⟩
  · rw [Request.transitionTo_of_permitted (by rw [hs]; decide)]
    exact .inr (.inl ⟨by simp [hbyte, hown, hmaster, hclass], rfl, rfl, rfl⟩)
  · exact .inr (.inr ⟨hown, by simp [hclass], .inl rfl⟩)
  · exact .inr (.inr ⟨hown, by simp [hmaster], .inr rfl⟩)

theorem wins_nil (s : ReaderThread) : s.wins [] = false := rfl

theorem outcome_cons (s : ReaderThread) (byte : UInt8) (bytes : List UInt8) :
    s.outcome (byte :: bytes) = match s.read byte with
      | (s, some result) => if Request.ends result then some result else s.outcome bytes
      | (s, none) => s.outcome bytes := rfl

/-- A byte whose event is kept back. -/
theorem wins_of_suppressed {t : ReaderThread} (hread : s.read byte = (t, none)) :
    s.wins (byte :: bytes) = t.wins bytes := by
  simp [wins, outcome_cons, hread]

/-- A byte that the arbitration goes on behind. -/
theorem wins_of_open {t : ReaderThread} {result : RequestResult}
    (hread : s.read byte = (t, some result)) (hopen : Request.ends result = false) :
    s.wins (byte :: bytes) = t.wins bytes := by
  simp [wins, outcome_cons, hread, hopen]

/-- A byte that ends the arbitration. -/
theorem wins_of_ends {t : ReaderThread} {result : RequestResult}
    (hread : s.read byte = (t, some result)) (hends : Request.ends result = true) :
    s.wins (byte :: bytes) = (result = .firstWon || result = .secondWon) := by
  simp [wins, outcome_cons, hread, hends]

theorem read_of_suppressed (hs : s.request.busRequest = true)
    (hexternal : s.request.externalBusRequest = true) :
    s.read Symbols.syn = ({ s with busRequestFlag := true }, none) := by
  simp [read, hs, hexternal]

/-- The event of a byte: the flag comes first. -/
theorem read_of_delivered
    (hdelivered : byte ≠ Symbols.syn ∨ s.request.busRequest = false ∨
      s.request.externalBusRequest = false) :
    s.read byte =
      ({ request := (s.request.afterFlag (s.busRequestFlag ||
          byte == Symbols.syn && s.request.busRequest)).run byte },
        some ((s.request.afterFlag (s.busRequestFlag ||
          byte == Symbols.syn && s.request.busRequest)).run byte).result) := by
  unfold read
  rw [if_neg]
  obtain h | h | h := hdelivered <;> simp [h]

theorem At.flagged {state : RequestState} {pending : Bool}
    (h : At address isExternal state pending flag s) :
    At address isExternal state pending true { s with busRequestFlag := true } :=
  ⟨h.address, h.isExternal, h.state, h.pending, rfl⟩

/-- In the second round only the own address wins. -/
theorem wins_second (h : At address false .second false false s) :
    s.wins bytes = true ↔ bytes.head? = some address := by
  cases bytes with
  | nil => simp [wins_nil]
  | cons echo rest =>
      have hread := @read_of_delivered s echo (.inr (.inl h.pending))
      rw [h.pending, h.flag, Bool.and_false, Bool.or_false] at hread
      have hrun : (s.request.run echo).result = .secondWon ∧ echo = address ∨
          ((s.request.run echo).result = .secondLost ∨
            (s.request.run echo).result = .secondError) ∧ echo ≠ address := by
        rw [Request.run, h.state]
        simp only [Request.second, h.address]
        split_ifs with hown hmaster
        · exact .inl ⟨rfl, hown⟩
        · exact .inr ⟨.inl rfl, hown⟩
        · exact .inr ⟨.inr rfl, hown⟩
      rw [List.head?_cons, Option.some.injEq]
      change s.read echo = (_, some (s.request.run echo).result) at hread
      obtain ⟨hresult, hecho⟩ | ⟨hresult | hresult, hecho⟩ := hrun
      · rw [hresult] at hread
        rw [wins_of_ends hread rfl]
        simp [hecho]
      · rw [hresult] at hread
        rw [wins_of_ends hread rfl]
        simp [hecho]
      · rw [hresult] at hread
        rw [wins_of_ends hread rfl]
        simp [hecho]

/-- The own request behind a collision: the SYN opens the second round. -/
theorem wins_retry_own (h : At address false .retry true false s) :
    s.wins bytes = (bytes.take 2 == [Symbols.syn, address]) := by
  cases bytes with
  | nil => simp [wins_nil]
  | cons byte rest =>
      have hread := @read_of_delivered s byte (.inr (.inr h.isExternal))
      rw [h.pending, h.flag, Bool.and_true, Bool.false_or] at hread
      by_cases hsyn : byte = Symbols.syn
      · subst hsyn
        rw [beq_self_eq_true] at hread
        have hrun : (s.request.afterFlag true).run Symbols.syn =
            { s.request with busRequest := false, state := .second, result := .retrySyn
                             bytesSinceSyn := 0 } := by
          simp [Request.afterFlag, Request.busRequestCompleted_eq, h.state, Request.run,
            Request.retry, Request.transitionTo, Request.transitionMasks]
        have hnext : At address false .second false false
            { request := (s.request.afterFlag true).run Symbols.syn } := by
          rw [hrun]
          exact ⟨h.address, h.isExternal, rfl, rfl, rfl⟩
        have hopen : ((s.request.afterFlag true).run Symbols.syn).result = .retrySyn := by
          rw [hrun]
        rw [hopen] at hread
        rw [wins_of_open hread rfl, Bool.eq_iff_iff, wins_second hnext]
        cases rest <;> simp
      · have hfalse : (byte == Symbols.syn) = false := by simpa using hsyn
        rw [hfalse] at hread
        have hresult : (s.request.run byte).result = .retryError := by
          simp [Request.run, h.state, Request.retry, hsyn]
        change s.read byte = (_, some (s.request.run byte).result) at hread
        rw [hresult] at hread
        rw [wins_of_ends hread rfl]
        simp [hsyn]

/-- The external request behind a collision: the machine does not see the SYN. -/
theorem not_wins_retry_external (h : At address true .retry true flag s) :
    s.wins bytes = false := by
  induction bytes generalizing s flag with
  | nil => simp [wins_nil]
  | cons byte rest ih =>
      by_cases hsyn : byte = Symbols.syn
      · subst hsyn
        rw [wins_of_suppressed (read_of_suppressed h.pending h.isExternal)]
        exact ih h.flagged
      · have hread := @read_of_delivered s byte (.inl hsyn)
        have hresult (r : Request) (hs : r.state = .retry) : (r.run byte).result = .retryError := by
          simp [Request.run, hs, Request.retry, hsyn]
        rw [hresult] at hread
        · simp [wins_of_ends hread rfl]
        · rw [Request.afterFlag]
          split
          · simp [Request.busRequestCompleted_eq, h.state]
          · exact h.state

/-- Whether the first round, or a second round that the machine sees, is won. -/
def decided (address : UInt8) (isExternal : Bool) : List UInt8 → Bool
  | [] => false
  | byte :: rest =>
      byte == address || !isExternal && ({ requestAddress := address } : Request).collides byte &&
        rest.take 2 == [Symbols.syn, address]

/-- The byte that decides the first round, for both users. The machine has been told of the
written address before. -/
theorem wins_decided {r : Request} (hread : s.read byte = ({ request := r.run byte },
      some (r.run byte).result)) (hs : r.state = .first) (hbyte : byte ≠ Symbols.syn)
    (haddress : r.requestAddress = address) (hexternal : r.externalBusRequest = isExternal) :
    s.wins (byte :: bytes) = decided address isExternal (byte :: bytes) := by
  obtain ⟨-, haddress', hexternal'⟩ := r.run_move byte
  have hclass : r.collides byte = ({ requestAddress := address } : Request).collides byte := by
    simp [Request.collides, haddress]
  obtain ⟨hown, hresult⟩ | ⟨hcollides, hresult, hstate, hpending⟩ | ⟨hother, hcollides, hresult⟩ :=
    first_answer hs hbyte
  · rw [hresult] at hread
    rw [wins_of_ends hread rfl, decided, hown, haddress]
    simp
  · have hother : byte ≠ address := by
      rintro rfl
      simp [Request.collides, haddress] at hcollides
    have hretry : At address isExternal .retry true false { request := r.run byte } :=
      ⟨haddress'.trans haddress, hexternal'.trans hexternal, hstate, hpending, rfl⟩
    rw [hresult] at hread
    rw [wins_of_open hread rfl, decided, ← hclass, hcollides]
    cases isExternal with
    | false =>
        rw [wins_retry_own hretry]
        simp [hother]
    | true =>
        rw [not_wins_retry_external hretry]
        simp [hother]
  · rw [haddress] at hother
    rw [decided, ← hclass, hcollides]
    obtain hresult | hresult := hresult <;> rw [hresult] at hread <;>
      rw [wins_of_ends hread rfl] <;> simp [hother]

/-- The first round of the own request: a SYN leaves it open. -/
theorem wins_first (h : At address false .first false false s) :
    s.wins bytes = decided address false (bytes.dropWhile (· == Symbols.syn)) := by
  induction bytes generalizing s with
  | nil => exact wins_nil s
  | cons byte rest ih =>
      have hread := @read_of_delivered s byte (.inr (.inl h.pending))
      rw [h.pending, h.flag, Bool.and_false, Bool.or_false] at hread
      change s.read byte = ({ request := s.request.run byte }, some (s.request.run byte).result)
        at hread
      by_cases hsyn : byte = Symbols.syn
      · subst hsyn
        have hrun : s.request.run Symbols.syn =
            { s.request with result := .firstSyn, bytesSinceSyn := 0 } := by
          simp [Request.run, Request.first, h.state, Request.transitionTo]
        have hnext : At address false .first false false
            { request := s.request.run Symbols.syn } := by
          rw [hrun]
          exact ⟨h.address, h.isExternal, h.state, h.pending, rfl⟩
        have hopen : (s.request.run Symbols.syn).result = .firstSyn := by rw [hrun]
        rw [hopen] at hread
        rw [wins_of_open hread rfl, ih hnext, List.dropWhile_cons, if_pos (by decide)]
      · rw [List.dropWhile_cons, if_neg (by simpa using hsyn)]
        exact wins_decided hread h.state hsyn h.address h.isExternal

/-- The first round of the external request begins with the byte behind the SYN. -/
theorem wins_suppressed (h : At address true .observe true true s) :
    s.wins bytes = decided address true (bytes.dropWhile (· == Symbols.syn)) := by
  induction bytes generalizing s with
  | nil => exact wins_nil s
  | cons byte rest ih =>
      by_cases hsyn : byte = Symbols.syn
      · subst hsyn
        rw [wins_of_suppressed (read_of_suppressed h.pending h.isExternal),
          ih h.flagged, List.dropWhile_cons, if_pos (by decide)]
      · have hread := @read_of_delivered s byte (.inl hsyn)
        rw [h.flag, Bool.true_or] at hread
        rw [List.dropWhile_cons, if_neg (by simpa using hsyn)]
        refine wins_decided hread ?_ hsyn ?_ ?_
        · simp [Request.afterFlag, Request.busRequestCompleted_eq, h.state]
        · exact (Request.afterFlag_address _ _).1.trans h.address
        · exact (Request.afterFlag_address _ _).2.trans h.isExternal

/-- A request waits for the first SYN. -/
theorem wins_pending (h : At address isExternal .observe true false s) :
    s.wins bytes = decided address isExternal (contested bytes) := by
  induction bytes generalizing s with
  | nil => exact wins_nil s
  | cons byte rest ih =>
      by_cases hsyn : byte = Symbols.syn
      · subst hsyn
        have hcontested : contested (Symbols.syn :: rest) =
            rest.dropWhile (· == Symbols.syn) := by
          simp [contested]
        rw [hcontested]
        cases isExternal with
        | true =>
            rw [wins_of_suppressed (read_of_suppressed h.pending h.isExternal),
              wins_suppressed h.flagged]
        | false =>
            have hread := @read_of_delivered s Symbols.syn (.inr (.inr h.isExternal))
            rw [h.pending, h.flag] at hread
            change s.read Symbols.syn = ({ request := (s.request.afterFlag true).run Symbols.syn },
              some ((s.request.afterFlag true).run Symbols.syn).result) at hread
            have hrun : (s.request.afterFlag true).run Symbols.syn =
                { s.request with busRequest := false, state := .first, result := .firstSyn
                                 bytesSinceSyn := 0 } := by
              simp [Request.afterFlag, Request.busRequestCompleted_eq, h.state, Request.run,
                Request.first, Request.transitionTo]
            have hnext : At address false .first false false
                { request := (s.request.afterFlag true).run Symbols.syn } := by
              rw [hrun]
              exact ⟨h.address, h.isExternal, rfl, rfl, rfl⟩
            have hopen : ((s.request.afterFlag true).run Symbols.syn).result = .firstSyn := by
              rw [hrun]
            rw [hopen] at hread
            rw [wins_of_open hread rfl, wins_first hnext]
      · have hread := @read_of_delivered s byte (.inl hsyn)
        rw [h.flag, beq_eq_false_iff_ne.mpr hsyn] at hread
        change s.read byte = ({ request := s.request.run byte },
          some (s.request.run byte).result) at hread
        have hrun : s.request.run byte = { s.request with
            result := .observeData, bytesSinceSyn := s.request.bytesSinceSyn + 1 } := by
          simp [Request.run, Request.observe, h.state, hsyn]
        have hnext : At address isExternal .observe true false
            { request := s.request.run byte } := by
          rw [hrun]
          exact ⟨h.address, h.isExternal, h.state, h.pending, rfl⟩
        have hopen : (s.request.run byte).result = .observeData := by rw [hrun]
        rw [hopen] at hread
        rw [wins_of_open hread rfl, ih hnext]
        simp [contested, hsyn]

end Rounds

/-- Between bytes: an address is only reported for a request that waits, and the machine is
not available in the middle of an arbitration. -/
structure Consistent (s : ReaderThread) : Prop where
  flag : s.busRequestFlag = true → s.request.busRequest = true
  result : s.request.state ≠ .observe → s.request.result ≠ .observeSyn

theorem Consistent.read {s : ReaderThread} (hi : s.Consistent) (byte : UInt8) :
    (s.read byte).1.Consistent := by
  unfold ReaderThread.read
  dsimp only
  split
  · rename_i hsuppressed
    simp only [Bool.and_eq_true] at hsuppressed
    exact ⟨fun _ => hsuppressed.1.2, hi.result⟩
  · exact ⟨by simp, Request.run_result_ne _ _⟩

theorem Consistent.step {s : ReaderThread} (hi : s.Consistent) (input : Input) :
    (ReaderThread.step s input).Consistent := by
  cases input with
  | byte byte => exact hi.read byte
  | requestBus address isExternal =>
      obtain ⟨hstate, hresult⟩ := s.request.requestBus_keeps address isExternal
      refine ⟨fun hflag => ?_, ?_⟩
      · simp only [ReaderThread.step, ReaderThread.requestBus, Request.requestBus]
        split
        · rfl
        · exact hi.flag hflag
      · simp only [ReaderThread.step, ReaderThread.requestBus, hstate, hresult]
        exact hi.result
  | setLockCounter lockCounter => exact ⟨hi.flag, hi.result⟩

/-- An accepted request waits for the next SYN. -/
theorem Consistent.accepted {s : ReaderThread} (hi : s.Consistent)
    (havailable : s.request.busAvailable = true) (address : UInt8) (isExternal : Bool) :
    At address isExternal .observe true false (s.requestBus address isExternal) := by
  have hfacts : (s.request.result = .observeSyn ∧ s.request.lockCounter = 0) ∧
      s.request.busRequest = false := by
    simpa [Request.busAvailable] using havailable
  have hobserve : s.request.state = .observe := by
    by_contra hs
    exact hi.result hs hfacts.1.1
  have hflag : s.busRequestFlag = false := by
    by_contra hflag
    simp [hi.flag (by simpa using hflag)] at hfacts
  constructor <;> simp [ReaderThread.requestBus, Request.requestBus, havailable, hobserve, hflag]

/-- The same bytes decide the arbitration of both users in the same way, unless they bring
the second round and its win. -/
theorem external_wins_iff_own (inputs : List Input) (address : UInt8) (bytes : List UInt8) :
    let s := Runs.run step {} inputs
    s.request.busAvailable = true →
      (((s.requestBus address true).wins bytes = true ↔
        (s.requestBus address false).wins bytes = true) ↔ secondRound address bytes = false) := by
  intro s havailable
  have hi : s.Consistent := Runs.invariant_always (fun _ input hi => hi.step input)
    ⟨by simp, by simp⟩ inputs
  rw [wins_pending (hi.accepted havailable address true),
    wins_pending (hi.accepted havailable address false), secondRound]
  cases contested bytes with
  | nil => simp [decided]
  | cons byte rest =>
      by_cases hown : byte = address
      · -- the own address is no collision with itself
        simp [decided, hown, Request.collides]
      · simp [decided, hown]

/-- Behind three SYNs the bus is available; the first round is lost to a master of another
class. -/
theorem external_wins_iff_own_lost :
    ((Runs.run step {} [.byte 0xaa, .byte 0xaa, .byte 0xaa]).request.busAvailable = true) ∧
    ((((Runs.run step {} [.byte 0xaa, .byte 0xaa, .byte 0xaa]).requestBus 0xff true).wins
        [0xaa, 0x10] = true ↔
      ((Runs.run step {} [.byte 0xaa, .byte 0xaa, .byte 0xaa]).requestBus 0xff false).wins
        [0xaa, 0x10] = true) ↔ secondRound 0xff [0xaa, 0x10] = false) :=
  ⟨by decide, external_wins_iff_own [.byte 0xaa, .byte 0xaa, .byte 0xaa] 0xff
    [0xaa, 0x10] (by decide)⟩

/-- In the second round the engine wins the bus and the external user does not. -/
theorem external_loses_second_round :
    ¬ ∀ (inputs : List Input) (address : UInt8) (bytes : List UInt8), isMaster address = true →
      (Runs.run step {} inputs).request.busAvailable = true →
      (((Runs.run step {} inputs).requestBus address true).wins bytes = true ↔
        ((Runs.run step {} inputs).requestBus address false).wins bytes = true) := by
  intro hall
  have hsame := hall [.byte 0xaa, .byte 0xaa, .byte 0xaa] 0xff [0xaa, 0x3f, 0xaa, 0xff]
    (by decide) (by decide)
  exact absurd (hsame.mpr (by decide)) (by decide)

end ReaderThread

end Ebus
