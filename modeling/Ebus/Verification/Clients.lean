import Ebus.App.ClientManager

/-!
# The session of the clients

A session is open exactly as long as it has a sender: that is what a client is judged by
that wants to start one. Two parts of the manager move a session on without a look at the
sender. If the other thread has ended the session meanwhile, the manager is left in a session
that nobody holds and that no timeout ends.
-/

namespace Ebus

/-- The parts that move a session on and rely on an earlier look at the sender. -/
def Section.advances : Section → Bool
  | .bypassWait => true
  | .writeByte byte => byte != Symbols.syn
  | _ => false

namespace ClientManager

/-- The manager is idle if and only if no client is the sender. -/
def Consistent (m : ClientManager) : Prop :=
  m.sessionState = .idle ↔ m.currentActiveSender = none

instance (m : ClientManager) : Decidable m.Consistent := inferInstanceAs (Decidable (_ ↔ _))

section Step

variable {m : ClientManager}

/-- Only the two fields count. -/
theorem Consistent.congr {d : ClientManager} (hi : m.Consistent)
    (hstate : d.sessionState = m.sessionState)
    (hsender : d.currentActiveSender = m.currentActiveSender) : d.Consistent := by
  rw [Consistent, hstate, hsender]
  exact hi

theorem Consistent.endSession : m.endSession.Consistent := by
  simp [Consistent, ClientManager.endSession]

/-- A session that is moved on while it has a sender. -/
theorem Consistent.transit {state : SessionState} (hstate : state ≠ .idle)
    (hsender : m.currentActiveSender ≠ none) : (m.transitSessionState state).Consistent := by
  simp [Consistent, transitSessionState, hstate, hsender]

theorem Consistent.requestBus (hi : m.Consistent) (client : Nat) (byte : UInt8) :
    (m.requestBus client byte).Consistent := by
  unfold ClientManager.requestBus
  split
  · exact hi
  · rename_i hheld
    rw [not_or, not_not, not_not] at hheld
    exact .transit (by simp) (by simp [hheld.2])

theorem Consistent.startSession (hi : m.Consistent) (client : Nat) :
    (m.startSession client).Consistent := by
  unfold ClientManager.startSession
  split
  · exact hi
  · simp [Consistent, updateClient, transitSessionState]

theorem Consistent.onBusRequested (hi : m.Consistent) : m.onBusRequested.Consistent := by
  unfold ClientManager.onBusRequested
  split
  · rename_i hheld
    exact .transit (by simp) (by simpa [Option.isSome_iff_ne_none] using hheld.2)
  · exact hi

theorem Consistent.writeByte {byte : UInt8}
    (hsender : byte ≠ Symbols.syn → m.currentActiveSender ≠ none) :
    (m.writeByte byte).Consistent := by
  unfold ClientManager.writeByte
  dsimp only
  split
  · exact .endSession
  · rename_i hbyte
    exact .transit (by simp) (hsender hbyte)

theorem Consistent.exec (hi : m.Consistent) {next : Section}
    (hheld : next.advances = true → m.currentActiveSender ≠ none) :
    (m.exec next).1.Consistent := by
  cases next with
  | onBusRequested => exact hi.onBusRequested
  | requestBus client byte => exact hi.requestBus client byte
  | startSession client => exact hi.startSession client
  | bypassWait => exact .transit (by simp) (hheld rfl)
  | writeByte byte => exact .writeByte fun hbyte => hheld (by simpa [Section.advances] using hbyte)
  | _ =>
      -- the other parts leave the session alone or end it
      dsimp only [ClientManager.exec]
      repeat' split
      all_goals
        first
        | exact .endSession
        | exact hi.congr rfl rfl

/-- Without a sender the session is moved on to where nobody can end it. -/
theorem not_consistent_exec {next : Section} (hnext : next.advances = true)
    (hsender : m.currentActiveSender = none) : ¬ (m.exec next).1.Consistent := by
  cases next with
  | bypassWait => simp [Consistent, ClientManager.exec, transitSessionState, hsender]
  | writeByte byte =>
      have hbyte : byte ≠ Symbols.syn := by simpa [Section.advances] using hnext
      simp [Consistent, ClientManager.exec, ClientManager.writeByte, transitSessionState, hbyte,
        hsender]
  | _ => cases hnext

end Step

/-- The next section of a thread moves a session on only while there is a sender. -/
def Attended (m : ClientManager) : Action → Prop
  | .bus => ∀ next ∈ m.bus.head?, next.advances = true → m.currentActiveSender ≠ none
  | .io => ∀ next ∈ m.io.head?, next.advances = true → m.currentActiveSender ≠ none
  | _ => True

instance (m : ClientManager) : (action : Action) → Decidable (m.Attended action)
  | .bus => inferInstanceAs (Decidable (∀ next ∈ m.bus.head?, _))
  | .io => inferInstanceAs (Decidable (∀ next ∈ m.io.head?, _))
  | .busEvent _ | .receive _ _ | .idleTick _ | .stopActiveSession | .addClient _ | .disconnect _
  | .requestBus _ | .setLockCounter _ => .isTrue trivial

theorem Consistent.ioTask {m : ClientManager} (hi : m.Consistent) (sections : List Section) :
    (m.ioTask sections).Consistent := by
  unfold ClientManager.ioTask
  split
  · exact hi.congr rfl rfl
  · exact hi

theorem Consistent.step {m : ClientManager} (hi : m.Consistent) {action : Action}
    (hok : m.Attended action) : (ClientManager.step m action).Consistent := by
  cases action with
  | busEvent event =>
      dsimp only [ClientManager.step, ClientManager.busEvent]
      split
      · exact hi.congr rfl rfl
      · exact hi
  | receive client data =>
      dsimp only [ClientManager.step]
      split
      · exact hi.ioTask _
      · exact hi
  | idleTick elapsed => exact hi.ioTask _
  | stopActiveSession => exact hi.ioTask _
  | bus =>
      dsimp only [ClientManager.step, runBus]
      split
      · exact hi
      · rename_i next rest hbus
        exact (hi.exec (hok next (by simp [hbus]))).congr rfl rfl
  | io =>
      dsimp only [ClientManager.step, runIo]
      split
      · exact hi
      · rename_i next rest hio
        exact (hi.exec (hok next (by simp [hio]))).congr rfl rfl
  | addClient type => exact hi.congr rfl rfl
  | disconnect client => exact hi.congr rfl rfl
  | requestBus address => exact hi.congr rfl rfl
  | setLockCounter lockCounter => exact hi.congr rfl rfl

theorem not_consistent_step {m : ClientManager} {action : Action} (hnot : ¬ m.Attended action) :
    ¬ (step m action).Consistent := by
  cases action with
  | bus =>
      simp only [Attended, not_forall, not_not] at hnot
      obtain ⟨next, hnext, hadvances, hsender⟩ := hnot
      obtain ⟨rest, hbus⟩ := List.head?_eq_some_iff.mp hnext
      intro hi
      refine not_consistent_exec hadvances hsender (hi.congr ?_ ?_) <;>
        simp [ClientManager.step, runBus, hbus]
  | io =>
      simp only [Attended, not_forall, not_not] at hnot
      obtain ⟨next, hnext, hadvances, hsender⟩ := hnot
      obtain ⟨rest, hio⟩ := List.head?_eq_some_iff.mp hnext
      intro hi
      refine not_consistent_exec hadvances hsender (hi.congr ?_ ?_) <;>
        simp [ClientManager.step, runIo, hio]
  | _ => exact absurd trivial hnot

/-- Behind a finished session any client can start one. -/
theorem Consistent.startSession_of_none {m : ClientManager} (hi : m.Consistent)
    (hsender : m.currentActiveSender = none) (client : Nat) :
    (m.startSession client).currentActiveSender = some client := by
  have hidle : m.sessionState = .idle := hi.mpr hsender
  simp [ClientManager.startSession, hsender, hidle, updateClient, transitSessionState]

/-- In every interleaving of the two threads the session is consistent all the way if and only
if no session is moved on without a sender. A client can then start a session whenever there
is none. -/
theorem run_consistent_iff_attended (actions : List Action) :
    ((∀ n, (Runs.run step {} (actions.take n)).Consistent) ↔
      Runs.Meets step Attended {} actions) ∧
    (Runs.Meets step Attended {} actions →
      (Runs.run step {} actions).currentActiveSender = none → ∀ client,
        ((Runs.run step {} actions).startSession client).currentActiveSender = some client) := by
  have hiff : (∀ n, (Runs.run step {} (actions.take n)).Consistent) ↔
      Runs.Meets step Attended {} actions :=
    Runs.invariant_iff_meets (fun _ _ hi hok => hi.step hok)
      (fun _ _ _ hnot => not_consistent_step hnot) (by decide) actions
  refine ⟨hiff, fun hok => ?_⟩
  have hend := hiff.mpr hok actions.length
  rw [List.take_length] at hend
  exact hend.startSession_of_none

/-- The threads run until they have nothing to do. -/
def settle (action : Action) : List Action :=
  action :: List.replicate 9 .bus ++ List.replicate 5 .io

/-- A client starts a session, gets the bus, and its address is read back. The byte is looked
at, and then the client is gone before the session is moved on. -/
def goneInBetween : List Action :=
  settle (.addClient .regular) ++ settle (.receive 0 [0x31, 0x08]) ++
    settle (.busEvent { byte := 0xaa }) ++ settle (.busEvent { byte := 0xaa }) ++
    settle (.busEvent { byte := 0xaa }) ++
    settle (.busEvent { byte := 0xaa, busRequest := true }) ++
    [.busEvent { byte := 0x31 }, .bus, .bus, .bus, .bus] ++
    [.disconnect 0, .idleTick false, .io, .io, .io, .io] ++
    [.bus]

theorem not_consistent_goneInBetween :
    ¬ ∀ actions : List Action, (Runs.run step {} actions).Consistent := by
  intro hall
  exact absurd (hall goneInBetween) (by decide +kernel)

end ClientManager

end Ebus
