import Ebus.Lib.Run
import Ebus.Platform.LineReader

/-!
# The events of the reader thread

Where the bookkeeping of the line says that a flag is due, the thread has it or its task is under
way, and it has none otherwise. Since the task is done when the next byte has come, the events are
those of `Line.Produced`: a flag that is due comes with the next one.
-/

namespace Ebus

namespace LineReader

/-- The thread's flag and the bookkeeping of the line. -/
structure Agrees (t : LineReader) : Prop where
  due : t.line.flag = .due → t.busRequestFlag = true ∨ t.armed = true
  known : t.busRequestFlag = true ∨ t.armed = true → t.line.flag ≠ .none

variable {t : LineReader} {action : Action}

theorem agrees_create (address : UInt8) : (create address).Agrees where
  due := fun h => by cases h
  known := fun h => by obtain h | h := h <;> cases h

/-- A byte, and the event that is made of it. -/
theorem Agrees.byte (hi : t.Agrees) (htimely : t.armed = false) (byte : UInt8)
    (response : Sequence) (fast : Bool) :
    Runs.Meets Line.step Line.Produced t.line (t.handed (.byte byte response fast)) ∧
      (t.step (.byte byte response fast)).Agrees := by
  have hdue : t.line.flag = .due → t.busRequestFlag = true := fun h =>
    (hi.due h).resolve_right (by simp [htimely])
  cases hsuppresses : t.suppresses byte with
  | true =>
      obtain ⟨hpending, hexternal⟩ := Bool.and_eq_true_iff.mp hsuppresses
      have hrequest := (Bool.and_eq_true_iff.mp hpending).2
      have hflags : t.flagNow byte fast = true ∨ (t.armed || !fast) = true := by
        cases fast <;> simp [flagNow, hpending]
      refine ⟨?_, ?_⟩
      · rw [handed, if_pos hsuppresses]
        exact ⟨⟨hrequest, hexternal⟩, trivial⟩
      · rw [step, handed, if_pos hsuppresses]
        refine ⟨fun _ => ?_, fun _ => by simp [Line.step]⟩
        simpa [hsuppresses, hpending] using hflags
  | false =>
      have hhanded : t.handed (.byte byte response fast) =
          [.busEvent { byte, busRequest := t.flagNow byte fast } response] :=
        if_neg (by simp [hsuppresses])
      refine ⟨?_, ?_⟩
      · rw [hhanded]
        refine ⟨⟨rfl, fun h => by simp [flagNow, hdue h], fun h => ?_⟩, trivial⟩
        obtain hflag | hpending := Bool.or_eq_true_iff.mp h
        · exact .inl (hi.known (.inl hflag))
        · exact .inr (Bool.and_eq_true_iff.mp hpending).1
      · have hflag : (Line.step t.line (.busEvent { byte, busRequest := t.flagNow byte fast }
            response)).flag = if t.line.pendingSyn byte then
              (if t.flagNow byte fast then .delivered else .due) else .none := rfl
        rw [step, hhanded, Runs.run_cons, Runs.run_nil]
        cases hpending : t.line.pendingSyn byte with
        | false =>
            constructor
            · dsimp only
              rw [hflag, hpending]
              simp
            · simp [hsuppresses, htimely]
        | true =>
            constructor
            · dsimp only
              rw [hflag, hpending]
              cases fast <;> simp [flagNow, hpending]
            · intro _
              rw [hflag, hpending]
              cases t.flagNow byte fast <;> simp

theorem Agrees.step (hi : t.Agrees) (htimely : t.Timely action) :
    Runs.Meets Line.step Line.Produced t.line (t.handed action) ∧ (t.step action).Agrees := by
  cases action with
  | byte byte response fast => exact hi.byte htimely byte response fast
  | requestTimer =>
      refine ⟨trivial, ?_⟩
      rw [LineReader.step]
      split
      · rename_i harmed
        exact ⟨fun _ => .inl rfl, fun _ => hi.known (.inr harmed)⟩
      · exact hi
  | sendActiveMessage message => exact ⟨⟨trivial, trivial⟩, hi.due, hi.known⟩
  | requestExternal address => exact ⟨⟨trivial, trivial⟩, hi.due, hi.known⟩
  | resetRequest => exact ⟨⟨trivial, trivial⟩, hi.due, hi.known⟩
  | setLockCounter lockCounter => exact ⟨⟨trivial, trivial⟩, hi.due, hi.known⟩

/-- The line of a step is the line that has taken what was handed over. -/
theorem step_line (t : LineReader) (action : Action) :
    (t.step action).line = Runs.run Line.step t.line (t.handed action) := by
  cases action with
  | requestTimer =>
      rw [step]
      split <;> rfl
  | _ => rfl

/-- By induction on the actions. -/
theorem run_agrees {actions : List Action} (hi : t.Agrees)
    (htimely : Runs.Meets step Timely t actions) :
    Runs.Meets Line.step Line.Produced t.line (t.handedRun actions) ∧
      (Runs.run step t actions).line = Runs.run Line.step t.line (t.handedRun actions) := by
  induction actions generalizing t with
  | nil => exact ⟨trivial, rfl⟩
  | cons action rest ih =>
      obtain ⟨hfirst, hrest⟩ := htimely
      obtain ⟨hproduced, hagrees⟩ := hi.step hfirst
      obtain ⟨hmeets, hline⟩ := ih hagrees hrest
      rw [step_line] at hmeets hline
      rw [handedRun, Runs.run_append, Runs.run_cons]
      exact ⟨Runs.meets_append hproduced hmeets, hline⟩

/-- In every run whose tasks are in time, the line takes events that the readers are assumed to
produce, and nothing else. -/
theorem run_produces (address : UInt8) (actions : List Action)
    (htimely : Runs.Meets step Timely (create address) actions) :
    Runs.Meets Line.step Line.Produced (Line.create address)
        ((create address).handedRun actions) ∧
      (Runs.run step (create address) actions).line =
        Runs.run Line.step (Line.create address) ((create address).handedRun actions) := by
  exact run_agrees (agrees_create address) htimely

/-- A client asks for the bus behind some SYN symbols, and later the engine does. -/
def twoRequests : List Action :=
  let silence := List.replicate 4 (.byte 0xaa {} false)
  silence ++ [.requestExternal 0x37, .byte 0xaa {} false, .requestTimer, .byte 0x37 {} false] ++
    silence ++ [.sendActiveMessage [0x08, 0x07, 0x04, 0x00], .byte 0xaa {} false, .byte 0xaa {} true,
      .byte 0xff {} false]

/-- The SYN of the client is suppressed; the engine's flag comes with the SYN itself. -/
theorem run_produces_twoRequests :
    let lineActions := (create 0xff).handedRun twoRequests
    Runs.Meets Line.step Line.Produced (Line.create 0xff) lineActions ∧
      (Runs.run step (create 0xff) twoRequests).line =
        Runs.run Line.step (Line.create 0xff) lineActions ∧
      lineActions.drop 5 = [.suppressedSyn, .busEvent { byte := 0x37, busRequest := true } {}] ++
        Line.feed [0xaa, 0xaa, 0xaa, 0xaa] ++
        [.sendActiveMessage [0x08, 0x07, 0x04, 0x00], .busEvent { byte := 0xaa } {},
          .busEvent { byte := 0xaa, busRequest := true } {}, .busEvent { byte := 0xff } {}] := by
  obtain ⟨hproduced, hline⟩ := run_produces 0xff twoRequests (by decide)
  exact ⟨hproduced, hline, by decide⟩

end LineReader

end Ebus
