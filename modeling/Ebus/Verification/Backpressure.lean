import Ebus.App.Inbound

/-!
# Pushing under the lock of the client

A push into the full inbound queue waits for a pop, and a pop waits for the lock that the
pusher holds: once a call of `handleIncomingStream` waits, nothing moves any more
(`step_of_stuck`). As no byte can be popped during a call, it gets through exactly when
the bytes of its chunk that go into the queue fit into what is free when it starts.
-/

namespace Ebus

open Client

theorem Client.Intake.finish_inboundBuffer (s : Intake) :
    s.finish.inboundBuffer = s.client.inboundBuffer := by
  have hanswer (c : Client) (response : Enhanced.Response) (value : UInt8) :
      (c.createEnhancedResponse response value).inboundBuffer = c.inboundBuffer :=
    c.enqueueOutgoingData_inboundBuffer _
  have hinfo (c : Client) (values : List UInt8) :
      (values.foldl (fun c value => c.createEnhancedResponse .info value) c).inboundBuffer =
        c.inboundBuffer := by
    induction values generalizing c with
    | nil => rfl
    | cons value values ih => rw [List.foldl_cons, ih, hanswer]
  have hreset : (if s.needResetResponse then s.client.createEnhancedResponse .resetted 0x00
      else s.client).inboundBuffer = s.client.inboundBuffer := by
    split
    · exact hanswer ..
    · rfl
  unfold Intake.finish
  dsimp only
  split
  · rfl
  · split
    · rw [hinfo, hreset]
    · exact hreset

namespace Inbound

/-- A new client. -/
def create (type : ClientType) : Inbound := { client := { type } }

/-- No push of the call in progress waits, however far the call goes on. -/
def NeverWaits (s : Inbound) : Prop :=
  ∀ k, (Runs.run step s (List.replicate k .goOn)).waiting = false

/-- A call with these bytes gets the lock and enters its loop. -/
def enters (s : Inbound) (data : List UInt8) : Bool :=
  s.call.isNone && s.client.connected && s.client.isWriteCapable && !data.isEmpty

/-- What the chunk puts into the queue fits into it when the call starts. -/
def ChunkFits (s : Inbound) : Action → Prop
  | .handleIncomingStream data => s.enters data = true →
      s.client.inboundBuffer.length + s.client.demand data ≤ inboundCapacity
  | _ => True

/-- What holds in every run: the queue keeps to its capacity. -/
structure Bounded (s : Inbound) : Prop where
  queue : s.client.inboundBuffer.length ≤ inboundCapacity
  call : ∀ call ∈ s.call, call.intake.Plausible ∧
    call.intake.client.inboundBuffer.length ≤ inboundCapacity

/-- The call in progress gets through. -/
structure Roomy (s : Inbound) : Prop where
  running : s.waiting = false
  fits : ∀ call ∈ s.call,
    call.intake.client.inboundBuffer.length + call.intake.demand call.rest ≤ inboundCapacity

theorem step_handleIncomingStream (s : Inbound) (data : List UInt8) :
    step s (.handleIncomingStream data) =
      if s.enters data then
        { s with call := some { intake := { client := s.client }, rest := data } }
      else s := by
  have hnot : (s.call.isSome || !s.client.connected || !s.client.isWriteCapable ||
      data.isEmpty) = !s.enters data := by
    unfold enters
    cases s.call <;> cases s.client.connected <;> cases s.client.isWriteCapable <;>
      cases data.isEmpty <;> rfl
  simp only [step, hnot]
  cases s.enters data <;> rfl

theorem popPendingIncomingData_length (c : Client) :
    c.popPendingIncomingData.1.inboundBuffer.length ≤ c.inboundBuffer.length := by
  unfold popPendingIncomingData
  cases hqueue : c.inboundBuffer with
  | nil => cases c.type <;> simp [hqueue]
  | cons byte rest => cases c.type <;> simp [hqueue]

/-- A call ends, waits, or goes on by one round. -/
theorem goOn_cases (s : Inbound) (call : Call) :
    (call.rest = [] ∧ s.goOn call = { client := call.intake.finish }) ∨
    (∃ byte rest, call.rest = byte :: rest ∧ call.intake.pushes byte = true ∧
      inboundCapacity ≤ call.intake.client.inboundBuffer.length ∧
      s.goOn call = { s with waiting := true }) ∨
    (∃ byte rest, call.rest = byte :: rest ∧
      (call.intake.pushes byte = true →
        call.intake.client.inboundBuffer.length < inboundCapacity) ∧
      s.goOn call =
        { s with call := some { intake := call.intake.round byte, rest }, waiting := false }) := by
  unfold goOn
  cases hrest : call.rest with
  | nil => exact .inl ⟨rfl, rfl⟩
  | cons byte rest =>
      dsimp only
      by_cases hfull : call.intake.pushes byte = true ∧
          inboundCapacity ≤ call.intake.client.inboundBuffer.length
      · exact .inr (.inl ⟨byte, rest, rfl, hfull.1, hfull.2, if_pos hfull⟩)
      · refine .inr (.inr ⟨byte, rest, rfl, ?_, if_neg hfull⟩)
        intro hpushes
        exact Nat.not_le.mp fun hle => hfull ⟨hpushes, hle⟩

theorem step_bounded (s : Inbound) (action : Action) (hs : Bounded s) :
    Bounded (step s action) := by
  cases action with
  | handleIncomingStream data =>
      rw [step_handleIncomingStream]
      split
      · refine ⟨hs.queue, ?_⟩
        intro call hcall
        obtain rfl := Option.some.inj hcall
        exact ⟨.inl rfl, hs.queue⟩
      · exact hs
  | goOn =>
      cases hcall : s.call with
      | none => simpa [step, hcall] using hs
      | some call =>
          obtain ⟨hkind, hqueue⟩ := hs.call call hcall
          simp only [step, hcall]
          obtain ⟨-, heq⟩ | ⟨byte, rest, -, -, -, heq⟩ | ⟨byte, rest, -, hroom, heq⟩ :=
            s.goOn_cases call
          · rw [heq]
            refine ⟨?_, by simp⟩
            dsimp only
            rw [call.intake.finish_inboundBuffer]
            exact hqueue
          · rw [heq]
            exact ⟨hs.queue, hs.call⟩
          · rw [heq]
            obtain ⟨hkept, hlength, -⟩ := call.intake.round_spec byte hkind
            refine ⟨hs.queue, ?_⟩
            intro next hnext
            obtain rfl := Option.some.inj hnext
            refine ⟨hkept, ?_⟩
            dsimp only
            rw [hlength]
            split
            · rename_i hpushes
              exact hroom hpushes
            · exact hqueue
  | popPendingIncomingData =>
      simp only [step]
      split
      · exact hs
      · rename_i hidle
        refine ⟨Nat.le_trans (popPendingIncomingData_length s.client) hs.queue, ?_⟩
        intro call hcall
        have hnone : s.call = none := by simpa using hidle
        rw [hnone] at hcall
        cases hcall

theorem step_roomy (s : Inbound) (action : Action) (hs : Bounded s ∧ Roomy s)
    (hok : ChunkFits s action) : Roomy (step s action) := by
  obtain ⟨hbounded, hroomy⟩ := hs
  cases action with
  | handleIncomingStream data =>
      rw [step_handleIncomingStream]
      split
      · rename_i henters
        refine ⟨hroomy.running, ?_⟩
        intro call hcall
        obtain rfl := Option.some.inj hcall
        exact hok henters
      · exact hroomy
  | goOn =>
      cases hcall : s.call with
      | none => simpa [step, hcall] using hroomy
      | some call =>
          have hfits := hroomy.fits call hcall
          have hkind := (hbounded.call call hcall).1
          simp only [step, hcall]
          obtain ⟨-, heq⟩ | ⟨byte, rest, hrest, hpushes, hfull, -⟩ | ⟨byte, rest, hrest, -, heq⟩ :=
            s.goOn_cases call
          · rw [heq]
            exact ⟨rfl, by simp⟩
          · -- the byte that would have to wait is part of the demand
            obtain ⟨-, -, hdemand⟩ := call.intake.round_spec byte hkind
            rw [hrest, hdemand, if_pos hpushes] at hfits
            omega
          · rw [heq]
            obtain ⟨-, hlength, hdemand⟩ := call.intake.round_spec byte hkind
            refine ⟨rfl, ?_⟩
            intro next hnext
            obtain rfl := Option.some.inj hnext
            dsimp only
            rw [hrest, hdemand] at hfits
            rw [hlength]
            omega
  | popPendingIncomingData =>
      simp only [step]
      split
      · exact hroomy
      · exact ⟨hroomy.running, hroomy.fits⟩

theorem step_not_roomy (s : Inbound) (action : Action) (hnot : ¬ ChunkFits s action) :
    ¬ Roomy (step s action) := by
  cases action with
  | handleIncomingStream data =>
      intro hroomy
      refine hnot fun henters => ?_
      rw [step_handleIncomingStream, if_pos henters] at hroomy
      exact hroomy.fits _ rfl
  | goOn => exact absurd trivial hnot
  | popPendingIncomingData => exact absurd trivial hnot

/-- A call that does not get through comes to a push that waits. -/
theorem waits_of_overflow {s : Inbound} {call : Call} (hs : Bounded s)
    (hcall : s.call = some call) (hover : inboundCapacity <
      call.intake.client.inboundBuffer.length + call.intake.demand call.rest) :
    ¬ NeverWaits s := by
  obtain ⟨intake, rest⟩ := call
  induction rest generalizing s intake with
  | nil =>
      have hqueue := (hs.call _ hcall).2
      have hnothing : intake.demand [] = 0 := by
        unfold Intake.demand Client.demand
        cases intake.client.type <;> simp [dataBytes]
      dsimp only at hover hqueue
      omega
  | cons byte rest ih =>
      intro hnever
      have hstep : step s .goOn = s.goOn ⟨intake, byte :: rest⟩ := by simp [step, hcall]
      obtain ⟨hnil, -⟩ | ⟨byte', rest', -, -, -, heq⟩ | ⟨byte', rest', hrest, -, heq⟩ :=
        s.goOn_cases ⟨intake, byte :: rest⟩
      · cases hnil
      · have hwaits := hnever 1
        rw [List.replicate_one, Runs.run_cons, hstep, heq] at hwaits
        cases hwaits
      · obtain ⟨rfl, rfl⟩ := List.cons.inj hrest
        obtain ⟨-, hlength, hdemand⟩ := intake.round_spec byte (hs.call _ hcall).1
        have hnext := step_bounded s .goOn hs
        rw [hstep, heq] at hnext
        refine ih hnext (intake.round byte) rfl ?_ fun k => ?_
        · dsimp only at hover ⊢
          rw [hdemand] at hover
          omega
        · have hlater := hnever (k + 1)
          rwa [List.replicate_succ, Runs.run_cons, hstep, heq] at hlater

theorem roomy_iff_neverWaits {s : Inbound} (hs : Bounded s) : Roomy s ↔ NeverWaits s := by
  constructor
  · intro hroomy k
    have hkept (s : Inbound) (action : Action) (hs : Bounded s ∧ Roomy s)
        (hok : ChunkFits s action) : Bounded (step s action) ∧ Roomy (step s action) :=
      ⟨step_bounded s action hs.1, step_roomy s action hs hok⟩
    have hmeets (k : Nat) (s : Inbound) : Runs.Meets step ChunkFits s (List.replicate k .goOn) := by
      induction k generalizing s with
      | zero => trivial
      | succ k ih => exact ⟨trivial, ih _⟩
    exact (Runs.invariant hkept ⟨hs, hroomy⟩ (hmeets k s)).2.running
  · intro hnever
    refine ⟨hnever 0, fun call hcall => ?_⟩
    exact Nat.not_lt.mp fun hover => waits_of_overflow hs hcall hover hnever

/-- No push of a run waits exactly when each chunk fits into the queue at the start of its
call. -/
theorem run_neverWaits_iff (type : ClientType) (actions : List Action) :
    (∀ n, NeverWaits (Runs.run step (create type) (actions.take n))) ↔
    Runs.Meets step ChunkFits (create type) actions := by
  have hstart : Bounded (create type) ∧ Roomy (create type) :=
    ⟨⟨by simp [create], by simp [create]⟩, ⟨rfl, by simp [create]⟩⟩
  have hbounded (n : Nat) : Bounded (Runs.run step (create type) (actions.take n)) :=
    Runs.invariant_always step_bounded hstart.1 _
  have hkept (s : Inbound) (action : Action) (hs : Bounded s ∧ Roomy s)
      (hok : ChunkFits s action) : Bounded (step s action) ∧ Roomy (step s action) :=
    ⟨step_bounded s action hs.1, step_roomy s action hs hok⟩
  have hbroken (s : Inbound) (action : Action) (_ : Bounded s ∧ Roomy s)
      (hnot : ¬ ChunkFits s action) : ¬ (Bounded (step s action) ∧ Roomy (step s action)) :=
    fun h => step_not_roomy s action hnot h.2
  rw [← Runs.invariant_iff_meets hkept hbroken hstart actions]
  refine forall_congr' fun n => ?_
  rw [← roomy_iff_neverWaits (hbounded n)]
  exact (and_iff_right (hbounded n)).symm

/-- Once a push waits, no thread changes anything. -/
theorem step_of_stuck {s : Inbound} {call : Call} {byte : UInt8} {rest : List UInt8}
    (waiting : s.waiting = true) (hcall : s.call = some call) (hrest : call.rest = byte :: rest)
    (hpushes : call.intake.pushes byte = true)
    (hfull : inboundCapacity ≤ call.intake.client.inboundBuffer.length) (action : Action) :
    step s action = s := by
  cases action with
  | handleIncomingStream data => simp [step, hcall]
  | goOn =>
      obtain ⟨client, call', waits⟩ := s
      obtain rfl : waits = true := waiting
      simp only at hcall
      simp [step, hcall, goOn, hrest, hpushes, hfull]
  | popPendingIncomingData => simp [step, hcall]

/-- A client sends one byte more than its queue holds. -/
def longChunk : List Action :=
  .handleIncomingStream (List.replicate 33 0x31) :: List.replicate 33 .goOn

theorem longChunk_waits :
    (Runs.run step (create .regular) longChunk).waiting = true ∧
    (Runs.run step (create .regular) (longChunk ++ [.popPendingIncomingData])).waiting = true ∧
    ¬ NeverWaits (Runs.run step (create .regular) longChunk) := by
  have hwaits : (Runs.run step (create .regular) longChunk).waiting = true := by decide
  refine ⟨hwaits, by decide +kernel, fun hnever => ?_⟩
  have hnot := hnever 0
  rw [List.replicate_zero, Runs.run_nil, hwaits] at hnot
  cases hnot

end Inbound

end Ebus
