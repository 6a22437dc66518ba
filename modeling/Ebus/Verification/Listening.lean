import Ebus.Verification.Arbitration

/-!
# Losing the bus and listening to it

Behind a lost arbitration the engine goes on as if it had only listened: the byte that it
has read is the first one of the winner's master part. The bytes of an arbitration do not go
through the state that observes the bus, so that this is not quite what a listener does with
them. This module runs a second engine beside the first that is given the same bytes and
nothing else. It compares the two (`Agree`) through all states that are not engaged with an
own message, and says which arbitrations keep them in step. While the engine exchanges a
message of its own it does not observe the bus, and the listener does.
-/

namespace Ebus

/-- The content of a reported telegram. -/
def Effect.telegram : Effect → Option (MessageType × TelegramType × List UInt8 × List UInt8)
  | .protocol info =>
      if info.isError then none
      else some (info.messageType, info.telegramType, info.masterView, info.slaveView)
  | _ => none

/-- What the engine has of the traffic that it observes. -/
structure Observed where
  state : HandlerState
  passiveTelegram : Telegram
  passiveMaster : Sequence
  passiveMasterDbx : Nat
  passiveMasterRepeated : Bool
  passiveSlave : Sequence
  passiveSlaveDbx : Nat
  passiveSlaveIndex : Nat
  passiveSlaveRepeated : Bool
  deriving DecidableEq, Repr

/-- A collision and a lost arbitration are told from an error by the address of a master. -/
theorem Request.isMaster_of_run {r : Request} {byte : UInt8}
    (hresult : (r.run byte).result = .firstRetry ∨ (r.run byte).result = .firstLost ∨
      (r.run byte).result = .secondLost) : isMaster byte = true := by
  by_contra hmaster
  revert hresult
  unfold run observe first retry second
  cases r.state <;> dsimp only <;> repeat' split
  all_goals simp_all

/-- The flag of an event starts an arbitration and leaves one that is under way alone. -/
theorem Request.afterFlag_state {r : Request} (hs : r.state ≠ .observe) (flagged : Bool) :
    (r.afterFlag flagged).state = r.state := by
  unfold afterFlag
  split
  · rw [busRequestCompleted_eq]
    exact if_neg hs
  · rfl

theorem Request.afterFlag_ne_observe (r : Request) : (r.afterFlag true).state ≠ .observe := by
  rw [afterFlag, if_pos rfl, busRequestCompleted_eq]
  dsimp only
  split <;> simp_all

/-- The results that end an arbitration without the bus. -/
def RequestResult.unwon : RequestResult → Bool
  | .firstLost | .firstError | .retryError | .secondLost | .secondError => true
  | _ => false

namespace Handler

theorem Branch.target {h d : Handler} {byte : UInt8} {response : Sequence}
    (hb : Branch h byte response d) : d.targetAddress = h.targetAddress := by
  cases hb
  case syn hs _ =>
    apply receiveSyn_rule (P := fun a => a.targetAddress = h.targetAddress) rfl
    · exact fun _ _ => rfl
    · exact fun _ ha _ _ => ha
    · exact fun _ ha _ => ha
  case refused ht => obtain ⟨-, rfl⟩ | ⟨-, rfl⟩ := ht <;> subst_vars <;> simp
  all_goals
    subst_vars
    simp [answered]

def observed (h : Handler) : Observed :=
  { state := h.state, passiveTelegram := h.passiveTelegram, passiveMaster := h.passiveMaster
    passiveMasterDbx := h.passiveMasterDbx, passiveMasterRepeated := h.passiveMasterRepeated
    passiveSlave := h.passiveSlave, passiveSlaveDbx := h.passiveSlaveDbx
    passiveSlaveIndex := h.passiveSlaveIndex, passiveSlaveRepeated := h.passiveSlaveRepeated }

/-- The telegrams that are reported in the log. -/
def reported (h : Handler) : List (MessageType × TelegramType × List UInt8 × List UInt8) :=
  h.log.filterMap Effect.telegram

/-- Two engines that have observed the same and have reported the same. -/
structure Agree (h g : Handler) : Prop where
  source : h.sourceAddress = g.sourceAddress
  target : h.targetAddress = g.targetAddress
  state : h.state = g.state
  telegram : h.passiveTelegram = g.passiveTelegram
  master : h.passiveMaster = g.passiveMaster
  masterDbx : h.passiveMasterDbx = g.passiveMasterDbx
  masterRepeated : h.passiveMasterRepeated = g.passiveMasterRepeated
  slave : h.passiveSlave = g.passiveSlave
  slaveDbx : h.passiveSlaveDbx = g.passiveSlaveDbx
  slaveIndex : h.passiveSlaveIndex = g.passiveSlaveIndex
  slaveRepeated : h.passiveSlaveRepeated = g.passiveSlaveRepeated
  reports : h.reported = g.reported

namespace Agree

variable {h g k : Handler}

theorem observed (hs : Agree h g) : h.observed = g.observed := by
  unfold Handler.observed
  rw [hs.state, hs.telegram, hs.master, hs.masterDbx, hs.masterRepeated, hs.slave, hs.slaveDbx,
    hs.slaveIndex, hs.slaveRepeated]

theorem refl (h : Handler) : Agree h h :=
  ⟨rfl, rfl, rfl, rfl, rfl, rfl, rfl, rfl, rfl, rfl, rfl, rfl⟩

theorem symm (hs : Agree h g) : Agree g h :=
  ⟨hs.source.symm, hs.target.symm, hs.state.symm, hs.telegram.symm, hs.master.symm,
    hs.masterDbx.symm, hs.masterRepeated.symm, hs.slave.symm, hs.slaveDbx.symm,
    hs.slaveIndex.symm, hs.slaveRepeated.symm, hs.reports.symm⟩

theorem trans (hs : Agree h g) (ht : Agree g k) : Agree h k :=
  ⟨hs.source.trans ht.source, hs.target.trans ht.target, hs.state.trans ht.state,
    hs.telegram.trans ht.telegram, hs.master.trans ht.master, hs.masterDbx.trans ht.masterDbx,
    hs.masterRepeated.trans ht.masterRepeated, hs.slave.trans ht.slave,
    hs.slaveDbx.trans ht.slaveDbx, hs.slaveIndex.trans ht.slaveIndex,
    hs.slaveRepeated.trans ht.slaveRepeated, hs.reports.trans ht.reports⟩

/-- What agrees is what is observed, and the addresses. -/
theorem of_observed (hsource : h.sourceAddress = g.sourceAddress)
    (htarget : h.targetAddress = g.targetAddress) (hs : h.observed = g.observed) :
    Agree { h with log := [] } { g with log := [] } :=
  ⟨hsource, htarget, congrArg Observed.state hs, congrArg Observed.passiveTelegram hs,
    congrArg Observed.passiveMaster hs, congrArg Observed.passiveMasterDbx hs,
    congrArg Observed.passiveMasterRepeated hs, congrArg Observed.passiveSlave hs,
    congrArg Observed.passiveSlaveDbx hs, congrArg Observed.passiveSlaveIndex hs,
    congrArg Observed.passiveSlaveRepeated hs, rfl⟩

/-- Engines that agree take the same branch. -/
theorem ite {c c' : Prop} [Decidable c] [Decidable c'] {a a' b b' : Handler} (hc : c ↔ c')
    (ht : c → Agree a a') (he : ¬ c → Agree b b') :
    Agree (if c then a else b) (if c' then a' else b') := by
  by_cases h : c
  · rw [if_pos h, if_pos (hc.mp h)]
    exact ht h
  · rw [if_neg h, if_neg (mt hc.mpr h)]
    exact he h

theorem reports_concat (hs : Agree h g) {e e' : Effect} (he : e.telegram = e'.telegram) :
    (h.log ++ [e]).filterMap Effect.telegram = (g.log ++ [e']).filterMap Effect.telegram := by
  have hreports : h.log.filterMap Effect.telegram = g.log.filterMap Effect.telegram := hs.reports
  rw [List.filterMap_append, List.filterMap_append, hreports, List.filterMap_cons,
    List.filterMap_cons, he]

theorem emit (hs : Agree h g) {e e' : Effect} (he : e.telegram = e'.telegram) :
    Agree (h.emit e) (g.emit e') :=
  ⟨hs.source, hs.target, hs.state, hs.telegram, hs.master, hs.masterDbx, hs.masterRepeated,
    hs.slave, hs.slaveDbx, hs.slaveIndex, hs.slaveRepeated, hs.reports_concat he⟩

theorem touch (hs : Agree h g) (buffer : Buffer) (i j : Nat) :
    Agree (h.touch buffer i) (g.touch buffer j) :=
  hs.emit rfl

theorem callWrite (hs : Agree h g) (byte byte' : UInt8) :
    Agree (h.callWrite byte) (g.callWrite byte') :=
  ⟨hs.source, hs.target, hs.state, hs.telegram, hs.master, hs.masterDbx, hs.masterRepeated,
    hs.slave, hs.slaveDbx, hs.slaveIndex, hs.slaveRepeated, hs.reports⟩

theorem callOnTelegram (hs : Agree h g) (messageType : MessageType) (telegramType : TelegramType)
    {master master' slave slave' : List UInt8} (hm : master = master') (hv : slave = slave') :
    Agree (h.callOnTelegram messageType telegramType master slave)
      (g.callOnTelegram messageType telegramType master' slave') := by
  subst hm hv
  exact hs.emit rfl

theorem callOnError (hs : Agree h g) (level : LogLevel) (error : ProtocolError)
    (state state' : SequenceState) (master master' slave slave' : List UInt8) :
    Agree (h.callOnError level error state master slave)
      (g.callOnError level error state' master' slave') :=
  hs.emit rfl

theorem goto (hs : Agree h g) (next : HandlerState) : Agree (h.goto next) (g.goto next) :=
  ⟨hs.source, hs.target, rfl, hs.telegram, hs.master, hs.masterDbx, hs.masterRepeated, hs.slave,
    hs.slaveDbx, hs.slaveIndex, hs.slaveRepeated, hs.reports⟩

theorem goto_self (hs : Agree h g) {state : HandlerState} (hstate : h.state = state) :
    Agree (h.goto state) g :=
  ⟨hs.source, hs.target, hstate.symm.trans hs.state, hs.telegram, hs.master, hs.masterDbx,
    hs.masterRepeated, hs.slave, hs.slaveDbx, hs.slaveIndex, hs.slaveRepeated, hs.reports⟩

theorem transitionTo (hs : Agree h g) (next : HandlerState) :
    Agree (h.transitionTo next) (g.transitionTo next) := by
  unfold Handler.transitionTo
  refine .ite (by rw [hs.state]) (fun _ => hs) fun _ => .ite (by rw [hs.state]) (fun _ => ?_)
    fun _ => ?_
  · exact hs.goto next
  · exact (hs.callOnError .error .illegalFsmTransition .seqOk .seqOk [] [] [] []).goto _

theorem callPassiveReset (hs : Agree h g) : Agree h.callPassiveReset g.callPassiveReset :=
  ⟨hs.source, hs.target, hs.state, rfl, rfl, rfl, rfl, rfl, rfl, rfl, rfl,
    hs.reports_concat rfl⟩

/-- What is done for the own message does not concern the traffic that is observed. -/
theorem callActiveReset (h : Handler) : Agree h.callActiveReset h := by
  refine ⟨rfl, rfl, rfl, rfl, rfl, rfl, rfl, rfl, rfl, rfl, rfl, ?_⟩
  simp [Handler.reported, Effect.telegram]

theorem withRequest (h : Handler) (request : Request) : Agree { h with request } h :=
  ⟨rfl, rfl, rfl, rfl, rfl, rfl, rfl, rfl, rfl, rfl, rfl, rfl⟩

theorem withSlave (hs : Agree h g) {slave slave' : Sequence} (heq : slave = slave') :
    Agree { h with passiveSlave := slave } { g with passiveSlave := slave' } :=
  ⟨hs.source, hs.target, hs.state, hs.telegram, hs.master, hs.masterDbx, hs.masterRepeated,
    heq, hs.slaveDbx, hs.slaveIndex, hs.slaveRepeated, hs.reports⟩

theorem createPassiveMaster (hs : Agree h g) :
    Agree h.createPassiveMaster g.createPassiveMaster := by
  refine ⟨hs.source, hs.target, hs.state, ?_, ?_, hs.masterDbx, hs.masterRepeated, hs.slave,
    hs.slaveDbx, hs.slaveIndex, hs.slaveRepeated, ?_⟩
  · rw [createPassiveMaster_passiveTelegram, createPassiveMaster_passiveTelegram, hs.telegram,
      hs.master]
  · rw [createPassiveMaster_passiveMaster, createPassiveMaster_passiveMaster, hs.telegram,
      hs.master]
  · exact hs.reports_concat rfl

theorem createPassiveSlave (hs : Agree h g) :
    Agree h.createPassiveSlave g.createPassiveSlave := by
  refine ⟨hs.source, hs.target, hs.state, ?_, hs.master, hs.masterDbx, hs.masterRepeated, ?_,
    hs.slaveDbx, hs.slaveIndex, hs.slaveRepeated, ?_⟩
  · rw [createPassiveSlave_passiveTelegram, createPassiveSlave_passiveTelegram, hs.telegram,
      hs.slave]
  · rw [createPassiveSlave_passiveSlave, createPassiveSlave_passiveSlave, hs.telegram, hs.slave]
  · exact hs.reports_concat rfl

theorem forgetMaster (hs : Agree h g) : Agree h.forgetMaster g.forgetMaster :=
  ⟨hs.source, hs.target, hs.state, rfl, rfl, rfl, hs.masterRepeated, hs.slave, hs.slaveDbx,
    hs.slaveIndex, hs.slaveRepeated, hs.reports_concat rfl⟩

theorem bufferMaster (hs : Agree h g) (byte : UInt8) :
    Agree (h.bufferMaster byte) (g.bufferMaster byte) := by
  refine ⟨hs.source, hs.target, hs.state, hs.telegram, ?_, ?_, hs.masterRepeated, hs.slave,
    hs.slaveDbx, hs.slaveIndex, hs.slaveRepeated, ?_⟩
  · rw [bufferMaster_passiveMaster, bufferMaster_passiveMaster, hs.master]
  · rw [bufferMaster_passiveMasterDbx, bufferMaster_passiveMasterDbx, hs.master, hs.masterDbx]
  · have hreports := hs.reports
    simp only [Handler.reported] at hreports ⊢
    rw [bufferMaster_log, bufferMaster_log, List.filterMap_append, List.filterMap_append,
      hreports, hs.master]

theorem bufferSlave (hs : Agree h g) (byte : UInt8) :
    Agree (h.bufferSlave byte) (g.bufferSlave byte) := by
  refine ⟨hs.source, hs.target, hs.state, hs.telegram, hs.master, hs.masterDbx,
    hs.masterRepeated, ?_, ?_, hs.slaveIndex, hs.slaveRepeated, hs.reports⟩
  · rw [bufferSlave_passiveSlave, bufferSlave_passiveSlave, hs.slave]
  · rw [bufferSlave_passiveSlaveDbx, bufferSlave_passiveSlaveDbx, hs.slave, hs.slaveDbx]

theorem answerMaster (hs : Agree h g) (response : Sequence) :
    Agree (h.answerMaster response) (g.answerMaster response) := by
  have hasked := @emit h g hs (.reactive h.passiveTelegram.master.bytes)
    (.reactive g.passiveTelegram.master.bytes) rfl
  have hchecked := (hasked.withSlave (rfl : response = response)).createPassiveSlave
  unfold Handler.answerMaster
  refine .ite (by rw [hchecked.telegram]) (fun _ => ?_) fun _ => ?_
  · exact ((hchecked.withSlave (by rw [hchecked.telegram])).callWrite _ _).transitionTo _
  · exact (((hchecked.callOnError _ _ _ _ _ _ _ _).callPassiveReset).callWrite _ _).transitionTo _

theorem acceptMaster (hs : Agree h g) (response : Sequence) :
    Agree (h.acceptMaster response) (g.acceptMaster response) := by
  have hread := hs.touch .passiveMaster 1 1
  have hreread := hread.touch .passiveMaster 1 1
  unfold Handler.acceptMaster
  refine .ite (by rw [hs.telegram]) (fun _ => ?_) fun _ =>
    .ite (by rw [hread.master, hread.source]) (fun _ => ?_) fun _ =>
      .ite (by rw [hreread.master, hreread.target]) (fun _ => ?_) fun _ => ?_
  · exact (hs.callOnTelegram _ _ (by rw [hs.telegram]) (by rw [hs.telegram])).callPassiveReset
  · exact (hread.callWrite _ _).transitionTo _
  · exact hreread.answerMaster response
  · exact hreread.transitionTo _

theorem rejectMaster (hs : Agree h g) : Agree h.rejectMaster g.rejectMaster := by
  have hread := hs.touch .passiveMaster 1 1
  have hreread := hread.touch .passiveMaster 1 1
  unfold Handler.rejectMaster
  refine .ite (by rw [hread.master, hread.source]) (fun _ => ?_) fun _ =>
    .ite (by rw [hreread.master, hreread.target]) (fun _ => ?_) fun _ =>
      .ite (by rw [hreread.telegram]) (fun _ => ?_) fun _ => ?_
  · exact (((hread.callOnError _ _ _ _ _ _ _ _).forgetMaster).callWrite _ _).transitionTo _
  · exact (((hreread.callOnError _ _ _ _ _ _ _ _).forgetMaster).callWrite _ _).transitionTo _
  · exact hreread.transitionTo _
  · exact (hreread.callOnError _ _ _ _ _ _ _ _).callPassiveReset

theorem checkPassiveBuffers (hs : Agree h g) :
    Agree h.checkPassiveBuffers g.checkPassiveBuffers := by
  unfold Handler.checkPassiveBuffers
  refine .ite (by rw [hs.master, hs.slave]) (fun _ => ?_) fun _ => hs
  exact (hs.callOnError _ _ _ _ _ _ _ _).callPassiveReset

theorem checkActiveBuffers (h : Handler) : Agree h.checkActiveBuffers h := by
  unfold Handler.checkActiveBuffers
  split
  · refine (callActiveReset _).trans ?_
    refine ⟨rfl, rfl, rfl, rfl, rfl, rfl, rfl, rfl, rfl, rfl, rfl, ?_⟩
    simp [Handler.reported, Effect.telegram]
  · exact refl h

/-- Of a SYN only the check of the passive buffers counts. -/
theorem receiveSyn (h : Handler) : Agree h.receiveSyn h.checkPassiveBuffers := by
  unfold Handler.receiveSyn
  dsimp only
  split
  · exact (withRequest _ _).trans (checkActiveBuffers _)
  · exact checkActiveBuffers _

theorem passiveReceiveMaster (hs : Agree h g) (byte : UInt8) (response : Sequence) :
    Agree (h.passiveReceiveMaster byte response) (g.passiveReceiveMaster byte response) := by
  have hbuffered := hs.bufferMaster byte
  have hchecked := hbuffered.createPassiveMaster
  unfold Handler.passiveReceiveMaster
  refine .ite Iff.rfl (fun _ => .ite (by rw [hs.master]) (fun _ => ?_) fun _ =>
    hs.callPassiveReset) fun _ => ?_
  · refine .ite (by rw [hbuffered.master, hbuffered.masterDbx]) (fun _ => ?_) fun _ => hbuffered
    refine .ite (by rw [hchecked.telegram]) (fun _ => ?_) fun _ => ?_
    · exact hchecked.acceptMaster response
    · exact hchecked.rejectMaster
  · exact ((receiveSyn h).trans hs.checkPassiveBuffers).trans (receiveSyn g).symm

theorem passiveReceiveMasterAcknowledge (hs : Agree h g) (byte : UInt8) :
    Agree (h.passiveReceiveMasterAcknowledge byte) (g.passiveReceiveMasterAcknowledge byte) := by
  unfold Handler.passiveReceiveMasterAcknowledge
  refine .ite Iff.rfl
    (fun _ => .ite (by rw [hs.telegram]) (fun _ => ?_) fun _ => hs.transitionTo _)
    fun _ => .ite (by rw [hs.masterRepeated]) (fun _ => ?_) fun _ => ?_
  · exact ((hs.callOnTelegram _ _ (by rw [hs.telegram])
      (by rw [hs.telegram])).callPassiveReset).transitionTo _
  · refine transitionTo ?_ _
    obtain ⟨source, target, state, telegram, master, masterDbx, -, slave, slaveDbx, slaveIndex,
      slaveRepeated, reports⟩ := hs.forgetMaster
    exact ⟨source, target, state, telegram, master, masterDbx, rfl, slave, slaveDbx, slaveIndex,
      slaveRepeated, reports⟩
  · exact ((hs.callOnError _ _ _ _ _ _ _ _).callPassiveReset).transitionTo _

theorem passiveReceiveSlave (hs : Agree h g) (byte : UInt8) :
    Agree (h.passiveReceiveSlave byte) (g.passiveReceiveSlave byte) := by
  have hbuffered := hs.bufferSlave byte
  have hchecked := hbuffered.createPassiveSlave
  unfold Handler.passiveReceiveSlave
  refine .ite (by rw [hs.slave]) (fun _ => hs.callPassiveReset) fun _ =>
    .ite (by rw [hbuffered.slave, hbuffered.slaveDbx]) (fun _ => ?_) fun _ => hbuffered
  refine (ite ?_ (fun _ => ?_) fun _ => hchecked).transitionTo _
  · rw [hchecked.telegram]
  · exact hchecked.callOnError _ _ _ _ _ _ _ _

theorem passiveReceiveSlaveAcknowledge (hs : Agree h g) (byte : UInt8) :
    Agree (h.passiveReceiveSlaveAcknowledge byte) (g.passiveReceiveSlaveAcknowledge byte) := by
  unfold Handler.passiveReceiveSlaveAcknowledge
  refine .ite Iff.rfl (fun _ => ?_) fun _ =>
    .ite (by rw [hs.slaveRepeated]) (fun _ => ?_) fun _ => ?_
  · exact ((hs.callOnTelegram _ _ (by rw [hs.telegram])
      (by rw [hs.telegram])).callPassiveReset).transitionTo _
  · refine transitionTo ?_ _
    exact ⟨hs.source, hs.target, hs.state, hs.telegram, hs.master, hs.masterDbx,
      hs.masterRepeated, rfl, rfl, hs.slaveIndex, rfl, hs.reports⟩
  · exact ((hs.callOnError _ _ _ _ _ _ _ _).callPassiveReset).transitionTo _

theorem reactiveSendMasterPositiveAcknowledge (hs : Agree h g) :
    Agree h.reactiveSendMasterPositiveAcknowledge g.reactiveSendMasterPositiveAcknowledge := by
  unfold Handler.reactiveSendMasterPositiveAcknowledge
  refine .ite (by rw [hs.telegram]) (fun _ => ?_) fun _ =>
    .ite (by rw [hs.slave, hs.slaveIndex]) (fun _ => ?_) fun _ => ?_
  · exact ((hs.callOnTelegram _ _ (by rw [hs.telegram])
      (by rw [hs.telegram])).callPassiveReset).transitionTo _
  · exact ((hs.callOnError _ _ _ _ _ _ _ _).callPassiveReset).transitionTo _
  · exact ((hs.touch _ _ _).callWrite _ _).transitionTo _

theorem reactiveSendMasterNegativeAcknowledge (hs : Agree h g) :
    Agree h.reactiveSendMasterNegativeAcknowledge g.reactiveSendMasterNegativeAcknowledge := by
  have hnext := hs.transitionTo .passiveReceiveMaster
  unfold Handler.reactiveSendMasterNegativeAcknowledge
  refine .ite (by rw [hnext.masterRepeated]) (fun _ => ?_) fun _ => ?_
  · exact ⟨hnext.source, hnext.target, hnext.state, hnext.telegram, hnext.master,
      hnext.masterDbx, rfl, hnext.slave, hnext.slaveDbx, hnext.slaveIndex, hnext.slaveRepeated,
      hnext.reports⟩
  · exact (hnext.callOnError _ _ _ _ _ _ _ _).callPassiveReset

theorem withIndex (hs : Agree h g) {index index' : Nat} (heq : index = index') :
    Agree { h with passiveSlaveIndex := index } { g with passiveSlaveIndex := index' } :=
  ⟨hs.source, hs.target, hs.state, hs.telegram, hs.master, hs.masterDbx, hs.masterRepeated,
    hs.slave, hs.slaveDbx, heq, hs.slaveRepeated, hs.reports⟩

theorem reactiveSendSlave (hs : Agree h g) : Agree h.reactiveSendSlave g.reactiveSendSlave := by
  have hnext := hs.withIndex (congrArg (· + 1) hs.slaveIndex)
  unfold Handler.reactiveSendSlave
  refine .ite (by rw [hnext.slave, hnext.slaveIndex]) (fun _ => hnext.transitionTo _) fun _ => ?_
  exact (hnext.touch _ _ _).callWrite _ _

theorem reactiveReceiveSlaveAcknowledge (hs : Agree h g) (byte : UInt8) :
    Agree (h.reactiveReceiveSlaveAcknowledge byte) (g.reactiveReceiveSlaveAcknowledge byte) := by
  unfold Handler.reactiveReceiveSlaveAcknowledge
  refine .ite Iff.rfl (fun _ => ?_) fun _ =>
    .ite (by rw [hs.slaveRepeated]) (fun _ => ?_) fun _ => ?_
  · exact ((hs.callOnTelegram _ _ (by rw [hs.telegram])
      (by rw [hs.telegram])).callPassiveReset).transitionTo _
  · refine (callWrite ?_ _ _).transitionTo _
    obtain ⟨source, target, state, telegram, master, masterDbx, masterRepeated, slave, slaveDbx,
      -, -, reports⟩ := hs.touch .passiveSlave 0 0
    exact ⟨source, target, state, telegram, master, masterDbx, masterRepeated, slave, slaveDbx,
      rfl, rfl, reports⟩
  · exact ((hs.callOnError _ _ _ _ _ _ _ _).callPassiveReset).transitionTo _

/-- Engines that agree and are not engaged still agree behind a byte. -/
theorem dispatch (hs : Agree h g) (hidle : h.state.engaged = false) (byte : UInt8)
    (response : Sequence) : Agree (h.dispatch byte response) (g.dispatch byte response) := by
  unfold Handler.dispatch
  rw [← hs.state]
  cases hstate : h.state with
  | passiveReceiveMaster => exact hs.passiveReceiveMaster byte response
  | passiveReceiveMasterAcknowledge => exact hs.passiveReceiveMasterAcknowledge byte
  | passiveReceiveSlave => exact hs.passiveReceiveSlave byte
  | passiveReceiveSlaveAcknowledge => exact hs.passiveReceiveSlaveAcknowledge byte
  | reactiveSendMasterPositiveAcknowledge => exact hs.reactiveSendMasterPositiveAcknowledge
  | reactiveSendMasterNegativeAcknowledge => exact hs.reactiveSendMasterNegativeAcknowledge
  | reactiveSendSlave => exact hs.reactiveSendSlave
  | reactiveReceiveSlaveAcknowledge => exact hs.reactiveReceiveSlaveAcknowledge byte
  | releaseBus => exact hs.transitionTo _
  | _ => simp [hstate, HandlerState.engaged] at hidle

theorem flush (h : Handler) : Agree h.flush h := by
  obtain hflush | ⟨byte, hflush⟩ := h.flush_cases <;> rw [hflush]
  · exact refl h
  · refine ⟨rfl, rfl, rfl, rfl, rfl, rfl, rfl, rfl, rfl, rfl, rfl, ?_⟩
    simp [Handler.reported, Effect.telegram]

/-- The engine that an event without a start bit finds, if its flag does not concern it. -/
theorem ready {event : BusEvent} (hquiet : event.startBit = false)
    (hstate : h.requestedState event = h.state) : Agree (h.ready event) h := by
  obtain ⟨request, hready⟩ := h.ready_of_quiet event hquiet
  rw [hready]
  exact ⟨rfl, rfl, hstate, rfl, rfl, rfl, rfl, rfl, rfl, rfl, rfl, rfl⟩

/-- The same byte for an engine whose flags do not concern it and for a listener. -/
theorem onBusEvent (hs : Agree h g) {event : BusEvent} (response : Sequence)
    (hquiet : event.startBit = false) (hstate : h.requestedState event = h.state)
    (hidle : h.state.engaged = false) :
    Agree (BusHandler.onBusEvent h event response)
      (BusHandler.onBusEvent g { byte := event.byte } response) := by
  have hready : Agree (h.ready event) (g.ready { byte := event.byte }) :=
    ((ready hquiet hstate).trans hs).trans (ready rfl (by simp [requestedState])).symm
  have hnext := hready.dispatch (by rw [Handler.ready_state, hstate, hidle]) event.byte response
  exact ((flush _).trans hnext).trans (flush _).symm

/-- A listener only runs its state function. -/
theorem hears (hidle : g.state.engaged = false) (byte : UInt8) (response : Sequence) :
    Agree (BusHandler.onBusEvent g { byte } response) (g.dispatch byte response) := by
  have hready : Agree (g.ready { byte }) g := ready rfl (by simp [requestedState])
  have hnext := hready.dispatch (by rw [hready.state, hidle]) byte response
  exact (flush _).trans hnext

end Agree

/-- Nothing is buffered. -/
def Emptied (h : Handler) : Prop := h.passiveMaster.size = 0 ∧ h.passiveSlave.size = 0

instance (h : Handler) : Decidable h.Emptied := inferInstanceAs (Decidable (_ ∧ _))

/-- Nothing at all is left of earlier traffic: a reset would change nothing. -/
def Cleared (h : Handler) : Prop := h.callPassiveReset.observed = h.observed

instance (h : Handler) : Decidable h.Cleared := inferInstanceAs (Decidable (_ = _))

section Listener

variable {h g : Handler} {byte : UInt8} {response : Sequence}

theorem Cleared.agree (hc : h.Cleared) (state : HandlerState) :
    Agree (h.goto state).callPassiveReset (h.goto state) := by
  refine ⟨rfl, rfl, rfl, congrArg Observed.passiveTelegram hc, congrArg Observed.passiveMaster hc,
    congrArg Observed.passiveMasterDbx hc, congrArg Observed.passiveMasterRepeated hc,
    congrArg Observed.passiveSlave hc, congrArg Observed.passiveSlaveDbx hc,
    congrArg Observed.passiveSlaveIndex hc, congrArg Observed.passiveSlaveRepeated hc, ?_⟩
  simp [reported, Effect.telegram]

theorem Cleared.emptied (hc : h.Cleared) : h.Emptied := by
  have hmaster := congrArg Observed.passiveMaster hc
  have hslave := congrArg Observed.passiveSlave hc
  exact ⟨congrArg Sequence.size hmaster.symm, congrArg Sequence.size hslave.symm⟩

theorem hears_syn (hs : g.state = .passiveReceiveMaster) (hempty : g.Emptied) :
    Agree (g.dispatch Symbols.syn response) g := by
  have hsame : g.checkPassiveBuffers = g := by
    unfold checkPassiveBuffers
    rw [if_neg (by simp [hempty.1, hempty.2])]
  simpa [dispatch, hs, passiveReceiveMaster, hsame] using Agree.receiveSyn g

theorem hears_syn_reset (hs : g.state = .passiveReceiveMaster) (hfull : 0 < g.passiveMaster.size) :
    Agree (g.dispatch Symbols.syn response) g.callPassiveReset := by
  have hreset : Agree g.checkPassiveBuffers g.callPassiveReset := by
    unfold checkPassiveBuffers
    rw [if_pos (.inl hfull)]
    refine Agree.callPassiveReset ⟨rfl, rfl, rfl, rfl, rfl, rfl, rfl, rfl, rfl, rfl, rfl, ?_⟩
    simp [reported, Effect.telegram]
  have hsyn : g.dispatch Symbols.syn response = g.receiveSyn := by
    simp [dispatch, hs, passiveReceiveMaster]
  rw [hsyn]
  exact (Agree.receiveSyn g).trans hreset

theorem hears_rejected (hs : g.state = .passiveReceiveMaster) (hbyte : byte ≠ Symbols.syn)
    (hok : headerByteOk g.passiveMaster.size byte = false) :
    g.dispatch byte response = g.callPassiveReset := by
  simp [dispatch, hs, passiveReceiveMaster, hbyte, hok]

/-- The address of a master, behind which there is more to come. -/
theorem hears_master (hs : g.state = .passiveReceiveMaster) (hempty : g.passiveMaster.size = 0)
    (hmaster : isMaster byte = true) : g.dispatch byte response = g.bufferMaster byte := by
  have hplain := needsEscape_eq_false_iff.mp (needsEscape_of_isMaster hmaster)
  have hok : headerByteOk g.passiveMaster.size byte = true := by
    simp [headerByteOk, hempty, hmaster]
  have hsize : (g.bufferMaster byte).passiveMaster.size = 1 := by
    simpa [Sequence.size, Sequence.pushBack] using hempty
  simp only [dispatch, hs, passiveReceiveMaster, hplain.1, hok, hsize, ne_eq, not_false_eq_true,
    if_true]
  rw [if_neg (by omega)]

/-- The engine pushes that address past the count of the data bytes, which it leaves alone. -/
theorem bufferMaster_agree (hempty : h.passiveMaster.size = 0) (hmaster : isMaster byte = true) :
    Agree { h with passiveMaster := h.passiveMaster.pushBack byte true } (h.bufferMaster byte) := by
  have hplain := needsEscape_eq_false_iff.mp (needsEscape_of_isMaster hmaster)
  have hsize : (h.passiveMaster.pushBack byte true).size = 1 := by
    simpa [Sequence.size, Sequence.pushBack] using hempty
  refine ⟨rfl, rfl, rfl, rfl, rfl, ?_, rfl, rfl, rfl, rfl, rfl, ?_⟩
  · simp [nextDbx, hsize, hplain.2]
  · simp [reported, hsize]

/-- A listener that has the address of a collision forgets it with a reset. -/
theorem Cleared.forgets (hclear : h.Cleared) (hstate : g.state = .passiveReceiveMaster)
    {address : UInt8} (hs : Agree ((h.goto .passiveReceiveMaster).bufferMaster address) g)
    (hnext : Agree (g.dispatch byte response) g.callPassiveReset) :
    Agree (h.goto .passiveReceiveMaster) (BusHandler.onBusEvent g { byte } response) := by
  have hheard := Agree.hears (g := g) (by rw [hstate]; rfl) byte response
  have hreset : Agree (h.goto .passiveReceiveMaster).callPassiveReset
      ((h.goto .passiveReceiveMaster).bufferMaster address).callPassiveReset := by
    refine ⟨rfl, rfl, rfl, rfl, rfl, rfl, rfl, rfl, rfl, rfl, rfl, ?_⟩
    simp only [reported, callPassiveReset_log, bufferMaster_log, List.filterMap_append]
    split <;> simp [Effect.telegram]
  exact ((hclear.agree .passiveReceiveMaster).symm.trans hreset).trans
    (hs.callPassiveReset.trans (hheard.trans hnext).symm)

end Listener

section Arbitration

variable {h : Handler} {event : BusEvent} {response : Sequence}

/-- The result for the byte of an event, with its flag dealt with. -/
def resultOf (h : Handler) (event : BusEvent) : RequestResult :=
  ((h.request.afterFlag event.busRequest).run event.byte).result

/-- The engine as `requestBus` finds it. -/
def arbitrating (h : Handler) (event : BusEvent) : Handler :=
  { h with request := (h.request.afterFlag event.busRequest).run event.byte
           lastResult := h.resultOf event, pendingWrite := none, state := .requestBus }

theorem onBusEvent_arbitrating (hquiet : event.startBit = false)
    (hs : h.requestedState event = .requestBus) :
    BusHandler.onBusEvent h event response =
      ((h.arbitrating event).requestBus event.byte).flush := by
  have hready : h.ready event = h.arbitrating event := by
    rw [h.ready_eq hquiet, hs]
    rfl
  change ((h.ready event).dispatch event.byte response).flush = _
  rw [hready]
  rfl

/-- A result that asks the engine to wait changes nothing. -/
theorem requestBus_waits (hresult : h.resultOf event = .firstSyn ∨
    h.resultOf event = .firstRetry ∨ h.resultOf event = .retrySyn) :
    (h.arbitrating event).requestBus event.byte = h.arbitrating event := by
  unfold requestBus
  obtain hr | hr | hr := hresult <;> rw [show (h.arbitrating event).lastResult = _ from hr]

theorem requestBus_lost
    (hresult : h.resultOf event = .firstLost ∨ h.resultOf event = .secondLost) :
    Agree ((h.arbitrating event).requestBus event.byte)
      { h.goto .passiveReceiveMaster with
        passiveMaster := h.passiveMaster.pushBack event.byte true } := by
  have hlost : (h.arbitrating event).requestBus event.byte =
      (h.arbitrating event).arbitrationLost event.byte := by
    unfold requestBus
    obtain hr | hr := hresult <;> rw [show (h.arbitrating event).lastResult = _ from hr]
  rw [hlost, arbitrationLost, transitionTo_of_permitted (by simp [arbitrating, transitionMasks])]
  refine ⟨rfl, rfl, rfl, rfl, rfl, rfl, rfl, rfl, rfl, rfl, rfl, ?_⟩
  simp [reported, arbitrating, Effect.telegram]

theorem requestBus_error (hresult : h.resultOf event = .retryError) :
    Agree ((h.arbitrating event).requestBus event.byte) (h.goto .passiveReceiveMaster) := by
  have herror : (h.arbitrating event).requestBus event.byte =
      (h.arbitrating event).arbitrationError := by
    unfold requestBus
    rw [show (h.arbitrating event).lastResult = _ from hresult]
  rw [herror, arbitrationError, transitionTo_of_permitted (by simp [arbitrating, transitionMasks])]
  refine ⟨rfl, rfl, rfl, rfl, rfl, rfl, rfl, rfl, rfl, rfl, rfl, ?_⟩
  simp [reported, arbitrating, Effect.telegram]

theorem requestBus_won
    (hresult : h.resultOf event = .firstWon ∨ h.resultOf event = .secondWon) :
    ((h.arbitrating event).requestBus event.byte).state ≠ .requestBus := by
  have hwon : (h.arbitrating event).requestBus event.byte =
      (h.arbitrating event).arbitrationWon := by
    unfold requestBus
    obtain hr | hr := hresult <;> rw [show (h.arbitrating event).lastResult = _ from hr]
  rw [hwon, arbitrationWon]
  dsimp only
  split
  · rw [transitionTo_of_permitted (by simp [arbitrating, transitionMasks])]
    simp
  · rw [transitionTo_of_permitted (by simp [arbitrating, transitionMasks])]
    simp

end Arbitration

end Handler

/-- The engine, and a second one that is given the same bytes and no message. `exchanged` tells
that the engine has had the bus since it last began to arbitrate for it. -/
structure Duo where
  handler : Handler
  listener : Handler
  exchanged : Bool := false
  deriving DecidableEq, Repr

namespace Duo

open BusHandler (Action)
open Handler

def create (address : UInt8) (request : Request) : Duo :=
  { handler := Handler.create address request, listener := Handler.create address request }

/-- The engine has the bus, or gets it with this event. -/
def owns (h : Handler) (event : BusEvent) : Bool :=
  (h.requestedState event).exchanging || h.requestedState event == .requestBus &&
    (h.resultOf event == .firstWon || h.resultOf event == .secondWon)

/-- The engine begins to arbitrate with this event. -/
def begins (h : Handler) (event : BusEvent) : Bool :=
  h.requestedState event == .requestBus && h.state != .requestBus

/-- An engine that is given the bytes and nothing else. Logs are those of the last action. -/
def listen (g : Handler) : Action → Handler
  | .busEvent event response =>
      BusHandler.onBusEvent { g with log := [] } { byte := event.byte } response
  | .resetHandler => Handler.reset { g with log := [] }
  | _ => { g with log := [] }

/-- A reset leaves nothing of an exchange. -/
def exchangedAfter (d : Duo) : Action → Bool
  | .busEvent event _ => owns d.handler event || d.exchanged && !begins d.handler event
  | .resetHandler => false
  | _ => d.exchanged

def step (d : Duo) (action : Action) : Duo :=
  { handler := BusHandler.step { d.handler with log := [] } action
    listener := listen d.listener action
    exchanged := d.exchangedAfter action }

/-- An arbitration begins with empty buffers and where a master part is awaited. When the engine
has exchanged a message before, its listener must have come to the same point. -/
def StartsAlike (d : Duo) (event : BusEvent) : Prop :=
  begins d.handler event = true → d.handler.Emptied ∧
    if d.exchanged then (d.handler.goto .passiveReceiveMaster).observed = d.listener.observed
    else d.handler.state = .passiveReceiveMaster

instance (d : Duo) (event : BusEvent) : Decidable (d.StartsAlike event) := by
  unfold StartsAlike
  infer_instance

/-- The bytes of an arbitration that a listener is in step with: a SYN and the address of a
master. In a second round nothing may be left of earlier traffic, and the byte behind a
collision must not be a target address. -/
def KeepsStep (h : Handler) (event : BusEvent) : Prop :=
  match (h.request.afterFlag event.busRequest).state with
  | .observe => True
  | .first => event.byte = Symbols.syn ∨ event.byte = h.request.requestAddress ∨
      isMaster event.byte = true
  | .retry => h.Cleared ∧ isTarget event.byte = false
  | .second => event.byte = h.request.requestAddress ∨ h.Cleared ∧ isMaster event.byte = true

instance (h : Handler) (event : BusEvent) : Decidable (KeepsStep h event) := by
  unfold KeepsStep
  split <;> infer_instance

/-- What this says about the result. -/
theorem KeepsStep.result {h : Handler} {event : BusEvent} (hk : KeepsStep h event) :
    h.resultOf event ≠ .firstError ∧ h.resultOf event ≠ .secondError ∧
      (h.resultOf event = .retrySyn ∨ h.resultOf event = .secondLost → h.Cleared) ∧
      (h.resultOf event = .retryError → h.Cleared ∧ isTarget event.byte = false) := by
  have haddress := (h.request.afterFlag_address event.busRequest).1
  unfold KeepsStep at hk
  unfold resultOf Request.run
  generalize h.request.afterFlag event.busRequest = r at hk haddress ⊢
  rw [← haddress] at hk
  cases hs : r.state <;> rw [hs] at hk <;> dsimp only at hk ⊢
  · unfold Request.observe
    split <;> simp
  · unfold Request.first
    split_ifs <;> simp_all
  · unfold Request.retry
    split_ifs <;> simp [hk]
  · unfold Request.second
    split_ifs <;> simp_all

/-- No start bit, a clean arbitration, and no reset of the machine in the middle of one. -/
def Clean (d : Duo) : Action → Prop
  | .busEvent event _ =>
      event.startBit = false ∧ d.StartsAlike event ∧
        (d.handler.requestedState event = .requestBus → KeepsStep d.handler event)
  | .resetRequest => d.handler.state ≠ .requestBus
  | _ => True

instance (d : Duo) : (action : Action) → Decidable (d.Clean action)
  | .busEvent _ _ => inferInstanceAs (Decidable (_ ∧ _ ∧ _))
  | .resetRequest => inferInstanceAs (Decidable (d.handler.state ≠ .requestBus))
  | .sendActiveMessage _ | .resetHandler | .requestExternal _ | .setLockCounter _ =>
      .isTrue trivial

/-- The engine waits for the bus: what the listener has, for each state of the machine. -/
inductive Awaits (h g : Handler) : RequestState → Prop where
  | first (hempty : h.Emptied) (hs : Agree (h.goto .passiveReceiveMaster) g) : Awaits h g .first
  | retry (hs : Agree (h.goto .passiveReceiveMaster) g ∨ ∃ byte, isMaster byte = true ∧
      Agree ((h.goto .passiveReceiveMaster).bufferMaster byte) g) : Awaits h g .retry
  | second (hs : Agree (h.goto .passiveReceiveMaster) g) : Awaits h g .second

/-- Engine and listener between events. -/
structure InStep (d : Duo) : Prop where
  source : d.handler.sourceAddress = d.listener.sourceAddress
  target : d.handler.targetAddress = d.listener.targetAddress
  quiet : d.listener.activeMessage = false
  calm : d.listener.state.engaged = false
  idle : d.exchanged = false → d.handler.state.engaged = false → Agree d.handler d.listener
  waiting : d.handler.state = .requestBus →
    d.exchanged = false ∧ Awaits d.handler d.listener d.handler.request.state

/-- The logs of earlier events do not count. -/
theorem agree_clearLog {h g : Handler} (hs : Agree h g) :
    Agree { h with log := [] } { g with log := [] } :=
  ⟨hs.source, hs.target, hs.state, hs.telegram, hs.master, hs.masterDbx, hs.masterRepeated,
    hs.slave, hs.slaveDbx, hs.slaveIndex, hs.slaveRepeated, rfl⟩

theorem Awaits.clearLog {h g : Handler} {state : RequestState} (ha : Awaits h g state) :
    Awaits { h with log := [] } { g with log := [] } state := by
  cases ha with
  | first hempty hs => exact .first hempty (agree_clearLog hs)
  | retry hs =>
      refine .retry (hs.imp agree_clearLog ?_)
      rintro ⟨byte, hmaster, hs⟩
      obtain ⟨source, target, state, telegram, master, masterDbx, masterRepeated, slave, slaveDbx,
        slaveIndex, slaveRepeated, -⟩ := hs
      refine ⟨byte, hmaster, source, target, state, telegram, master, masterDbx, masterRepeated,
        slave, slaveDbx, slaveIndex, slaveRepeated, ?_⟩
      simp only [reported, bufferMaster_log]
      split <;> rfl
  | second hs => exact .second (agree_clearLog hs)

theorem Awaits.congr {h h' g : Handler} {state : RequestState} (ha : Awaits h g state)
    (hs : Agree h' h) : Awaits h' g state := by
  have hgoto := hs.goto .passiveReceiveMaster
  cases ha with
  | first hempty hsame =>
      refine .first ⟨?_, ?_⟩ (hgoto.trans hsame)
      · rw [hs.master, hempty.1]
      · rw [hs.slave, hempty.2]
  | retry hsame =>
      refine .retry (hsame.imp hgoto.trans ?_)
      rintro ⟨byte, hmaster, hsame⟩
      exact ⟨byte, hmaster, (hgoto.bufferMaster byte).trans hsame⟩
  | second hsame => exact .second (hgoto.trans hsame)

theorem Awaits.ne_observe {h g : Handler} {state : RequestState} (ha : Awaits h g state) :
    state ≠ .observe := by
  cases ha <;> simp

theorem Awaits.of_emptied {h g : Handler} {state : RequestState} (hempty : h.Emptied)
    (hs : Agree (h.goto .passiveReceiveMaster) g) (hstate : state ≠ .observe) :
    Awaits h g state := by
  cases state with
  | observe => exact absurd rfl hstate
  | first => exact .first hempty hs
  | retry => exact .retry (.inl hs)
  | second => exact .second hs

theorem Awaits.listener {h g : Handler} {state : RequestState} (ha : Awaits h g state) :
    g.state = .passiveReceiveMaster := by
  cases ha with
  | first _ hs => exact hs.state.symm
  | retry hs =>
      obtain hs | ⟨_, -, hs⟩ := hs
      · exact hs.state.symm
      · exact hs.state.symm
  | second hs => exact hs.state.symm

theorem Awaits.addresses {h g : Handler} {state : RequestState} (ha : Awaits h g state) :
    h.sourceAddress = g.sourceAddress ∧ h.targetAddress = g.targetAddress := by
  cases ha with
  | first _ hs => exact ⟨hs.source, hs.target⟩
  | retry hs =>
      obtain hs | ⟨_, -, hs⟩ := hs
      · exact ⟨hs.source, hs.target⟩
      · exact ⟨hs.source, hs.target⟩
  | second hs => exact ⟨hs.source, hs.target⟩

section Event

variable {h g : Handler} {event : BusEvent} {response : Sequence}

/-- The engine and the listener in an event of an arbitration. -/
structure Arbitration (h : Handler) (event : BusEvent) : Prop where
  quiet : event.startBit = false
  state : h.requestedState event = .requestBus
  keeps : KeepsStep h event

namespace Arbitration

variable (ha : Arbitration h event)

include ha

/-- The engine waits on. -/
theorem waits (response : Sequence) (hresult : h.resultOf event = .firstSyn ∨
    h.resultOf event = .firstRetry ∨ h.resultOf event = .retrySyn) :
    (BusHandler.onBusEvent h event response).state = .requestBus ∧
      (BusHandler.onBusEvent h event response).request =
        (h.request.afterFlag event.busRequest).run event.byte ∧
      Agree ((BusHandler.onBusEvent h event response).goto .passiveReceiveMaster)
        (h.goto .passiveReceiveMaster) := by
  rw [onBusEvent_arbitrating ha.quiet ha.state, requestBus_waits hresult]
  refine ⟨flush_state _, flush_request _, ?_⟩
  exact (Agree.goto (Agree.flush _) _).trans
    ⟨rfl, rfl, rfl, rfl, rfl, rfl, rfl, rfl, rfl, rfl, rfl, rfl⟩

/-- The engine takes the address that it has read for the first byte of a master part. -/
theorem lost (hempty : h.Emptied) (hs : Agree (h.goto .passiveReceiveMaster) g)
    (hresult : h.resultOf event = .firstLost ∨ h.resultOf event = .secondLost) :
    Agree (BusHandler.onBusEvent h event response)
      (BusHandler.onBusEvent g { byte := event.byte } response) := by
  have hmaster : isMaster event.byte = true := Request.isMaster_of_run (.inr hresult)
  have hstate : g.state = .passiveReceiveMaster := hs.state.symm
  have hheard : Agree (BusHandler.onBusEvent g { byte := event.byte } response)
      (g.bufferMaster event.byte) := by
    have hnext := Agree.hears (g := g) (by rw [hstate]; rfl) event.byte response
    have hsize : g.passiveMaster.size = 0 := hs.master ▸ hempty.1
    rwa [hears_master hstate hsize hmaster] at hnext
  rw [onBusEvent_arbitrating ha.quiet ha.state]
  have hpushed := bufferMaster_agree (h := h.goto .passiveReceiveMaster) hempty.1 hmaster
  exact (((Agree.flush _).trans (requestBus_lost hresult)).trans hpushed).trans
    ((hs.bufferMaster event.byte).trans hheard.symm)

/-- A SYN, which a listener with empty buffers has nothing to do with. -/
theorem syn (hempty : h.Emptied) (hbyte : event.byte = Symbols.syn)
    (hs : Agree (h.goto .passiveReceiveMaster) g)
    (hresult : h.resultOf event = .firstSyn ∨ h.resultOf event = .firstRetry ∨
      h.resultOf event = .retrySyn) :
    Agree ((BusHandler.onBusEvent h event response).goto .passiveReceiveMaster)
      (BusHandler.onBusEvent g { byte := event.byte } response) := by
  obtain ⟨-, -, hwaits⟩ := ha.waits response hresult
  refine hwaits.trans ?_
  rw [hbyte]
  have hstate : g.state = .passiveReceiveMaster := hs.state.symm
  have hheard := Agree.hears (g := g) (by rw [hstate]; rfl) Symbols.syn response
  have hempty' : g.Emptied := ⟨hs.master ▸ hempty.1, hs.slave ▸ hempty.2⟩
  exact hs.trans (hheard.trans (hears_syn hstate hempty')).symm

/-- A collision: the listener takes the address for the beginning of a master part. -/
theorem collision (hempty : h.Emptied) (hs : Agree (h.goto .passiveReceiveMaster) g)
    (hresult : h.resultOf event = .firstRetry) :
    isMaster event.byte = true ∧
      Agree (((BusHandler.onBusEvent h event response).goto .passiveReceiveMaster).bufferMaster
        event.byte) (BusHandler.onBusEvent g { byte := event.byte } response) := by
  have hmaster : isMaster event.byte = true := Request.isMaster_of_run (.inl hresult)
  obtain ⟨-, -, hwaits⟩ := ha.waits response (.inr (.inl hresult))
  have hstate : g.state = .passiveReceiveMaster := hs.state.symm
  have hheard := Agree.hears (g := g) (by rw [hstate]; rfl) event.byte response
  rw [hears_master hstate (hs.master ▸ hempty.1) hmaster] at hheard
  exact ⟨hmaster, ((hwaits.trans hs).bufferMaster event.byte).trans hheard.symm⟩

/-- The SYN of the second round. -/
theorem retrySyn (hclear : h.Cleared) (hbyte : event.byte = Symbols.syn)
    (hs : Agree (h.goto .passiveReceiveMaster) g ∨ ∃ byte, isMaster byte = true ∧
      Agree ((h.goto .passiveReceiveMaster).bufferMaster byte) g)
    (hresult : h.resultOf event = .retrySyn) :
    Agree ((BusHandler.onBusEvent h event response).goto .passiveReceiveMaster)
      (BusHandler.onBusEvent g { byte := event.byte } response) := by
  obtain hs | ⟨byte, -, hs⟩ := hs
  · exact ha.syn hclear.emptied hbyte hs (.inr (.inr hresult))
  · obtain ⟨-, -, hwaits⟩ := ha.waits response (.inr (.inr hresult))
    have hstate : g.state = .passiveReceiveMaster := hs.state.symm
    refine hwaits.trans (hclear.forgets hstate hs ?_)
    rw [hbyte]
    apply hears_syn_reset hstate
    rw [← hs.master]
    simp [Sequence.size, Sequence.pushBack]

/-- A byte behind a collision that is neither a SYN nor a target address. -/
theorem error (hclear : h.Cleared) (hbyte : event.byte ≠ Symbols.syn)
    (htarget : isTarget event.byte = false)
    (hs : Agree (h.goto .passiveReceiveMaster) g ∨ ∃ byte, isMaster byte = true ∧
      Agree ((h.goto .passiveReceiveMaster).bufferMaster byte) g)
    (hresult : h.resultOf event = .retryError) :
    Agree (BusHandler.onBusEvent h event response)
      (BusHandler.onBusEvent g { byte := event.byte } response) := by
  have hforgets : Agree (h.goto .passiveReceiveMaster)
      (BusHandler.onBusEvent g { byte := event.byte } response) := by
    obtain hs | ⟨byte, -, hs⟩ := hs
    · have hstate : g.state = .passiveReceiveMaster := hs.state.symm
      have hmaster : isMaster event.byte = false := by
        by_contra hmaster
        have hplain := needsEscape_of_isMaster (by simpa using hmaster)
        rw [needsEscape_eq_false_iff, ← isTarget_iff, htarget] at hplain
        cases hplain
      have hheard := Agree.hears (g := g) (by rw [hstate]; rfl) event.byte response
      have hsize : g.passiveMaster.size = 0 := hs.master ▸ hclear.emptied.1
      rw [hears_rejected hstate hbyte (by simp [headerByteOk, hsize, hmaster])] at hheard
      exact ((hclear.agree _).symm.trans hs.callPassiveReset).trans hheard.symm
    · have hstate : g.state = .passiveReceiveMaster := hs.state.symm
      refine hclear.forgets hstate hs ?_
      have hsize : g.passiveMaster.size = 1 := by
        rw [← hs.master]
        simpa [Sequence.size, Sequence.pushBack] using hclear.emptied.1
      rw [hears_rejected hstate hbyte (by simp [headerByteOk, hsize, htarget])]
      exact Agree.refl _
  rw [onBusEvent_arbitrating ha.quiet ha.state]
  exact ((Agree.flush _).trans (requestBus_error hresult)).trans hforgets

/-- One event of an arbitration that is not won: it goes on, or the two agree. -/
theorem next (response : Sequence)
    (hbefore : Awaits h g (h.request.afterFlag event.busRequest).state)
    (hlost : h.resultOf event ≠ .firstWon ∧ h.resultOf event ≠ .secondWon) :
    ((BusHandler.onBusEvent h event response).state = .requestBus ∧
      Awaits (BusHandler.onBusEvent h event response)
        (BusHandler.onBusEvent g { byte := event.byte } response)
        (BusHandler.onBusEvent h event response).request.state) ∨
    Agree (BusHandler.onBusEvent h event response)
      (BusHandler.onBusEvent g { byte := event.byte } response) := by
  have hmove := ((h.request.afterFlag event.busRequest).run_move event.byte).1
  obtain ⟨hfirst, hsecond, hclear, herror⟩ := ha.keeps.result
  have hwaits := @waits h event ha response
  generalize hresult : ((h.request.afterFlag event.busRequest).run event.byte).result = result,
    hrequest : ((h.request.afterFlag event.busRequest).run event.byte).busRequest = request,
    hnext : ((h.request.afterFlag event.busRequest).run event.byte).state = next at hmove
  replace hresult : h.resultOf event = result := hresult
  rw [hresult] at hlost hfirst hsecond
  cases hmove with
  | observed hs _ => exact absurd hs hbefore.ne_observe
  | firstSyn hs hbyte =>
      rw [hs] at hbefore
      cases hbefore with
      | first hempty hsame =>
          obtain ⟨hstate, hreq, hgoto⟩ := hwaits (.inl hresult)
          refine .inl ⟨hstate, ?_⟩
          rw [hreq, hnext]
          refine .first ⟨?_, ?_⟩ (ha.syn hempty hbyte hsame (.inl hresult))
          · exact (congrArg Sequence.size hgoto.master).trans hempty.1
          · exact (congrArg Sequence.size hgoto.slave).trans hempty.2
  | firstWon => exact absurd rfl hlost.1
  | firstRetry hs _ =>
      rw [hs] at hbefore
      cases hbefore with
      | first hempty hsame =>
          obtain ⟨hstate, hreq, -⟩ := hwaits (.inr (.inl hresult))
          refine .inl ⟨hstate, ?_⟩
          rw [hreq, hnext]
          exact .retry (.inr ⟨event.byte, ha.collision hempty hsame hresult⟩)
  | firstLost hs _ hends =>
      rw [hs] at hbefore
      obtain rfl | rfl := hends
      · cases hbefore with
        | first hempty hsame => exact .inr (ha.lost hempty hsame (.inl hresult))
      · exact absurd rfl hfirst
  | retrySyn hs hbyte =>
      rw [hs] at hbefore
      cases hbefore with
      | retry hsame =>
          obtain ⟨hstate, hreq, -⟩ := hwaits (.inr (.inr hresult))
          refine .inl ⟨hstate, ?_⟩
          rw [hreq, hnext]
          exact .second (ha.retrySyn (hclear (.inl hresult)) hbyte hsame hresult)
  | retryError hs hbyte =>
      rw [hs] at hbefore
      cases hbefore with
      | retry hsame =>
          obtain ⟨hcleared, htarget⟩ := herror hresult
          exact .inr (ha.error hcleared hbyte htarget hsame hresult)
  | secondWon => exact absurd rfl hlost.2
  | secondLost hs hends =>
      rw [hs] at hbefore
      obtain rfl | rfl := hends
      · cases hbefore with
        | second hsame =>
            exact .inr (ha.lost (hclear (.inr hresult)).emptied hsame (.inr hresult))
      · exact absurd rfl hsecond

end Arbitration

end Event

/-- A listener stays one. -/
theorem listener_idle {g : Handler} (hquiet : g.activeMessage = false)
    (hidle : g.state.engaged = false) (byte : UInt8) (response : Sequence) :
    (BusHandler.onBusEvent { g with log := [] } { byte } response).activeMessage = false ∧
      (BusHandler.onBusEvent { g with log := [] } { byte } response).state.engaged = false := by
  obtain ⟨hbusy, -⟩ := BusHandler.onBusEvent_engages g { byte } response
  have hnot : (BusHandler.onBusEvent { g with log := [] } { byte } response).busy = false := by
    by_contra hbusy'
    have := hbusy (by simpa using hbusy')
    simp [busy, hquiet, hidle] at this
  simpa [busy] using hnot

theorem engaged_of_exchanging {state : HandlerState} (hs : state.exchanging = false)
    (hne : state ≠ .requestBus) : state.engaged = false := by
  cases state <;> simp_all [HandlerState.exchanging, HandlerState.engaged]

/-- The addresses are those of the configuration. -/
theorem onBusEvent_addresses (h : Handler) (event : BusEvent) (response : Sequence) :
    (BusHandler.onBusEvent h event response).sourceAddress = h.sourceAddress ∧
      (BusHandler.onBusEvent h event response).targetAddress = h.targetAddress := by
  obtain ⟨d, hb, heq⟩ := BusHandler.onBusEvent_branch h event response
  have hready : (h.ready event).sourceAddress = h.sourceAddress ∧
      (h.ready event).targetAddress = h.targetAddress := by
    cases hstart : event.startBit with
    | true =>
        obtain ⟨request, -, hready⟩ := h.ready_of_startBit event hstart
        rw [hready]
        exact ⟨rfl, rfl⟩
    | false =>
        obtain ⟨request, hready⟩ := h.ready_of_quiet event hstart
        rw [hready]
        exact ⟨rfl, rfl⟩
  rw [heq, ← hready.1, ← hready.2]
  obtain ⟨log, hflush⟩ := d.flush_eq
  rw [hflush]
  exact ⟨hb.asks.source, hb.target⟩

/-- Waiting for the bus goes on only where it had begun. -/
theorem requested_of_waiting {h : Handler} {event : BusEvent} {response : Sequence}
    (hs : (BusHandler.onBusEvent h event response).state = .requestBus) :
    h.requestedState event = .requestBus := by
  obtain ⟨d, hb, heq⟩ := BusHandler.onBusEvent_branch h event response
  rw [heq, flush_state] at hs
  obtain ⟨-, -, hwaiting, -⟩ := hb.asks
  rw [← ready_state]
  exact (hwaiting hs).1

section Event

variable {d : Duo} {event : BusEvent} {response : Sequence}

/-- The engine that the step function starts from. -/
theorem InStep.addresses (hi : InStep d) (event : BusEvent) (response : Sequence) :
    (d.step (.busEvent event response)).handler.sourceAddress =
        (d.step (.busEvent event response)).listener.sourceAddress ∧
      (d.step (.busEvent event response)).handler.targetAddress =
        (d.step (.busEvent event response)).listener.targetAddress := by
  have hengine := onBusEvent_addresses { d.handler with log := [] } event response
  have hlistener := onBusEvent_addresses { d.listener with log := [] } { byte := event.byte }
    response
  exact ⟨hengine.1.trans (hi.source.trans hlistener.1.symm),
    hengine.2.trans (hi.target.trans hlistener.2.symm)⟩

/-- The engine has the bus, and what it sends is not observed. -/
theorem InStep.owned (hi : InStep d) (howns : owns d.handler event = true)
    (hquiet : event.startBit = false) : InStep (d.step (.busEvent event response)) := by
  obtain ⟨hsource, htarget⟩ := hi.addresses event response
  obtain ⟨hstill, hstill'⟩ := listener_idle hi.quiet hi.calm event.byte response
  refine ⟨hsource, htarget, hstill, hstill', fun hnot => ?_, fun hwaiting => ?_⟩
  · simp [step, exchangedAfter, howns] at hnot
  · have hrequested : d.handler.requestedState event = .requestBus :=
      requested_of_waiting (h := { d.handler with log := [] }) hwaiting
    simp only [owns, hrequested, HandlerState.exchanging, Bool.or_eq_true, Bool.and_eq_true,
      beq_iff_eq, true_and] at howns
    obtain ⟨-, hne⟩ | hwon := howns
    · exact absurd hne (by decide)
    · change (BusHandler.onBusEvent { d.handler with log := [] } event response).state = _
        at hwaiting
      rw [onBusEvent_arbitrating (h := { d.handler with log := [] }) hquiet hrequested,
        flush_state] at hwaiting
      exact absurd hwaiting (requestBus_won (h := { d.handler with log := [] }) hwon)

/-- What the listener has when the byte of an arbitration arrives. -/
theorem InStep.before (hi : InStep d) (hstarts : d.StartsAlike event)
    (hrequested : d.handler.requestedState event = .requestBus) :
    Awaits { d.handler with log := [] } { d.listener with log := [] }
      (d.handler.request.afterFlag event.busRequest).state := by
  by_cases hwaiting : d.handler.state = .requestBus
  · obtain ⟨-, hawaits⟩ := hi.waiting hwaiting
    rw [Request.afterFlag_state hawaits.ne_observe]
    exact hawaits.clearLog
  · have hflag : event.busRequest = true := by
      by_contra hflag
      simp [requestedState, hflag, hwaiting] at hrequested
    have hne : (d.handler.request.afterFlag event.busRequest).state ≠ .observe := by
      rw [hflag]
      exact Request.afterFlag_ne_observe _
    obtain ⟨hempty, hsame⟩ := hstarts (by simp [begins, hrequested, hwaiting])
    refine .of_emptied hempty ?_ hne
    split at hsame
    next => exact .of_observed (h := d.handler.goto .passiveReceiveMaster) hi.source hi.target hsame
    next hnot =>
      have hidle := hi.idle (by simpa using hnot) (by rw [hsame]; rfl)
      exact (agree_clearLog hidle).goto_self hsame

/-- While the engine arbitrates it has not had the bus. -/
theorem InStep.unexchanged (hi : InStep d)
    (hrequested : d.handler.requestedState event = .requestBus) :
    (d.exchanged && !begins d.handler event) = false := by
  by_cases hwaiting : d.handler.state = .requestBus
  · rw [(hi.waiting hwaiting).1]
    rfl
  · simp [begins, hrequested, hwaiting]

/-- An event of an arbitration that is not won. -/
theorem InStep.contended (hi : InStep d) (howns : owns d.handler event = false)
    (hclean : d.Clean (.busEvent event response))
    (hrequested : d.handler.requestedState event = .requestBus) :
    InStep (d.step (.busEvent event response)) := by
  obtain ⟨hquiet, hstarts, hkeeps⟩ := hclean
  obtain ⟨hsource, htarget⟩ := hi.addresses event response
  obtain ⟨hstill, hstill'⟩ := listener_idle hi.quiet hi.calm event.byte response
  have ha : Arbitration { d.handler with log := [] } event :=
    ⟨hquiet, hrequested, hkeeps hrequested⟩
  have hlost : d.handler.resultOf event ≠ .firstWon ∧ d.handler.resultOf event ≠ .secondWon := by
    simp only [owns, hrequested, Bool.or_eq_false_iff, Bool.and_eq_false_iff, beq_eq_false_iff_ne,
      ne_eq, not_true_eq_false, false_or] at howns
    exact howns.2
  have hexchanged : d.exchangedAfter (.busEvent event response) = false := by
    rw [exchangedAfter, howns, hi.unexchanged hrequested]
    rfl
  have hnext := ha.next response (hi.before hstarts hrequested) hlost
  refine ⟨hsource, htarget, hstill, hstill', fun _ hidle => ?_, fun hwaiting => ⟨hexchanged, ?_⟩⟩
  · obtain ⟨hstate, -⟩ | hsame := hnext
    · exact absurd hidle (by simp [step, BusHandler.step, hstate, HandlerState.engaged])
    · exact hsame
  · obtain ⟨-, hawaits⟩ | hsame := hnext
    · exact hawaits
    · have hstate := hsame.state
      change (BusHandler.onBusEvent { d.handler with log := [] } event response).state = _
        at hwaiting
      rw [hwaiting] at hstate
      rw [← hstate] at hstill'
      cases hstill'

/-- An event outside the own exchanges and arbitrations. -/
theorem InStep.heard (hi : InStep d) (howns : owns d.handler event = false)
    (hquiet : event.startBit = false)
    (hrequested : d.handler.requestedState event ≠ .requestBus) :
    InStep (d.step (.busEvent event response)) := by
  obtain ⟨hsource, htarget⟩ := hi.addresses event response
  obtain ⟨hstill, hstill'⟩ := listener_idle hi.quiet hi.calm event.byte response
  have hstate : d.handler.requestedState event = d.handler.state := by
    unfold requestedState at hrequested ⊢
    split at hrequested
    · exact absurd rfl hrequested
    · rw [if_neg ‹_›]
  have hidle : d.handler.state.engaged = false := by
    rw [hstate] at hrequested
    refine engaged_of_exchanging ?_ hrequested
    simp only [owns, hstate, Bool.or_eq_false_iff] at howns
    exact howns.1
  have hexchanged : d.exchangedAfter (.busEvent event response) = d.exchanged := by
    simp [exchangedAfter, howns, begins, hrequested]
  refine ⟨hsource, htarget, hstill, hstill', fun hnot _ => ?_, fun hwaiting => ?_⟩
  · have hsame := agree_clearLog (hi.idle (hexchanged.symm.trans hnot) hidle)
    exact hsame.onBusEvent response hquiet hstate hidle
  · exact absurd (requested_of_waiting (h := { d.handler with log := [] }) hwaiting) hrequested

theorem InStep.busEvent (hi : InStep d) (hclean : d.Clean (.busEvent event response)) :
    InStep (d.step (.busEvent event response)) := by
  cases howns : owns d.handler event with
  | true => exact hi.owned howns hclean.1
  | false =>
      by_cases hrequested : d.handler.requestedState event = .requestBus
      · exact hi.contended howns hclean hrequested
      · exact hi.heard howns hclean.1 hrequested

end Event

/-- Whatever is done between events does not concern the traffic that is observed. -/
theorem InStep.between {d : Duo} (hi : InStep d) {handler : Handler}
    (hs : Agree handler { d.handler with log := [] })
    (hrequest : d.handler.state = .requestBus → handler.request.state = d.handler.request.state) :
    InStep { handler, listener := { d.listener with log := [] }, exchanged := d.exchanged } := by
  refine ⟨hs.source.trans hi.source, hs.target.trans hi.target, hi.quiet, hi.calm,
    fun hnot hidle => ?_, fun hwaiting => ?_⟩
  · exact hs.trans (agree_clearLog (hi.idle hnot (hs.state ▸ hidle)))
  · have hwaiting : d.handler.state = .requestBus := hs.state.symm.trans hwaiting
    obtain ⟨hnot, hawaits⟩ := hi.waiting hwaiting
    refine ⟨hnot, ?_⟩
    dsimp only
    rw [hrequest hwaiting]
    exact hawaits.clearLog.congr hs

theorem agree_sendActiveMessage (h : Handler) (message : List UInt8) :
    Agree (h.sendActiveMessage message).1 h ∧
      (h.sendActiveMessage message).1.request = h.request := by
  obtain heq | ⟨t, -, -, -, heq⟩ | ⟨t, -, -, -, heq⟩ := h.sendActiveMessage_cases message <;>
    rw [heq]
  · exact ⟨Agree.refl h, rfl⟩
  · refine ⟨⟨rfl, rfl, rfl, rfl, rfl, rfl, rfl, rfl, rfl, rfl, rfl, ?_⟩, rfl⟩
    simp [reported, Effect.telegram]
  · refine ⟨⟨rfl, rfl, rfl, rfl, rfl, rfl, rfl, rfl, rfl, rfl, rfl, ?_⟩, rfl⟩
    simp [reported, Effect.telegram]

theorem InStep.reset {d : Duo} (hi : InStep d) : InStep (d.step .resetHandler) := by
  simp only [step, BusHandler.step, listen, exchangedAfter]
  rw [reset_eq, reset_eq]
  refine ⟨hi.source, hi.target, rfl, rfl, fun _ _ => ?_, fun hs => ?_⟩
  · exact ⟨hi.source, hi.target, rfl, rfl, rfl, rfl, rfl, rfl, rfl, rfl, rfl, rfl⟩
  · cases hs

theorem InStep.step {d : Duo} (hi : InStep d) {action : Action} (hclean : d.Clean action) :
    InStep (d.step action) := by
  cases action with
  | busEvent event response => exact hi.busEvent hclean
  | sendActiveMessage message =>
      obtain ⟨hs, hrequest⟩ := agree_sendActiveMessage { d.handler with log := [] } message
      exact hi.between hs fun _ => congrArg Request.state hrequest
  | resetHandler => exact hi.reset
  | requestExternal address =>
      refine hi.between (Agree.withRequest _ _) fun _ => ?_
      simp only [BusHandler.step, Request.requestBus]
      split <;> rfl
  | resetRequest => exact hi.between (Agree.withRequest _ _) fun hs => absurd hs hclean
  | setLockCounter lockCounter => exact hi.between (Agree.withRequest _ _) fun _ => rfl

theorem InStep.create (address : UInt8) (request : Request) : InStep (create address request) := by
  refine ⟨rfl, rfl, rfl, rfl, fun _ _ => Agree.refl _, fun hs => ?_⟩
  cases hs

/-- The listener is nothing but an engine that is given the bytes. -/
theorem run_listener (d : Duo) (actions : List Action) :
    (Runs.run step d actions).listener = Runs.run listen d.listener actions := by
  induction actions generalizing d with
  | nil => rfl
  | cons action rest ih => exact ih (d.step action)

/-- An arbitration that is not won leaves the engine where it awaits a master part. -/
theorem onBusEvent_unwon {h : Handler} {event : BusEvent} (hquiet : event.startBit = false)
    (hrequested : h.requestedState event = .requestBus)
    (hunwon : (h.resultOf event).unwon = true) (response : Sequence) :
    (BusHandler.onBusEvent h event response).state = .passiveReceiveMaster := by
  rw [onBusEvent_arbitrating hquiet hrequested, flush_state]
  have hlost (byte : UInt8) : ((h.arbitrating event).arbitrationLost byte).state =
      .passiveReceiveMaster := by
    rw [arbitrationLost, transitionTo_of_permitted (mem_transitionMasks_passiveReceiveMaster _)]
    rfl
  have herror : (h.arbitrating event).arbitrationError.state = .passiveReceiveMaster := by
    rw [arbitrationError, transitionTo_of_permitted (mem_transitionMasks_passiveReceiveMaster _)]
    rfl
  unfold requestBus
  rw [show (h.arbitrating event).lastResult = h.resultOf event from rfl]
  cases hresult : h.resultOf event <;> rw [hresult] at hunwon <;>
    first | exact hlost _ | exact herror | cases hunwon

theorem owns_of_unwon {h : Handler} {event : BusEvent}
    (hrequested : h.requestedState event = .requestBus)
    (hunwon : (h.resultOf event).unwon = true) : owns h event = false := by
  unfold owns
  rw [hrequested]
  cases hresult : h.resultOf event <;> rw [hresult] at hunwon <;> first | rfl | cases hunwon

/-- In a run of clean arbitrations the engine has observed and reported the same as a second
engine that was given the bytes only, from the end of an arbitration that it did not win until
it gets the bus. -/
theorem run_listens (address : UInt8) (request : Request) (actions : List Action)
    (hclean : Runs.Meets step Clean (create address request) actions) :
    let d := Runs.run step (create address request) actions
    d.listener = Runs.run listen (Handler.create address request) actions ∧
    (d.exchanged = false → d.handler.state.engaged = false →
      d.handler.observed = d.listener.observed ∧ d.handler.reported = d.listener.reported) ∧
    (∀ event response, event.startBit = false → d.handler.requestedState event = .requestBus →
      (d.handler.resultOf event).unwon = true →
        (d.step (.busEvent event response)).handler.state = .passiveReceiveMaster ∧
        (d.step (.busEvent event response)).exchanged = false) := by
  have hi : InStep (Runs.run step (create address request) actions) :=
    Runs.invariant (fun _ _ hi hc => hi.step hc) (InStep.create address request) hclean
  refine ⟨run_listener _ actions, fun hnot hidle => ?_,
    fun event response hquiet hrequested hunwon => ⟨?_, ?_⟩⟩
  · have hsame := hi.idle hnot hidle
    exact ⟨hsame.observed, hsame.reports⟩
  · exact onBusEvent_unwon (h := { (Runs.run step (create address request) actions).handler
      with log := [] }) hquiet hrequested hunwon response
  · change (owns _ event || _) = false
    rw [owns_of_unwon hrequested hunwon, hi.unexchanged hrequested]
    rfl

def startBitOf : Action → Bool
  | .busEvent event _ => event.startBit
  | _ => false

/-- A message waits for the bus, and its address is written behind a SYN. -/
def askForBus : List Action :=
  [.sendActiveMessage [0x08, 0x07, 0x04, 0x00]] ++ BusHandler.feed [0xaa, 0xaa, 0xaa] ++
    [.busEvent { byte := 0xaa, busRequest := true } {}]

/-- A broadcast of its own, which the listener observes. -/
def ownBroadcast : List Action :=
  [.sendActiveMessage [0xfe, 0x07, 0x04, 0x00]] ++ BusHandler.obtainBus 0xff ++
    BusHandler.feed [0xfe, 0x07, 0x04, 0x00, 0x94, 0xaa]

/-- A collision, and a second round that the other master wins with a broadcast. -/
def secondRoundLost : List Action :=
  ownBroadcast ++ askForBus ++ BusHandler.feed [0x3f] ++
    [.busEvent { byte := 0xaa, busRequest := true } {}] ++
    BusHandler.feed [0x1f, 0xfe, 0x07, 0x04, 0x00, 0xf0]

theorem run_listens_secondRoundLost :
    Runs.Meets step Clean (create 0xff {}) secondRoundLost ∧
    (Runs.run step (create 0xff {}) ownBroadcast).exchanged = true ∧
    (Runs.run step (create 0xff {}) secondRoundLost).handler.reported =
      [(.passive, .broadcast, [0x1f, 0xfe, 0x07, 0x04, 0x00], [])] ∧
    (Runs.run step (create 0xff {}) secondRoundLost).handler.observed =
      (Runs.run listen (Handler.create 0xff {}) secondRoundLost).observed ∧
    (Runs.run step (create 0xff {}) secondRoundLost).handler.reported =
      (Runs.run listen (Handler.create 0xff {}) secondRoundLost).reported := by
  have hclean : Runs.Meets step Clean (create 0xff {}) secondRoundLost := by decide +kernel
  obtain ⟨hlistener, hsame, -⟩ := run_listens 0xff {} secondRoundLost hclean
  obtain ⟨hobserved, hreported⟩ := hsame (by decide +kernel) (by decide +kernel)
  refine ⟨hclean, by decide +kernel, by decide +kernel, ?_, ?_⟩
  · rw [hobserved, hlistener]
  · rw [hreported, hlistener]

/-- Without the side conditions: the byte of a failed arbitration is kept although it is no
address of a master, which a listener does not do. -/
theorem not_listens_firstError :
    ¬ ∀ (address : UInt8) (request : Request) (actions : List Action) (event : BusEvent)
      (response : Sequence), (∀ action ∈ actions, startBitOf action = false) →
      event.startBit = false →
      (Runs.run BusHandler.step (Handler.create address request) actions).requestedState event =
        .requestBus →
      ((Runs.run BusHandler.step (Handler.create address request) actions).resultOf event).unwon →
      (Runs.run BusHandler.step (Handler.create address request)
          (actions ++ [.busEvent event response])).observed =
        (Runs.run listen (Handler.create address request)
          (actions ++ [.busEvent event response])).observed := by
  intro hall
  have hsame := hall 0xff {} askForBus { byte := 0x02 } {} (by decide) rfl
    (by decide) (by decide)
  exact absurd hsame (by decide +kernel)

end Duo

end Ebus
