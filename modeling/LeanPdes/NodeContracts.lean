import LeanPdes.Contract
import LeanPdes.DrainStart
import LeanPdes.Faults

/-! The contract of each function of a node. A sound node relies on what its neighbour sends and
guarantees the same of its own messages: a packet has data, and a `DRAIN_START` carries the one name
that the sender's role allows. A function that starts in a sound node leaves a sound one, and none of
the asserts and accesses that depend on the call alone can fail in it. -/

namespace LeanPdes

open Words Contract

/-- The asserts and accesses that a caller can get wrong. -/
def callerFaults : List Fault := .invalidReceiveContext :: callFaults

/-- The name under which a node of each role saves its checkpoint. -/
def savedName (master : Bool) : List UInt8 := if master then initWarmed else qpdes ++ initWarmed

/-- What a node with the role `master` may send to a neighbour with the role `peer`. -/
structure Message.Fits (base : SnapshotFormat) (master peer : Bool) (msg : Message) : Prop where
  packet : msg.type = msgTypeNormal → 0 < msg.len
  drain : msg.type = drainStart → (master = true ∨ peer = true) ∧ msg.len = msg.data.length ∧
    ∃ round < 2 ^ 64, msg.data = drainPayload (savedName master) base round

/-- What a node with the role `master` keeps next to a neighbour with the role `peer`. The count of
`CHECKPOINT_INIT_STEP` stays positive only where it is promised not to wrap. -/
structure Node.Sound (base : SnapshotFormat) (master peer : Bool) (noWrap : Prop) (n : Node) : Prop where
  role : n.engine.master = master
  format : n.incrementalBase = base
  setup : n.engine.firstSyncVirtualTime ≠ -1
  synced : n.engine.firstSyncTime ≠ -1
  round : n.wwt.currentQuantumRound < 2 ^ 64
  asked : n.engine.needsToCheckpoint = true → (master = true ∨ peer = true) ∧
    n.engine.checkpointName = savedName master ∧ n.engine.checkpointFormat = base
  counted : noWrap → n.engine.needsToCheckpoint = true → master = true → 1 ≤ n.engine.initFlag
  contexts : ∀ ctx ∈ n.receiveContexts, 0 < ctx.msg.len ∧ ctx.msg.type = msgTypeNormal
  sends : ∀ msg ∈ n.inFlight, msg.Fits base master peer
  saves : ∀ name c r, .saveSnapshot name c r ∈ n.log → name = savedName master

section

variable {base : SnapshotFormat} {master peer : Bool} {noWrap : Prop} {n : Node}

/-- A call that leaves a sound node. -/
abbrev KeepsSound (base : SnapshotFormat) (master peer : Bool) (noWrap : Prop) :
    Except Fault Node → Prop :=
  Meets (· ∉ callerFaults) (Node.Sound base master peer noWrap)

/-- The fields that a sound node speaks about. -/
def Node.soundFields (n : Node) :=
  ((n.engine.master, n.incrementalBase, n.engine.firstSyncVirtualTime, n.engine.firstSyncTime,
      n.wwt.currentQuantumRound),
    (n.engine.needsToCheckpoint, n.engine.checkpointName, n.engine.checkpointFormat,
      n.engine.initFlag),
    n.receiveContexts, n.inFlight, n.log)

theorem Node.Sound.congr {n' : Node} (hn : n.Sound base master peer noWrap)
    (h : n'.soundFields = n.soundFields) : n'.Sound base master peer noWrap := by
  simp only [Node.soundFields, Prod.mk.injEq] at h
  obtain ⟨⟨hrole, hformat, hsetup, hsynced, hround⟩, ⟨hneeds, hname, hbase, hflag⟩, hcontexts, hsends,
    hlog⟩ := h
  refine ⟨?_, ?_, ?_, ?_, ?_, ?_, ?_, ?_, ?_, ?_⟩
  · rw [hrole]; exact hn.role
  · rw [hformat]; exact hn.format
  · rw [hsetup]; exact hn.setup
  · rw [hsynced]; exact hn.synced
  · rw [hround]; exact hn.round
  · rw [hneeds, hname, hbase]; exact hn.asked
  · rw [hneeds, hflag]; exact hn.counted
  · rw [hcontexts]; exact hn.contexts
  · rw [hsends]; exact hn.sends
  · rw [hlog]; exact hn.saves

/-- An event that saves nothing is logged. -/
theorem Node.Sound.logs (hn : n.Sound base master peer noWrap) {e : Event}
    (he : ∀ name c r, e ≠ .saveSnapshot name c r) :
    ({ n with log := n.log ++ [e] } : Node).Sound base master peer noWrap where
  role := hn.role
  format := hn.format
  setup := hn.setup
  synced := hn.synced
  round := hn.round
  asked := hn.asked
  counted := hn.counted
  contexts := hn.contexts
  sends := hn.sends
  saves name c r hmem := by
    rcases List.mem_append.mp hmem with hmem | hmem
    · exact hn.saves name c r hmem
    · exact absurd (List.mem_singleton.mp hmem).symm (he name c r)

theorem Node.Sound.send (hn : n.Sound base master peer noWrap) {msg : Message}
    (hmsg : msg.Fits base master peer) : (pdesCommSend n msg).Sound base master peer noWrap := by
  have hlogged := hn.logs (e := .commSend msg) (by intro _ _ _ h; cases h)
  refine { hlogged with sends := ?_ }
  intro m hm
  have hall : (pdesCommSend n msg).inFlight = n.inFlight ++ [msg] := by
    rw [Node.inFlight, Node.inFlight, List.append_assoc]
    rfl
  rw [hall] at hm
  rcases List.mem_append.mp hm with hm | hm
  · exact hn.sends m hm
  · rw [List.mem_singleton.mp hm]
    exact hmsg

theorem Node.Sound.time {may : Fault → Prop} (hn : n.Sound base master peer noWrap) :
    Meets may (· = n.universalTime) (getUniversalVirtualTime n) := by
  rw [getUniversalVirtualTime_of_bias hn.setup]
  exact .ok rfl

theorem createMessage_meets {may : Fault → Prop} (data : List UInt8) (type : UInt8) (tsNs : Int)
    (hdata : data.length ≤ maxMsgSize) :
    Meets may (fun msg => msg.len = data.length ∧ msg.data = data ∧ msg.type = type)
      (createMessage data type tsNs) := by
  rw [createMessage, dif_pos hdata]
  exact .ok ⟨rfl, rfl, rfl⟩

theorem Message.Fits.of_control {msg : Message} (hmsg : msg.type ≠ msgTypeNormal)
    (hdrain : msg.type ≠ drainStart) : msg.Fits base master peer :=
  ⟨fun h => absurd h hmsg, fun h => absurd h hdrain⟩

theorem sendControl_sound {type : UInt8} (hn : n.Sound base master peer noWrap)
    (htype : type ≠ msgTypeNormal ∧ type ≠ drainStart) :
    KeepsSound base master peer noWrap (sendControl n type) := by
  rw [sendControl]
  refine hn.time.bind ?_
  rintro _ rfl
  refine (createMessage_meets [] type n.universalTime (Nat.zero_le _)).bind ?_
  rintro msg ⟨_, _, rfl⟩
  exact .ok (hn.send (.of_control htype.1 htype.2))

theorem wwtSend_sound {data : List UInt8} (hn : n.Sound base master peer noWrap)
    (hdata : 0 < data.length ∧ data.length ≤ maxMsgSize) :
    KeepsSound base master peer noWrap (wwtSend n data) := by
  rw [wwtSend]
  refine hn.time.bind ?_
  rintro _ rfl
  refine (createMessage_meets data msgTypeNormal _ hdata.2).bind ?_
  rintro msg ⟨hlen, _, htype⟩
  have hlogged := hn.logs
    (e := .wwtSend n.wwt.currentQuantumRound n.universalTime data) (by intro _ _ _ h; cases h)
  rw [pdesEngineSend, if_neg hlogged.synced]
  exact .ok (hlogged.send
    ⟨fun _ => hlen ▸ hdata.1, fun h => absurd (htype.symm.trans h) (by decide)⟩)

theorem sendSync_sound (hn : n.Sound base master peer noWrap) :
    KeepsSound base master peer noWrap (sendSync n) := by
  have hshort : (bytesLE 8 n.wwt.currentQuantumRound).length ≤ maxMsgSize := by
    rw [length_bytesLE]
    decide
  rw [sendSync]
  refine hn.time.bind ?_
  rintro _ rfl
  refine (createMessage_meets _ msgTypeSync n.universalTime hshort).bind ?_
  rintro msg ⟨_, _, htype⟩
  rw [pdesEngineSend, if_neg hn.synced]
  exact .ok (hn.send (.of_control (by rw [htype]; decide) (by rw [htype]; decide)))

theorem notifyNeighborsForDrain_sound (hn : n.Sound base master peer noWrap)
    (hneeds : n.engine.needsToCheckpoint = true) :
    KeepsSound base master peer noWrap (Prod.snd <$> notifyNeighborsForDrain n
      n.engine.checkpointName n.engine.checkpointFormat) := by
  obtain ⟨hrole, hname, hformat⟩ := hn.asked hneeds
  by_cases hnotified : n.engine.notifiedNeighbors = true
  · rw [notifyNeighborsForDrain, if_neg (by simp [hneeds]), if_pos hnotified]
    exact .ok hn
  · rw [Bool.not_eq_true] at hnotified
    have hfits : (drainPayload n.engine.checkpointName n.engine.checkpointFormat
        n.wwt.currentQuantumRound).length ≤ snapshotNameDataSize := by
      rw [length_drainPayload, hname]
      cases master <;> decide
    obtain ⟨msg, htype, hlen, hdata, hsend⟩ :=
      notifyNeighborsForDrain_sends n.engine.checkpointFormat hneeds hnotified hn.setup hfits
    rw [hname, hformat] at hdata
    rw [hsend]
    have hset : ({ n with engine.notifiedNeighbors := true } : Node).Sound base master peer noWrap :=
      hn.congr rfl
    exact .ok (hset.send ⟨fun h => absurd (htype.symm.trans h) (by decide),
      fun _ => ⟨hrole, hlen, _, hn.round, hdata⟩⟩)

/-- The request is passed on where `quanta_sync` and `sync_checkpoint_check` do it. -/
theorem drain_sound {needed : Prop} [Decidable needed] (hn : n.Sound base master peer noWrap)
    (hneeded : needed → n.engine.needsToCheckpoint = true) :
    KeepsSound base master peer noWrap (if needed then Prod.snd <$> notifyNeighborsForDrain n
      n.engine.checkpointName n.engine.checkpointFormat else .ok n) :=
  .ite (fun h => notifyNeighborsForDrain_sound hn (hneeded h)) fun _ => .ok hn

theorem sendEndIfHandshakeComplete_sound (hn : n.Sound base master peer noWrap) :
    KeepsSound base master peer noWrap (sendEndIfHandshakeComplete n) := by
  rw [sendEndIfHandshakeComplete]
  refine .ite (fun _ => .ok hn) fun _ => .ite (fun _ => .ok hn) fun _ => ?_
  exact sendControl_sound (hn.congr rfl) (by decide)

theorem notifyNeighboursOfEnd_sound (hn : n.Sound base master peer noWrap) :
    KeepsSound base master peer noWrap (notifyNeighboursOfEnd n) := by
  rw [notifyNeighboursOfEnd]
  exact .ite (fun _ => .ok hn) fun _ => sendEndIfHandshakeComplete_sound (hn.congr rfl)

theorem pdesEngineDestroy_sound (hn : n.Sound base master peer noWrap) :
    KeepsSound base master peer noWrap (pdesEngineDestroy n) := by
  rw [pdesEngineDestroy]
  refine (notifyNeighboursOfEnd_sound hn).bind fun n₁ hn₁ => ?_
  exact .ite (fun _ => .ok (hn₁.congr rfl)) fun _ => .ok (hn₁.congr rfl)

theorem grantPermission_sound (hn : n.Sound base master peer noWrap) :
    KeepsSound base master peer noWrap (grantPermission n) := by
  rw [grantPermission]
  have hset : ({ n with engine.permittedToExit := true } : Node).Sound base master peer noWrap :=
    hn.congr rfl
  exact (sendControl_sound hset (by decide)).bind fun _ => sendEndIfHandshakeComplete_sound

theorem canStop_sound (hn : n.Sound base master peer noWrap) :
    Meets (· ∉ callerFaults) (fun r => r.2.Sound base master peer noWrap) (canStop n) := by
  have hcalled := hn.logs (e := .canStop) (by intro _ _ _ h; cases h)
  rw [canStop]
  refine Meets.bind (p := Node.Sound base master peer noWrap) ?_ fun n₁ hn₁ => .ok (hn₁.congr rfl)
  refine .ite (fun _ => .ite (fun _ => ?_) fun _ => .ok hcalled) fun _ =>
    .ite (fun _ => grantPermission_sound hcalled) fun _ => .ok hcalled
  exact (sendControl_sound hcalled (by decide)).bind fun n₁ hn₁ => .ok (hn₁.congr rfl)

theorem wwtSyncCheckMaster_sound (hn : n.Sound base master peer noWrap) :
    KeepsSound base master peer noWrap (wwtSyncCheckMaster n) := by
  rw [wwtSyncCheckMaster]
  exact .ite (fun _ => .ite (fun _ => grantPermission_sound hn) fun _ => .ok hn) fun _ => .ok hn

/-- The master requests the checkpoint under its own name. -/
theorem setCheckpointValuesForMaster_sound (hn : n.Sound base master peer noWrap)
    (hmaster : n.engine.master = true) (hflag : 1 ≤ n.engine.initFlag) :
    (setCheckpointValuesForMaster n).Sound base master peer noWrap := by
  have hrole : master = true := hn.role.symm.trans hmaster
  have hlogged := hn.logs (e := .setCheckpointValues n.wwt.currentQuantumRound)
    (by intro _ _ _ h; cases h)
  refine { hlogged with asked := fun _ => ⟨Or.inl hrole, ?_, hn.format⟩, counted := fun _ _ _ => hflag }
  rw [hrole]
  rfl

theorem finishInitiateCheckpoint_sound (hn : n.Sound base master peer noWrap) :
    KeepsSound base master peer noWrap (finishInitiateCheckpoint n) := by
  have hset : ({ n with engine.masterInit := true } : Node).Sound base master peer noWrap :=
    hn.congr rfl
  simp only [finishInitiateCheckpoint]
  refine .ite (fun hmaster => .ite (fun hflag => .ok ?_) fun _ => .ok hset) fun _ =>
    sendControl_sound hn (by decide)
  exact setCheckpointValuesForMaster_sound hset hmaster hflag

theorem saveCheckpoint_sound (hn : n.Sound base master peer noWrap)
    (hneeds : n.engine.needsToCheckpoint = true) :
    (saveCheckpoint n).Sound base master peer noWrap where
  role := hn.role
  format := hn.format
  setup := hn.setup
  synced := hn.synced
  round := hn.round
  asked h := by cases h
  counted _ h := by cases h
  contexts := hn.contexts
  sends := hn.sends
  saves name c r hmem := by
    rcases List.mem_append.mp hmem with hmem | hmem
    · exact hn.saves name c r hmem
    · rw [(Event.saveSnapshot.inj (List.mem_singleton.mp hmem)).1]
      exact (hn.asked hneeds).2.1

theorem createCheckpointBh_sound (exitAfter : Bool) (hn : n.Sound base master peer noWrap) :
    KeepsSound base master peer noWrap (createCheckpointBh exitAfter n) := by
  rw [createCheckpointBh]
  refine .ite (fun _ => .ok hn) fun hneeds => ?_
  have hsaved := saveCheckpoint_sound hn (by simpa using hneeds)
  refine Meets.bind (p := Node.Sound base master peer noWrap) ?_ fun n₁ hn₁ => .ok (hn₁.congr rfl)
  exact .ite (fun _ => pdesEngineDestroy_sound hsaved) fun _ => .ok hsaved

theorem armReceiveContext_sound (hn : n.Sound base master peer noWrap) {msg : Message}
    (htype : msg.type = msgTypeNormal) (hlen : 0 < msg.len) (time : Int) :
    (armReceiveContext n msg time).Sound base master peer noWrap := by
  refine { hn with contexts := ?_ }
  intro ctx hctx
  rcases List.mem_append.mp hctx with hctx | hctx
  · exact hn.contexts ctx hctx
  · rw [List.mem_singleton.mp hctx]
    exact ⟨hlen, htype⟩

theorem wwtReciviedCallback_sound (hn : n.Sound base master peer noWrap) {msg : Message}
    (hmsg : msg.Fits base peer master) :
    KeepsSound base master peer noWrap (wwtReciviedCallback n msg) := by
  rw [wwtReciviedCallback]
  refine hn.time.bind ?_
  rintro _ rfl
  have hround : Fault.wrongQuantumRound ∉ callerFaults := by decide
  have hpast : Fault.timestampInPast ∉ callerFaults := by decide
  refine .ite (fun _ => .ite (fun _ => .error hround) fun _ => .ok (hn.congr rfl)) fun _ =>
    .ite (fun htype => ?_) fun _ => .ok hn
  have harmed (time : Int) := armReceiveContext_sound hn htype (hmsg.packet htype) time
  exact .ite (fun _ => .ite (fun _ => .error hpast) fun _ => .ok (harmed _)) fun _ =>
    .ite (fun _ => .ok (harmed _)) fun _ => .ok (harmed _)

/-- The follower reads the master's name, behind the prefix. -/
theorem requested_sound (hn : n.Sound base master peer noWrap) {msg : Message}
    (hmsg : msg.Fits base peer master) (htype : msg.type = drainStart)
    (hfollower : n.engine.master = false) :
    KeepsSound base master peer noWrap (processMessage n msg) := by
  obtain ⟨hroles, hlen, round, hround, hdata⟩ := hmsg.drain htype
  have hmaster : master = false := hn.role.symm.trans hfollower
  have hpeer : peer = true := by simpa [hmaster] using hroles
  have hnoNul : ∀ b ∈ savedName peer, b ≠ 0 := by
    rw [hpeer, savedName, if_pos rfl, initWarmed]
    simp
  rw [processMessage_drainStart htype hlen hdata hround hnoNul hfollower hn.setup]
  have hlogged := hn.logs (e := .processMessage msg) (by intro _ _ _ h; cases h)
  refine .ok { hlogged with asked := fun _ => ⟨Or.inr hpeer, ?_, rfl⟩, counted := fun _ _ h => ?_ }
  · rw [hpeer, hmaster]
    rfl
  · rw [hmaster] at h
    cases h

theorem receiveCheckpointInitStep_sound (hn : n.Sound base master peer noWrap)
    (hcount : noWrap → n.engine.initFlag < 2 ^ 31 - 1) :
    (receiveCheckpointInitStep n).Sound base master peer noWrap := by
  have hstep : ({ n with engine.initFlag := int32 (n.engine.initFlag + 1) } : Node).Sound base master
      peer noWrap := by
    refine { hn with counted := fun hfits hneeds hmaster => ?_ }
    have hflag := hn.counted hfits hneeds hmaster
    have hbound := hcount hfits
    change 1 ≤ int32 (n.engine.initFlag + 1)
    rw [int32, Int.bmod_def]
    split_ifs <;> omega
  rw [receiveCheckpointInitStep]
  by_cases harms : n.engine.master = true ∧ int32 (n.engine.initFlag + 1) = 1 ∧
      n.engine.masterInit = true
  · rw [if_pos harms]
    exact setCheckpointValuesForMaster_sound hstep harms.1 harms.2.1.ge
  · rw [if_neg harms]
    exact hstep

/-- The arms of the control messages, but for the follower's arm of `DRAIN_START`. -/
theorem processControl_sound (hn : n.Sound base master peer noWrap) {msg : Message}
    (hdrain : msg.type = drainStart → n.engine.master = true)
    (hcount : noWrap → msg.type = checkpointInitStep → n.engine.initFlag < 2 ^ 31 - 1) :
    KeepsSound base master peer noWrap (processControl n msg) := by
  by_cases hinit : msg.type = checkpointInitStep
  · have harm : processControl n msg = .ok (receiveCheckpointInitStep n) := by
      rw [processControl, hinit]
      rfl
    rw [harm]
    exact .ok (receiveCheckpointInitStep_sound hn fun hfits => hcount hfits hinit)
  have hintent : (if msg.type = intentToEndEmulation ∧ n.engine.master then
      { n with engine.readyToExitNeighbors := int32 (n.engine.readyToExitNeighbors + 1) }
      else n : Node).Sound base master peer noWrap := by
    split_ifs
    · exact hn.congr rfl
    · exact hn
  have hend : Fault.endBeforePermission ∉ callerFaults := by decide
  rw [processControl]
  refine Meets.bind (p := Node.Sound base master peer noWrap) ?_ fun n₁ hn₁ => ?_
  · exact .ite (fun _ => sendEndIfHandshakeComplete_sound (hintent.congr rfl)) fun _ => .ok hintent
  refine Meets.bind (p := Node.Sound base master peer noWrap) ?_ fun n₂ hn₂ => ?_
  · exact .ite (fun _ => .ite (fun _ => .error hend) fun _ => .ok (hn₁.congr rfl)) fun _ => .ok hn₁
  refine .ite (fun htype => ?_) fun _ => .ite (fun _ => ?_) fun _ =>
    .ite (fun h => absurd h hinit) fun _ => .ok hn₂
  · have hmaster : n₂.engine.master = true :=
      hn₂.role.trans (hn.role.symm.trans (hdrain htype))
    simp only [receiveDrainStart]
    refine .ite (fun hfollower => ?_) fun _ => .ok (hn₂.congr rfl)
    rw [hmaster] at hfollower
    cases hfollower
  · exact .ite (fun _ => .ok (hn₂.congr rfl)) fun _ => .ok hn₂

theorem processMessage_sound (hn : n.Sound base master peer noWrap) {msg : Message}
    (hmsg : msg.Fits base peer master)
    (hcount : noWrap → msg.type = checkpointInitStep → n.engine.initFlag < 2 ^ 31 - 1) :
    KeepsSound base master peer noWrap (processMessage n msg) := by
  by_cases hasked : msg.type = drainStart ∧ n.engine.master = false
  · exact requested_sound hn hmsg hasked.1 hasked.2
  have hdrain : msg.type = drainStart → n.engine.master = true := fun htype =>
    Bool.eq_true_of_not_eq_false fun hfollower => hasked ⟨htype, hfollower⟩
  have hlogged := hn.logs (e := .processMessage msg) (by intro _ _ _ h; cases h)
  have hcallback := wwtReciviedCallback_sound hlogged hmsg
  rw [processMessage]
  refine Meets.bind (p := fun n' => n'.Sound base master peer noWrap ∧ n'.engine = n.engine)
    ⟨fun n' h => ⟨hcallback.result n' h, (wwtReciviedCallback_frame h).1⟩, hcallback.failure⟩ ?_
  rintro n' ⟨hn', hengine⟩
  exact processControl_sound hn' (hengine ▸ hdrain) (hengine ▸ hcount)

theorem processMessageAtVirtualTime_sound (hn : n.Sound base master peer noWrap)
    {ctx : MessageReceiveContext} (hctx : 0 < ctx.msg.len ∧ ctx.msg.type = msgTypeNormal) :
    KeepsSound base master peer noWrap (processMessageAtVirtualTime n ctx) := by
  have hpacket : 0 < ctx.msg.len ∧ ctx.msg.type ≠ msgTypeSync :=
    ⟨hctx.1, by rw [hctx.2]; decide⟩
  rw [processMessageAtVirtualTime, if_pos hpacket]
  exact .ok (hn.logs (by intro _ _ _ h; cases h))

theorem pdesPause_sound (hn : n.Sound base master peer noWrap) :
    KeepsSound base master peer noWrap (pdesPause n) := by
  have hpause : Fault.pauseBhNotNull ∉ callerFaults := by decide
  rw [pdesPause]
  exact .ite (fun _ => .error hpause) fun _ => .ok (hn.congr rfl)

theorem quantaSync_sound (hn : n.Sound base master peer noWrap) :
    KeepsSound base master peer noWrap (quantaSync n) := by
  have hset : ({ n with wwt.finishedQuantum := true } : Node).Sound base master peer noWrap :=
    hn.congr rfl
  rw [quantaSync]
  refine Meets.bind (p := Node.Sound base master peer noWrap) ?_ fun n₁ hn₁ => .ok (hn₁.congr rfl)
  exact .ite (fun _ => pdesPause_sound hset) fun _ => .ok hset

theorem quantaSyncFinish_sound (hn : n.Sound base master peer noWrap) :
    KeepsSound base master peer noWrap (quantaSyncFinish n) := by
  have hcheck : Fault.syncCheckTimerNotNull ∉ callerFaults := by decide
  rw [quantaSyncFinish]
  refine (drain_sound hn fun h => h.1).bind fun n₁ hn₁ => ?_
  refine Meets.bind (p := Node.Sound base master peer noWrap) ?_ fun n₂ hn₂ => ?_
  · exact .ite (fun _ => sendSync_sound hn₁) fun _ => .ok hn₁
  · exact .ite (fun _ => .error hcheck) fun _ => .ok (hn₂.congr rfl)

theorem syncCheckpointCheck_sound (hn : n.Sound base master peer noWrap) :
    Meets (· ∉ callerFaults) (fun r => r.2.Sound base master peer noWrap) (syncCheckpointCheck n) := by
  have hpassed : Fault.checkpointRoundPassed ∉ callerFaults := by decide
  rw [syncCheckpointCheck]
  refine .ite (fun hneeds => ?_) fun _ => .ok hn
  refine (drain_sound hn fun _ => hneeds).bind fun n₁ hn₁ => ?_
  exact .ite (fun _ => .ok hn₁) fun _ => .ite (fun _ => .ok (hn₁.congr rfl)) fun _ => .error hpassed

theorem beginQuantum_sound (hn : n.Sound base master peer noWrap) :
    (beginQuantum n).Sound base master peer noWrap := by
  have hbegin : (beginQuantum n).soundFields = { n with
      wwt.currentQuantumRound := (n.wwt.currentQuantumRound + 1) % 2 ^ 64 }.soundFields := by
    rw [beginQuantum]
    split_ifs <;> rfl
  have hnext : ({ n with wwt.currentQuantumRound := (n.wwt.currentQuantumRound + 1) % 2 ^ 64 } :
      Node).Sound base master peer noWrap :=
    { hn with round := Nat.mod_lt _ (by decide) }
  exact hnext.congr hbegin

theorem wwtSyncCheckFinish_sound (hn : n.Sound base master peer noWrap) :
    KeepsSound base master peer noWrap (wwtSyncCheckFinish n) := by
  have hset : ({ n with engine.skipBoundryCheckAfterCheckpoint := false } : Node).Sound base master
      peer noWrap := hn.congr rfl
  rw [wwtSyncCheckFinish]
  refine (syncCheckpointCheck_sound hset).bind fun r hr => ?_
  obtain ⟨held, n₁⟩ := r
  refine .ite (fun _ => .ok hr) fun _ => ?_
  have hfree : ({ n₁ with wwt.syncCheckTimer := .null } : Node).Sound base master peer noWrap :=
    Node.Sound.congr hr rfl
  exact (wwtSyncCheckMaster_sound hfree).bind fun n₂ hn₂ => .ok (beginQuantum_sound hn₂)

theorem pollReturn_sound (hn : n.Sound base master peer noWrap) (site : PollSite) :
    KeepsSound base master peer noWrap (pollReturn n site) := by
  have hleft : ({ n with site := none } : Node).Sound base master peer noWrap := hn.congr rfl
  have hfinished : Fault.finishedBeforePermission ∉ callerFaults := by decide
  cases site with
  | timer => exact .ok hleft
  | quantaSync => exact quantaSyncFinish_sound hleft
  | isWaiting => exact .ite (fun _ => .ok (hn.congr rfl)) fun _ => wwtSyncCheckFinish_sound hleft
  | waitLoop =>
      exact .ite (fun _ => .ite (fun _ => .error hfinished) fun _ => pdesEngineDestroy_sound hleft)
        fun _ => .ok (hn.congr rfl)

/-! ### A step of the node -/

/-- A guest's packet fits a message and is not empty. -/
def Action.PacketFits : Action → Prop
  | .wwtSend data => 0 < data.length ∧ data.length ≤ maxMsgSize
  | _ => True

instance (a : Action) : Decidable a.PacketFits :=
  match a with
  | .wwtSend _ => inferInstanceAs (Decidable (_ ∧ _))
  | .setup | .advance _ | .deliver _ | .pollTimer | .pollMessage | .pollReturn | .quantaSync
  | .syncCheck | .pauseBh | .checkpointBh | .commSend | .finishInitiateCheckpoint | .canStop
  | .notifyNeighboursOfEnd | .engineDestroy => .isTrue trivial

/-- The halts of a step that are not one of the faults of a call. -/
def Halt.Allowed : Halt → Prop
  | .disabled => True
  | .fault f => f ∉ callerFaults

theorem callback_sound {enabled : Prop} [Decidable enabled] {result : Except Fault Node}
    (h : KeepsSound base master peer noWrap result) :
    Meets Halt.Allowed (Node.Sound base master peer noWrap) (callback enabled result) :=
  .ite (fun _ => h.mapError fun _ hf => hf) fun _ => .error trivial

theorem act_sound (hn : n.Sound base master peer noWrap) {a : Action} (ha : a.PacketFits) :
    Meets Halt.Allowed (Node.Sound base master peer noWrap) (n.act a) := by
  cases a with
  | setup =>
      refine callback_sound (.ok { hn with setup := ?_ })
      change (n.virtualClock : Int) ≠ -1
      omega
  | advance t => exact callback_sound (.ok (hn.congr rfl))
  | wwtSend data => exact callback_sound (wwtSend_sound hn ha)
  | deliver k =>
      rw [Node.act]
      split
      · exact .error trivial
      · rename_i ctx hctx
        have hremoved : ({ n with receiveContexts := n.receiveContexts.eraseIdx k } : Node).Sound base
            master peer noWrap :=
          { hn with contexts := fun c hc => hn.contexts c (List.mem_of_mem_eraseIdx hc) }
        exact callback_sound
          (processMessageAtVirtualTime_sound hremoved (hn.contexts ctx (List.mem_of_getElem? hctx)))
  | pollTimer => exact callback_sound (.ok (hn.congr rfl))
  | pollMessage => exact .error trivial
  | pollReturn =>
      rw [Node.act]
      split
      · exact .error trivial
      · exact callback_sound (pollReturn_sound hn _)
  | quantaSync => exact callback_sound (quantaSync_sound (hn.congr rfl))
  | syncCheck => exact callback_sound (.ok (hn.congr rfl))
  | pauseBh => exact callback_sound (.ok (hn.congr rfl))
  | checkpointBh =>
      rw [Node.act]
      split
      · exact .error trivial
      · exact callback_sound (createCheckpointBh_sound _ (hn.congr rfl))
  | commSend => exact .error trivial
  | finishInitiateCheckpoint => exact callback_sound (finishInitiateCheckpoint_sound hn)
  | canStop => exact callback_sound ((canStop_sound hn).map fun _ hr => hr)
  | notifyNeighboursOfEnd => exact callback_sound (notifyNeighboursOfEnd_sound hn)
  | engineDestroy => exact callback_sound (pdesEngineDestroy_sound hn)

end

end LeanPdes
