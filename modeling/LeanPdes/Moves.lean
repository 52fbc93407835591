import LeanPdes.Control

/-! What a node with sync on can do in one step. `Move` and `Receive` list every outcome of the
callbacks and of one received message, with what the step has checked; the invariants go by cases on
them and do not look into the functions again. -/

namespace LeanPdes

open Words TwoParty Reach

theorem getUniversalVirtualTime_ok {n : Node} {t : Int} (h : getUniversalVirtualTime n = .ok t) :
    t = n.universalTime := by
  rw [getUniversalVirtualTime] at h
  split_ifs at h
  cases h
  rfl

/-- The message of a packet that the guest sends now. -/
def Node.packet (n : Node) (data : List UInt8) : Except Fault Message :=
  createMessage data msgTypeNormal (int64 (n.universalTime + n.wwt.latencyns))

/-- The node with the guest's call of `wwt_send` in its log. -/
def Node.logSend (n : Node) (data : List UInt8) : Node :=
  { n with log := n.log ++ [.wwtSend n.wwt.currentQuantumRound n.universalTime data] }

theorem wwtSend_ok {n n' : Node} {data : List UInt8} (h : wwtSend n data = .ok n') :
    ∃ msg, n.packet data = .ok msg ∧ n' = pdesCommSend (n.logSend data) msg := by
  rw [wwtSend, bind_eq_ok] at h
  obtain ⟨t, ht, h⟩ := h
  rw [getUniversalVirtualTime_ok ht] at h
  obtain ⟨msg, hmsg, h⟩ := bind_eq_ok.mp h
  have htype : msg.type = msgTypeNormal := (createMessage_ok hmsg).2.2.2
  rw [pdesEngineSend] at h
  split_ifs at h with hfirst hsync
  · rw [htype] at hsync
    exact absurd hsync (by decide)
  · cases h
    exact ⟨msg, hmsg, rfl⟩

/-- The SYNC message of the node's round. -/
def Node.syncMessage (n : Node) : Except Fault Message :=
  createMessage (bytesLE 8 n.wwt.currentQuantumRound) msgTypeSync n.universalTime

theorem sendSync_ok {n n' : Node} (h : sendSync n = .ok n') :
    ∃ time msg, n.syncMessage = .ok msg ∧
      n' = pdesCommSend { n with engine.firstSyncTime := time } msg := by
  rw [sendSync, bind_eq_ok] at h
  obtain ⟨t, ht, h⟩ := h
  rw [getUniversalVirtualTime_ok ht] at h
  obtain ⟨msg, hmsg, h⟩ := bind_eq_ok.mp h
  rw [pdesEngineSend] at h
  split_ifs at h
  · cases h
    exact ⟨n.virtualClock, msg, hmsg, rfl⟩
  · cases h
    exact ⟨n.engine.firstSyncTime, msg, hmsg, rfl⟩

theorem Control.syncMessage {n n' : Node} (h : Control n n') : n'.syncMessage = n.syncMessage := by
  rw [Node.syncMessage, Node.syncMessage, Node.universalTime, Node.universalTime, h.wwt, h.clock,
    h.bias]

/-- The node after a callback of `sync_check_timer` has been scheduled again. -/
def Node.recheck (n : Node) : Node := { n with wwt.syncCheckTimer := .armed () }

/-- The node at the poll of `quanta_sync`. -/
def Node.enterQuantaSync (n : Node) : Node :=
  { n with
    wwt.quantumTimer := .stopped
    wwt.finishedQuantum := true
    engine.paused := true
    engine.pauseBh := true
    site := some .quantaSync }

/-- What `quanta_sync` may change up to its poll, whether or not the quanta are synchronised. -/
theorem quantaSync_changes {n n' : Node} (h : quantaSync n = .ok n') :
    ∃ paused pauseBh, n' = { n with
      wwt.finishedQuantum := true
      engine.paused := paused
      engine.pauseBh := pauseBh
      site := some .quantaSync } := by
  rw [quantaSync, bind_eq_ok] at h
  obtain ⟨n₁, hpause, h⟩ := h
  cases h
  split_ifs at hpause
  · rw [pdesPause] at hpause
    split_ifs at hpause
    cases hpause
    exact ⟨true, true, rfl⟩
  · cases hpause
    exact ⟨n.engine.paused, n.engine.pauseBh, rfl⟩

theorem quantaSync_ok {n n' : Node} (hsync : n.wwt.shouldSync = true)
    (h : quantaSync { n with wwt.quantumTimer := .stopped } = .ok n') :
    n' = n.enterQuantaSync := by
  rw [quantaSync, bind_eq_ok] at h
  obtain ⟨n₁, hpause, h⟩ := h
  rw [if_pos hsync, pdesPause] at hpause
  split_ifs at hpause
  cases hpause
  cases h
  rfl

theorem map_snd_eq_ok {α β ε : Type} {x : Except ε (α × β)} {b : β}
    (h : Prod.snd <$> x = .ok b) : ∃ a, x = .ok (a, b) := by
  cases x with
  | error e => cases h
  | ok ab =>
      obtain ⟨a, b'⟩ := ab
      cases h
      exact ⟨a, rfl⟩

/-- The request for the drain, where `quanta_sync` and `sync_checkpoint_check` make it. -/
theorem drain_cases {n n' : Node} {needed : Prop} [Decidable needed]
    (h : (if needed then Prod.snd <$> notifyNeighborsForDrain n n.engine.checkpointName
      n.engine.checkpointFormat else .ok n) = .ok n') :
    (needed ∧ ∃ r, notifyNeighborsForDrain n n.engine.checkpointName n.engine.checkpointFormat =
      .ok (r, n')) ∨ (¬needed ∧ n' = n) := by
  split_ifs at h with hneeded
  · exact Or.inl ⟨hneeded, map_snd_eq_ok h⟩
  · cases h
    exact Or.inr ⟨hneeded, rfl⟩

theorem drain_control {n n' : Node} {needed : Prop} [Decidable needed]
    (h : (if needed then Prod.snd <$> notifyNeighborsForDrain n n.engine.checkpointName
      n.engine.checkpointFormat else .ok n) = .ok n') : Control n n' := by
  rcases drain_cases h with ⟨_, r, hdrain⟩ | ⟨_, rfl⟩
  · exact notifyNeighborsForDrain_control hdrain
  · exact .refl n'

theorem quantaSyncFinish_ok {n n' : Node} (hsync : n.wwt.shouldSync = true)
    (h : quantaSyncFinish n = .ok n') :
    ∃ n₁ msg, Control n n₁ ∧ n.syncMessage = .ok msg ∧ n' = (pdesCommSend n₁ msg).recheck := by
  rw [quantaSyncFinish, bind_eq_ok] at h
  obtain ⟨n₁, hdrain, h⟩ := h
  have hn₁ := drain_control hdrain
  have hsync₁ : n₁.wwt.shouldSync = true := by rw [hn₁.wwt]; exact hsync
  simp only [hsync₁, if_true] at h
  obtain ⟨n₂, hsend, h⟩ := bind_eq_ok.mp h
  obtain ⟨time, msg, hmsg, rfl⟩ := sendSync_ok hsend
  have hfirst : Control n₁ { n₁ with engine.firstSyncTime := time } := .engine _ rfl rfl rfl rfl
  split_ifs at h
  cases h
  exact ⟨_, msg, hn₁.trans hfirst, by rw [← hn₁.syncMessage]; exact hmsg, rfl⟩

/-- `sync_checkpoint_check` lets go of a round before that of the checkpoint and holds the round
of the checkpoint itself. -/
theorem syncCheckpointCheck_cases {n n' : Node} {held : Bool}
    (h : syncCheckpointCheck n = .ok (held, n')) :
    (n.engine.needsToCheckpoint = false ∧ held = false ∧ n' = n) ∨
      (n.engine.needsToCheckpoint = true ∧ ∃ n₁,
        (if !n.engine.notifiedNeighbors then
          Prod.snd <$> notifyNeighborsForDrain n n.engine.checkpointName n.engine.checkpointFormat
        else .ok n) = .ok n₁ ∧
        ((held = false ∧ n' = n₁ ∧
            n₁.wwt.currentQuantumRound < n₁.engine.checkpointQuantumRound) ∨
          (held = true ∧ n' = (scheduleCheckpointBh n₁).recheck ∧
            (n₁.wwt.currentQuantumRound = n₁.engine.checkpointQuantumRound ∨
              n₁.wwt.shouldSync = false)))) := by
  rw [syncCheckpointCheck] at h
  split at h
  · rename_i hneeds
    obtain ⟨n₁, hdrain, h⟩ := bind_eq_ok.mp h
    refine Or.inr ⟨hneeds, n₁, hdrain, ?_⟩
    split_ifs at h with hbelow hat
    · cases h
      exact Or.inl ⟨rfl, rfl, hbelow.1⟩
    · cases h
      exact Or.inr ⟨rfl, rfl, by simpa using hat⟩
  · rename_i hneeds
    cases h
    exact Or.inl ⟨by simpa using hneeds, rfl, rfl⟩

/-- `sync_checkpoint_check` holds the round only at the round of the checkpoint. -/
theorem syncCheckpointCheck_ok {n n' : Node} {held : Bool}
    (h : syncCheckpointCheck n = .ok (held, n')) :
    (held = false ∧ Control n n') ∨ (held = true ∧ ∃ n₁, Control n n₁ ∧ n' = n₁.recheck) := by
  rcases syncCheckpointCheck_cases h with ⟨_, rfl, rfl⟩ | ⟨_, n₁, hdrain, hend⟩
  · exact Or.inl ⟨rfl, .refl n'⟩
  · have hn₁ := drain_control hdrain
    rcases hend with ⟨rfl, rfl, _⟩ | ⟨rfl, rfl, _⟩
    · exact Or.inl ⟨rfl, hn₁⟩
    · have hbh : Control n₁ (scheduleCheckpointBh n₁) := .engine _ rfl rfl rfl rfl
      exact Or.inr ⟨rfl, scheduleCheckpointBh n₁, hn₁.trans hbh, rfl⟩

theorem wwtSyncCheckFinish_ok {n n' : Node} (h : wwtSyncCheckFinish n = .ok n') :
    ∃ n₁, Control n n₁ ∧
      (n' = n₁.recheck ∨ (n₁.wwt.syncCheckTimer = .null ∧ n' = beginQuantum n₁)) := by
  rw [wwtSyncCheckFinish, bind_eq_ok] at h
  obtain ⟨⟨held, n₁⟩, hcheck, h⟩ := h
  have hskip : Control n { n with engine.skipBoundryCheckAfterCheckpoint := false } :=
    .engine _ rfl rfl rfl rfl
  rcases syncCheckpointCheck_ok hcheck with ⟨rfl, hn₁⟩ | ⟨rfl, n₂, hn₂, rfl⟩
  · obtain ⟨n₂, hmaster, h⟩ := bind_eq_ok.mp h
    cases h
    have hfree : Control n₁ { n₁ with wwt.syncCheckTimer := .null } := destroyStrategy_control n₁
    have hn₂ := control_frame.wwtSyncCheckMaster hmaster
    have hnull : n₂.wwt.syncCheckTimer = .null := by
      rcases hn₂.check with hcheck | hcheck <;> exact hcheck
    exact ⟨n₂, ((hskip.trans hn₁).trans hfree).trans hn₂, Or.inr ⟨hnull, rfl⟩⟩
  · cases h
    exact ⟨n₂, hskip.trans hn₂, Or.inl rfl⟩

/-- The end of a quantum's time, on the node's own clock. -/
def Node.quantumEnd (n : Node) (round : Nat) : Int :=
  int64 (int64 ((round : Int) * n.wwt.quantumNs) + n.engine.firstSyncVirtualTime)

theorem beginQuantum_of_sync {n : Node} (hsync : n.wwt.shouldSync = true)
    (hround : n.wwt.currentQuantumRound < 2 ^ 32) :
    beginQuantum n = { n with
      wwt.numberOfNeighborsFinished :=
        int64 (n.wwt.numberOfNeighborsFinished - n.wwt.numberOfNeighbors)
      wwt.currentQuantumRound := n.wwt.currentQuantumRound + 1
      wwt.finishedQuantum := false
      wwt.quantumTimer := timerMod (n.quantumEnd (n.wwt.currentQuantumRound + 1))
      engine.paused := false } := by
  have hmod : (n.wwt.currentQuantumRound + 1) % 2 ^ 64 = n.wwt.currentQuantumRound + 1 := by omega
  simp only [beginQuantum, hsync, if_true, pdesPlay, hmod, Node.quantumEnd]

@[simp] theorem beginQuantum_ring (n : Node) : (beginQuantum n).ring = n.ring := by
  rw [beginQuantum]
  split_ifs <;> rfl

@[simp] theorem beginQuantum_log (n : Node) : (beginQuantum n).log = n.log := by
  rw [beginQuantum]
  split_ifs <;> rfl

@[simp] theorem beginQuantum_sending (n : Node) : (beginQuantum n).sending = n.sending := by
  rw [beginQuantum]
  split_ifs <;> rfl

@[simp] theorem beginQuantum_site (n : Node) : (beginQuantum n).site = n.site := by
  rw [beginQuantum]
  split_ifs <;> rfl

@[simp] theorem beginQuantum_virtualClock (n : Node) :
    (beginQuantum n).virtualClock = n.virtualClock := by
  rw [beginQuantum]
  split_ifs <;> rfl

@[simp] theorem beginQuantum_receiveContexts (n : Node) :
    (beginQuantum n).receiveContexts = n.receiveContexts := by
  rw [beginQuantum]
  split_ifs <;> rfl

@[simp] theorem beginQuantum_firstSyncVirtualTime (n : Node) :
    (beginQuantum n).engine.firstSyncVirtualTime = n.engine.firstSyncVirtualTime := by
  rw [beginQuantum]
  split_ifs <;> rfl

theorem beginQuantum_emits {n n' : Node} {evs : List Event} (he : Emits n n' evs) :
    Emits n (beginQuantum n') evs := by
  refine ⟨?_, ?_, ?_⟩
  · rw [beginQuantum_ring, he.ring]
  · rw [beginQuantum_log, he.log]
  · rw [beginQuantum_sending, he.sending]

/-- The outcomes of a callback of a node with sync on. -/
inductive Move (n : Node) : Action → Node → Prop
  | control {a : Action} {n' : Node} (h : Control n n') : Move n a n'
  | setup (hnull : n.wwt.quantumTimer = .null) : Move n .setup (setupWwt n)
  | advance {t : Nat} (hle : n.virtualClock ≤ t) (hlt : t < 2 ^ 63) :
      Move n (.advance t) { n with virtualClock := t }
  | wwtSend {data : List UInt8} {msg : Message} (hmsg : n.packet data = .ok msg) :
      Move n (.wwtSend data) (pdesCommSend (n.logSend data) msg)
  | deliver {k : Nat} {ctx : MessageReceiveContext} (hctx : n.receiveContexts[k]? = some ctx) :
      Move n (.deliver k) { n with
        receiveContexts := n.receiveContexts.eraseIdx k
        log := n.log ++ [.recvCb n.universalTime (ctx.msg.bytes 0 ctx.msg.len)] }
  | pollTimer (hsite : n.site = none) : Move n .pollTimer { n with site := some .timer }
  | pollDone (hsite : n.site = some .timer) : Move n .pollReturn { n with site := none }
  | quantaSync (hsite : n.site = none) (harmed : n.wwt.quantumTimer.isArmed = true) :
      Move n .quantaSync n.enterQuantaSync
  /-- The SYNC of the round is sent. -/
  | arrive (hsite : n.site = some .quantaSync) {n₁ : Node} (h : Control { n with site := none } n₁)
      {msg : Message} (hmsg : n.syncMessage = .ok msg) :
      Move n .pollReturn (pdesCommSend n₁ msg).recheck
  | syncCheck (hsite : n.site = none) (harmed : n.wwt.syncCheckTimer.isArmed = true) :
      Move n .syncCheck { n with wwt.syncCheckTimer := .stopped, site := some .isWaiting }
  | wait (hsite : n.site = some .isWaiting) (hwaiting : n.waiting = true) :
      Move n .pollReturn { n with site := some .waitLoop }
  | again (hsite : n.site = some .waitLoop) : Move n .pollReturn { n with site := some .isWaiting }
  /-- The wait loop ends because the neighbour has finished. -/
  | leave (hsite : n.site = some .waitLoop) {n' : Node} (h : Control { n with site := none } n') :
      Move n .pollReturn n'
  /-- The round is held for a checkpoint. -/
  | hold (hsite : n.site = some .isWaiting) {n₁ : Node} (h : Control { n with site := none } n₁) :
      Move n .pollReturn n₁.recheck
  | pass (hsite : n.site = some .isWaiting) (hwaiting : n.waiting = false) {n₁ : Node}
      (h : Control { n with site := none } n₁) (hcheck : n₁.wwt.syncCheckTimer = .null) :
      Move n .pollReturn (beginQuantum n₁)

theorem pollReturn_move {n n' : Node} {site : PollSite} (hsync : n.wwt.shouldSync = true)
    (hsite : n.site = some site) (h : pollReturn n site = .ok n') : Move n .pollReturn n' := by
  cases site with
  | timer =>
      cases h
      exact .pollDone hsite
  | quantaSync =>
      rw [pollReturn] at h
      have hsync' : ({ n with site := none } : Node).wwt.shouldSync = true := hsync
      obtain ⟨n₁, msg, hn₁, hmsg, rfl⟩ := quantaSyncFinish_ok hsync' h
      exact .arrive hsite hn₁ hmsg
  | isWaiting =>
      rw [pollReturn] at h
      split at h
      · rename_i hwaiting
        cases h
        exact .wait hsite hwaiting
      · rename_i hwaiting
        rw [Bool.not_eq_true] at hwaiting
        obtain ⟨n₁, hn₁, rfl | ⟨hcheck, rfl⟩⟩ := wwtSyncCheckFinish_ok h
        · exact .hold hsite hn₁
        · exact .pass hsite hwaiting hn₁ hcheck
  | waitLoop =>
      rw [pollReturn] at h
      split_ifs at h
      · exact .leave hsite (pdesEngineDestroy_control h)
      · cases h
        exact .again hsite

theorem callback_ok {enabled : Prop} [Decidable enabled] {result : Except Fault Node} {n : Node} :
    callback enabled result = .ok n ↔ enabled ∧ result = .ok n := by
  rw [callback]
  split_ifs with henabled
  · cases result <;> simp [Except.mapError, henabled]
  · simp [henabled]

/-- A one-time timer fires and hands its packet to the consumer. -/
theorem act_deliver {n n' : Node} {k : Nat} (h : n.act (.deliver k) = .ok n') :
    ∃ ctx, n.receiveContexts[k]? = some ctx ∧ n' = { n with
      receiveContexts := n.receiveContexts.eraseIdx k
      log := n.log ++ [.recvCb n.universalTime (ctx.msg.bytes 0 ctx.msg.len)] } := by
  rw [Node.act] at h
  split at h
  · cases h
  · rename_i ctx hctx
    obtain ⟨_, hn'⟩ := callback_ok.mp h
    rw [processMessageAtVirtualTime] at hn'
    split_ifs at hn'
    cases hn'
    exact ⟨ctx, hctx, rfl⟩

theorem act_pollReturn {n n' : Node} (h : n.act .pollReturn = .ok n') :
    ∃ site, n.site = some site ∧ pollReturn n site = .ok n' := by
  rw [Node.act] at h
  split at h
  · cases h
  · rename_i site hsite
    exact ⟨site, hsite, (callback_ok.mp h).2⟩

theorem act_checkpointBh {n n' : Node} (h : n.act .checkpointBh = .ok n') :
    ∃ bh, n.engine.boundryCheckpointBh = some bh ∧ createCheckpointBh bh.exitAfter
      { n with engine.boundryCheckpointBh := some { bh with scheduled := false } } = .ok n' := by
  rw [Node.act] at h
  split at h
  · cases h
  · rename_i bh hbh
    exact ⟨bh, hbh, (callback_ok.mp h).2⟩

theorem act_canStop {n n' : Node} (h : n.act .canStop = .ok n') : ∃ r, canStop n = .ok (r, n') :=
  map_snd_eq_ok (callback_ok.mp h).2

theorem act_move {n n' : Node} {a : Action} (hsync : n.wwt.shouldSync = true)
    (h : n.act a = .ok n') : Move n a n' := by
  cases a with
  | setup =>
      obtain ⟨⟨_, hnull⟩, hn'⟩ := callback_ok.mp h
      cases hn'
      exact .setup hnull
  | advance t =>
      obtain ⟨⟨hle, hlt⟩, hn'⟩ := callback_ok.mp h
      cases hn'
      exact .advance hle hlt
  | wwtSend data =>
      obtain ⟨_, hn'⟩ := callback_ok.mp h
      obtain ⟨msg, hmsg, rfl⟩ := wwtSend_ok hn'
      exact .wwtSend hmsg
  | deliver k =>
      obtain ⟨ctx, hctx, rfl⟩ := act_deliver h
      exact .deliver hctx
  | pollTimer =>
      obtain ⟨hsite, hn'⟩ := callback_ok.mp h
      cases hn'
      exact .pollTimer hsite
  | pollMessage => cases h
  | pollReturn =>
      obtain ⟨site, hsite, hreturn⟩ := act_pollReturn h
      exact pollReturn_move hsync hsite hreturn
  | quantaSync =>
      obtain ⟨⟨hsite, harmed⟩, hn'⟩ := callback_ok.mp h
      rw [quantaSync_ok hsync hn']
      exact .quantaSync hsite harmed
  | syncCheck =>
      obtain ⟨⟨hsite, harmed⟩, hn'⟩ := callback_ok.mp h
      cases hn'
      exact .syncCheck hsite harmed
  | pauseBh =>
      cases (callback_ok.mp h).2
      exact .control (.engine _ rfl rfl rfl rfl)
  | checkpointBh =>
      obtain ⟨bh, _, hcreate⟩ := act_checkpointBh h
      have htaken : Control n
          { n with engine.boundryCheckpointBh := some { bh with scheduled := false } } :=
        .engine _ rfl rfl rfl rfl
      exact .control (htaken.trans (createCheckpointBh_control hcreate))
  | commSend => cases h
  | finishInitiateCheckpoint =>
      exact .control (finishInitiateCheckpoint_control (callback_ok.mp h).2)
  | canStop =>
      obtain ⟨r, hcall⟩ := act_canStop h
      exact .control (canStop_control hcall)
  | notifyNeighboursOfEnd => exact .control (control_frame.notifyNeighboursOfEnd (callback_ok.mp h).2)
  | engineDestroy => exact .control (pdesEngineDestroy_control (callback_ok.mp h).2)

/-- The node that is about to process a message. -/
def Node.logReceive (n : Node) (msg : Message) : Node :=
  { n with log := n.log ++ [.processMessage msg] }

theorem emits_logReceive (n : Node) (msg : Message) :
    Emits n (n.logReceive msg) [.processMessage msg] := .logs rfl rfl

/-- The node with a SYNC counted. -/
def Node.countSync (n : Node) (msg : Message) : Node :=
  { n.logReceive msg with
    wwt.syncCounts := syncCountIncrement n.wwt.syncCounts msg.syncRound }

/-- The outcomes of `process_message` on a node with sync on. -/
inductive Receive (n : Node) (msg : Message) : Node → Prop
  | sync (htype : msg.type = msgTypeSync) (hvalid : n.ValidRound msg.syncRound) :
      Receive n msg (n.countSync msg)
  | packet (htype : msg.type = msgTypeNormal) (htime : n.universalTime ≤ int64 msg.tsNs) :
      Receive n msg (armReceiveContext (n.logReceive msg) msg (int64 msg.tsNs))
  | control (hmsg : msg.IsControl) {n' : Node} (h : Control (n.logReceive msg) n') :
      Receive n msg n'

theorem wwtReciviedCallback_ok {n n' : Node} {msg : Message} (hsync : n.wwt.shouldSync = true)
    (h : wwtReciviedCallback n msg = .ok n') :
    (msg.type = msgTypeSync ∧ n.ValidRound msg.syncRound ∧
      n' = { n with wwt.syncCounts := syncCountIncrement n.wwt.syncCounts msg.syncRound }) ∨
    (msg.type = msgTypeNormal ∧ n.universalTime ≤ int64 msg.tsNs ∧
      n' = armReceiveContext n msg (int64 msg.tsNs)) ∨
    (msg.IsControl ∧ n' = n) := by
  rw [wwtReciviedCallback, bind_eq_ok] at h
  obtain ⟨t, ht, h⟩ := h
  rw [getUniversalVirtualTime_ok ht] at h
  split at h
  · rename_i htype
    split_ifs at h with hvalid
    cases h
    refine Or.inl ⟨htype, ?_, rfl⟩
    by_contra hnot
    exact hvalid ⟨hsync, hnot⟩
  · rename_i hnotSync
    split at h
    · rename_i htype
      split_ifs at h with htime
      cases h
      exact Or.inr (Or.inl ⟨htype, not_lt.mp htime, rfl⟩)
    · rename_i hnotNormal
      cases h
      exact Or.inr (Or.inr ⟨⟨hnotSync, hnotNormal⟩, rfl⟩)

/-- The processing time of a packet: its timestamp, and with sync off not before the next
nanosecond. -/
def Node.processingTime (n : Node) (msg : Message) : Int :=
  if n.wwt.shouldSync then int64 msg.tsNs
  else if int64 (n.universalTime + 1) < int64 msg.tsNs then int64 msg.tsNs
  else int64 (n.universalTime + 1)

/-- A packet that the node receives gets a one-time timer. -/
theorem wwtReciviedCallback_packet {n n' : Node} {msg : Message} (htype : msg.type = msgTypeNormal)
    (h : wwtReciviedCallback n msg = .ok n') :
    n' = armReceiveContext n msg (n.processingTime msg) := by
  rw [wwtReciviedCallback, bind_eq_ok] at h
  obtain ⟨t, ht, h⟩ := h
  rw [getUniversalVirtualTime_ok ht, if_neg (by rw [htype]; decide), if_pos htype] at h
  rw [Node.processingTime]
  split_ifs at h ⊢ <;> cases h <;> rfl

/-- The callback leaves the engine alone and sends nothing, with sync off too. -/
theorem wwtReciviedCallback_frame {n n' : Node} {msg : Message}
    (h : wwtReciviedCallback n msg = .ok n') :
    n'.engine = n.engine ∧ n'.exitCalled = n.exitCalled ∧ Emits n n' [] := by
  rw [wwtReciviedCallback, bind_eq_ok] at h
  obtain ⟨t, _, h⟩ := h
  split_ifs at h <;> cases h <;> exact ⟨rfl, rfl, .nothing rfl⟩

theorem processControl_of_data {n n' : Node} {msg : Message}
    (htype : msg.type = msgTypeSync ∨ msg.type = msgTypeNormal)
    (h : processControl n msg = .ok n') : n' = n := by
  rcases htype with htype | htype
  all_goals
    rw [processControl, htype] at h
    cases h
    rfl

theorem receiveDrainStart_control {n n' : Node} {msg : Message}
    (h : receiveDrainStart n msg = .ok n') : Control n n' := by
  simp only [receiveDrainStart] at h
  split_ifs at h
  · cases h
    exact .engine _ rfl rfl rfl rfl
  · cases h
    exact .engine _ rfl rfl rfl rfl

theorem receiveCheckpointInitStep_control (n : Node) :
    Control n (receiveCheckpointInitStep n) := by
  rw [receiveCheckpointInitStep]
  have hcount : Control n { n with engine.initFlag := int32 (n.engine.initFlag + 1) } :=
    .engine _ rfl rfl rfl rfl
  split_ifs
  · exact hcount.trans (setCheckpointValuesForMaster_control _)
  · exact hcount

theorem processControl_control {n n' : Node} {msg : Message}
    (h : processControl n msg = .ok n') : Control n n' := by
  rcases control_frame.processControl h with ⟨_, hdrain⟩ | ⟨_, rfl⟩ | ⟨_, hn'⟩
  · exact receiveDrainStart_control hdrain
  · exact receiveCheckpointInitStep_control n
  · exact hn'

theorem processMessage_receive {n n' : Node} {msg : Message} (hsync : n.wwt.shouldSync = true)
    (h : processMessage n msg = .ok n') : Receive n msg n' := by
  rw [processMessage, bind_eq_ok] at h
  obtain ⟨n₁, hcallback, h⟩ := h
  rcases wwtReciviedCallback_ok (n := n.logReceive msg) hsync hcallback with
    ⟨htype, hvalid, rfl⟩ | ⟨htype, htime, rfl⟩ | ⟨hmsg, rfl⟩
  · rw [processControl_of_data (Or.inl htype) h]
    exact .sync htype hvalid
  · rw [processControl_of_data (Or.inr htype) h]
    exact .packet htype htime
  · exact .control hmsg (processControl_control h)

/-! ### The system -/

/-- The outcomes of a step of the system. -/
inductive Next (s : System) : Side × Action → System → Prop
  | commSend {i : Side} {msg : Message} {rest : List Message}
      (hsending : (s i).sending = msg :: rest) :
      Next s (i, .commSend)
        (Function.update s i { s i with sending := rest, ring := (s i).ring ++ [msg] })
  | receive {i : Side} {msg : Message} {rest : List Message} {n' : Node}
      (hidle : (s i).Idle) (hring : (s i.peer).ring = msg :: rest)
      (h : Receive (s i) msg n') :
      Next s (i, .pollMessage)
        (Function.update (Function.update s i.peer { s i.peer with ring := rest }) i n')
  | move {i : Side} {a : Action} {n' : Node} (hidle : (s i).Idle)
      (hring : a = .pollReturn → (s i.peer).ring = []) (h : Move (s i) a n') :
      Next s (i, a) (Function.update s i n')

theorem pdesEnginePoll_eq (n : Node) (site : PollSite) (msg : Message) :
    pdesEnginePoll n site msg = processMessage n msg := by
  have hres := recvResult_nonneg msg
  have hmessage : recvResult msg ≠ noMessage := by
    rw [noMessage]
    omega
  rw [pdesEnginePoll, if_neg hmessage, if_neg (not_lt.mpr hres)]

theorem mapError_eq_ok {α ε ε' : Type} {g : ε → ε'} {x : Except ε α} {a : α} :
    x.mapError g = .ok a ↔ x = .ok a := by
  cases x <;> simp [Except.mapError]

/-- What a step is, with sync on or off: a message enters a ring, a node processes a message, or a node
runs a callback. -/
inductive StepsTo (capacity : Option Nat) (s : System) : Side × Action → System → Prop
  | commSend {i : Side} {msg : Message} {rest : List Message} (hsending : (s i).sending = msg :: rest)
      (hroom : HasRoom capacity (s i).ring) :
      StepsTo capacity s (i, .commSend)
        (Function.update s i { s i with sending := rest, ring := (s i).ring ++ [msg] })
  | receive {i : Side} {msg : Message} {rest : List Message} {n' : Node} (hidle : (s i).Idle)
      (hring : (s i.peer).ring = msg :: rest) (h : processMessage (s i) msg = .ok n') :
      StepsTo capacity s (i, .pollMessage)
        (Function.update (Function.update s i.peer { s i.peer with ring := rest }) i n')
  | callback {i : Side} {a : Action} {n' : Node} (hidle : (s i).Idle)
      (hempty : a = .pollReturn → (s i.peer).ring = []) (h : (s i).act a = .ok n') :
      StepsTo capacity s (i, a) (Function.update s i n')

theorem stepsTo_of_step {capacity : Option Nat} {s s' : System} {ia : Side × Action}
    (h : step capacity s ia = .ok s') : StepsTo capacity s ia s' := by
  obtain ⟨i, a⟩ := ia
  by_cases hsend : a = .commSend
  · subst hsend
    rw [step] at h
    split at h
    · cases h
    · rename_i msg rest hsending
      split_ifs at h with hroom
      cases h
      exact .commSend hsending hroom
  by_cases hpoll : a = .pollMessage
  · subst hpoll
    rw [step] at h
    split at h
    · rename_i site msg rest _ hring
      split_ifs at h with hidle
      obtain ⟨n', hn', h⟩ := bind_eq_ok.mp h
      rw [mapError_eq_ok, pdesEnginePoll_eq] at hn'
      cases h
      exact .receive hidle hring hn'
    · cases h
  · rw [step_callback hsend hpoll] at h
    split_ifs at h with hidle
    obtain ⟨n', hn', h⟩ := bind_eq_ok.mp h
    cases h
    exact .callback hidle.1 hidle.2 hn'

theorem step_next {capacity : Option Nat} {s s' : System} {ia : Side × Action}
    (hsync : ∀ i, (s i).wwt.shouldSync = true) (h : step capacity s ia = .ok s') :
    Next s ia s' := by
  cases stepsTo_of_step h with
  | commSend hsending _ => exact .commSend hsending
  | @receive i msg rest n' hidle hring hn' =>
      exact .receive hidle hring (processMessage_receive (hsync i) hn')
  | @callback i a n' hidle hempty hn' => exact .move hidle hempty (act_move (hsync i) hn')

end LeanPdes
