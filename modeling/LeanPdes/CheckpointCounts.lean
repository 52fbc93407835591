import LeanPdes.Rounds

/-! How often a checkpoint request is answered. On the master `set_checkpoint_values_for_master` sets
the request, on the follower a `DRAIN_START` does; the snapshot clears it, and each request is passed
on at most once. The follower's own `DRAIN_START` reaches the master, which only counts it. -/

namespace LeanPdes

open Words TwoParty Reach

def Message.isDrain (msg : Message) : Bool := msg.type = drainStart

def Event.isArm : Event → Bool
  | .setCheckpointValues _ => true
  | _ => false

def Event.isSave : Event → Bool
  | .saveSnapshot .. => true
  | _ => false

/-- The runs of `set_checkpoint_values_for_master`. -/
def Node.arms (n : Node) : Nat := n.log.countP Event.isArm

/-- The runs of `save_snapshot`. -/
def Node.saves (n : Node) : Nat := n.log.countP Event.isSave

/-- The `DRAIN_START` messages that the node has sent. -/
def Node.drains (n : Node) : Nat := (sentIn n.log).countP Message.isDrain

/-- The `DRAIN_START` messages that the node has processed. -/
def Node.requests (n : Node) : Nat := (processedIn n.log).countP Message.isDrain

/-- A request that the node has not passed on. -/
def Node.unnotified (n : Node) : Bool :=
  n.engine.needsToCheckpoint && !n.engine.notifiedNeighbors

/-- The fields of a request. -/
def Node.request (n : Node) : Bool × Bool × Bool :=
  (n.engine.master, n.engine.needsToCheckpoint, n.engine.notifiedNeighbors)

/-- The snapshots and the `DRAIN_START` messages of a node do not outgrow the requests it gets, of
which `credit` come from outside. -/
structure Books (credit : Nat) (n n' : Node) : Prop where
  master : n'.engine.master = n.engine.master
  emits : ∃ evs, Emits n n' evs ∧ processedIn evs = []
  arms : n.engine.master = false → n'.arms = n.arms
  saves : n'.engine.needsToCheckpoint.toNat + n'.saves + n.arms ≤
    n.engine.needsToCheckpoint.toNat + n.saves + n'.arms + credit
  drains : n'.unnotified.toNat + n'.drains + n.arms ≤
    n.unnotified.toNat + n.drains + n'.arms + credit

theorem Books.trans {credit : Nat} {n n' n'' : Node} (h : Books 0 n n')
    (h' : Books credit n' n'') : Books credit n n'' where
  master := h'.master.trans h.master
  emits := by
    obtain ⟨evs, he, hevs⟩ := h.emits
    obtain ⟨evs', he', hevs'⟩ := h'.emits
    exact ⟨evs ++ evs', he.trans he', by rw [processedIn_append, hevs, hevs']; rfl⟩
  arms hfollower := (h'.arms (h.master.trans hfollower)).trans (h.arms hfollower)
  saves := by
    have h₁ := h.saves
    have h₂ := h'.saves
    omega
  drains := by
    have h₁ := h.drains
    have h₂ := h'.drains
    omega

/-- An event that has nothing to do with a request. -/
def Event.isQuiet : Event → Bool
  | .commSend msg => !msg.isDrain
  | .processMessage _ => false
  | .setCheckpointValues _ => false
  | .saveSnapshot .. => false
  | _ => true

/-- The events that the node logs, and what they count. -/
theorem Emits.counts {n n' : Node} {evs : List Event} (h : Emits n n' evs) :
    n'.arms = n.arms + evs.countP Event.isArm ∧ n'.saves = n.saves + evs.countP Event.isSave ∧
      n'.drains = n.drains + (sentIn evs).countP Message.isDrain := by
  refine ⟨?_, ?_, ?_⟩
  · rw [Node.arms, h.log, List.countP_append, Node.arms]
  · rw [Node.saves, h.log, List.countP_append, Node.saves]
  · rw [Node.drains, h.log, sentIn_append, List.countP_append, Node.drains]

theorem quiet_counts {evs : List Event} (h : ∀ e ∈ evs, e.isQuiet = true) :
    processedIn evs = [] ∧ evs.countP Event.isArm = 0 ∧ evs.countP Event.isSave = 0 ∧
      (sentIn evs).countP Message.isDrain = 0 := by
  refine ⟨?_, ?_, ?_, ?_⟩
  · rw [processedIn, List.filterMap_eq_nil_iff]
    intro e he
    have hquiet := h e he
    cases e <;> simp_all [Event.isQuiet]
  · rw [List.countP_eq_zero]
    intro e he
    have hquiet := h e he
    cases e <;> simp_all [Event.isQuiet, Event.isArm]
  · rw [List.countP_eq_zero]
    intro e he
    have hquiet := h e he
    cases e <;> simp_all [Event.isQuiet, Event.isSave]
  · rw [List.countP_eq_zero]
    intro msg hmsg
    obtain ⟨e, he, hsent⟩ := List.mem_filterMap.mp hmsg
    have hquiet := h e he
    cases e <;> simp_all [Event.isQuiet]

/-- A request is left as it is. -/
theorem Books.quiet {n n' : Node} (evs : List Event) (he : Emits n n' evs)
    (hquiet : ∀ e ∈ evs, e.isQuiet = true) (hrequest : n'.request = n.request) : Books 0 n n' := by
  obtain ⟨hprocessed, harm, hsave, hdrain⟩ := quiet_counts hquiet
  obtain ⟨harms, hsaves, hdrains⟩ := he.counts
  simp only [Node.request, Prod.mk.injEq] at hrequest
  obtain ⟨hmaster, hneeds, hnotified⟩ := hrequest
  rw [harm] at harms
  rw [hsave] at hsaves
  rw [hdrain] at hdrains
  refine ⟨hmaster, ⟨evs, he, hprocessed⟩, fun _ => harms, ?_, ?_⟩
  · rw [hneeds]
    omega
  · rw [Node.unnotified, hneeds, hnotified, Node.unnotified]
    omega

/-- Other fields change, and nothing is logged. -/
theorem Books.fields {n n' : Node} (hrequest : n'.request = n.request)
    (hmessages : n'.messages = n.messages) : Books 0 n n' :=
  .quiet [] (.nothing hmessages) (by simp) hrequest

theorem Books.refl (n : Node) : Books 0 n n := .fields rfl rfl

theorem pdesCommSend_books (n : Node) {msg : Message} (hmsg : msg.type ≠ drainStart) :
    Books 0 n (pdesCommSend n msg) :=
  .quiet [.commSend msg] (emits_pdesCommSend n msg)
    (by simp [Event.isQuiet, Message.isDrain, hmsg]) rfl

theorem books_frame : HandshakeFrame (Books 0) where
  trans := Books.trans
  send n _ _ hdrain := pdesCommSend_books n hdrain
  flags h := .fields (congrArg Node.request h :) (congrArg Node.messages h :)

theorem pdesEngineDestroy_books {n n' : Node} (h : pdesEngineDestroy n = .ok n') :
    Books 0 n n' := by
  rw [pdesEngineDestroy, bind_eq_ok] at h
  obtain ⟨n₁, hnotify, h⟩ := h
  have hbooks := books_frame.notifyNeighboursOfEnd hnotify
  split_ifs at h
  · cases h
    exact hbooks.trans (.fields rfl rfl)
  · cases h
    exact hbooks.trans (.fields rfl rfl)

theorem canStop_books {n n' : Node} {r : Bool} (h : canStop n = .ok (r, n')) : Books 0 n n' := by
  have hcalled : Books 0 n { n with log := n.log ++ [.canStop] } :=
    .quiet [.canStop] (.logs rfl rfl) (by simp [Event.isQuiet]) rfl
  exact books_frame.canStop hcalled h

/-- The master gets a request. -/
theorem setCheckpointValuesForMaster_books {n : Node} (hmaster : n.engine.master = true) :
    Books 0 n (setCheckpointValuesForMaster n) := by
  have he : Emits n (setCheckpointValuesForMaster n)
      [.setCheckpointValues n.wwt.currentQuantumRound] := .logs rfl rfl
  obtain ⟨harms, hsaves, hdrains⟩ := he.counts
  refine ⟨rfl, ⟨_, he, rfl⟩, fun hfollower => ?_, ?_, ?_⟩
  · rw [hmaster] at hfollower
    cases hfollower
  · rw [hsaves, harms]
    simp [Event.isArm, Event.isSave, setCheckpointValuesForMaster]
    omega
  · rw [hdrains, harms]
    simp [Event.isArm, sentIn, setCheckpointValuesForMaster, Node.unnotified]
    omega

theorem finishInitiateCheckpoint_books {n n' : Node} (h : finishInitiateCheckpoint n = .ok n') :
    Books 0 n n' := by
  simp only [finishInitiateCheckpoint] at h
  split_ifs at h with hmaster
  · cases h
    have hset : Books 0 n { n with engine.masterInit := true } := .fields rfl rfl
    exact hset.trans (setCheckpointValuesForMaster_books hmaster)
  · cases h
    exact .fields rfl rfl
  · exact books_frame.sendControl (by decide) h

/-- The snapshot clears the request. -/
theorem saveCheckpoint_books {n : Node} (hneeds : n.engine.needsToCheckpoint = true) :
    Books 0 n (saveCheckpoint n) := by
  have he : Emits n (saveCheckpoint n) [.saveSnapshot n.engine.checkpointName
      n.engine.checkpointQuantumRound n.wwt.currentQuantumRound] := .logs rfl rfl
  obtain ⟨harms, hsaves, hdrains⟩ := he.counts
  refine ⟨rfl, ⟨_, he, rfl⟩, fun _ => harms, ?_, ?_⟩
  · rw [hsaves, harms, hneeds]
    simp [Event.isArm, Event.isSave, saveCheckpoint]
  · rw [hdrains, harms]
    simp [Event.isArm, sentIn, saveCheckpoint, Node.unnotified]

theorem createCheckpointBh_books {exitAfter : Bool} {n n' : Node}
    (h : createCheckpointBh exitAfter n = .ok n') : Books 0 n n' := by
  rw [createCheckpointBh] at h
  split at h
  · cases h
    exact .refl n
  · rename_i hneeds
    obtain ⟨n₁, hdestroy, h⟩ := bind_eq_ok.mp h
    cases h
    have hsaved := saveCheckpoint_books (n := n) (by simpa using hneeds)
    have hleft : Books 0 (saveCheckpoint n) n₁ := by
      split_ifs at hdestroy
      · exact pdesEngineDestroy_books hdestroy
      · cases hdestroy
        exact .refl _
    exact (hsaved.trans hleft).trans (.fields rfl rfl)

/-- A request is passed on once. -/
theorem notifyNeighborsForDrain_books {n n' : Node} {name : List UInt8} {format : SnapshotFormat}
    {r : Int} (hneeds : n.engine.needsToCheckpoint = true)
    (h : notifyNeighborsForDrain n name format = .ok (r, n')) : Books 0 n n' := by
  have hset : n.engine.notifiedNeighbors = false → n.unnotified = true := by
    intro hnot
    rw [Node.unnotified, hneeds, hnot]
    rfl
  rcases notifyNeighborsForDrain_ok h with ⟨rfl, _⟩ | ⟨rfl, _⟩ | ⟨msg, htype, _, _, hnot, rfl⟩
  · exact .refl n'
  · have he : Emits n { n with engine.notifiedNeighbors := true } [] := .nothing rfl
    refine ⟨rfl, ⟨[], he, rfl⟩, fun _ => rfl, le_rfl, ?_⟩
    simp [Node.unnotified, Node.drains, Node.arms]
  · have he : Emits n (pdesCommSend { n with engine.notifiedNeighbors := true } msg)
        [.commSend msg] := ⟨rfl, rfl, rfl⟩
    obtain ⟨harms, hsaves, hdrains⟩ := he.counts
    refine ⟨rfl, ⟨_, he, rfl⟩, fun _ => harms, ?_, ?_⟩
    · rw [hsaves, harms]
      simp [Event.isArm, Event.isSave, pdesCommSend]
    · rw [hdrains, harms, hset hnot]
      simp [Event.isArm, sentIn, pdesCommSend, Node.unnotified, Message.isDrain, htype]

theorem drain_books {n n' : Node} {needed : Prop} [Decidable needed]
    (hneeded : needed → n.engine.needsToCheckpoint = true)
    (h : (if needed then Prod.snd <$> notifyNeighborsForDrain n n.engine.checkpointName
      n.engine.checkpointFormat else .ok n) = .ok n') : Books 0 n n' := by
  rcases drain_cases h with ⟨hn, r, hdrain⟩ | ⟨_, rfl⟩
  · exact notifyNeighborsForDrain_books (hneeded hn) hdrain
  · exact .refl n'

/-- A follower takes a `DRAIN_START` for a request. -/
theorem receiveDrainStart_books {n n' : Node} {msg : Message}
    (h : receiveDrainStart n msg = .ok n') : Books (!n.engine.master).toNat n n' := by
  simp only [receiveDrainStart] at h
  split_ifs at h with hfollower
  · cases h
    have hrole : n.engine.master = false := by simpa using hfollower
    refine ⟨rfl, ⟨[], .nothing rfl, rfl⟩,
      fun _ => rfl, ?_, ?_⟩
    · rw [hrole]
      simp [Node.saves, Node.arms]
      omega
    · have hle := Bool.toNat_le (!n.engine.notifiedNeighbors)
      rw [hrole]
      simp [Node.unnotified, Node.drains, Node.arms] at hle ⊢
      omega
  · cases h
    have hcredit : (!n.engine.master).toNat = 0 := by simpa using hfollower
    rw [hcredit]
    exact .fields rfl rfl

theorem receiveCheckpointInitStep_books (n : Node) : Books 0 n (receiveCheckpointInitStep n) := by
  simp only [receiveCheckpointInitStep]
  split_ifs with harm
  · have hset : Books 0 n { n with engine.initFlag := int32 (n.engine.initFlag + 1) } :=
      .fields rfl rfl
    exact hset.trans (setCheckpointValuesForMaster_books harm.1)
  · exact .fields rfl rfl

/-- The request that a message brings to a node. -/
def Node.credit (n : Node) (msg : Message) : Nat := (msg.isDrain && !n.engine.master).toNat

theorem Books.mono {credit : Nat} {n n' : Node} (h : Books 0 n n') : Books credit n n' :=
  ⟨h.master, h.emits, h.arms, h.saves.trans (by omega), h.drains.trans (by omega)⟩

theorem processControl_books {n n' : Node} {msg : Message} (h : processControl n msg = .ok n') :
    Books (n.credit msg) n n' := by
  rcases books_frame.processControl h with ⟨htype, hdrain⟩ | ⟨_, rfl⟩ | ⟨_, hn'⟩
  · have hcredit : n.credit msg = (!n.engine.master).toNat := by
      rw [Node.credit, Message.isDrain, decide_eq_true htype, Bool.true_and]
    rw [hcredit]
    exact receiveDrainStart_books hdrain
  · exact (receiveCheckpointInitStep_books n).mono
  · exact hn'.mono

theorem wwtReciviedCallback_books {n n' : Node} {msg : Message}
    (h : wwtReciviedCallback n msg = .ok n') : Books 0 n n' := by
  obtain ⟨hengine, _, hemits⟩ := wwtReciviedCallback_frame h
  exact .quiet [] hemits (by simp) (by rw [Node.request, hengine, Node.request])

/-- A message is logged and then processed. -/
theorem processMessage_books {n n' : Node} {msg : Message} (h : processMessage n msg = .ok n') :
    Books (n.credit msg) (n.logReceive msg) n' := by
  obtain ⟨n₁, hcallback, h⟩ := bind_eq_ok.mp h
  have hbooks := wwtReciviedCallback_books hcallback
  have hcredit : n.credit msg = n₁.credit msg := by
    rw [Node.credit, Node.credit, hbooks.master]
  rw [hcredit]
  exact hbooks.trans (processControl_books h)

theorem wwtSend_books {n n' : Node} {data : List UInt8} (h : wwtSend n data = .ok n') :
    Books 0 n n' := by
  obtain ⟨msg, hmsg, rfl⟩ := wwtSend_ok h
  have hlog : Books 0 n (n.logSend data) :=
    .quiet [.wwtSend n.wwt.currentQuantumRound n.universalTime data]
      (.logs rfl rfl) (by simp [Event.isQuiet]) rfl
  refine hlog.trans (pdesCommSend_books _ ?_)
  rw [(createMessage_ok hmsg).2.2.2]
  decide

theorem sendSync_books {n n' : Node} (h : sendSync n = .ok n') : Books 0 n n' := by
  obtain ⟨time, msg, hmsg, rfl⟩ := sendSync_ok h
  have htype : msg.type = msgTypeSync := (createMessage_ok hmsg).2.2.2
  have hfirst : Books 0 n { n with engine.firstSyncTime := time } := .fields rfl rfl
  exact hfirst.trans (pdesCommSend_books _ (by rw [htype]; decide))

theorem quantaSync_books {n n' : Node} (h : quantaSync n = .ok n') : Books 0 n n' := by
  obtain ⟨paused, pauseBh, rfl⟩ := quantaSync_changes h
  exact .fields rfl rfl

theorem quantaSyncFinish_books {n n' : Node} (h : quantaSyncFinish n = .ok n') : Books 0 n n' := by
  rw [quantaSyncFinish, bind_eq_ok] at h
  obtain ⟨n₁, hdrain, h⟩ := h
  obtain ⟨n₂, hsend, h⟩ := bind_eq_ok.mp h
  have hn₂ : Books 0 n₁ n₂ := by
    split_ifs at hsend
    · exact sendSync_books hsend
    · cases hsend
      exact .refl n₁
  have hboth := (drain_books And.left hdrain).trans hn₂
  split_ifs at h
  cases h
  exact hboth.trans (.fields rfl rfl)

theorem syncCheckpointCheck_books {n n' : Node} {held : Bool}
    (h : syncCheckpointCheck n = .ok (held, n')) : Books 0 n n' := by
  rcases syncCheckpointCheck_cases h with ⟨_, _, rfl⟩ | ⟨hneeds, n₁, hdrain, hend⟩
  · exact .refl n'
  · have hn₁ := drain_books (fun _ => hneeds) hdrain
    rcases hend with ⟨_, rfl, _⟩ | ⟨_, rfl, _⟩
    · exact hn₁
    · exact hn₁.trans (.fields rfl rfl)

theorem beginQuantum_books (n : Node) : Books 0 n (beginQuantum n) := by
  rw [beginQuantum]
  split_ifs <;> exact .fields rfl rfl

theorem wwtSyncCheckFinish_books {n n' : Node} (h : wwtSyncCheckFinish n = .ok n') :
    Books 0 n n' := by
  rw [wwtSyncCheckFinish, bind_eq_ok] at h
  obtain ⟨⟨held, n₁⟩, hcheck, h⟩ := h
  have hskip : Books 0 n { n with engine.skipBoundryCheckAfterCheckpoint := false } :=
    .fields rfl rfl
  have hn₁ := hskip.trans (syncCheckpointCheck_books hcheck)
  cases held with
  | true =>
      cases h
      exact hn₁
  | false =>
      obtain ⟨n₂, hmaster, h⟩ := bind_eq_ok.mp h
      cases h
      have hfreed : Books 0 n { n₁ with wwt.syncCheckTimer := .null } :=
        hn₁.trans (.fields rfl rfl)
      exact (hfreed.trans (books_frame.wwtSyncCheckMaster hmaster)).trans (beginQuantum_books n₂)

theorem pollReturn_books {n n' : Node} {site : PollSite} (h : pollReturn n site = .ok n') :
    Books 0 n n' := by
  have hleave : Books 0 n { n with site := none } := .fields rfl rfl
  cases site with
  | timer =>
      cases h
      exact hleave
  | quantaSync => exact hleave.trans (quantaSyncFinish_books h)
  | isWaiting =>
      rw [pollReturn] at h
      split_ifs at h
      · cases h
        exact .fields rfl rfl
      · exact hleave.trans (wwtSyncCheckFinish_books h)
  | waitLoop =>
      rw [pollReturn] at h
      split_ifs at h
      · exact hleave.trans (pdesEngineDestroy_books h)
      · cases h
        exact .fields rfl rfl

theorem act_books {n n' : Node} {a : Action} (h : n.act a = .ok n') : Books 0 n n' := by
  cases a with
  | setup | advance | pollTimer | syncCheck | pauseBh =>
      cases (callback_ok.mp h).2
      exact .fields rfl rfl
  | wwtSend data => exact wwtSend_books (callback_ok.mp h).2
  | deliver k =>
      obtain ⟨ctx, _, rfl⟩ := act_deliver h
      exact .quiet [.recvCb n.universalTime (ctx.msg.bytes 0 ctx.msg.len)]
        (.logs rfl rfl) (by simp [Event.isQuiet]) rfl
  | pollMessage => cases h
  | pollReturn =>
      obtain ⟨site, _, hcall⟩ := act_pollReturn h
      exact pollReturn_books hcall
  | quantaSync =>
      have hfired : Books 0 n { n with wwt.quantumTimer := .stopped } := .fields rfl rfl
      exact hfired.trans (quantaSync_books (callback_ok.mp h).2)
  | checkpointBh =>
      obtain ⟨bh, _, hcall⟩ := act_checkpointBh h
      have hfired : Books 0 n
          { n with engine.boundryCheckpointBh := some { bh with scheduled := false } } :=
        .fields rfl rfl
      exact hfired.trans (createCheckpointBh_books hcall)
  | commSend => cases h
  | finishInitiateCheckpoint => exact finishInitiateCheckpoint_books (callback_ok.mp h).2
  | canStop =>
      obtain ⟨r, hcall⟩ := act_canStop h
      exact canStop_books hcall
  | notifyNeighboursOfEnd => exact books_frame.notifyNeighboursOfEnd (callback_ok.mp h).2
  | engineDestroy => exact pdesEngineDestroy_books (callback_ok.mp h).2

/-! ### Runs -/

/-- What the requests of a node allow. -/
structure Ledger (n : Node) : Prop where
  arms : n.engine.master = false → n.arms = 0
  saves : n.engine.needsToCheckpoint.toNat + n.saves ≤
    n.arms + bif n.engine.master then 0 else n.requests
  drains : n.unnotified.toNat + n.drains ≤ n.arms + bif n.engine.master then 0 else n.requests

theorem Books.requests {credit : Nat} {n n' : Node} (h : Books credit n n') :
    n'.requests = n.requests := by
  obtain ⟨evs, he, hevs⟩ := h.emits
  rw [Node.requests, he.log, processedIn_append, hevs, List.append_nil, Node.requests]

theorem Ledger.keep {n n' : Node} (h : Ledger n) (hbooks : Books 0 n n') : Ledger n' where
  arms hfollower := (hbooks.arms (hbooks.master ▸ hfollower)).trans
    (h.arms (hbooks.master ▸ hfollower))
  saves := by
    have h₁ := h.saves
    have h₂ := hbooks.saves
    rw [hbooks.master, hbooks.requests]
    omega
  drains := by
    have h₁ := h.drains
    have h₂ := hbooks.drains
    rw [hbooks.master, hbooks.requests]
    omega

/-- A `DRAIN_START` is counted as it is logged. -/
theorem requests_logReceive (n : Node) (msg : Message) :
    (n.logReceive msg).requests = n.requests + msg.isDrain.toNat := by
  have hone : processedIn [.processMessage msg] = [msg] := rfl
  rw [Node.requests, Node.logReceive, processedIn_append, List.countP_append, hone,
    List.countP_singleton, Node.requests]
  cases msg.isDrain <;> rfl

theorem Ledger.receive {n n' : Node} {msg : Message} (h : Ledger n)
    (hprocess : processMessage n msg = .ok n') : Ledger n' := by
  have hbooks := processMessage_books hprocess
  obtain ⟨harms, hsaves, hdrains⟩ := (emits_logReceive n msg).counts
  have hrequests := hbooks.requests.trans (requests_logReceive n msg)
  have hmaster : n'.engine.master = n.engine.master := hbooks.master
  have h₁ := h.saves
  have h₂ := h.drains
  have h₃ : n'.engine.needsToCheckpoint.toNat + n'.saves + n.arms ≤
      n.engine.needsToCheckpoint.toNat + n.saves + n'.arms + n.credit msg := by
    have hkept := hbooks.saves
    rw [harms, hsaves] at hkept
    exact hkept
  have h₄ : n'.unnotified.toNat + n'.drains + n.arms ≤
      n.unnotified.toNat + n.drains + n'.arms + n.credit msg := by
    have hkept := hbooks.drains
    rw [harms, hdrains] at hkept
    exact hkept
  rw [Node.credit] at h₃ h₄
  refine ⟨fun hfollower => ?_, ?_, ?_⟩
  · rw [hmaster] at hfollower
    exact ((hbooks.arms hfollower).trans harms).trans (h.arms hfollower)
  · rw [hmaster, hrequests]
    cases hrole : n.engine.master <;> simp [hrole] at h₁ h₃ ⊢ <;> omega
  · rw [hmaster, hrequests]
    cases hrole : n.engine.master <;> simp [hrole] at h₂ h₄ ⊢ <;> omega

inductive CheckpointAction
  | act (a : Action)
  /-- `set_checkpoint_values_for_master` runs between two callbacks. -/
  | setCheckpointValuesForMaster
  deriving DecidableEq

/-- A step of the two nodes, where the master may arm a checkpoint at any time. -/
def checkpointStep (capacity : Option Nat) (s : System) :
    Side × CheckpointAction → Except Halt System
  | (i, .act a) => step capacity s (i, a)
  | (i, .setCheckpointValuesForMaster) =>
      if (s i).Idle ∧ (s i).engine.master then
        .ok (Function.update s i (setCheckpointValuesForMaster (s i)))
      else .error .disabled

/-- What two created nodes reach where the master arms checkpoints at any time. -/
abbrev Config.ReachesArmed (cfg : Config) (capacity : Option Nat) : System → Prop :=
  Reachable (checkpointStep capacity) (fun _ _ _ => True) (· = cfg.created)

/-- The requests of both nodes are in order, and no message is lost between them. -/
structure Accounted (cfg : Config) (s : System) : Prop where
  ledger : ∀ i, Ledger (s i)
  master : ∀ i, (s i).engine.master = cfg.master i
  conserved : Conserved s

theorem accounted_created (cfg : Config) : Accounted cfg cfg.created where
  ledger i := by
    refine ⟨fun _ => rfl, ?_, ?_⟩
    · simp [Config.created, pdesEngineWwtCreate, Node.saves]
    · simp [Config.created, pdesEngineWwtCreate, Node.drains, Node.unnotified, sentIn]
  master _ := rfl
  conserved := conserved_created cfg

/-- One node changes by itself. -/
theorem Accounted.update {cfg : Config} {s : System} (h : Accounted cfg s) {i : Side} {n' : Node}
    (hbooks : Books 0 (s i) n') : Accounted cfg (Function.update s i n') where
  ledger := Side.forall_of_self_peer i
    (by rw [Function.update_self]; exact (h.ledger i).keep hbooks)
    (by rw [Function.update_of_ne (Side.peer_ne i)]; exact h.ledger i.peer)
  master := Side.forall_of_self_peer i
    (by rw [Function.update_self, hbooks.master]; exact h.master i)
    (by rw [Function.update_of_ne (Side.peer_ne i)]; exact h.master i.peer)
  conserved := by
    obtain ⟨evs, he, hevs⟩ := hbooks.emits
    refine Side.forall_of_self_peer i ?_ ?_
    · rw [Function.update_self, Function.update_of_ne (Side.peer_ne i)]
      exact (h.conserved i).send he
    · rw [Function.update_of_ne (Side.peer_ne i), Side.peer_peer, Function.update_self]
      have hchannel := h.conserved i.peer
      rw [Side.peer_peer] at hchannel
      exact hchannel.idle he hevs

theorem Accounted.step {cfg : Config} {capacity : Option Nat} {s s' : System}
    {ia : Side × CheckpointAction} (h : Accounted cfg s)
    (hstep : checkpointStep capacity s ia = .ok s') : Accounted cfg s' := by
  obtain ⟨i, a⟩ := ia
  cases a with
  | setCheckpointValuesForMaster =>
      rw [checkpointStep] at hstep
      split_ifs at hstep with harm
      cases hstep
      exact h.update (setCheckpointValuesForMaster_books harm.2)
  | act a =>
      cases stepsTo_of_step hstep with
      | @callback _ _ n' _ _ hn' => exact h.update (act_books hn')
      | @commSend _ msg rest hsending _ =>
          have hself := h.ledger i
          refine ⟨Side.forall_of_self_peer i ?_ ?_, Side.forall_of_self_peer i ?_ ?_,
            Side.forall_of_self_peer i ?_ ?_⟩
          · rw [Function.update_self]
            exact ⟨hself.arms, hself.saves, hself.drains⟩
          · rw [Function.update_of_ne (Side.peer_ne i)]
            exact h.ledger i.peer
          · rw [Function.update_self]
            exact h.master i
          · rw [Function.update_of_ne (Side.peer_ne i)]
            exact h.master i.peer
          · have hchannel := h.conserved i
            rw [Channel, Node.inFlight, hsending] at hchannel
            simpa [Channel, Node.inFlight] using hchannel
          · simpa [Channel] using h.conserved i.peer
      | @receive _ msg rest n' _ hring hn' =>
          have hbooks := processMessage_books hn'
          have hpeer := h.ledger i.peer
          obtain ⟨evs, he, hevs⟩ := hbooks.emits
          have hemits := (emits_logReceive (s i) msg).trans he
          refine ⟨Side.forall_of_self_peer i ?_ ?_, Side.forall_of_self_peer i ?_ ?_,
            Side.forall_of_self_peer i ?_ ?_⟩
          · rw [Function.update_self]
            exact (h.ledger i).receive hn'
          · rw [Function.update_of_ne (Side.peer_ne i), Function.update_self]
            exact ⟨hpeer.arms, hpeer.saves, hpeer.drains⟩
          · rw [Function.update_self, hbooks.master]
            exact h.master i
          · rw [Function.update_of_ne (Side.peer_ne i), Function.update_self]
            exact h.master i.peer
          · rw [Function.update_self, Function.update_of_ne (Side.peer_ne i), Function.update_self]
            exact (h.conserved i).send hemits
          · rw [Function.update_of_ne (Side.peer_ne i), Function.update_self, Side.peer_peer,
              Function.update_self]
            have hchannel := h.conserved i.peer
            rw [Side.peer_peer] at hchannel
            exact hchannel.receive hring hemits hevs

/-- Each `DRAIN_START` that a node has processed was sent by the other one. -/
theorem Channel.requests_le {n m : Node} (h : Channel n m) : m.requests ≤ n.drains := by
  rw [Node.requests, Node.drains, ← h, List.countP_append]
  exact Nat.le_add_right ..

/-- Where the master arms `k` checkpoints, each node saves at most `k` snapshots and sends at most `k`
`DRAIN_START` messages. -/
theorem checkpoint_requests_bounded {cfg : Config} {capacity : Option Nat} {s : System} {i : Side}
    (hmaster : cfg.master i = true) (hfollower : cfg.master i.peer = false)
    (hs : cfg.ReachesArmed capacity s) (j : Side) :
    (s j).saves ≤ (s i).arms ∧ (s j).drains ≤ (s i).arms := by
  have hs' : Accounted cfg s := by
    refine hs.invariant ?_ fun s ia s' _ h hstep _ => h.step hstep
    rintro _ rfl
    exact accounted_created cfg
  have hi := hs'.ledger i
  have hpeer := hs'.ledger i.peer
  have hsaves := hi.saves
  have hdrains := hi.drains
  rw [hs'.master i, hmaster, cond_true] at hsaves hdrains
  rcases Side.eq_or_eq_peer i j with rfl | rfl
  · exact ⟨by omega, by omega⟩
  · have harms : (s i.peer).arms = 0 := hpeer.arms ((hs'.master i.peer).trans hfollower)
    have hchannel := (hs'.conserved i).requests_le
    have hsaves' := hpeer.saves
    have hdrains' := hpeer.drains
    rw [hs'.master i.peer, hfollower, cond_false] at hsaves' hdrains'
    exact ⟨by omega, by omega⟩

/-- The master arms a checkpoint in round 0, and both nodes save it. -/
def armedRun : List (Side × CheckpointAction) :=
  [(.left, .act .setup), (.right, .act .setup), (.left, .setCheckpointValuesForMaster),
    (.left, .act .quantaSync), (.left, .act .pollReturn), (.left, .act .commSend),
    (.left, .act .commSend), (.right, .act .quantaSync), (.right, .act .pollMessage),
    (.right, .act .pollMessage), (.right, .act .pollReturn), (.right, .act .commSend),
    (.right, .act .commSend), (.right, .act .syncCheck), (.right, .act .pollReturn),
    (.right, .act .checkpointBh), (.left, .act .syncCheck), (.left, .act .pollMessage),
    (.left, .act .pollMessage), (.left, .act .pollReturn), (.left, .act .checkpointBh)]

set_option maxRecDepth 100000 in
theorem checkpoint_requests_bounded_armedRun :
    ∃ s, twoNodes.ReachesArmed none s ∧ (s .left).arms = 1 ∧
      ((s .right).saves, (s .right).drains) = (1, 1) ∧ (s .right).saves ≤ (s .left).arms ∧
      (s .right).drains ≤ (s .left).arms := by
  have hrun : (run (checkpointStep none) (fun _ _ _ => True) twoNodes.created armedRun).map
      (fun s => ((s .left).arms, (s .right).saves, (s .right).drains)) = some (1, 1, 1) := by decide
  obtain ⟨s, hs, hcounts⟩ := Option.map_eq_some_iff.mp hrun
  have hstart : twoNodes.ReachesArmed none twoNodes.created := .start rfl
  have hreach := hstart.run hs
  obtain ⟨harms, hright⟩ := Prod.mk.inj hcounts
  exact ⟨s, hreach, harms, hright, checkpoint_requests_bounded (by decide) (by decide) hreach .right⟩

end LeanPdes
