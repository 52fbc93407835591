import LeanPdes.System

/-! What a node's functions leave behind: the events they append to the log, with the messages they
pass to `pdes_comm_send`, and the fields they leave alone. Checkpoint requests and the exit handshake
are control traffic: they touch neither the quantum's state nor packets. -/

namespace LeanPdes

open Words TwoParty

/-- The messages a log passes to `pdes_comm_send`. -/
def sentIn (log : List Event) : List Message :=
  log.filterMap fun | .commSend msg => some msg | _ => none

/-- The messages a log hands to `process_message`. -/
def processedIn (log : List Event) : List Message :=
  log.filterMap fun | .processMessage msg => some msg | _ => none

@[simp] theorem sentIn_append (l l' : List Event) : sentIn (l ++ l') = sentIn l ++ sentIn l' :=
  List.filterMap_append

@[simp] theorem processedIn_append (l l' : List Event) :
    processedIn (l ++ l') = processedIn l ++ processedIn l' :=
  List.filterMap_append

/-- The node has logged `evs` and has made the calls of `pdes_comm_send` in them. -/
structure Emits (n n' : Node) (evs : List Event) : Prop where
  ring : n'.ring = n.ring
  log : n'.log = n.log ++ evs
  sending : n'.sending = n.sending ++ sentIn evs

theorem Emits.refl (n : Node) : Emits n n [] := ⟨rfl, by simp, by simp [sentIn]⟩

theorem Emits.trans {n n' n'' : Node} {evs evs' : List Event} (h : Emits n n' evs)
    (h' : Emits n' n'' evs') : Emits n n'' (evs ++ evs') where
  ring := h'.ring.trans h.ring
  log := by rw [h'.log, h.log, List.append_assoc]
  sending := by rw [h'.sending, h.sending, sentIn_append, List.append_assoc]

theorem emits_pdesCommSend (n : Node) (msg : Message) :
    Emits n (pdesCommSend n msg) [.commSend msg] := ⟨rfl, rfl, rfl⟩

/-- The ring, the sends that wait, and the log. -/
def Node.messages (n : Node) : List Message × List Message × List Event :=
  (n.ring, n.sending, n.log)

/-- Events without a message are logged, and nothing else happens to the messages. -/
theorem Emits.logs {n n' : Node} {evs : List Event}
    (h : n'.messages = (n.ring, n.sending, n.log ++ evs)) (hsent : sentIn evs = []) :
    Emits n n' evs := by
  simp only [Node.messages, Prod.mk.injEq] at h
  obtain ⟨hring, hsending, hlog⟩ := h
  exact ⟨hring, hlog, by rw [hsending, hsent, List.append_nil]⟩

theorem Emits.nothing {n n' : Node} (h : n'.messages = n.messages) : Emits n n' [] :=
  .logs (by rw [h, Node.messages, List.append_nil]) rfl

/-- A message that carries neither a round nor a packet. -/
def Message.IsControl (msg : Message) : Prop :=
  msg.type ≠ msgTypeSync ∧ msg.type ≠ msgTypeNormal

/-- An event of checkpoint requests or of the exit handshake. -/
def Event.IsControl : Event → Prop
  | .commSend msg => msg.IsControl
  | .processMessage _ => False
  | .wwtSend .. => False
  | .recvCb .. => False
  | _ => True

/-- The node has done control traffic only. -/
structure Control (n n' : Node) : Prop where
  emits : ∃ evs, Emits n n' evs ∧ ∀ e ∈ evs, e.IsControl
  wwt : n'.wwt = { n.wwt with syncCheckTimer := n'.wwt.syncCheckTimer }
  check : n'.wwt.syncCheckTimer = n.wwt.syncCheckTimer ∨ n'.wwt.syncCheckTimer = .null
  clock : n'.virtualClock = n.virtualClock
  contexts : n'.receiveContexts = n.receiveContexts
  site : n'.site = n.site
  bias : n'.engine.firstSyncVirtualTime = n.engine.firstSyncVirtualTime
  paused : n'.engine.paused = n.engine.paused
  master : n'.engine.master = n.engine.master

theorem Control.refl (n : Node) : Control n n :=
  ⟨⟨[], .refl n, by simp⟩, rfl, Or.inl rfl, rfl, rfl, rfl, rfl, rfl, rfl⟩

theorem Control.trans {n n' n'' : Node} (h : Control n n') (h' : Control n' n'') :
    Control n n'' where
  emits := by
    obtain ⟨evs, he, hall⟩ := h.emits
    obtain ⟨evs', he', hall'⟩ := h'.emits
    refine ⟨evs ++ evs', he.trans he', ?_⟩
    intro e hmem
    rcases List.mem_append.mp hmem with hmem | hmem
    · exact hall e hmem
    · exact hall' e hmem
  wwt := by rw [h'.wwt, h.wwt]
  check := by
    rcases h'.check with h' | h'
    · rw [h']
      exact h.check
    · exact Or.inr h'
  clock := h'.clock.trans h.clock
  contexts := h'.contexts.trans h.contexts
  site := h'.site.trans h.site
  bias := h'.bias.trans h.bias
  paused := h'.paused.trans h.paused
  master := h'.master.trans h.master

/-- A change of the engine's other fields, and of the log by events that are not messages. -/
theorem Control.change {n n' : Node} (e : PDESEngine) (evs : List Event)
    (hevs : ∀ ev ∈ evs, ev.IsControl) (hsent : sentIn evs = [])
    (h : n' = { n with engine := e, log := n.log ++ evs })
    (hbias : e.firstSyncVirtualTime = n.engine.firstSyncVirtualTime)
    (hpaused : e.paused = n.engine.paused) (hmaster : e.master = n.engine.master) :
    Control n n' := by
  subst h
  exact ⟨⟨evs, ⟨rfl, rfl, by simp [hsent]⟩, hevs⟩, rfl, Or.inl rfl, rfl, rfl, rfl, hbias, hpaused,
    hmaster⟩

/-- A change of the engine's other fields. -/
theorem Control.engine {n n' : Node} (e : PDESEngine) (h : n' = { n with engine := e })
    (hbias : e.firstSyncVirtualTime = n.engine.firstSyncVirtualTime)
    (hpaused : e.paused = n.engine.paused) (hmaster : e.master = n.engine.master) :
    Control n n' :=
  .change e [] (by simp) rfl (by simpa using h) hbias hpaused hmaster

/-- A call of `pdes_comm_send` with a control message. -/
theorem Control.send {n n' : Node} (h : Control n n') {msg : Message} (hmsg : msg.IsControl) :
    Control n (pdesCommSend n' msg) :=
  h.trans ⟨⟨[.commSend msg], emits_pdesCommSend n' msg, by simpa [Event.IsControl] using hmsg⟩,
    rfl, Or.inl rfl, rfl, rfl, rfl, rfl, rfl, rfl⟩

/-- Calling `exit(0)` changes nothing else. -/
theorem Control.exit {n n' : Node} (exited : Bool) (h : Control n n') :
    Control n { n' with exitCalled := exited } := by
  obtain ⟨evs, he, hall⟩ := h.emits
  exact ⟨⟨evs, ⟨he.ring, he.log, he.sending⟩, hall⟩, h.wwt, h.check, h.clock, h.contexts, h.site,
    h.bias, h.paused, h.master⟩

theorem sendControl_ok {n n' : Node} {type : UInt8} (h : sendControl n type = .ok n') :
    ∃ msg, msg.type = type ∧ n' = pdesCommSend n msg := by
  rw [sendControl, bind_eq_ok] at h
  obtain ⟨tsNs, _, h⟩ := h
  obtain ⟨msg, hmsg, h⟩ := bind_eq_ok.mp h
  cases h
  exact ⟨msg, (createMessage_ok hmsg).2.2.2, rfl⟩

/-- `_send_end_if_handshake_complete` sends END once, and not before permission. -/
theorem sendEndIfHandshakeComplete_ok {n n' : Node} (h : sendEndIfHandshakeComplete n = .ok n') :
    (n' = n ∧ (n.engine.permittedToExit = true → n.engine.endMessageSent = true)) ∨
    (n.engine.permittedToExit = true ∧ n.engine.endMessageSent = false ∧
      ∃ msg, msg.type = endOfEmulation ∧
        n' = pdesCommSend { n with engine.endMessageSent := true } msg) := by
  rw [sendEndIfHandshakeComplete] at h
  split_ifs at h with hpermitted hsent
  · left
    cases h
    refine ⟨rfl, fun h => ?_⟩
    rw [h] at hpermitted
    cases hpermitted
  · left
    cases h
    exact ⟨rfl, fun _ => hsent⟩
  · right
    refine ⟨by simpa using hpermitted, by simpa using hsent, ?_⟩
    exact sendControl_ok h

/-- The node without the flags of the exit handshake, and without `checkpoint_in_progress`, which
nothing reads. -/
def Node.withoutFlags (n : Node) : Node :=
  { n with
    engine.pairHasFinished := false
    engine.checkpointInProgress := false
    engine.notifiedNeighborsForExit := false
    engine.readyToExitNeighbors := 0
    engine.permittedToExit := false
    engine.readyToExit := false
    engine.endMessageSent := false
    engine.intentSent := false }

/-- A relation between the nodes before and after a call of the exit handshake. It does not look at
the flags of the handshake, nor at which messages without data are sent. -/
structure HandshakeFrame (R : Node → Node → Prop) : Prop where
  trans : ∀ {n n' n'' : Node}, R n n' → R n' n'' → R n n''
  send : ∀ (n : Node) {msg : Message}, msg.IsControl → msg.type ≠ drainStart →
    R n (pdesCommSend n msg)
  flags : ∀ {n n' : Node}, n'.withoutFlags = n.withoutFlags → R n n'

theorem control_frame : HandshakeFrame Control where
  trans := Control.trans
  send n _ hmsg _ := (Control.refl n).send hmsg
  flags {n n'} h := by
    have hwwt : n'.wwt = n.wwt := (congrArg Node.wwt h :)
    have hengine := congrArg Node.engine h
    exact
      { emits := ⟨[], .nothing (congrArg Node.messages h :), by simp⟩
        wwt := by rw [hwwt]
        check := Or.inl (by rw [hwwt])
        clock := (congrArg Node.virtualClock h :)
        contexts := (congrArg Node.receiveContexts h :)
        site := (congrArg Node.site h :)
        bias := (congrArg PDESEngine.firstSyncVirtualTime hengine :)
        paused := (congrArg PDESEngine.paused hengine :)
        master := (congrArg PDESEngine.master hengine :) }

section

variable {R : Node → Node → Prop}

theorem HandshakeFrame.sendControl (hR : HandshakeFrame R) {n n' : Node} {type : UInt8}
    (htype : type ≠ msgTypeSync ∧ type ≠ msgTypeNormal ∧ type ≠ drainStart)
    (h : sendControl n type = .ok n') : R n n' := by
  obtain ⟨msg, rfl, rfl⟩ := sendControl_ok h
  exact hR.send n ⟨htype.1, htype.2.1⟩ htype.2.2

theorem HandshakeFrame.sendEndIfHandshakeComplete (hR : HandshakeFrame R) {n n' : Node}
    (h : sendEndIfHandshakeComplete n = .ok n') : R n n' := by
  rcases sendEndIfHandshakeComplete_ok h with ⟨rfl, _⟩ | ⟨_, _, msg, hmsg, rfl⟩
  · exact hR.flags rfl
  · have hset : R n { n with engine.endMessageSent := true } := hR.flags rfl
    refine hR.trans hset (hR.send _ ?_ (by rw [hmsg]; decide))
    rw [Message.IsControl, hmsg]
    decide

theorem HandshakeFrame.notifyNeighboursOfEnd (hR : HandshakeFrame R) {n n' : Node}
    (h : notifyNeighboursOfEnd n = .ok n') : R n n' := by
  rw [LeanPdes.notifyNeighboursOfEnd] at h
  split_ifs at h
  · cases h
    exact hR.flags rfl
  · have hset : R n { n with engine.notifiedNeighborsForExit := true } := hR.flags rfl
    exact hR.trans hset (hR.sendEndIfHandshakeComplete h)

theorem HandshakeFrame.grantPermission (hR : HandshakeFrame R) {n n' : Node}
    (h : grantPermission n = .ok n') : R n n' := by
  rw [LeanPdes.grantPermission, bind_eq_ok] at h
  obtain ⟨n₁, hsend, h⟩ := h
  have hset : R n { n with engine.permittedToExit := true } := hR.flags rfl
  have hn₁ := hR.trans hset (hR.sendControl (by decide) hsend)
  exact hR.trans hn₁ (hR.sendEndIfHandshakeComplete h)

theorem HandshakeFrame.canStop (hR : HandshakeFrame R) {n n' : Node} {r : Bool}
    (hcalled : R n { n with log := n.log ++ [.canStop] }) (h : canStop n = .ok (r, n')) : R n n' := by
  rw [LeanPdes.canStop, bind_eq_ok] at h
  obtain ⟨n₁, harm, h⟩ := h
  suffices hn₁ : R { n with log := n.log ++ [.canStop] } n₁ by
    cases h
    exact hR.trans (hR.trans hcalled hn₁) (hR.flags rfl)
  split_ifs at harm
  · obtain ⟨n₂, hsend, harm⟩ := bind_eq_ok.mp harm
    cases harm
    exact hR.trans (hR.sendControl (by decide) hsend) (hR.flags rfl)
  · cases harm
    exact hR.flags rfl
  · exact hR.grantPermission harm
  · cases harm
    exact hR.flags rfl

theorem HandshakeFrame.wwtSyncCheckMaster (hR : HandshakeFrame R) {n n' : Node}
    (h : wwtSyncCheckMaster n = .ok n') : R n n' := by
  rw [LeanPdes.wwtSyncCheckMaster] at h
  split_ifs at h
  · exact hR.grantPermission h
  · cases h
    exact hR.flags rfl
  · cases h
    exact hR.flags rfl

/-- A message asks for a checkpoint, counts for the master's first one, or belongs to the
handshake. -/
theorem HandshakeFrame.processControl (hR : HandshakeFrame R) {n n' : Node} {msg : Message}
    (h : processControl n msg = .ok n') :
    (msg.type = drainStart ∧ receiveDrainStart n msg = .ok n') ∨
      (msg.type = checkpointInitStep ∧ n' = receiveCheckpointInitStep n) ∨
      (msg.type ≠ drainStart ∧ R n n') := by
  by_cases hdrain : msg.type = drainStart
  · rw [LeanPdes.processControl, hdrain] at h
    exact Or.inl ⟨hdrain, h⟩
  by_cases hinit : msg.type = checkpointInitStep
  · rw [LeanPdes.processControl, hinit] at h
    cases h
    exact Or.inr (Or.inl ⟨hinit, rfl⟩)
  refine Or.inr (Or.inr ⟨hdrain, ?_⟩)
  rw [LeanPdes.processControl] at h
  obtain ⟨n₂, hpermission, h⟩ := bind_eq_ok.mp h
  obtain ⟨n₃, hend, h⟩ := bind_eq_ok.mp h
  have hn₂ : R n n₂ := by
    split_ifs at hpermission
    · have hset : R n { n with
          engine.readyToExitNeighbors := int32 (n.engine.readyToExitNeighbors + 1)
          engine.permittedToExit := true } := hR.flags rfl
      exact hR.trans hset (hR.sendEndIfHandshakeComplete hpermission)
    · have hset : R n { n with engine.permittedToExit := true } := hR.flags rfl
      exact hR.trans hset (hR.sendEndIfHandshakeComplete hpermission)
    · cases hpermission
      exact hR.flags rfl
    · cases hpermission
      exact hR.flags rfl
  have hn₃ : R n₂ n₃ := by
    split_ifs at hend
    · cases hend
      exact hR.flags rfl
    · cases hend
      exact hR.flags rfl
  have hbefore := hR.trans hn₂ hn₃
  rw [if_neg hdrain] at h
  split_ifs at h
  · cases h
    have hset : R n₃ { n₃ with engine.checkpointInProgress := false } := hR.flags rfl
    exact hR.trans hbefore hset
  · cases h
    exact hbefore
  · cases h
    exact hbefore

end

theorem destroyStrategy_control (n : Node) : Control n (destroyStrategy n) :=
  ⟨⟨[], ⟨rfl, by simp [destroyStrategy], by simp [sentIn, destroyStrategy]⟩, by simp⟩,
    rfl, Or.inr rfl, rfl, rfl, rfl, rfl, rfl, rfl⟩

theorem pdesEngineDestroy_control {n n' : Node} (h : pdesEngineDestroy n = .ok n') :
    Control n n' := by
  rw [pdesEngineDestroy, bind_eq_ok] at h
  obtain ⟨n₁, hnotify, h⟩ := h
  have hcontrol := control_frame.notifyNeighboursOfEnd hnotify
  split_ifs at h
  · cases h
    exact hcontrol.trans (.engine _ rfl rfl rfl rfl)
  · cases h
    exact (hcontrol.trans (destroyStrategy_control n₁)).exit true

theorem canStop_control {n n' : Node} {r : Bool} (h : canStop n = .ok (r, n')) : Control n n' := by
  have hcalled : Control n { n with log := n.log ++ [.canStop] } :=
    .change _ [.canStop] (by simp [Event.IsControl]) rfl rfl rfl rfl rfl
  exact control_frame.canStop hcalled h

/-! ### Checkpoint requests -/

theorem setCheckpointValuesForMaster_control (n : Node) :
    Control n (setCheckpointValuesForMaster n) :=
  .change _ [.setCheckpointValues n.wwt.currentQuantumRound] (by simp [Event.IsControl]) rfl rfl rfl
    rfl rfl

theorem finishInitiateCheckpoint_control {n n' : Node}
    (h : finishInitiateCheckpoint n = .ok n') : Control n n' := by
  simp only [finishInitiateCheckpoint] at h
  split_ifs at h
  · cases h
    have hset : Control n { n with engine.masterInit := true } := .engine _ rfl rfl rfl rfl
    exact hset.trans (setCheckpointValuesForMaster_control _)
  · cases h
    exact .engine _ rfl rfl rfl rfl
  · exact control_frame.sendControl (by decide) h

theorem saveCheckpoint_control (n : Node) : Control n (saveCheckpoint n) :=
  .change _ [.saveSnapshot ..] (by simp [Event.IsControl]) rfl rfl rfl rfl rfl

theorem createCheckpointBh_control {exitAfter : Bool} {n n' : Node}
    (h : createCheckpointBh exitAfter n = .ok n') : Control n n' := by
  rw [createCheckpointBh] at h
  split at h
  · cases h
    exact .refl n
  · obtain ⟨n₁, hdestroy, h⟩ := bind_eq_ok.mp h
    cases h
    refine Control.exit _ ((saveCheckpoint_control n).trans ?_)
    split_ifs at hdestroy
    · exact pdesEngineDestroy_control hdestroy
    · cases hdestroy
      exact .refl _

theorem length_qpdes_append (name : List UInt8) : (qpdes ++ name).length = 5 + name.length := by
  rw [List.length_append]
  rfl

/-- `notify_neighbors_for_drain` sends at most one `DRAIN_START`, and none when the name is too
long. -/
theorem notifyNeighborsForDrain_ok {n n' : Node} {name : List UInt8} {format : SnapshotFormat}
    {r : Int} (h : notifyNeighborsForDrain n name format = .ok (r, n')) :
    (n' = n ∧ n.engine.notifiedNeighbors = true) ∨
    (n' = { n with engine.notifiedNeighbors := true } ∧ snapshotNameDataSize ≤ 5 + name.length) ∨
    ∃ msg, msg.type = drainStart ∧ msg.len = msg.data.length ∧
      msg.data = qpdes ++ name ++ bytesLE 4 format.toNat ++ bytesLE 8 n.wwt.currentQuantumRound ∧
      n.engine.notifiedNeighbors = false ∧
      n' = pdesCommSend { n with engine.notifiedNeighbors := true } msg := by
  rw [notifyNeighborsForDrain] at h
  split_ifs at h with hneeds hnotified
  · cases h
    exact Or.inl ⟨rfl, hnotified⟩
  · right
    dsimp only at h
    split_ifs at h with hlong hbuffer
    · cases h
      rw [length_qpdes_append] at hlong
      exact Or.inl ⟨rfl, hlong⟩
    · obtain ⟨tsNs, _, h⟩ := bind_eq_ok.mp h
      obtain ⟨msg, hmsg, h⟩ := bind_eq_ok.mp h
      obtain ⟨_, hlen, hdata, htype⟩ := createMessage_ok hmsg
      cases h
      exact Or.inr ⟨msg, htype, by rw [hlen, hdata], hdata, by simpa using hnotified, rfl⟩

theorem notifyNeighborsForDrain_control {n n' : Node} {name : List UInt8} {format : SnapshotFormat}
    {r : Int} (h : notifyNeighborsForDrain n name format = .ok (r, n')) : Control n n' := by
  rcases notifyNeighborsForDrain_ok h with ⟨rfl, _⟩ | ⟨rfl, _⟩ | ⟨msg, htype, _, _, _, rfl⟩
  · exact .refl n'
  · exact .engine _ rfl rfl rfl rfl
  · have hset : Control n { n with engine.notifiedNeighbors := true } := .engine _ rfl rfl rfl rfl
    exact hset.send (by rw [Message.IsControl, htype]; decide)

end LeanPdes
