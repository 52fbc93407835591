import LeanPdes.DrainStart
import LeanPdes.Faults

/-! One node by itself. Its ring brings it any messages at any time, and its neighbour takes from the
ring it writes to. Most of what a node does leaves its quantum and its checkpoint request alone; the
outcomes of the other callbacks are listed, with sync on or off. -/

namespace LeanPdes

open Words TwoParty Reach

inductive NodeAction
  /-- A callback, a return of a poll or a move of the environment. -/
  | act (a : Action)
  /-- `pdes_engine_poll` takes this message. -/
  | receive (msg : Message)
  /-- The oldest message of the pending sends enters the ring. -/
  | sent
  /-- The neighbour takes a message out of the ring. -/
  | taken
  deriving DecidableEq

def nodeStep (n : Node) : NodeAction → Except Halt Node
  | .act a => if n.Idle then n.act a else .error .disabled
  | .receive msg =>
      match n.site with
      | none => .error .disabled
      | some site =>
          if n.Idle then (pdesEnginePoll n site msg).mapError Halt.fault else .error .disabled
  | .sent =>
      match n.sending with
      | [] => .error .disabled
      | msg :: rest => .ok { n with sending := rest, ring := n.ring ++ [msg] }
  | .taken =>
      match n.ring with
      | [] => .error .disabled
      | _ :: rest => .ok { n with ring := rest }

/-- A step of the two nodes is a step of the acting one, and the other one at most loses a message. -/
theorem nodeStep_of_step {capacity : Option Nat} {s s' : System} {i : Side} {a : Action}
    (h : step capacity s (i, a) = .ok s') :
    (∃ b, nodeStep (s i) b = .ok (s' i) ∧
      (b = .act a ∨ (a = .pollMessage ∧ ∃ msg, b = .receive msg) ∨ (a = .commSend ∧ b = .sent))) ∧
    (s' i.peer = s i.peer ∨ nodeStep (s i.peer) .taken = .ok (s' i.peer)) := by
  have hpeer : i.peer ≠ i := Side.peer_ne i
  by_cases hsend : a = .commSend
  · subst hsend
    rw [step] at h
    split at h
    · cases h
    · rename_i msg rest hsending
      split_ifs at h
      cases h
      refine ⟨⟨.sent, ?_, Or.inr (Or.inr ⟨rfl, rfl⟩)⟩, Or.inl ?_⟩
      · rw [nodeStep, hsending, Function.update_self]
      · rw [Function.update_of_ne hpeer]
  by_cases hpoll : a = .pollMessage
  · subst hpoll
    rw [step] at h
    split at h
    · rename_i site msg rest hsite hring
      split_ifs at h with hidle
      obtain ⟨n', hn', h⟩ := bind_eq_ok.mp h
      cases h
      refine ⟨⟨.receive msg, ?_, Or.inr (Or.inl ⟨rfl, msg, rfl⟩)⟩, Or.inr ?_⟩
      · rw [nodeStep, hsite, Function.update_self]
        dsimp only
        rw [if_pos hidle, hn']
      · rw [nodeStep, hring, Function.update_of_ne hpeer, Function.update_self]
    · cases h
  · rw [step_callback hsend hpoll] at h
    split_ifs at h with hidle
    obtain ⟨n', hn', h⟩ := bind_eq_ok.mp h
    cases h
    refine ⟨⟨.act a, ?_, Or.inl rfl⟩, Or.inl ?_⟩
    · rw [nodeStep, if_pos hidle.1, hn', Function.update_self]
    · rw [Function.update_of_ne hpeer]

/-- Each node of a run of the two nodes is in a run of its own. -/
theorem reaches_node {cfg : Config} {capacity : Option Nat}
    {guard : System → Side × Action → System → Prop} {s : System}
    (hs : cfg.Reaches capacity guard s) (i : Side) :
    Reachable nodeStep (fun _ _ _ => True) (· = cfg.created i) (s i) := by
  induction hs with
  | start hinit => exact .start (congrFun hinit i)
  | @next s s' ia _ hstep _ ih =>
      obtain ⟨j, a⟩ := ia
      obtain ⟨⟨b, hself, _⟩, hpeer⟩ := nodeStep_of_step hstep
      rcases Side.eq_or_eq_peer j i with rfl | rfl
      · exact .next ih hself trivial
      · rcases hpeer with hsame | htaken
        · rw [hsame]
          exact ih
        · exact .next ih htaken trivial

/-- The fields of the quantum: the two timers, the two bottom halves, and where the main thread is. -/
structure Quantum where
  quantumTimer : QEMUTimer Int
  syncCheckTimer : QEMUTimer Unit
  finishedQuantum : Bool
  currentQuantumRound : Nat
  pauseBh : Bool
  boundryCheckpointBh : Option CheckpointBh
  site : Option PollSite

def Node.quantum (n : Node) : Quantum where
  quantumTimer := n.wwt.quantumTimer
  syncCheckTimer := n.wwt.syncCheckTimer
  finishedQuantum := n.wwt.finishedQuantum
  currentQuantumRound := n.wwt.currentQuantumRound
  pauseBh := n.engine.pauseBh
  boundryCheckpointBh := n.engine.boundryCheckpointBh
  site := n.site

/-- A checkpoint request: whether there is one, whether it has been passed on, and what it asks for. -/
structure DrainRequest where
  needsToCheckpoint : Bool
  notifiedNeighbors : Bool
  checkpointName : List UInt8
  checkpointFormat : SnapshotFormat

def Node.drainRequest (n : Node) : DrainRequest where
  needsToCheckpoint := n.engine.needsToCheckpoint
  notifiedNeighbors := n.engine.notifiedNeighbors
  checkpointName := n.engine.checkpointName
  checkpointFormat := n.engine.checkpointFormat

/-- An event that neither sets a request nor answers it. -/
def Event.leavesRequest : Event → Bool
  | .setCheckpointValues _ => false
  | .saveSnapshot .. => false
  | _ => true

/-- The node's quantum and its request stay as they are. -/
structure Aside (n n' : Node) : Prop where
  quantum : n'.quantum = n.quantum
  request : n'.drainRequest = n.drainRequest
  log : ∃ evs, n'.log = n.log ++ evs ∧ ∀ e ∈ evs, e.leavesRequest = true

theorem Aside.fields {n n' : Node} (hquantum : n'.quantum = n.quantum)
    (hrequest : n'.drainRequest = n.drainRequest) (hlog : n'.log = n.log) : Aside n n' :=
  ⟨hquantum, hrequest, [], by rw [hlog, List.append_nil], by simp⟩

theorem Aside.logs {n n' : Node} (e : Event) (he : e.leavesRequest = true)
    (hquantum : n'.quantum = n.quantum) (hrequest : n'.drainRequest = n.drainRequest)
    (hlog : n'.log = n.log ++ [e]) : Aside n n' :=
  ⟨hquantum, hrequest, [e], hlog, by simpa using he⟩

theorem Aside.refl (n : Node) : Aside n n := .fields rfl rfl rfl

theorem Aside.trans {n n' n'' : Node} (h : Aside n n') (h' : Aside n' n'') : Aside n n'' where
  quantum := h'.quantum.trans h.quantum
  request := h'.request.trans h.request
  log := by
    obtain ⟨evs, hlog, hevs⟩ := h.log
    obtain ⟨evs', hlog', hevs'⟩ := h'.log
    refine ⟨evs ++ evs', by rw [hlog', hlog, List.append_assoc], ?_⟩
    intro e hmem
    rcases List.mem_append.mp hmem with hmem | hmem
    · exact hevs e hmem
    · exact hevs' e hmem

theorem pdesCommSend_aside (n : Node) (msg : Message) : Aside n (pdesCommSend n msg) :=
  .logs (.commSend msg) rfl rfl rfl rfl

theorem aside_frame : HandshakeFrame Aside where
  trans := Aside.trans
  send n msg _ _ := pdesCommSend_aside n msg
  flags h := .fields (congrArg Node.quantum h :) (congrArg Node.drainRequest h :)
    (congrArg Node.log h :)

theorem canStop_aside {n n' : Node} {r : Bool} (h : canStop n = .ok (r, n')) : Aside n n' :=
  aside_frame.canStop (.logs .canStop rfl rfl rfl rfl) h

theorem wwtSend_aside {n n' : Node} {data : List UInt8} (h : wwtSend n data = .ok n') :
    Aside n n' := by
  obtain ⟨msg, _, rfl⟩ := wwtSend_ok h
  have hlog : Aside n (n.logSend data) :=
    .logs (.wwtSend n.wwt.currentQuantumRound n.universalTime data) rfl rfl rfl rfl
  exact hlog.trans (pdesCommSend_aside _ msg)

theorem sendSync_aside {n n' : Node} (h : sendSync n = .ok n') : Aside n n' := by
  obtain ⟨time, msg, _, rfl⟩ := sendSync_ok h
  have hfirst : Aside n { n with engine.firstSyncTime := time } := .fields rfl rfl rfl
  exact hfirst.trans (pdesCommSend_aside _ msg)

theorem wwtReciviedCallback_aside {n n' : Node} {msg : Message}
    (h : wwtReciviedCallback n msg = .ok n') : Aside n n' := by
  rw [wwtReciviedCallback, bind_eq_ok] at h
  obtain ⟨t, _, h⟩ := h
  split_ifs at h <;> cases h <;> exact .fields rfl rfl rfl

/-- The node with a request from its neighbour. -/
def Node.asked (n : Node) (name : List UInt8) (format : SnapshotFormat) (round : Nat) : Node :=
  { n with
    engine.checkpointInProgress := true
    engine.needsToCheckpoint := true
    engine.checkpointName := name
    engine.checkpointFormat := format
    engine.checkpointQuantumRound := round }

theorem receiveDrainStart_cases {n n' : Node} {msg : Message}
    (h : receiveDrainStart n msg = .ok n') :
    (n.engine.master = false ∧ ∃ name format round, n' = n.asked name format round) ∨
      Aside n n' := by
  simp only [receiveDrainStart] at h
  split_ifs at h with hfollower
  · cases h
    exact Or.inl ⟨by simpa using hfollower, _, _, _, rfl⟩
  · cases h
    exact Or.inr (.fields rfl rfl rfl)

theorem receiveCheckpointInitStep_cases (n : Node) :
    ∃ n₁, Aside n n₁ ∧
      (receiveCheckpointInitStep n = setCheckpointValuesForMaster n₁ ∨
        receiveCheckpointInitStep n = n₁) := by
  refine ⟨{ n with engine.initFlag := int32 (n.engine.initFlag + 1) }, .fields rfl rfl rfl, ?_⟩
  rw [receiveCheckpointInitStep]
  split_ifs
  · exact Or.inl rfl
  · exact Or.inr rfl

/-- The call that passes a request on: it is not made, or it refuses the name, or it sends the name. -/
inductive Drain (n : Node) : Node → Prop
  | none (hnot : n.engine.needsToCheckpoint = false ∨ n.engine.notifiedNeighbors = true) : Drain n n
  | refused (hneeds : n.engine.needsToCheckpoint = true)
      (hnotified : n.engine.notifiedNeighbors = false) (hlong : 1000 < n.engine.checkpointName.length) :
      Drain n { n with engine.notifiedNeighbors := true }
  | sent (hneeds : n.engine.needsToCheckpoint = true) (hnotified : n.engine.notifiedNeighbors = false)
      {msg : Message} (htype : msg.type = drainStart) (hdata : msg.data =
        drainPayload n.engine.checkpointName n.engine.checkpointFormat n.wwt.currentQuantumRound) :
      Drain n (pdesCommSend { n with engine.notifiedNeighbors := true } msg)

theorem drain_of_call {n n' : Node} {needed : Prop} [Decidable needed]
    (hneeded : needed ↔ n.engine.needsToCheckpoint = true ∧ n.engine.notifiedNeighbors = false)
    (h : (if needed then Prod.snd <$> notifyNeighborsForDrain n n.engine.checkpointName
      n.engine.checkpointFormat else .ok n) = .ok n') : Drain n n' := by
  rcases drain_cases h with ⟨hn, r, hdrain⟩ | ⟨hn, rfl⟩
  · obtain ⟨hneeds, hnotified⟩ := hneeded.mp hn
    rcases notifyNeighborsForDrain_ok hdrain with
      ⟨_, hnot⟩ | ⟨rfl, hlong⟩ | ⟨msg, htype, _, hdata, _, rfl⟩
    · rw [hnotified] at hnot
      cases hnot
    · refine .refused hneeds hnotified ?_
      rw [snapshotNameDataSize] at hlong
      omega
    · exact .sent hneeds hnotified htype hdata
  · refine .none ?_
    rw [hneeded, not_and_or, Bool.not_eq_true, Bool.not_eq_false] at hn
    exact hn

/-- Passing a request on leaves the quantum alone. -/
theorem Drain.quantum {n n' : Node} (h : Drain n n') : n'.quantum = n.quantum := by
  cases h <;> rfl

theorem Drain.needs {n n' : Node} (h : Drain n n') :
    n'.engine.needsToCheckpoint = n.engine.needsToCheckpoint := by
  cases h <;> rfl

/-- A new round begins, and `quantum_timer` is armed for its end. -/
theorem beginQuantum_quantum (n : Node) :
    ∃ expire, (beginQuantum n).quantum = { n.quantum with
      quantumTimer := .armed expire
      finishedQuantum := false
      currentQuantumRound := (n.wwt.currentQuantumRound + 1) % 2 ^ 64 } := by
  refine ⟨max (n.quantumEnd ((n.wwt.currentQuantumRound + 1) % 2 ^ 64)) 0, ?_⟩
  rw [beginQuantum]
  split_ifs <;> rfl

/-- `quanta_sync` ends with `sync_check_timer` armed. -/
theorem arrived_quantum {n n₁ n₂ : Node} (hdrain : Drain { n with site := none } n₁)
    (h : Aside n₁ n₂) :
    n₂.recheck.quantum = { n.quantum with syncCheckTimer := .armed (), site := none } := by
  have hquantum : n₂.quantum = { n.quantum with site := none } := h.quantum.trans hdrain.quantum
  have hrecheck : n₂.recheck.quantum = { n₂.quantum with syncCheckTimer := .armed () } := rfl
  rw [hrecheck, hquantum]

/-- `wwt_sync_check` ends with `sync_check_timer` freed and `quantum_timer` armed. -/
theorem passed_quantum {n n₁ n₂ : Node}
    (hdrain : Drain { n with engine.skipBoundryCheckAfterCheckpoint := false, site := none } n₁)
    (h : Aside { n₁ with wwt.syncCheckTimer := .null } n₂) :
    ∃ expire, (beginQuantum n₂).quantum = { n.quantum with
      quantumTimer := .armed expire
      syncCheckTimer := .null
      finishedQuantum := false
      currentQuantumRound := (n.wwt.currentQuantumRound + 1) % 2 ^ 64
      site := none } := by
  have hquantum : n₂.quantum = { n.quantum with syncCheckTimer := .null, site := none } := by
    rw [h.quantum]
    change { n₁.quantum with syncCheckTimer := .null } = _
    rw [hdrain.quantum]
    rfl
  have hround : n₂.wwt.currentQuantumRound = n.wwt.currentQuantumRound :=
    congrArg Quantum.currentQuantumRound hquantum
  obtain ⟨expire, hbegin⟩ := beginQuantum_quantum n₂
  rw [hquantum, hround] at hbegin
  exact ⟨expire, hbegin⟩

/-- `pdes_engine_destroy` leaves the exit to the bottom half of a request, or calls `exit(0)`. -/
theorem pdesEngineDestroy_cases {n n' : Node} (h : pdesEngineDestroy n = .ok n') :
    ∃ n₁, Aside n n₁ ∧
      ((n₁.engine.needsToCheckpoint = true ∧ ∃ bh : CheckpointBh, n' = { n₁ with
          engine.boundryCheckpointBh := some { bh with scheduled := true } }) ∨
        (n₁.engine.needsToCheckpoint = false ∧ n' = { destroyStrategy n₁ with exitCalled := true })) := by
  rw [pdesEngineDestroy, bind_eq_ok] at h
  obtain ⟨n₁, hnotify, h⟩ := h
  refine ⟨n₁, aside_frame.notifyNeighboursOfEnd hnotify, ?_⟩
  split_ifs at h with hneeds
  · cases h
    exact Or.inl ⟨hneeds, _, rfl⟩
  · cases h
    exact Or.inr ⟨by simpa using hneeds, rfl⟩

/-! ### The outcomes of a step -/

/-- The steps that take the node from one poll of the quantum to the next. -/
def NodeAction.turnsQuantum : NodeAction → Bool
  | .act .quantaSync | .act .pollReturn => true
  | _ => false

/-- The outcomes of a step of one node, by what they do to the quantum and to the request. -/
inductive NodeTurn (n : Node) : NodeAction → Node → Prop
  | aside {b : NodeAction} (hb : b.turnsQuantum = false) {n' : Node} (h : Aside n n') : NodeTurn n b n'
  | setup (hnull : n.wwt.quantumTimer = .null) : NodeTurn n (.act .setup) (setupWwt n)
  | pollTimer (hsite : n.site = none) : NodeTurn n (.act .pollTimer) { n with site := some .timer }
  | pollDone (hsite : n.site = some .timer) : NodeTurn n (.act .pollReturn) { n with site := none }
  | pauseBh (hsite : n.site = none) : NodeTurn n (.act .pauseBh) (pdesPauseBh n)
  | quantaSync (hsite : n.site = none) (harmed : n.wwt.quantumTimer.isArmed = true)
      (paused pauseBh : Bool) :
      NodeTurn n (.act .quantaSync) { n with
        wwt.quantumTimer := .stopped
        wwt.finishedQuantum := true
        engine.paused := paused
        engine.pauseBh := pauseBh
        site := some .quantaSync }
  /-- The request is passed on and the SYNC is sent. -/
  | arrive (hsite : n.site = some .quantaSync) {n₁ n₂ : Node} (hdrain : Drain { n with site := none } n₁)
      (h : Aside n₁ n₂) (hcheck : n.wwt.syncCheckTimer = .null) :
      NodeTurn n (.act .pollReturn) n₂.recheck
  | syncCheck (hsite : n.site = none) (harmed : n.wwt.syncCheckTimer.isArmed = true) :
      NodeTurn n (.act .syncCheck) { n with wwt.syncCheckTimer := .stopped, site := some .isWaiting }
  | wait (hsite : n.site = some .isWaiting) (hwaiting : n.waiting = true) :
      NodeTurn n (.act .pollReturn) { n with site := some .waitLoop }
  | again (hsite : n.site = some .waitLoop) :
      NodeTurn n (.act .pollReturn) { n with site := some .isWaiting }
  /-- The round is held for a checkpoint. -/
  | hold (hsite : n.site = some .isWaiting) (hwaiting : n.waiting = false)
      (hneeds : n.engine.needsToCheckpoint = true) {n₁ : Node}
      (hdrain : Drain { n with engine.skipBoundryCheckAfterCheckpoint := false, site := none } n₁) :
      NodeTurn n (.act .pollReturn) (scheduleCheckpointBh n₁).recheck
  | pass (hsite : n.site = some .isWaiting) (hwaiting : n.waiting = false) {n₁ n₂ : Node}
      (hdrain : Drain { n with engine.skipBoundryCheckAfterCheckpoint := false, site := none } n₁)
      (h : Aside { n₁ with wwt.syncCheckTimer := .null } n₂) :
      NodeTurn n (.act .pollReturn) (beginQuantum n₂)
  /-- The node leaves, or leaves it to the bottom half. -/
  | destroy {b : NodeAction} (hexit : b = .act .engineDestroy ∨
        b = .act .pollReturn ∧ n.site = some .waitLoop ∧ n.engine.pairHasFinished = true)
      {site : Option PollSite} {n₁ n' : Node} (h : Aside { n with site := site } n₁)
      (hn' : (∃ bh : CheckpointBh, n' = { n₁ with
          engine.boundryCheckpointBh := some { bh with scheduled := true } }) ∨
        n' = { destroyStrategy n₁ with exitCalled := true }) : NodeTurn n b n'
  /-- There is no request any more. -/
  | emptyBh (hsite : n.site = none) {bh : CheckpointBh} (hbh : n.engine.boundryCheckpointBh = some bh)
      (hneeds : n.engine.needsToCheckpoint = false) :
      NodeTurn n (.act .checkpointBh)
        { n with engine.boundryCheckpointBh := some { bh with scheduled := false } }
  | save (hsite : n.site = none) {bh : CheckpointBh} (hbh : n.engine.boundryCheckpointBh = some bh)
      (hneeds : n.engine.needsToCheckpoint = true) {n' : Node}
      (hn' : (∃ exited, n' = { saveCheckpoint n with exitCalled := exited }) ∨
        ∃ n₁, Aside (saveCheckpoint n) n₁ ∧ n' = { destroyStrategy n₁ with exitCalled := true }) :
      NodeTurn n (.act .checkpointBh) n'
  /-- The master gets a request. -/
  | arm {b : NodeAction} (hb : b.turnsQuantum = false) {n₁ : Node} (h : Aside n n₁) :
      NodeTurn n b (setCheckpointValuesForMaster n₁)
  /-- The follower gets a request. -/
  | asked {msg : Message} (htype : msg.type = drainStart) (hfollower : n.engine.master = false)
      (name : List UInt8) (format : SnapshotFormat) (round : Nat) :
      NodeTurn n (.receive msg) ((n.logReceive msg).asked name format round)

theorem quantaSyncFinish_turn {n n' : Node} (h : quantaSyncFinish n = .ok n') :
    ∃ n₁ n₂, Drain n n₁ ∧ Aside n₁ n₂ ∧ n.wwt.syncCheckTimer = .null ∧ n' = n₂.recheck := by
  rw [quantaSyncFinish, bind_eq_ok] at h
  obtain ⟨n₁, hdrain, h⟩ := h
  obtain ⟨n₂, hsend, h⟩ := bind_eq_ok.mp h
  have hn₁ : Drain n n₁ := drain_of_call (by rw [Bool.not_eq_true']) hdrain
  have hn₂ : Aside n₁ n₂ := by
    split_ifs at hsend
    · exact sendSync_aside hsend
    · cases hsend
      exact .refl n₁
  split_ifs at h with hnull
  cases h
  refine ⟨n₁, n₂, hn₁, hn₂, ?_, rfl⟩
  have hcheck : n₂.wwt.syncCheckTimer = n.wwt.syncCheckTimer :=
    congrArg Quantum.syncCheckTimer (hn₂.quantum.trans hn₁.quantum)
  rw [← hcheck]
  exact not_not.mp hnull

theorem syncCheckpointCheck_turn {n n' : Node} {held : Bool}
    (h : syncCheckpointCheck n = .ok (held, n')) :
    ∃ n₁, Drain n n₁ ∧ ((held = false ∧ n' = n₁) ∨
      (held = true ∧ n.engine.needsToCheckpoint = true ∧ n' = (scheduleCheckpointBh n₁).recheck)) := by
  rcases syncCheckpointCheck_cases h with ⟨hneeds, rfl, rfl⟩ | ⟨hneeds, n₁, hdrain, hend⟩
  · exact ⟨n', .none (Or.inl hneeds), Or.inl ⟨rfl, rfl⟩⟩
  · have hn₁ : Drain n n₁ := drain_of_call (by simp [hneeds]) hdrain
    rcases hend with ⟨rfl, rfl, _⟩ | ⟨rfl, rfl, _⟩
    · exact ⟨n', hn₁, Or.inl ⟨rfl, rfl⟩⟩
    · exact ⟨n₁, hn₁, Or.inr ⟨rfl, hneeds, rfl⟩⟩

theorem wwtSyncCheckFinish_turn {n n' : Node} (h : wwtSyncCheckFinish n = .ok n') :
    ∃ n₁, Drain { n with engine.skipBoundryCheckAfterCheckpoint := false } n₁ ∧
      ((n.engine.needsToCheckpoint = true ∧ n' = (scheduleCheckpointBh n₁).recheck) ∨
        ∃ n₂, Aside { n₁ with wwt.syncCheckTimer := .null } n₂ ∧ n' = beginQuantum n₂) := by
  rw [wwtSyncCheckFinish, bind_eq_ok] at h
  obtain ⟨⟨held, n₁⟩, hcheck, h⟩ := h
  obtain ⟨n₂, hdrain, ⟨rfl, rfl⟩ | ⟨rfl, hneeds, rfl⟩⟩ := syncCheckpointCheck_turn hcheck
  · obtain ⟨n₃, hmaster, h⟩ := bind_eq_ok.mp h
    cases h
    exact ⟨n₁, hdrain, Or.inr ⟨n₃, aside_frame.wwtSyncCheckMaster hmaster, rfl⟩⟩
  · cases h
    exact ⟨n₂, hdrain, Or.inl ⟨hneeds, rfl⟩⟩

theorem pollReturn_turn {n n' : Node} {site : PollSite} (hsite : n.site = some site)
    (h : pollReturn n site = .ok n') : NodeTurn n (.act .pollReturn) n' := by
  cases site with
  | timer =>
      cases h
      exact .pollDone hsite
  | quantaSync =>
      obtain ⟨n₁, n₂, hdrain, haside, hcheck, rfl⟩ := quantaSyncFinish_turn h
      exact .arrive hsite hdrain haside hcheck
  | isWaiting =>
      rw [pollReturn] at h
      split at h
      · rename_i hwaiting
        cases h
        exact .wait hsite hwaiting
      · rename_i hwaiting
        rw [Bool.not_eq_true] at hwaiting
        obtain ⟨n₁, hdrain, ⟨hneeds, rfl⟩ | ⟨n₂, haside, rfl⟩⟩ := wwtSyncCheckFinish_turn h
        · exact .hold hsite hwaiting hneeds hdrain
        · exact .pass hsite hwaiting hdrain haside
  | waitLoop =>
      rw [pollReturn] at h
      split_ifs at h with hfinished
      · obtain ⟨n₁, haside, hn'⟩ := pdesEngineDestroy_cases h
        exact .destroy (Or.inr ⟨rfl, hsite, hfinished⟩) haside (hn'.imp And.right And.right)
      · cases h
        exact .again hsite

theorem createCheckpointBh_turn {n n' : Node} {bh : CheckpointBh} (hsite : n.site = none)
    (hbh : n.engine.boundryCheckpointBh = some bh)
    (h : createCheckpointBh bh.exitAfter
      { n with engine.boundryCheckpointBh := some { bh with scheduled := false } } = .ok n') :
    NodeTurn n (.act .checkpointBh) n' := by
  rw [createCheckpointBh] at h
  split at h
  · rename_i hneeds
    cases h
    exact .emptyBh hsite hbh (by simpa using hneeds)
  · rename_i hneeds
    have hneeds' : n.engine.needsToCheckpoint = true := by simpa using hneeds
    obtain ⟨n₁, hdestroy, h⟩ := bind_eq_ok.mp h
    cases h
    refine .save hsite hbh hneeds' ?_
    split_ifs at hdestroy
    · obtain ⟨n₂, haside, ⟨hleft, _⟩ | ⟨_, rfl⟩⟩ := pdesEngineDestroy_cases hdestroy
      · have hcleared : n₂.engine.needsToCheckpoint = false :=
          congrArg DrainRequest.needsToCheckpoint haside.request
        rw [hcleared] at hleft
        cases hleft
      · exact Or.inr ⟨n₂, haside, by rw [Bool.true_or]⟩
    · cases hdestroy
      exact Or.inl ⟨_, rfl⟩

theorem act_turn {n n' : Node} {a : Action} (h : n.act a = .ok n') : NodeTurn n (.act a) n' := by
  cases a with
  | setup =>
      obtain ⟨⟨_, hnull⟩, hn'⟩ := callback_ok.mp h
      cases hn'
      exact .setup hnull
  | advance t =>
      cases (callback_ok.mp h).2
      exact .aside rfl (.fields rfl rfl rfl)
  | wwtSend data => exact .aside rfl (wwtSend_aside (callback_ok.mp h).2)
  | deliver k =>
      obtain ⟨ctx, _, rfl⟩ := act_deliver h
      exact .aside rfl (.logs (.recvCb n.universalTime (ctx.msg.bytes 0 ctx.msg.len)) rfl rfl rfl rfl)
  | pollTimer =>
      obtain ⟨hsite, hn'⟩ := callback_ok.mp h
      cases hn'
      exact .pollTimer hsite
  | pollMessage => cases h
  | commSend => cases h
  | pollReturn =>
      obtain ⟨site, hsite, hreturn⟩ := act_pollReturn h
      exact pollReturn_turn hsite hreturn
  | quantaSync =>
      obtain ⟨⟨hsite, harmed⟩, hn'⟩ := callback_ok.mp h
      obtain ⟨paused, pauseBh, rfl⟩ := quantaSync_changes hn'
      exact .quantaSync hsite harmed paused pauseBh
  | syncCheck =>
      obtain ⟨⟨hsite, harmed⟩, hn'⟩ := callback_ok.mp h
      cases hn'
      exact .syncCheck hsite harmed
  | pauseBh =>
      obtain ⟨⟨hsite, _⟩, hn'⟩ := callback_ok.mp h
      cases hn'
      exact .pauseBh hsite
  | checkpointBh =>
      rw [Node.act] at h
      split at h
      · cases h
      · rename_i bh hbh
        obtain ⟨⟨hsite, _⟩, hn'⟩ := callback_ok.mp h
        exact createCheckpointBh_turn hsite hbh hn'
  | finishInitiateCheckpoint =>
      have hcall := (callback_ok.mp h).2
      simp only [LeanPdes.finishInitiateCheckpoint] at hcall
      split_ifs at hcall
      · cases hcall
        have hset : Aside n { n with engine.masterInit := true } := .fields rfl rfl rfl
        exact .arm rfl hset
      · cases hcall
        exact .aside rfl (.fields rfl rfl rfl)
      · exact .aside rfl (aside_frame.sendControl (by decide) hcall)
  | canStop =>
      obtain ⟨r, hcall⟩ := act_canStop h
      exact .aside rfl (canStop_aside hcall)
  | notifyNeighboursOfEnd => exact .aside rfl (aside_frame.notifyNeighboursOfEnd (callback_ok.mp h).2)
  | engineDestroy =>
      obtain ⟨n₁, haside, hn'⟩ := pdesEngineDestroy_cases (callback_ok.mp h).2
      have hsame : Aside { n with site := n.site } n₁ := haside
      exact .destroy (Or.inl rfl) hsame (hn'.imp And.right And.right)

theorem processMessage_turn {n n' : Node} {msg : Message} (h : processMessage n msg = .ok n') :
    NodeTurn n (.receive msg) n' := by
  rw [processMessage, bind_eq_ok] at h
  obtain ⟨n₁, hcallback, h⟩ := h
  have hlogged : Aside n (n.logReceive msg) := .logs (.processMessage msg) rfl rfl rfl rfl
  have hn₁ := hlogged.trans (wwtReciviedCallback_aside hcallback)
  rcases aside_frame.processControl h with ⟨htype, hdrain⟩ | ⟨_, rfl⟩ | ⟨_, hn'⟩
  · have hself : n₁ = n.logReceive msg := by
      rw [wwtReciviedCallback, bind_eq_ok] at hcallback
      obtain ⟨t, _, hcallback⟩ := hcallback
      rw [if_neg (by rw [htype]; decide), if_neg (by rw [htype]; decide)] at hcallback
      cases hcallback
      rfl
    subst hself
    rcases receiveDrainStart_cases hdrain with ⟨hfollower, name, format, round, rfl⟩ | hn'
    · exact NodeTurn.asked (n := n) htype hfollower name format round
    · exact .aside rfl (hlogged.trans hn')
  · obtain ⟨n₂, hn₂, harm | hcount⟩ := receiveCheckpointInitStep_cases n₁
    · rw [harm]
      exact .arm rfl (hn₁.trans hn₂)
    · rw [hcount]
      exact .aside rfl (hn₁.trans hn₂)
  · exact .aside rfl (hn₁.trans hn')

theorem nodeStep_turn {n n' : Node} {b : NodeAction} (h : nodeStep n b = .ok n') :
    NodeTurn n b n' := by
  cases b with
  | act a =>
      rw [nodeStep] at h
      split_ifs at h
      exact act_turn h
  | receive msg =>
      rw [nodeStep] at h
      split at h
      · cases h
      · split_ifs at h
        rw [mapError_eq_ok, pdesEnginePoll_eq] at h
        exact processMessage_turn h
  | sent =>
      rw [nodeStep] at h
      split at h
      · cases h
      · cases h
        exact .aside rfl (.fields rfl rfl rfl)
  | taken =>
      rw [nodeStep] at h
      split at h
      · cases h
      · cases h
        exact .aside rfl (.fields rfl rfl rfl)

end LeanPdes
