import LeanPdes.ExitProtocol
import LeanPdes.Faults

/-! The exit handshake in a node's functions. Each function makes one call of the agreement or none:
it changes the node's handshake flags as the call does, and sends the messages that the call sends. -/

namespace LeanPdes

open Words TwoParty Reach ExitProtocol

/-- The message of the handshake with a type of the ring. -/
def exitMsg (type : UInt8) : Option Msg :=
  if type = intentToEndEmulation then some .intent
  else if type = permissionToEndEmulation then some .permission
  else if type = endOfEmulation then some .finished
  else none

def Event.exitAct : Event → Option Act
  | .canStop => some .stop
  | .commSend msg => (exitMsg msg.type).map .sent
  | .processMessage msg => (exitMsg msg.type).map .got
  | _ => none

/-- The acts of the handshake in a log. -/
def exitActs (log : List Event) : List Act := log.filterMap Event.exitAct

/-- The messages of the handshake among those of a channel. -/
def exitMsgs (msgs : List Message) : List Msg := msgs.filterMap fun msg => exitMsg msg.type

/-- The node's flags of the handshake. -/
def Node.exitFlags (n : Node) : Flags where
  master := n.engine.master
  intents := n.engine.readyToExitNeighbors
  permitted := n.engine.permittedToExit
  ready := n.engine.readyToExit
  endSent := n.engine.endMessageSent
  finished := n.engine.pairHasFinished
  intentSent := n.engine.intentSent

@[simp] theorem exitActs_append (l l' : List Event) :
    exitActs (l ++ l') = exitActs l ++ exitActs l' :=
  List.filterMap_append

@[simp] theorem exitMsgs_append (l l' : List Message) :
    exitMsgs (l ++ l') = exitMsgs l ++ exitMsgs l' :=
  List.filterMap_append

theorem exitMsgs_sentIn (log : List Event) : exitMsgs (sentIn log) = sends (exitActs log) := by
  rw [exitMsgs, sentIn, sends, exitActs, List.filterMap_filterMap, List.filterMap_filterMap]
  congr 1
  funext e
  cases e with
  | commSend msg => cases hmsg : exitMsg msg.type <;> simp [Event.exitAct, hmsg]
  | processMessage msg => cases hmsg : exitMsg msg.type <;> simp [Event.exitAct, hmsg]
  | _ => rfl

/-- The node has come to the flags of `r` and has done the acts of `r`. -/
structure Does (n n' : Node) (r : Flags × List Act) : Prop where
  flags : n'.exitFlags = r.1
  exited : n'.exitCalled = n.exitCalled
  emits : ∃ evs, Emits n n' evs ∧ exitActs evs = r.2

theorem Does.acts {n n' : Node} {r : Flags × List Act} (h : Does n n' r) :
    exitActs n'.log = exitActs n.log ++ r.2 := by
  obtain ⟨evs, hemits, hacts⟩ := h.emits
  rw [hemits.log, exitActs_append, hacts]

theorem Does.inFlight {n n' : Node} {r : Flags × List Act} (h : Does n n' r) :
    exitMsgs n'.inFlight = exitMsgs n.inFlight ++ sends r.2 := by
  obtain ⟨evs, hemits, hacts⟩ := h.emits
  rw [Node.inFlight, Node.inFlight, hemits.ring, hemits.sending, ← List.append_assoc,
    exitMsgs_append, exitMsgs_sentIn, hacts]

theorem Does.trans {n n' n'' : Node} {r r' : Flags × List Act} (h : Does n n' r)
    (h' : Does n' n'' r') : Does n n'' (r'.1, r.2 ++ r'.2) := by
  obtain ⟨evs, hemits, hacts⟩ := h.emits
  obtain ⟨evs', hemits', hacts'⟩ := h'.emits
  exact ⟨h'.flags, h'.exited.trans h.exited, evs ++ evs', hemits.trans hemits',
    by rw [exitActs_append, hacts, hacts']⟩

/-- The node has done nothing that concerns the handshake. -/
abbrev Idle (n n' : Node) : Prop := Does n n' (n.exitFlags, [])

/-- Some events that are no acts of the handshake. -/
theorem Idle.of_emits {n n' : Node} (evs : List Event) (hemits : Emits n n' evs)
    (hflags : n'.exitFlags = n.exitFlags) (hexited : n'.exitCalled = n.exitCalled)
    (hacts : exitActs evs = []) : Idle n n' :=
  ⟨hflags, hexited, evs, hemits, hacts⟩

/-- The fields that tell whether a node has sent, logged or left. -/
def Node.output (n : Node) : List Message × List Message × List Event × Bool :=
  (n.ring, n.sending, n.log, n.exitCalled)

/-- A change of fields that are no part of the handshake. -/
theorem Idle.fields {n n' : Node} (hflags : n'.exitFlags = n.exitFlags)
    (houtput : n'.output = n.output) : Idle n n' := by
  simp only [Node.output, Prod.mk.injEq] at houtput
  obtain ⟨hring, hsending, hlog, hexited⟩ := houtput
  have hmessages : n'.messages = n.messages := by rw [Node.messages, hring, hsending, hlog, Node.messages]
  exact .of_emits [] (.nothing hmessages) hflags hexited rfl

theorem Idle.refl (n : Node) : Idle n n := .fields rfl rfl

theorem Idle.does {n n' n'' : Node} {r : Flags × List Act} (h : Idle n n') (h' : Does n' n'' r) :
    Does n n'' r := Does.trans h h'

/-- A change of fields that are not logged, and then a call. -/
theorem Does.of_fields {n n₁ n' : Node} {r : Flags × List Act} (h : Does n₁ n' r)
    (houtput : n₁.output = n.output) : Does n n' r := by
  simp only [Node.output, Prod.mk.injEq] at houtput
  obtain ⟨hring, hsending, hlog, hexited⟩ := houtput
  obtain ⟨evs, hemits, hacts⟩ := h.emits
  exact ⟨h.flags, h.exited.trans hexited, evs, ⟨hemits.ring.trans hring, by rw [hemits.log, hlog],
    by rw [hemits.sending, hsending]⟩, hacts⟩

/-- A call, and then a change of flags. -/
theorem Does.set {n n₁ n' : Node} {r : Flags × List Act} (h : Does n n₁ r) {flags : Flags}
    (hflags : n'.exitFlags = flags) (houtput : n'.output = n₁.output) :
    Does n n' (flags, r.2) := by
  simp only [Node.output, Prod.mk.injEq] at houtput
  obtain ⟨hring, hsending, hlog, hexited⟩ := houtput
  obtain ⟨evs, hemits, hacts⟩ := h.emits
  exact ⟨hflags, hexited.trans h.exited, evs, ⟨hring.trans hemits.ring, hlog.trans hemits.log,
    hsending.trans hemits.sending⟩, hacts⟩

/-- A call, and then nothing that concerns the handshake. -/
theorem Does.idle {n n' n'' : Node} {r : Flags × List Act} (h : Does n n' r) (h' : Idle n' n'') :
    Does n n'' r := by
  have hboth := Does.trans h h'
  rwa [List.append_nil, h.flags] at hboth

theorem pdesCommSend_does (n : Node) (msg : Message) {m : Msg} (hmsg : exitMsg msg.type = some m) :
    Does n (pdesCommSend n msg) (n.exitFlags, [.sent m]) :=
  ⟨rfl, rfl, [.commSend msg], emits_pdesCommSend n msg, by simp [exitActs, Event.exitAct, hmsg]⟩

theorem pdesCommSend_idle (n : Node) {msg : Message} (hmsg : exitMsg msg.type = none) :
    Idle n (pdesCommSend n msg) :=
  .of_emits _ (emits_pdesCommSend n msg) rfl rfl (by simp [exitActs, Event.exitAct, hmsg])

theorem sendControl_does {n n' : Node} {type : UInt8} {m : Msg} (htype : exitMsg type = some m)
    (h : sendControl n type = .ok n') : Does n n' (n.exitFlags, [.sent m]) := by
  obtain ⟨msg, hmsg, rfl⟩ := sendControl_ok h
  exact pdesCommSend_does n msg (by rw [hmsg, htype])

theorem sendControl_idle {n n' : Node} {type : UInt8} (htype : exitMsg type = none)
    (h : sendControl n type = .ok n') : Idle n n' := by
  obtain ⟨msg, hmsg, rfl⟩ := sendControl_ok h
  exact pdesCommSend_idle n (by rw [hmsg, htype])

theorem sendEndIfHandshakeComplete_does {n n' : Node}
    (h : sendEndIfHandshakeComplete n = .ok n') : Does n n' n.exitFlags.sendEnd := by
  rcases sendEndIfHandshakeComplete_ok h with ⟨rfl, hsent⟩ | ⟨hpermitted, hsent, msg, hmsg, rfl⟩
  · have hnot : ¬(n'.exitFlags.permitted && !n'.exitFlags.endSent) = true := by
      intro hboth
      rw [Bool.and_eq_true] at hboth
      have hyes : n'.exitFlags.endSent = true := hsent hboth.1
      rw [hyes] at hboth
      exact absurd hboth.2 (by decide)
    rw [Flags.sendEnd, if_neg hnot]
    exact Idle.refl n'
  · have hyes : (n.exitFlags.permitted && !n.exitFlags.endSent) = true := by
      simp [Node.exitFlags, hpermitted, hsent]
    rw [Flags.sendEnd, if_pos hyes]
    have hend : Does { n with engine.endMessageSent := true } _ _ :=
      pdesCommSend_does _ msg (by rw [hmsg]; rfl)
    exact hend.of_fields rfl

/-- The node has announced its end as far as the handshake lets it. Where END was sent with the
permission, there is nothing left to send. -/
structure Closes (n n' : Node) : Prop where
  does : ∃ call : Call, (call = .idle ∨ call = .sendEnd) ∧ Does n n' (call.apply n.exitFlags)
  needs : n'.engine.needsToCheckpoint = n.engine.needsToCheckpoint
  sending : (n.engine.permittedToExit = true → n.engine.endMessageSent = true) →
    n'.sending = n.sending

theorem Closes.refl (n : Node) : Closes n n :=
  ⟨⟨.idle, Or.inl rfl, Idle.refl n⟩, rfl, fun _ => rfl⟩

/-- Before and after the announcement other fields may change. -/
theorem Closes.fields {n n₁ n₂ n' : Node} (h : Closes n₁ n₂)
    (hflags : n₁.exitFlags = n.exitFlags) (houtput : n₁.output = n.output)
    (hneeds : n₁.engine.needsToCheckpoint = n.engine.needsToCheckpoint)
    (hafter : n'.exitFlags = n₂.exitFlags) (houtput' : n'.output = n₂.output)
    (hneeds' : n'.engine.needsToCheckpoint = n₂.engine.needsToCheckpoint) : Closes n n' := by
  obtain ⟨call, hcall, hdoes⟩ := h.does
  rw [hflags] at hdoes
  have hpermitted : n₁.engine.permittedToExit = n.engine.permittedToExit :=
    congrArg Flags.permitted hflags
  have hend : n₁.engine.endMessageSent = n.engine.endMessageSent := congrArg Flags.endSent hflags
  have hsending := h.sending
  rw [hpermitted, hend] at hsending
  refine ⟨⟨call, hcall, ?_⟩, (hneeds'.trans h.needs).trans hneeds, fun hsent => ?_⟩
  · exact (hdoes.of_fields houtput).idle (.fields hafter houtput')
  · have hsame := congrArg (fun o => o.2.1) houtput
    have hsame' := congrArg (fun o => o.2.1) houtput'
    exact (hsame'.trans (hsending hsent)).trans hsame

theorem sendEndIfHandshakeComplete_closes {n n' : Node}
    (h : sendEndIfHandshakeComplete n = .ok n') : Closes n n' := by
  have hdoes := sendEndIfHandshakeComplete_does h
  rcases sendEndIfHandshakeComplete_ok h with ⟨rfl, _⟩ | ⟨hpermitted, hnot, msg, _, rfl⟩
  · exact .refl n'
  · refine ⟨⟨.sendEnd, Or.inr rfl, hdoes⟩, rfl, fun hsent => ?_⟩
    rw [hsent hpermitted] at hnot
    cases hnot

theorem notifyNeighboursOfEnd_closes {n n' : Node} (h : notifyNeighboursOfEnd n = .ok n') :
    Closes n n' := by
  rw [notifyNeighboursOfEnd] at h
  split_ifs at h
  · cases h
    exact .refl n
  · exact (sendEndIfHandshakeComplete_closes h).fields rfl rfl rfl rfl rfl rfl

/-- `pdes_engine_destroy` leaves unless a checkpoint is pending. -/
theorem pdesEngineDestroy_closes {n n' : Node} (h : pdesEngineDestroy n = .ok n') :
    ∃ n₁, Closes n n₁ ∧
      n' = { n₁ with exitCalled := n.exitCalled || !n.engine.needsToCheckpoint } := by
  rw [pdesEngineDestroy, bind_eq_ok] at h
  obtain ⟨n₁, hnotify, h⟩ := h
  have hcloses := notifyNeighboursOfEnd_closes hnotify
  obtain ⟨_, _, hdoes⟩ := hcloses.does
  split_ifs at h with hneeds
  · rw [hcloses.needs] at hneeds
    refine ⟨n', ?_, ?_⟩ <;> cases h
    · exact hcloses.fields rfl rfl rfl rfl rfl rfl
    · rw [hneeds, ← hdoes.exited, Bool.not_true, Bool.or_false]
  · cases h
    rw [hcloses.needs, Bool.not_eq_true] at hneeds
    refine ⟨destroyStrategy n₁, hcloses.fields rfl rfl rfl rfl rfl rfl, ?_⟩
    rw [hneeds, Bool.not_false, Bool.or_true]

theorem grantPermission_does {n n' : Node} (h : grantPermission n = .ok n') :
    Does n n' n.exitFlags.grant := by
  rw [grantPermission, bind_eq_ok] at h
  obtain ⟨n₁, hsend, h⟩ := h
  have hset := sendControl_does (n := { n with engine.permittedToExit := true }) rfl hsend
  have hend := sendEndIfHandshakeComplete_does h
  rw [hset.flags] at hend
  exact (Does.trans hset hend).of_fields rfl

theorem canStop_does {n n' : Node} {r : Bool} (h : canStop n = .ok (r, n')) :
    Does n n' n.exitFlags.stop := by
  rw [canStop, bind_eq_ok] at h
  obtain ⟨n₁, harm, h⟩ := h
  have hcalled : Does n { n with log := n.log ++ [.canStop] } (n.exitFlags, [.stop]) :=
    ⟨rfl, rfl, [.canStop], .logs rfl rfl, rfl⟩
  have hask : Does { n with log := n.log ++ [.canStop] } n₁ n.exitFlags.ask := by
    rw [Flags.ask]
    split_ifs at harm with hslave hsent hgrant
    · obtain ⟨n₂, hsend, harm⟩ := bind_eq_ok.mp harm
      cases harm
      have hintent := sendControl_does (m := .intent) rfl hsend
      rw [if_neg (by simpa [Node.exitFlags] using hslave),
        if_neg (by simpa [Node.exitFlags] using hsent)]
      refine hintent.set ?_ rfl
      exact congrArg (fun flags : Flags => { flags with intentSent := true }) hintent.flags
    · cases harm
      rw [if_neg (by simpa [Node.exitFlags] using hslave),
        if_pos (by simpa [Node.exitFlags] using hsent)]
      exact Idle.refl _
    · rw [if_pos (by simpa [Node.exitFlags] using hslave),
        if_pos ⟨hgrant.1, by simpa [Node.exitFlags] using hgrant.2⟩]
      exact grantPermission_does harm
    · cases harm
      rw [if_pos (by simpa [Node.exitFlags] using hslave),
        if_neg (by simpa [Node.exitFlags] using hgrant)]
      exact Idle.refl _
  have hboth := Does.trans hcalled hask
  cases h
  refine hboth.set ?_ rfl
  exact congrArg (fun flags : Flags => { flags with ready := true }) hboth.flags

/-- `can_stop` returns true only where the neighbour is known to have finished. -/
theorem canStop_true {n n' : Node} (h : canStop n = .ok (true, n')) :
    n.engine.pairHasFinished = true := by
  have hflags := congrArg Flags.finished (canStop_does h).flags
  rw [Flags.stop_finished] at hflags
  rw [canStop, bind_eq_ok] at h
  obtain ⟨n₁, _, h⟩ := h
  simp only [pure, Except.pure, Except.ok.injEq, Prod.mk.injEq, Bool.and_eq_true] at h
  obtain ⟨⟨_, hfinished⟩, rfl⟩ := h
  exact hflags.symm.trans hfinished

theorem wwtSyncCheckMaster_does {n n' : Node} (h : wwtSyncCheckMaster n = .ok n') :
    Does n n' n.exitFlags.check := by
  rw [wwtSyncCheckMaster] at h
  rw [Flags.check]
  split_ifs at h with hmaster hgrant
  · rw [if_pos ⟨hmaster, hgrant.1, hgrant.2.1, by simpa [Node.exitFlags] using hgrant.2.2⟩]
    exact grantPermission_does h
  · cases h
    rw [if_neg fun hall => hgrant ⟨hall.2.1, hall.2.2.1, by simpa [Node.exitFlags] using hall.2.2.2⟩]
    exact Idle.refl n
  · cases h
    rw [if_neg fun hall => hmaster hall.1]
    exact Idle.refl n

theorem logReceive_does (n : Node) {msg : Message} {m : Msg} (hmsg : exitMsg msg.type = some m) :
    Does n (n.logReceive msg) (n.exitFlags, [.got m]) :=
  ⟨rfl, rfl, [.processMessage msg], .logs rfl rfl,
    by simp [exitActs, Event.exitAct, hmsg]⟩

theorem logReceive_idle (n : Node) {msg : Message} (hmsg : exitMsg msg.type = none) :
    Idle n (n.logReceive msg) :=
  .of_emits [.processMessage msg] (.logs rfl rfl) rfl rfl
    (by simp [exitActs, Event.exitAct, hmsg])

theorem wwtReciviedCallback_idle {n n' : Node} {msg : Message}
    (h : wwtReciviedCallback n msg = .ok n') : Idle n n' := by
  obtain ⟨hengine, hexited, hemits⟩ := wwtReciviedCallback_frame h
  exact .of_emits [] hemits (by rw [Node.exitFlags, Node.exitFlags, hengine]) hexited rfl

theorem setCheckpointValuesForMaster_idle (n : Node) : Idle n (setCheckpointValuesForMaster n) :=
  .of_emits [.setCheckpointValues n.wwt.currentQuantumRound]
    (.logs rfl rfl) rfl rfl rfl

theorem receiveDrainStart_idle {n n' : Node} {msg : Message}
    (h : receiveDrainStart n msg = .ok n') : Idle n n' := by
  simp only [receiveDrainStart] at h
  split_ifs at h
  · cases h
    exact .fields rfl rfl
  · cases h
    exact .fields rfl rfl

theorem receiveCheckpointInitStep_idle (n : Node) : Idle n (receiveCheckpointInitStep n) := by
  rw [receiveCheckpointInitStep]
  have hcount : Idle n { n with engine.initFlag := int32 (n.engine.initFlag + 1) } :=
    .fields rfl rfl
  split_ifs
  · exact hcount.idle (setCheckpointValuesForMaster_idle _)
  · exact hcount

/-- The type of a message of the handshake. -/
def exitType : Msg → UInt8
  | .intent => intentToEndEmulation
  | .permission => permissionToEndEmulation
  | .finished => endOfEmulation

theorem exitMsg_eq_some {type : UInt8} {m : Msg} (h : exitMsg type = some m) :
    type = exitType m := by
  rw [exitMsg] at h
  split_ifs at h with hintent hpermission hend <;> cases h <;> assumption

theorem processControl_does {n n' : Node} {msg : Message} {m : Msg}
    (hmsg : exitMsg msg.type = some m) (h : processControl n msg = .ok n') :
    Does n n' (n.exitFlags.process m) := by
  rw [processControl, exitMsg_eq_some hmsg] at h
  cases m with
  | intent =>
      cases h
      rw [Flags.process]
      by_cases hmaster : n.exitFlags.master = true
      · rw [if_pos hmaster, if_pos ⟨rfl, hmaster⟩]
        exact (Idle.refl n).set rfl rfl
      · rw [if_neg hmaster, if_neg fun hboth => hmaster hboth.2]
        exact Idle.refl n
  | permission =>
      obtain ⟨n₁, hpermission, h⟩ := bind_eq_ok.mp h
      cases h
      have hset : Does { n with engine.permittedToExit := true } n' _ :=
        sendEndIfHandshakeComplete_does hpermission
      exact hset.of_fields rfl
  | finished =>
      have hintent : ¬(exitType .finished = intentToEndEmulation ∧ n.engine.master = true) :=
        fun hboth => absurd hboth.1 (by decide)
      have hpermission : exitType .finished ≠ permissionToEndEmulation := by decide
      have hend : exitType .finished = endOfEmulation := rfl
      simp only [if_neg hintent, if_neg hpermission, if_pos hend] at h
      obtain ⟨n₁, hn₁, h⟩ := bind_eq_ok.mp h
      cases hn₁
      obtain ⟨n₂, hn₂, h⟩ := bind_eq_ok.mp h
      split_ifs at hn₂
      cases hn₂
      cases h
      exact (Idle.refl n).set rfl rfl

theorem processControl_idle {n n' : Node} {msg : Message} (hmsg : exitMsg msg.type = none)
    (h : processControl n msg = .ok n') : Idle n n' := by
  rw [exitMsg] at hmsg
  split_ifs at hmsg with hintent hpermission hend
  simp only [processControl, hintent, hpermission, hend, false_and, if_false] at h
  obtain ⟨n₁, hn₁, h⟩ := bind_eq_ok.mp h
  cases hn₁
  obtain ⟨n₂, hn₂, h⟩ := bind_eq_ok.mp h
  cases hn₂
  split_ifs at h
  · exact receiveDrainStart_idle h
  · cases h
    exact .fields rfl rfl
  · cases h
    exact Idle.refl n
  · cases h
    exact receiveCheckpointInitStep_idle n
  · cases h
    exact Idle.refl n

/-- A message of the handshake is processed as the agreement processes it. -/
theorem processMessage_does {n n' : Node} {msg : Message} {m : Msg}
    (hmsg : exitMsg msg.type = some m) (h : processMessage n msg = .ok n') :
    Does n n' (n.exitFlags.receive m) := by
  rw [processMessage, bind_eq_ok] at h
  obtain ⟨n₁, hcallback, h⟩ := h
  have hidle := wwtReciviedCallback_idle hcallback
  have hprocess := processControl_does hmsg h
  rw [hidle.flags] at hprocess
  exact Does.trans (logReceive_does n hmsg) (hidle.does hprocess)

theorem processMessage_idle {n n' : Node} {msg : Message} (hmsg : exitMsg msg.type = none)
    (h : processMessage n msg = .ok n') : Idle n n' := by
  rw [processMessage, bind_eq_ok] at h
  obtain ⟨n₁, hcallback, h⟩ := h
  exact (logReceive_idle n hmsg).idle
    ((wwtReciviedCallback_idle hcallback).idle (processControl_idle hmsg h))

theorem processMessage_exited {n n' : Node} {msg : Message} (h : processMessage n msg = .ok n') :
    n'.exitCalled = n.exitCalled := by
  cases hmsg : exitMsg msg.type with
  | none => exact (processMessage_idle hmsg h).exited
  | some m => exact (processMessage_does hmsg h).exited

/-! ### The functions that are no part of the handshake -/

theorem createMessage_idle {n : Node} {data : List UInt8} {type : UInt8} {tsNs : Int} {msg : Message}
    (htype : exitMsg type = none) (h : createMessage data type tsNs = .ok msg) :
    Idle n (pdesCommSend n msg) :=
  pdesCommSend_idle n (by rw [(createMessage_ok h).2.2.2, htype])

theorem wwtSend_idle {n n' : Node} {data : List UInt8} (h : wwtSend n data = .ok n') : Idle n n' := by
  obtain ⟨msg, hmsg, rfl⟩ := wwtSend_ok h
  have hlog : Idle n (n.logSend data) :=
    .of_emits [.wwtSend n.wwt.currentQuantumRound n.universalTime data]
      (.logs rfl rfl) rfl rfl rfl
  exact hlog.idle (createMessage_idle rfl hmsg)

theorem sendSync_idle {n n' : Node} (h : sendSync n = .ok n') : Idle n n' := by
  obtain ⟨time, msg, hmsg, rfl⟩ := sendSync_ok h
  have hfirst : Idle n { n with engine.firstSyncTime := time } := .fields rfl rfl
  exact hfirst.idle (createMessage_idle rfl hmsg)

theorem finishInitiateCheckpoint_idle {n n' : Node} (h : finishInitiateCheckpoint n = .ok n') :
    Idle n n' := by
  simp only [finishInitiateCheckpoint] at h
  split_ifs at h
  · cases h
    have hset : Idle n { n with engine.masterInit := true } := .fields rfl rfl
    exact hset.idle (setCheckpointValuesForMaster_idle _)
  · cases h
    exact .fields rfl rfl
  · exact sendControl_idle rfl h

theorem notifyNeighborsForDrain_idle {n n' : Node} {name : List UInt8} {format : SnapshotFormat}
    {r : Int} (h : notifyNeighborsForDrain n name format = .ok (r, n')) : Idle n n' := by
  rcases notifyNeighborsForDrain_ok h with ⟨rfl, _⟩ | ⟨rfl, _⟩ | ⟨msg, htype, _, _, _, rfl⟩
  · exact Idle.refl n'
  · exact .fields rfl rfl
  · have hset : Idle n { n with engine.notifiedNeighbors := true } := .fields rfl rfl
    exact hset.idle (pdesCommSend_idle _ (by rw [htype]; rfl))

theorem quantaSync_idle {n n' : Node} (h : quantaSync n = .ok n') : Idle n n' := by
  obtain ⟨paused, pauseBh, rfl⟩ := quantaSync_changes h
  exact .fields rfl rfl

theorem drain_idle {n n' : Node} {needed : Prop} [Decidable needed]
    (h : (if needed then Prod.snd <$> notifyNeighborsForDrain n n.engine.checkpointName
      n.engine.checkpointFormat else .ok n) = .ok n') : Idle n n' := by
  rcases drain_cases h with ⟨_, r, hdrain⟩ | ⟨_, rfl⟩
  · exact notifyNeighborsForDrain_idle hdrain
  · exact Idle.refl n'

theorem quantaSyncFinish_idle {n n' : Node} (h : quantaSyncFinish n = .ok n') : Idle n n' := by
  rw [quantaSyncFinish, bind_eq_ok] at h
  obtain ⟨n₁, hdrain, h⟩ := h
  obtain ⟨n₂, hsend, h⟩ := bind_eq_ok.mp h
  have hn₂ : Idle n₁ n₂ := by
    split_ifs at hsend
    · exact sendSync_idle hsend
    · cases hsend
      exact Idle.refl n₁
  have hboth := (drain_idle hdrain).idle hn₂
  split_ifs at h
  cases h
  exact hboth.idle (.fields rfl rfl)

theorem syncCheckpointCheck_idle {n n' : Node} {held : Bool}
    (h : syncCheckpointCheck n = .ok (held, n')) : Idle n n' := by
  rcases syncCheckpointCheck_cases h with ⟨_, _, rfl⟩ | ⟨_, n₁, hdrain, hend⟩
  · exact Idle.refl n'
  · have hn₁ := drain_idle hdrain
    rcases hend with ⟨_, rfl, _⟩ | ⟨_, rfl, _⟩
    · exact hn₁
    · exact hn₁.idle (.fields rfl rfl)

theorem beginQuantum_idle (n : Node) : Idle n (beginQuantum n) := by
  rw [beginQuantum]
  split_ifs <;> exact .fields rfl rfl

/-- The end of `wwt_sync_check` is the master's check, unless the round is held. -/
theorem wwtSyncCheckFinish_does {n n' : Node} (h : wwtSyncCheckFinish n = .ok n') :
    Idle n n' ∨ Does n n' n.exitFlags.check := by
  rw [wwtSyncCheckFinish, bind_eq_ok] at h
  obtain ⟨⟨held, n₁⟩, hcheck, h⟩ := h
  have hskip : Idle n { n with engine.skipBoundryCheckAfterCheckpoint := false } := .fields rfl rfl
  have hn₁ := hskip.idle (syncCheckpointCheck_idle hcheck)
  cases held with
  | true =>
      cases h
      exact Or.inl hn₁
  | false =>
      obtain ⟨n₂, hmaster, h⟩ := bind_eq_ok.mp h
      cases h
      have hfreed : Idle n { n₁ with wwt.syncCheckTimer := .null } := hn₁.idle (.fields rfl rfl)
      have hcall := wwtSyncCheckMaster_does hmaster
      rw [hfreed.flags] at hcall
      exact Or.inr ((hfreed.does hcall).idle (beginQuantum_idle n₂))

theorem saveCheckpoint_idle (n : Node) : Idle n (saveCheckpoint n) :=
  .of_emits [.saveSnapshot ..] (.logs rfl rfl) rfl rfl rfl

end LeanPdes
