import LeanPdes.ExitCalls

/-! The exit handshake of one master and one follower, with its calls in any order. Whatever the two
nodes call, they stay in a phase of the agreement, and what has been agreed on shows that no assert
of the handshake fails and that nobody leaves alone. -/

namespace LeanPdes

open Words TwoParty Reach ExitProtocol

/-- The nodes are in a phase of the agreement: their flags and the messages of the handshake on the
way are those of the phase, and the flags tell what each node has done. -/
structure InAgreement (master : Side → Bool) (s : System) : Prop where
  phase : ∃ phase : Phase, ∀ i, (s i).exitFlags = phase.flags (master i) ∧
    exitMsgs (s i).inFlight = phase.onTheWay (master i)
  told : ∀ i, Told (s i).exitFlags (exitActs (s i).log)

/-- One node is the master. -/
def OneMaster (master : Side → Bool) : Prop := ∀ i, master i.peer = !master i

instance (master : Side → Bool) : Decidable (OneMaster master) :=
  inferInstanceAs (Decidable (∀ i, master i.peer = !master i))

/-- Node `i` has made a call of the handshake and nothing else has happened to it. -/
structure Follows (s s' : System) (i : Side) (call : Call) : Prop where
  flags : (s' i).exitFlags = (call.apply (s i).exitFlags).1
  acts : exitActs (s' i).log = exitActs (s i).log ++ (call.apply (s i).exitFlags).2
  msgs : exitMsgs (s' i).inFlight =
    exitMsgs (s i).inFlight ++ sends (call.apply (s i).exitFlags).2
  peerFlags : (s' i.peer).exitFlags = (s i.peer).exitFlags
  peerLog : (s' i.peer).log = (s i.peer).log
  taken : exitMsgs (s i.peer).inFlight = call.taken ++ exitMsgs (s' i.peer).inFlight

/-- A callback of one node, up to where its messages are and whether it has left. -/
theorem Follows.call {s : System} {i : Side} {call : Call} {n₁ n' : Node}
    (htaken : call.taken = []) (h : Does (s i) n₁ (call.apply (s i).exitFlags))
    (hflags : n'.exitFlags = n₁.exitFlags) (hlog : n'.log = n₁.log)
    (hmsgs : n'.inFlight = n₁.inFlight) : Follows s (Function.update s i n') i call where
  flags := by rw [Function.update_self, hflags, h.flags]
  acts := by rw [Function.update_self, hlog, h.acts]
  msgs := by rw [Function.update_self, hmsgs, h.inFlight]
  peerFlags := by rw [Function.update_of_ne (Side.peer_ne i)]
  peerLog := by rw [Function.update_of_ne (Side.peer_ne i)]
  taken := by rw [Function.update_of_ne (Side.peer_ne i), htaken, List.nil_append]

/-- One message of the neighbour is taken and processed. -/
theorem Follows.receive {s : System} {i : Side} {msg : Message} {rest : List Message}
    {n₁ : Node} (n' : Node) (hring : (s i.peer).ring = msg :: rest) (h : processMessage (s i) msg = .ok n₁)
    (hflags : n'.exitFlags = n₁.exitFlags) (hlog : n'.log = n₁.log)
    (hmsgs : n'.inFlight = n₁.inFlight) :
    ∃ call, Follows s
      (Function.update (Function.update s i.peer { s i.peer with ring := rest }) i n') i call := by
  obtain ⟨call, hdoes, htaken⟩ : ∃ call : Call, Does (s i) n₁ (call.apply (s i).exitFlags) ∧
      call.taken = (exitMsg msg.type).toList := by
    cases hmsg : exitMsg msg.type with
    | none => exact ⟨.idle, processMessage_idle hmsg h, rfl⟩
    | some m => exact ⟨.receive m, processMessage_does hmsg h, rfl⟩
  have hpeer : (Function.update (Function.update s i.peer { s i.peer with ring := rest }) i n')
      i.peer = { s i.peer with ring := rest } := by
    rw [Function.update_of_ne (Side.peer_ne i), Function.update_self]
  refine ⟨call, ?_, ?_, ?_, ?_, ?_, ?_⟩
  · rw [Function.update_self, hflags, hdoes.flags]
  · rw [Function.update_self, hlog, hdoes.acts]
  · rw [Function.update_self, hmsgs, hdoes.inFlight]
  · rw [hpeer]
    rfl
  · rw [hpeer]
  · have hsplit : (s i.peer).inFlight = [msg] ++ ({ s i.peer with ring := rest } : Node).inFlight := by
      rw [Node.inFlight, hring]
      rfl
    rw [hpeer, hsplit, exitMsgs_append, htaken]
    cases hmsg : exitMsg msg.type <;> simp [exitMsgs, hmsg]

theorem mem_exitActs_stop {log : List Event} : .stop ∈ exitActs log ↔ Event.canStop ∈ log := by
  rw [exitActs, List.mem_filterMap]
  constructor
  · rintro ⟨e, hmem, he⟩
    cases e with
    | canStop => exact hmem
    | commSend msg => simp [Event.exitAct] at he
    | processMessage msg => simp [Event.exitAct] at he
    | _ => cases he
  · exact fun hmem => ⟨.canStop, hmem, rfl⟩

theorem InAgreement.master {master : Side → Bool} {s : System} (h : InAgreement master s) (i : Side) :
    (s i).exitFlags.master = master i := by
  obtain ⟨phase, hphase⟩ := h.phase
  rw [(hphase i).1, Phase.flags_master]

section

variable {master : Side → Bool} (hroles : OneMaster master)
include hroles

theorem InAgreement.follows {s s' : System} {i : Side} {call : Call} (h : InAgreement master s)
    (hcall : Follows s s' i call) : InAgreement master s' := by
  obtain ⟨phase, hphase⟩ := h.phase
  obtain ⟨hself, hmsgs⟩ := hphase i
  obtain ⟨hpeer, hpeerMsgs⟩ := hphase i.peer
  rw [hroles i] at hpeer hpeerMsgs
  have htaken := hcall.taken
  rw [hpeerMsgs] at htaken
  obtain ⟨hflags, hpeerFlags, hway, hrest⟩ := Phase.next_call htaken
  rw [← hself] at hflags hway
  refine ⟨⟨phase.next (master i) call, ?_⟩, ?_⟩
  · refine Side.forall_of_self_peer i ?_ ?_
    · rw [hcall.flags, hcall.msgs, hmsgs]
      exact ⟨hflags, hway⟩
    · rw [hroles i, hcall.peerFlags, hpeer]
      exact ⟨hpeerFlags, hrest⟩
  · refine Side.forall_of_self_peer i ?_ ?_
    · rw [hcall.flags, hcall.acts]
      refine (h.told i).call fun hpermission => ?_
      have hhead : Msg.permission ∈ (phase.onTheWay (!master i)).head? := by
        rw [htaken, hpermission]
        rfl
      rw [hself, Phase.flags_master]
      exact Phase.not_master_of_permission hhead
    · rw [hcall.peerFlags, hcall.peerLog]
      exact h.told i.peer

/-- Where a node knows that its neighbour has finished, it may exit, and both nodes are ready. -/
theorem InAgreement.finished {s : System} (h : InAgreement master s) {i : Side}
    (hfinished : (s i).engine.pairHasFinished = true) :
    (s i).engine.permittedToExit = true ∧
      ∀ j, (s j).engine.readyToExit = true ∧ Event.canStop ∈ (s j).log := by
  obtain ⟨phase, hphase⟩ := h.phase
  have hself := (hphase i).1
  have hpeer := (hphase i.peer).1
  rw [hroles i] at hpeer
  have hflag : (phase.flags (master i)).finished = true := by
    rw [← hself]
    exact hfinished
  obtain ⟨hpermitted, hready, hpeerReady⟩ := Phase.ready_of_finished hflag
  rw [← hself] at hpermitted hready
  rw [← hpeer] at hpeerReady
  refine ⟨hpermitted, Side.forall_of_self_peer i ?_ ?_⟩
  · exact ⟨hready, mem_exitActs_stop.mp ((h.told i).ready hready)⟩
  · exact ⟨hpeerReady, mem_exitActs_stop.mp ((h.told i.peer).ready hpeerReady)⟩

/-- The last message of the handshake reaches only a node that may exit. -/
theorem InAgreement.permitted_of_end {s : System} (h : InAgreement master s) {i : Side}
    {msg : Message} {rest : List Message} (hring : (s i.peer).ring = msg :: rest)
    (htype : msg.type = endOfEmulation) : (s i).engine.permittedToExit = true := by
  obtain ⟨phase, hphase⟩ := h.phase
  have hpeer := (hphase i.peer).2
  rw [hroles i] at hpeer
  have hhead : Msg.finished ∈ (phase.onTheWay (!master i)).head? := by
    rw [← hpeer, Node.inFlight, hring, exitMsgs]
    simp [htype, exitMsg, endOfEmulation, intentToEndEmulation, permissionToEndEmulation]
  have hpermitted := Phase.permitted_of_finished hhead
  rwa [← (hphase i).1] at hpermitted

end

theorem created_exitFlags (cfg : Config) (i : Side) :
    (cfg.created i).exitFlags = (Phase.running false).flags (cfg.master i) := by
  rw [Phase.flags, Bool.and_false]
  rfl

theorem inAgreement_created (cfg : Config) : InAgreement cfg.master cfg.created where
  phase := ⟨.running false, fun i => ⟨created_exitFlags cfg i, rfl⟩⟩
  told i := by
    rw [created_exitFlags]
    exact told_start (cfg.master i)

/-! ### The calls in any order -/

/-- The calls of the handshake. Each is atomic: when it returns, its messages are in the ring. -/
inductive ExitCall
  | canStop
  | processMessage
  | wwtSyncCheckMaster
  | notifyNeighboursOfEnd
  /-- The body of the wait loop of `wwt_sync_check`, with its exit branch. -/
  | waitLoop
  /-- A message that is no part of the handshake is sent. -/
  | commSend (msg : Message)
  deriving DecidableEq

def Node.exitCall (n : Node) : ExitCall → Except Fault Node
  | .canStop => (LeanPdes.canStop n).map Prod.snd
  | .processMessage => .ok n
  | .wwtSyncCheckMaster => LeanPdes.wwtSyncCheckMaster n
  | .notifyNeighboursOfEnd => LeanPdes.notifyNeighboursOfEnd n
  | .waitLoop => pollReturn n .waitLoop
  | .commSend msg => .ok (if exitMsg msg.type = none then pdesCommSend n msg else n)

/-- The pending sends of a node enter its ring. -/
def Node.flush (n : Node) : Node := { n with ring := n.inFlight, sending := [] }

/-- One call of a node that has not left. -/
def exitStep (s : System) : Side × ExitCall → Except Halt System
  | (i, .processMessage) =>
      match (s i.peer).ring with
      | [] => .error .disabled
      | msg :: rest =>
          if (s i).exitCalled = false then do
            let n ← (processMessage (s i) msg).mapError Halt.fault
            return Function.update (Function.update s i.peer { s i.peer with ring := rest }) i n.flush
          else .error .disabled
  | (i, call) =>
      if (s i).exitCalled = false then do
        let n ← ((s i).exitCall call).mapError Halt.fault
        return Function.update s i n.flush
      else .error .disabled

theorem flush_inFlight (n : Node) : n.flush.inFlight = n.inFlight := by
  rw [Node.inFlight, Node.flush, List.append_nil]

/-- A call leaves the simulation only from the exit branch of the wait loop. -/
theorem exitCall_does {n n' : Node} {c : ExitCall} (h : n.exitCall c = .ok n') :
    ∃ (call : Call) (n₁ : Node) (left : Bool), call.taken = [] ∧
      Does n n₁ (call.apply n.exitFlags) ∧ n' = { n₁ with exitCalled := left } ∧
      (left = true → n.exitCalled = true ∨ n.engine.pairHasFinished = true) := by
  have stays (call : Call) (htaken : call.taken = [])
      (hdoes : Does n n' (call.apply n.exitFlags)) :
      ∃ (call : Call) (n₁ : Node) (left : Bool), call.taken = [] ∧
        Does n n₁ (call.apply n.exitFlags) ∧ n' = { n₁ with exitCalled := left } ∧
        (left = true → n.exitCalled = true ∨ n.engine.pairHasFinished = true) :=
    ⟨call, n', n'.exitCalled, htaken, hdoes, rfl, fun hleft => Or.inl (hdoes.exited ▸ hleft)⟩
  cases c with
  | canStop =>
      rw [Node.exitCall] at h
      obtain ⟨r, hcall⟩ := map_snd_eq_ok h
      exact stays .stop rfl (canStop_does hcall)
  | processMessage =>
      cases h
      exact stays .idle rfl (Idle.refl n)
  | wwtSyncCheckMaster => exact stays .check rfl (wwtSyncCheckMaster_does h)
  | notifyNeighboursOfEnd =>
      obtain ⟨call, hcall, hdoes⟩ := (notifyNeighboursOfEnd_closes h).does
      rcases hcall with rfl | rfl <;> exact stays _ rfl hdoes
  | waitLoop =>
      rw [Node.exitCall, pollReturn] at h
      split_ifs at h with hfinished
      · obtain ⟨n₁, hcloses, hn'⟩ := pdesEngineDestroy_closes h
        obtain ⟨call, hcall, hdoes⟩ := hcloses.does
        refine ⟨call, n₁, _, ?_, hdoes.of_fields rfl, hn', fun _ => Or.inr hfinished⟩
        rcases hcall with rfl | rfl <;> rfl
      · cases h
        exact stays .idle rfl (Idle.fields rfl rfl)
  | commSend msg =>
      cases h
      refine stays .idle rfl ?_
      split_ifs with hmsg
      · exact pdesCommSend_idle n hmsg
      · exact Idle.refl n

theorem exitStep_of_ne {s : System} {i : Side} {c : ExitCall} (hc : c ≠ .processMessage) :
    exitStep s (i, c) = if (s i).exitCalled = false then do
      let n ← ((s i).exitCall c).mapError Halt.fault
      return Function.update s i n.flush
    else .error .disabled := by
  cases c <;> first | rfl | contradiction

/-- A step is a call of the agreement, and a node leaves only where it knows that its neighbour has
finished. -/
theorem exitStep_follows {s s' : System} {i : Side} {c : ExitCall}
    (h : exitStep s (i, c) = .ok s') :
    ∃ call, Follows s s' i call ∧ ∀ j, (s' j).exitCalled = true →
      (s j).exitCalled = true ∨ (s i).engine.pairHasFinished = true := by
  by_cases hc : c = .processMessage
  · subst hc
    rw [exitStep] at h
    split at h
    · cases h
    · rename_i msg rest hring
      split_ifs at h
      obtain ⟨n', hn', h⟩ := bind_eq_ok.mp h
      rw [mapError_eq_ok] at hn'
      cases h
      obtain ⟨call, hcall⟩ :=
        Follows.receive n'.flush hring hn' rfl rfl (flush_inFlight n')
      refine ⟨call, hcall, Side.forall_of_self_peer i ?_ ?_⟩
      · rw [Function.update_self, Node.flush, processMessage_exited hn']
        exact Or.inl
      · rw [Function.update_of_ne (Side.peer_ne i), Function.update_self]
        exact Or.inl
  · rw [exitStep_of_ne hc] at h
    split_ifs at h
    obtain ⟨n', hn', h⟩ := bind_eq_ok.mp h
    rw [mapError_eq_ok] at hn'
    cases h
    obtain ⟨call, n₁, left, htaken, hdoes, rfl, hleft⟩ := exitCall_does hn'
    refine ⟨call, .call htaken hdoes rfl rfl (flush_inFlight _), Side.forall_of_self_peer i ?_ ?_⟩
    · rw [Function.update_self]
      exact hleft
    · rw [Function.update_of_ne (Side.peer_ne i)]
      exact Or.inl

/-- The nodes agree, and whoever has left has left after both nodes were asked to stop. -/
structure ExitSafe (master : Side → Bool) (s : System) : Prop where
  agreement : InAgreement master s
  left : ∀ i, (s i).exitCalled = true → ∀ j, Event.canStop ∈ (s j).log

theorem Follows.canStop {s s' : System} {i j : Side} {call : Call} (h : Follows s s' i call)
    (hmem : Event.canStop ∈ (s j).log) : Event.canStop ∈ (s' j).log := by
  rw [← mem_exitActs_stop] at hmem ⊢
  rcases Side.eq_or_eq_peer i j with rfl | rfl
  · rw [h.acts]
    exact List.mem_append_left _ hmem
  · rwa [h.peerLog]

theorem ExitSafe.step {master : Side → Bool} (hroles : OneMaster master) {s s' : System}
    {ic : Side × ExitCall} (hsafe : ExitSafe master s) (h : exitStep s ic = .ok s') :
    ExitSafe master s' := by
  obtain ⟨call, hcall, hexit⟩ := exitStep_follows h
  refine ⟨hsafe.agreement.follows hroles hcall, fun i hleft j => hcall.canStop ?_⟩
  rcases hexit i hleft with hleft | hfinished
  · exact hsafe.left i hleft j
  · exact ((hsafe.agreement.finished hroles hfinished).2 j).2

/-- The states that two created nodes reach by calls of the handshake. -/
abbrev Config.ReachesByCalls (cfg : Config) : System → Prop :=
  Reachable exitStep (fun _ _ _ => True) (· = cfg.created)

theorem reachesByCalls_exitSafe {cfg : Config} (hroles : OneMaster cfg.master) {s : System}
    (hs : cfg.ReachesByCalls s) : ExitSafe cfg.master s := by
  refine hs.invariant ?_ fun s a s' _ hsafe hstep _ => hsafe.step hroles hstep
  rintro s rfl
  refine ⟨inAgreement_created cfg, fun i hleft => ?_⟩
  cases hleft

theorem exitCall_fault {n : Node} {c : ExitCall} {f : Fault} (h : n.exitCall c = .error f)
    (hf : f ∈ protocolFaults) :
    n.engine.pairHasFinished = true ∧ n.engine.permittedToExit = false := by
  cases c with
  | canStop => exact absurd hf ((canStop_calls n).map.quiet f h)
  | processMessage => cases h
  | wwtSyncCheckMaster => exact absurd hf ((wwtSyncCheckMaster_calls n).quiet f h)
  | notifyNeighboursOfEnd => exact absurd hf ((notifyNeighboursOfEnd_calls n).quiet f h)
  | waitLoop =>
      rw [Node.exitCall, pollReturn] at h
      split_ifs at h with hfinished hpermitted
      · exact ⟨hfinished, by simpa using hpermitted⟩
      · exact absurd hf ((pdesEngineDestroy_calls _).quiet f h)
  | commSend msg => cases h

/-- The asserts of the handshake never fail. -/
theorem InAgreement.no_fault {master : Side → Bool} (hroles : OneMaster master) {s : System}
    (h : InAgreement master s) (i : Side) (c : ExitCall) :
    exitStep s (i, c) ≠ .error (.fault .endBeforePermission) ∧
    exitStep s (i, c) ≠ .error (.fault .finishedBeforePermission) := by
  suffices hall : ∀ f, exitStep s (i, c) = .error (.fault f) →
      f ≠ .endBeforePermission ∧ f ≠ .finishedBeforePermission from
    ⟨fun hfault => (hall _ hfault).1 rfl, fun hfault => (hall _ hfault).2 rfl⟩
  intro f hfault
  by_cases hc : c = .processMessage
  · subst hc
    rw [exitStep] at hfault
    split at hfault
    · cases hfault
    · rename_i msg rest hring
      split_ifs at hfault
      · rcases bind_eq_error.mp hfault with hfault | ⟨n', _, hfault⟩
        · rw [mapError_fault] at hfault
          constructor
          · rintro rfl
            cases processMessage_fault hfault (by decide) with
            | finished htype hpermitted =>
                rw [h.permitted_of_end hroles hring htype] at hpermitted
                cases hpermitted
          · rintro rfl
            cases processMessage_fault hfault (by decide)
        · cases hfault
      · cases hfault
  · rw [exitStep_of_ne hc] at hfault
    split_ifs at hfault
    · rcases bind_eq_error.mp hfault with hfault | ⟨n', _, hfault⟩
      · rw [mapError_fault] at hfault
        have hnot : f ∉ protocolFaults := by
          intro hf
          obtain ⟨hfinished, hpermitted⟩ := exitCall_fault hfault hf
          rw [(h.finished hroles hfinished).1] at hpermitted
          cases hpermitted
        exact ⟨fun heq => hnot (by rw [heq]; decide), fun heq => hnot (by rw [heq]; decide)⟩
      · cases hfault
    · cases hfault

/-- How many messages of a type a log passes to `pdes_comm_send`. -/
def sentCount (type : UInt8) (log : List Event) : Nat :=
  (sentIn log).countP (·.type = type)

theorem exitMsg_eq_some_iff {type : UInt8} {m : Msg} : exitMsg type = some m ↔ type = exitType m := by
  refine ⟨exitMsg_eq_some, ?_⟩
  rintro rfl
  cases m <;> rfl

theorem count_sent (m : Msg) (log : List Event) :
    (exitActs log).count (.sent m) = sentCount (exitType m) log := by
  rw [sentCount, exitActs, sentIn, List.count_filterMap, List.countP_filterMap]
  refine List.countP_congr fun e _ => ?_
  cases e with
  | commSend msg => simp [Event.exitAct, exitMsg_eq_some_iff]
  | processMessage msg => simp [Event.exitAct]
  | _ => simp [Event.exitAct]

/-- Every permission in the log stands after a processed intent. -/
theorem intent_of_permission {log pre post : List Event} {msg : Message}
    (h : After (.sent .permission) (.got .intent) (exitActs log))
    (hlog : log = pre ++ .commSend msg :: post) (htype : msg.type = permissionToEndEmulation) :
    ∃ intent, intent.type = intentToEndEmulation ∧ Event.processMessage intent ∈ pre := by
  have hsplit : exitActs log = exitActs pre ++ .sent .permission :: exitActs post := by
    rw [hlog, exitActs_append]
    congr 1
    have hact : Event.exitAct (.commSend msg) = some (.sent .permission) := by
      rw [Event.exitAct, htype]
      rfl
    exact List.filterMap_cons_some hact
  have hmem := h _ _ hsplit
  rw [exitActs, List.mem_filterMap] at hmem
  obtain ⟨e, hmem, he⟩ := hmem
  cases e with
  | processMessage intent =>
      simp only [Event.exitAct, Option.map_eq_some_iff, Act.got.injEq, exists_eq_right] at he
      exact ⟨intent, exitMsg_eq_some he, hmem⟩
  | commSend intent => simp [Event.exitAct] at he
  | _ => cases he

/-- The exit handshake is safe for every order of its calls. Its asserts never fail; each node says
END at most once, and only the master grants permission, once and after an intent; and where a node
knows that its neighbour has finished, or leaves, both nodes have been asked to stop. -/
theorem exit_handshake_safety {cfg : Config} (hroles : OneMaster cfg.master)
    {s : System} (hs : cfg.ReachesByCalls s) (i : Side) :
    (∀ c, exitStep s (i, c) ≠ .error (.fault .endBeforePermission) ∧
      exitStep s (i, c) ≠ .error (.fault .finishedBeforePermission)) ∧
    sentCount endOfEmulation (s i).log ≤ 1 ∧
    sentCount permissionToEndEmulation (s i).log ≤ (cfg.master i).toNat ∧
    (∀ pre msg post, (s i).log = pre ++ .commSend msg :: post →
      msg.type = permissionToEndEmulation →
      ∃ intent, intent.type = intentToEndEmulation ∧ Event.processMessage intent ∈ pre) ∧
    ((s i).engine.pairHasFinished = true →
      ∀ j, (s j).engine.readyToExit = true ∧ Event.canStop ∈ (s j).log) ∧
    (∀ n, canStop (s i) = .ok (true, n) → ∀ j, Event.canStop ∈ (s j).log) ∧
    ((s i).exitCalled = true → ∀ j, Event.canStop ∈ (s j).log) := by
  have hsafe := reachesByCalls_exitSafe hroles hs
  have hagree := hsafe.agreement
  have htold := hagree.told i
  refine ⟨hagree.no_fault hroles i, ?_, ?_, ?_,
    fun hfinished => (hagree.finished hroles hfinished).2, ?_, hsafe.left i⟩
  · have hcount := htold.finished
    rw [count_sent] at hcount
    rw [show endOfEmulation = exitType .finished from rfl, hcount]
    exact Bool.toNat_le _
  · have hcount := htold.permission
    rw [count_sent] at hcount
    rw [show permissionToEndEmulation = exitType .permission from rfl, hcount, hagree.master i]
    cases cfg.master i with
    | false => exact le_rfl
    | true => exact Bool.toNat_le _
  · exact fun pre msg post hlog htype => intent_of_permission htold.granted hlog htype
  · intro n hstop j
    exact ((hagree.finished hroles (canStop_true hstop)).2 j).2

/-- The follower asks, the master grants, both say END, and the master leaves its wait loop. -/
def exitRun : List (Side × ExitCall) :=
  [(.right, .canStop), (.left, .processMessage), (.left, .canStop), (.right, .processMessage),
    (.left, .processMessage), (.right, .processMessage), (.left, .waitLoop)]

set_option maxRecDepth 100000 in
theorem exit_handshake_safety_exitRun :
    ∃ s, twoNodes.ReachesByCalls s ∧ (s .left).exitCalled = true ∧
      sentCount endOfEmulation (s .left).log ≤ 1 ∧ Event.canStop ∈ (s .right).log := by
  have hrun : (run exitStep (fun _ _ _ => True) twoNodes.created exitRun).map
      (fun s => (s .left).exitCalled) = some true := by decide
  obtain ⟨s, hs, hleft⟩ := Option.map_eq_some_iff.mp hrun
  have hstart : twoNodes.ReachesByCalls twoNodes.created := .start rfl
  have hreach := hstart.run hs
  have hsafe := exit_handshake_safety (by decide) hreach .left
  exact ⟨s, hreach, hleft, hsafe.2.1, hsafe.2.2.2.2.2.2 hleft .right⟩

end LeanPdes
