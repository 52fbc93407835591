import LeanPdes.Moves

/-! The start-up of two nodes. Each is created, polls its ring, sends packets and is set up in an
order of its own, and `first_sync_virtual_time` is written at the creation and again at the set-up.
What is recorded of a packet (the clock and the field's value when its timestamp and its delivery time
were computed) is read by no step. -/

namespace LeanPdes

open Words TwoParty Reach

/-- What a packet's times are computed from, and the packets that wait. -/
def Node.timing (n : Node) : Nat × Int × Int × Bool × List MessageReceiveContext :=
  (n.virtualClock, n.engine.firstSyncVirtualTime, n.wwt.latencyns, n.wwt.shouldSync,
    n.receiveContexts)

/-- The step sends no packet, and leaves the times and the waiting packets alone. -/
structure Steady (n n' : Node) : Prop where
  emits : ∃ evs, Emits n n' evs ∧ ∀ msg ∈ sentIn evs, msg.type ≠ msgTypeNormal
  timing : n'.timing = n.timing

theorem Steady.quiet {n n' : Node} (hmessages : n'.messages = n.messages)
    (htiming : n'.timing = n.timing) : Steady n n' :=
  ⟨⟨[], .nothing hmessages, by simp [sentIn]⟩, htiming⟩

theorem Steady.refl (n : Node) : Steady n n := .quiet rfl rfl

theorem Steady.trans {n n' n'' : Node} (h : Steady n n') (h' : Steady n' n'') : Steady n n'' where
  emits := by
    obtain ⟨evs, he, hevs⟩ := h.emits
    obtain ⟨evs', he', hevs'⟩ := h'.emits
    refine ⟨evs ++ evs', he.trans he', ?_⟩
    intro msg hmsg
    rw [sentIn_append] at hmsg
    rcases List.mem_append.mp hmsg with hmsg | hmsg
    · exact hevs msg hmsg
    · exact hevs' msg hmsg
  timing := h'.timing.trans h.timing

theorem Control.steady {n n' : Node} (h : Control n n') : Steady n n' where
  emits := by
    obtain ⟨evs, he, hevs⟩ := h.emits
    refine ⟨evs, he, ?_⟩
    intro msg hmsg
    obtain ⟨e, hmem, hsent⟩ := List.mem_filterMap.mp hmsg
    have hcontrol := hevs e hmem
    cases e <;> cases hsent
    exact hcontrol.2
  timing := by
    have hlatency : n'.wwt.latencyns = n.wwt.latencyns := by rw [h.wwt]
    have hsync : n'.wwt.shouldSync = n.wwt.shouldSync := by rw [h.wwt]
    rw [Node.timing, h.clock, h.bias, hlatency, hsync, h.contexts, Node.timing]

theorem pdesCommSend_steady (n : Node) {msg : Message} (hmsg : msg.type ≠ msgTypeNormal) :
    Steady n (pdesCommSend n msg) :=
  ⟨⟨[.commSend msg], emits_pdesCommSend n msg, by simpa [sentIn] using hmsg⟩, rfl⟩

/-- A relation between the nodes before and after a call that does not concern packets. It may look
at the messages and at the times, but not at which control message or SYNC has been sent. -/
structure PacketFrame (R : Node → Node → Prop) : Prop where
  trans : ∀ {n n' n'' : Node}, R n n' → R n' n'' → R n n''
  control : ∀ {n n' : Node}, Control n n' → R n n'
  send : ∀ (n : Node) {msg : Message}, msg.type ≠ msgTypeNormal → R n (pdesCommSend n msg)
  fields : ∀ {n n' : Node}, n'.messages = n.messages → n'.timing = n.timing → R n n'

theorem steady_frame : PacketFrame Steady :=
  ⟨Steady.trans, Control.steady, pdesCommSend_steady, Steady.quiet⟩

section

variable {R : Node → Node → Prop}

theorem PacketFrame.sendSync (hR : PacketFrame R) {n n' : Node} (h : sendSync n = .ok n') :
    R n n' := by
  obtain ⟨time, msg, hmsg, rfl⟩ := sendSync_ok h
  have htype : msg.type = msgTypeSync := (createMessage_ok hmsg).2.2.2
  have hfirst : R n { n with engine.firstSyncTime := time } := hR.fields rfl rfl
  exact hR.trans hfirst (hR.send _ (by rw [htype]; decide))

theorem PacketFrame.quantaSyncFinish (hR : PacketFrame R) {n n' : Node}
    (h : quantaSyncFinish n = .ok n') : R n n' := by
  rw [LeanPdes.quantaSyncFinish, bind_eq_ok] at h
  obtain ⟨n₁, hdrain, h⟩ := h
  obtain ⟨n₂, hsend, h⟩ := bind_eq_ok.mp h
  have hn₁ : R n n₁ := hR.control (drain_control hdrain)
  have hn₂ : R n₁ n₂ := by
    split_ifs at hsend
    · exact hR.sendSync hsend
    · cases hsend
      exact hR.fields rfl rfl
  split_ifs at h
  cases h
  exact hR.trans (hR.trans hn₁ hn₂) (hR.fields rfl rfl)

theorem beginQuantum_timing (n : Node) : (beginQuantum n).timing = n.timing := by
  rw [beginQuantum]
  split_ifs <;> rfl

theorem PacketFrame.wwtSyncCheckFinish (hR : PacketFrame R) {n n' : Node}
    (h : wwtSyncCheckFinish n = .ok n') : R n n' := by
  obtain ⟨n₁, hn₁, rfl | ⟨_, rfl⟩⟩ := wwtSyncCheckFinish_ok h
  · exact hR.trans (hR.control hn₁) (hR.fields rfl rfl)
  · have hmessages : (beginQuantum n₁).messages = n₁.messages := by simp [Node.messages]
    exact hR.trans (hR.control hn₁) (hR.fields hmessages (beginQuantum_timing n₁))

theorem PacketFrame.pollReturn (hR : PacketFrame R) {n n' : Node} {site : PollSite}
    (h : pollReturn n site = .ok n') : R n n' := by
  have hsite (site' : Option PollSite) : R n { n with site := site' } := hR.fields rfl rfl
  cases site with
  | timer =>
      cases h
      exact hsite none
  | quantaSync => exact hR.trans (hsite none) (hR.quantaSyncFinish h)
  | isWaiting =>
      rw [LeanPdes.pollReturn] at h
      split_ifs at h
      · cases h
        exact hsite _
      · exact hR.trans (hsite none) (hR.wwtSyncCheckFinish h)
  | waitLoop =>
      rw [LeanPdes.pollReturn] at h
      split_ifs at h
      · exact hR.trans (hsite none) (hR.control (pdesEngineDestroy_control h))
      · cases h
        exact hsite _

/-- A callback that sets no bias, moves no clock, and sends and delivers no packet. -/
theorem PacketFrame.act (hR : PacketFrame R) {n n' : Node} {a : Action} (hsetup : a ≠ .setup)
    (hadvance : ∀ t, a ≠ .advance t) (hsend : ∀ data, a ≠ .wwtSend data)
    (hdeliver : ∀ k, a ≠ .deliver k) (h : n.act a = .ok n') : R n n' := by
  cases a with
  | setup => exact absurd rfl hsetup
  | advance t => exact absurd rfl (hadvance t)
  | wwtSend data => exact absurd rfl (hsend data)
  | deliver k => exact absurd rfl (hdeliver k)
  | pollMessage | commSend => cases h
  | pollReturn =>
      obtain ⟨site, _, hn'⟩ := act_pollReturn h
      exact hR.pollReturn hn'
  | quantaSync =>
      obtain ⟨paused, pauseBh, rfl⟩ := quantaSync_changes (callback_ok.mp h).2
      exact hR.fields rfl rfl
  | checkpointBh =>
      obtain ⟨bh, _, hn'⟩ := act_checkpointBh h
      have htaken : R n { n with engine.boundryCheckpointBh := some { bh with scheduled := false } } :=
        hR.fields rfl rfl
      exact hR.trans htaken (hR.control (createCheckpointBh_control hn'))
  | canStop =>
      obtain ⟨r, hcall⟩ := act_canStop h
      exact hR.control (canStop_control hcall)
  | finishInitiateCheckpoint =>
      exact hR.control (finishInitiateCheckpoint_control (callback_ok.mp h).2)
  | notifyNeighboursOfEnd => exact hR.control (control_frame.notifyNeighboursOfEnd (callback_ok.mp h).2)
  | engineDestroy => exact hR.control (pdesEngineDestroy_control (callback_ok.mp h).2)
  | pollTimer | syncCheck | pauseBh =>
      cases (callback_ok.mp h).2
      exact hR.fields rfl rfl

/-- A message that is not a packet arms no timer. -/
theorem PacketFrame.processMessage (hR : PacketFrame R) {n n' : Node} {msg : Message}
    (htype : msg.type ≠ msgTypeNormal) (h : processMessage n msg = .ok n') :
    R (n.logReceive msg) n' := by
  rw [LeanPdes.processMessage, bind_eq_ok] at h
  obtain ⟨n₁, hcallback, h⟩ := h
  have hn₁ : R (n.logReceive msg) n₁ := by
    rw [wwtReciviedCallback, bind_eq_ok] at hcallback
    obtain ⟨t, _, hcallback⟩ := hcallback
    rw [if_neg htype] at hcallback
    split_ifs at hcallback <;> cases hcallback <;> exact hR.fields rfl rfl
  exact hR.trans hn₁ (hR.control (processControl_control h))

end

/-- The outcomes of a callback, by what it does to packets and to the node's times. -/
inductive StartupMove (n : Node) : Action → Node → Prop
  | setup : StartupMove n .setup (setupWwt n)
  | advance {t : Nat} (hle : n.virtualClock ≤ t) (hlt : t < 2 ^ 63) :
      StartupMove n (.advance t) { n with virtualClock := t }
  | wwtSend {data : List UInt8} {msg : Message} (hmsg : n.packet data = .ok msg) :
      StartupMove n (.wwtSend data) (pdesCommSend (n.logSend data) msg)
  | deliver {k : Nat} {ctx : MessageReceiveContext} (hctx : n.receiveContexts[k]? = some ctx) :
      StartupMove n (.deliver k) { n with
        receiveContexts := n.receiveContexts.eraseIdx k
        log := n.log ++ [.recvCb n.universalTime (ctx.msg.bytes 0 ctx.msg.len)] }
  | steady {a : Action} {n' : Node} (hsetup : a ≠ .setup) (hsend : ∀ data, a ≠ .wwtSend data)
      (hdeliver : ∀ k, a ≠ .deliver k) (h : Steady n n') : StartupMove n a n'

theorem act_startupMove {n n' : Node} {a : Action} (h : n.act a = .ok n') : StartupMove n a n' := by
  cases a with
  | setup =>
      obtain ⟨_, hn'⟩ := callback_ok.mp h
      cases hn'
      exact .setup
  | advance t =>
      obtain ⟨⟨hle, hlt⟩, hn'⟩ := callback_ok.mp h
      cases hn'
      exact .advance hle hlt
  | wwtSend data =>
      obtain ⟨msg, hmsg, rfl⟩ := wwtSend_ok (callback_ok.mp h).2
      exact .wwtSend hmsg
  | deliver k =>
      obtain ⟨ctx, hctx, rfl⟩ := act_deliver h
      exact .deliver hctx
  | _ =>
      have hsteady := steady_frame.act (by simp) (by simp) (by simp) (by simp) h
      exact .steady (by simp) (by simp) (by simp) hsteady

theorem processMessage_packet_ok {n n' : Node} {msg : Message} (htype : msg.type = msgTypeNormal)
    (h : processMessage n msg = .ok n') :
    n' = armReceiveContext (n.logReceive msg) msg (n.processingTime msg) := by
  rw [processMessage, bind_eq_ok] at h
  obtain ⟨n₁, hcallback, h⟩ := h
  rw [processControl_of_data (Or.inr htype) h]
  exact wwtReciviedCallback_packet htype hcallback

/-! ### The start-up -/

/-- A packet that a guest has sent, with the sender's clock and `first_sync_virtual_time` at the
call. -/
structure SentPacket where
  clock : Nat
  bias : Int
  msg : Message
  deriving DecidableEq

/-- A packet whose one-time timer was armed, with the receiver's clock and `first_sync_virtual_time`
at that moment. -/
structure ArmedPacket where
  clock : Nat
  bias : Int
  ctx : MessageReceiveContext
  deriving DecidableEq

/-- A packet that the consumer has got, with the receiver's clock. -/
structure DeliveredPacket where
  clock : Nat
  ctx : MessageReceiveContext
  deriving DecidableEq

/-- A process during its start-up. Before its creation only the clock of `node` means anything. -/
structure StartupNode where
  node : Node
  created : Bool
  /-- The `first_sync_virtual_time` that `setup_wwt` has fixed. -/
  fixed : Option Int
  sent : List SentPacket
  armed : List ArmedPacket
  delivered : List DeliveredPacket

abbrev Startup := Side → StartupNode

/-- The two nodes and their rings. -/
def Startup.system (s : Startup) : System := fun i => (s i).node

inductive StartupAction
  /-- `pdes_engine_wwt_create`. -/
  | create
  | act (a : Action)
  deriving DecidableEq

/-- The packets that an action of the node has sent, armed or delivered are recorded. -/
def StartupNode.record (p : StartupNode) (n' : Node) : Action → StartupNode
  | .setup => { p with fixed := some n'.engine.firstSyncVirtualTime }
  | .wwtSend _ =>
      let packet := SentPacket.mk p.node.virtualClock p.node.engine.firstSyncVirtualTime
      { p with sent := p.sent ++ n'.sending.map packet }
  | .pollMessage =>
      let packet := ArmedPacket.mk p.node.virtualClock p.node.engine.firstSyncVirtualTime
      let contexts := n'.receiveContexts.drop p.node.receiveContexts.length
      { p with armed := p.armed ++ contexts.map packet }
  | .deliver k =>
      let packet := DeliveredPacket.mk p.node.virtualClock
      { p with delivered := p.delivered ++ p.node.receiveContexts[k]?.toList.map packet }
  | _ => p

/-- Before its creation a process only lets its clock run, and a one-time timer does not fire before
its time. -/
def StartupNode.Enabled (p : StartupNode) : Action → Prop
  | .advance _ => True
  | .deliver k =>
      p.created = true ∧ ∀ ctx ∈ p.node.receiveContexts[k]?, ctx.timer ≤ p.node.virtualClock
  | _ => p.created = true

instance (p : StartupNode) (a : Action) : Decidable (p.Enabled a) :=
  match a with
  | .advance _ => .isTrue trivial
  | .deliver k => inferInstanceAs (Decidable (p.created = true ∧
      ∀ ctx ∈ p.node.receiveContexts[k]?, ctx.timer ≤ p.node.virtualClock))
  | .setup | .wwtSend _ | .pollTimer | .pollMessage | .pollReturn | .quantaSync | .syncCheck
  | .pauseBh | .checkpointBh | .commSend | .finishInitiateCheckpoint | .canStop
  | .notifyNeighboursOfEnd | .engineDestroy => inferInstanceAs (Decidable (p.created = true))

/-- One step of the start-up. -/
def startupStep (cfg : Config) (capacity : Option Nat) (s : Startup) :
    Side × StartupAction → Except Halt Startup
  | (i, .create) =>
      if (s i).created then .error .disabled
      else .ok (Function.update s i { s i with
        created := true
        node := pdesEngineWwtCreate cfg.sync cfg.latencyns (cfg.master i) cfg.incrementalBase
          (s i).node.virtualClock })
  | (i, .act a) =>
      if (s i).Enabled a then do
        let nodes ← step capacity s.system (i, a)
        let recorded := Function.update s i ((s i).record (nodes i) a)
        return fun j => { recorded j with node := nodes j }
      else .error .disabled

/-- Two processes, none of which has created its node. -/
def Config.beforeCreation (cfg : Config) : Startup := fun i =>
  { node := cfg.created i, created := false, fixed := none, sent := [], armed := [], delivered := [] }

/-- A packet as its sender records it. -/
def StartupNode.sentPacket (p : StartupNode) (msg : Message) : SentPacket :=
  ⟨p.node.virtualClock, p.node.engine.firstSyncVirtualTime, msg⟩

/-- The context that the node makes for a packet, as the node records it. -/
def StartupNode.armedPacket (p : StartupNode) (msg : Message) : ArmedPacket :=
  ⟨p.node.virtualClock, p.node.engine.firstSyncVirtualTime,
    receiveContext p.node msg (p.node.processingTime msg)⟩

/-- The outcomes of a callback of one process. -/
inductive StartupNode.Turn (p : StartupNode) : Action → StartupNode → Prop
  | setup (hcreated : p.created = true) :
      Turn p .setup { p with node := setupWwt p.node, fixed := some p.node.virtualClock }
  | advance {t : Nat} (hle : p.node.virtualClock ≤ t) (hlt : t < 2 ^ 63) :
      Turn p (.advance t) { p with node := { p.node with virtualClock := t } }
  | wwtSend (hcreated : p.created = true) {data : List UInt8} {msg : Message}
      (hmsg : p.node.packet data = .ok msg) :
      Turn p (.wwtSend data) { p with
        node := pdesCommSend (p.node.logSend data) msg
        sent := p.sent ++ [p.sentPacket msg] }
  | deliver {k : Nat} {ctx : MessageReceiveContext} (hctx : p.node.receiveContexts[k]? = some ctx)
      (htimer : ctx.timer ≤ p.node.virtualClock) :
      Turn p (.deliver k) { p with
        node := { p.node with
          receiveContexts := p.node.receiveContexts.eraseIdx k
          log := p.node.log ++ [.recvCb p.node.universalTime (ctx.msg.bytes 0 ctx.msg.len)] }
        delivered := p.delivered ++ [⟨p.node.virtualClock, ctx⟩] }
  | steady {a : Action} {n' : Node} (hsetup : a ≠ .setup) (h : Steady p.node n') :
      Turn p a { p with node := n' }

/-- The outcomes of a step of the start-up. -/
inductive StartsTo (cfg : Config) (s : Startup) : Side × StartupAction → Startup → Prop
  | create {i : Side} (hnew : (s i).created = false) :
      StartsTo cfg s (i, .create) (Function.update s i { s i with
        created := true
        node := pdesEngineWwtCreate cfg.sync cfg.latencyns (cfg.master i) cfg.incrementalBase
          (s i).node.virtualClock })
  | commSend {i : Side} {msg : Message} {rest : List Message}
      (hsending : (s i).node.sending = msg :: rest) :
      StartsTo cfg s (i, .act .commSend) (Function.update s i { s i with
        node := { (s i).node with sending := rest, ring := (s i).node.ring ++ [msg] } })
  | packet {i : Side} {msg : Message} {rest : List Message} (hcreated : (s i).created = true)
      (hring : (s i.peer).node.ring = msg :: rest) (htype : msg.type = msgTypeNormal) :
      StartsTo cfg s (i, .act .pollMessage) (Function.update
        (Function.update s i.peer { s i.peer with node := { (s i.peer).node with ring := rest } }) i
        { s i with
          node := armReceiveContext ((s i).node.logReceive msg) msg ((s i).node.processingTime msg)
          armed := (s i).armed ++ [(s i).armedPacket msg] })
  | message {i : Side} {msg : Message} {rest : List Message} {n' : Node}
      (hring : (s i.peer).node.ring = msg :: rest)
      (h : Steady ((s i).node.logReceive msg) n') :
      StartsTo cfg s (i, .act .pollMessage) (Function.update
        (Function.update s i.peer { s i.peer with node := { (s i.peer).node with ring := rest } }) i
        { s i with node := n' })
  | turn {i : Side} {a : Action} {p' : StartupNode} (h : (s i).Turn a p') :
      StartsTo cfg s (i, .act a) (Function.update s i p')

theorem StartupNode.record_wwtSend {p : StartupNode} (hidle : p.node.Idle) {data : List UInt8}
    {msg : Message} : p.record (pdesCommSend (p.node.logSend data) msg) (.wwtSend data) =
      { p with sent := p.sent ++ [p.sentPacket msg] } := by
  have hsending : (pdesCommSend (p.node.logSend data) msg).sending = [msg] := by
    rw [pdesCommSend, Node.logSend, hidle.2, List.nil_append]
  rw [StartupNode.record, hsending]
  rfl

theorem StartupNode.record_deliver {p : StartupNode} {k : Nat} {ctx : MessageReceiveContext}
    (hctx : p.node.receiveContexts[k]? = some ctx) (n : Node) : p.record n (.deliver k) =
      { p with delivered := p.delivered ++ [⟨p.node.virtualClock, ctx⟩] } := by
  rw [StartupNode.record, hctx]
  rfl

theorem StartupNode.record_packet (p : StartupNode) (msg : Message) :
    p.record (armReceiveContext (p.node.logReceive msg) msg (p.node.processingTime msg)) .pollMessage =
      { p with armed := p.armed ++ [p.armedPacket msg] } := by
  have hdrop : (armReceiveContext (p.node.logReceive msg) msg
      (p.node.processingTime msg)).receiveContexts.drop p.node.receiveContexts.length =
      [receiveContext p.node msg (p.node.processingTime msg)] := List.drop_left ..
  rw [StartupNode.record, hdrop]
  rfl

theorem StartupNode.record_message {p : StartupNode} {n' : Node}
    (hcontexts : n'.receiveContexts = p.node.receiveContexts) : p.record n' .pollMessage = p := by
  rw [StartupNode.record, hcontexts, List.drop_length]
  simp

theorem StartupNode.record_steady (p : StartupNode) {n n' : Node} {a : Action} (hsetup : a ≠ .setup)
    (hsend : ∀ data, a ≠ .wwtSend data) (hdeliver : ∀ k, a ≠ .deliver k) (h : n.act a = .ok n') :
    p.record n' a = p := by
  cases a with
  | setup => exact absurd rfl hsetup
  | wwtSend data => exact absurd rfl (hsend data)
  | deliver k => exact absurd rfl (hdeliver k)
  | pollMessage => cases h
  | _ => rfl

/-- A callback of one process, with what it records. -/
theorem StartupNode.turn_of_act {p : StartupNode} {a : Action} {n' : Node} (henabled : p.Enabled a)
    (hidle : p.node.Idle) (h : p.node.act a = .ok n') :
    p.Turn a { p.record n' a with node := n' } := by
  cases act_startupMove h with
  | setup => exact .setup henabled
  | advance hle hlt => exact .advance hle hlt
  | wwtSend hmsg =>
      rw [StartupNode.record_wwtSend hidle]
      exact .wwtSend henabled hmsg
  | @deliver k ctx hctx =>
      rw [StartupNode.record_deliver hctx]
      exact .deliver hctx (henabled.2 ctx hctx)
  | steady hsetup hsend hdeliver hsteady =>
      rw [StartupNode.record_steady p hsetup hsend hdeliver h]
      exact .steady hsetup hsteady

/-- Only the acting process changes. -/
theorem recorded_update (s : Startup) (i : Side) (p : StartupNode) (n' : Node) :
    (fun j => { Function.update s i p j with node := Function.update s.system i n' j } : Startup) =
      Function.update s i { p with node := n' } := by
  funext j
  rcases Side.eq_or_eq_peer i j with rfl | rfl
  · simp only [Function.update_self]
  · simp only [Function.update_of_ne (Side.peer_ne i), Startup.system]

/-- A process takes the oldest message out of the other one's ring. -/
def Startup.take (s : Startup) (i : Side) (rest : List Message) : Startup :=
  Function.update s i.peer { s i.peer with node := { (s i.peer).node with ring := rest } }

theorem Startup.take_self (s : Startup) (i : Side) (rest : List Message) : s.take i rest i = s i :=
  Function.update_of_ne (Side.ne_peer i) _ _

/-- The acting process changes, and the other one has lost a message. -/
theorem recorded_take (s : Startup) (i : Side) (p : StartupNode) (rest : List Message) (n' : Node) :
    (fun j => { Function.update s i p j with
      node := Function.update
        (Function.update s.system i.peer { s.system i.peer with ring := rest }) i n' j } : Startup) =
      Function.update (s.take i rest) i { p with node := n' } := by
  funext j
  rcases Side.eq_or_eq_peer i j with rfl | rfl
  · simp only [Function.update_self]
  · simp only [Function.update_of_ne (Side.peer_ne i), Function.update_self, Startup.system,
      Startup.take]

/-- The steps of the start-up, with the call that each of them makes. -/
inductive StartsBy (cfg : Config) (s : Startup) : Side × StartupAction → Startup → Prop
  | create {i : Side} (hnew : (s i).created = false) :
      StartsBy cfg s (i, .create) (Function.update s i { s i with
        created := true
        node := pdesEngineWwtCreate cfg.sync cfg.latencyns (cfg.master i) cfg.incrementalBase
          (s i).node.virtualClock })
  | commSend {i : Side} {msg : Message} {rest : List Message}
      (hsending : (s i).node.sending = msg :: rest) :
      StartsBy cfg s (i, .act .commSend) (Function.update s i { s i with
        node := { (s i).node with sending := rest, ring := (s i).node.ring ++ [msg] } })
  | pollMessage {i : Side} {msg : Message} {rest : List Message} {n' : Node}
      (hcreated : (s i).created = true) (hring : (s i.peer).node.ring = msg :: rest)
      (h : processMessage (s i).node msg = .ok n') :
      StartsBy cfg s (i, .act .pollMessage)
        (Function.update (s.take i rest) i { (s i).record n' .pollMessage with node := n' })
  | callback {i : Side} {a : Action} {n' : Node} (henabled : (s i).Enabled a)
      (hidle : (s i).node.Idle) (h : (s i).node.act a = .ok n') :
      StartsBy cfg s (i, .act a) (Function.update s i { (s i).record n' a with node := n' })

theorem startsBy_of_step {cfg : Config} {capacity : Option Nat} {s s' : Startup}
    {ia : Side × StartupAction} (h : startupStep cfg capacity s ia = .ok s') :
    StartsBy cfg s ia s' := by
  obtain ⟨i, a⟩ := ia
  cases a with
  | create =>
      rw [startupStep] at h
      split_ifs at h with hcreated
      cases h
      exact .create (by simpa using hcreated)
  | act a =>
      rw [startupStep] at h
      split_ifs at h with henabled
      obtain ⟨nodes, hnodes, h⟩ := bind_eq_ok.mp h
      cases h
      generalize hia : (i, a) = ia at hnodes
      cases stepsTo_of_step hnodes with
      | commSend hsending _ =>
          cases hia
          rw [recorded_update]
          exact .commSend hsending
      | receive _ hring hn' =>
          cases hia
          rw [recorded_take, Function.update_self]
          exact .pollMessage henabled hring hn'
      | callback hidle _ hn' =>
          cases hia
          rw [recorded_update, Function.update_self]
          exact .callback henabled hidle hn'

theorem startsTo_of_step {cfg : Config} {capacity : Option Nat} {s s' : Startup}
    {ia : Side × StartupAction} (h : startupStep cfg capacity s ia = .ok s') :
    StartsTo cfg s ia s' := by
  cases startsBy_of_step h with
  | create hnew => exact .create hnew
  | commSend hsending => exact .commSend hsending
  | @pollMessage i msg rest n' hcreated hring hn' =>
      by_cases htype : msg.type = msgTypeNormal
      · have hpacket := processMessage_packet_ok htype hn'
        subst hpacket
        rw [StartupNode.record_packet]
        exact .packet hcreated hring htype
      · have hsteady : Steady ((s i).node.logReceive msg) n' := steady_frame.processMessage htype hn'
        rw [StartupNode.record_message (congrArg (fun timing => timing.2.2.2.2) hsteady.timing)]
        exact .message hring hsteady
  | callback henabled hidle hn' => exact .turn (StartupNode.turn_of_act henabled hidle hn')

end LeanPdes
