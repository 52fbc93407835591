import LeanPdes.Delivery
import LeanPdes.NodeRuns
import LeanPdes.StartupBias

/-! Delivery without sync. A packet is due at its timestamp, or a nanosecond after the poll that takes
it out of the ring if that is later. Neither the timestamps nor the polls run backwards, so the timers
of the packets are armed in the order of their expiry and fire in the order of the sends. -/

namespace LeanPdes

open Words TwoParty Reach TimerQueue

/-- The guest's calls of `wwt_send`, and the calls of the packet consumer. -/
def Node.packetCalls (n : Node) : List (Int × List UInt8) × List (Int × List UInt8) :=
  (packetsSent n.log, packetsDelivered n.log)

theorem packetCalls_of_log {n n' : Node} {evs : List Event} (hlog : n'.log = n.log ++ evs)
    (hevs : ∀ e ∈ evs, e.NotPacket) : n'.packetCalls = n.packetCalls := by
  rw [Node.packetCalls, hlog, packetsSent_append, packetsDelivered_append, packetsSent_quiet hevs,
    packetsDelivered_quiet hevs, List.append_nil, List.append_nil, Node.packetCalls]

theorem Control.packetCalls {n n' : Node} (h : Control n n') : n'.packetCalls = n.packetCalls := by
  obtain ⟨evs, he, hall⟩ := h.emits
  exact packetCalls_of_log he.log fun e hmem => (hall e hmem).notPacket

theorem packetCalls_pdesCommSend (n : Node) (msg : Message) :
    (pdesCommSend n msg).packetCalls = n.packetCalls := by
  simp [Node.packetCalls, pdesCommSend, packetsSent, packetsDelivered]

theorem packetCalls_logReceive (n : Node) (msg : Message) :
    (n.logReceive msg).packetCalls = n.packetCalls := by
  have hquiet : ∀ e ∈ [Event.processMessage msg], e.NotPacket := by simp [Event.NotPacket]
  exact packetCalls_of_log rfl hquiet

theorem packetCalls_frame : PacketFrame fun n n' => n'.packetCalls = n.packetCalls where
  trans h h' := h'.trans h
  control := Control.packetCalls
  send n msg _ := packetCalls_pdesCommSend n msg
  fields hmessages _ := by
    simp only [Node.messages, Prod.mk.injEq] at hmessages
    rw [Node.packetCalls, hmessages.2.2, Node.packetCalls]

/-- Only a send of the guest and a timer that fires are calls for packets. -/
theorem act_packetCalls {n n' : Node} {a : Action} (hsend : ∀ data, a ≠ .wwtSend data)
    (hdeliver : ∀ k, a ≠ .deliver k) (h : n.act a = .ok n') : n'.packetCalls = n.packetCalls := by
  cases a with
  | setup | advance =>
      cases (callback_ok.mp h).2
      rfl
  | _ => exact packetCalls_frame.act (by simp) (by simp) hsend hdeliver h

theorem Node.PastSetup.of_timer {n n' : Node} (hpast : n.PastSetup)
    (htimer : n'.wwt.quantumTimer = n.wwt.quantumTimer) : n'.PastSetup := by
  rwa [Node.PastSetup, htimer]

theorem Aside.pastSetup {n n' : Node} (h : Aside n n') (hpast : n.PastSetup) : n'.PastSetup :=
  hpast.of_timer (congrArg Quantum.quantumTimer h.quantum)

/-- A node that is set up stays so. -/
theorem NodeTurn.pastSetup {n n' : Node} {b : NodeAction} (h : NodeTurn n b n')
    (hpast : n.PastSetup) : n'.PastSetup := by
  cases h with
  | aside _ h => exact h.pastSetup hpast
  | arm _ h => exact h.pastSetup hpast
  | setup hnull => exact absurd hnull hpast
  | pollTimer | pollDone | pauseBh | syncCheck | wait | again | emptyBh | asked => exact hpast
  | quantaSync => simp [Node.PastSetup]
  | @arrive _ n₁ n₂ hdrain h =>
      have htimer : n₂.recheck.wwt.quantumTimer = n.wwt.quantumTimer :=
        congrArg Quantum.quantumTimer (arrived_quantum hdrain h)
      exact hpast.of_timer htimer
  | @hold _ _ _ n₁ hdrain =>
      have htimer : n₁.wwt.quantumTimer = n.wwt.quantumTimer :=
        congrArg Quantum.quantumTimer hdrain.quantum
      exact hpast.of_timer htimer
  | @pass _ _ n₁ n₂ hdrain h =>
      obtain ⟨expire, hbegin⟩ := passed_quantum hdrain h
      have harmed : (beginQuantum n₂).wwt.quantumTimer = .armed expire :=
        congrArg Quantum.quantumTimer hbegin
      rw [Node.PastSetup, harmed]
      simp
  | @destroy _ _ site n₁ _ h hn' =>
      have hleft : Node.PastSetup { n with site := site } := hpast
      rcases hn' with ⟨bh, rfl⟩ | rfl <;> exact h.pastSetup hleft
  | save _ _ _ hn' =>
      have hsaved : (saveCheckpoint n).PastSetup := hpast
      rcases hn' with ⟨exited, rfl⟩ | ⟨n₁, h, rfl⟩
      · exact hsaved
      · exact h.pastSetup hsaved

/-- The steps of a run without sync. A guest sends once both nodes are set up, the timers of packets
fire in the order of their expiry, equal expiries in the order of arming, and the times fit 64
bits. -/
def UnsyncedStep (s : Startup) : Side × StartupAction → Startup → Prop
  | (i, .act (.wwtSend _)), _ =>
      (∀ j, (s j).node.PastSetup) ∧ int64 ((s i).node.universalTime + (s i).node.wwt.latencyns) =
        (s i).node.universalTime + (s i).node.wwt.latencyns
  | (i, .act .pollMessage), _ =>
      ∀ msg ∈ (s i.peer).node.ring.head?, msg.type = msgTypeNormal →
        int64 msg.tsNs + (s i).bias < 2 ^ 63 ∧ ((s i).clock : Int) + 1 < 2 ^ 63
  | (i, .act (.deliver k)), _ =>
      ∀ ctx ∈ (s i).node.receiveContexts[k]?,
        FiresNext MessageReceiveContext.timer (s i).node.receiveContexts k ctx
  | _, _ => True

instance (s : Startup) (ia : Side × StartupAction) (s' : Startup) :
    Decidable (UnsyncedStep s ia s') :=
  match ia with
  | (_, .act (.wwtSend _)) => inferInstanceAs (Decidable ((∀ j, (s j).node.PastSetup) ∧ _ = _))
  | (i, .act .pollMessage) =>
      inferInstanceAs (Decidable (∀ msg ∈ (s i.peer).node.ring.head?, msg.type = msgTypeNormal →
        int64 msg.tsNs + (s i).bias < 2 ^ 63 ∧ ((s i).clock : Int) + 1 < 2 ^ 63))
  | (i, .act (.deliver k)) =>
      inferInstanceAs (Decidable (∀ ctx ∈ (s i).node.receiveContexts[k]?,
        FiresNext MessageReceiveContext.timer (s i).node.receiveContexts k ctx))
  | (_, .create) | (_, .act .setup) | (_, .act (.advance _)) | (_, .act .pollTimer)
  | (_, .act .pollReturn) | (_, .act .quantaSync) | (_, .act .syncCheck) | (_, .act .pauseBh)
  | (_, .act .checkpointBh) | (_, .act .commSend) | (_, .act .finishInitiateCheckpoint)
  | (_, .act .canStop) | (_, .act .notifyNeighboursOfEnd) | (_, .act .engineDestroy) =>
      .isTrue trivial

/-- A node that is not created is not set up, and packets are sent once both nodes are. -/
structure Startup.SetUp (s : Startup) : Prop where
  new : ∀ i, (s i).created = false → ¬(s i).node.PastSetup
  sent : ∀ i, (s i).sent ≠ [] → ∀ j, (s j).node.PastSetup

theorem Startup.SetUp.update {s : Startup} (hs : s.SetUp) (i : Side) {p' : StartupNode}
    (hnew : p'.created = false → (s i).created = false ∧
      p'.node.wwt.quantumTimer = (s i).node.wwt.quantumTimer)
    (hsent : p'.sent ≠ [] → (s i).sent ≠ [] ∨ ∀ j, (s j).node.PastSetup)
    (hpast : (s i).node.PastSetup → p'.node.PastSetup) :
    Startup.SetUp (Function.update s i p') := by
  have hall (h : ∀ j, (s j).node.PastSetup) : ∀ j, (Function.update s i p' j).node.PastSetup := by
    refine Side.forall_of_self_peer i ?_ ?_
    · rw [Function.update_self]
      exact hpast (h i)
    · rw [Function.update_of_ne (Side.peer_ne i)]
      exact h i.peer
  constructor
  · refine Side.forall_of_self_peer i ?_ ?_
    · rw [Function.update_self]
      intro hcreated hset
      obtain ⟨hcreated, htimer⟩ := hnew hcreated
      exact hs.new i hcreated (hset.of_timer htimer.symm)
    · rw [Function.update_of_ne (Side.peer_ne i)]
      exact hs.new i.peer
  · refine Side.forall_of_self_peer i ?_ ?_
    · rw [Function.update_self]
      intro hne
      rcases hsent hne with hne | h
      · exact hall (hs.sent i hne)
      · exact hall h
    · rw [Function.update_of_ne (Side.peer_ne i)]
      exact fun hne => hall (hs.sent i.peer hne)

theorem StartupNode.Enabled.created {p : StartupNode} {a : Action} (h : p.Enabled a)
    (hadvance : ∀ t, a ≠ .advance t) : p.created = true := by
  cases a with
  | advance t => exact absurd rfl (hadvance t)
  | deliver k => exact h.1
  | _ => exact h

theorem StartsBy.setUp {cfg : Config} {s s' : Startup} {ia : Side × StartupAction}
    (h : StartsBy cfg s ia s') (hs : s.SetUp) (hguard : UnsyncedStep s ia s') : s'.SetUp := by
  cases h with
  | @create i hnew =>
      exact hs.update i (fun hcreated => by cases hcreated) Or.inl
        (fun hpast => absurd hpast (hs.new i hnew))
  | @commSend i msg rest _ =>
      exact hs.update i (fun hcreated => ⟨hcreated, rfl⟩) Or.inl id
  | @pollMessage i msg rest n' hcreated hring hn' =>
      have htake : (s.take i rest).SetUp :=
        hs.update i.peer (fun hcreated => ⟨hcreated, rfl⟩) Or.inl id
      have hself := s.take_self i rest
      refine htake.update i ?_ ?_ ?_
      · intro hnew
        change (s i).created = false at hnew
        rw [hcreated] at hnew
        cases hnew
      · rw [hself]
        exact Or.inl
      · rw [hself]
        exact (processMessage_turn hn').pastSetup
  | @callback i a n' henabled hidle hn' =>
      have hcreated : ((s i).record n' a).created = (s i).created := by cases a <;> rfl
      refine hs.update i ?_ ?_ (act_turn hn').pastSetup
      · intro hnew
        rw [← hcreated]
        refine ⟨hnew, ?_⟩
        rw [hcreated] at hnew
        cases a with
        | advance t =>
            cases (callback_ok.mp hn').2
            rfl
        | _ =>
            rw [henabled.created (by simp)] at hnew
            cases hnew
      · cases a with
        | wwtSend data => exact fun _ => Or.inr hguard.1
        | _ => exact Or.inl

theorem setUp_beforeCreation (cfg : Config) : cfg.beforeCreation.SetUp where
  new _ _ hpast := hpast rfl
  sent _ hne := absurd rfl hne

theorem startsUp_setUp {cfg : Config} {capacity : Option Nat} {s : Startup}
    (hs : cfg.StartsUp capacity UnsyncedStep s) : s.SetUp := by
  refine hs.invariant ?_ ?_
  · rintro s rfl
    exact setUp_beforeCreation cfg
  · intro s ia s' _ hsetUp hstep hguard
    exact (startsBy_of_step hstep).setUp hsetUp hguard

/-- No packet is on its way or waits when a node is set up. -/
theorem Startup.SetUp.inPlace {cfg : Config} {s : Startup} (hs : s.SetUp) (hkept : s.Kept cfg)
    {i : Side} (hnew : ¬(s i).node.PastSetup) : (s i).sent = [] ∧ (s i).armed = [] := by
  have hsent : ∀ j, (s j).sent = [] := by
    intro j
    by_contra hne
    exact hnew (hs.sent j hne i)
  refine ⟨hsent i, List.eq_nil_iff_forall_not_mem.mpr fun q hq => ?_⟩
  obtain ⟨p, hp, _⟩ := hkept.origin i q hq
  rw [hsent i.peer] at hp
  cases hp

/-- The steps fit 64 bits, with every set-up in place. -/
theorem StartsBy.startupFits {cfg : Config} {s s' : Startup} {ia : Side × StartupAction}
    (h : StartsBy cfg s ia s') (hs : s.SetUp) (hkept : s.Kept cfg)
    (hguard : UnsyncedStep s ia s') : StartupFits s ia s' := by
  cases h with
  | create | commSend => trivial
  | pollMessage => exact fun msg hmsg htype => (hguard msg hmsg htype).1
  | @callback i a n' _ _ hn' =>
      cases a with
      | setup =>
          obtain ⟨⟨_, hnull⟩, _⟩ := callback_ok.mp hn'
          exact Or.inl (hs.inPlace hkept (not_not.mpr hnull))
      | wwtSend data => exact hguard.2
      | pollMessage | commSend => cases hn'
      | _ => trivial

theorem unsynced_kept {cfg : Config} {capacity : Option Nat} {s : Startup}
    (hs : cfg.StartsUp capacity UnsyncedStep s) : s.Kept cfg := by
  refine hs.invariant ?_ ?_
  · rintro s rfl
    exact kept_beforeCreation cfg
  · intro s ia s' hs hkept hstep hguard
    have hfits := (startsBy_of_step hstep).startupFits (startsUp_setUp hs) hkept hguard
    exact (startsTo_of_step hstep).kept hkept hfits

/-- The packets on the way to the neighbour. -/
def Node.packetsInFlight (n : Node) : List Message := n.inFlight.filter (·.type = msgTypeNormal)

/-- The calls for packets, as the process has recorded them. -/
def StartupNode.packetCalls (p : StartupNode) :
    List (Int × List UInt8) × List (Int × List UInt8) :=
  (p.sent.map fun q => (int64 (q.clock - q.bias), q.msg.bytes 0 q.msg.len),
    p.delivered.map fun d => (int64 (d.clock - p.bias), d.ctx.msg.bytes 0 d.ctx.msg.len))

/-- The packets of a process were sent and taken out of the ring at times that do not run backwards,
and their timers make a queue. -/
structure StartupNode.InOrder (p : StartupNode) : Prop where
  sent : p.sent.Pairwise (·.clock ≤ ·.clock)
  sent_le : ∀ q ∈ p.sent, q.clock ≤ p.clock
  armed_le : ∀ q ∈ p.armed, q.clock ≤ p.clock
  expiry : ∀ q ∈ p.armed, q.ctx.timer = max (int64 q.ctx.msg.tsNs + q.bias) (q.clock + 1)
  queue : Queue MessageReceiveContext.timer (p.armed.map (·.ctx)) (p.delivered.map (·.ctx))
    p.node.receiveContexts
  due : ∀ d ∈ p.delivered, d.ctx.timer ≤ d.clock ∧ d.clock ≤ p.clock
  calls : p.node.packetCalls = p.packetCalls

/-- A message leaves the ring of a process. -/
theorem StartupNode.InOrder.taken {p : StartupNode} (h : p.InOrder) (rest : List Message) :
    StartupNode.InOrder { p with node := { p.node with ring := rest } } :=
  ⟨h.sent, h.sent_le, h.armed_le, h.expiry, h.queue, h.due, h.calls⟩

/-- Nothing happens to the packets of a process. -/
structure SamePackets (p p' : StartupNode) : Prop where
  sent : p'.sent = p.sent
  armed : p'.armed = p.armed
  delivered : p'.delivered = p.delivered
  contexts : p'.node.receiveContexts = p.node.receiveContexts
  inFlight : p'.node.packetsInFlight = p.node.packetsInFlight
  calls : p'.node.packetCalls = p.node.packetCalls
  clock : p.clock ≤ p'.clock
  bias : p'.bias = p.bias ∨ p.delivered = []

theorem StartupNode.InOrder.same {p p' : StartupNode} (h : p.InOrder) (hsame : SamePackets p p') :
    p'.InOrder where
  sent := by
    rw [hsame.sent]
    exact h.sent
  sent_le := by
    rw [hsame.sent]
    exact fun q hq => (h.sent_le q hq).trans hsame.clock
  armed_le := by
    rw [hsame.armed]
    exact fun q hq => (h.armed_le q hq).trans hsame.clock
  expiry := by
    rw [hsame.armed]
    exact h.expiry
  queue := by
    rw [hsame.armed, hsame.delivered, hsame.contexts]
    exact h.queue
  due := by
    rw [hsame.delivered]
    exact fun d hd => ⟨(h.due d hd).1, (h.due d hd).2.trans hsame.clock⟩
  calls := by
    rw [hsame.calls, h.calls, StartupNode.packetCalls, StartupNode.packetCalls, hsame.sent,
      hsame.delivered]
    rcases hsame.bias with hbias | hnone
    · rw [hbias]
    · rw [hnone]
      rfl

/-- A packet that the guest sends is the latest one. -/
theorem StartupNode.InOrder.wwtSend {p : StartupNode} (h : p.InOrder) {data : List UInt8}
    {msg : Message} (hmsg : p.node.packet data = .ok msg) :
    StartupNode.InOrder { p with
      node := pdesCommSend (p.node.logSend data) msg
      sent := p.sent ++ [p.sentPacket msg] } where
  sent := by
    refine List.pairwise_append.mpr ⟨h.sent, List.pairwise_singleton _ _, ?_⟩
    intro q hq last hlast
    rw [List.mem_singleton.mp hlast]
    exact h.sent_le q hq
  sent_le := by
    intro q hq
    rcases List.mem_append.mp hq with hq | hq
    · exact h.sent_le q hq
    · rw [List.mem_singleton.mp hq]
      exact le_refl p.clock
  armed_le := h.armed_le
  expiry := h.expiry
  queue := h.queue
  due := h.due
  calls := by
    obtain ⟨_, hlen, hdata, _⟩ := createMessage_ok hmsg
    have hbytes : msg.bytes 0 msg.len = data := by
      rw [Message.bytes, hlen, hdata, readBytes_self]
    have hlogged : (p.node.logSend data).packetCalls =
        (packetsSent p.node.log ++ [(p.node.universalTime, data)], packetsDelivered p.node.log) := by
      simp [Node.packetCalls, Node.logSend, packetsSent, packetsDelivered]
    obtain ⟨hsent, hdelivered⟩ := Prod.mk.inj h.calls
    rw [packetCalls_pdesCommSend, hlogged, hsent, hdelivered, StartupNode.packetCalls,
      List.map_append, List.map_singleton, ← hbytes]
    rfl

/-- Without sync a packet is due at its timestamp, or a nanosecond after the poll. -/
theorem rawTime_unsynced {clock : Nat} {bias : Int} {msg : Message} (hnonneg : 0 ≤ bias)
    (hle : bias ≤ clock) (hfits : int64 msg.tsNs + bias < 2 ^ 63) (hnext : (clock : Int) + 1 < 2 ^ 63) :
    rawTime false clock bias msg = max (int64 msg.tsNs + bias) (clock + 1) := by
  have hlow := int64_ge msg.tsNs
  have hnow : int64 (clock - bias) = clock - bias := int64_eq_self (by omega) (by omega)
  have hafter : int64 ((clock : Int) - bias + 1) = clock - bias + 1 :=
    int64_eq_self (by omega) (by omega)
  rw [rawTime, if_neg Bool.false_ne_true, hnow, hafter]
  split_ifs with hlater
  · rw [max_eq_left (by omega)]
    exact int64_eq_self (by omega) hfits
  · have hsum : (clock : Int) - bias + 1 + bias = clock + 1 := by ring
    rw [max_eq_right (by omega), hsum]
    exact int64_eq_self (by omega) hnext

theorem StartupNode.Kept.armedPacket_timer {cfg : Config} {p : StartupNode} (h : p.Kept cfg)
    (hsync : cfg.sync = false) {msg : Message} (hfits : int64 msg.tsNs + p.bias < 2 ^ 63)
    (hnext : (p.clock : Int) + 1 < 2 ^ 63) :
    (p.armedPacket msg).ctx.timer = max (int64 msg.tsNs + p.bias) (p.clock + 1) := by
  have htimer : (p.armedPacket msg).ctx.timer = max (rawTime cfg.sync p.clock p.bias msg) 0 := by
    rw [← h.sync]
    rfl
  rw [htimer, hsync, rawTime_unsynced h.bias_nonneg h.bias_le hfits hnext]
  omega

/-- A packet that is due no earlier than those before it joins the queue. -/
theorem StartupNode.InOrder.packet {cfg : Config} {p : StartupNode} (h : p.InOrder)
    (hkept : p.Kept cfg) (hsync : cfg.sync = false) {msg : Message}
    (hfits : int64 msg.tsNs + p.bias < 2 ^ 63) (hnext : (p.clock : Int) + 1 < 2 ^ 63)
    (hlatest : ∀ q ∈ p.armed, int64 q.ctx.msg.tsNs ≤ int64 msg.tsNs) :
    StartupNode.InOrder { p with
      node := armReceiveContext (p.node.logReceive msg) msg (p.node.processingTime msg)
      armed := p.armed ++ [p.armedPacket msg] } := by
  have htimer := hkept.armedPacket_timer hsync hfits hnext
  constructor
  case sent => exact h.sent
  case sent_le => exact h.sent_le
  case armed_le =>
    intro q hq
    rcases List.mem_append.mp hq with hq | hq
    · exact h.armed_le q hq
    · rw [List.mem_singleton.mp hq]
      exact le_refl p.clock
  case expiry =>
    intro q hq
    rcases List.mem_append.mp hq with hq | hq
    · exact h.expiry q hq
    · rw [List.mem_singleton.mp hq]
      exact htimer
  case queue =>
    rw [List.map_append]
    refine h.queue.arm ?_
    intro ctx hctx
    obtain ⟨q, hq, rfl⟩ := List.mem_map.mp hctx
    have hclock : (q.clock : Int) ≤ p.clock := Int.ofNat_le.mpr (h.armed_le q hq)
    have hts := hlatest q hq
    rw [h.expiry q hq, (hkept.armed q hq).1]
    refine le_trans ?_ htimer.ge
    exact max_le_max (by omega) (by omega)
  case due => exact h.due
  case calls => exact (packetCalls_logReceive p.node msg).trans h.calls

/-- The timer that fires is the one of the oldest packet that waits. -/
theorem StartupNode.InOrder.deliver {p : StartupNode} (h : p.InOrder) {k : Nat}
    {ctx : MessageReceiveContext} (hctx : p.node.receiveContexts[k]? = some ctx)
    (htimer : ctx.timer ≤ p.clock)
    (hnext : FiresNext MessageReceiveContext.timer p.node.receiveContexts k ctx) :
    StartupNode.InOrder { p with
      node := { p.node with
        receiveContexts := p.node.receiveContexts.eraseIdx k
        log := p.node.log ++ [.recvCb p.node.universalTime (ctx.msg.bytes 0 ctx.msg.len)] }
      delivered := p.delivered ++ [⟨p.clock, ctx⟩] } where
  sent := h.sent
  sent_le := h.sent_le
  armed_le := h.armed_le
  expiry := h.expiry
  queue := by
    rw [List.map_append]
    exact h.queue.fire hctx hnext
  due := by
    intro d hd
    rcases List.mem_append.mp hd with hd | hd
    · exact h.due d hd
    · rw [List.mem_singleton.mp hd]
      exact ⟨htimer, le_refl p.clock⟩
  calls := by
    have hnone : packetsSent [.recvCb p.node.universalTime (ctx.msg.bytes 0 ctx.msg.len)] = [] := rfl
    obtain ⟨hsent, hdelivered⟩ := Prod.mk.inj h.calls
    rw [Node.packetCalls, packetsSent_append, packetsDelivered_append, hnone, List.append_nil, hsent,
      hdelivered, StartupNode.packetCalls, List.map_append]
    rfl

theorem packetsInFlight_of_ring {n : Node} {msg : Message} {rest : List Message}
    (hring : n.ring = msg :: rest) : n.packetsInFlight =
      [msg].filter (·.type = msgTypeNormal) ++ Node.packetsInFlight { n with ring := rest } := by
  rw [Node.packetsInFlight, Node.packetsInFlight, ← List.filter_append, Node.inFlight, hring]
  rfl

theorem packetsInFlight_pdesCommSend (n : Node) {msg : Message} (htype : msg.type = msgTypeNormal) :
    (pdesCommSend n msg).packetsInFlight = n.packetsInFlight ++ [msg] := by
  have hone : [msg].filter (·.type = msgTypeNormal) = [msg] := by simpa using htype
  rw [Node.packetsInFlight, Node.packetsInFlight, Node.inFlight, Node.inFlight, pdesCommSend,
    ← List.append_assoc, List.filter_append, hone]

theorem Steady.packetsInFlight {n n' : Node} (h : Steady n n') :
    n'.packetsInFlight = n.packetsInFlight := by
  obtain ⟨evs, he, hevs⟩ := h.emits
  have hnone : (sentIn evs).filter (·.type = msgTypeNormal) = [] := by simpa using hevs
  rw [Node.packetsInFlight, Node.inFlight, he.ring, he.sending, ← List.append_assoc,
    List.filter_append, hnone, List.append_nil, Node.packetsInFlight, Node.inFlight]

theorem SamePackets.steady {p : StartupNode} {n' : Node} (h : Steady p.node n')
    (hcalls : n'.packetCalls = p.node.packetCalls) : SamePackets p { p with node := n' } := by
  have htiming := h.timing
  simp only [Node.timing, Prod.mk.injEq] at htiming
  obtain ⟨hclock, hbias, _, _, hcontexts⟩ := htiming
  exact ⟨rfl, rfl, rfl, hcontexts, h.packetsInFlight, hcalls, hclock.ge, Or.inl hbias⟩

/-- Both processes keep their packets in order, and the packets on the way from one to the other are
those sent after all that were taken out of the ring. -/
structure Startup.InOrder (s : Startup) : Prop where
  node : ∀ i, (s i).InOrder
  channel : ∀ i, (s i.peer).sent.map (·.msg) =
    (s i).armed.map (·.ctx.msg) ++ (s i.peer).node.packetsInFlight

theorem Startup.InOrder.channel_peer {s : Startup} (hs : s.InOrder) (i : Side) :
    (s i).sent.map (·.msg) =
      (s i.peer).armed.map (·.ctx.msg) ++ (s i).node.packetsInFlight := by
  have hchannel := hs.channel i.peer
  rwa [Side.peer_peer] at hchannel

/-- One process changes, and arms no timer. -/
theorem Startup.InOrder.update {s : Startup} (hs : s.InOrder) (i : Side) {p' : StartupNode}
    (hnode : p'.InOrder) (harmed : p'.armed = (s i).armed)
    (hsent : p'.sent.map (·.msg) = (s i.peer).armed.map (·.ctx.msg) ++ p'.node.packetsInFlight) :
    Startup.InOrder (Function.update s i p') where
  node := by
    refine Side.forall_of_self_peer i ?_ ?_
    · rwa [Function.update_self]
    · rw [Function.update_of_ne (Side.peer_ne i)]
      exact hs.node i.peer
  channel := by
    refine Side.forall_of_self_peer i ?_ ?_
    · rw [Function.update_self, Function.update_of_ne (Side.peer_ne i), harmed]
      exact hs.channel i
    · rw [Side.peer_peer, Function.update_self, Function.update_of_ne (Side.peer_ne i)]
      exact hsent

theorem Startup.InOrder.same {s : Startup} (hs : s.InOrder) {i : Side} {p' : StartupNode}
    (h : SamePackets (s i) p') : Startup.InOrder (Function.update s i p') := by
  refine hs.update i ((hs.node i).same h) h.armed ?_
  rw [h.sent, h.inFlight]
  exact hs.channel_peer i

/-- A node that is created has no packets yet. -/
theorem Startup.InOrder.create {cfg : Config} {s : Startup} (hs : s.InOrder) (hkept : s.Kept cfg)
    {i : Side} (hnew : (s i).created = false) (master : Bool) :
    SamePackets (s i) { s i with
      created := true
      node := pdesEngineWwtCreate cfg.sync cfg.latencyns master cfg.incrementalBase (s i).clock } := by
  obtain ⟨_, hsent, harmed⟩ := (hkept.node i).blank hnew
  have hdelivered := (hkept.node i).delivered_nil harmed
  have hchannel := hs.channel_peer i
  rw [hsent] at hchannel
  have hqueue := (hs.node i).queue.conserved
  rw [harmed] at hqueue
  refine ⟨rfl, rfl, rfl, ?_, ?_, ?_, le_refl (s i).clock, Or.inr hdelivered⟩
  · exact (List.append_eq_nil_iff.mp hqueue.symm).2.symm
  · exact (List.append_eq_nil_iff.mp hchannel.symm).2.symm
  · rw [(hs.node i).calls, StartupNode.packetCalls, hsent, hdelivered]
    rfl

/-- The oldest packet on the way is due no earlier than those that were taken out of the ring. -/
theorem Startup.InOrder.latest {cfg : Config} {s : Startup} (hs : s.InOrder) (hkept : s.Kept cfg)
    {i : Side} {msg : Message} {rest : List Message}
    (hflight : (s i.peer).node.packetsInFlight = msg :: rest) :
    ∀ q ∈ (s i).armed, int64 q.ctx.msg.tsNs ≤ int64 msg.tsNs := by
  have hsorted : ((s i.peer).sent.map (·.msg)).Pairwise
      fun msg msg' => int64 msg.tsNs ≤ int64 msg'.tsNs := by
    rw [List.pairwise_map]
    refine (hs.node i.peer).sent.imp_of_mem fun {q q'} hq hq' hle => ?_
    rw [((hkept.node i.peer).sent q hq).2, ((hkept.node i.peer).sent q' hq').2]
    omega
  rw [hs.channel i, hflight] at hsorted
  intro q hq
  have hmem : q.ctx.msg ∈ (s i).armed.map (·.ctx.msg) := List.mem_map_of_mem hq
  exact (List.pairwise_append.mp hsorted).2.2 _ hmem msg List.mem_cons_self

/-- A node takes a packet out of the other one's ring. -/
theorem Startup.InOrder.packet {cfg : Config} {s : Startup} (hs : s.InOrder) (hkept : s.Kept cfg)
    (hsync : cfg.sync = false) {i : Side} {msg : Message} {rest : List Message}
    (hring : (s i.peer).node.ring = msg :: rest) (htype : msg.type = msgTypeNormal)
    (hfits : int64 msg.tsNs + (s i).bias < 2 ^ 63) (hnext : ((s i).clock : Int) + 1 < 2 ^ 63) :
    Startup.InOrder (Function.update (s.take i rest) i { s i with
      node := armReceiveContext ((s i).node.logReceive msg) msg ((s i).node.processingTime msg)
      armed := (s i).armed ++ [(s i).armedPacket msg] }) := by
  have hone : [msg].filter (·.type = msgTypeNormal) = [msg] := by simpa using htype
  have hflight := packetsInFlight_of_ring hring
  rw [hone] at hflight
  have hlatest := hs.latest hkept hflight
  constructor
  · refine Side.forall_of_self_peer i ?_ ?_
    · rw [Function.update_self]
      exact (hs.node i).packet (hkept.node i) hsync hfits hnext hlatest
    · rw [Function.update_of_ne (Side.peer_ne i), Startup.take, Function.update_self]
      exact (hs.node i.peer).taken rest
  · refine Side.forall_of_self_peer i ?_ ?_
    · have hchannel := hs.channel i
      rw [hflight] at hchannel
      rw [Function.update_self, Function.update_of_ne (Side.peer_ne i), Startup.take,
        Function.update_self, List.map_append, List.append_assoc]
      exact hchannel
    · rw [Side.peer_peer, Function.update_self, Function.update_of_ne (Side.peer_ne i), Startup.take,
        Function.update_self]
      exact hs.channel_peer i

/-- A node takes another message out of the other one's ring. -/
theorem Startup.InOrder.message {s : Startup} (hs : s.InOrder) {i : Side} {msg : Message}
    {rest : List Message} (hring : (s i.peer).node.ring = msg :: rest)
    (htype : msg.type ≠ msgTypeNormal) {n' : Node} (h : processMessage (s i).node msg = .ok n') :
    Startup.InOrder (Function.update (s.take i rest) i { s i with node := n' }) := by
  have hnone : [msg].filter (·.type = msgTypeNormal) = [] := by simpa using htype
  have hflight := packetsInFlight_of_ring hring
  rw [hnone] at hflight
  have htake : (s.take i rest).InOrder :=
    hs.same ⟨rfl, rfl, rfl, rfl, hflight.symm, rfl, le_refl (s i.peer).clock, Or.inl rfl⟩
  refine htake.same ?_
  rw [Startup.take_self]
  have hlog : Steady (s i).node ((s i).node.logReceive msg) :=
    ⟨⟨_, emits_logReceive (s i).node msg, by simp [sentIn]⟩, rfl⟩
  refine .steady (hlog.trans (steady_frame.processMessage htype h)) ?_
  exact (packetCalls_frame.processMessage htype h).trans (packetCalls_logReceive (s i).node msg)

theorem StartsBy.inOrder {cfg : Config} (hsync : cfg.sync = false) {s s' : Startup}
    {ia : Side × StartupAction} (h : StartsBy cfg s ia s') (hsetUp : s.SetUp) (hkept : s.Kept cfg)
    (hs : s.InOrder) (hguard : UnsyncedStep s ia s') : s'.InOrder := by
  cases h with
  | @create i hnew => exact hs.same (hs.create hkept hnew _)
  | @commSend i msg rest hsending =>
      refine hs.same ⟨rfl, rfl, rfl, rfl, ?_, rfl, le_refl (s i).clock, Or.inl rfl⟩
      simp [Node.packetsInFlight, Node.inFlight, hsending]
  | @pollMessage i msg rest n' _ hring hn' =>
      by_cases htype : msg.type = msgTypeNormal
      · have hpacket := processMessage_packet_ok htype hn'
        subst hpacket
        rw [StartupNode.record_packet]
        obtain ⟨hfits, hnext⟩ := hguard msg (by rw [hring]; rfl) htype
        exact hs.packet hkept hsync hring htype hfits hnext
      · have hsteady := steady_frame.processMessage htype hn'
        rw [StartupNode.record_message (congrArg (fun timing => timing.2.2.2.2) hsteady.timing)]
        exact hs.message hring htype hn'
  | @callback i a n' henabled hidle hn' =>
      cases act_startupMove hn' with
      | setup =>
          obtain ⟨⟨_, hnull⟩, _⟩ := callback_ok.mp hn'
          have harmed := (hsetUp.inPlace hkept (not_not.mpr hnull)).2
          have hdelivered := (hkept.node i).delivered_nil harmed
          exact hs.same ⟨rfl, rfl, rfl, rfl, rfl, rfl, le_refl (s i).clock, Or.inr hdelivered⟩
      | advance hle hlt => exact hs.same ⟨rfl, rfl, rfl, rfl, rfl, rfl, hle, Or.inl rfl⟩
      | @wwtSend data msg hmsg =>
          rw [StartupNode.record_wwtSend hidle]
          refine hs.update i ((hs.node i).wwtSend hmsg) rfl ?_
          rw [packetsInFlight_pdesCommSend _ (createMessage_ok hmsg).2.2.2, List.map_append,
            hs.channel_peer i, List.append_assoc]
          rfl
      | @deliver k ctx hctx =>
          rw [StartupNode.record_deliver hctx]
          have hnode := (hs.node i).deliver hctx (henabled.2 ctx hctx) (hguard ctx hctx)
          exact hs.update i hnode rfl (hs.channel_peer i)
      | steady hsetup hsend hdeliver hsteady =>
          rw [StartupNode.record_steady (s i) hsetup hsend hdeliver hn']
          exact hs.same (.steady hsteady (act_packetCalls hsend hdeliver hn'))

theorem inOrder_beforeCreation (cfg : Config) : cfg.beforeCreation.InOrder where
  node _ :=
    { sent := .nil
      sent_le := by simp [Config.beforeCreation]
      armed_le := by simp [Config.beforeCreation]
      expiry := by simp [Config.beforeCreation]
      queue := .empty _
      due := by simp [Config.beforeCreation]
      calls := rfl }
  channel _ := rfl

theorem unsynced_inOrder {cfg : Config} {capacity : Option Nat} (hsync : cfg.sync = false)
    {s : Startup} (hs : cfg.StartsUp capacity UnsyncedStep s) : s.InOrder := by
  refine hs.invariant ?_ ?_
  · rintro s rfl
    exact inOrder_beforeCreation cfg
  · intro s ia s' hs hinOrder hstep hguard
    exact (startsBy_of_step hstep).inOrder hsync (startsUp_setUp hs) (unsynced_kept hs) hinOrder hguard

/-! ### Delivery -/

/-- The bytes of a packet. -/
def Message.payload (msg : Message) : List UInt8 := msg.bytes 0 msg.len

/-- The receiver's universal time at the poll that took the packet out of the ring. -/
def ArmedPacket.universalTime (q : ArmedPacket) : Int := int64 (q.clock - q.bias)

/-- No packet is lost: those that a node has sent are delivered, or wait for their timers, or are on
the way. -/
theorem Startup.InOrder.conserved {s : Startup} (hs : s.InOrder) (i : Side) :
    (packetsSent (s i.peer).node.log).map Prod.snd =
      (packetsDelivered (s i).node.log).map Prod.snd ++
        ((s i).node.receiveContexts.map (·.msg.payload) ++
          (s i.peer).node.packetsInFlight.map Message.payload) := by
  have hsent := (Prod.mk.inj (hs.node i.peer).calls).1
  have hdelivered := (Prod.mk.inj (hs.node i).calls).2
  have hchannel := congrArg (List.map Message.payload) (hs.channel i)
  have hqueue := congrArg (List.map fun ctx => ctx.msg.payload) (hs.node i).queue.conserved
  rw [List.map_append, List.map_map, List.map_map] at hchannel hqueue
  rw [hsent, hdelivered, List.map_map, List.map_map, ← List.append_assoc]
  refine hchannel.trans (congrArg (· ++ _) ?_)
  exact hqueue

/-- The `k`-th packet delivered is the `k`-th one that was sent and that was taken out of the ring. -/
theorem Startup.InOrder.origin {s : Startup} (hs : s.InOrder) {i : Side} {k : Nat}
    {d : DeliveredPacket} (hd : (s i).delivered[k]? = some d) :
    ∃ q r, (s i.peer).sent[k]? = some q ∧ (s i).armed[k]? = some r ∧ r.ctx.msg = q.msg ∧
      r.ctx = d.ctx := by
  have hfired : ((s i).delivered.map (·.ctx))[k]? = some d.ctx := by rw [List.getElem?_map, hd]; rfl
  have harmed := (hs.node i).queue.getElem?_fired hfired
  rw [List.getElem?_map, Option.map_eq_some_iff] at harmed
  obtain ⟨r, hr, hctx⟩ := harmed
  have hsent : ((s i.peer).sent.map (·.msg))[k]? = some r.ctx.msg := by
    have hlt : k < ((s i).armed.map (·.ctx.msg)).length := by
      rw [List.length_map]
      exact (List.getElem?_eq_some_iff.mp hr).1
    rw [hs.channel i, List.getElem?_append_left hlt, List.getElem?_map, hr]
    rfl
  rw [List.getElem?_map, Option.map_eq_some_iff] at hsent
  obtain ⟨q, hq, hmsg⟩ := hsent
  exact ⟨q, r, hq, hr, hmsg.symm, hctx⟩

/-- A packet is delivered at its timestamp or later, and later than the poll that took it. -/
theorem Startup.InOrder.inTime {cfg : Config} {s : Startup} (hs : s.InOrder) (hkept : s.Kept cfg)
    {i : Side} {d : DeliveredPacket} (hd : d ∈ (s i).delivered) {r : ArmedPacket}
    (hr : r ∈ (s i).armed) (hctx : r.ctx = d.ctx) :
    int64 r.ctx.msg.tsNs ≤ int64 (d.clock - (s i).bias) ∧
      r.universalTime < int64 (d.clock - (s i).bias) := by
  have hnonneg := (hkept.node i).bias_nonneg
  have hle := (hkept.node i).bias_le
  have hlt := (hkept.node i).clock_lt
  have hbias := ((hkept.node i).armed r hr).1
  have hpoll := (hs.node i).armed_le r hr
  have hexpiry := (hs.node i).expiry r hr
  obtain ⟨hdue, hnow⟩ := (hs.node i).due d hd
  rw [← hctx, hexpiry, max_le_iff, hbias] at hdue
  have htime : int64 (d.clock - (s i).bias) = d.clock - (s i).bias :=
    int64_eq_self (by omega) (by omega)
  have hreceived : r.universalTime = r.clock - (s i).bias := by
    rw [ArmedPacket.universalTime, hbias]
    exact int64_eq_self (by omega) (by omega)
  rw [htime, hreceived]
  exact ⟨by omega, by omega⟩

/-- The packets a node has handed on are the first ones that the other node has sent, in order and
byte for byte. None is handed on before its timestamp, nor by the time of the poll that took it. -/
theorem unsynced_delivery {cfg : Config} {capacity : Option Nat} (hsync : cfg.sync = false)
    {s : Startup} (hs : cfg.StartsUp capacity UnsyncedStep s) (i : Side) :
    (packetsDelivered (s i).node.log).map Prod.snd <+:
        (packetsSent (s i.peer).node.log).map Prod.snd ∧
      ∀ (k : Nat) time data, (packetsDelivered (s i).node.log)[k]? = some (time, data) →
        ∃ (q : SentPacket) (r : ArmedPacket), (s i.peer).sent[k]? = some q ∧
          (s i).armed[k]? = some r ∧ q.msg.payload = data ∧ r.ctx.msg = q.msg ∧
          int64 q.msg.tsNs ≤ time ∧ r.universalTime < time := by
  have hkept := unsynced_kept hs
  have hinOrder := unsynced_inOrder hsync hs
  refine ⟨⟨_, (hinOrder.conserved i).symm⟩, ?_⟩
  intro k time data hcall
  rw [(Prod.mk.inj (hinOrder.node i).calls).2, List.getElem?_map, Option.map_eq_some_iff] at hcall
  obtain ⟨d, hd, hcall⟩ := hcall
  obtain ⟨q, r, hq, hr, hmsg, hctx⟩ := hinOrder.origin hd
  obtain ⟨hstamp, hpoll⟩ :=
    hinOrder.inTime hkept (List.mem_of_getElem? hd) (List.mem_of_getElem? hr) hctx
  obtain ⟨htime, hdata⟩ := Prod.mk.inj hcall
  have hpayload : q.msg.payload = data := by rw [← hmsg, hctx, ← hdata]; rfl
  rw [hmsg, htime] at hstamp
  rw [htime] at hpoll
  exact ⟨q, r, hq, hr, hpayload, hmsg, hstamp, hpoll⟩

/-- The left node sends two packets. The right one takes both out of the ring at 2000 ns, when the
first is past its timestamp and the second is due a nanosecond later. -/
def latePoll : List (Side × StartupAction) :=
  [(.left, .create), (.right, .create), (.left, .act .setup), (.right, .act .setup),
    (.left, .act (.wwtSend [7])), (.left, .act .commSend), (.left, .act (.advance 1001)),
    (.left, .act (.wwtSend [8])), (.left, .act .commSend), (.right, .act (.advance 2000)),
    (.right, .act .pollTimer), (.right, .act .pollMessage), (.right, .act .pollMessage),
    (.right, .act .pollReturn), (.right, .act (.advance 2001)), (.right, .act (.deliver 0)),
    (.right, .act (.deliver 0))]

set_option maxRecDepth 100000 in
theorem unsynced_delivery_latePoll :
    ∃ s, (startupNodes false).StartsUp none UnsyncedStep s ∧
      packetsDelivered (s .right).node.log = [(1996, [7]), (1996, [8])] ∧
      [[7], [8]] <+: (packetsSent (s .left).node.log).map Prod.snd ∧
      ∃ (q : SentPacket) (r : ArmedPacket), (s .left).sent[1]? = some q ∧
        (s .right).armed[1]? = some r ∧ q.msg.payload = [8] ∧ r.ctx.msg = q.msg ∧
        int64 q.msg.tsNs ≤ 1996 ∧ r.universalTime < 1996 := by
  have hrun : (run (startupStep (startupNodes false) none) UnsyncedStep
      (startupNodes false).beforeCreation latePoll).map
      (fun s => packetsDelivered (s .right).node.log) = some [(1996, [7]), (1996, [8])] := by decide
  obtain ⟨s, hs, hdelivered⟩ := Option.map_eq_some_iff.mp hrun
  have hreach := Config.StartsUp.of_run hs
  obtain ⟨hinOrder, htimes⟩ := unsynced_delivery rfl hreach .right
  rw [hdelivered] at hinOrder htimes
  exact ⟨s, hreach, hdelivered, hinOrder, htimes 1 1996 [8] rfl⟩

end LeanPdes
