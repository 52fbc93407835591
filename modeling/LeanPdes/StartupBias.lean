import LeanPdes.Startup

/-! The bias of the packets of the start-up. A packet that is sent or received before the node's
set-up is computed with the bias of the creation, which lasts only if the set-up finds the clock where
the creation did. -/

namespace LeanPdes

open Words TwoParty Reach

abbrev StartupNode.bias (p : StartupNode) : Int := p.node.engine.firstSyncVirtualTime

abbrev StartupNode.clock (p : StartupNode) : Nat := p.node.virtualClock

/-- The raw delivery time of a packet that arrives at the given clock and bias. -/
def rawTime (sync : Bool) (clock : Nat) (bias : Int) (msg : Message) : Int :=
  let now := int64 (clock - bias)
  let processingTime :=
    if sync then int64 msg.tsNs
    else if int64 (now + 1) < int64 msg.tsNs then int64 msg.tsNs
    else int64 (now + 1)
  int64 (processingTime + bias)

/-- Every packet of the process was computed with the bias that the process has now. -/
structure StartupNode.Kept (cfg : Config) (p : StartupNode) : Prop where
  bias_nonneg : 0 ≤ p.bias
  bias_le : p.bias ≤ p.clock
  clock_lt : p.clock < 2 ^ 63
  latency : p.node.wwt.latencyns = cfg.latencyns
  sync : p.node.wwt.shouldSync = cfg.sync
  blank : p.created = false → p.fixed = none ∧ p.sent = [] ∧ p.armed = []
  fixed : ∀ b ∈ p.fixed, p.bias = b
  sent : ∀ q ∈ p.sent, q.bias = p.bias ∧ int64 q.msg.tsNs = q.clock - p.bias + cfg.latencyns
  armed : ∀ q ∈ p.armed,
    q.bias = p.bias ∧ q.ctx.timestampNs = rawTime cfg.sync q.clock p.bias q.ctx.msg
  inFlight : ∀ msg ∈ p.node.inFlight, msg.type = msgTypeNormal → ∃ q ∈ p.sent, q.msg = msg
  waiting : ∀ ctx ∈ p.node.receiveContexts,
    (∃ q ∈ p.armed, q.ctx = ctx) ∧ int64 ctx.msg.tsNs + p.bias ≤ max ctx.timer p.clock
  delivered : ∀ d ∈ p.delivered,
    (∃ q ∈ p.armed, q.ctx = d.ctx) ∧ int64 d.ctx.msg.tsNs + p.bias ≤ d.clock

/-- A step that leaves the times and the waiting packets alone, and brings no packet on its way. -/
theorem StartupNode.Kept.node {cfg : Config} {p : StartupNode} (h : p.Kept cfg) {n' : Node}
    (htiming : n'.timing = p.node.timing)
    (hflight : ∀ msg ∈ n'.inFlight, msg.type = msgTypeNormal → msg ∈ p.node.inFlight) :
    StartupNode.Kept cfg { p with node := n' } := by
  simp only [Node.timing, Prod.mk.injEq] at htiming
  obtain ⟨hclock, hbias, hlatency, hsync, hcontexts⟩ := htiming
  constructor <;> simp only [StartupNode.bias, StartupNode.clock, hbias, hclock, hlatency, hsync,
    hcontexts]
  case bias_nonneg => exact h.bias_nonneg
  case bias_le => exact h.bias_le
  case clock_lt => exact h.clock_lt
  case latency => exact h.latency
  case sync => exact h.sync
  case blank => exact h.blank
  case fixed => exact h.fixed
  case sent => exact h.sent
  case armed => exact h.armed
  case inFlight => exact fun msg hmem htype => h.inFlight msg (hflight msg hmem htype) htype
  case waiting => exact h.waiting
  case delivered => exact h.delivered

theorem StartupNode.Kept.steady {cfg : Config} {p : StartupNode} (h : p.Kept cfg) {n' : Node}
    (hsteady : Steady p.node n') : StartupNode.Kept cfg { p with node := n' } := by
  refine h.node hsteady.timing ?_
  intro msg hmem htype
  obtain ⟨evs, he, hevs⟩ := hsteady.emits
  rw [Node.inFlight, he.ring, he.sending, ← List.append_assoc] at hmem
  rcases List.mem_append.mp hmem with hmem | hmem
  · exact hmem
  · exact absurd htype (hevs msg hmem)

theorem StartupNode.Kept.delivered_nil {cfg : Config} {p : StartupNode} (h : p.Kept cfg)
    (harmed : p.armed = []) : p.delivered = [] := by
  apply List.eq_nil_iff_forall_not_mem.mpr
  intro d hd
  obtain ⟨⟨q, hq, _⟩, _⟩ := h.delivered d hd
  rw [harmed] at hq
  cases hq

/-- A node that is created has no packets yet. -/
theorem StartupNode.Kept.create {cfg : Config} {p : StartupNode} (h : p.Kept cfg)
    (hnew : p.created = false) (master : Bool) :
    StartupNode.Kept cfg { p with
      created := true
      node := pdesEngineWwtCreate cfg.sync cfg.latencyns master cfg.incrementalBase p.clock } := by
  obtain ⟨hfixed, hsent, harmed⟩ := h.blank hnew
  have hdelivered := h.delivered_nil harmed
  constructor
  case bias_nonneg => exact Int.natCast_nonneg _
  case bias_le => exact le_refl _
  case clock_lt => exact h.clock_lt
  case latency => rfl
  case sync => rfl
  case blank => simp
  case fixed => simp [hfixed]
  case sent => simp [hsent]
  case armed => simp [harmed]
  case inFlight => simp [Node.inFlight, pdesEngineWwtCreate]
  case waiting => simp [pdesEngineWwtCreate]
  case delivered => simp [hdelivered]

/-- The set-up leaves the bias as it is, or the node has no packets yet. -/
theorem StartupNode.Kept.setup {cfg : Config} {p : StartupNode} (h : p.Kept cfg)
    (hcreated : p.created = true)
    (hbias : p.sent = [] ∧ p.armed = [] ∨ (p.clock : Int) = p.bias) :
    StartupNode.Kept cfg { p with node := setupWwt p.node, fixed := some (p.clock : Int) } := by
  rcases hbias with ⟨hsent, harmed⟩ | hbias
  · have hdelivered := h.delivered_nil harmed
    constructor
    case bias_nonneg => exact Int.natCast_nonneg _
    case bias_le => exact le_refl _
    case clock_lt => exact h.clock_lt
    case latency => exact h.latency
    case sync => exact h.sync
    case blank => simp [hcreated]
    case fixed => simp [setupWwt]
    case sent => simp [hsent]
    case armed => simp [harmed]
    case inFlight => exact h.inFlight
    case waiting =>
      intro ctx hctx
      obtain ⟨⟨q, hq, _⟩, _⟩ := h.waiting ctx hctx
      rw [harmed] at hq
      cases hq
    case delivered => simp [hdelivered]
  · have htiming : (setupWwt p.node).timing = p.node.timing := by
      rw [setupWwt, Node.timing, hbias, Node.timing]
    have hsame := h.node htiming (fun msg hmem _ => hmem)
    exact { hsame with blank := by simp [hcreated], fixed := by simp [setupWwt] }

theorem StartupNode.Kept.advance {cfg : Config} {p : StartupNode} (h : p.Kept cfg) {t : Nat}
    (hle : p.clock ≤ t) (hlt : t < 2 ^ 63) :
    StartupNode.Kept cfg { p with node := { p.node with virtualClock := t } } := by
  have hbias : p.bias ≤ t := h.bias_le.trans (Int.ofNat_le.mpr hle)
  constructor
  case bias_nonneg => exact h.bias_nonneg
  case bias_le => exact hbias
  case clock_lt => exact hlt
  case latency => exact h.latency
  case sync => exact h.sync
  case blank => exact h.blank
  case fixed => exact h.fixed
  case sent => exact h.sent
  case armed => exact h.armed
  case inFlight => exact h.inFlight
  case waiting =>
    intro ctx hctx
    obtain ⟨harmed, hdue⟩ := h.waiting ctx hctx
    exact ⟨harmed, hdue.trans (max_le_max le_rfl (Int.ofNat_le.mpr hle))⟩
  case delivered => exact h.delivered

/-- The universal time of a node is what has passed since its bias. -/
theorem StartupNode.Kept.universalTime {cfg : Config} {p : StartupNode} (h : p.Kept cfg) :
    p.node.universalTime = p.clock - p.bias := by
  have hnonneg := h.bias_nonneg
  have hle := h.bias_le
  have hlt := h.clock_lt
  have hlow : -2 ^ 63 ≤ (p.clock : Int) - p.bias := by omega
  have hhigh : (p.clock : Int) - p.bias < 2 ^ 63 := by omega
  exact int64_eq_self hlow hhigh

/-- A packet that is sent gets the sender's universal time and the latency as its timestamp. -/
theorem StartupNode.Kept.wwtSend {cfg : Config} {p : StartupNode} (h : p.Kept cfg)
    (hcreated : p.created = true) {data : List UInt8} {msg : Message}
    (hmsg : p.node.packet data = .ok msg)
    (hfits : int64 (p.node.universalTime + p.node.wwt.latencyns) =
      p.node.universalTime + p.node.wwt.latencyns) :
    StartupNode.Kept cfg { p with
      node := pdesCommSend (p.node.logSend data) msg
      sent := p.sent ++ [p.sentPacket msg] } := by
  obtain ⟨hts, _⟩ := createMessage_ok hmsg
  have hstamp : int64 msg.tsNs = p.clock - p.bias + cfg.latencyns := by
    rw [hts, int64_uint64, hfits, hfits, h.universalTime, h.latency]
  constructor
  case bias_nonneg => exact h.bias_nonneg
  case bias_le => exact h.bias_le
  case clock_lt => exact h.clock_lt
  case latency => exact h.latency
  case sync => exact h.sync
  case blank => simp [hcreated]
  case fixed => exact h.fixed
  case sent =>
    intro q hq
    rcases List.mem_append.mp hq with hq | hq
    · exact h.sent q hq
    · rw [List.mem_singleton.mp hq]
      exact ⟨rfl, hstamp⟩
  case armed => exact h.armed
  case inFlight =>
    intro m hm htype
    rw [Node.inFlight, pdesCommSend, ← List.append_assoc] at hm
    rcases List.mem_append.mp hm with hm | hm
    · obtain ⟨q, hq, hmsg⟩ := h.inFlight m hm htype
      exact ⟨q, List.mem_append_left _ hq, hmsg⟩
    · rw [List.mem_singleton.mp hm]
      exact ⟨p.sentPacket msg, List.mem_append_right _ (List.mem_singleton.mpr rfl), rfl⟩
  case waiting => exact h.waiting
  case delivered => exact h.delivered

theorem receiveContext_timestampNs (n : Node) (msg : Message) :
    (receiveContext n msg (n.processingTime msg)).timestampNs =
      rawTime n.wwt.shouldSync n.virtualClock n.engine.firstSyncVirtualTime msg := rfl

/-- A packet is not due before its timestamp: its delivery time or the clock of its arrival is not
before the timestamp on the receiver's clock. -/
theorem le_rawTime (sync : Bool) {clock : Nat} {bias : Int} {msg : Message} (hnonneg : 0 ≤ bias)
    (hle : bias ≤ clock) (hlt : clock < 2 ^ 63) (hfits : int64 msg.tsNs + bias < 2 ^ 63) :
    int64 msg.tsNs + bias ≤ max (rawTime sync clock bias msg) clock := by
  have hlow := int64_ge msg.tsNs
  have hraw : int64 (int64 msg.tsNs + bias) = int64 msg.tsNs + bias :=
    int64_eq_self (by omega) hfits
  have hnow : int64 (clock - bias) = clock - bias := int64_eq_self (by omega) (by omega)
  rw [rawTime, hnow]
  split_ifs with hsync hlater
  · rw [hraw]
    exact le_max_left ..
  · rw [hraw]
    exact le_max_left ..
  · rw [not_lt] at hlater
    by_cases hlast : (clock : Int) + 1 < 2 ^ 63
    · have hnext : int64 ((clock : Int) - bias + 1) = clock - bias + 1 :=
        int64_eq_self (by omega) (by omega)
      have hsum : (clock : Int) - bias + 1 + bias = clock + 1 := by ring
      have hraw : int64 ((clock : Int) + 1) = clock + 1 := int64_eq_self (by omega) hlast
      rw [hnext] at hlater ⊢
      rw [hsum, hraw]
      exact (by omega : int64 msg.tsNs + bias ≤ clock + 1).trans (le_max_left ..)
    · -- at the last reading of the clock the next nanosecond overflows, but the packet is due by now
      exact (by omega : int64 msg.tsNs + bias ≤ clock).trans (le_max_right ..)

/-- A packet that arrives waits for its timestamp on the receiver's clock. -/
theorem StartupNode.Kept.packet {cfg : Config} {p : StartupNode} (h : p.Kept cfg)
    (hcreated : p.created = true) {msg : Message} (hfits : int64 msg.tsNs + p.bias < 2 ^ 63) :
    StartupNode.Kept cfg { p with
      node := armReceiveContext (p.node.logReceive msg) msg (p.node.processingTime msg)
      armed := p.armed ++ [p.armedPacket msg] } := by
  have hnew : p.armedPacket msg ∈ p.armed ++ [p.armedPacket msg] :=
    List.mem_append_right _ (List.mem_singleton.mpr rfl)
  constructor
  case bias_nonneg => exact h.bias_nonneg
  case bias_le => exact h.bias_le
  case clock_lt => exact h.clock_lt
  case latency => exact h.latency
  case sync => exact h.sync
  case blank => simp [hcreated]
  case fixed => exact h.fixed
  case sent => exact h.sent
  case armed =>
    intro q hq
    rcases List.mem_append.mp hq with hq | hq
    · exact h.armed q hq
    · rw [List.mem_singleton.mp hq]
      exact ⟨rfl, h.sync ▸ receiveContext_timestampNs p.node msg⟩
  case inFlight => exact h.inFlight
  case waiting =>
    intro ctx hctx
    rcases List.mem_append.mp hctx with hctx | hctx
    · obtain ⟨⟨q, hq, hqctx⟩, hdue⟩ := h.waiting ctx hctx
      exact ⟨⟨q, List.mem_append_left _ hq, hqctx⟩, hdue⟩
    · rw [List.mem_singleton.mp hctx]
      refine ⟨⟨p.armedPacket msg, hnew, rfl⟩, ?_⟩
      have hdue := le_rawTime p.node.wwt.shouldSync h.bias_nonneg h.bias_le h.clock_lt hfits
      exact hdue.trans (max_le_max (le_max_left ..) le_rfl)
  case delivered =>
    intro d hd
    obtain ⟨⟨q, hq, hqctx⟩, hdue⟩ := h.delivered d hd
    exact ⟨⟨q, List.mem_append_left _ hq, hqctx⟩, hdue⟩

/-- A packet is delivered once its timer and the clock of its arrival have passed. -/
theorem StartupNode.Kept.deliver {cfg : Config} {p : StartupNode} (h : p.Kept cfg) {k : Nat}
    {ctx : MessageReceiveContext} (hctx : p.node.receiveContexts[k]? = some ctx)
    (htimer : ctx.timer ≤ p.clock) (log : List Event) :
    StartupNode.Kept cfg { p with
      node := { p.node with receiveContexts := p.node.receiveContexts.eraseIdx k, log := log }
      delivered := p.delivered ++ [⟨p.clock, ctx⟩] } := by
  obtain ⟨harmed, hdue⟩ := h.waiting ctx (List.mem_of_getElem? hctx)
  constructor
  case bias_nonneg => exact h.bias_nonneg
  case bias_le => exact h.bias_le
  case clock_lt => exact h.clock_lt
  case latency => exact h.latency
  case sync => exact h.sync
  case blank => exact h.blank
  case fixed => exact h.fixed
  case sent => exact h.sent
  case armed => exact h.armed
  case inFlight => exact h.inFlight
  case waiting => exact fun ctx' hctx' => h.waiting ctx' (List.mem_of_mem_eraseIdx hctx')
  case delivered =>
    intro d hd
    rcases List.mem_append.mp hd with hd | hd
    · exact h.delivered d hd
    · rw [List.mem_singleton.mp hd]
      exact ⟨harmed, hdue.trans (max_le htimer le_rfl)⟩

theorem StartupNode.Turn.kept {cfg : Config} {p p' : StartupNode} {a : Action} (h : p.Turn a p')
    (hp : p.Kept cfg)
    (hbias : a = .setup → p.sent = [] ∧ p.armed = [] ∨ (p.clock : Int) = p.bias)
    (hfits : ∀ data, a = .wwtSend data → int64 (p.node.universalTime + p.node.wwt.latencyns) =
      p.node.universalTime + p.node.wwt.latencyns) : p'.Kept cfg := by
  cases h with
  | setup hcreated => exact hp.setup hcreated (hbias rfl)
  | advance hle hlt => exact hp.advance hle hlt
  | wwtSend hcreated hmsg => exact hp.wwtSend hcreated hmsg (hfits _ rfl)
  | deliver hctx htimer => exact hp.deliver hctx htimer _
  | steady _ hsteady => exact hp.steady hsteady

/-- A callback arms no timer for a packet, and forgets no packet that was sent. -/
theorem StartupNode.Turn.records {p p' : StartupNode} {a : Action} (h : p.Turn a p') :
    p'.armed = p.armed ∧ ∀ q ∈ p.sent, q ∈ p'.sent := by
  cases h with
  | wwtSend hcreated hmsg => exact ⟨rfl, fun q hq => List.mem_append_left _ hq⟩
  | _ => exact ⟨rfl, fun q hq => hq⟩

/-- Both processes keep their records, and every packet that is armed was sent by the other one. -/
structure Startup.Kept (cfg : Config) (s : Startup) : Prop where
  node : ∀ i, (s i).Kept cfg
  origin : ∀ i, ∀ q ∈ (s i).armed, ∃ p ∈ (s i.peer).sent, p.msg = q.ctx.msg

/-- The set-up of a node that has sent a packet, or has fixed the time of one, finds the clock where
the node was created. -/
def Startup.SetupInPlace (s : Startup) (i : Side) : Prop :=
  (s i).sent = [] ∧ (s i).armed = [] ∨ ((s i).clock : Int) = (s i).bias

/-- The steps whose times fit 64 bits, with every set-up in place. -/
def StartupFits (s : Startup) : Side × StartupAction → Startup → Prop
  | (i, .act .setup), _ => s.SetupInPlace i
  | (i, .act (.wwtSend _)), _ =>
      int64 ((s i).node.universalTime + (s i).node.wwt.latencyns) =
        (s i).node.universalTime + (s i).node.wwt.latencyns
  | (i, .act .pollMessage), _ =>
      ∀ msg ∈ (s i.peer).node.ring.head?, msg.type = msgTypeNormal →
        int64 msg.tsNs + (s i).bias < 2 ^ 63
  | _, _ => True

/-- One process changes; it keeps what it has sent, and arms timers for the other one's packets. -/
theorem Startup.Kept.update {cfg : Config} {s : Startup} (hs : s.Kept cfg) (i : Side)
    {p' : StartupNode} (hnode : p'.Kept cfg) (hsent : ∀ q ∈ (s i).sent, q ∈ p'.sent)
    (harmed : ∀ q ∈ p'.armed, ∃ p ∈ (s i.peer).sent, p.msg = q.ctx.msg) :
    Startup.Kept cfg (Function.update s i p') where
  node := by
    refine Side.forall_of_self_peer i ?_ ?_
    · rwa [Function.update_self]
    · rw [Function.update_of_ne (Side.peer_ne i)]
      exact hs.node i.peer
  origin := by
    refine Side.forall_of_self_peer i ?_ ?_
    · rw [Function.update_self, Function.update_of_ne (Side.peer_ne i)]
      exact harmed
    · rw [Function.update_of_ne (Side.peer_ne i), Side.peer_peer, Function.update_self]
      intro q hq
      obtain ⟨p, hp, hmsg⟩ := hs.origin i.peer q hq
      rw [Side.peer_peer] at hp
      exact ⟨p, hsent p hp, hmsg⟩

/-- A node takes a message out of the other one's ring. -/
theorem Startup.Kept.take {cfg : Config} {s : Startup} (hs : s.Kept cfg) {i : Side} {msg : Message}
    {rest : List Message} (hring : (s i.peer).node.ring = msg :: rest) :
    Startup.Kept cfg (Function.update s i.peer
      { s i.peer with node := { (s i.peer).node with ring := rest } }) := by
  refine hs.update i.peer ((hs.node i.peer).node rfl ?_) (fun q hq => hq) (hs.origin i.peer)
  intro m hm _
  rw [Node.inFlight] at hm ⊢
  rw [hring]
  exact List.mem_cons_of_mem _ hm

theorem StartsTo.kept {cfg : Config} {s s' : Startup} {ia : Side × StartupAction}
    (h : StartsTo cfg s ia s') (hs : s.Kept cfg) (hfits : StartupFits s ia s') : s'.Kept cfg := by
  cases h with
  | @create i hnew =>
      exact hs.update i ((hs.node i).create hnew _) (fun q hq => hq) (hs.origin i)
  | @commSend i msg rest hsending =>
      refine hs.update i ((hs.node i).node rfl ?_) (fun q hq => hq) (hs.origin i)
      intro m hm _
      rw [Node.inFlight] at hm ⊢
      rw [hsending]
      simpa using hm
  | @packet i msg rest hcreated hring htype =>
      have htake := hs.take hring
      have hself : Function.update s i.peer
          { s i.peer with node := { (s i.peer).node with ring := rest } } i = s i := s.take_self i rest
      refine htake.update i ((hs.node i).packet hcreated ?_) (by rw [hself]; exact fun q hq => hq) ?_
      · exact hfits msg (by rw [hring]; rfl) htype
      · rw [Function.update_self]
        intro q hq
        rcases List.mem_append.mp hq with hq | hq
        · exact hs.origin i q hq
        · rw [List.mem_singleton.mp hq]
          have hflight : msg ∈ (s i.peer).node.inFlight := by
            rw [Node.inFlight, hring]
            exact List.mem_cons_self
          exact (hs.node i.peer).inFlight msg hflight htype
  | @message i msg rest n' hring hsteady =>
      have htake := hs.take hring
      have hself : Function.update s i.peer
          { s i.peer with node := { (s i.peer).node with ring := rest } } i = s i := s.take_self i rest
      have hlogged : StartupNode.Kept cfg { s i with node := (s i).node.logReceive msg } :=
        (hs.node i).node rfl (fun m hm _ => hm)
      refine htake.update i (hlogged.steady hsteady) (by rw [hself]; exact fun q hq => hq) ?_
      rw [Function.update_self]
      exact hs.origin i
  | @turn i a p' hturn =>
      obtain ⟨harmed, hsent⟩ := hturn.records
      have hkept : p'.Kept cfg := by
        refine hturn.kept (hs.node i) ?_ ?_
        · rintro rfl
          exact hfits
        · rintro data rfl
          exact hfits
      refine hs.update i hkept hsent ?_
      rw [harmed]
      exact hs.origin i

theorem kept_beforeCreation (cfg : Config) : cfg.beforeCreation.Kept cfg where
  node i :=
    { bias_nonneg := Int.natCast_nonneg _
      bias_le := le_refl _
      clock_lt := cfg.clock_lt i
      latency := rfl
      sync := rfl
      blank := fun _ => ⟨rfl, rfl, rfl⟩
      fixed := by simp [Config.beforeCreation]
      sent := by simp [Config.beforeCreation]
      armed := by simp [Config.beforeCreation]
      inFlight := by
        simp [Config.beforeCreation, Node.inFlight, Config.created, pdesEngineWwtCreate]
      waiting := by simp [Config.beforeCreation, Config.created, pdesEngineWwtCreate]
      delivered := by simp [Config.beforeCreation] }
  origin i := by simp [Config.beforeCreation]

/-- Every packet of a node that is set up was computed with the bias that the set-up fixed, and none
was delivered before the sender's universal time at the send and the latency have passed. -/
structure Startup.Sound (cfg : Config) (s : Startup) : Prop where
  stamped : ∀ i, ∀ b ∈ (s i).fixed, ∀ q ∈ (s i).sent,
    q.bias = b ∧ int64 q.msg.tsNs = q.clock - b + cfg.latencyns
  timed : ∀ i, ∀ b ∈ (s i).fixed, ∀ q ∈ (s i).armed,
    q.bias = b ∧ q.ctx.timestampNs = rawTime cfg.sync q.clock b q.ctx.msg
  inTime : ∀ i, ∀ b ∈ (s i).fixed, ∀ c ∈ (s i.peer).fixed, ∀ d ∈ (s i).delivered,
    (∃ q ∈ (s i.peer).sent, q.msg = d.ctx.msg) ∧
      ∀ q ∈ (s i.peer).sent, q.msg = d.ctx.msg → q.clock - c + cfg.latencyns ≤ d.clock - b

theorem Startup.Kept.sound {cfg : Config} {s : Startup} (hs : s.Kept cfg) : s.Sound cfg where
  stamped i b hb := (hs.node i).fixed b hb ▸ (hs.node i).sent
  timed i b hb := (hs.node i).fixed b hb ▸ (hs.node i).armed
  inTime i b hb c hc d hd := by
    obtain ⟨⟨q, hq, hctx⟩, hdue⟩ := (hs.node i).delivered d hd
    rw [(hs.node i).fixed b hb] at hdue
    refine ⟨hctx ▸ hs.origin i q hq, ?_⟩
    intro p hp hmsg
    have hstamp := ((hs.node i.peer).sent p hp).2
    rw [(hs.node i.peer).fixed c hc, hmsg] at hstamp
    omega

/-- A set-up that moves the bias of a node with packets leaves them computed with the old one. -/
theorem Startup.Kept.not_sound_of_setup {cfg : Config} {s s' : Startup} (hs : s.Kept cfg) {i : Side}
    (hstep : StartsTo cfg s (i, .act .setup) s') (hsetup : ¬s.SetupInPlace i) : ¬s'.Sound cfg := by
  rw [Startup.SetupInPlace, not_or, Classical.not_and_iff_not_or_not] at hsetup
  obtain ⟨hpackets, hmoved⟩ := hsetup
  cases hstep with
  | turn hturn =>
      cases hturn with
      | steady hne _ => exact absurd rfl hne
      | setup hcreated =>
          intro hsound
          have hstamped := hsound.stamped i (s i).clock (by rw [Function.update_self]; rfl)
          have htimed := hsound.timed i (s i).clock (by rw [Function.update_self]; rfl)
          rw [Function.update_self] at hstamped htimed
          rcases hpackets with hsent | harmed
          · obtain ⟨q, hq⟩ := List.exists_mem_of_ne_nil _ hsent
            exact hmoved ((hstamped q hq).1.symm.trans ((hs.node i).sent q hq).1)
          · obtain ⟨q, hq⟩ := List.exists_mem_of_ne_nil _ harmed
            exact hmoved ((htimed q hq).1.symm.trans ((hs.node i).armed q hq).1)

/-- The states of the start-up in runs whose steps meet `guard`. -/
abbrev Config.StartsUp (cfg : Config) (capacity : Option Nat)
    (guard : Startup → Side × StartupAction → Startup → Prop) : Startup → Prop :=
  Reachable (startupStep cfg capacity) guard (· = cfg.beforeCreation)

theorem Config.StartsUp.of_run {cfg : Config} {capacity : Option Nat}
    {guard : Startup → Side × StartupAction → Startup → Prop} [∀ s a s', Decidable (guard s a s')]
    {acts : List (Side × StartupAction)} {s : Startup}
    (hrun : run (startupStep cfg capacity) guard cfg.beforeCreation acts = some s) :
    cfg.StartsUp capacity guard s := by
  have hstart : cfg.StartsUp capacity guard cfg.beforeCreation := .start rfl
  exact hstart.run hrun

theorem startsUp_kept {cfg : Config} {capacity : Option Nat} {s : Startup}
    (hs : cfg.StartsUp capacity StartupFits s) : s.Kept cfg := by
  refine hs.invariant ?_ ?_
  · rintro s rfl
    exact kept_beforeCreation cfg
  · intro s ia s' _ hkept hstep hfits
    exact (startsTo_of_step hstep).kept hkept hfits

/-- Where every set-up of a node with packets finds the clock at the node's creation, no packet is
computed with a bias that does not last. The first set-up that does not, leaves such a packet. -/
theorem startup_sound {cfg : Config} {capacity : Option Nat} {s : Startup}
    (hs : cfg.StartsUp capacity StartupFits s) :
    s.Sound cfg ∧ ∀ i s', startupStep cfg capacity s (i, .act .setup) = .ok s' →
      (s'.Sound cfg ↔ s.SetupInPlace i) := by
  have hkept := startsUp_kept hs
  refine ⟨hkept.sound, fun i s' hstep => ⟨fun hsound => ?_, fun hsetup => ?_⟩⟩
  · by_contra hmoved
    exact hkept.not_sound_of_setup (startsTo_of_step hstep) hmoved hsound
  · exact ((startsTo_of_step hstep).kept hkept hsetup).sound

instance (s : Startup) (ia : Side × StartupAction) (s' : Startup) :
    Decidable (StartupFits s ia s') :=
  match ia with
  | (_, .act .setup) => inferInstanceAs (Decidable (_ ∨ _))
  | (_, .act (.wwtSend _)) => inferInstanceAs (Decidable (_ = _))
  | (i, .act .pollMessage) =>
      inferInstanceAs (Decidable (∀ msg ∈ (s i.peer).node.ring.head?, msg.type = msgTypeNormal →
        int64 msg.tsNs + (s i).bias < 2 ^ 63))
  | (_, .create) | (_, .act (.advance _)) | (_, .act (.deliver _)) | (_, .act .pollTimer)
  | (_, .act .pollReturn) | (_, .act .quantaSync) | (_, .act .syncCheck) | (_, .act .pauseBh)
  | (_, .act .checkpointBh) | (_, .act .commSend) | (_, .act .finishInitiateCheckpoint)
  | (_, .act .canStop) | (_, .act .notifyNeighboursOfEnd) | (_, .act .engineDestroy) =>
      .isTrue trivial

/-- A pair of nodes that are created 5 ns after their clocks start. -/
def startupNodes (sync : Bool) : Config := { twoNodes with sync }

/-- The left node is set up and sends a packet; the right one takes it out of the ring before its own
set-up, which comes when its clock reads `setup`, and delivers it when its timer fires. -/
def earlyPoll (setup : Nat) : List (Side × StartupAction) :=
  [(.left, .create), (.left, .act .setup), (.left, .act (.wwtSend [7])), (.left, .act .commSend),
    (.right, .create), (.right, .act .pollTimer), (.right, .act .pollMessage),
    (.right, .act .pollReturn), (.right, .act (.advance setup)), (.right, .act .setup),
    (.right, .act (.advance 1005)), (.right, .act (.deliver 0))]

set_option maxRecDepth 100000 in
theorem startup_sound_earlyPoll :
    ∃ s, (startupNodes true).StartsUp none StartupFits s ∧ (s .right).delivered.length = 1 ∧
      s.Sound (startupNodes true) := by
  have hrun : (run (startupStep (startupNodes true) none) StartupFits
      (startupNodes true).beforeCreation (earlyPoll 5)).map
      (fun s => (s .right).delivered.length) = some 1 := by decide
  obtain ⟨s, hs, hdelivered⟩ := Option.map_eq_some_iff.mp hrun
  have hreach := Config.StartsUp.of_run hs
  exact ⟨s, hreach, hdelivered, (startup_sound hreach).1⟩

set_option maxRecDepth 100000 in
/-- The set-up at 100 ns moves the bias under the packet: it is delivered at universal time 905,
before the sender's 0 and the latency of 1000. -/
theorem earlyPoll_not_sound (sync : Bool) :
    ∃ s, (startupNodes sync).StartsUp none (fun _ _ _ => True) s ∧ ¬s.Sound (startupNodes sync) := by
  have hrun : (run (startupStep (startupNodes sync) none) (fun _ _ _ => True)
      (startupNodes sync).beforeCreation (earlyPoll 100)).map (fun s =>
        decide ((s .left).fixed = some 5 ∧ (s .right).fixed = some 100 ∧
          ∃ d ∈ (s .right).delivered, d.clock = 1005 ∧
            ∃ q ∈ (s .left).sent, q.msg = d.ctx.msg ∧ q.clock = 5)) = some true := by
    cases sync <;> decide
  obtain ⟨s, hs, hfacts⟩ := Option.map_eq_some_iff.mp hrun
  obtain ⟨hleft, hright, d, hd, hclock, q, hq, hmsg, hsent⟩ := of_decide_eq_true hfacts
  refine ⟨s, Config.StartsUp.of_run hs, fun hsound => ?_⟩
  have hlate := (hsound.inTime .right 100 hright 5 hleft d hd).2 q hq hmsg
  have hlatency : (startupNodes sync).latencyns = 1000 := rfl
  rw [hsent, hclock, hlatency] at hlate
  exact absurd hlate (by decide)

theorem not_sound_of_earlyPoll :
    (∃ s, (startupNodes true).StartsUp none (fun _ _ _ => True) s ∧ ¬s.Sound (startupNodes true)) ∧
      ∃ s, (startupNodes false).StartsUp none (fun _ _ _ => True) s ∧
        ¬s.Sound (startupNodes false) :=
  ⟨earlyPoll_not_sound true, earlyPoll_not_sound false⟩

end LeanPdes
