import LeanPdes.Causality
import LeanPdes.TimerQueue

/-! Delivery of packets. Timers of the virtual clock fire in order and before the clock passes them,
so a node hands its packets on in the order the other node sent them, each one exactly a latency
after its send. -/

namespace LeanPdes

open Words TwoParty Reach

/-- What QEMU promises about the timers of packets, and the sizes of the packets. A timer fires at or
after its expiry and before the clock moves past it, earlier expiries first, and equal expiries in
the order of arming. -/
def Prompt (s : System) : Side × Action → Prop
  | (i, .advance t) => ∀ ctx ∈ (s i).receiveContexts, (t : Int) ≤ ctx.timer
  | (i, .deliver k) => ∀ ctx ∈ (s i).receiveContexts[k]?,
      ctx.timer ≤ (s i).virtualClock ∧ (∀ other ∈ (s i).receiveContexts, ctx.timer ≤ other.timer) ∧
        ∀ other ∈ (s i).receiveContexts.take k, ctx.timer < other.timer
  | (_, .wwtSend data) => 1 ≤ data.length ∧ data.length ≤ maxMsgSize
  | _ => True

instance (s : System) (ia : Side × Action) : Decidable (Prompt s ia) :=
  match ia with
  | (i, .advance t) =>
      inferInstanceAs (Decidable (∀ ctx ∈ (s i).receiveContexts, (t : Int) ≤ ctx.timer))
  | (i, .deliver k) =>
      inferInstanceAs (Decidable (∀ ctx ∈ (s i).receiveContexts[k]?, ctx.timer ≤ _ ∧
        (∀ other ∈ (s i).receiveContexts, ctx.timer ≤ other.timer) ∧
          ∀ other ∈ (s i).receiveContexts.take k, ctx.timer < other.timer))
  | (_, .wwtSend _) => inferInstanceAs (Decidable (_ ∧ _))
  | (_, .setup) | (_, .pollTimer) | (_, .pollMessage) | (_, .pollReturn) | (_, .quantaSync)
  | (_, .syncCheck) | (_, .pauseBh) | (_, .checkpointBh) | (_, .commSend)
  | (_, .finishInitiateCheckpoint) | (_, .canStop) | (_, .notifyNeighboursOfEnd)
  | (_, .engineDestroy) => .isTrue trivial

/-- On both nodes' clocks the ends of both nodes' next rounds fit. -/
def AllTimesFit (s : System) : Prop := ∀ i j, (s i).Fits (s j).wwt.currentQuantumRound

instance (s : System) : Decidable (AllTimesFit s) :=
  inferInstanceAs (Decidable (∀ i j, (s i).Fits (s j).wwt.currentQuantumRound))

/-- The steps of a run under QEMU's promises about packets too. -/
def PromptStep (s : System) (ia : Side × Action) (s' : System) : Prop :=
  Timely s ia ∧ Prompt s ia ∧ RoundsFit s' ∧ AllTimesFit s'

instance (s : System) (ia : Side × Action) (s' : System) : Decidable (PromptStep s ia s') :=
  inferInstanceAs (Decidable (_ ∧ _ ∧ _ ∧ _))

theorem PromptStep.timelyStep {s s' : System} {ia : Side × Action} (h : PromptStep s ia s') :
    TimelyStep s ia s' := ⟨h.1, h.2.2.1, fun i => h.2.2.2 i i⟩

/-- The packets handed to the packet consumer, with the universal time of each. -/
def packetsDelivered (log : List Event) : List (Int × List UInt8) :=
  log.filterMap fun | .recvCb time data => some (time, data) | _ => none

@[simp] theorem packetsDelivered_append (l l' : List Event) :
    packetsDelivered (l ++ l') = packetsDelivered l ++ packetsDelivered l' := List.filterMap_append

theorem packetsDelivered_quiet {evs : List Event} (h : ∀ e ∈ evs, e.NotPacket) :
    packetsDelivered evs = [] := by
  rw [packetsDelivered, List.filterMap_eq_nil_iff]
  intro e he
  have hnot := h e he
  cases e <;> simp_all [Event.NotPacket]

/-- The packet of a context: when it is due, and its bytes. -/
def MessageReceiveContext.packet (ctx : MessageReceiveContext) : Int × List UInt8 :=
  (int64 ctx.msg.tsNs, ctx.msg.bytes 0 ctx.msg.len)

theorem receiveContext_packet (n : Node) (msg : Message) (processingTime : Int) :
    (receiveContext n msg processingTime).packet = (int64 msg.tsNs, msg.bytes 0 msg.len) := rfl

/-- Every packet processed was delivered or waits for its timer, in order. -/
structure Node.Deliveries (n : Node) : Prop where
  received : packets (processedIn n.log) =
    packetsDelivered n.log ++ n.receiveContexts.map MessageReceiveContext.packet
  timer : ∀ ctx ∈ n.receiveContexts,
    ctx.timer = ctx.packet.1 + n.engine.firstSyncVirtualTime ∧ (n.virtualClock : Int) ≤ ctx.timer
  before : ¬n.PastSetup → n.receiveContexts = []

theorem Node.Deliveries.quiet {n n' : Node} {evs : List Event} (hn : n.Deliveries)
    (he : Emits n n' evs) (hevs : ∀ e ∈ evs, e.NotPacket)
    (hprocessed : packets (processedIn evs) = [])
    (hcontexts : n'.receiveContexts = n.receiveContexts)
    (hclock : n.PastSetup → n'.PastSetup ∧
      n'.engine.firstSyncVirtualTime = n.engine.firstSyncVirtualTime ∧
      ∀ ctx ∈ n.receiveContexts, (n'.virtualClock : Int) ≤ ctx.timer) : n'.Deliveries := by
  refine ⟨?_, ?_, ?_⟩
  · rw [he.log, processedIn_append, packets_append, hprocessed, packetsDelivered_append,
      packetsDelivered_quiet hevs, List.append_nil, List.append_nil, hcontexts]
    exact hn.received
  · rw [hcontexts]
    intro ctx hmem
    by_cases hpast : n.PastSetup
    · obtain ⟨_, hbias, hle⟩ := hclock hpast
      rw [hbias]
      exact ⟨(hn.timer ctx hmem).1, hle ctx hmem⟩
    · rw [hn.before hpast] at hmem
      cases hmem
  · rw [hcontexts]
    intro hnot
    exact hn.before fun hpast => hnot (hclock hpast).1

/-- The packet that has waited longest is delivered when it is due. -/
theorem Node.Deliveries.deliver {q : Int} {n : Node} {ctx : MessageReceiveContext}
    {rest : List MessageReceiveContext} (hn : n.Deliveries) (htime : n.Timed q)
    (hcontexts : n.receiveContexts = ctx :: rest) (hdue : ctx.timer ≤ n.virtualClock) :
    ({ n with
      receiveContexts := rest
      log := n.log ++ [.recvCb n.universalTime (ctx.msg.bytes 0 ctx.msg.len)] } :
        Node).Deliveries := by
  have hpast : n.PastSetup := by
    by_contra hnot
    rw [hn.before hnot] at hcontexts
    cases hcontexts
  have hmem : ∀ other ∈ rest, other ∈ n.receiveContexts := by
    intro other hother
    rw [hcontexts]
    exact List.mem_cons_of_mem ctx hother
  obtain ⟨htimer, hclock⟩ := hn.timer ctx (by rw [hcontexts]; exact List.mem_cons_self)
  have huniversal : n.universalTime = ctx.packet.1 := by
    rw [htime.universalTime hpast, Node.elapsed]
    generalize ctx.packet.1 = due at htimer ⊢
    omega
  refine ⟨?_, fun other hother => hn.timer other (hmem other hother), fun hnot => absurd hpast hnot⟩
  have hreceived := hn.received
  rw [hcontexts] at hreceived
  show packets (processedIn (n.log ++ _)) = packetsDelivered (n.log ++ _) ++ _
  rw [processedIn_append, packetsDelivered_append]
  have hnone : processedIn [.recvCb n.universalTime (ctx.msg.bytes 0 ctx.msg.len)] = [] := rfl
  have hone : packetsDelivered [.recvCb n.universalTime (ctx.msg.bytes 0 ctx.msg.len)] =
      [ctx.packet] := by
    simp [huniversal, packetsDelivered, MessageReceiveContext.packet]
  rw [hnone, hone, List.append_nil, hreceived, List.append_assoc]
  rfl

/-- The timer of a packet that arrives in time is exact. -/
theorem receiveContext_timer {n : Node} {msg : Message} {q : Int} (htime : n.Timed q)
    (hpast : n.PastSetup) (hdue : n.universalTime ≤ int64 msg.tsNs)
    (hfits : int64 msg.tsNs + n.engine.firstSyncVirtualTime < 2 ^ 63) :
    (receiveContext n msg (int64 msg.tsNs)).timer =
      int64 msg.tsNs + n.engine.firstSyncVirtualTime ∧
    (n.virtualClock : Int) ≤ (receiveContext n msg (int64 msg.tsNs)).timer := by
  rw [htime.universalTime hpast, Node.elapsed] at hdue
  generalize int64 msg.tsNs = due at hdue hfits ⊢
  have hexact : int64 (due + n.engine.firstSyncVirtualTime) =
      due + n.engine.firstSyncVirtualTime := by
    apply int64_eq_self
    · omega
    · exact hfits
  have htimer : (receiveContext n msg due).timer = max (due + n.engine.firstSyncVirtualTime) 0 :=
    congrArg (max · 0) hexact
  rw [htimer]
  exact ⟨by omega, by omega⟩

theorem packets_cons_packet {msg : Message} (htype : msg.type = msgTypeNormal) :
    packets [msg] = [(int64 msg.tsNs, msg.bytes 0 msg.len)] := by
  rw [packets, List.filter_cons_of_pos (by simpa using htype)]
  rfl

theorem Receive.deliveries {q : Int} {n n' : Node} {msg : Message} (h : Receive n msg n')
    (hn : n.Deliveries) (htime : n.Timed q)
    (hpacket : msg.type = msgTypeNormal →
      n.PastSetup ∧ int64 msg.tsNs + n.engine.firstSyncVirtualTime < 2 ^ 63) : n'.Deliveries := by
  by_cases htype : msg.type = msgTypeNormal
  · obtain ⟨hpast, hfits⟩ := hpacket htype
    cases h with
    | sync hsync =>
        rw [htype] at hsync
        exact absurd hsync (by decide)
    | control hmsg => exact absurd htype hmsg.2
    | packet _ hdue =>
        have hsame : SameClock n (n.logReceive msg) := ⟨rfl, rfl, rfl, rfl⟩
        have hnew := receiveContext_timer (hsame.timed htime) hpast hdue hfits
        refine ⟨?_, ?_, fun hnot => absurd hpast hnot⟩
        · show packets (processedIn (n.log ++ [.processMessage msg])) =
            packetsDelivered (n.log ++ [.processMessage msg]) ++ List.map _ (n.receiveContexts ++ [_])
          have hone : processedIn [.processMessage msg] = [msg] := rfl
          have hnone : packetsDelivered [.processMessage msg] = [] := rfl
          rw [processedIn_append, packets_append, packetsDelivered_append, hone, hnone,
            packets_cons_packet htype, List.append_nil, List.map_append, hn.received,
            List.append_assoc]
          rfl
        · intro ctx hmem
          rcases List.mem_append.mp hmem with hmem | hmem
          · exact hn.timer ctx hmem
          · rw [List.mem_singleton.mp hmem, receiveContext_packet]
            dsimp only [armReceiveContext]
            exact hnew
  · obtain ⟨evs, he, hall⟩ := h.emits
    have hcontexts : n'.receiveContexts = n.receiveContexts := by
      cases h with
      | sync => rfl
      | packet h => exact absurd h htype
      | control _ h => exact h.contexts
    refine hn.quiet he ?_ ?_ hcontexts ?_
    · intro e hmem
      rcases List.mem_cons.mp hmem with rfl | hmem
      · trivial
      · exact (hall e hmem).notPacket
    · have hone : processedIn (.processMessage msg :: evs) = [msg] :=
        congrArg (msg :: ·) (processedIn_control hall)
      rw [hone]
      exact packets_eq_nil fun m hm => List.mem_singleton.mp hm ▸ htype
    · intro hpast
      have hsame := h.sameClock
      refine ⟨hsame.pastSetup.mpr hpast, hsame.bias, fun ctx hmem => ?_⟩
      rw [hsame.clock]
      exact (hn.timer ctx hmem).2

theorem Move.deliveries {q : Int} {n n' : Node} {a : Action} (h : Move n a n') (hn : n.Deliveries)
    (htime : n.Timed q)
    (hadvance : ∀ t, a = .advance t → ∀ ctx ∈ n.receiveContexts, (t : Int) ≤ ctx.timer)
    (hfirst : ∀ k ctx, a = .deliver k → n.receiveContexts[k]? = some ctx →
      k = 0 ∧ ctx.timer ≤ n.virtualClock) : n'.Deliveries := by
  obtain ⟨evs', he', hprocessed⟩ := h.emits
  have hclock := h.clock
  cases h.packetStep with
  | @quiet _ _ evs he hevs hcontexts =>
      have hsame : evs = evs' := List.append_cancel_left (he.log.symm.trans he'.log)
      refine hn.quiet he hevs ?_ hcontexts ?_
      · rw [hsame, hprocessed]
        rfl
      · intro hpast
        obtain ⟨hpast', hbias, hmoved⟩ := hclock hpast
        refine ⟨hpast', hbias, fun ctx hmem => ?_⟩
        rcases hmoved with heq | ⟨_, hadv⟩
        · rw [heq]
          exact (hn.timer ctx hmem).2
        · exact hadvance _ hadv ctx hmem
  | @send data msg hmsg =>
      refine ⟨?_, hn.timer, hn.before⟩
      have hprocessed : processedIn (pdesCommSend (n.logSend data) msg).log = processedIn n.log := by
        simp [pdesCommSend, Node.logSend, processedIn]
      have hdelivered :
          packetsDelivered (pdesCommSend (n.logSend data) msg).log = packetsDelivered n.log := by
        simp [pdesCommSend, Node.logSend, packetsDelivered]
      rw [hprocessed, hdelivered]
      exact hn.received
  | @deliver k ctx hctx =>
      obtain ⟨rfl, hdue⟩ := hfirst k ctx rfl hctx
      cases hcontexts : n.receiveContexts with
      | nil =>
          rw [hcontexts] at hctx
          cases hctx
      | cons head rest =>
          rw [hcontexts] at hctx
          cases hctx
          exact hn.deliver htime hcontexts hdue

/-! ### The system -/

theorem Node.Stamps.packets_sorted {q : Int} {n : Node} (hn : n.Stamps q) :
    (packets (sentIn n.log)).Pairwise (·.1 ≤ ·.1) := by
  rw [hn.packets_eq, List.pairwise_map]
  refine hn.sorted.imp fun h => ?_
  linarith

/-- Packets wait in the order they are due. -/
theorem contexts_sorted {q : Int} {n m : Node} (hn : n.Stamps q) (hm : m.Deliveries)
    (hchannel : Channel n m) : m.receiveContexts.Pairwise (·.timer ≤ ·.timer) := by
  have hsorted := hn.packets_sorted
  rw [← hchannel, packets_append, hm.received] at hsorted
  have hwaiting := (List.pairwise_append.mp (List.pairwise_append.mp hsorted).1).2.1
  rw [List.pairwise_map] at hwaiting
  refine hwaiting.imp_of_mem fun {ctx ctx'} hctx hctx' hle => ?_
  rw [(hm.timer ctx hctx).1, (hm.timer ctx' hctx').1]
  linarith

theorem Next.deliveries {q : Int} {s s' : System} {ia : Side × Action} (h : Next s ia s')
    (hbarrier : InBarrier s) (htime : InTime q s) (hcausal : Causal q s)
    (hs : ∀ i, (s i).Deliveries) (hprompt : Prompt s ia)
    (hfit : (∀ i, (s i).PastSetup) → AllTimesFit s) : ∀ i, (s' i).Deliveries := by
  cases h with
  | @commSend i msg rest _ =>
      refine Side.forall_of_self_peer i ?_ ?_
      · rw [Function.update_self]
        exact ⟨(hs i).received, (hs i).timer, (hs i).before⟩
      · rw [Function.update_of_ne (Side.peer_ne i)]
        exact hs i.peer
  | @receive i msg rest n' _ hring h =>
      refine Side.forall_of_self_peer i ?_ ?_
      · rw [Function.update_self]
        refine h.deliveries (hs i) (htime i) fun htype => ?_
        have hmem : msg ∈ (s i.peer).inFlight := by
          rw [Node.inFlight, hring]
          exact List.mem_append_left _ List.mem_cons_self
        obtain ⟨hpast, hdue⟩ :=
          hcausal.packet_inFlight htime (hbarrier.conserved i.peer) hmem htype
        have hfits := hfit hpast i i.peer
        rw [Node.Fits, (htime i).latency] at hfits
        exact ⟨hpast i, by linarith⟩
      · rw [Function.update_of_ne (Side.peer_ne i), Function.update_self]
        exact ⟨(hs i.peer).received, (hs i.peer).timer, (hs i.peer).before⟩
  | @move i a n' _ _ h =>
      refine Side.forall_of_self_peer i ?_ ?_
      · rw [Function.update_self]
        refine h.deliveries (hs i) (htime i) ?_ ?_
        · rintro t rfl
          exact hprompt
        · rintro k ctx rfl hctx
          obtain ⟨hdue, _, hfirst⟩ := hprompt ctx hctx
          have hchannel := hbarrier.conserved i.peer
          rw [Side.peer_peer] at hchannel
          have hsorted := contexts_sorted (hcausal.stamps i.peer) (hs i) hchannel
          exact ⟨TimerQueue.first_of_sorted hsorted hctx hfirst, hdue⟩
      · rw [Function.update_of_ne (Side.peer_ne i)]
        exact hs i.peer

/-- Past the set-up of both nodes the times of the round fit in every state of a run. -/
theorem reaches_allTimesFit {cfg : Config} {capacity : Option Nat} {s : System}
    (hs : cfg.Reaches capacity PromptStep s) (hpast : ∀ i, (s i).PastSetup) : AllTimesFit s := by
  cases hs with
  | start hinit =>
      rw [hinit] at hpast
      exact absurd rfl (hpast .left)
  | next _ _ hguard => exact hguard.2.2.2

theorem reaches_deliveries {cfg : Config} {capacity : Option Nat} (hsync : cfg.sync = true)
    (hq : 0 < cfg.latencyns) {s : System} (hs : cfg.Reaches capacity PromptStep s) :
    ∀ i, (s i).Deliveries := by
  refine hs.invariant (P := fun s => ∀ i, (s i).Deliveries) ?_ ?_
  · rintro _ rfl i
    exact ⟨rfl, (fun _ h => by cases h), fun _ => rfl⟩
  · intro s a s' hs hdeliveries hstep hg
    have hbarrier := reaches_inBarrier hsync (fun _ _ _ h => h.2.2.1) hs
    have htime := reaches_inTime hsync hq (fun _ _ _ h => h.timelyStep) hs
    have hcausal := reaches_causal hsync hq (fun _ _ _ h => h.timelyStep) hs
    have hnext := step_next (fun i => (hbarrier.inRound i).sync) hstep
    exact hnext.deliveries hbarrier htime hcausal hdeliveries hg.2.1 (reaches_allTimesFit hs)

/-- The packets a node has handed on are the first ones that the other node has sent, in order and
byte for byte, each at the sender's time of the send plus the latency; the others are not due before
the node's universal time. -/
theorem exact_delivery {cfg : Config} {capacity : Option Nat} (hsync : cfg.sync = true)
    (hq : 0 < cfg.latencyns) {s : System} (hs : cfg.Reaches capacity PromptStep s) (i : Side) :
    ∃ rest, (packetsSent (s i.peer).log).map (fun p => (p.1 + cfg.latencyns, p.2)) =
        packetsDelivered (s i).log ++ rest ∧
      ∀ p ∈ rest, (s i).universalTime ≤ p.1 := by
  have hbarrier := reaches_inBarrier hsync (fun _ _ _ h => h.2.2.1) hs
  have htime := reaches_inTime hsync hq (fun _ _ _ h => h.timelyStep) hs
  have hcausal := reaches_causal hsync hq (fun _ _ _ h => h.timelyStep) hs
  have hi := reaches_deliveries hsync hq hs i
  have hchannel := hbarrier.conserved i.peer
  rw [Side.peer_peer] at hchannel
  refine ⟨(s i).receiveContexts.map MessageReceiveContext.packet ++ packets (s i.peer).inFlight,
    ?_, ?_⟩
  · rw [← (hcausal.stamps i.peer).packets_eq, ← hchannel, packets_append, hi.received,
      List.append_assoc]
  · intro p hp
    rcases List.mem_append.mp hp with hp | hp
    · obtain ⟨ctx, hctx, rfl⟩ := List.mem_map.mp hp
      have hpast : (s i).PastSetup := by
        by_contra hnot
        rw [hi.before hnot] at hctx
        cases hctx
      obtain ⟨htimer, hclock⟩ := hi.timer ctx hctx
      rw [(htime i).universalTime hpast, Node.elapsed]
      linarith
    · obtain ⟨msg, hmsg, rfl⟩ := List.mem_map.mp hp
      obtain ⟨hmem, htype⟩ := List.mem_filter.mp hmsg
      dsimp only
      exact hcausal.le_inFlight hq hbarrier htime hmem (by simpa using htype)

set_option maxRecDepth 100000 in
theorem exact_delivery_firstPacket :
    ∃ s, twoNodes.Reaches none PromptStep s ∧ packetsDelivered (s .right).log = [(1000, [7])] ∧
      ∃ rest, (packetsSent (s .left).log).map (fun p => (p.1 + 1000, p.2)) = (1000, [7]) :: rest ∧
        ∀ p ∈ rest, (s .right).universalTime ≤ p.1 := by
  have hrun : (run (step none) PromptStep twoNodes.created
      [(.left, .setup), (.right, .setup), (.left, .wwtSend [7]), (.left, .commSend),
        (.left, .quantaSync), (.left, .pollReturn), (.left, .commSend), (.right, .quantaSync),
        (.right, .pollMessage), (.right, .pollMessage), (.right, .pollReturn), (.right, .commSend),
        (.right, .syncCheck), (.right, .pollReturn), (.right, .advance 1005),
        (.right, .deliver 0)]).map (fun s => packetsDelivered (s .right).log) =
      some [(1000, [7])] := by decide
  obtain ⟨s, hs, hdelivered⟩ := Option.map_eq_some_iff.mp hrun
  have hreach := Config.Reaches.of_run hs
  have hprefix := exact_delivery rfl (by decide) hreach .right
  rw [hdelivered] at hprefix
  exact ⟨s, hreach, hdelivered, hprefix⟩

set_option maxRecDepth 100000 in
/-- Without the bound the timer of a packet overflows, and the packet is delivered at once. -/
theorem early_of_overflow :
    ∃ s, lateNodes.Reaches none (fun s ia s' => Timely s ia ∧ Prompt s ia ∧ RoundsFit s') s ∧
      ¬packetsDelivered (s .right).log <+:
        (packetsSent (s .left).log).map (fun p => (p.1 + lateNodes.latencyns, p.2)) := by
  have hrun : (run (step none) (fun s ia s' => Timely s ia ∧ Prompt s ia ∧ RoundsFit s')
      lateNodes.created [(.left, .setup), (.right, .setup), (.left, .wwtSend [7]),
        (.left, .commSend), (.right, .pollTimer), (.right, .pollMessage), (.right, .pollReturn),
        (.right, .deliver 0)]).map (fun s => (packetsSent (s .left).log,
          packetsDelivered (s .right).log)) = some ([(0, [7])], [(0, [7])]) := by decide
  obtain ⟨s, hs, hfacts⟩ := Option.map_eq_some_iff.mp hrun
  obtain ⟨hsent, hdelivered⟩ := Prod.mk.inj hfacts
  refine ⟨s, Config.Reaches.of_run hs, ?_⟩
  rw [hsent, hdelivered]
  decide

end LeanPdes
