import LeanPdes.Clock
import LeanPdes.Faults

/-! No packet arrives in its receiver's past. A packet is sent between two SYNC messages of its
sender and is due no earlier than the end of the sender's round; its receiver has not left that round
before the second SYNC is counted. -/

namespace LeanPdes

open Words TwoParty Reach

/-- An event that neither sends nor delivers a packet. -/
def Event.NotPacket : Event → Prop
  | .commSend msg => msg.type ≠ msgTypeNormal
  | .wwtSend .. => False
  | .recvCb .. => False
  | _ => True

theorem Event.IsControl.notPacket {e : Event} (h : e.IsControl) : e.NotPacket := by
  cases e with
  | commSend msg => exact h.2
  | wwtSend | recvCb => exact h
  | processMessage | setCheckpointValues | saveSnapshot | canStop => trivial

/-- What a callback does to packets. -/
inductive PacketStep (n : Node) : Action → Node → Prop
  | quiet {a : Action} {n' : Node} {evs : List Event} (he : Emits n n' evs)
      (hevs : ∀ e ∈ evs, e.NotPacket) (hcontexts : n'.receiveContexts = n.receiveContexts) :
      PacketStep n a n'
  | send {data : List UInt8} {msg : Message} (hmsg : n.packet data = .ok msg) :
      PacketStep n (.wwtSend data) (pdesCommSend (n.logSend data) msg)
  | deliver {k : Nat} {ctx : MessageReceiveContext} (hctx : n.receiveContexts[k]? = some ctx) :
      PacketStep n (.deliver k) { n with
        receiveContexts := n.receiveContexts.eraseIdx k
        log := n.log ++ [.recvCb n.universalTime (ctx.msg.bytes 0 ctx.msg.len)] }

theorem PacketStep.of_control {n m n' : Node} {a : Action} (h : Control m n')
    (hm : Emits n m []) (hcontexts : m.receiveContexts = n.receiveContexts) : PacketStep n a n' := by
  obtain ⟨evs, he, hall⟩ := h.emits
  exact .quiet (hm.trans he) (fun e hmem => (hall e hmem).notPacket) (h.contexts.trans hcontexts)

theorem Move.packetStep {n n' : Node} {a : Action} (h : Move n a n') : PacketStep n a n' := by
  have nothing {m : Node} (hmessages : m.messages = n.messages)
      (hcontexts : m.receiveContexts = n.receiveContexts) : PacketStep n a m :=
    .quiet (.nothing hmessages) (by simp) hcontexts
  have hleft : Emits n { n with site := none } [] := .nothing rfl
  cases h with
  | control h => exact .of_control h (.refl n) rfl
  | setup | advance | pollTimer | pollDone | quantaSync | syncCheck | wait | again =>
      exact nothing rfl rfl
  | wwtSend hmsg => exact .send hmsg
  | deliver hctx => exact .deliver hctx
  | leave _ h => exact .of_control h hleft rfl
  | @hold _ n₁ h =>
      obtain ⟨evs, he, hall⟩ := h.emits
      have hrecheck : Emits n n₁.recheck evs := ⟨he.ring, he.log, he.sending⟩
      exact .quiet hrecheck (fun e hmem => (hall e hmem).notPacket) h.contexts
  | @arrive _ n₁ h msg hmsg =>
      obtain ⟨evs, he, hall⟩ := h.emits
      have hsend := he.trans (emits_pdesCommSend n₁ msg)
      have harrive : Emits n (pdesCommSend n₁ msg).recheck (evs ++ [.commSend msg]) :=
        ⟨hsend.ring, hsend.log, hsend.sending⟩
      refine .quiet harrive ?_ h.contexts
      intro e hmem
      rcases List.mem_append.mp hmem with hmem | hmem
      · exact (hall e hmem).notPacket
      · rw [List.mem_singleton.mp hmem, Event.NotPacket, (createMessage_ok hmsg).2.2.2]
        decide
  | @pass _ _ n₁ h =>
      obtain ⟨evs, he, hall⟩ := h.emits
      have hleft : Emits n n₁ evs := ⟨he.ring, he.log, he.sending⟩
      refine .quiet (beginQuantum_emits hleft) (fun e hmem => (hall e hmem).notPacket) ?_
      rw [beginQuantum_receiveContexts]
      exact h.contexts

/-- The packets among the messages: when each is due, and its bytes. -/
def packets (msgs : List Message) : List (Int × List UInt8) :=
  (msgs.filter (·.type = msgTypeNormal)).map fun msg => (int64 msg.tsNs, msg.bytes 0 msg.len)

/-- The guest's calls of `wwt_send`, with the universal time of each. -/
def packetsSent (log : List Event) : List (Int × List UInt8) :=
  log.filterMap fun | .wwtSend _ time data => some (time, data) | _ => none

@[simp] theorem packets_append (l l' : List Message) : packets (l ++ l') = packets l ++ packets l' := by
  rw [packets, List.filter_append, List.map_append]
  rfl

@[simp] theorem packetsSent_append (l l' : List Event) :
    packetsSent (l ++ l') = packetsSent l ++ packetsSent l' := List.filterMap_append

theorem packetsSent_quiet {evs : List Event} (h : ∀ e ∈ evs, e.NotPacket) :
    packetsSent evs = [] := by
  rw [packetsSent, List.filterMap_eq_nil_iff]
  intro e he
  have hnot := h e he
  cases e <;> simp_all [Event.NotPacket]

theorem sentIn_quiet {evs : List Event} (h : ∀ e ∈ evs, e.NotPacket) :
    ∀ msg ∈ sentIn evs, msg.type ≠ msgTypeNormal := by
  intro msg hmem
  obtain ⟨e, he, hmsg⟩ := List.mem_filterMap.mp hmem
  have hnot := h e he
  cases e <;> simp_all [Event.NotPacket]

theorem packets_eq_nil {msgs : List Message} (h : ∀ msg ∈ msgs, msg.type ≠ msgTypeNormal) :
    packets msgs = [] := by
  rw [packets, List.filter_eq_nil_iff.mpr (by simpa using h), List.map_nil]

/-- Every packet of a sequence of messages is due in the quantum that follows the SYNC messages
before it, of which there were `round` at the start. -/
def Stamped (q : Int) : Nat → List Message → Prop
  | _, [] => True
  | round, msg :: rest =>
      (msg.type = msgTypeNormal → round * q ≤ int64 msg.tsNs ∧ int64 msg.tsNs ≤ (round + 1) * q) ∧
        Stamped q (round + (syncRounds [msg]).length) rest

theorem stamped_append {q : Int} {round : Nat} {l l' : List Message} :
    Stamped q round (l ++ l') ↔
      Stamped q round l ∧ Stamped q (round + (syncRounds l).length) l' := by
  induction l generalizing round with
  | nil => simp [Stamped, syncRounds]
  | cons msg rest ih =>
      have hlength : (syncRounds (msg :: rest)).length =
          (syncRounds [msg]).length + (syncRounds rest).length := by
        rw [← List.length_append, ← syncRounds_append, List.singleton_append]
      rw [List.cons_append, Stamped, Stamped, ih, hlength, ← Nat.add_assoc, and_assoc]

theorem stamped_quiet {q : Int} {round : Nat} {l : List Message}
    (h : ∀ msg ∈ l, msg.type ≠ msgTypeNormal) : Stamped q round l := by
  induction l generalizing round with
  | nil => trivial
  | cons msg rest ih =>
      refine ⟨fun htype => absurd htype (h msg List.mem_cons_self), ih ?_⟩
      intro m hm
      exact h m (List.mem_cons_of_mem msg hm)

/-- A node's packets: their stamps, and the calls of the guest that they come from. -/
structure Node.Stamps (q : Int) (n : Node) : Prop where
  stamped : Stamped q 0 (sentIn n.log)
  packets_eq : packets (sentIn n.log) = (packetsSent n.log).map fun p => (p.1 + q, p.2)
  sorted : (packetsSent n.log).Pairwise (·.1 ≤ ·.1)
  latest : ∀ p ∈ packetsSent n.log, p.1 ≤ n.elapsed
  before : ¬n.PastSetup → packetsSent n.log = []

/-- A step in which the guest sends nothing. -/
theorem Node.Stamps.quiet {q : Int} {n n' : Node} {msgs : List Message} (hn : n.Stamps q)
    (hcalls : packetsSent n'.log = packetsSent n.log) (hsent : sentIn n'.log = sentIn n.log ++ msgs)
    (hquiet : ∀ msg ∈ msgs, msg.type ≠ msgTypeNormal)
    (hpast : n.PastSetup → n'.PastSetup ∧ n.elapsed ≤ n'.elapsed) : n'.Stamps q := by
  refine ⟨?_, ?_, ?_, ?_, ?_⟩
  · rw [hsent, stamped_append]
    exact ⟨hn.stamped, stamped_quiet hquiet⟩
  · rw [hcalls, hsent, packets_append, packets_eq_nil hquiet, List.append_nil]
    exact hn.packets_eq
  · rw [hcalls]
    exact hn.sorted
  · rw [hcalls]
    intro p hp
    by_cases hpast' : n.PastSetup
    · exact (hn.latest p hp).trans (hpast hpast').2
    · rw [hn.before hpast'] at hp
      cases hp
  · rw [hcalls]
    intro hnot
    exact hn.before fun hpast' => hnot (hpast hpast').1

theorem Node.Stamps.of_emits {q : Int} {n n' : Node} {evs : List Event} (hn : n.Stamps q)
    (he : Emits n n' evs) (hevs : ∀ e ∈ evs, e.NotPacket)
    (hpast : n.PastSetup → n'.PastSetup ∧ n.elapsed ≤ n'.elapsed) : n'.Stamps q := by
  refine hn.quiet ?_ ?_ (sentIn_quiet hevs) hpast
  · rw [he.log, packetsSent_append, packetsSent_quiet hevs, List.append_nil]
  · rw [he.log, sentIn_append]

/-- The timestamp of a packet that a running guest sends. -/
theorem packet_tsNs {q : Int} {n : Node} {data : List UInt8} {msg : Message} (hq : 0 < q)
    (htime : n.Timed q) (hpast : n.PastSetup) (hmsg : n.packet data = .ok msg) :
    int64 msg.tsNs = n.elapsed + q := by
  have hin := htime.after hpast
  have hfits := hin.fits
  rw [Node.Fits, htime.latency, add_one_mul] at hfits
  have hbias := hin.bias_nonneg
  have hle := hin.bias_le
  have hend := hin.le_end
  have helapsed : 0 ≤ n.elapsed := by rw [Node.elapsed]; omega
  have hexact : int64 (n.elapsed + q) = n.elapsed + q := by
    apply int64_eq_self
    · omega
    · omega
  rw [(createMessage_ok hmsg).1, htime.universalTime hpast, htime.latency, int64_uint64, hexact,
    hexact]

theorem packets_single {msg : Message} {data : List UInt8} {t : Int}
    (hmsg : createMessage data msgTypeNormal t = .ok msg) :
    packets [msg] = [(int64 msg.tsNs, data)] := by
  obtain ⟨_, hlen, hdata, htype⟩ := createMessage_ok hmsg
  rw [packets, List.filter_cons_of_pos (by simpa using htype), List.filter_nil, List.map_singleton,
    Message.bytes, hlen, hdata, readBytes_self]

theorem Node.Stamps.send {q : Int} {n : Node} {data : List UInt8} {msg : Message} (hq : 0 < q)
    (hn : n.Stamps q) (hround : n.InRound) (htime : n.Timed q) (hpast : n.PastSetup)
    (hrunning : n.wwt.finishedQuantum = false) (hmsg : n.packet data = .ok msg) :
    (pdesCommSend (n.logSend data) msg).Stamps q := by
  have hts := packet_tsNs hq htime hpast hmsg
  have hin := htime.after hpast
  have hsent : sentIn (pdesCommSend (n.logSend data) msg).log = sentIn n.log ++ [msg] := by
    simp [pdesCommSend, Node.logSend, sentIn]
  have hcalls : packetsSent (pdesCommSend (n.logSend data) msg).log =
      packetsSent n.log ++ [(n.elapsed, data)] := by
    rw [← htime.universalTime hpast]
    simp [pdesCommSend, Node.logSend, packetsSent]
  have hcount : (syncRounds (sentIn n.log)).length = n.wwt.currentQuantumRound := by
    rw [hround.sent, List.length_range, Party.sent]
    simp [Node.party, Node.arrived, hrunning]
  refine ⟨?_, ?_, ?_, ?_, fun hnot => absurd hpast hnot⟩
  · rw [hsent, stamped_append, hcount, Nat.zero_add]
    refine ⟨hn.stamped, fun _ => ?_, trivial⟩
    have hend := hin.le_end
    have hstart := hin.start_le
    rw [hts, add_one_mul]
    exact ⟨by omega, by omega⟩
  · rw [hsent, hcalls, packets_append, packets_single hmsg, hn.packets_eq, List.map_append, hts]
    rfl
  · rw [hcalls, List.pairwise_append]
    refine ⟨hn.sorted, List.pairwise_singleton _ _, ?_⟩
    intro p hp p' hp'
    rw [List.mem_singleton.mp hp']
    exact hn.latest p hp
  · rw [hcalls]
    intro p hp
    rcases List.mem_append.mp hp with hp | hp
    · exact hn.latest p hp
    · rw [List.mem_singleton.mp hp]
      exact le_rfl

/-- Past its set-up only the environment moves a node's clock, and its bias stays. -/
theorem Move.clock {n n' : Node} {a : Action} (h : Move n a n') (hpast : n.PastSetup) :
    n'.PastSetup ∧ n'.engine.firstSyncVirtualTime = n.engine.firstSyncVirtualTime ∧
      (n'.virtualClock = n.virtualClock ∨
        (n.virtualClock ≤ n'.virtualClock ∧ a = .advance n'.virtualClock)) := by
  have same : ∀ m : Node, m.wwt.quantumTimer = n.wwt.quantumTimer →
      m.engine.firstSyncVirtualTime = n.engine.firstSyncVirtualTime →
      m.virtualClock = n.virtualClock →
      m.PastSetup ∧ m.engine.firstSyncVirtualTime = n.engine.firstSyncVirtualTime ∧
        (m.virtualClock = n.virtualClock ∨
          (n.virtualClock ≤ m.virtualClock ∧ a = .advance m.virtualClock)) := by
    intro m htimer hbias hclock
    rw [Node.PastSetup, htimer]
    exact ⟨hpast, hbias, Or.inl hclock⟩
  cases h with
  | control h => exact same _ (by rw [h.wwt]) h.bias h.clock
  | setup hnull => exact absurd hnull hpast
  | advance hle => exact ⟨hpast, rfl, Or.inr ⟨hle, rfl⟩⟩
  | wwtSend | deliver | pollTimer | pollDone | syncCheck | wait | again => exact same _ rfl rfl rfl
  | quantaSync => exact ⟨by simp [Node.PastSetup, Node.enterQuantaSync], rfl, Or.inl rfl⟩
  | leave _ h => exact same _ (by rw [h.wwt]) h.bias h.clock
  | @arrive _ n₁ h =>
      have htimer : n₁.wwt.quantumTimer = n.wwt.quantumTimer := by rw [h.wwt]
      exact same _ htimer h.bias h.clock
  | @hold _ n₁ h =>
      have htimer : n₁.wwt.quantumTimer = n.wwt.quantumTimer := by rw [h.wwt]
      exact same _ htimer h.bias h.clock
  | @pass _ _ n₁ h =>
      have htimer : (beginQuantum n₁).PastSetup := by
        rw [Node.PastSetup, beginQuantum]
        split_ifs <;> simp [pdesPlay, timerMod]
      rw [beginQuantum_firstSyncVirtualTime, beginQuantum_virtualClock]
      exact ⟨htimer, h.bias, Or.inl h.clock⟩

/-- Universal time never runs backwards. -/
theorem Move.elapsed_le {n n' : Node} {a : Action} (h : Move n a n') (hpast : n.PastSetup) :
    n'.PastSetup ∧ n.elapsed ≤ n'.elapsed := by
  obtain ⟨hpast', hbias, hclock⟩ := h.clock hpast
  refine ⟨hpast', ?_⟩
  rw [Node.elapsed, Node.elapsed, hbias]
  rcases hclock with heq | ⟨hle, _⟩
  · rw [heq]
  · omega

theorem Move.stamps {q : Int} {n n' : Node} {a : Action} (hq : 0 < q) (h : Move n a n')
    (hn : n.Stamps q) (hround : n.InRound) (htime : n.Timed q)
    (hsend : ∀ data, a = .wwtSend data → n.engine.paused = false ∧ n.PastSetup) :
    n'.Stamps q := by
  have helapsed := h.elapsed_le
  cases h.packetStep with
  | quiet he hevs => exact hn.of_emits he hevs helapsed
  | @send data msg hmsg =>
      obtain ⟨hpaused, hpast⟩ := hsend data rfl
      have hrunning : n.wwt.finishedQuantum = false := by
        by_contra hfinished
        rw [Bool.not_eq_false] at hfinished
        exact absurd (hpaused.symm.trans ((htime.after hpast).paused hfinished)) (by decide)
      exact hn.send hq hround htime hpast hrunning hmsg
  | deliver =>
      have hnone : ∀ msg ∈ ([] : List Message), msg.type ≠ msgTypeNormal := by simp
      refine hn.quiet ?_ ?_ hnone helapsed
      · simp [packetsSent]
      · simp [sentIn]

theorem Receive.stamps {q : Int} {n n' : Node} {msg : Message} (h : Receive n msg n')
    (hn : n.Stamps q) : n'.Stamps q := by
  obtain ⟨evs, he, hall⟩ := h.emits
  refine hn.of_emits he ?_ ?_
  · intro e hmem
    rcases List.mem_cons.mp hmem with rfl | hmem
    · trivial
    · exact (hall e hmem).notPacket
  · intro hpast
    exact ⟨h.sameClock.pastSetup.mpr hpast, h.sameClock.elapsed.ge⟩

/-! ### The system -/

/-- The stamps of both nodes. Packets are sent only once both nodes are set up. -/
structure Causal (q : Int) (s : System) : Prop where
  stamps : ∀ i, (s i).Stamps q
  setup : ∀ i, packetsSent (s i).log ≠ [] → ∀ j, (s j).PastSetup

theorem Next.pastSetup {s s' : System} {ia : Side × Action} (h : Next s ia s')
    (hpast : ∀ i, (s i).PastSetup) : ∀ i, (s' i).PastSetup := by
  cases h with
  | @commSend i msg rest _ =>
      refine Side.forall_of_self_peer i ?_ ?_
      · rw [Function.update_self]
        exact hpast i
      · rw [Function.update_of_ne (Side.peer_ne i)]
        exact hpast i.peer
  | @receive i msg rest n' _ _ h =>
      refine Side.forall_of_self_peer i ?_ ?_
      · rw [Function.update_self]
        exact h.sameClock.pastSetup.mpr (hpast i)
      · rw [Function.update_of_ne (Side.peer_ne i), Function.update_self]
        exact hpast i.peer
  | @move i a n' _ _ h =>
      refine Side.forall_of_self_peer i ?_ ?_
      · rw [Function.update_self]
        exact (h.elapsed_le (hpast i)).1
      · rw [Function.update_of_ne (Side.peer_ne i)]
        exact hpast i.peer

/-- Only the guest's own step adds to the packets it has sent. -/
theorem Next.packetsSent {s s' : System} {ia : Side × Action} (h : Next s ia s') (j : Side) :
    packetsSent (s' j).log = packetsSent (s j).log ∨ ∃ i data, ia = (i, .wwtSend data) := by
  cases h with
  | @commSend i msg rest _ =>
      left
      rcases Side.eq_or_eq_peer i j with rfl | rfl <;> simp
  | @receive i msg rest n' _ _ h =>
      left
      rcases Side.eq_or_eq_peer i j with rfl | rfl
      · obtain ⟨evs, he, hall⟩ := h.emits
        have hquiet := packetsSent_quiet fun e hmem => (hall e hmem).notPacket
        rw [Function.update_self, he.log, packetsSent_append]
        simpa [LeanPdes.packetsSent] using hquiet
      · simp
  | @move i a n' _ _ h =>
      rcases Side.eq_or_eq_peer i j with rfl | rfl
      · rw [Function.update_self]
        cases h.packetStep with
        | quiet he hevs =>
            left
            rw [he.log, packetsSent_append, packetsSent_quiet hevs, List.append_nil]
        | @send data => exact Or.inr ⟨j, data, rfl⟩
        | deliver =>
            left
            simp [LeanPdes.packetsSent]
      · left
        simp

theorem Next.causal {q : Int} {s s' : System} {ia : Side × Action} (hq : 0 < q) (h : Next s ia s')
    (hbarrier : InBarrier s) (htime : InTime q s) (hs : Causal q s) (htimely : Timely s ia) :
    Causal q s' := by
  constructor
  · cases h with
    | @commSend i msg rest _ =>
        refine Side.forall_of_self_peer i ?_ ?_
        · rw [Function.update_self]
          have hi := hs.stamps i
          exact ⟨hi.stamped, hi.packets_eq, hi.sorted, hi.latest, hi.before⟩
        · rw [Function.update_of_ne (Side.peer_ne i)]
          exact hs.stamps i.peer
    | @receive i msg rest n' _ _ h =>
        refine Side.forall_of_self_peer i ?_ ?_
        · rw [Function.update_self]
          exact h.stamps (hs.stamps i)
        · rw [Function.update_of_ne (Side.peer_ne i), Function.update_self]
          have hi := hs.stamps i.peer
          exact ⟨hi.stamped, hi.packets_eq, hi.sorted, hi.latest, hi.before⟩
    | @move i a n' _ _ h =>
        refine Side.forall_of_self_peer i ?_ ?_
        · rw [Function.update_self]
          refine h.stamps hq (hs.stamps i) (hbarrier.inRound i) (htime i) ?_
          rintro data rfl
          exact ⟨htimely.1, htimely.2 i⟩
        · rw [Function.update_of_ne (Side.peer_ne i)]
          exact hs.stamps i.peer
  · intro i hne
    apply h.pastSetup
    rcases h.packetsSent i with heq | ⟨j, data, rfl⟩
    · rw [heq] at hne
      exact hs.setup i hne
    · exact htimely.2

theorem causal_created (q : Int) (cfg : Config) : Causal q cfg.created where
  stamps _ :=
    { stamped := trivial
      packets_eq := rfl
      sorted := List.Pairwise.nil
      latest := fun _ h => by cases h
      before := fun _ => rfl }
  setup _ hne := absurd rfl hne

theorem reaches_causal {cfg : Config} {capacity : Option Nat}
    {guard : System → Side × Action → System → Prop} (hsync : cfg.sync = true)
    (hq : 0 < cfg.latencyns) (hguard : ∀ s a s', guard s a s' → TimelyStep s a s') {s : System}
    (hs : cfg.Reaches capacity guard s) : Causal cfg.latencyns s := by
  refine hs.invariant (fun _ h => h ▸ causal_created _ cfg) ?_
  intro s a s' hs hcausal hstep hg
  have hbarrier := reaches_inBarrier hsync (fun s a s' h => (hguard s a s' h).2.1) hs
  have htime := reaches_inTime hsync hq hguard hs
  have hnext := step_next (fun i => (hbarrier.inRound i).sync) hstep
  exact hnext.causal hq hbarrier htime hcausal (hguard s a s' hg).1

/-- In stamped messages a packet is due after the SYNC messages before it. -/
theorem Stamped.le {q : Int} (hq : 0 ≤ q) {round : Nat} {l : List Message} (h : Stamped q round l)
    {msg : Message} (hmem : msg ∈ l) (htype : msg.type = msgTypeNormal) :
    round * q ≤ int64 msg.tsNs := by
  induction l generalizing round with
  | nil => cases hmem
  | cons head rest ih =>
      rcases List.mem_cons.mp hmem with rfl | hmem
      · exact (h.1 htype).1
      · have hrest := ih h.2 hmem
        have hround : (round : Int) ≤ (round + (syncRounds [head]).length : Nat) := by
          exact_mod_cast Nat.le_add_right _ _
        exact (mul_le_mul_of_nonneg_right hround hq).trans hrest

/-- A packet on its way was sent once both nodes were set up, and is due no later than a quantum after
its sender's round. -/
theorem Causal.packet_inFlight {q : Int} {s : System} (htime : InTime q s) (hs : Causal q s)
    {i : Side} {msg : Message} (hchannel : Channel (s i) (s i.peer)) (hmem : msg ∈ (s i).inFlight)
    (htype : msg.type = msgTypeNormal) :
    (∀ j, (s j).PastSetup) ∧ int64 msg.tsNs ≤ ((s i).wwt.currentQuantumRound + 1) * q := by
  have hpacket : (int64 msg.tsNs, msg.bytes 0 msg.len) ∈ packets (sentIn (s i).log) := by
    rw [← hchannel]
    refine List.mem_map.mpr ⟨msg, List.mem_filter.mpr ⟨List.mem_append_right _ hmem, ?_⟩, rfl⟩
    simpa using htype
  rw [(hs.stamps i).packets_eq] at hpacket
  obtain ⟨p, hp, heq⟩ := List.mem_map.mp hpacket
  have hpast := hs.setup i (List.ne_nil_of_mem hp)
  refine ⟨hpast, ?_⟩
  have hlatest := (hs.stamps i).latest p hp
  have hend := ((htime i).after (hpast i)).le_end
  rw [← (Prod.mk.inj heq).1, add_one_mul]
  linarith

/-- A packet on its way is due no earlier than its receiver's clock stands. -/
theorem Causal.le_inFlight {q : Int} {s : System} (hq : 0 < q) (hbarrier : InBarrier s)
    (htime : InTime q s) (hs : Causal q s) {i : Side} {msg : Message}
    (hmem : msg ∈ (s i.peer).inFlight) (htype : msg.type = msgTypeNormal) :
    (s i).universalTime ≤ int64 msg.tsNs := by
  have hchannel := hbarrier.conserved i.peer
  rw [Side.peer_peer] at hchannel
  have hstamped := (hs.stamps i.peer).stamped
  rw [← hchannel, stamped_append, Nat.zero_add] at hstamped
  have hdue : ((s i).seen : Int) * q ≤ int64 msg.tsNs := hstamped.2.le hq.le hmem htype
  have hpast : (s i).PastSetup :=
    (hs.packet_inFlight htime (hbarrier.conserved i.peer) hmem htype).1 i
  have hround : (s i).wwt.currentQuantumRound ≤ (s i).seen := hbarrier.ordered.round_le i
  have hmul : ((s i).wwt.currentQuantumRound : Int) * q ≤ (s i).seen * q := by gcongr
  have hend := ((htime i).after hpast).le_end
  rw [(htime i).universalTime hpast]
  omega

/-- A packet is never processed after the virtual time it is due, so the assert on its timestamp
cannot fail. -/
theorem causality {cfg : Config} {capacity : Option Nat} (hsync : cfg.sync = true)
    (hq : 0 < cfg.latencyns) {s : System} (hs : cfg.Reaches capacity TimelyStep s) :
    (∀ i msg rest, (s i.peer).ring = msg :: rest → msg.type = msgTypeNormal →
      (s i).universalTime ≤ int64 msg.tsNs) ∧
    ∀ ia, step capacity s ia ≠ .error (.fault .timestampInPast) := by
  have hbarrier := reaches_inBarrier hsync (fun _ _ _ h => h.2.1) hs
  have htime := reaches_inTime hsync hq (fun _ _ _ h => h) hs
  have hcausal := reaches_causal hsync hq (fun _ _ _ h => h) hs
  have hnext : ∀ i msg rest, (s i.peer).ring = msg :: rest → msg.type = msgTypeNormal →
      (s i).universalTime ≤ int64 msg.tsNs := by
    intro i msg rest hring htype
    refine hcausal.le_inFlight hq hbarrier htime ?_ htype
    rw [Node.inFlight, hring]
    exact List.mem_append_left _ List.mem_cons_self
  refine ⟨hnext, ?_⟩
  rintro ⟨i, a⟩ hfault
  rcases step_fault (hbarrier.inRound i).sync hfault (by decide) with
    ⟨_, msg, rest, hring, hmsg⟩ | ⟨_, site, _, hreturn⟩
  · cases hmsg with
    | packet htype hlt => exact absurd (hnext i msg rest hring htype) (not_le.mpr hlt)
  · cases hreturn

set_option maxRecDepth 100000 in
theorem causality_secondRound :
    ∃ s msg, twoNodes.Reaches none TimelyStep s ∧ (s .left).ring = [msg] ∧
      msg.type = msgTypeNormal ∧ (s .right).universalTime = 1000 ∧ 1000 ≤ int64 msg.tsNs := by
  have hrun : (run (step none) TimelyStep twoNodes.created (firstRound ++
      [(.left, .advance 905), (.left, .wwtSend [7]), (.left, .commSend),
        (.right, .advance 1005)])).map
      (fun s => ((s .left).ring.map Message.type, (s .right).universalTime)) =
      some ([msgTypeNormal], 1000) := by decide
  obtain ⟨s, hs, hfacts⟩ := Option.map_eq_some_iff.mp hrun
  obtain ⟨hring, htime⟩ := Prod.mk.inj hfacts
  obtain ⟨msg, hmsg, htype⟩ := List.map_eq_singleton_iff.mp hring
  have hreach := Config.Reaches.of_run hs
  have hdue := (causality rfl (by decide) hreach).1 .right msg [] hmsg htype
  exact ⟨s, msg, hreach, hmsg, htype, htime, htime ▸ hdue⟩

/-- Nodes whose packets are due past the clock's 64 bits from the second nanosecond on. -/
def farNodes : Config := hugeLatency 0 (by decide)

set_option maxRecDepth 100000 in
/-- Without the bound a packet's timestamp overflows, and its receiver fails the assert. -/
theorem timestampInPast_of_overflow :
    ∃ s, farNodes.Reaches none (fun s ia s' => Timely s ia ∧ RoundsFit s') s ∧
      step none s (.right, .pollMessage) = .error (.fault .timestampInPast) := by
  have hrun : (run (step none) (fun s ia s' => Timely s ia ∧ RoundsFit s') farNodes.created
      (firstRound ++ [(.left, .advance 1), (.left, .wwtSend [7]), (.left, .commSend),
        (.right, .pollTimer)])).map (fun s =>
        match step none s (.right, .pollMessage) with
        | .error halt => halt = .fault .timestampInPast
        | .ok _ => false) = some true := by decide
  obtain ⟨s, hs, hfault⟩ := Option.map_eq_some_iff.mp hrun
  refine ⟨s, Config.Reaches.of_run hs, ?_⟩
  split at hfault
  · rename_i halt hstep
    rw [hstep, of_decide_eq_true hfault]
  · cases hfault

end LeanPdes
