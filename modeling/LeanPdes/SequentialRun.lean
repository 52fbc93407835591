import LeanPdes.Delivery
import LeanPdes.Lookahead

/-! What the simulation of two nodes computes. Seen from the guests, a run of the two processes is a
sequential computation of two programs that are joined by links of the latency: neither the
interleaving of the processes, nor their local clocks, roles and rings have a part in it. -/

namespace LeanPdes

open Words TwoParty Reach Lookahead

/-- The guest's calls of `wwt_send` come after the node's set-up. -/
def Node.SendsLate (n : Node) : Prop := ∀ p ∈ packetsSent n.log, 0 ≤ p.1

theorem Node.SendsLate.quiet {n n' : Node} {evs : List Event} (hn : n.SendsLate) (he : Emits n n' evs)
    (hevs : ∀ e ∈ evs, e.NotPacket) : n'.SendsLate := by
  intro p hp
  rw [he.log, packetsSent_append, packetsSent_quiet hevs, List.append_nil] at hp
  exact hn p hp

theorem Move.sendsLate {q : Int} {n n' : Node} {a : Action} (h : Move n a n') (htime : n.Timed q)
    (hsend : ∀ data, a = .wwtSend data → n.PastSetup) (hn : n.SendsLate) : n'.SendsLate := by
  cases h.packetStep with
  | quiet he hevs => exact hn.quiet he hevs
  | @send data msg =>
      have hpast := hsend data rfl
      have hcalls : packetsSent (pdesCommSend (n.logSend data) msg).log =
          packetsSent n.log ++ [(n.universalTime, data)] := by
        simp [pdesCommSend, Node.logSend, packetsSent]
      intro p hp
      rw [hcalls] at hp
      rcases List.mem_append.mp hp with hp | hp
      · exact hn p hp
      · rw [List.mem_singleton.mp hp, htime.universalTime hpast, Node.elapsed]
        exact sub_nonneg.mpr (htime.after hpast).bias_le
  | deliver =>
      intro p hp
      rw [packetsSent_append] at hp
      exact hn p (by simpa [packetsSent] using hp)

theorem Next.sendsLate {q : Int} {s s' : System} {ia : Side × Action} (h : Next s ia s')
    (htime : InTime q s) (htimely : Timely s ia) (hs : ∀ i, (s i).SendsLate) :
    ∀ i, (s' i).SendsLate := by
  cases h with
  | @commSend i =>
      refine Side.forall_of_self_peer i ?_ ?_
      · rw [Function.update_self]
        exact hs i
      · rw [Function.update_of_ne (Side.peer_ne i)]
        exact hs i.peer
  | @receive i msg rest n' _ _ h =>
      refine Side.forall_of_self_peer i ?_ ?_
      · rw [Function.update_self]
        obtain ⟨evs, he, hall⟩ := h.emits
        refine (hs i).quiet he fun e hmem => ?_
        rcases List.mem_cons.mp hmem with rfl | hmem
        · trivial
        · exact (hall e hmem).notPacket
      · rw [Function.update_of_ne (Side.peer_ne i), Function.update_self]
        exact hs i.peer
  | @move i a n' _ _ h =>
      refine Side.forall_of_self_peer i ?_ ?_
      · rw [Function.update_self]
        refine h.sendsLate (htime i) ?_ (hs i)
        rintro data rfl
        exact htimely.2 i
      · rw [Function.update_of_ne (Side.peer_ne i)]
        exact hs i.peer

theorem reaches_sendsLate {cfg : Config} {capacity : Option Nat} (hsync : cfg.sync = true)
    (hq : 0 < cfg.latencyns) {s : System} (hs : cfg.Reaches capacity TimelyStep s) :
    ∀ i, (s i).SendsLate := by
  refine hs.invariant (P := fun s => ∀ i, (s i).SendsLate) ?_ ?_
  · rintro _ rfl i p hp
    cases hp
  · intro s a s' hs hlate hstep hg
    have hbarrier := reaches_inBarrier hsync (fun _ _ _ h => h.2.1) hs
    have htime := reaches_inTime hsync hq (fun _ _ _ h => h) hs
    have hnext := step_next (fun i => (hbarrier.inRound i).sync) hstep
    exact hnext.sendsLate htime hg.1 hlate

/-- Before its universal time a node has handed on what the other node sent a latency earlier. -/
theorem before_delivered {q : Int} {s : System} (hq : 0 < q) (hbarrier : InBarrier s)
    (htime : InTime q s) (hcausal : Causal q s) {i : Side} (hpast : (s i).PastSetup)
    (hi : (s i).Deliveries) {t : Int} (ht : t ≤ (s i).universalTime) :
    before t (packetsDelivered (s i).log) = before t (delay q (packetsSent (s i.peer).log)) := by
  have hchannel := hbarrier.conserved i.peer
  rw [Side.peer_peer] at hchannel
  have hwaiting : before t ((s i).receiveContexts.map MessageReceiveContext.packet) = [] := by
    apply before_eq_nil
    intro p hp
    obtain ⟨ctx, hctx, rfl⟩ := List.mem_map.mp hp
    obtain ⟨htimer, hclock⟩ := hi.timer ctx hctx
    rw [(htime i).universalTime hpast, Node.elapsed] at ht
    generalize ctx.packet.1 = due at htimer ⊢
    linarith
  have hflight : before t (packets (s i.peer).inFlight) = [] := by
    apply before_eq_nil
    intro p hp
    obtain ⟨msg, hmsg, rfl⟩ := List.mem_map.mp hp
    obtain ⟨hmem, htype⟩ := List.mem_filter.mp hmsg
    have hdue := hcausal.le_inFlight hq hbarrier htime hmem (by simpa using htype)
    dsimp only
    exact le_trans ht hdue
  have hsent : packetsDelivered (s i).log ++
      (s i).receiveContexts.map MessageReceiveContext.packet ++ packets (s i.peer).inFlight =
      delay q (packetsSent (s i.peer).log) := by
    rw [← hi.received, ← packets_append, hchannel, (hcausal.stamps i.peer).packets_eq]
    rfl
  rw [← hsent, before_append, before_append, hwaiting, hflight, List.append_nil, List.append_nil]

/-- A guest is a program: what it sends before a universal time depends on what it was handed before
that time. -/
abbrev Guest := Program Side Int (List UInt8)

/-- The guest of node `i` has run `guest` up to the node's universal time. -/
def Node.Runs (guest : Guest) (i : Side) (n : Node) : Prop :=
  ∀ t ≤ n.universalTime,
    before t (packetsSent n.log) = guest i t (before t (packetsDelivered n.log))

/-- A run of the two nodes is a solution of the guests' equations up to the nodes' universal times. -/
theorem reaches_solution {cfg : Config} {capacity : Option Nat} (hsync : cfg.sync = true)
    (hq : 0 < cfg.latencyns) {s : System} (hs : cfg.Reaches capacity PromptStep s)
    (hpast : ∀ i, (s i).PastSetup) {guest : Guest} (hguest : ∀ i, (s i).Runs guest i) :
    Solution guest Side.peer cfg.latencyns (fun i => (s i).universalTime)
      (fun i => packetsSent (s i).log) (fun i => packetsDelivered (s i).log) := by
  have htimely : cfg.Reaches capacity TimelyStep s :=
    hs.mono (fun _ h => h) fun _ _ _ h => h.timelyStep
  have hbarrier := reaches_inBarrier hsync (fun _ _ _ h => h.2.1) htimely
  have htime := reaches_inTime hsync hq (fun _ _ _ h => h) htimely
  have hcausal := reaches_causal hsync hq (fun _ _ _ h => h) htimely
  refine ⟨hguest, fun i t ht => ?_, fun i => ?_, reaches_sendsLate hsync hq htimely⟩
  · exact before_delivered hq hbarrier htime hcausal (hpast i) (reaches_deliveries hsync hq hs i) ht
  · have hskew := elapsed_le_peer hq hbarrier htime hpast i
    rwa [← (htime i).universalTime (hpast i), ← (htime i.peer).universalTime (hpast i.peer)] at hskew

/-- In a run under QEMU's promises in which nothing overflows, each node's guest has sent and been handed
what the sequential computation gives, up to the node's universal time. -/
theorem sequential_run {cfg : Config} {capacity : Option Nat} (hsync : cfg.sync = true)
    (hq : 0 < cfg.latencyns) {s : System} (hs : cfg.Reaches capacity PromptStep s)
    (hpast : ∀ i, (s i).PastSetup) {guest : Guest} (hguest : ∀ i, (s i).Runs guest i) {n : Nat}
    {i : Side} {t : Int} (hn : t ≤ n * cfg.latencyns) (ht : t ≤ (s i).universalTime) :
    before t (packetsSent (s i).log) = sentBefore guest Side.peer cfg.latencyns n t i ∧
      before t (packetsDelivered (s i).log) = delay cfg.latencyns
        (sentBefore guest Side.peer cfg.latencyns n (t - cfg.latencyns) i.peer) := by
  have hsolution := reaches_solution hsync hq hs hpast hguest
  have hn' : t ≤ n • cfg.latencyns := by rwa [nsmul_eq_mul]
  exact ⟨hsolution.sent_eq hn' ht, hsolution.received_eq ((sub_le_self t hq.le).trans hn') ht⟩

/-- The left guest sends one packet at time 0, and the right one answers every packet after 500 ns. -/
def askAndReply : Guest
  | .left, t, _ => before t [(0, [7])]
  | .right, t, handed => before t ((delay 500 handed).map fun p => (p.1, [8]))

theorem askAndReply_runs {s : System} (hleft : packetsSent (s .left).log = [(0, [7])])
    (hright : packetsSent (s .right).log = [(1500, [8])])
    (hhanded : packetsDelivered (s .right).log = [(1000, [7])]) : ∀ i, (s i).Runs askAndReply i := by
  intro i t _
  cases i with
  | left => rw [hleft, askAndReply]
  | right =>
      rw [hright, hhanded, askAndReply]
      by_cases ht : 1000 < t
      · simp [before, delay, ht]
      · have ht' : ¬1500 < t := by omega
        simp [before, delay, ht, ht']

/-- Both nodes pass the rounds 0 and 1, and the right guest answers in round 2. -/
def replyRun : List (Side × Action) :=
  [(.left, .setup), (.right, .setup), (.left, .wwtSend [7]), (.left, .commSend),
    (.left, .quantaSync), (.left, .pollReturn), (.left, .commSend), (.right, .quantaSync),
    (.right, .pollMessage), (.right, .pollMessage), (.right, .pollReturn), (.right, .commSend),
    (.right, .syncCheck), (.right, .pollReturn), (.left, .syncCheck), (.left, .pollMessage),
    (.left, .pollReturn), (.left, .pauseBh), (.right, .pauseBh), (.left, .advance 1005),
    (.left, .quantaSync), (.left, .pollReturn), (.left, .commSend), (.right, .advance 1005),
    (.right, .deliver 0), (.right, .quantaSync), (.right, .pollMessage), (.right, .pollReturn),
    (.right, .commSend), (.right, .syncCheck), (.right, .pollReturn), (.left, .syncCheck),
    (.left, .pollMessage), (.left, .pollReturn), (.right, .advance 1505), (.right, .wwtSend [8]),
    (.right, .commSend), (.right, .advance 1605)]

/-- What a run of the two guests shows at its end. -/
def Replied (s : System) : Prop :=
  (∀ i, (s i).PastSetup) ∧ packetsSent (s .left).log = [(0, [7])] ∧
    packetsSent (s .right).log = [(1500, [8])] ∧ packetsDelivered (s .right).log = [(1000, [7])] ∧
    1600 ≤ (s .right).universalTime

instance (s : System) : Decidable (Replied s) := inferInstanceAs (Decidable (_ ∧ _))

set_option maxRecDepth 100000 in
theorem replied_replyRun : ∃ s, twoNodes.Reaches none PromptStep s ∧ Replied s := by
  have hrun : (run (step none) PromptStep twoNodes.created replyRun).map
      (fun s => decide (Replied s)) = some true := by decide
  obtain ⟨s, hs, hfacts⟩ := Option.map_eq_some_iff.mp hrun
  exact ⟨s, Config.Reaches.of_run hs, of_decide_eq_true hfacts⟩

theorem sequential_run_replyRun :
    ∃ s, twoNodes.Reaches none PromptStep s ∧
      before 1600 (packetsSent (s .right).log) = [(1500, [8])] ∧
      sentBefore askAndReply Side.peer 1000 2 1600 .right = [(1500, [8])] := by
  obtain ⟨s, hs, hpast, hleft, hright, hhanded, htime⟩ := replied_replyRun
  have hsent := (sequential_run (n := 2) (i := .right) (t := 1600) rfl (by decide) hs hpast
    (askAndReply_runs hleft hright hhanded) (by decide) htime).1
  have hlast : before 1600 (packetsSent (s .right).log) = [(1500, [8])] := by
    rw [hright]
    rfl
  exact ⟨s, hs, hlast, hsent.symm.trans hlast⟩

/-- Two runs with the same guests and the same latency, both under QEMU's promises and with no overflow,
agree in everything that the guests send and are handed up to the earlier universal time, whatever the
interleaving, the local clocks, the roles and the rings of each. -/
theorem interleaving_independence {cfg cfg' : Config} {capacity capacity' : Option Nat}
    (hsync : cfg.sync = true) (hsync' : cfg'.sync = true) (hq : 0 < cfg.latencyns)
    (hlatency : cfg'.latencyns = cfg.latencyns) {s s' : System}
    (hs : cfg.Reaches capacity PromptStep s) (hs' : cfg'.Reaches capacity' PromptStep s')
    (hpast : ∀ i, (s i).PastSetup) (hpast' : ∀ i, (s' i).PastSetup) {guest : Guest}
    (hguest : ∀ i, (s i).Runs guest i) (hguest' : ∀ i, (s' i).Runs guest i) {i : Side} {t : Int}
    (ht : t ≤ (s i).universalTime) (ht' : t ≤ (s' i).universalTime) :
    before t (packetsSent (s i).log) = before t (packetsSent (s' i).log) ∧
      before t (packetsDelivered (s i).log) = before t (packetsDelivered (s' i).log) := by
  have hsolution := reaches_solution hsync hq hs hpast hguest
  have hsolution' := reaches_solution hsync' (hlatency ▸ hq) hs' hpast' hguest'
  rw [hlatency] at hsolution'
  exact hsolution.unique hsolution' hq ht ht'

/-- The same guests on other clocks, with the other master. -/
def otherNodes : Config where
  sync := true
  latencyns := 1000
  master i := i = .right
  incrementalBase := 2
  clock i := if i = .left then 9 else 0
  clock_lt i := by cases i <;> decide

/-- The right node passes each barrier first. -/
def otherRun : List (Side × Action) :=
  [(.right, .setup), (.left, .setup), (.right, .quantaSync), (.right, .pollReturn),
    (.right, .commSend), (.left, .wwtSend [7]), (.left, .commSend), (.right, .pauseBh),
    (.right, .syncCheck), (.right, .pollMessage), (.right, .pollReturn), (.left, .quantaSync),
    (.left, .pollMessage), (.left, .pollReturn), (.left, .commSend), (.left, .pauseBh),
    (.left, .syncCheck), (.left, .pollReturn), (.right, .pollMessage), (.right, .pollReturn),
    (.right, .pollReturn), (.right, .advance 1000), (.right, .deliver 0), (.right, .quantaSync),
    (.right, .pollReturn), (.right, .commSend), (.left, .advance 1009), (.left, .quantaSync),
    (.left, .pollMessage), (.left, .pollReturn), (.left, .commSend), (.left, .pauseBh),
    (.left, .syncCheck), (.left, .pollReturn), (.right, .syncCheck), (.right, .pollMessage),
    (.right, .pollReturn), (.right, .advance 1500), (.right, .wwtSend [8]), (.right, .commSend),
    (.right, .advance 1700)]

set_option maxRecDepth 100000 in
theorem interleaving_independence_otherRun :
    ∃ s s', twoNodes.Reaches none PromptStep s ∧
      otherNodes.Reaches (some ringCapacity) PromptStep s' ∧
      before 1600 (packetsDelivered (s .right).log) = [(1000, [7])] ∧
      before 1600 (packetsDelivered (s' .right).log) = [(1000, [7])] := by
  obtain ⟨s, hs, hpast, hleft, hright, hhanded, htime⟩ := replied_replyRun
  have hrun : (run (step (some ringCapacity)) PromptStep otherNodes.created otherRun).map
      (fun s => decide (Replied s)) = some true := by decide
  obtain ⟨s', hs', hfacts⟩ := Option.map_eq_some_iff.mp hrun
  obtain ⟨hpast', hleft', hright', hhanded', htime'⟩ := of_decide_eq_true hfacts
  have hreach' := Config.Reaches.of_run hs'
  have hlatency : otherNodes.latencyns = twoNodes.latencyns := rfl
  have hsame := interleaving_independence (i := .right) (t := 1600) rfl rfl (by decide) hlatency hs
    hreach' hpast hpast' (askAndReply_runs hleft hright hhanded) (askAndReply_runs hleft' hright' hhanded')
    htime htime'
  have hlast : before 1600 (packetsDelivered (s .right).log) = [(1000, [7])] := by
    rw [hhanded]
    rfl
  exact ⟨s, s', hs, hreach', hlast, hsame.2.symm.trans hlast⟩

end LeanPdes
