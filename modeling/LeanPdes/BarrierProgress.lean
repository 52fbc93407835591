import LeanPdes.Startup
import LeanPdes.UnaskedRuns

/-! The barrier goes on. As long as the two nodes do not block each other in their sends, one of them can
take a step that gets some work done, and the work that is left before a given round is bounded. So the
two nodes get to every round that their clocks have room for, with no further packet and no help from the
guests. -/

namespace LeanPdes

open Words TwoParty Reach ExitProtocol

/-- How far the node is from the end of its cycle. -/
def Node.rank (n : Node) : Nat :=
  let between := (if n.wwt.finishedQuantum then 4 else 12) + n.engine.pauseBh.toNat +
    (if n.wwt.quantumTimer = .null then 1 else 0)
  match n.site with
  | none => between
  | some .timer => between + 1
  | some .quantaSync => 10
  | some .waitLoop => 3
  | some .isWaiting => 2

/-- What is to be done about a message that has been taken: the permission is answered with END. -/
def Message.work (msg : Message) : Nat := if msg.type = permissionToEndEmulation then 4 else 2

/-- The work in messages that enter the ring first. -/
def sendWork (msgs : List Message) : Nat := (msgs.map fun msg => msg.work + 1).sum

/-- A bound on the steps that the node has to do up to round `target`. -/
def Node.work (target : Nat) (n : Node) : Nat :=
  (2 ^ 63 - n.virtualClock) + 20 * (target - n.wwt.currentQuantumRound) + n.rank +
    n.receiveContexts.length + (n.ring.map Message.work).sum + sendWork n.sending

def System.work (target : Nat) (s : System) : Nat := (s .left).work target + (s .right).work target

theorem System.work_lt {target : Nat} {s s' : System} (i : Side)
    (h : (s' i).work target + (s' i.peer).work target <
      (s i).work target + (s i.peer).work target) : System.work target s' < System.work target s := by
  cases i with
  | left => exact h
  | right =>
      rw [System.work, System.work, Nat.add_comm, Nat.add_comm ((s .left).work target)]
      exact h

theorem Message.work_of_ne {msg : Message} (h : msg.type ≠ permissionToEndEmulation) : msg.work = 2 :=
  if_neg h

theorem Message.work_le (msg : Message) : msg.work ≤ 4 := by
  rw [Message.work]
  split_ifs <;> omega

theorem sendWork_append (msgs msgs' : List Message) :
    sendWork (msgs ++ msgs') = sendWork msgs + sendWork msgs' := by
  rw [sendWork, List.map_append, List.sum_append, sendWork, sendWork]

theorem sendWork_singleton (msg : Message) : sendWork [msg] = msg.work + 1 := by
  rw [sendWork, List.map_singleton, List.sum_singleton]

theorem Few.sendWork_le {msgs : List Message} (h : Few msgs) : sendWork msgs ≤ 8 := by
  cases h with
  | none => exact Nat.zero_le 8
  | one msg =>
      have hwork := msg.work_le
      rw [sendWork_singleton]
      omega
  | @grant permission last _ hlast =>
      have hpermission := permission.work_le
      have hend : last.work = 2 := Message.work_of_ne (by rw [hlast]; decide)
      simp only [sendWork, List.map_cons, List.map_nil, List.sum_cons, List.sum_nil, hend]
      omega

/-- What one of the node's own callbacks has to be to get some work done. -/
structure Working (target : Nat) (n : Node) (a : Action) : Prop where
  advance : ∀ t, a = .advance t → n.virtualClock < t ∧ n.PastSetup
  wait : a = .pollReturn → n.site = some .isWaiting →
    n.waiting = false ∧ n.wwt.currentQuantumRound < target
  leave : a = .pollReturn → n.site = some .waitLoop → n.engine.pairHasFinished = false

/-- The callback neither moves the clock nor ends a poll. -/
def Action.plain : Action → Bool
  | .advance _ | .pollReturn => false
  | _ => true

theorem Working.of_plain {target : Nat} {n : Node} {a : Action} (h : a.plain = true) :
    Working target n a := by
  constructor
  case advance =>
    rintro t rfl
    cases h
  case wait =>
    rintro rfl
    cases h
  case leave =>
    rintro rfl
    cases h

theorem callback_not_return {a : Action} (h : a.plain = true) {P : Prop} (hreturn : a = .pollReturn) :
    P := by
  subst hreturn
  cases h

theorem bottomHalvesFirst_of_ne {n : Node} {a : Action} (h : a ≠ .syncCheck) :
    BottomHalvesFirst n (.act a) := fun hcheck => absurd (NodeAction.act.inj hcheck) h

/-- The master's check leaves the node as it is, but for the messages that it sends. -/
structure Checked (n n₁ : Node) : Prop where
  quantum : n₁.quantum = n.leaveCheck.quantum
  wwt : n₁.wwt = { n.leaveCheck.wwt with syncCheckTimer := n₁.wwt.syncCheckTimer }
  clock : n₁.virtualClock = n.virtualClock
  bias : n₁.engine.firstSyncVirtualTime = n.engine.firstSyncVirtualTime
  contexts : n₁.receiveContexts = n.receiveContexts
  ring : n₁.ring = n.ring
  exited : n₁.exitCalled = n.exitCalled
  sends : SendsFew n n₁

theorem wwtSyncCheckMaster_checked {n n₁ : Node} (h : wwtSyncCheckMaster n.leaveCheck = .ok n₁) :
    Checked n n₁ := by
  have hcontrol := control_frame.wwtSyncCheckMaster h
  have haside := aside_frame.wwtSyncCheckMaster h
  obtain ⟨evs, hemits, _⟩ := hcontrol.emits
  obtain ⟨msgs, hsending, hfew⟩ := wwtSyncCheckMaster_sendsFew h
  exact ⟨haside.quantum, hcontrol.wwt, hcontrol.clock, hcontrol.bias, hcontrol.contexts, hemits.ring,
    (wwtSyncCheckMaster_does h).exited, msgs, hsending, hfew⟩

section

variable {n n₁ : Node} (h : Checked n n₁) (hround : n.InRound)
include h hround

/-- The next round begins. -/
theorem Checked.beginQuantum_eq : beginQuantum n₁ = { n₁ with
    wwt.numberOfNeighborsFinished := int64 (n₁.wwt.numberOfNeighborsFinished - n₁.wwt.numberOfNeighbors)
    wwt.currentQuantumRound := n.wwt.currentQuantumRound + 1
    wwt.finishedQuantum := false
    wwt.quantumTimer := timerMod (n₁.quantumEnd (n.wwt.currentQuantumRound + 1))
    engine.paused := false } := by
  have hcount : n₁.wwt.currentQuantumRound = n.wwt.currentQuantumRound := by
    rw [h.wwt]
    rfl
  have hsync : n₁.wwt.shouldSync = true := by
    rw [h.wwt]
    exact hround.sync
  rw [beginQuantum_of_sync hsync (by rw [hcount]; exact hround.round_lt), hcount]

theorem Checked.round : (beginQuantum n₁).wwt.currentQuantumRound = n.wwt.currentQuantumRound + 1 := by
  rw [h.beginQuantum_eq hround]

theorem Checked.work_lt {target : Nat} (hsite : n.site = some .isWaiting)
    (hbh : n.engine.pauseBh = false) (hlt : n.wwt.currentQuantumRound < target) :
    (beginQuantum n₁).work target < n.work target := by
  have hsite₁ : n₁.site = none := congrArg Quantum.site h.quantum
  have hbh₁ : n₁.engine.pauseBh = false := (congrArg Quantum.pauseBh h.quantum).trans hbh
  obtain ⟨msgs, hsending, hfew⟩ := h.sends
  have hcost := hfew.sendWork_le
  rw [h.beginQuantum_eq hround]
  simp only [Node.work, Node.rank, hsite₁, hbh₁, hsite, h.clock, h.contexts, h.ring, hsending,
    sendWork_append, timerMod, Bool.false_eq_true, if_false, Bool.toNat_false, reduceCtorEq]
  omega

end

theorem UnaskedMove.work_lt {target : Nat} {n n' : Node} {a : Action} (h : UnaskedMove n a n')
    (hworking : Working target n a) (hround : n.InRound) (hphase : n.InPhase) :
    n'.work target < n.work target := by
  cases h with
  | setup hsite hnull => simp [Node.work, Node.rank, setupWwt, timerMod, hsite, hnull]
  | @advance t _ hlt =>
      have hclock := (hworking.advance t rfl).1
      have hrank : ({ n with virtualClock := t } : Node).rank = n.rank := rfl
      simp only [Node.work, hrank]
      omega
  | @deliver k ctx hctx =>
      obtain ⟨hk, _⟩ := List.getElem?_eq_some_iff.mp hctx
      have hlength := List.length_eraseIdx_of_lt hk
      have hrank : ({ n with
          receiveContexts := n.receiveContexts.eraseIdx k
          log := n.log ++ [.recvCb n.universalTime (ctx.msg.bytes 0 ctx.msg.len)] } : Node).rank =
          n.rank := rfl
      simp only [Node.work, hrank]
      omega
  | pollDone hsite => simp [Node.work, Node.rank, hsite]
  | pauseBh hsite hbh => simp [Node.work, Node.rank, pdesPauseBh, hsite, hbh]
  | quantaSync hsite harmed =>
      have hrunning : n.wwt.finishedQuantum = false :=
        (hphase.running_of (QEMUTimer.ne_stopped harmed)).finishedQuantum
      simp only [Node.work, Node.rank, Node.enterQuantaSync, hsite, hrunning, Bool.false_eq_true,
        if_false]
      omega
  | @arrive hsite time msg hmsg =>
      have harriving := hphase.arriving_of hsite
      have hfinished : n.wwt.finishedQuantum = true := harriving.finishedQuantum
      have hquantum : n.wwt.quantumTimer = .stopped := harriving.quantumTimer
      have hbh := Bool.toNat_le n.engine.pauseBh
      have hwork : msg.work = 2 := Message.work_of_ne (by rw [(createMessage_ok hmsg).2.2.2]; decide)
      simp only [Node.work, Node.rank, Node.recheck, pdesCommSend, hsite, hfinished, hquantum,
        if_true, reduceCtorEq, if_false, sendWork_append, sendWork_singleton, hwork]
      omega
  | syncCheck hsite harmed =>
      have hfinished : n.wwt.finishedQuantum = true := (hphase.waiting_of harmed).finishedQuantum
      simp only [Node.work, Node.rank, hsite, hfinished, if_true]
      omega
  | wait hsite hwaiting =>
      rw [(hworking.wait rfl hsite).1] at hwaiting
      cases hwaiting
  | again hsite => simp [Node.work, Node.rank, hsite]
  | leave hsite hfinished =>
      rw [hworking.leave rfl hsite] at hfinished
      cases hfinished
  | pass hsite hwaiting hcheck =>
      have hbh : n.engine.pauseBh = false := (hphase.checking_of (Or.inl hsite)).pauseBh
      exact (wwtSyncCheckMaster_checked hcheck).work_lt hround hsite hbh (hworking.wait rfl hsite).2

theorem UnaskedMove.round_le {target : Nat} {n n' : Node} {a : Action} (h : UnaskedMove n a n')
    (hworking : Working target n a) (hround : n.InRound)
    (hle : n.wwt.currentQuantumRound ≤ target) : n'.wwt.currentQuantumRound ≤ target := by
  cases h with
  | pass hsite hwaiting hcheck =>
      rw [(wwtSyncCheckMaster_checked hcheck).round hround]
      exact (hworking.wait rfl hsite).2
  | leave hsite hfinished =>
      rw [hworking.leave rfl hsite] at hfinished
      cases hfinished
  | _ => exact hle

theorem UnaskedMove.stays {target : Nat} {n n' : Node} {a : Action} (h : UnaskedMove n a n')
    (hworking : Working target n a) (hround : n.InRound) (hstays : n.exitCalled = false) :
    n'.exitCalled = false := by
  cases h with
  | pass hsite hwaiting hcheck =>
      have hchecked := wwtSyncCheckMaster_checked hcheck
      rw [hchecked.beginQuantum_eq hround]
      exact hchecked.exited.trans hstays
  | leave hsite hfinished =>
      rw [hworking.leave rfl hsite] at hfinished
      cases hfinished
  | _ => exact hstays

/-- Only a return of a poll sends. -/
theorem UnaskedMove.inFlight {n n' : Node} {a : Action} (h : UnaskedMove n a n') (ha : a ≠ .pollReturn) :
    n'.inFlight = n.inFlight := by
  cases h with
  | pollDone | arrive | wait | again | leave | pass => exact absurd rfl ha
  | _ => rfl

theorem rank_of_quantum {n n' : Node} (h : n'.quantum = n.quantum) : n'.rank = n.rank := by
  have hsite : n'.site = n.site := congrArg Quantum.site h
  have hfinished : n'.wwt.finishedQuantum = n.wwt.finishedQuantum := congrArg Quantum.finishedQuantum h
  have hbh : n'.engine.pauseBh = n.engine.pauseBh := congrArg Quantum.pauseBh h
  have hquantum : n'.wwt.quantumTimer = n.wwt.quantumTimer := congrArg Quantum.quantumTimer h
  rw [Node.rank, hsite, hfinished, hbh, hquantum, Node.rank]

/-- What is left to do after a message is less than the message was. -/
theorem processMessage_work (target : Nat) {n n' : Node} {msg : Message}
    (htype : msg.type ≠ drainStart) (hsync : n.wwt.shouldSync = true)
    (h : processMessage n msg = .ok n') : n'.work target < n.work target + msg.work := by
  have hwork : 2 ≤ msg.work := by
    rw [Message.work]
    split_ifs <;> omega
  cases processMessage_receive hsync h with
  | sync =>
      have hsame : (n.countSync msg).work target = n.work target := rfl
      omega
  | packet =>
      have hrank : (armReceiveContext (n.logReceive msg) msg (int64 msg.tsNs)).rank = n.rank := rfl
      rw [Node.work, hrank]
      simp only [Node.work, armReceiveContext, Node.logReceive, List.length_append,
        List.length_singleton]
      omega
  | control hmsg hcontrol =>
      obtain ⟨n₁, hcallback, hprocess⟩ := bind_eq_ok.mp h
      have hlogged : n₁ = n.logReceive msg := by
        rcases wwtReciviedCallback_ok (n := n.logReceive msg) hsync hcallback with
          ⟨hdata, _⟩ | ⟨hdata, _⟩ | ⟨_, hsame⟩
        · exact absurd hdata hmsg.1
        · exact absurd hdata hmsg.2
        · exact hsame
      subst hlogged
      have hquantum : n'.quantum = n.quantum := by
        rcases aside_frame.processControl hprocess with ⟨hdrain, _⟩ | ⟨_, rfl⟩ | ⟨_, haside⟩
        · exact absurd hdrain htype
        · obtain ⟨n₂, haside, hset | hsame⟩ := receiveCheckpointInitStep_cases (n.logReceive msg)
          · rw [hset]
            exact haside.quantum
          · rw [hsame]
            exact haside.quantum
        · exact haside.quantum
      have hround : n'.wwt.currentQuantumRound = n.wwt.currentQuantumRound :=
        congrArg Quantum.currentQuantumRound hquantum
      have hclock : n'.virtualClock = n.virtualClock := hcontrol.clock
      have hcontexts : n'.receiveContexts = n.receiveContexts := hcontrol.contexts
      simp only [Node.work, rank_of_quantum hquantum, hround, hclock, hcontexts, processMessage_ring h]
      rcases processControl_sends hprocess with hsame | ⟨hpermission, last, hlast, hsent⟩
      · have hsending : n'.sending = n.sending := hsame
        rw [hsending]
        omega
      · have hsending : n'.sending = n.sending ++ [last] := hsent
        have hcost : msg.work = 4 := if_pos hpermission
        have hend : last.work = 2 := Message.work_of_ne (by rw [hlast]; decide)
        rw [hsending, sendWork_append, sendWork_singleton, hend, hcost]
        omega

/-- The node's time starts at `start` or before. -/
structure Node.StartsBy (q : Int) (start : Nat) (n : Node) : Prop where
  latency : n.wwt.latencyns = q
  bias : n.engine.firstSyncVirtualTime ≤ start
  before : n.wwt.quantumTimer = .null → n.virtualClock ≤ start

theorem UnaskedMove.startsBy {q : Int} {start target : Nat} {n n' : Node} {a : Action}
    (h : UnaskedMove n a n') (hworking : Working target n a) (hround : n.InRound)
    (hn : n.StartsBy q start) : n'.StartsBy q start := by
  cases h with
  | setup _ hnull =>
      exact ⟨hn.latency, Int.ofNat_le.mpr (hn.before hnull), fun hnot => by cases hnot⟩
  | @advance t =>
      exact ⟨hn.latency, hn.bias, fun hnull => absurd hnull (hworking.advance t rfl).2⟩
  | quantaSync => exact ⟨hn.latency, hn.bias, fun hnot => by cases hnot⟩
  | @pass _ _ n₁ hcheck =>
      have hchecked := wwtSyncCheckMaster_checked hcheck
      have hlatency : n₁.wwt.latencyns = n.wwt.latencyns := by
        rw [hchecked.wwt]
        rfl
      have hbias := hchecked.bias.trans_le hn.bias
      rw [hchecked.beginQuantum_eq hround]
      exact ⟨hlatency.trans hn.latency, hbias, fun hnot => by cases hnot⟩
  | leave hsite hfinished =>
      rw [hworking.leave rfl hsite] at hfinished
      cases hfinished
  | _ => exact ⟨hn.latency, hn.bias, hn.before⟩

theorem SameClock.startsBy {q : Int} {start : Nat} {n n' : Node} (h : SameClock n n')
    (hn : n.StartsBy q start) : n'.StartsBy q start := by
  have hlatency : n'.wwt.latencyns = n.wwt.latencyns := by rw [h.wwt]
  have hquantum : n'.wwt.quantumTimer = n.wwt.quantumTimer := by rw [h.wwt]
  refine ⟨hlatency.trans hn.latency, h.bias ▸ hn.bias, fun hnull => ?_⟩
  rw [h.clock]
  exact hn.before (hquantum ▸ hnull)

theorem StartupMove.bias_le {n n' : Node} {a : Action} (h : StartupMove n a n')
    (hn : n.engine.firstSyncVirtualTime ≤ n.virtualClock) :
    n'.engine.firstSyncVirtualTime ≤ n'.virtualClock := by
  cases h with
  | setup => exact le_rfl
  | advance hle => exact hn.trans (Int.ofNat_le.mpr hle)
  | wwtSend | deliver => exact hn
  | steady _ _ _ h =>
      have hclock : n'.virtualClock = n.virtualClock := congrArg (fun timing => timing.1) h.timing
      have hbias : n'.engine.firstSyncVirtualTime = n.engine.firstSyncVirtualTime :=
        congrArg (fun timing => timing.2.1) h.timing
      rw [hclock, hbias]
      exact hn

theorem reaches_bias_le {cfg : Config} {capacity : Option Nat} (hsync : cfg.sync = true) {s : System}
    (hs : cfg.Reaches capacity UnaskedStep s) (i : Side) :
    (s i).engine.firstSyncVirtualTime ≤ (s i).virtualClock := by
  revert i
  refine hs.invariant (P := fun s => ∀ i, (s i).engine.firstSyncVirtualTime ≤ (s i).virtualClock) ?_ ?_
  · rintro _ rfl i
    exact le_rfl
  · intro s ia s' hs hle hstep hguard
    have hbarrier := reaches_inBarrier hsync (fun _ _ _ h => h.1.2.2.1) hs
    cases stepsTo_of_step hstep with
    | @commSend i =>
        refine Side.forall_of_self_peer i ?_ ?_
        · rw [Function.update_self]
          exact hle i
        · rw [Function.update_of_ne (Side.peer_ne i)]
          exact hle i.peer
    | @receive i msg rest n' _ _ hprocess =>
        refine Side.forall_of_self_peer i ?_ ?_
        · have hsame := (processMessage_receive (hbarrier.inRound i).sync hprocess).sameClock
          rw [Function.update_self, hsame.bias, hsame.clock]
          exact hle i
        · rw [Function.update_of_ne (Side.peer_ne i), Function.update_self]
          exact hle i.peer
    | @callback i a n' _ _ hact =>
        refine Side.forall_of_self_peer i ?_ ?_
        · rw [Function.update_self]
          exact (act_startupMove hact).bias_le (hle i)
        · rw [Function.update_of_ne (Side.peer_ne i)]
          exact hle i.peer

/-- All rounds up to `target` fit the clocks. -/
theorem allTimesFit_of_startsBy {q : Int} {start : Side → Nat} {target : Nat} {s : System} (hq : 0 < q)
    (hfits : ∀ i, ((target : Int) + 1) * q + start i < 2 ^ 63) (hs : ∀ i, (s i).StartsBy q (start i))
    (hround : ∀ i, (s i).wwt.currentQuantumRound ≤ target) : AllTimesFit s := by
  intro i j
  have hend : (((s j).wwt.currentQuantumRound : Int) + 1) * q ≤ ((target : Int) + 1) * q := by
    have hle := hround j
    gcongr
  have hbias := (hs i).bias
  have hlast := hfits i
  rw [Node.Fits, (hs i).latency]
  omega

/-! ### A step that gets some work done -/

/-- One node at least has room in its ring for all that waits to enter it, so it does not stay in the
full-ring wait of `pdes_comm_send`. -/
def NotBlocked (capacity : Option Nat) (s : System) : Prop :=
  ∃ i, ∀ c ∈ capacity, (s i).inFlight.length ≤ c

theorem NotBlocked.congr {capacity : Option Nat} {s s' : System} (h : NotBlocked capacity s)
    (hsame : ∀ i, (s' i).inFlight = (s i).inFlight) : NotBlocked capacity s' := by
  obtain ⟨i, hfits⟩ := h
  exact ⟨i, by rw [hsame i]; exact hfits⟩

/-- The permission is in the ring, so it does not wait to enter it. -/
theorem InAgreement.length_sending_le {master : Side → Bool} {s : System} (h : InAgreement master s)
    {i : Side} {msg : Message} {rest : List Message} (hring : (s i).ring = msg :: rest)
    (htype : msg.type = permissionToEndEmulation) (hfew : Few (s i).sending) :
    (s i).sending.length ≤ 1 := by
  obtain ⟨phase, hphase⟩ := h.phase
  have hlength := phase.length_onTheWay_le (master i)
  rw [← (hphase i).2, Node.inFlight, hring] at hlength
  generalize (s i).sending = sending at hfew hlength
  cases hfew with
  | none => exact Nat.zero_le 1
  | one => exact le_rfl
  | grant hpermission hlast =>
      simp [exitMsgs, exitMsg, htype, hpermission, hlast, permissionToEndEmulation, endOfEmulation,
        intentToEndEmulation] at hlength

/-- A node that takes a message either has no more to send or leaves its neighbour room. -/
theorem UnaskedPair.notBlocked_receive {master : Side → Bool} {capacity : Option Nat} {q : Int}
    {s : System} (hpair : UnaskedPair master capacity q s) (hfree : NotBlocked capacity s) {i : Side}
    (hidle : (s i).sending = []) {msg : Message} {rest : List Message}
    (hring : (s i.peer).ring = msg :: rest) {n' : Node} (hprocess : processMessage (s i) msg = .ok n') :
    NotBlocked capacity
      (Function.update (Function.update s i.peer { s i.peer with ring := rest }) i n') := by
  have hpeer : (Function.update (Function.update s i.peer { s i.peer with ring := rest }) i n') i.peer =
      { s i.peer with ring := rest } := by
    rw [Function.update_of_ne (Side.peer_ne i), Function.update_self]
  obtain ⟨j, hfits⟩ := hfree
  rcases Side.eq_or_eq_peer i j with rfl | rfl
  · obtain ⟨n₁, hcallback, hcontrol⟩ := bind_eq_ok.mp hprocess
    obtain ⟨_, _, hemits⟩ := wwtReciviedCallback_frame hcallback
    have hsending : n₁.sending = [] := by
      rw [hemits.sending, sentIn, List.filterMap_nil, List.append_nil]
      exact hidle
    rcases processControl_sends hcontrol with hsame | ⟨hpermission, _⟩
    · refine ⟨j, ?_⟩
      rw [Function.update_self, Node.inFlight, processMessage_ring hprocess, hsame, hsending, ← hidle]
      exact hfits
    · refine ⟨j.peer, fun c hc => ?_⟩
      have hlength := hpair.nodes.fits j.peer c hc
      have hfew := hpair.agreement.length_sending_le hring hpermission (hpair.nodes.few j.peer)
      rw [hring, List.length_cons] at hlength
      rw [hpeer, Node.inFlight, List.length_append]
      change rest.length + (s j.peer).sending.length ≤ c
      omega
  · refine ⟨i.peer, fun c hc => ?_⟩
    have hlength := hfits c hc
    rw [Node.inFlight, hring, List.length_append, List.length_cons] at hlength
    rw [hpeer, Node.inFlight, List.length_append]
    change rest.length + (s i.peer).sending.length ≤ c
    omega

/-- The two nodes are on their way to round `target`. -/
structure Going (cfg : Config) (capacity : Option Nat) (start : Side → Nat) (target : Nat)
    (s : System) : Prop where
  reached : cfg.Reaches capacity UnaskedStep s
  stays : ∀ i, (s i).exitCalled = false
  free : NotBlocked capacity s
  round_le : ∀ i, (s i).wwt.currentQuantumRound ≤ target
  startsBy : ∀ i, (s i).StartsBy cfg.latencyns (start i)

/-- The nodes' own steps: no guest sends a packet, and nobody calls a node from outside. -/
def OwnStep (s : System) (ia : Side × Action) (s' : System) : Prop :=
  UnaskedStep s ia s' ∧ ia.2.own = true

/-- Some step of the nodes gets some work done. -/
def Works (cfg : Config) (capacity : Option Nat) (start : Side → Nat) (target : Nat) (s : System) :
    Prop :=
  ∃ ia s', step capacity s ia = .ok s' ∧ OwnStep s ia s' ∧ Going cfg capacity start target s' ∧
    System.work target s' < System.work target s

/-- The node waits, or it stands at the end of round `target`, or nothing is left but its exit. -/
inductive Node.Stuck (target : Nat) (n : Node) : Prop
  | waits (hsite : n.site = some .isWaiting)
      (hstays : n.waiting = true ∨ target ≤ n.wwt.currentQuantumRound) : Node.Stuck target n
  | leaves (hsite : n.site = some .waitLoop) (hfinished : n.engine.pairHasFinished = true) :
      Node.Stuck target n

/-- Both nodes are stuck, and nothing is on its way. -/
def QuietAt (target : Nat) (s : System) : Prop := ∀ i, (s i).Stuck target ∧ (s i).inFlight = []

theorem callback_ne_disabled {enabled : Prop} [Decidable enabled] {result : Except Fault Node}
    (h : enabled) : callback enabled result ≠ .error .disabled := by
  rw [callback, if_pos h]
  cases result <;> simp [Except.mapError]

section

variable {cfg : Config} {capacity : Option Nat} {start : Side → Nat} {target : Nat} {s : System}
  (hsync : cfg.sync = true) (hq : 0 < cfg.latencyns) (hroles : OneMaster cfg.master)
  (hcapacity : ∀ c ∈ capacity, 2 ≤ c) (htarget : target < 2 ^ 32)
  (hfits : ∀ i, ((target : Int) + 1) * cfg.latencyns + start i < 2 ^ 63)
  (h : Going cfg capacity start target s)

include hq htarget hfits h in
theorem Going.works {ia : Side × Action} {s' : System} (hstep : step capacity s ia = .ok s')
    (hpromises : Timely s ia ∧ Prompt s ia ∧ Disciplined s ia) (hown : ia.2.own = true)
    (hstays : ∀ i, (s' i).exitCalled = false) (hfree : NotBlocked capacity s')
    (hround : ∀ i, (s' i).wwt.currentQuantumRound ≤ target)
    (hstarts : ∀ i, (s' i).StartsBy cfg.latencyns (start i))
    (hlt : System.work target s' < System.work target s) : Works cfg capacity start target s := by
  obtain ⟨htimely, hprompt, hdisciplined⟩ := hpromises
  have hrounds : RoundsFit s' := fun i => (hround i).trans_lt htarget
  have hasked : ia.2 ≠ .finishInitiateCheckpoint := by
    intro hasked
    rw [hasked] at hown
    cases hown
  have hguard : UnaskedStep s ia s' :=
    ⟨⟨htimely, hprompt, hrounds, allTimesFit_of_startsBy hq hfits hstarts hround⟩, hdisciplined, hasked⟩
  exact ⟨ia, s', hstep, ⟨hguard, hown⟩, ⟨h.reached.next hstep hguard, hstays, hfree, hround, hstarts⟩,
    hlt⟩

include hsync hq hroles htarget hfits h

theorem Going.commSend {i : Side} {msg : Message} {rest : List Message}
    (hsending : (s i).sending = msg :: rest) (hroom : HasRoom capacity (s i).ring) :
    Works cfg capacity start target s := by
  have hpair := reaches_unaskedPair hsync hq hroles h.reached h.stays
  have hstep : step capacity s (i, .commSend) = .ok
      (Function.update s i { s i with sending := rest, ring := (s i).ring ++ [msg] }) := by
    rw [step, hsending]
    dsimp only
    rw [if_pos hroom]
  refine h.works hq htarget hfits hstep
    ⟨trivial, trivial, (fun hcheck => by cases hcheck), fun _ => (hpair.nodes.unasked i).needs⟩ rfl ?_
    (h.free.congr ?_) ?_ ?_ (System.work_lt i ?_)
  · refine Side.forall_of_self_peer i ?_ ?_
    · rw [Function.update_self]
      exact h.stays i
    · rw [Function.update_of_ne (Side.peer_ne i)]
      exact h.stays i.peer
  · refine Side.forall_of_self_peer i ?_ ?_
    · rw [Function.update_self, Node.inFlight, Node.inFlight, hsending, List.append_assoc]
      rfl
    · rw [Function.update_of_ne (Side.peer_ne i)]
  · refine Side.forall_of_self_peer i ?_ ?_
    · rw [Function.update_self]
      exact h.round_le i
    · rw [Function.update_of_ne (Side.peer_ne i)]
      exact h.round_le i.peer
  · refine Side.forall_of_self_peer i ?_ ?_
    · rw [Function.update_self]
      exact ⟨(h.startsBy i).latency, (h.startsBy i).bias, (h.startsBy i).before⟩
    · rw [Function.update_of_ne (Side.peer_ne i)]
      exact h.startsBy i.peer
  · rw [Function.update_self, Function.update_of_ne (Side.peer_ne i)]
    have hrank : ({ s i with sending := rest, ring := (s i).ring ++ [msg] } : Node).rank =
        (s i).rank := rfl
    simp only [Node.work, hrank, hsending, sendWork, List.map_cons, List.sum_cons, List.map_append,
      List.map_nil, List.sum_append, List.sum_nil]
    omega

/-- The node takes a message out of the ring. -/
theorem Going.receive {i : Side} (hidle : (s i).sending = []) {site : PollSite}
    (hsite : (s i).site = some site) {msg : Message} {rest : List Message}
    (hring : (s i.peer).ring = msg :: rest) : Works cfg capacity start target s := by
  have hpair := reaches_unaskedPair hsync hq hroles h.reached h.stays
  have hstays : (s i).Idle := ⟨h.stays i, hidle⟩
  have hpoll : step capacity s (i, .pollMessage) = do
      let n ← (pdesEnginePoll (s i) site msg).mapError Halt.fault
      return Function.update (Function.update s i.peer { s i.peer with ring := rest }) i n := by
    rw [step, hsite, hring]
    dsimp only
    rw [if_pos hstays]
  cases hprocess : pdesEnginePoll (s i) site msg with
  | error f =>
      rw [hprocess] at hpoll
      exact absurd hpoll (hpair.faultless (i, .pollMessage) trivial f)
  | ok n' =>
      rw [hprocess] at hpoll
      rw [pdesEnginePoll_eq] at hprocess
      have hinRound := (hpair.barrier.inRound i).sync
      have hsame := (processMessage_receive hinRound hprocess).sameClock
      have htype : msg.type ≠ drainStart := by
        apply (hpair.nodes.unasked i.peer).inFlight
        rw [Node.inFlight, hring]
        exact List.mem_append_left _ List.mem_cons_self
      have hwork := processMessage_work target htype hinRound hprocess
      refine h.works hq htarget hfits hpoll
        ⟨trivial, trivial, (fun hcheck => by cases hcheck), fun _ => (hpair.nodes.unasked i).needs⟩ rfl
        ?_ ?_ ?_ ?_ (System.work_lt i ?_)
      · refine Side.forall_of_self_peer i ?_ ?_
        · rw [Function.update_self, processMessage_exited hprocess]
          exact h.stays i
        · rw [Function.update_of_ne (Side.peer_ne i), Function.update_self]
          exact h.stays i.peer
      · exact hpair.notBlocked_receive h.free hidle hring hprocess
      · refine Side.forall_of_self_peer i ?_ ?_
        · have hsamed : n'.wwt.currentQuantumRound = (s i).wwt.currentQuantumRound := by rw [hsame.wwt]
          rw [Function.update_self, hsamed]
          exact h.round_le i
        · rw [Function.update_of_ne (Side.peer_ne i), Function.update_self]
          exact h.round_le i.peer
      · refine Side.forall_of_self_peer i ?_ ?_
        · rw [Function.update_self]
          exact hsame.startsBy (h.startsBy i)
        · rw [Function.update_of_ne (Side.peer_ne i), Function.update_self]
          exact ⟨(h.startsBy i.peer).latency, (h.startsBy i.peer).bias, (h.startsBy i.peer).before⟩
      · have hlost : ({ s i.peer with ring := rest } : Node).work target + msg.work =
            (s i.peer).work target := by
          have hrank : ({ s i.peer with ring := rest } : Node).rank = (s i.peer).rank := rfl
          simp only [Node.work, hrank, hring, List.map_cons, List.sum_cons]
          omega
        rw [Function.update_self, Function.update_of_ne (Side.peer_ne i), Function.update_self]
        omega

include hcapacity

/-- A callback that gets some work done. -/
theorem Going.callback {i : Side} {a : Action} (hidle : (s i).sending = [])
    (hcalls : a ≠ .commSend ∧ a ≠ .pollMessage ∧ a.own = true)
    (henabled : (s i).act a ≠ .error .disabled) (hempty : a = .pollReturn → (s i.peer).ring = [])
    (hpromises : Timely s (i, a) ∧ Prompt s (i, a) ∧ BottomHalvesFirst (s i) (.act a))
    (hworking : Working target (s i) a) : Works cfg capacity start target s := by
  have hpair := reaches_unaskedPair hsync hq hroles h.reached h.stays
  have hstays : (s i).Idle := ⟨h.stays i, hidle⟩
  have hround := hpair.barrier.inRound i
  obtain ⟨htimely, hprompt, hfirst⟩ := hpromises
  obtain ⟨hsend, hpoll, hown⟩ := hcalls
  have hcallback : step capacity s (i, a) = do
      let n ← (s i).act a
      return Function.update s i n := by
    rw [step_callback hsend hpoll, if_pos ⟨hstays, hempty⟩]
  cases hact : (s i).act a with
  | error halt =>
      cases halt with
      | disabled => exact absurd hact henabled
      | fault f =>
          rw [hact] at hcallback
          exact absurd hcallback (hpair.faultless (i, a) hprompt.packetFits f)
  | ok n' =>
      rw [hact] at hcallback
      have hmove := (hpair.nodes.unasked i).act hround.sync hown hact
      refine h.works hq htarget hfits hcallback
        ⟨htimely, hprompt, hfirst, fun _ => (hpair.nodes.unasked i).needs⟩ hown ?_ ?_ ?_ ?_
        (System.work_lt i ?_)
      · refine Side.forall_of_self_peer i ?_ ?_
        · rw [Function.update_self]
          exact hmove.stays hworking hround (h.stays i)
        · rw [Function.update_of_ne (Side.peer_ne i)]
          exact h.stays i.peer
      · by_cases hreturn : a = .pollReturn
        · -- the neighbour's ring is empty, so it has room for what the neighbour sends
          refine ⟨i.peer, fun c hc => ?_⟩
          have hfew := (hpair.nodes.few i.peer).length_le
          rw [Function.update_of_ne (Side.peer_ne i), Node.inFlight, hempty hreturn, List.nil_append]
          exact hfew.trans (hcapacity c hc)
        · refine h.free.congr (Side.forall_of_self_peer i ?_ ?_)
          · rw [Function.update_self]
            exact hmove.inFlight hreturn
          · rw [Function.update_of_ne (Side.peer_ne i)]
      · refine Side.forall_of_self_peer i ?_ ?_
        · rw [Function.update_self]
          exact hmove.round_le hworking hround (h.round_le i)
        · rw [Function.update_of_ne (Side.peer_ne i)]
          exact h.round_le i.peer
      · refine Side.forall_of_self_peer i ?_ ?_
        · rw [Function.update_self]
          exact hmove.startsBy hworking hround (h.startsBy i)
        · rw [Function.update_of_ne (Side.peer_ne i)]
          exact h.startsBy i.peer
      · rw [Function.update_self, Function.update_of_ne (Side.peer_ne i)]
        exact Nat.add_lt_add_right (hmove.work_lt hworking hround (hpair.phase i)) _

/-- In its quantum the node is set up, hands on the packets that are due, and runs to the quantum's end. -/
theorem Going.running {i : Side} (hidle : (s i).sending = []) (hsite : (s i).site = none)
    (hrunning : (s i).quantum.Running) : Works cfg capacity start target s := by
  have hpair := reaches_unaskedPair hsync hq hroles h.reached h.stays
  have hnot : (s i).wwt.finishedQuantum = false := hrunning.finishedQuantum
  cases hquantum : (s i).wwt.quantumTimer with
  | null =>
      exact h.callback hsync hq hroles hcapacity htarget hfits (a := .setup) hidle (by decide)
        (callback_ne_disabled ⟨hsite, hquantum⟩) (callback_not_return rfl)
        ⟨trivial, trivial, bottomHalvesFirst_of_ne (by decide)⟩ (.of_plain rfl)
  | stopped => exact absurd hquantum hrunning.quantumTimer
  | armed e =>
      have hpast : (s i).PastSetup := by
        rw [Node.PastSetup, hquantum]
        simp
      have hdeadline (other : Int) (hother : other ∈ (s i).wwt.quantumTimer.deadline) : other = e := by
        rw [hquantum] at hother
        exact (Option.some.inj hother).symm
      by_cases hdue : ∃ ctx ∈ (s i).receiveContexts, ctx.timer ≤ (s i).virtualClock
      · obtain ⟨ctx, hmem, hdue⟩ := hdue
        obtain ⟨first, rest, hcontexts⟩ := List.exists_cons_of_ne_nil (List.ne_nil_of_mem hmem)
        have hsorted := hpair.sorted i
        rw [hcontexts, List.pairwise_cons] at hsorted
        have hleast : ∀ other ∈ (s i).receiveContexts, first.timer ≤ other.timer := by
          intro other hother
          rw [hcontexts] at hother
          rcases List.mem_cons.mp hother with rfl | hother
          · exact le_rfl
          · exact hsorted.1 other hother
        have hget : (s i).receiveContexts[0]? = some first := by
          rw [hcontexts]
          rfl
        have henabled : (s i).act (.deliver 0) ≠ .error .disabled := by
          rw [Node.act, hget]
          exact callback_ne_disabled trivial
        refine h.callback hsync hq hroles hcapacity htarget hfits (a := .deliver 0) hidle
          ⟨by simp, by simp, rfl⟩ henabled (callback_not_return rfl)
          ⟨trivial, ?_, bottomHalvesFirst_of_ne (by simp)⟩ (.of_plain rfl)
        intro other hother
        rw [hget] at hother
        cases hother
        exact ⟨(hleast ctx hmem).trans hdue, hleast, fun _ hnone => by simp at hnone⟩
      push Not at hdue
      by_cases hend : e ≤ (s i).virtualClock
      · refine h.callback hsync hq hroles hcapacity htarget hfits (a := .quantaSync) hidle (by decide)
          (callback_ne_disabled ⟨hsite, ?_⟩) (callback_not_return rfl)
          ⟨?_, trivial, bottomHalvesFirst_of_ne (by decide)⟩ (.of_plain rfl)
        · rw [hquantum]
          rfl
        · intro other hother
          rw [hdeadline other hother]
          exact hend
      · have hin := (hpair.time i).after hpast
        have hlast : e < 2 ^ 63 := by
          have hfit := hin.fits
          rw [Node.Fits, (hpair.time i).latency, add_one_mul] at hfit
          rcases hin.timer e (by rw [hquantum]; rfl) with htimer | ⟨htimer, _⟩ <;> omega
        refine h.callback hsync hq hroles hcapacity htarget hfits (a := .advance ((s i).virtualClock + 1))
          hidle ⟨by simp, by simp, rfl⟩ (callback_ne_disabled ⟨Nat.le_succ _, by omega⟩) (by simp)
          ⟨⟨?_, ?_⟩, ?_, bottomHalvesFirst_of_ne (by simp)⟩ ⟨?_, by simp, by simp⟩
        · exact (hpair.pauses i).paused.trans hnot
        · intro other hother
          rw [hdeadline other hother]
          push_cast
          omega
        · intro ctx hmem
          have hlater := hdue ctx hmem
          push_cast
          omega
        · rintro t ⟨⟩
          exact ⟨Nat.lt_succ_self _, hpast⟩

/-- After the quantum the bottom half runs, and then `sync_check_timer` fires. -/
theorem Going.waiting {i : Side} (hidle : (s i).sending = []) (hsite : (s i).site = none)
    (hwaiting : (s i).quantum.Waiting (s i).engine.needsToCheckpoint) :
    Works cfg capacity start target s := by
  have hpair := reaches_unaskedPair hsync hq hroles h.reached h.stays
  cases hbh : (s i).engine.pauseBh with
  | true =>
      exact h.callback hsync hq hroles hcapacity htarget hfits (a := .pauseBh) hidle (by decide)
        (callback_ne_disabled ⟨hsite, hbh⟩) (callback_not_return rfl)
        ⟨trivial, trivial, bottomHalvesFirst_of_ne (by decide)⟩ (.of_plain rfl)
  | false =>
      have harmed : (s i).wwt.syncCheckTimer.isArmed = true := by
        have hcheck : (s i).wwt.syncCheckTimer = .armed () := hwaiting.syncCheckTimer
        rw [hcheck]
        rfl
      refine h.callback hsync hq hroles hcapacity htarget hfits (a := .syncCheck) hidle (by decide)
        (callback_ne_disabled ⟨hsite, harmed⟩) (callback_not_return rfl)
        ⟨trivial, trivial, fun _ => ⟨hbh, ?_⟩⟩ (.of_plain rfl)
      rw [(hpair.nodes.unasked i).bh]
      exact fun bh hnone => by cases hnone

/-- A node that is not inside a send gets some work done, or it is stuck with its ring empty. -/
theorem Going.idle {i : Side} (hidle : (s i).sending = []) :
    Works cfg capacity start target s ∨ ((s i).Stuck target ∧ (s i.peer).ring = []) := by
  have hpair := reaches_unaskedPair hsync hq hroles h.reached h.stays
  cases hsite : (s i).site with
  | none =>
      left
      rcases (hpair.phase i).between (Or.inl hsite) with hrunning | hwaiting
      · exact h.running hsync hq hroles hcapacity htarget hfits hidle hsite hrunning
      · exact h.waiting hsync hq hroles hcapacity htarget hfits hidle hsite hwaiting
  | some site =>
      cases hring : (s i.peer).ring with
      | cons msg rest => exact Or.inl (h.receive hsync hq hroles htarget hfits hidle hsite hring)
      | nil =>
          by_cases hstuck : (s i).Stuck target
          · exact Or.inr ⟨hstuck, rfl⟩
          · left
            have henabled : (s i).act .pollReturn ≠ .error .disabled := by
              rw [Node.act, hsite]
              exact callback_ne_disabled trivial
            refine h.callback hsync hq hroles hcapacity htarget hfits (a := .pollReturn) hidle (by decide)
              henabled (fun _ => hring) ⟨trivial, trivial, bottomHalvesFirst_of_ne (by decide)⟩
              ⟨by simp, fun _ hwaits => ⟨?_, ?_⟩, fun _ hloop => ?_⟩
            · rw [← Bool.not_eq_true]
              exact fun hwaiting => hstuck (.waits hwaits (Or.inl hwaiting))
            · rw [← not_le]
              exact fun hpassed => hstuck (.waits hwaits (Or.inr hpassed))
            · rw [← Bool.not_eq_true]
              exact fun hfinished => hstuck (.leaves hloop hfinished)

/-- Until both nodes are stuck and nothing is on its way, some step gets some work done. -/
theorem Going.step (hnot : ¬QuietAt target s) : Works cfg capacity start target s := by
  by_cases hsends : ∃ i msg rest, (s i).sending = msg :: rest ∧ HasRoom capacity (s i).ring
  · obtain ⟨i, msg, rest, hsending, hroom⟩ := hsends
    exact h.commSend hsync hq hroles htarget hfits hsending hroom
  have hblocked (i : Side) (hroom : HasRoom capacity (s i).ring) : (s i).sending = [] := by
    cases hsending : (s i).sending with
    | nil => rfl
    | cons msg rest => exact absurd ⟨i, msg, rest, hsending, hroom⟩ hsends
  have hempty (i : Side) (hring : (s i).ring = []) : (s i).sending = [] := by
    refine hblocked i fun c hc => ?_
    have hlength := hcapacity c hc
    rw [hring, List.length_nil]
    omega
  obtain ⟨i, hfree⟩ := h.free
  have hidle : (s i).sending = [] := by
    by_contra hsending
    refine hsending (hblocked i fun c hc => ?_)
    have hlength := hfree c hc
    have hpos := List.length_pos_iff.mpr hsending
    rw [Node.inFlight, List.length_append] at hlength
    omega
  rcases h.idle hsync hq hroles hcapacity htarget hfits hidle with hworks | ⟨hstuck, hring⟩
  · exact hworks
  rcases h.idle hsync hq hroles hcapacity htarget hfits (hempty i.peer hring) with
    hworks | ⟨hstuck', hring'⟩
  · exact hworks
  · rw [Side.peer_peer] at hring'
    have hflight (j : Side) : (s j).inFlight = [] := by
      have hrings : (s j).ring = [] := by
        rcases Side.eq_or_eq_peer i j with rfl | rfl
        · exact hring'
        · exact hring
      rw [Node.inFlight, hrings, hempty j hrings, List.append_nil]
    exact absurd (Side.forall_of_self_peer i ⟨hstuck, hflight i⟩ ⟨hstuck', hflight i.peer⟩) hnot

/-- The nodes' own steps lead to a state in which both are stuck and nothing is on its way. -/
theorem Going.exists_quiet :
    ∃ s', Reachable (LeanPdes.step capacity) OwnStep (· = s) s' ∧
      Going cfg capacity start target s' ∧ QuietAt target s' := by
  refine exists_reachable_of_rank (P := Going cfg capacity start target) (System.work target) ?_ h
  intro s h hnot
  exact h.step hsync hq hroles hcapacity htarget hfits fun hquiet => hnot ⟨h, hquiet⟩

end

/-- Both nodes know that the other one has finished, or both stand at the end of round `target` with no
permission to exit. -/
theorem UnaskedPair.quiet {master : Side → Bool} {capacity : Option Nat} {q : Int} {s : System}
    (hpair : UnaskedPair master capacity q s) (hroles : OneMaster master) {target : Nat}
    (hquiet : QuietAt target s) (hround : ∀ i, (s i).wwt.currentQuantumRound ≤ target) :
    (∀ i, (s i).engine.pairHasFinished = true) ∨
      ∀ i, (s i).wwt.currentQuantumRound = target ∧ (s i).engine.permittedToExit = false := by
  obtain ⟨phase, hphase⟩ := hpair.agreement.phase
  have hway : ∀ role, phase.onTheWay role = [] := by
    intro role
    have hside (i : Side) : phase.onTheWay (master i) = [] := by
      rw [← (hphase i).2, (hquiet i).2]
      rfl
    obtain ⟨i, hrole⟩ := hroles.exists_master
    cases role with
    | true => simpa [hrole] using hside i
    | false => simpa [hrole] using hside i.peer
  rcases Phase.quiet_cases hway with hfinished | hwaits
  · left
    intro i
    exact (congrArg Flags.finished (hphase i).1).trans (hfinished (master i))
  · right
    have hnot (i : Side) : (s i).engine.pairHasFinished = false :=
      (congrArg Flags.finished (hphase i).1).trans (hwaits (master i)).1
    have hsite (i : Side) : (s i).site = some .isWaiting := by
      cases (hquiet i).1 with
      | waits hsite => exact hsite
      | leaves _ hfinished =>
          rw [hnot i] at hfinished
          cases hfinished
    have hstays (i : Side) : (s i).waiting = true ∨ target ≤ (s i).wwt.currentQuantumRound := by
      cases (hquiet i).1 with
      | waits _ hstays => exact hstays
      | leaves _ hfinished =>
          rw [hnot i] at hfinished
          cases hfinished
    have hseen (i : Side) : (s i).seen = (s i.peer).wwt.currentQuantumRound + 1 := by
      have hpeer := hpair.barrier.inRound i.peer
      have harrived : (s i.peer).party.sent = (s i.peer).wwt.currentQuantumRound + 1 := by
        have hfinished := hpeer.polling (by rw [hsite i.peer]; decide) (by rw [hsite i.peer]; decide)
        simp [Party.sent, Node.party, Node.arrived, hfinished, hsite i.peer]
      have hchannel := hpair.barrier.conserved i.peer
      rw [Channel, (hquiet i.peer).2, List.append_nil, Side.peer_peer] at hchannel
      have hlength := congrArg List.length hpeer.sent
      rw [← hchannel, List.length_range, harrived] at hlength
      exact hlength
    have hwaits' (i : Side) : (s i).waiting = true →
        (s i.peer).wwt.currentQuantumRound + 1 ≤ (s i).wwt.currentQuantumRound := by
      rw [waiting_iff (hpair.barrier.inRound i), hseen i]
      exact id
    intro i
    refine ⟨?_, (congrArg Flags.permitted (hphase i).1).trans (hwaits (master i)).2⟩
    have hle := hround i
    have hle' := hround i.peer
    rcases hstays i with hwaiting | hpassed
    · have hahead := hwaits' i hwaiting
      rcases hstays i.peer with hwaiting' | hpassed'
      · have hahead' := hwaits' i.peer hwaiting'
        rw [Side.peer_peer] at hahead'
        omega
      · omega
    · omega

/-- The clocks have room for all rounds up to `target`. -/
theorem going_start {cfg : Config} {capacity : Option Nat} (hsync : cfg.sync = true)
    (hq : 0 < cfg.latencyns) (hroles : OneMaster cfg.master) {s : System}
    (hs : cfg.Reaches capacity UnaskedStep s) (hstays : ∀ i, (s i).exitCalled = false)
    (hfree : NotBlocked capacity s) {target : Nat} (hle : ∀ i, (s i).wwt.currentQuantumRound ≤ target) :
    Going cfg capacity (fun i => (s i).virtualClock) target s := by
  have hpair := reaches_unaskedPair hsync hq hroles hs hstays
  exact ⟨hs, hstays, hfree, hle, fun i =>
    ⟨(hpair.time i).latency, reaches_bias_le hsync hs i, fun _ => le_rfl⟩⟩

/-- In a run of `UnaskedStep`s, from every state in which neither node has left and the two do not block
each other in their sends, steps of the nodes alone lead to every round below `2 ^ 32` up to which the
clocks have room, unless both nodes may leave before. -/
theorem rounds_go_on {cfg : Config} {capacity : Option Nat} (hsync : cfg.sync = true)
    (hq : 0 < cfg.latencyns) (hroles : OneMaster cfg.master) (hcapacity : ∀ c ∈ capacity, 2 ≤ c)
    {s : System} (hs : cfg.Reaches capacity UnaskedStep s) (hstays : ∀ i, (s i).exitCalled = false)
    (hfree : NotBlocked capacity s) {target : Nat} (htarget : target < 2 ^ 32)
    (hfits : ∀ i, ((target : Int) + 1) * cfg.latencyns + (s i).virtualClock < 2 ^ 63)
    (hle : ∀ i, (s i).wwt.currentQuantumRound ≤ target) :
    ∃ s', Reachable (step capacity) OwnStep (· = s) s' ∧
      ((∀ i, (s' i).wwt.currentQuantumRound = target) ∨
        ∀ i, (s' i).engine.permittedToExit = true ∧ (s' i).engine.pairHasFinished = true) := by
  have hgoing := going_start hsync hq hroles hs hstays hfree hle
  obtain ⟨s', hs', hgoing', hquiet⟩ := hgoing.exists_quiet hsync hq hroles hcapacity htarget hfits
  have hpair := reaches_unaskedPair hsync hq hroles hgoing'.reached hgoing'.stays
  refine ⟨s', hs', ?_⟩
  rcases hpair.quiet hroles hquiet hgoing'.round_le with hfinished | hrounds
  · exact Or.inr fun i => ⟨(hpair.agreement.finished hroles (hfinished i)).1, hfinished i⟩
  · exact Or.inl fun i => (hrounds i).1

/-- The left node has sent a packet and its SYNC, and the right one is in the poll of `quanta_sync`. -/
def startedRun : List (Side × Action) :=
  [(.left, .setup), (.right, .setup), (.left, .wwtSend [7]), (.left, .commSend), (.left, .quantaSync),
    (.left, .pollReturn), (.left, .commSend), (.right, .quantaSync), (.right, .pollMessage)]

set_option maxRecDepth 100000 in
theorem rounds_go_on_startedRun :
    ∃ s s' : System, (s .left).wwt.currentQuantumRound = 0 ∧
      Reachable (step (some ringCapacity)) OwnStep (· = s) s' ∧
      ((∀ i, (s' i).wwt.currentQuantumRound = 3) ∨
        ∀ i, (s' i).engine.permittedToExit = true ∧ (s' i).engine.pairHasFinished = true) := by
  have hrun : (run (step (some ringCapacity)) UnaskedStep twoNodes.created startedRun).map
      (fun s => decide ((s .left).wwt.currentQuantumRound = 0 ∧ (s .right).inFlight.length = 0 ∧
        ∀ i, (s i).exitCalled = false ∧ (s i).virtualClock = 5 ∧
          (s i).wwt.currentQuantumRound ≤ 3)) = some true := by decide
  obtain ⟨s, hs, hfacts⟩ := Option.map_eq_some_iff.mp hrun
  obtain ⟨hround, hinFlight, hstands⟩ := of_decide_eq_true hfacts
  have htarget : 3 < 2 ^ 32 := by decide
  have hfree : NotBlocked (some ringCapacity) s := by
    refine ⟨.right, fun c _ => ?_⟩
    rw [hinFlight]
    exact Nat.zero_le c
  obtain ⟨s', hs', hreached⟩ := rounds_go_on rfl (by decide) (fun i => by cases i <;> rfl) (by decide)
    (Config.Reaches.of_run hs) (fun i => (hstands i).1) hfree htarget
    (fun i => by rw [(hstands i).2.1]; decide) fun i => (hstands i).2.2
  exact ⟨s, s', hround, hs', hreached⟩

end LeanPdes
