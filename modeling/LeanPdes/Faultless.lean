import LeanPdes.Causality
import LeanPdes.CheckpointIdentity
import LeanPdes.CheckpointPledge
import LeanPdes.QuantumCycle

/-! No assert fails when the quanta are synchronised. Each invariant of the two nodes rules out its own
asserts; together they leave the one of `sync_checkpoint_check` about the round of the checkpoint. That
one holds because the master does not leave the round it saves in. -/

namespace LeanPdes

open Words TwoParty Reach CheckpointProtocol

/-- The callback takes the way out of `pdes_engine_destroy`. -/
def Node.ExitPath (n : Node) (a : Action) : Prop :=
  a = .engineDestroy ∨ a = .pollReturn ∧ n.site = some .waitLoop ∧ n.engine.pairHasFinished = true

instance (n : Node) (a : Action) : Decidable (n.ExitPath a) := inferInstanceAs (Decidable (_ ∨ _))

/-- Bottom halves come before `sync_check_timer`, and no node leaves with a request for a checkpoint
pending. -/
structure Disciplined (s : System) (ia : Side × Action) : Prop where
  first : BottomHalvesFirst (s ia.1) (.act ia.2)
  exits : (s ia.1).ExitPath ia.2 → (s ia.1).engine.needsToCheckpoint = false

instance (s : System) (ia : Side × Action) : Decidable (Disciplined s ia) :=
  decidable_of_iff (BottomHalvesFirst (s ia.1) (.act ia.2) ∧
      ((s ia.1).ExitPath ia.2 → (s ia.1).engine.needsToCheckpoint = false))
    ⟨fun h => ⟨h.1, h.2⟩, fun h => ⟨h.first, h.exits⟩⟩

/-- The node is in one of the phases of its quantum, or it leaves. -/
def Node.Settled (n : Node) : Prop := n.InPhase ∨ n.exitCalled = true

theorem pdesEngineDestroy_exits_of_unneeded {n n' : Node} (h : pdesEngineDestroy n = .ok n')
    (hneeds : n.engine.needsToCheckpoint = false) : n'.exitCalled = true := by
  obtain ⟨n₁, haside, ⟨hneeds₁, _⟩ | ⟨_, rfl⟩⟩ := pdesEngineDestroy_cases h
  · have hsame : n₁.engine.needsToCheckpoint = n.engine.needsToCheckpoint :=
      congrArg DrainRequest.needsToCheckpoint haside.request
    rw [hsame, hneeds] at hneeds₁
    cases hneeds₁
  · rfl

theorem act_exits_of_unneeded {n n' : Node} {a : Action} (h : n.act a = .ok n') (hexit : n.ExitPath a)
    (hneeds : n.engine.needsToCheckpoint = false) : n'.exitCalled = true := by
  rcases hexit with rfl | ⟨rfl, hsite, hfinished⟩
  · exact pdesEngineDestroy_exits_of_unneeded (callback_ok.mp h).2 hneeds
  · obtain ⟨site, hsite', h⟩ := act_pollReturn h
    rw [hsite] at hsite'
    cases hsite'
    rw [pollReturn, if_pos hfinished] at h
    split_ifs at h
    exact pdesEngineDestroy_exits_of_unneeded h hneeds

theorem Node.Settled.step {n n' : Node} {b : NodeAction} (hn : n.Settled)
    (h : nodeStep n b = .ok n') (hfirst : BottomHalvesFirst n b)
    (hexits : ∀ a, b = .act a → n.ExitPath a → n.engine.needsToCheckpoint = false) : n'.Settled := by
  by_cases hleft : n'.exitCalled = true
  · exact Or.inr hleft
  have hstays (a : Action) (hb : b = .act a) (hexit : n.ExitPath a) : False := by
    subst hb
    rw [nodeStep] at h
    split_ifs at h
    exact hleft (act_exits_of_unneeded h hexit (hexits a rfl hexit))
  rcases hn with hn | hexited
  · refine Or.inl ((nodeStep_turn h).inPhase hn hfirst ⟨?_, ?_, by simpa using hleft⟩)
    · rintro rfl
      exact hstays .engineDestroy rfl (Or.inl rfl)
    · rintro ⟨rfl, hexit⟩
      exact hstays .pollReturn rfl (Or.inr ⟨rfl, hexit⟩)
  · -- a node that leaves only finishes its sends and loses what its neighbour takes
    exfalso
    have hnot : ¬n.Idle := fun hidle => by
      rw [hidle.1] at hexited
      cases hexited
    cases b with
    | act a =>
        rw [nodeStep, if_neg hnot] at h
        cases h
    | receive msg =>
        rw [nodeStep] at h
        split at h
        · cases h
        · rw [if_neg hnot] at h
          cases h
    | sent =>
        rw [nodeStep] at h
        split at h <;> cases h
        exact hleft hexited
    | taken =>
        rw [nodeStep] at h
        split at h <;> cases h
        exact hleft hexited

theorem settled_step {capacity : Option Nat} {s s' : System} {ia : Side × Action}
    (hs : ∀ i, (s i).Settled) (h : step capacity s ia = .ok s') (hguard : Disciplined s ia) :
    ∀ i, (s' i).Settled := by
  obtain ⟨i, a⟩ := ia
  obtain ⟨⟨b, hself, hb⟩, hpeer⟩ := nodeStep_of_step h
  refine Side.forall_of_self_peer i ?_ ?_
  · rcases hb with rfl | ⟨_, msg, rfl⟩ | ⟨_, rfl⟩
    · exact (hs i).step hself hguard.first fun a' ha' => by cases ha'; exact hguard.exits
    · exact (hs i).step hself (fun h => by cases h) fun a' ha' => by cases ha'
    · exact (hs i).step hself (fun h => by cases h) fun a' ha' => by cases ha'
  · rcases hpeer with hsame | htaken
    · rw [hsame]
      exact hs i.peer
    · exact (hs i.peer).step htaken (fun h => by cases h) fun a' ha' => by cases ha'

theorem settled_created (cfg : Config) (i : Side) : (cfg.created i).Settled := by
  refine Or.inl (.running ⟨Or.inl rfl, ?_, rfl, rfl, rfl, rfl⟩)
  simp [Node.quantum, Config.created, pdesEngineWwtCreate]

/-- A fault of the two nodes is a fault of the acting one, which has not left. -/
theorem nodeStep_of_fault {capacity : Option Nat} {s : System} {i : Side} {a : Action} {f : Fault}
    (h : step capacity s (i, a) = .error (.fault f)) :
    (s i).Idle ∧ ∃ b, nodeStep (s i) b = .error (.fault f) := by
  by_cases hsend : a = .commSend
  · subst hsend
    rw [step] at h
    split at h
    · cases h
    · split_ifs at h
      cases h
  by_cases hpoll : a = .pollMessage
  · subst hpoll
    rw [step] at h
    split at h
    · rename_i site msg rest hsite _
      split_ifs at h with hidle
      · refine ⟨hidle, .receive msg, ?_⟩
        rw [nodeStep, hsite]
        dsimp only
        rw [if_pos hidle]
        rcases bind_eq_error.mp h with h | ⟨n, _, h⟩
        · exact h
        · cases h
      · cases h
    · cases h
  · rw [step_callback hsend hpoll] at h
    split_ifs at h with hidle
    · refine ⟨hidle.1, .act a, ?_⟩
      rw [nodeStep, if_pos hidle.1]
      rcases bind_eq_error.mp h with h | ⟨n, _, h⟩
      · exact h
      · cases h
    · cases h

theorem reaches_inAgreement {cfg : Config} (hroles : OneMaster cfg.master) {capacity : Option Nat}
    {guard : System → Side × Action → System → Prop} {s : System}
    (hs : cfg.Reaches capacity guard s) : InAgreement cfg.master s := by
  refine hs.invariant (fun _ h => h ▸ inAgreement_created cfg) ?_
  rintro s ⟨i, a⟩ s' _ hs hstep _
  obtain ⟨call, hexits⟩ := step_exits hstep
  exact hs.follows hroles hexits.follows

theorem reaches_soundPair {cfg : Config} {capacity : Option Nat}
    {guard : System → Side × Action → System → Prop}
    (hguard : ∀ s ia s', guard s ia s' → ia.2.PacketFits) {s : System}
    (hs : cfg.Reaches capacity guard s) : SoundPair cfg False s := by
  refine hs.invariant (fun _ h => h ▸ soundPair_created cfg False) ?_
  rintro s ⟨j, b⟩ s' _ hs hstep hg
  exact (hs.step capacity (hguard _ _ _ hg) False.elim).result s' hstep

theorem reaches_settled {cfg : Config} {capacity : Option Nat}
    {guard : System → Side × Action → System → Prop}
    (hguard : ∀ s ia s', guard s ia s' → Disciplined s ia) {s : System}
    (hs : cfg.Reaches capacity guard s) : ∀ i, (s i).Settled := by
  refine hs.invariant (P := fun s => ∀ i, (s i).Settled) ?_ ?_
  · rintro _ rfl
    exact settled_created cfg
  · intro s ia s' _ hs hstep hg
    exact settled_step hs hstep (hguard s ia s' hg)

/-- The asserts that depend on the node alone hold, with sync on or off. -/
theorem reaches_protocolFault {cfg : Config} {capacity : Option Nat}
    {guard : System → Side × Action → System → Prop}
    (hguard : ∀ s ia s', guard s ia s' → ia.2.PacketFits ∧ Disciplined s ia) {s : System}
    (hs : cfg.Reaches capacity guard s) {i : Side} {a : Action} (hfits : a.PacketFits) {f : Fault}
    (hfault : step capacity s (i, a) = .error (.fault f)) : f ∈ protocolFaults := by
  have hsound := reaches_soundPair (fun s ia s' h => (hguard s ia s' h).1) hs
  have hsettled := reaches_settled (fun s ia s' h => (hguard s ia s' h).2) hs
  obtain ⟨hidle, b, hnode⟩ := nodeStep_of_fault hfault
  have hphase : (s i).InPhase := (hsettled i).resolve_right (by rw [hidle.1]; decide)
  have hcaller : f ∉ callerFaults := (hsound.step capacity hfits False.elim).failure _ hfault
  rcases List.mem_cons.mp (hphase.asserts hnode) with rfl | hother
  · exact absurd List.mem_cons_self hcaller
  · rcases List.mem_append.mp hother with hcall | hprotocol
    · exact absurd (List.mem_cons_of_mem _ hcall) hcaller
    · exact hprotocol

/-- The step fails the assert of `sync_checkpoint_check`: the node ends a round past the one in which
it was to save. -/
def PassedRound (s : System) (ia : Side × Action) : Prop :=
  ia.2 = .pollReturn ∧ (s ia.1).site = some .isWaiting ∧
    (s ia.1).engine.needsToCheckpoint = true ∧
    (s ia.1).engine.checkpointQuantumRound < (s ia.1).wwt.currentQuantumRound

/-- The steps of a run under QEMU's promises, with packets that fit and in the order that the bottom
halves are scheduled in. -/
def OrderlyStep (s : System) (ia : Side × Action) (s' : System) : Prop :=
  TimelyStep s ia s' ∧ ia.2.PacketFits ∧ Disciplined s ia

instance (s : System) (ia : Side × Action) (s' : System) : Decidable (OrderlyStep s ia s') :=
  inferInstanceAs (Decidable (_ ∧ _ ∧ _))

theorem reaches_passedRound {cfg : Config} {capacity : Option Nat} (hsync : cfg.sync = true)
    (hq : 0 < cfg.latencyns) (hroles : OneMaster cfg.master)
    {guard : System → Side × Action → System → Prop}
    (hguard : ∀ s ia s', guard s ia s' → OrderlyStep s ia s') {s : System}
    (hs : cfg.Reaches capacity guard s) {ia : Side × Action} (hfits : ia.2.PacketFits) {f : Fault}
    (hfault : step capacity s ia = .error (.fault f)) :
    f = .checkpointRoundPassed ∧ PassedRound s ia := by
  obtain ⟨i, a⟩ := ia
  have hbarrier := reaches_inBarrier hsync (fun s ia s' h => (hguard s ia s' h).1.2.1) hs
  have htime := reaches_inTime hsync hq (fun s ia s' h => (hguard s ia s' h).1) hs
  have hcausal := reaches_causal hsync hq (fun s ia s' h => (hguard s ia s' h).1) hs
  have hagree := reaches_inAgreement hroles hs
  have hprotocol :=
    reaches_protocolFault (fun s ia s' h => (hguard s ia s' h).2) hs hfits hfault
  rcases step_fault (hbarrier.inRound i).sync hfault hprotocol with
    ⟨rfl, msg, rest, hring, hmessage⟩ | ⟨rfl, site, hsite, hreturn⟩
  · exfalso
    cases hmessage with
    | sync htype hround => exact hround (hbarrier.validRound hring htype)
    | packet htype hpast =>
        have hmem : msg ∈ (s i.peer).inFlight := by
          rw [Node.inFlight, hring]
          exact List.mem_append_left _ List.mem_cons_self
        exact absurd (hcausal.le_inFlight hq hbarrier htime hmem htype) (not_le.mpr hpast)
    | finished htype hpermitted =>
        rw [hagree.permitted_of_end hroles hring htype] at hpermitted
        cases hpermitted
  · cases hreturn with
    | round hneeds hround => exact ⟨rfl, rfl, hsite, hneeds, hround⟩
    | finished hfinished hpermitted =>
        rw [(hagree.finished hroles hfinished).1] at hpermitted
        cases hpermitted

theorem party_frame : HandshakeFrame fun n n' : Node => n'.checkpointParty = n.checkpointParty where
  trans h h' := h'.trans h
  send n _ hmsg hdrain := (plain_frame.send n hmsg hdrain).party
  flags h := (plain_frame.flags h).party

theorem finishInitiateCheckpoint_proceeds {n n' : Node} (h : finishInitiateCheckpoint n = .ok n') :
    n.checkpointParty.Proceeds n'.checkpointParty := by
  simp only [finishInitiateCheckpoint] at h
  split_ifs at h with hmaster
  · cases h
    rw [setCheckpointValuesForMaster_party]
    exact .arm hmaster
  · cases h
    exact .turn .stay
  · have hsame : n'.checkpointParty = n.checkpointParty := party_frame.sendControl (by decide) h
    rw [hsame]
    exact .turn .stay

theorem pdesEngineDestroy_proceeds {n n' : Node} (hneeds : n.engine.needsToCheckpoint = false)
    (h : pdesEngineDestroy n = .ok n') : n.checkpointParty.Proceeds n'.checkpointParty := by
  rw [(pdesEngineDestroy_party hneeds h).1]
  exact .leave hneeds

/-- The return of a poll that finds the neighbour finished. -/
theorem pollReturn_proceeds_of_finished {n n' : Node} (hfinished : n.engine.pairHasFinished = true)
    (hneeds : n.engine.needsToCheckpoint = false) (h : pollReturn n .waitLoop = .ok n') :
    n.checkpointParty.Proceeds n'.checkpointParty := by
  have hleave : Plain n { n with site := none } := .fields rfl rfl
  rw [pollReturn, if_pos hfinished] at h
  split_ifs at h
  rw [← hleave.party]
  exact pdesEngineDestroy_proceeds hneeds h

/-- A callback that leaves with no request pending is a turn of the party, a late decision, or the
way out. -/
theorem act_proceeds {n n' : Node} {a : Action} (hn : n.InRound) (h : n.act a = .ok n')
    (hexits : n.ExitPath a → n.engine.needsToCheckpoint = false) :
    n.checkpointParty.Proceeds n'.checkpointParty := by
  by_cases hexit : n.ExitPath a
  · have hneeds := hexits hexit
    rcases hexit with rfl | ⟨rfl, hloop, hfinished⟩
    · exact pdesEngineDestroy_proceeds hneeds (callback_ok.mp h).2
    · obtain ⟨site, hsite, hreturn⟩ := act_pollReturn h
      rw [hloop] at hsite
      cases hsite
      exact pollReturn_proceeds_of_finished hfinished hneeds hreturn
  by_cases hcall : a = .canStop
  · subst hcall
    obtain ⟨⟨r, n₁⟩, hcall, hreturn⟩ := bind_eq_ok.mp (callback_ok.mp h).2
    cases hreturn
    have hcalled : ({ n with log := n.log ++ [.canStop] } : Node).checkpointParty =
        n.checkpointParty := by
      simp [Node.checkpointParty, marksIn, sentIn, armedIn, savedIn]
    rw [party_frame.canStop hcalled hcall]
    exact .turn .stay
  by_cases hnotify : a = .notifyNeighboursOfEnd
  · subst hnotify
    rw [party_frame.notifyNeighboursOfEnd (callback_ok.mp h).2]
    exact .turn .stay
  by_cases hinitiate : a = .finishInitiateCheckpoint
  · subst hinitiate
    exact finishInitiateCheckpoint_proceeds (callback_ok.mp h).2
  refine .turn (act_turns hn (fun ha hloop => ?_) ⟨hcall, hnotify, ?_⟩ (absurd · hinitiate) h).turn
  · by_contra hfinished
    exact hexit (Or.inr ⟨ha, hloop, by simpa using hfinished⟩)
  · rintro rfl
    exact hexit (Or.inl rfl)

/-- A message asks a follower to save, or it is a turn of the party or a late decision. -/
theorem processMessage_proceeds {n n' : Node} {msg : Message} (h : processMessage n msg = .ok n') :
    (n.engine.master = false ∧ msg.type = drainStart ∧
      ∃ last, n'.checkpointParty = n.checkpointParty.hear msg.drainRound last) ∨
    n.checkpointParty.Proceeds n'.checkpointParty := by
  obtain ⟨n₁, hcallback, h⟩ := bind_eq_ok.mp h
  have hengine : n₁.engine = n.engine := (wwtReciviedCallback_frame hcallback).1
  have hlogged : Plain n (n.logReceive msg) :=
    ⟨⟨[.processMessage msg], emits_logReceive n msg, by simp [Event.isPlain]⟩, rfl⟩
  have hn₁ := (hlogged.trans (wwtReciviedCallback_plain hcallback)).party
  rcases party_frame.processControl h with ⟨htype, harm⟩ | ⟨_, rfl⟩ | ⟨_, hn'⟩
  · cases hrole : n.engine.master with
    | true =>
        have hparty := (receiveDrainStart_plain (by rw [hengine, hrole]) harm).party
        rw [hparty, hn₁]
        exact Or.inr (.turn .stay)
    | false =>
        obtain ⟨last, hparty, _⟩ := receiveDrainStart_party (by rw [hengine, hrole]) harm
        exact Or.inl ⟨rfl, htype, last, by rw [hparty, hn₁]⟩
  · right
    simp only [receiveCheckpointInitStep]
    split_ifs with harm
    · rw [setCheckpointValuesForMaster_party, ← hn₁]
      exact .arm harm.1
    · rw [← hn₁]
      exact .turn .stay
  · rw [hn', hn₁]
    exact Or.inr (.turn .stay)

/-! ### The round of a request -/

/-- The master `i` saves in its round, and its follower in no other one. -/
structure Pledging (i : Side) (s : System) : Prop where
  pledged : Pledged (s i).checkpointParty
  bound : Bound (s i).checkpointParty (s i.peer).checkpointParty

theorem pledging_created (cfg : Config) (i : Side) : Pledging i cfg.created where
  pledged := ⟨nofun, fun _ hmem => absurd hmem List.not_mem_nil⟩
  bound := ⟨nofun, nofun⟩

section

variable {i : Side} {s : System} (h : Pledging i s)
  (hroles : ∀ j, (s j).checkpointParty.leader = decide (j = i))
include h

theorem Pledging.congr {s' : System}
    (hsame : ∀ j, (s' j).checkpointParty = (s j).checkpointParty) : Pledging i s' where
  pledged := hsame i ▸ h.pledged
  bound := by
    rw [hsame i, hsame i.peer]
    exact h.bound

include hroles

theorem Pledging.proceeds {j : Side} {s' : System}
    (hstays : (s j).exitCalled = false) (hproceeds : (s j).checkpointParty.Proceeds (s' j).checkpointParty)
    (hpeer : (s' j.peer).checkpointParty = (s j.peer).checkpointParty) : Pledging i s' := by
  rcases Side.eq_or_eq_peer i j with rfl | rfl
  · have hleader : (s j).checkpointParty.leader = true := (hroles j).trans (decide_eq_true rfl)
    refine ⟨(h.pledged.proceeds hleader hstays hproceeds).1, ?_⟩
    rw [hpeer]
    exact h.bound.leader h.pledged hleader hstays hproceeds
  · rw [Side.peer_peer] at hpeer
    have hfollower : (s i.peer).checkpointParty.leader = false :=
      (hroles i.peer).trans (decide_eq_false (Side.peer_ne i))
    refine ⟨hpeer ▸ h.pledged, ?_⟩
    rw [hpeer]
    exact h.bound.follower hfollower hproceeds

/-- The follower hears the master's request. -/
theorem Pledging.receive {j : Side} {msg : Message} {rest : List Message} {n' : Node}
    (hbarrier : InBarrier s) (hstays : (s j).exitCalled = false)
    (hring : (s j.peer).ring = msg :: rest) (hprocess : processMessage (s j) msg = .ok n') :
    Pledging i
      (Function.update (Function.update s j.peer { s j.peer with ring := rest }) j n') := by
  have hself : (Function.update (Function.update s j.peer { s j.peer with ring := rest }) j n') j = n' :=
    Function.update_self ..
  have hpeer : (Function.update (Function.update s j.peer { s j.peer with ring := rest }) j n') j.peer =
      { s j.peer with ring := rest } := by
    rw [Function.update_of_ne (Side.peer_ne j), Function.update_self]
  rcases processMessage_proceeds hprocess with ⟨hrole, htype, last, hparty⟩ | hproceeds
  · rcases Side.eq_or_eq_peer i j with rfl | rfl
    · have hleader : (s j).engine.master = true := (hroles j).trans (decide_eq_true rfl)
      rw [hrole] at hleader
      cases hleader
    · rw [Side.peer_peer] at hpeer hring
      have hmem : .ask msg.drainRound ∈ (s i).checkpointParty.marks := by
        have hsent : msg ∈ sentIn (s i).log := by
          rw [← hbarrier.conserved i, Node.inFlight, hring]
          exact List.mem_append_right _ (List.mem_append_left _ List.mem_cons_self)
        exact List.mem_filterMap.mpr ⟨msg, hsent, mark_of_drain htype⟩
      have hsame := congrArg Node.checkpointParty hpeer
      refine ⟨?_, ?_⟩
      · rw [Side.peer_peer, hsame]
        exact h.pledged
      · rw [hself, hparty, Side.peer_peer, hsame]
        exact h.pledged.hear hmem last
  · refine h.proceeds hroles (j := j) hstays ?_ ?_
    · rw [hself]
      exact hproceeds
    · rw [hpeer]
      rfl

theorem Pledging.step {capacity : Option Nat} {s' : System} {ia : Side × Action}
    (hbarrier : InBarrier s) (hstep : step capacity s ia = .ok s') (hguard : Disciplined s ia) :
    Pledging i s' := by
  cases stepsTo_of_step hstep with
  | @commSend j msg rest =>
      refine h.congr fun k => ?_
      rcases Side.eq_or_eq_peer j k with rfl | rfl
      · rw [Function.update_self]
        rfl
      · rw [Function.update_of_ne (Side.peer_ne j)]
  | receive hidle hring hprocess => exact h.receive hroles hbarrier hidle.1 hring hprocess
  | @callback j a n' hidle _ hact =>
      refine h.proceeds hroles (j := j) hidle.1 ?_ ?_
      · rw [Function.update_self]
        exact act_proceeds (hbarrier.inRound j) hact hguard.exits
      · rw [Function.update_of_ne (Side.peer_ne j)]

end

theorem OneMaster.exists_master {master : Side → Bool} (hroles : OneMaster master) :
    ∃ i, ∀ j, master j = decide (j = i) := by
  cases hleft : master .left with
  | true =>
      refine ⟨.left, Side.forall_of_self_peer .left hleft ?_⟩
      rw [hroles, hleft]
      rfl
  | false =>
      refine ⟨.right, Side.forall_of_self_peer .left hleft ?_⟩
      rw [hroles, hleft]
      rfl

/-- No node ends a round past the one in which it was to save. -/
theorem Pledging.round_le {i : Side} {s : System} (h : Pledging i s) (hbarrier : InBarrier s) {j : Side}
    (hneeds : (s j).engine.needsToCheckpoint = true)
    (hseen : (s j).wwt.currentQuantumRound < (s j).seen) :
    (s j).wwt.currentQuantumRound ≤ (s j).engine.checkpointQuantumRound := by
  rcases Side.eq_or_eq_peer i j with rfl | rfl
  · exact (h.pledged.target hneeds).1.ge
  · have htarget : (s i.peer).engine.checkpointQuantumRound = (s i).wwt.currentQuantumRound :=
      h.bound.target hneeds
    have hsent : (s i.peer).seen ≤ (barrier s i).sent := by
      have hle := hbarrier.ordered.seen_le i.peer
      rwa [Side.peer_peer] at hle
    have hround : (barrier s i).sent ≤ (s i).wwt.currentQuantumRound + 1 :=
      Nat.add_le_add_left (Bool.toNat_le _) _
    omega

/-- The assert fails only in a node whose wait is over. -/
theorem PassedRound.waited {capacity : Option Nat} {s : System} {ia : Side × Action} {f : Fault}
    (hpassed : PassedRound s ia) (hfault : step capacity s ia = .error (.fault f)) :
    (s ia.1).waiting = false := by
  obtain ⟨i, a⟩ := ia
  obtain ⟨rfl, hsite, _⟩ := hpassed
  rw [step_callback (by decide) (by decide)] at hfault
  split at hfault
  swap
  · cases hfault
  have hact : (s i).act .pollReturn = .error (.fault f) := by
    rcases bind_eq_error.mp hfault with h | ⟨n, _, h⟩
    · exact h
    · cases h
  rw [Node.act, hsite] at hact
  have hreturn := (callback_fault.mp hact).2
  by_contra hwaiting
  rw [pollReturn, if_pos (by simpa using hwaiting)] at hreturn
  cases hreturn

/-- With synchronised quanta no step of a run under QEMU's promises ends the process, where the packets
fit and come after both set-ups, rounds and boundary times do not overflow, bottom halves come before
`sync_check_timer`, and nobody leaves with a request for a checkpoint pending. -/
theorem faultless {cfg : Config} {capacity : Option Nat} (hsync : cfg.sync = true)
    (hq : 0 < cfg.latencyns) (hroles : OneMaster cfg.master) {s : System}
    (hs : cfg.Reaches capacity OrderlyStep s) :
    ∀ ia, ia.2.PacketFits → ∀ f, step capacity s ia ≠ .error (.fault f) := by
  obtain ⟨i, hmaster⟩ := hroles.exists_master
  have hpledging : Pledging i s := by
    refine hs.invariant (fun _ h => h ▸ pledging_created cfg i) ?_
    intro s ia s' hs h hstep hguard
    have hleader (j : Side) : (s j).checkpointParty.leader = decide (j = i) :=
      ((reaches_inAgreement hroles hs).master j).trans (hmaster j)
    exact h.step hleader (reaches_inBarrier hsync (fun s ia s' h => h.1.2.1) hs) hstep hguard.2.2
  have hbarrier := reaches_inBarrier hsync (fun s ia s' h => h.1.2.1) hs
  rintro ⟨j, a⟩ hfits f hfault
  obtain ⟨rfl, hpassed⟩ := reaches_passedRound hsync hq hroles (fun _ _ _ h => h) hs hfits hfault
  have hseen : (s j).wwt.currentQuantumRound < (s j).seen := by
    rw [← not_le, ← waiting_iff (hbarrier.inRound j), hpassed.waited hfault]
    exact Bool.false_ne_true
  obtain ⟨_, _, hneeds, hround⟩ := hpassed
  exact absurd (hpledging.round_le hbarrier hneeds hseen) (not_le.mpr hround)

/-- The master decides to save in a round that its follower has left already. -/
def passedRun : List (Side × Action) :=
  [(.left, .setup), (.right, .setup), (.left, .wwtSend [7]), (.left, .commSend),
    (.left, .finishInitiateCheckpoint), (.left, .quantaSync), (.left, .pollReturn), (.left, .commSend),
    (.right, .quantaSync), (.right, .pollMessage), (.right, .pollMessage), (.right, .pollReturn),
    (.right, .commSend), (.right, .pauseBh), (.right, .syncCheck), (.right, .pollReturn),
    (.right, .finishInitiateCheckpoint), (.right, .commSend), (.left, .pauseBh), (.left, .syncCheck),
    (.left, .pollMessage), (.left, .pollMessage), (.left, .pollReturn), (.left, .commSend),
    (.right, .advance 1005), (.right, .deliver 0), (.right, .quantaSync), (.right, .pollMessage),
    (.right, .pollReturn), (.right, .commSend), (.right, .commSend), (.right, .pauseBh),
    (.right, .syncCheck)]

set_option maxRecDepth 100000 in
theorem faultless_passedRun :
    ∃ s : System, (s .right).engine.needsToCheckpoint = true ∧
      (s .right).engine.checkpointQuantumRound < (s .right).wwt.currentQuantumRound ∧
      ∀ f, step (some ringCapacity) s (.right, .pollReturn) ≠ .error (.fault f) := by
  have hrun : (run (step (some ringCapacity)) OrderlyStep twoNodes.created passedRun).map
      (fun s => ((s .right).engine.needsToCheckpoint, (s .right).engine.checkpointQuantumRound,
        (s .right).wwt.currentQuantumRound)) = some (true, 0, 1) := by decide
  obtain ⟨s, hs, hfacts⟩ := Option.map_eq_some_iff.mp hrun
  simp only [Prod.mk.injEq] at hfacts
  obtain ⟨hneeds, htarget, hround⟩ := hfacts
  refine ⟨s, hneeds, by rw [htarget, hround]; decide, ?_⟩
  exact faultless rfl (by decide) (fun i => by cases i <;> rfl) (Config.Reaches.of_run hs) _ trivial

end LeanPdes
