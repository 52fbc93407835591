import LeanPdes.CheckpointParty
import LeanPdes.ExitAnnounced

/-! In which round two nodes save a checkpoint. The master asks the follower in the poll or at the end
of `quanta_sync`, before its SYNC, so the follower hears of the request before it hears that the round
is over. A request that the master gets in its own wait loop comes too late for that. -/

namespace LeanPdes

open Words TwoParty Reach CheckpointProtocol

inductive InitiateAction
  | act (a : Action)
  /-- `finish_initiate_checkpoint` is called between two steps, in a poll too. -/
  | finishInitiateCheckpoint
  deriving DecidableEq

/-- A step of the two nodes, where `finish_initiate_checkpoint` may be called at any time. -/
def initiateStep (capacity : Option Nat) (s : System) :
    Side × InitiateAction → Except Halt System
  | (i, .act a) => step capacity s (i, a)
  | (i, .finishInitiateCheckpoint) =>
      if (s i).Idle then do
        let n ← (finishInitiateCheckpoint (s i)).mapError .fault
        return Function.update s i n
      else .error .disabled

abbrev Config.Initiates (cfg : Config) (capacity : Option Nat)
    (guard : System → Side × InitiateAction → System → Prop) : System → Prop :=
  Reachable (initiateStep capacity) guard (· = cfg.created)

/-- The calls of the exit handshake. -/
def InitiateAction.ofExit : InitiateAction → Bool
  | .act .canStop => true
  | .act .notifyNeighboursOfEnd => true
  | .act .engineDestroy => true
  | _ => false

/-- A step that makes no call of the exit handshake, in rounds below `2 ^ 32`. -/
def WithoutExit (_ : System) (ia : Side × InitiateAction) (s' : System) : Prop :=
  ia.2.ofExit = false ∧ RoundsFit s'

instance (s : System) (ia : Side × InitiateAction) (s' : System) : Decidable (WithoutExit s ia s') :=
  inferInstanceAs (Decidable (_ ∧ _))

/-- Whether the node runs `set_checkpoint_values_for_master`. -/
def Node.setsCheckpoint (n : Node) (incoming : List Message) : InitiateAction → Bool
  | .finishInitiateCheckpoint => n.engine.master && 1 ≤ n.engine.initFlag
  | .act .finishInitiateCheckpoint => n.engine.master && 1 ≤ n.engine.initFlag
  | .act .pollMessage =>
      incoming.head?.any (fun msg => msg.type = checkpointInitStep) && n.engine.master &&
        int32 (n.engine.initFlag + 1) = 1 && n.engine.masterInit
  | _ => false

/-- The master decides to save only while it has not sent the SYNC of its round. -/
def DecidesEarly (s : System) (ia : Side × InitiateAction) (_ : System) : Prop :=
  (s ia.1).setsCheckpoint (s ia.1.peer).ring ia.2 = true → (s ia.1).arrived = false

instance (s : System) (ia : Side × InitiateAction) (s' : System) : Decidable (DecidesEarly s ia s') :=
  inferInstanceAs (Decidable (_ → _))

/-- Each node saves a checkpoint in the round that it was set for, and does not leave that round
before. -/
structure CheckpointsAgree (s : System) : Prop where
  saved : ∀ i name checkpointRound currentRound,
    .saveSnapshot name checkpointRound currentRound ∈ (s i).log →
    currentRound = checkpointRound ∧ ∃ j, .setCheckpointValues checkpointRound ∈ (s j).log
  before : ∀ i j c, .setCheckpointValues c ∈ (s j).log → c < (s i).wwt.currentQuantumRound →
    ∃ name, .saveSnapshot name c c ∈ (s i).log

theorem mem_armedIn {log : List Event} {c : Nat} :
    c ∈ armedIn log ↔ .setCheckpointValues c ∈ log := by
  rw [armedIn, List.mem_filterMap]
  constructor
  · rintro ⟨e, hmem, he⟩
    cases e <;> cases he
    exact hmem
  · exact fun hmem => ⟨_, hmem, rfl⟩

theorem mem_savedIn {log : List Event} {c r : Nat} :
    (c, r) ∈ savedIn log ↔ ∃ name, .saveSnapshot name c r ∈ log := by
  rw [savedIn, List.mem_filterMap]
  constructor
  · rintro ⟨e, hmem, he⟩
    cases e <;> cases he
    exact ⟨_, hmem⟩
  · rintro ⟨name, hmem⟩
    exact ⟨_, hmem, rfl⟩

/-- What the node has heard from the other one. -/
def Node.heard (n : Node) : List Mark := marksIn (processedIn n.log)

theorem Channel.heard_sent {n m : Node} (h : Channel n m) :
    m.heard <+: n.checkpointParty.marks := by
  rw [Node.heard, Node.checkpointParty, ← h, marksIn_append]
  exact List.prefix_append ..

/-- A node leaves a round only after it has heard that the other one's is over. -/
theorem InBarrier.heard_round {s : System} (hs : InBarrier s) {i : Side} {r : Nat}
    (hnot : .sync r ∉ (s i).heard) : (s i).wwt.currentQuantumRound ≤ r := by
  have hchannel := hs.conserved i.peer
  rw [Side.peer_peer] at hchannel
  by_contra hlt
  apply hnot
  rw [Node.heard, sync_mem_marksIn, hchannel.processed_rounds (hs.inRound i.peer), List.mem_range]
  have hround : (s i).wwt.currentQuantumRound ≤ (s i).seen := hs.ordered.round_le i
  omega

/-- An early decision is made before the party has said that its round is over. -/
theorem DecidesEarly.unsaid {s s' : System} {i : Side} {a : InitiateAction}
    (h : DecidesEarly s (i, a) s') (hn : (s i).InRound)
    (hsets : (s i).setsCheckpoint (s i.peer).ring a = true) :
    .sync (s i).wwt.currentQuantumRound ∉ (s i).checkpointParty.marks := by
  rw [said_iff hn, h hsets]
  exact Bool.false_ne_true

/-- A step is a step of the barrier and of the exit handshake, also where `finish_initiate_checkpoint`
is called in a poll. -/
theorem initiateStep_next {capacity : Option Nat} {s s' : System} {i : Side} {a : InitiateAction}
    (hsync : ∀ i, (s i).wwt.shouldSync = true) (h : initiateStep capacity s (i, a) = .ok s') :
    (∃ a, Next s (i, a) s') ∧ ∃ call, Follows s s' i call := by
  cases a with
  | act a =>
      obtain ⟨call, hexits⟩ := step_exits h
      exact ⟨⟨a, step_next hsync h⟩, call, hexits.follows⟩
  | finishInitiateCheckpoint =>
      rw [initiateStep] at h
      split_ifs at h with hidle
      obtain ⟨n', hcall, h⟩ := bind_eq_ok.mp h
      cases h
      have hcall' := mapError_eq_ok.mp hcall
      have hmove : Move (s i) .finishInitiateCheckpoint n' :=
        .control (finishInitiateCheckpoint_control hcall')
      exact ⟨⟨.finishInitiateCheckpoint, .move hidle (by simp) hmove⟩,
        .idle, .call rfl (finishInitiateCheckpoint_idle hcall') rfl rfl rfl⟩

/-- What holds of the master `i` and its follower where nobody calls `can_stop` and the master decides
early. -/
structure Agreeing (cfg : Config) (i : Side) (s : System) : Prop where
  barrier : InBarrier s
  exits : InAgreement cfg.master s
  calm : ∀ j, Event.canStop ∉ (s j).log
  leads : Leads (s i).checkpointParty
  obeys : Obeys (s i.peer).checkpointParty (s i.peer).heard
  unarmed : armedIn (s i.peer).log = []

theorem agreeing_created {cfg : Config} (hsync : cfg.sync = true) (i : Side) :
    Agreeing cfg i cfg.created where
  barrier := inBarrier_created hsync
  exits := inAgreement_created cfg
  calm _ := List.not_mem_nil
  leads := .running rfl rfl (fun _ => List.not_mem_nil) rfl rfl
  obeys := .running rfl (fun _ => List.not_mem_nil) rfl rfl
  unarmed := rfl

section

variable {cfg : Config} {i : Side} (hroles : OneMaster cfg.master) (hmaster : cfg.master i = true)
  {s s' : System} (h : Agreeing cfg i s)
include hroles h

theorem Agreeing.unfinished (j : Side) : (s j).engine.pairHasFinished = false := by
  rw [← Bool.not_eq_true]
  intro hfinished
  exact h.calm j ((h.exits.finished hroles hfinished).2 j).2

include hmaster

theorem Agreeing.roles : (s i).engine.master = true ∧ (s i.peer).engine.master = false := by
  have hpeer := h.exits.master i.peer
  rw [hroles i, hmaster] at hpeer
  exact ⟨(h.exits.master i).trans hmaster, hpeer⟩

/-- The master takes a turn. -/
theorem Agreeing.leader (hbarrier : InBarrier s') (hexits : InAgreement cfg.master s')
    (hstays : (s i).exitCalled = false) (hturns : Turns (s i) (s' i))
    (hparty : (s' i.peer).checkpointParty = (s i.peer).checkpointParty)
    (hlog : (s' i.peer).log = (s i.peer).log) : Agreeing cfg i s' where
  barrier := hbarrier
  exits := hexits
  calm := Side.forall_of_self_peer i (fun hstop => h.calm i (hturns.stop hstop))
    (by rw [hlog]; exact h.calm i.peer)
  leads := h.leads.turn (h.roles hroles hmaster).1 hstays hturns.turn
  obeys := by
    rw [hparty, Node.heard, hlog]
    exact h.obeys
  unarmed := by
    rw [hlog]
    exact h.unarmed

omit hroles hmaster in
/-- The follower takes a turn or hears from the master. -/
theorem Agreeing.follower (hbarrier : InBarrier s') (hexits : InAgreement cfg.master s')
    (hparty : (s' i).checkpointParty = (s i).checkpointParty) (hlog : (s' i).log = (s i).log)
    (hobeys : Obeys (s' i.peer).checkpointParty (s' i.peer).heard)
    (hstop : Event.canStop ∈ (s' i.peer).log → Event.canStop ∈ (s i.peer).log)
    (harmed : (s' i.peer).checkpointParty.armed = (s i.peer).checkpointParty.armed) :
    Agreeing cfg i s' where
  barrier := hbarrier
  exits := hexits
  calm := Side.forall_of_self_peer i (by rw [hlog]; exact h.calm i) (fun h' => h.calm i.peer (hstop h'))
  leads := by
    rw [hparty]
    exact h.leads
  obeys := hobeys
  unarmed := harmed.trans h.unarmed

/-- A callback of either node. -/
theorem Agreeing.turn {j : Side} {n' : Node} (hbarrier : InBarrier (Function.update s j n'))
    (hexits : InAgreement cfg.master (Function.update s j n')) (hstays : (s j).exitCalled = false)
    (hturns : Turns (s j) n') (hheard : processedIn n'.log = processedIn (s j).log) :
    Agreeing cfg i (Function.update s j n') := by
  rcases Side.eq_or_eq_peer i j with rfl | rfl
  · refine h.leader hroles hmaster hbarrier hexits hstays ?_ ?_ ?_
    · rwa [Function.update_self]
    · rw [Function.update_of_ne (Side.peer_ne j)]
    · rw [Function.update_of_ne (Side.peer_ne j)]
  · have hfollower := (h.roles hroles hmaster).2
    refine h.follower hbarrier hexits ?_ ?_ ?_ ?_ ?_
    · rw [Function.update_of_ne (Side.ne_peer i)]
    · rw [Function.update_of_ne (Side.ne_peer i)]
    · rw [Function.update_self, Node.heard, hheard]
      exact h.obeys.turn hfollower hturns.turn
    · rw [Function.update_self]
      exact hturns.stop
    · rw [Function.update_self]
      exact hturns.turn.armed_of_follower hfollower

/-- A message that either node processes. -/
theorem Agreeing.receive {j : Side} {msg : Message} {rest : List Message} {n' : Node}
    (hs' : s' = Function.update (Function.update s j.peer { s j.peer with ring := rest }) j n')
    (hbarrier : InBarrier s') (hexits : InAgreement cfg.master s')
    (hstays : (s j).exitCalled = false) (hprocess : processMessage (s j) msg = .ok n')
    (hhears : Hears (s j) msg n') : Agreeing cfg i s' := by
  have hself : s' j = n' := by rw [hs', Function.update_self]
  have hpeer : s' j.peer = { s j.peer with ring := rest } := by
    rw [hs', Function.update_of_ne (Side.peer_ne j), Function.update_self]
  have hheard : n'.heard = (s j).heard ++ msg.mark.toList := by
    obtain ⟨evs, he, hevs⟩ := (processMessage_receive (h.barrier.inRound j).sync hprocess).emits
    have hone : processedIn (.processMessage msg :: evs) = [msg] :=
      congrArg (msg :: ·) (processedIn_control hevs)
    have hlast : marksIn [msg] = msg.mark.toList := by
      cases hmark : msg.mark <;> simp [marksIn, hmark]
    rw [Node.heard, he.log, processedIn_append, hone, marksIn_append, hlast, Node.heard]
  obtain ⟨hleader, hfollower⟩ := h.roles hroles hmaster
  rcases Side.eq_or_eq_peer i j with rfl | rfl
  · cases hhears with
    | asked hnot =>
        rw [hleader] at hnot
        cases hnot
    | turns _ hturns =>
        refine h.leader hroles hmaster hbarrier hexits hstays (hself ▸ hturns) ?_ ?_
        · rw [hpeer]
          rfl
        · rw [hpeer]
  · rw [Side.peer_peer] at hpeer
    have hparty : (s' i).checkpointParty = (s i).checkpointParty := by
      rw [hpeer]
      rfl
    have hlog : (s' i).log = (s i).log := by rw [hpeer]
    have hprefix : n'.heard <+: (s i).checkpointParty.marks := by
      have hchannel := (hbarrier.conserved i).heard_sent
      rwa [hself, hparty] at hchannel
    rw [hheard] at hprefix
    cases hhears with
    | asked _ htype last hasked hstop =>
        have hmark : msg.mark.toList = [.ask msg.drainRound] := by rw [mark_of_drain htype]; rfl
        rw [hmark] at hheard hprefix
        refine h.follower hbarrier hexits hparty hlog ?_ (hself ▸ hstop) ?_
        · rw [hself, hasked, hheard]
          exact h.obeys.hear h.leads hprefix last fun r => h.barrier.heard_round
        · rw [hself, hasked]
          rfl
    | turns hnot hturns =>
        have htype : msg.type ≠ drainStart := hnot.resolve_left (by rw [hfollower]; exact Bool.false_ne_true)
        have hobeys := h.obeys.turn hfollower hturns.turn
        refine h.follower hbarrier hexits hparty hlog ?_ (hself ▸ hturns.stop) ?_
        · rw [hself, hheard]
          by_cases hsync : msg.type = msgTypeSync
          · rw [mark_of_sync hsync]
            exact hobeys.hearSync msg.syncRound
          · rw [mark_of_other htype hsync, Option.toList_none, List.append_nil]
            exact hobeys
        · rw [hself]
          exact hturns.turn.armed_of_follower hfollower

theorem Agreeing.step {capacity : Option Nat} {ia : Side × InitiateAction}
    (hstep : initiateStep capacity s ia = .ok s') (hguard : WithoutExit s ia s')
    (hearly : DecidesEarly s ia s') : Agreeing cfg i s' := by
  obtain ⟨j, a⟩ := ia
  have hinRound := h.barrier.inRound j
  obtain ⟨⟨a', hnext⟩, call, hfollows⟩ := initiateStep_next (fun k => (h.barrier.inRound k).sync) hstep
  have hbarrier := hnext.inBarrier h.barrier hguard.2
  have hexits := h.exits.follows hroles hfollows
  cases a with
  | finishInitiateCheckpoint =>
      rw [initiateStep] at hstep
      split_ifs at hstep with hidle
      obtain ⟨n', hcall, hstep⟩ := bind_eq_ok.mp hstep
      cases hstep
      have hcall' := mapError_eq_ok.mp hcall
      obtain ⟨evs, he, hevs⟩ := (finishInitiateCheckpoint_control hcall').emits
      refine h.turn hroles hmaster hbarrier hexits hidle.1 ?_ ?_
      · refine finishInitiateCheckpoint_turns (fun hrole hinit => ?_) hcall'
        exact hearly.unsaid hinRound (by simp [Node.setsCheckpoint, hrole, hinit])
      · rw [he.log, processedIn_append, processedIn_control hevs, List.append_nil]
  | act a =>
      cases stepsTo_of_step hstep with
      | @commSend _ msg rest hsending _ =>
          have hsame (k : Side) : (Function.update s j { s j with
              sending := rest, ring := (s j).ring ++ [msg] } k).checkpointParty =
              (s k).checkpointParty ∧ (Function.update s j { s j with
              sending := rest, ring := (s j).ring ++ [msg] } k).log = (s k).log := by
            rcases Side.eq_or_eq_peer j k with rfl | rfl
            · rw [Function.update_self]
              exact ⟨rfl, rfl⟩
            · rw [Function.update_of_ne (Side.peer_ne j)]
              exact ⟨rfl, rfl⟩
          refine h.follower hbarrier hexits (hsame i).1 (hsame i).2 ?_ ?_ ?_
          · rw [(hsame i.peer).1, Node.heard, (hsame i.peer).2]
            exact h.obeys
          · rw [(hsame i.peer).2]
            exact id
          · rw [(hsame i.peer).1]
      | @receive _ msg rest n' hidle hring hprocess =>
          refine h.receive hroles hmaster rfl hbarrier hexits hidle.1 hprocess ?_
          refine processMessage_hears (fun htype hrole hflag hready => ?_) hprocess
          exact hearly.unsaid hinRound (by simp [Node.setsCheckpoint, hring, htype, hrole, hflag, hready])
      | @callback _ _ n' hidle _ hact =>
          have hcall : a ≠ .canStop ∧ a ≠ .notifyNeighboursOfEnd ∧ a ≠ .engineDestroy := by
            have hno := hguard.1
            refine ⟨?_, ?_, ?_⟩ <;> rintro rfl <;> cases hno
          obtain ⟨evs, he, hevs⟩ := (act_move hinRound.sync hact).emits
          refine h.turn hroles hmaster hbarrier hexits hidle.1 ?_ ?_
          · refine act_turns hinRound (fun _ _ => h.unfinished hroles j) hcall
              (fun ha hrole hinit => ?_) hact
            exact hearly.unsaid hinRound (by simp [Node.setsCheckpoint, ha, hrole, hinit])
          · rw [he.log, processedIn_append, hevs, List.append_nil]

end

/-! ### Agreement -/

/-- The invariant is enough for the agreement, and for the assert of `sync_checkpoint_check`. -/
theorem Agreeing.agree {cfg : Config} {i : Side} {s : System} (h : Agreeing cfg i s) :
    CheckpointsAgree s ∧ ∀ j, (s j).engine.needsToCheckpoint = true →
      (s j).wwt.currentQuantumRound ≤ (s j).engine.checkpointQuantumRound := by
  have hchannel := h.barrier.conserved i
  have hagree := h.leads.agree h.obeys hchannel.heard_sent fun r => h.barrier.heard_round
  have hset {j : Side} {c : Nat} (hmem : .setCheckpointValues c ∈ (s j).log) :
      c ∈ (s i).checkpointParty.armed := by
    rcases Side.eq_or_eq_peer i j with rfl | rfl
    · exact mem_armedIn.mpr hmem
    · rw [← mem_armedIn, h.unarmed] at hmem
      exact absurd hmem List.not_mem_nil
  refine ⟨⟨fun j name c r hmem => ?_, fun j k c hmem hlt => ?_⟩, Side.forall_of_self_peer i ?_ ?_⟩
  · have hsaved : (c, r) ∈ (s i).checkpointParty.saved ++ (s i.peer).checkpointParty.saved := by
      rw [List.mem_append]
      rcases Side.eq_or_eq_peer i j with rfl | rfl
      · exact Or.inl (mem_savedIn.mpr ⟨name, hmem⟩)
      · exact Or.inr (mem_savedIn.mpr ⟨name, hmem⟩)
    obtain ⟨c', harmed, heq⟩ := hagree.saved _ hsaved
    cases heq
    exact ⟨rfl, i, mem_armedIn.mp harmed⟩
  · obtain ⟨hleader, hfollower⟩ := hagree.passed c (hset hmem)
    rcases Side.eq_or_eq_peer i j with rfl | rfl
    · exact absurd hlt hleader
    · exact mem_savedIn.mp (hfollower hlt)
  · exact hagree.target.1
  · exact hagree.target.2

/-- Where the master decides to save only before it sends the SYNC of its round, both nodes save in
that round, and the assert of `sync_checkpoint_check` does not fail. -/
theorem checkpoint_agreement {cfg : Config} {capacity : Option Nat} (hsync : cfg.sync = true)
    (hroles : OneMaster cfg.master) {s : System}
    (hs : cfg.Initiates capacity
      (fun s ia s' => WithoutExit s ia s' ∧ DecidesEarly s ia s') s) :
    CheckpointsAgree s ∧
      ∀ ia, initiateStep capacity s ia ≠ .error (.fault .checkpointRoundPassed) := by
  obtain ⟨i, hmaster⟩ : ∃ i, cfg.master i = true := by
    cases hleft : cfg.master .left with
    | true => exact ⟨.left, hleft⟩
    | false => exact ⟨.right, by rw [← Bool.not_false, ← hleft]; exact hroles .left⟩
  have hagreeing : Agreeing cfg i s := by
    refine hs.invariant (fun _ h => h ▸ agreeing_created hsync i) ?_
    intro s ia s' _ h hstep hguard
    exact h.step hroles hmaster hstep hguard.1 hguard.2
  obtain ⟨hagree, htarget⟩ := hagreeing.agree
  refine ⟨hagree, fun ⟨j, a⟩ hfault => ?_⟩
  have hprotocol : Fault.checkpointRoundPassed ∈ protocolFaults := by decide
  cases a with
  | act a =>
      rcases step_fault (hagreeing.barrier.inRound j).sync hfault hprotocol with
        ⟨_, msg, rest, _, hmessage⟩ | ⟨_, site, _, hreturn⟩
      · cases hmessage
      · cases hreturn with
        | round hneeds hround => exact absurd (htarget j hneeds) (not_le.mpr hround)
  | finishInitiateCheckpoint =>
      rw [initiateStep] at hfault
      split_ifs at hfault
      · rcases bind_eq_error.mp hfault with hfault | ⟨n', _, hfault⟩
        · exact (finishInitiateCheckpoint_calls _).quiet _ (mapError_fault.mp hfault) hprotocol
        · cases hfault
      · cases hfault

/-- The follower asks for the checkpoint, and the master hears of it in the poll of `quanta_sync`. -/
def earlyRun : List (Side × InitiateAction) :=
  [(.left, .act .setup), (.right, .act .setup), (.left, .finishInitiateCheckpoint),
    (.right, .finishInitiateCheckpoint), (.right, .act .commSend), (.left, .act .quantaSync),
    (.left, .act .pollMessage), (.left, .act .pollReturn), (.left, .act .commSend),
    (.left, .act .commSend), (.right, .act .quantaSync), (.right, .act .pollMessage),
    (.right, .act .pollMessage), (.right, .act .pollReturn), (.right, .act .commSend),
    (.right, .act .commSend), (.right, .act .syncCheck), (.right, .act .pollReturn),
    (.right, .act .checkpointBh), (.right, .act .syncCheck), (.right, .act .pollReturn),
    (.left, .act .syncCheck), (.left, .act .pollMessage), (.left, .act .pollMessage),
    (.left, .act .pollReturn), (.left, .act .checkpointBh)]

set_option maxRecDepth 100000 in
theorem checkpoint_agreement_earlyRun :
    ∃ s, armedIn (s .left).log = [0] ∧ savedIn (s .left).log = [(0, 0)] ∧
      savedIn (s .right).log = [(0, 0)] ∧ (s .right).wwt.currentQuantumRound = 1 ∧
      CheckpointsAgree s ∧ ∀ ia, initiateStep (some ringCapacity) s ia ≠
        .error (.fault .checkpointRoundPassed) := by
  have hrun : (run (initiateStep (some ringCapacity))
      (fun s ia s' => WithoutExit s ia s' ∧ DecidesEarly s ia s') twoNodes.created earlyRun).map
      (fun s => (armedIn (s .left).log, savedIn (s .left).log, savedIn (s .right).log,
        (s .right).wwt.currentQuantumRound)) = some ([0], [(0, 0)], [(0, 0)], 1) := by decide
  obtain ⟨s, hs, hlogs⟩ := Option.map_eq_some_iff.mp hrun
  simp only [Prod.mk.injEq] at hlogs
  have hstart : twoNodes.Initiates (some ringCapacity)
      (fun s ia s' => WithoutExit s ia s' ∧ DecidesEarly s ia s') twoNodes.created := .start rfl
  exact ⟨s, hlogs.1, hlogs.2.1, hlogs.2.2.1, hlogs.2.2.2,
    checkpoint_agreement rfl (by decide) (hstart.run hs)⟩

/-- The follower asks for the checkpoint, and the master hears of it in its wait loop. -/
def lateRun : List (Side × InitiateAction) :=
  [(.left, .act .setup), (.right, .act .setup), (.left, .finishInitiateCheckpoint),
    (.left, .act .quantaSync), (.left, .act .pollReturn), (.left, .act .commSend),
    (.right, .finishInitiateCheckpoint), (.right, .act .commSend), (.right, .act .quantaSync),
    (.right, .act .pollMessage), (.right, .act .pollReturn), (.right, .act .commSend),
    (.right, .act .syncCheck), (.right, .act .pollReturn), (.left, .act .syncCheck),
    (.left, .act .pollMessage)]

set_option maxRecDepth 100000 in
/-- The follower has left the round in which the master decides to save. -/
theorem not_checkpointsAgree_of_lateRun :
    ∃ s, twoNodes.Initiates (some ringCapacity) WithoutExit s ∧ ¬CheckpointsAgree s := by
  have hrun : (run (initiateStep (some ringCapacity)) WithoutExit twoNodes.created lateRun).map
      (fun s => (armedIn (s .left).log, savedIn (s .right).log,
        (s .right).wwt.currentQuantumRound)) = some ([0], [], 1) := by decide
  obtain ⟨s, hs, hlogs⟩ := Option.map_eq_some_iff.mp hrun
  simp only [Prod.mk.injEq] at hlogs
  obtain ⟨harmed, hsaved, hround⟩ := hlogs
  have hstart : twoNodes.Initiates (some ringCapacity) WithoutExit twoNodes.created := .start rfl
  refine ⟨s, hstart.run hs, fun hagree => ?_⟩
  have hset : .setCheckpointValues 0 ∈ (s .left).log := by
    rw [← mem_armedIn, harmed]
    exact List.mem_singleton.mpr rfl
  obtain ⟨name, hmem⟩ := hagree.before .right .left 0 hset (by rw [hround]; exact Nat.one_pos)
  have hnone := mem_savedIn.mpr ⟨name, hmem⟩
  rw [hsaved] at hnone
  exact absurd hnone List.not_mem_nil

end LeanPdes
