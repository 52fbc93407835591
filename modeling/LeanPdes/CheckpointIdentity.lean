import LeanPdes.CheckpointAgreement
import LeanPdes.NodeContracts

/-! What every run of two nodes keeps, with sync on or off, in any roles and on rings of any size:
each node's messages are what the other one relies on. So no call is made where it must not be, no
access leaves an object, and both nodes save their checkpoints under the one name that QEMU's own
check of the name accepts. -/

namespace LeanPdes

open Words TwoParty Reach Contract

/-- Each node is sound next to the other one. -/
def SoundPair (cfg : Config) (noWrap : Prop) (s : System) : Prop :=
  ∀ i, (s i).Sound cfg.incrementalBase (cfg.master i) (cfg.master i.peer) noWrap

theorem soundPair_created (cfg : Config) (noWrap : Prop) : SoundPair cfg noWrap cfg.created := by
  intro i
  have hclock : (cfg.clock i : Int) ≠ -1 := by omega
  exact ⟨rfl, rfl, hclock, hclock, Nat.two_pow_pos 64, by simp [Config.created, pdesEngineWwtCreate],
    by simp [Config.created, pdesEngineWwtCreate], by simp [Config.created, pdesEngineWwtCreate],
    by simp [Config.created, pdesEngineWwtCreate, Node.inFlight],
    by simp [Config.created, pdesEngineWwtCreate]⟩

section

variable {cfg : Config} {noWrap : Prop} {s : System} {i : Side}

theorem SoundPair.update (hs : SoundPair cfg noWrap s) {n : Node}
    (hn : n.Sound cfg.incrementalBase (cfg.master i) (cfg.master i.peer) noWrap) :
    SoundPair cfg noWrap (Function.update s i n) := by
  intro j
  by_cases hj : j = i
  · subst hj
    rw [Function.update_self]
    exact hn
  · rw [Function.update_of_ne hj]
    exact hs j

/-- A step of either node keeps both sound: what it takes out of the ring is what the other one may
send. -/
theorem SoundPair.step (hs : SoundPair cfg noWrap s) (capacity : Option Nat) {a : Action}
    (ha : a.PacketFits)
    (hcount : noWrap → a = .pollMessage → (s i).engine.initFlag < 2 ^ 31 - 1) :
    Meets Halt.Allowed (SoundPair cfg noWrap) (step capacity s (i, a)) := by
  by_cases hsend : a = .commSend
  · subst hsend
    rw [LeanPdes.step]
    split
    · exact .error trivial
    · rename_i msg rest hsending
      refine .ite (fun _ => .ok (hs.update ((hs i).congr ?_))) fun _ => .error trivial
      simp [Node.soundFields, Node.inFlight, hsending]
  by_cases hpoll : a = .pollMessage
  · subst hpoll
    rw [LeanPdes.step]
    split
    · rename_i site msg rest _ hring
      refine .ite (fun _ => ?_) fun _ => .error trivial
      have hmsg : msg.Fits cfg.incrementalBase (cfg.master i.peer) (cfg.master i) := by
        have hpeer := hs i.peer
        rw [Side.peer_peer] at hpeer
        refine hpeer.sends msg ?_
        rw [Node.inFlight, hring]
        exact List.mem_append_left _ List.mem_cons_self
      have hrest : SoundPair cfg noWrap
          (Function.update s i.peer { s i.peer with ring := rest }) := by
        refine hs.update { hs i.peer with sends := fun m hm => (hs i.peer).sends m ?_ }
        rw [Node.inFlight, hring]
        exact List.mem_cons_of_mem _ hm
      rw [pdesEnginePoll_eq]
      refine Meets.bind ((processMessage_sound (hs i) hmsg fun hfits _ => hcount hfits rfl).mapError
        fun _ hf => hf) fun n hn => ?_
      exact .ok (hrest.update hn)
    · exact .error trivial
  · rw [step_callback hsend hpoll]
    exact .ite (fun _ => (act_sound (hs i) ha).bind fun n hn => .ok (hs.update hn))
      fun _ => .error trivial

/-- A guest's packet, where the action sends one, fits a message and is not empty. -/
def InitiateAction.PacketFits : InitiateAction → Prop
  | .act a => a.PacketFits
  | .finishInitiateCheckpoint => True

instance (a : InitiateAction) : Decidable a.PacketFits :=
  match a with
  | .act a => inferInstanceAs (Decidable a.PacketFits)
  | .finishInitiateCheckpoint => .isTrue trivial

/-- A node that takes a message can still count one more `CHECKPOINT_INIT_STEP`. -/
def CountFits (s : System) (ia : Side × InitiateAction) : Prop :=
  ia.2 = .act .pollMessage → (s ia.1).engine.initFlag < 2 ^ 31 - 1

instance (s : System) (ia : Side × InitiateAction) : Decidable (CountFits s ia) :=
  inferInstanceAs (Decidable (_ → _))

theorem SoundPair.initiateStep (hs : SoundPair cfg noWrap s) (capacity : Option Nat)
    {a : InitiateAction} (ha : a.PacketFits) (hcount : noWrap → CountFits s (i, a)) :
    Meets Halt.Allowed (SoundPair cfg noWrap) (initiateStep capacity s (i, a)) := by
  cases a with
  | act a => exact hs.step capacity ha fun hfits h => hcount hfits (congrArg InitiateAction.act h)
  | finishInitiateCheckpoint =>
      rw [LeanPdes.initiateStep]
      refine .ite (fun _ => ?_) fun _ => .error trivial
      have hcall : Meets Halt.Allowed _ ((finishInitiateCheckpoint (s i)).mapError .fault) :=
        (finishInitiateCheckpoint_sound (hs i)).mapError fun _ hf => hf
      exact hcall.bind fun n hn => .ok (hs.update hn)

end

/-- Where the guests send packets of 1 to `MAX_MSG_SIZE` bytes, no call of a node leaves an object or
fails an assert about its caller, whatever else happens. -/
theorem calls_sound {cfg : Config} {capacity : Option Nat} {s : System}
    (hs : cfg.Initiates capacity (fun _ ia _ => ia.2.PacketFits) s) (i : Side) :
    ∀ f ∈ callerFaults, ∀ a : InitiateAction, a.PacketFits →
      initiateStep capacity s (i, a) ≠ .error (.fault f) := by
  have hsound : SoundPair cfg False s := by
    refine hs.invariant (fun _ h => h ▸ soundPair_created cfg False) ?_
    rintro s ⟨j, b⟩ s' _ hs hstep hb
    exact (hs.initiateStep capacity hb False.elim).result s' hstep
  intro f hf a ha hfault
  exact (hsound.initiateStep capacity ha False.elim).failure _ hfault hf

/-- The left guest sends a packet, and both nodes request the checkpoint in round 0. -/
def requestRun : List (Side × InitiateAction) :=
  [(.left, .act .setup), (.right, .act .setup), (.left, .act (.wwtSend [7])), (.left, .act .commSend),
    (.left, .finishInitiateCheckpoint), (.right, .finishInitiateCheckpoint), (.right, .act .commSend),
    (.left, .act .quantaSync), (.left, .act .pollMessage), (.left, .act .pollReturn),
    (.left, .act .commSend), (.left, .act .commSend), (.right, .act .quantaSync),
    (.right, .act .pollMessage), (.right, .act .pollMessage)]

set_option maxRecDepth 100000 in
theorem calls_sound_requestRun :
    ∃ s, (s .right).receiveContexts.length = 1 ∧ ∀ f ∈ callerFaults, ∀ a : InitiateAction,
      a.PacketFits → initiateStep (some ringCapacity) s (.right, a) ≠ .error (.fault f) := by
  have hrun : (run (initiateStep (some ringCapacity)) (fun _ ia _ => ia.2.PacketFits)
      twoNodes.created requestRun).map (fun s => (s .right).receiveContexts.length) = some 1 := by
    decide
  obtain ⟨s, hs, hlength⟩ := Option.map_eq_some_iff.mp hrun
  have hstart : twoNodes.Initiates (some ringCapacity) (fun _ ia _ => ia.2.PacketFits)
      twoNodes.created := .start rfl
  exact ⟨s, hlength, calls_sound (hstart.run hs) .right⟩

/-! ### One checkpoint -/

/-- The master's check lets its own checkpoint through once the other node is ready. -/
theorem validateCheckpoint_initWarmed {engine : PDESEngine} (hmaster : engine.master = true)
    (hflag : 1 ≤ engine.initFlag) :
    validateCheckpoint (some engine) (some initWarmed) = (true, some initWarmed, some engine) := by
  have hready : ¬engine.initFlag < 1 := by omega
  simp only [validateCheckpoint, hmaster, Bool.not_true, Bool.false_eq_true, if_false, if_true, hready]

/-- As long as the packets fit and the counts of `CHECKPOINT_INIT_STEP` do not overflow, a node that holds
a request holds it under the name that QEMU's check accepts for its role and turns into `init_warmed`, in
the format that the master chose; and it saves under no other name. -/
theorem checkpoint_identity {cfg : Config} {capacity : Option Nat} {s : System}
    (hs : cfg.Initiates capacity (fun s ia _ => ia.2.PacketFits ∧ CountFits s ia) s) (i : Side) :
    ((s i).engine.needsToCheckpoint = true → (∃ j, cfg.master j = true) ∧
      (s i).engine.checkpointFormat = cfg.incrementalBase ∧
      validateCheckpoint (some (s i).engine) (some (s i).engine.checkpointName) =
        (true, some initWarmed, some (s i).engine)) ∧
    ∀ name checkpointRound currentRound,
      .saveSnapshot name checkpointRound currentRound ∈ (s i).log → name = savedName (cfg.master i) := by
  have hsound : SoundPair cfg True s := by
    refine hs.invariant (fun _ h => h ▸ soundPair_created cfg True) ?_
    rintro s ⟨j, b⟩ s' _ hs hstep hguard
    exact (hs.initiateStep capacity hguard.1 fun _ => hguard.2).result s' hstep
  have hi := hsound i
  refine ⟨fun hneeds => ?_, hi.saves⟩
  obtain ⟨hroles, hname, hformat⟩ := hi.asked hneeds
  refine ⟨hroles.elim (fun h => ⟨i, h⟩) fun h => ⟨i.peer, h⟩, hformat, ?_⟩
  rw [hname]
  cases hmaster : cfg.master i with
  | false => exact validateCheckpoint_qpdes (hi.role.trans hmaster) initWarmed
  | true =>
      have hflag := hi.counted trivial hneeds hmaster
      exact validateCheckpoint_initWarmed (hi.role.trans hmaster) hflag

set_option maxRecDepth 100000 in
theorem checkpoint_identity_requestRun :
    ∃ s : System, (s .right).engine.needsToCheckpoint = true ∧
      (s .right).engine.checkpointName = qpdes ++ initWarmed ∧
      validateCheckpoint (some (s .right).engine) (some (s .right).engine.checkpointName) =
        (true, some initWarmed, some (s .right).engine) := by
  have hrun : (run (initiateStep (some ringCapacity))
      (fun s ia _ => ia.2.PacketFits ∧ CountFits s ia) twoNodes.created requestRun).map
      (fun s => ((s .right).engine.needsToCheckpoint, (s .right).engine.checkpointName)) =
      some (true, qpdes ++ initWarmed) := by decide
  obtain ⟨s, hs, hrequest⟩ := Option.map_eq_some_iff.mp hrun
  obtain ⟨hneeds, hname⟩ := Prod.mk.inj hrequest
  have hstart : twoNodes.Initiates (some ringCapacity)
      (fun s ia _ => ia.2.PacketFits ∧ CountFits s ia) twoNodes.created := .start rfl
  exact ⟨s, hneeds, hname, ((checkpoint_identity (hstart.run hs) .right).1 hneeds).2.2⟩

end LeanPdes
