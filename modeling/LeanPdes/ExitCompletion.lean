import LeanPdes.BarrierProgress

/-! The exit handshake comes to its end. Once both nodes have been asked to stop, the barrier carries the
handshake: what is on its way arrives before both nodes are stuck, and the master grants the request at
the latest when it leaves the next round. -/

namespace LeanPdes

open Words TwoParty Reach ExitProtocol

/-- The nodes are in this phase of the agreement. -/
def AtPhase (master : Side → Bool) (s : System) (phase : Phase) : Prop :=
  ∀ i, (s i).exitFlags = phase.flags (master i) ∧ exitMsgs (s i).inFlight = phase.onTheWay (master i)

section

variable {master : Side → Bool} (hroles : OneMaster master) {s s' : System} {phase : Phase}

include hroles in
theorem AtPhase.follows {i : Side} {call : Call} (h : AtPhase master s phase) (hcall : Follows s s' i call) :
    AtPhase master s' (phase.next (master i) call) := by
  obtain ⟨hself, hmsgs⟩ := h i
  obtain ⟨hpeer, hpeerMsgs⟩ := h i.peer
  rw [hroles i] at hpeer hpeerMsgs
  have htaken := hcall.taken
  rw [hpeerMsgs] at htaken
  obtain ⟨hflags, hpeerFlags, hway, hrest⟩ := Phase.next_call htaken
  rw [← hself] at hflags hway
  refine Side.forall_of_self_peer i ?_ ?_
  · rw [hcall.flags, hcall.msgs, hmsgs]
    exact ⟨hflags, hway⟩
  · rw [hroles i, hcall.peerFlags, hpeer]
    exact ⟨hpeerFlags, hrest⟩

/-- Where each node knows that the other one has finished, `can_stop` returns true. -/
theorem AtPhase.canStop_true (h : AtPhase master s phase) {i : Side}
    (hpermitted : (s i).engine.permittedToExit = true) (hfinished : (s i).engine.pairHasFinished = true) :
    ∃ n, canStop (s i) = .ok (true, n) := by
  have hflags := (h i).1
  have hasked : (s i).engine.master = false → (s i).engine.intentSent = true := by
    intro hmaster
    have hrole : master i = false := by
      rw [← phase.flags_master (master i), ← hflags]
      exact hmaster
    have hknows : (phase.flags (master i)).finished = true := by
      rw [← hflags]
      exact hfinished
    have hsent := Phase.intentSent_of_finished hknows
    rw [← hflags, hrole] at hsent
    exact hsent
  rw [canStop]
  cases hmaster : (s i).engine.master with
  | false => simp [hasked hmaster, hpermitted, hfinished, pure, Except.pure, bind, Except.bind]
  | true => simp [hpermitted, hfinished, pure, Except.pure, bind, Except.bind]

end

/-- Both nodes are ready and the master knows; it stays in `round` until it grants the request. -/
def GrantsAfter (master : Side → Bool) (i : Side) (round : Nat) (s : System) : Prop :=
  ∃ phase, AtPhase master s phase ∧ 3 ≤ phase.level ∧
    ((s i).wwt.currentQuantumRound ≤ round ∨ 4 ≤ phase.level)

theorem beginQuantum_exitFlags (n : Node) : (beginQuantum n).exitFlags = n.exitFlags := (beginQuantum_idle n).flags

/-- The master that knows that both nodes are ready leaves its round with the request granted. -/
theorem UnaskedMove.grants {n n' : Node} {a : Action} (h : UnaskedMove n a n')
    (hflags : n.exitFlags = (Phase.received true).flags true) :
    n'.wwt.currentQuantumRound = n.wwt.currentQuantumRound ∨ n'.engine.permittedToExit = true := by
  cases h with
  | leave _ hfinished =>
      have hnot : n.engine.pairHasFinished = false := congrArg Flags.finished hflags
      rw [hnot] at hfinished
      cases hfinished
  | @pass _ _ n₁ hcheck =>
      right
      have hsame : n.leaveCheck.exitFlags = (Phase.received true).flags true := hflags
      have hchecked := (wwtSyncCheckMaster_does hcheck).flags
      rw [hsame] at hchecked
      have hpermitted : (beginQuantum n₁).exitFlags.permitted = true := by
        rw [beginQuantum_exitFlags, hchecked]
        rfl
      exact hpermitted
  | _ => exact Or.inl rfl

theorem GrantsAfter.step {cfg : Config} {capacity : Option Nat} (hsync : cfg.sync = true)
    (hroles : OneMaster cfg.master) {s s' : System} {ia : Side × Action} {i : Side} {round : Nat}
    (hmaster : cfg.master i = true) (hs : cfg.Reaches capacity UnaskedStep s)
    (h : GrantsAfter cfg.master i round s) (hstep : step capacity s ia = .ok s')
    (hown : OwnStep s ia s') : GrantsAfter cfg.master i round s' := by
  obtain ⟨j, a⟩ := ia
  obtain ⟨phase, hphase, hlevel, hround⟩ := h
  obtain ⟨call, hexits⟩ := step_exits hstep
  have hphase' := hphase.follows hroles hexits.follows
  have hle := Phase.level_le_next (cfg.master j) call phase
  refine ⟨_, hphase', hlevel.trans hle, ?_⟩
  by_cases hgranted : 4 ≤ phase.level
  · exact Or.inr (hgranted.trans hle)
  have hround := hround.resolve_right hgranted
  have hreceived := Phase.eq_received_of_level hlevel hgranted
  have hbarrier := reaches_inBarrier hsync (fun _ _ _ h => h.1.2.2.1) hs
  suffices hturn : (s' i).wwt.currentQuantumRound = (s i).wwt.currentQuantumRound ∨
      (s' i).engine.permittedToExit = true by
    rcases hturn with hsame | hpermitted
    · exact Or.inl (hsame ▸ hround)
    · have hflags : (s' i).exitFlags.permitted = true := hpermitted
      rw [(hphase' i).1] at hflags
      exact Or.inr (Phase.level_of_permitted hflags)
  rcases Side.eq_or_eq_peer j i with rfl | rfl
  · cases stepsTo_of_step hstep with
    | commSend =>
        rw [Function.update_self]
        exact Or.inl rfl
    | receive _ _ hprocess =>
        have hsame := (processMessage_receive (hbarrier.inRound i).sync hprocess).sameClock
        rw [Function.update_self, hsame.wwt]
        exact Or.inl rfl
    | callback _ _ hact =>
        rw [Function.update_self]
        have hflags := (hphase i).1
        rw [hreceived, hmaster] at hflags
        have hunasked := (reaches_unaskedNodes hsync hs).unasked i
        exact (hunasked.act (hbarrier.inRound i).sync hown.2 hact).grants hflags
  · left
    cases stepsTo_of_step hstep with
    | commSend | callback => rw [Function.update_of_ne (Side.peer_ne j)]
    | receive => rw [Function.update_of_ne (Side.peer_ne j), Function.update_self]

/-- A node that is ready stays ready. -/
theorem ready_step {capacity : Option Nat} {s s' : System} {ia : Side × Action}
    (hs : ∀ i, (s i).engine.readyToExit = true) (h : step capacity s ia = .ok s') :
    ∀ i, (s' i).engine.readyToExit = true := by
  obtain ⟨i, a⟩ := ia
  obtain ⟨call, hexits⟩ := step_exits h
  refine Side.forall_of_self_peer i ?_ ?_
  · exact (congrArg Flags.ready hexits.follows.flags).trans (call.ready_apply (hs i))
  · exact (congrArg Flags.ready hexits.follows.peerFlags).trans (hs i.peer)

/-! ### The end of the handshake -/

section

variable {cfg : Config} {capacity : Option Nat} (hsync : cfg.sync = true) (hq : 0 < cfg.latencyns)
  (hroles : OneMaster cfg.master) (hcapacity : ∀ c ∈ capacity, 2 ≤ c)
include hroles

/-- Both nodes are ready and stuck at the end of a round with nothing on its way, so the master knows. -/
theorem grantsAfter_of_quiet {s : System} (hs : cfg.Reaches capacity UnaskedStep s) {round : Nat}
    (hquiet : QuietAt round s) (hready : ∀ i, (s i).engine.readyToExit = true)
    (hround : ∀ i, (s i).wwt.currentQuantumRound = round) (i : Side) : GrantsAfter cfg.master i round s := by
  obtain ⟨phase, hphase⟩ := (reaches_inAgreement hroles hs).phase
  obtain ⟨j, hrole⟩ := hroles.exists_master
  have hall : ∀ role, (phase.flags role).ready = true := by
    intro role
    have hside (k : Side) : (phase.flags (cfg.master k)).ready = true := by
      rw [← (hphase k).1]
      exact hready k
    cases role with
    | true => simpa [hrole] using hside j
    | false => simpa [hrole] using hside j.peer
  have hfollower : phase.onTheWay false = [] := by
    have hmsgs := (hphase j.peer).2
    rw [(hquiet j.peer).2, hrole, decide_eq_false (Side.peer_ne j)] at hmsgs
    exact hmsgs.symm
  exact ⟨phase, hphase, Phase.level_of_ready hall hfollower, Or.inl (hround i).le⟩

include hsync hq hcapacity

/-- From a state in which both nodes are ready, both come to know that the other one has finished, before
the end of the next round. -/
theorem Going.finishes {start : Side → Nat} {round : Nat} {s : System}
    (h : Going cfg capacity start round s) (hlt : round + 1 < 2 ^ 32)
    (hfits : ∀ i, ((round : Int) + 2) * cfg.latencyns + start i < 2 ^ 63)
    (hready : ∀ i, (s i).engine.readyToExit = true) :
    ∃ s', Reachable (LeanPdes.step capacity) OwnStep (· = s) s' ∧
      cfg.Reaches capacity UnaskedStep s' ∧ ∀ i, (s' i).wwt.currentQuantumRound ≤ round + 1 ∧
        (s' i).engine.pairHasFinished = true := by
  have hfirst : ∀ i, ((round : Int) + 1) * cfg.latencyns + start i < 2 ^ 63 := by
    intro i
    have hlast := hfits i
    rw [show (round : Int) + 2 = round + 1 + 1 by ring, add_one_mul] at hlast
    omega
  obtain ⟨s₁, hs₁, hgoing₁, hquiet₁⟩ := h.exists_quiet hsync hq hroles hcapacity (by omega) hfirst
  have hpair₁ := reaches_unaskedPair hsync hq hroles hgoing₁.reached hgoing₁.stays
  have hready₁ : ∀ i, (s₁ i).engine.readyToExit = true := by
    refine hs₁.invariant (P := fun s => ∀ i, (s i).engine.readyToExit = true) ?_ ?_
    · rintro _ rfl
      exact hready
    · intro s ia s' _ hs hstep _
      exact ready_step hs hstep
  rcases hpair₁.quiet hroles hquiet₁ hgoing₁.round_le with hfinished | hrounds
  · refine ⟨s₁, hs₁, hgoing₁.reached, fun i => ⟨?_, hfinished i⟩⟩
    exact (hgoing₁.round_le i).trans (Nat.le_succ _)
  -- the master grants the request on its way to the end of the next round
  have hgoing : Going cfg capacity start (round + 1) s₁ :=
    { hgoing₁ with round_le := fun i => (hgoing₁.round_le i).trans (Nat.le_succ _) }
  obtain ⟨s₂, hs₂, hgoing₂, hquiet₂⟩ :=
    hgoing.exists_quiet hsync hq hroles hcapacity hlt (fun i => by simpa [add_assoc] using hfits i)
  have hpair₂ := reaches_unaskedPair hsync hq hroles hgoing₂.reached hgoing₂.stays
  rcases hpair₂.quiet hroles hquiet₂ hgoing₂.round_le with hfinished | hrounds₂
  · exact ⟨s₂, hs₁.trans hs₂, hgoing₂.reached, fun i => ⟨hgoing₂.round_le i, hfinished i⟩⟩
  exfalso
  obtain ⟨j, hrole⟩ := hroles.exists_master
  have hmaster : cfg.master j = true := (hrole j).trans (decide_eq_true rfl)
  have hgrants : GrantsAfter cfg.master j round s₂ := by
    refine hs₂.invariant (P := GrantsAfter cfg.master j round) ?_ ?_
    · rintro _ rfl
      exact grantsAfter_of_quiet hroles hgoing₁.reached hquiet₁ hready₁ (fun i => (hrounds i).1) j
    · intro s ia s' hs hgrants hstep hown
      have hreached : cfg.Reaches capacity UnaskedStep s :=
        hgoing₁.reached.trans (hs.mono (fun _ h => h) fun _ _ _ h => h.1)
      exact hgrants.step hsync hroles hmaster hreached hstep hown
  obtain ⟨phase, hphase, _, hlate⟩ := hgrants
  obtain ⟨hround, hnot⟩ := hrounds₂ j
  have hpermitted : (s₂ j).engine.permittedToExit = true := by
    have hflags := (hphase j).1
    rw [hmaster] at hflags
    exact (congrArg Flags.permitted hflags).trans (Phase.permitted_of_level (hlate.resolve_left (by omega)))
  rw [hnot] at hpermitted
  cases hpermitted

/-- In a run of `UnaskedStep`s, from every state in which both nodes have been asked to stop, neither has
left, the two do not block each other in their sends and there is room for two more rounds, steps of the
nodes alone lead to a state in which `can_stop` returns true on both, before the end of the next round. -/
theorem handshake_completes {s : System} (hs : cfg.Reaches capacity UnaskedStep s)
    (hready : ∀ i, (s i).engine.readyToExit = true) (hstays : ∀ i, (s i).exitCalled = false)
    (hfree : NotBlocked capacity s) {round : Nat} (hround : ∀ i, (s i).wwt.currentQuantumRound ≤ round)
    (hlt : round + 1 < 2 ^ 32)
    (hfits : ∀ i, ((round : Int) + 2) * cfg.latencyns + (s i).virtualClock < 2 ^ 63) :
    ∃ s', Reachable (LeanPdes.step capacity) OwnStep (· = s) s' ∧
      ∀ i, (s' i).wwt.currentQuantumRound ≤ round + 1 ∧ ∃ n, canStop (s' i) = .ok (true, n) := by
  have hgoing := going_start hsync hq hroles hs hstays hfree hround
  obtain ⟨s', hs', hreached, hfinished⟩ := hgoing.finishes hsync hq hroles hcapacity hlt hfits hready
  have hagree := reaches_inAgreement hroles hreached
  obtain ⟨phase, hphase⟩ := hagree.phase
  refine ⟨s', hs', fun i => ⟨(hfinished i).1, ?_⟩⟩
  have hphase : AtPhase cfg.master s' phase := hphase
  exact hphase.canStop_true (hagree.finished hroles (hfinished i).2).1 (hfinished i).2

end

/-- Both nodes are asked to stop in their first round, the master while its packet is still unread. -/
def stopRun : List (Side × Action) :=
  [(.left, .setup), (.right, .setup), (.left, .wwtSend [7]), (.left, .commSend), (.left, .canStop),
    (.right, .canStop), (.left, .quantaSync)]

set_option maxRecDepth 100000 in
theorem handshake_completes_stopRun :
    ∃ s s' : System, (∀ i, (s i).engine.permittedToExit = false) ∧
      Reachable (step (some ringCapacity)) OwnStep (· = s) s' ∧
      ∀ i, (s' i).wwt.currentQuantumRound ≤ 1 ∧ ∃ n, canStop (s' i) = .ok (true, n) := by
  have hrun : (run (step (some ringCapacity)) UnaskedStep twoNodes.created stopRun).map
      (fun s => decide ((s .right).inFlight.length = 1 ∧ ∀ i, (s i).engine.permittedToExit = false ∧
        (s i).engine.readyToExit = true ∧ (s i).exitCalled = false ∧ (s i).virtualClock = 5 ∧
          (s i).wwt.currentQuantumRound ≤ 0)) = some true := by decide
  obtain ⟨s, hs, hfacts⟩ := Option.map_eq_some_iff.mp hrun
  obtain ⟨hinFlight, hstands⟩ := of_decide_eq_true hfacts
  have hfree : NotBlocked (some ringCapacity) s := by
    refine ⟨.right, ?_⟩
    rintro _ ⟨⟩
    rw [hinFlight]
    decide
  have hlt : 0 + 1 < 2 ^ 32 := by decide
  obtain ⟨s', hs', hstops⟩ := handshake_completes rfl (by decide) (fun i => by cases i <;> rfl)
    (by decide) (Config.Reaches.of_run hs) (fun i => (hstands i).2.1) (fun i => (hstands i).2.2.1) hfree
    (fun i => (hstands i).2.2.2.2) hlt (fun i => by rw [(hstands i).2.2.2.1]; decide)
  exact ⟨s, s', fun i => (hstands i).1, hs', hstops⟩

end LeanPdes
