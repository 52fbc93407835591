import LeanPdes.Faults
import LeanPdes.Rounds

/-! Safety of the barrier: no SYNC arrives for a wrong round, no node leaves a round that the other
has not announced, and the two nodes never wait for each other in the same moment. -/

namespace LeanPdes

open Words TwoParty Reach

/-- A node announces its rounds in order, so every round below its next announcement was sent. -/
theorem Node.InRound.sent_sync {n : Node} (hn : n.InRound) {r : Nat} (hr : r < n.party.sent) :
    ∃ msg ∈ sentIn n.log, msg.type = msgTypeSync ∧ msg.syncRound = r := by
  have hmem : r ∈ syncRounds (sentIn n.log) := by
    rw [hn.sent]
    exact List.mem_range.mpr hr
  obtain ⟨msg, hmsg, hround⟩ := List.mem_map.mp hmem
  obtain ⟨hsent, htype⟩ := List.mem_filter.mp hmsg
  exact ⟨msg, hsent, by simpa using htype, hround⟩

/-- The next SYNC in a ring is valid for its receiver. -/
theorem InBarrier.validRound {s : System} (hs : InBarrier s) {i : Side} {msg : Message}
    {rest : List Message} (hring : (s i.peer).ring = msg :: rest) (htype : msg.type = msgTypeSync) :
    (s i).ValidRound msg.syncRound := by
  have hnext := (hs.conserved i.peer).next_sync (hs.inRound i.peer) hring htype
  rw [Side.peer_peer] at hnext
  have hround := (hs.inRound i).round_lt
  rw [hnext.1]
  rcases hs.ordered.next_seen hnext.2 with heq | ⟨harrived, heq⟩
  · exact Or.inl heq
  · right
    have hfinished : (s i).wwt.finishedQuantum = true := (Bool.and_eq_true_iff.mp harrived).1
    have hseen : (s i).seen = (s i).wwt.currentQuantumRound + 1 := heq
    exact ⟨hfinished, by omega⟩

/-- Every SYNC that a node processes is valid, a round is left only after the other node has sent
its SYNC, and the rounds differ by at most one. -/
theorem barrier_safety {cfg : Config} {capacity : Option Nat} (hsync : cfg.sync = true) {s : System}
    (hs : cfg.Reaches capacity (fun _ _ s' => RoundsFit s') s) :
    (∀ i msg rest, (s i.peer).ring = msg :: rest → msg.type = msgTypeSync →
      (s i).ValidRound msg.syncRound) ∧
    (∀ ia, step capacity s ia ≠ .error (.fault .wrongQuantumRound)) ∧
    (∀ ia s', step capacity s ia = .ok s' → RoundsFit s' → ∀ i,
      (s' i).wwt.currentQuantumRound = (s i).wwt.currentQuantumRound ∨
      ((s' i).wwt.currentQuantumRound = (s i).wwt.currentQuantumRound + 1 ∧
        ∃ msg ∈ sentIn (s i.peer).log, msg.type = msgTypeSync ∧
          msg.syncRound = (s i).wwt.currentQuantumRound)) ∧
    ∀ i, (s i).wwt.currentQuantumRound ≤ (s i.peer).wwt.currentQuantumRound + 1 := by
  have hinv := reaches_inBarrier hsync (fun _ _ _ h => h) hs
  have hvalid : ∀ i msg rest, (s i.peer).ring = msg :: rest → msg.type = msgTypeSync →
      (s i).ValidRound msg.syncRound := fun _ _ _ hring htype => hinv.validRound hring htype
  refine ⟨hvalid, ?_, ?_, hinv.ordered.skew⟩
  · rintro ⟨i, a⟩ hfault
    rcases step_fault (hinv.inRound i).sync hfault (by decide) with
      ⟨_, msg, rest, hring, hmsg⟩ | ⟨_, site, _, hreturn⟩
    · cases hmsg with
      | sync htype hround => exact hround (hvalid i msg rest hring htype)
    · cases hreturn
  · intro ia s' hstep hfit i
    have hnext := (step_next (fun i => (hinv.inRound i).sync) hstep).inRound hinv hfit
    rcases hnext.2 with heq | hbarrier
    · exact Or.inl (congrArg (fun b => (b i).round) heq)
    · rcases hbarrier.round i with heq | ⟨heq, hseen⟩
      · exact Or.inl heq
      · exact Or.inr ⟨heq, (hinv.inRound i.peer).sent_sync
          (lt_of_lt_of_le hseen (hinv.ordered.seen_le i))⟩

set_option maxRecDepth 100000 in
theorem barrier_safety_firstRound :
    ∃ s, twoNodes.Reaches none (fun _ _ s' => RoundsFit s') s ∧
      (s .left).wwt.currentQuantumRound = 1 ∧
      ∀ i, (s i).wwt.currentQuantumRound ≤ (s i.peer).wwt.currentQuantumRound + 1 := by
  have hrun : (run (step none) (fun _ _ s' => RoundsFit s') twoNodes.created firstRound).map
      (fun s => (s .left).wwt.currentQuantumRound) = some 1 := by decide
  obtain ⟨s, hs, hround⟩ := Option.map_eq_some_iff.mp hrun
  have hreach := Config.Reaches.of_run hs
  exact ⟨s, hreach, hround, (barrier_safety rfl hreach).2.2.2⟩

/-! ### No deadlock -/

/-- The node is in `wwt_sync_check` and has not stopped waiting. -/
def Node.InWaitLoop (n : Node) : Prop := n.site = some .isWaiting ∨ n.site = some .waitLoop

/-- A node that waits has no SYNC left to put into its ring. -/
def Node.SyncFlushed (n : Node) : Prop := n.InWaitLoop → ∀ msg ∈ n.sending, msg.type ≠ msgTypeSync

theorem Control.syncFlushed {n n' : Node} (h : Control n n') (hidle : n.sending = []) :
    n'.SyncFlushed := by
  intro _ msg hmem
  obtain ⟨evs, he, hall⟩ := h.emits
  rw [he.sending, hidle, List.nil_append] at hmem
  exact (sentIn_control hall msg hmem).1

theorem Move.syncFlushed {n n' : Node} {a : Action} (h : Move n a n') (hidle : n.sending = []) :
    n'.SyncFlushed := by
  have nothing : ∀ m : Node, m.sending = n.sending → m.SyncFlushed := by
    intro m hm _ msg hmem
    rw [hm, hidle] at hmem
    cases hmem
  have outside : ∀ m : Node, m.site = none → m.SyncFlushed := by
    intro m hm hloop
    rcases hloop with hloop | hloop
    · rw [hm] at hloop
      cases hloop
    · rw [hm] at hloop
      cases hloop
  cases h with
  | control h => exact h.syncFlushed hidle
  | setup | advance | deliver | pollTimer | pollDone | quantaSync | syncCheck | wait | again =>
      exact nothing _ rfl
  | wwtSend hmsg =>
      intro _ msg hmem
      have hsending : msg ∈ n.sending ++ [_] := hmem
      rw [hidle, List.nil_append, List.mem_singleton] at hsending
      rw [hsending, (createMessage_ok hmsg).2.2.2]
      decide
  | leave _ h => exact h.syncFlushed hidle
  | arrive _ h | hold _ h => exact outside _ h.site
  | @pass _ _ n₁ h =>
      apply outside
      rw [beginQuantum_site]
      exact h.site

theorem Receive.syncFlushed {n n' : Node} {msg : Message} (h : Receive n msg n')
    (hidle : n.sending = []) : n'.SyncFlushed := by
  cases h with
  | control _ h => exact h.syncFlushed hidle
  | sync | packet =>
      intro _ msg' hmem
      have hsending : msg' ∈ n.sending := hmem
      rw [hidle] at hsending
      cases hsending

theorem Next.syncFlushed {s s' : System} {ia : Side × Action} (h : Next s ia s')
    (hs : ∀ i, (s i).SyncFlushed) : ∀ i, (s' i).SyncFlushed := by
  cases h with
  | @commSend i msg rest hsending =>
      refine Side.forall_of_self_peer i ?_ ?_
      · rw [Function.update_self]
        intro hloop m hmem
        apply hs i hloop
        rw [hsending]
        exact List.mem_cons_of_mem msg hmem
      · rw [Function.update_of_ne (Side.peer_ne i)]
        exact hs i.peer
  | @receive i msg rest n' hidle _ h =>
      refine Side.forall_of_self_peer i ?_ ?_
      · rw [Function.update_self]
        exact h.syncFlushed hidle.2
      · rw [Function.update_of_ne (Side.peer_ne i), Function.update_self]
        exact hs i.peer
  | @move i a n' hidle _ h =>
      refine Side.forall_of_self_peer i ?_ ?_
      · rw [Function.update_self]
        exact h.syncFlushed hidle.2
      · rw [Function.update_of_ne (Side.peer_ne i)]
        exact hs i.peer

/-- Both nodes wait for a SYNC that is neither counted nor in a ring. -/
def BarrierDeadlock (s : System) : Prop :=
  ∀ i, (s i).InWaitLoop ∧ syncCountGet (s i).wwt.syncCounts (s i).wwt.currentQuantumRound = 0 ∧
    ∀ msg ∈ (s i.peer).ring,
      ¬(msg.type = msgTypeSync ∧ msg.syncRound = (s i).wwt.currentQuantumRound)

/-- The SYNC messages that a node has processed are those of the first rounds. -/
theorem Channel.processed_rounds {n m : Node} (h : Channel n m) (hn : n.InRound) :
    syncRounds (processedIn m.log) = List.range m.seen := by
  have hsent := hn.sent
  rw [← h, syncRounds_append] at hsent
  have hle : m.seen ≤ n.party.sent := by
    have hlength := congrArg List.length hsent
    rw [List.length_append, List.length_range] at hlength
    exact Nat.le.intro hlength
  calc syncRounds (processedIn m.log)
      = (syncRounds (processedIn m.log) ++ syncRounds n.inFlight).take m.seen :=
        (List.take_left' rfl).symm
    _ = (List.range n.party.sent).take m.seen := by rw [hsent]
    _ = List.range m.seen := by rw [List.take_range, min_eq_left hle]

/-- A SYNC that is sent and not processed is on its way. -/
theorem Channel.sync_inFlight {n m : Node} (h : Channel n m) (hn : n.InRound) {r : Nat}
    (hseen : m.seen ≤ r) (hsent : r < n.party.sent) :
    ∃ msg ∈ n.inFlight, msg.type = msgTypeSync ∧ msg.syncRound = r := by
  obtain ⟨msg, hmem, htype, hround⟩ := hn.sent_sync hsent
  rw [← h] at hmem
  rcases List.mem_append.mp hmem with hmem | hmem
  · exfalso
    have hprocessed : r ∈ syncRounds (processedIn m.log) :=
      List.mem_map.mpr ⟨msg, List.mem_filter.mpr ⟨hmem, by simpa using htype⟩, hround⟩
    rw [h.processed_rounds hn, List.mem_range] at hprocessed
    omega
  · exact ⟨msg, hmem, htype, hround⟩

theorem InBarrier.not_deadlock {s : System} (hs : InBarrier s) (hflushed : ∀ i, (s i).SyncFlushed) :
    ¬BarrierDeadlock s := by
  intro hdeadlock
  have harrived : ∀ i, (barrier s i).arrived = true := by
    intro i
    have hpolling := (hs.inRound i).polling
    rcases (hdeadlock i).1 with hsite | hsite
    · simp [barrier, Node.party, Node.arrived, hsite, hpolling]
    · simp [barrier, Node.party, Node.arrived, hsite, hpolling]
  have hwaiting : ∀ i, (barrier s i).seen ≤ (barrier s i).round := by
    intro i
    show (s i).seen ≤ (s i).wwt.currentQuantumRound
    have hcount := (hdeadlock i).2.1
    rw [(hs.inRound i).counted _ (hs.inRound i).round_lt] at hcount
    by_contra hseen
    rw [if_pos (not_le.mp hseen)] at hcount
    cases hcount
  obtain ⟨i, heq, hsent⟩ := hs.ordered.no_deadlock harrived hwaiting
  have hchannel := hs.conserved i.peer
  rw [Side.peer_peer] at hchannel
  obtain ⟨msg, hmem, htype, hround⟩ := hchannel.sync_inFlight (hs.inRound i.peer) le_rfl hsent
  rcases List.mem_append.mp hmem with hring | hsending
  · exact (hdeadlock i).2.2 msg hring ⟨htype, hround.trans heq⟩
  · exact hflushed i.peer (hdeadlock i.peer).1 msg hsending htype

theorem InBarrier.seen_le {s : System} (hs : InBarrier s) (i : Side) : (s i).seen ≤ 2 ^ 32 := by
  have hseen : (s i).seen ≤ (s i.peer).wwt.currentQuantumRound + (s i.peer).arrived.toNat :=
    hs.ordered.seen_le i
  have hround := (hs.inRound i.peer).round_lt
  have hbool := Bool.toNat_le (s i.peer).arrived
  omega

/-- Every SYNC processed stays counted. -/
theorem InBarrier.counted {s : System} (hs : InBarrier s) {i : Side} {msg : Message}
    (hmsg : msg ∈ processedIn (s i).log) (htype : msg.type = msgTypeSync) :
    syncCountGet (s i).wwt.syncCounts msg.syncRound = 1 := by
  have hchannel := hs.conserved i.peer
  rw [Side.peer_peer] at hchannel
  have hmem : msg.syncRound ∈ syncRounds (processedIn (s i).log) :=
    List.mem_map.mpr ⟨msg, List.mem_filter.mpr ⟨hmsg, by simpa using htype⟩, rfl⟩
  rw [hchannel.processed_rounds (hs.inRound i.peer), List.mem_range] at hmem
  rw [(hs.inRound i).counted _ (lt_of_lt_of_le hmem (hs.seen_le i)), if_pos hmem]

/-- The nodes never wait for each other in the same moment, and a SYNC that was processed early is
still counted when the round advances. -/
theorem no_barrier_deadlock {cfg : Config} {capacity : Option Nat} (hsync : cfg.sync = true)
    {s : System} (hs : cfg.Reaches capacity (fun _ _ s' => RoundsFit s') s) :
    ¬BarrierDeadlock s ∧
    ∀ i, ∀ msg ∈ processedIn (s i).log, msg.type = msgTypeSync →
      syncCountGet (s i).wwt.syncCounts msg.syncRound = 1 := by
  have hinv := reaches_inBarrier hsync (fun _ _ _ h => h) hs
  have hflushed : ∀ i, (s i).SyncFlushed := by
    refine hs.invariant (P := fun s => ∀ i, (s i).SyncFlushed) ?_ ?_
    · rintro _ rfl i _ msg hmem
      cases hmem
    · intro s a s' hs hflushed hstep _
      have hinv := reaches_inBarrier hsync (fun _ _ _ h => h) hs
      exact (step_next (fun i => (hinv.inRound i).sync) hstep).syncFlushed hflushed
  exact ⟨hinv.not_deadlock hflushed, fun i msg hmsg htype => hinv.counted hmsg htype⟩

set_option maxRecDepth 100000 in
theorem no_barrier_deadlock_firstRound :
    ∃ s, twoNodes.Reaches none (fun _ _ s' => RoundsFit s') s ∧
      (s .left).wwt.currentQuantumRound = 1 ∧ ¬BarrierDeadlock s := by
  have hrun : (run (step none) (fun _ _ s' => RoundsFit s') twoNodes.created firstRound).map
      (fun s => (s .left).wwt.currentQuantumRound) = some 1 := by decide
  obtain ⟨s, hs, hround⟩ := Option.map_eq_some_iff.mp hrun
  have hreach := Config.Reaches.of_run hs
  exact ⟨s, hreach, hround, (no_barrier_deadlock rfl hreach).1⟩

end LeanPdes
