import LeanPdes.Clock
import LeanPdes.Traffic

/-! A full ring is waited for without polling. Two nodes wait for each other when both have filled
their rings, and that takes guests that send a ring of packets each between two polls: the barrier
and the polls keep the messages on the way below what both nodes have sent in the quantum. -/

namespace LeanPdes

open Words TwoParty Reach

/-- A node that has finished its quantum is paused. -/
def Node.Halts (n : Node) : Prop := n.wwt.finishedQuantum = true → n.engine.paused = true

theorem SameClock.halts {n n' : Node} (h : SameClock n n') (hn : n.Halts) : n'.Halts := by
  have hfinished : n'.wwt.finishedQuantum = n.wwt.finishedQuantum := by rw [h.wwt]
  rw [Node.Halts, hfinished, h.paused]
  exact hn

theorem Move.halts {n n' : Node} {a : Action} (h : Move n a n') (hround : n.InRound)
    (hn : n.Halts) : n'.Halts := by
  have hleft : ({ n with site := none } : Node).Halts := hn
  cases h with
  | control h => exact h.sameClock.halts hn
  | setup | advance | wwtSend | deliver | pollTimer | pollDone | syncCheck | wait | again => exact hn
  | quantaSync => exact fun _ => rfl
  | leave _ h | arrive _ h | hold _ h => exact h.sameClock.halts hleft
  | @pass hsite _ n₁ h =>
      have hround₁ := (h.inRound (hround.leavePoll (Or.inl hsite)).1).1
      rw [beginQuantum_of_sync hround₁.sync hround₁.round_lt]
      intro hfinished
      cases hfinished

theorem Next.halts {s s' : System} {ia : Side × Action} (h : Next s ia s') (hs : InBarrier s)
    (hhalts : ∀ i, (s i).Halts) : ∀ i, (s' i).Halts := by
  cases h with
  | @commSend i =>
      refine Side.forall_of_self_peer i ?_ ?_
      · rw [Function.update_self]
        exact hhalts i
      · rw [Function.update_of_ne (Side.peer_ne i)]
        exact hhalts i.peer
  | @receive i _ _ n' _ _ h =>
      refine Side.forall_of_self_peer i ?_ ?_
      · rw [Function.update_self]
        exact h.sameClock.halts (hhalts i)
      · rw [Function.update_of_ne (Side.peer_ne i), Function.update_self]
        exact hhalts i.peer
  | @move i _ n' _ _ h =>
      refine Side.forall_of_self_peer i ?_ ?_
      · rw [Function.update_self]
        exact h.halts (hs.inRound i) (hhalts i)
      · rw [Function.update_of_ne (Side.peer_ne i)]
        exact hhalts i.peer

/-- Two nodes in the barrier and the messages between them. -/
structure InStep (s : System) : Prop where
  halts : ∀ i, (s i).Halts
  /-- A message that waits for room was sent in the quantum. -/
  sending_le : ∀ i, (s i).sending.length ≤ (s i).load
  /-- Once a node has arrived, only its SYNC can wait. -/
  sync_last : ∀ i, (s i).arrived = true → ∀ msg ∈ (s i).sending, msg.type = msgTypeSync
  level : ∀ i, (s i).wwt.currentQuantumRound = (s i.peer).wwt.currentQuantumRound →
    (s i).inFlight.length ≤ (s i).load
  behind : ∀ i, (s i).wwt.currentQuantumRound < (s i.peer).wwt.currentQuantumRound →
    (s i).inFlight = []
  /-- The second node to arrive has polled the other's messages. -/
  met : (∀ i, (s i).wwt.currentQuantumRound = (s i.peer).wwt.currentQuantumRound ∧
    (s i).arrived = true) → ∃ i, (s i).inFlight.length ≤ 1

/-- The node stays where it is in the barrier and sends nothing. -/
structure Node.Settles (n n' : Node) : Prop where
  round : n'.wwt.currentQuantumRound = n.wwt.currentQuantumRound
  arrived : n'.arrived = n.arrived
  load : n'.load = n.load
  sending : n'.sending.Sublist n.sending
  inFlight : n'.inFlight.length ≤ n.inFlight.length

theorem Node.Settles.refl (n : Node) : n.Settles n := ⟨rfl, rfl, rfl, List.Sublist.refl _, le_rfl⟩

theorem Emits.settles {n n' : Node} {evs : List Event} (he : Emits n n' evs)
    (hevs : ∀ e ∈ evs, e.Silent) (hn : n.InRound) (hn' : n'.InRound)
    (hround : n'.wwt.currentQuantumRound = n.wwt.currentQuantumRound) : n.Settles n' := by
  have hsent := sentIn_silent hevs
  have harrived := he.arrived hn hn'
  have hload := he.load hround (hn'.sync.trans hn.sync.symm) fun _ => ⟨hn, hn'⟩
  rw [hsent] at harrived hload
  refine ⟨hround, ?_, ?_, ?_, ?_⟩
  · rw [hround] at harrived
    have hbool : n'.arrived.toNat = n.arrived.toNat := Nat.add_left_cancel harrived
    rw [← Bool.ofNat_toNat n'.arrived, hbool, Bool.ofNat_toNat]
  · rw [countP_silent hevs] at hload
    simpa [syncRounds] using hload
  · rw [he.sending, hsent, List.append_nil]
  · rw [he.inFlight, hsent, List.append_nil]

/-- A step that sends nothing and leaves the rounds alone. -/
theorem InStep.settle {s s' : System} (hs : InStep s) (hhalts : ∀ i, (s' i).Halts)
    (h : ∀ i, (s i).Settles (s' i)) : InStep s' := by
  refine ⟨hhalts, fun i => ?_, fun i => ?_, fun i => ?_, fun i => ?_, fun hall => ?_⟩
  · rw [(h i).load]
    exact (h i).sending.length_le.trans (hs.sending_le i)
  · rw [(h i).arrived]
    intro harrived msg hmem
    exact hs.sync_last i harrived msg ((h i).sending.mem hmem)
  · rw [(h i).round, (h i.peer).round, (h i).load]
    intro hround
    exact (h i).inFlight.trans (hs.level i hround)
  · rw [(h i).round, (h i.peer).round]
    intro hround
    have hle := (h i).inFlight
    rw [hs.behind i hround, List.length_nil] at hle
    exact List.length_eq_zero_iff.mp (Nat.le_zero.mp hle)
  · have hall' : ∀ i, (s i).wwt.currentQuantumRound = (s i.peer).wwt.currentQuantumRound ∧
        (s i).arrived = true := by
      intro i
      rw [← (h i).round, ← (h i.peer).round, ← (h i).arrived]
      exact hall i
    obtain ⟨i, hi⟩ := hs.met hall'
    exact ⟨i, (h i).inFlight.trans hi⟩

/-- A node sends one message, which is its SYNC when it arrives by it. -/
theorem InStep.send {s s' : System} {i : Side} {msg : Message} (hs : InStep s)
    (hbarrier : InBarrier s) (hsingle : (s i.peer).sending.length ≤ 1)
    (hhalts : ∀ j, (s' j).Halts) (hpeer : s' i.peer = s i.peer)
    (hround : (s' i).wwt.currentQuantumRound = (s i).wwt.currentQuantumRound)
    (hload : (s' i).load = (s i).load + 1) (hsending : (s' i).sending = [msg])
    (hinFlight : (s' i).inFlight.length = (s i).inFlight.length + 1)
    (hnot : (s i).arrived = false)
    (harrive : (s' i).arrived = true → msg.type = msgTypeSync ∧ (s i.peer).ring = []) :
    InStep s' := by
  refine ⟨hhalts, Side.forall_of_self_peer i ?_ ?_, Side.forall_of_self_peer i ?_ ?_,
    Side.forall_of_self_peer i ?_ ?_, Side.forall_of_self_peer i ?_ ?_, fun hall => ?_⟩
  · rw [hsending, hload, List.length_singleton]
    omega
  · rw [hpeer]
    exact hs.sending_le i.peer
  · intro harrived m hm
    rw [hsending] at hm
    rw [List.mem_singleton.mp hm]
    exact (harrive harrived).1
  · rw [hpeer]
    exact hs.sync_last i.peer
  · rw [hpeer, hround, hload, hinFlight]
    intro h
    exact Nat.succ_le_succ (hs.level i h)
  · rw [Side.peer_peer, hpeer, hround]
    intro h
    exact hs.level i.peer (by rwa [Side.peer_peer])
  · -- a node that is behind has arrived
    rw [hpeer, hround]
    intro h
    have hahead : (barrier s i).arrived = true := by
      have hordered := hbarrier.ordered.arrived_of_ahead (i := i.peer)
      rw [Side.peer_peer] at hordered
      exact hordered h
    exact absurd (hnot.symm.trans hahead) (by decide)
  · rw [Side.peer_peer, hpeer, hround]
    intro h
    exact hs.behind i.peer (by rwa [Side.peer_peer])
  · refine ⟨i.peer, ?_⟩
    rw [hpeer, Node.inFlight, (harrive (hall i).2).2, List.nil_append]
    exact hsingle

/-- A node has not processed the SYNC messages that are on the way. -/
theorem InBarrier.syncs_inFlight {s : System} (hs : InBarrier s) (i : Side) :
    (s i).seen + (syncRounds (s i.peer).inFlight).length = (s i.peer).party.sent := by
  have hchannel := hs.conserved i.peer
  have hsent := congrArg List.length (hs.inRound i.peer).sent
  rw [Side.peer_peer, Channel] at hchannel
  rw [← hchannel, syncRounds_append, List.length_append, List.length_range] at hsent
  exact hsent

/-- A node passes to the next round once it has polled its ring. -/
theorem InStep.pass {s s' : System} {i : Side} (hs : InStep s) (hbarrier : InBarrier s)
    (hhalts : ∀ j, (s' j).Halts) (hpeer : s' i.peer = s i.peer)
    (hround : (s' i).wwt.currentQuantumRound = (s i).wwt.currentQuantumRound + 1)
    (hseen : (s i).wwt.currentQuantumRound < (s i).seen) (harrived : (s' i).arrived = false)
    (hsending : (s' i).sending = []) (hinFlight : (s' i).inFlight = (s i).inFlight)
    (hring : (s i.peer).ring = []) : InStep s' := by
  have hskew : (s i.peer).wwt.currentQuantumRound ≤ (s i).wwt.currentQuantumRound + 1 := by
    have hordered := hbarrier.ordered.skew i.peer
    rw [Side.peer_peer] at hordered
    exact hordered
  have hsent : (s i).seen + (syncRounds (s i.peer).inFlight).length =
      (s i.peer).wwt.currentQuantumRound + (s i.peer).arrived.toNat := hbarrier.syncs_inFlight i
  have hwaits : (s i.peer).inFlight = (s i.peer).sending := by
    rw [Node.inFlight, hring, List.nil_append]
  refine ⟨hhalts, Side.forall_of_self_peer i ?_ ?_, Side.forall_of_self_peer i ?_ ?_,
    Side.forall_of_self_peer i ?_ ?_, Side.forall_of_self_peer i ?_ ?_, fun hall => ?_⟩
  · rw [hsending]
    exact Nat.zero_le _
  · rw [hpeer]
    exact hs.sending_le i.peer
  · rw [harrived]
    intro h
    cases h
  · rw [hpeer]
    exact hs.sync_last i.peer
  · rw [hpeer, hround, hinFlight]
    intro h
    rw [hs.behind i (by omega)]
    exact Nat.zero_le _
  · rw [hpeer, hwaits]
    intro _
    exact hs.sending_le i.peer
  · rw [hpeer, hround]
    intro h
    omega
  · -- the other node's SYNC of the round is processed, and nothing waits behind it
    rw [Side.peer_peer, hpeer, hround, hwaits]
    intro h
    rw [List.eq_nil_iff_forall_not_mem]
    intro msg hmem
    have hbool := Bool.toNat_le (s i.peer).arrived
    have hall : (s i.peer).arrived = true := by
      by_contra hnot
      rw [Bool.not_eq_true] at hnot
      rw [hnot, Bool.toNat_false] at hsent
      omega
    have hmem' : msg ∈ (s i.peer).inFlight.filter (·.type = msgTypeSync) := by
      rw [List.mem_filter, hwaits]
      exact ⟨hmem, by simpa using hs.sync_last i.peer hall msg hmem⟩
    have hpos : 0 < (syncRounds (s i.peer).inFlight).length := by
      rw [syncRounds, List.length_map]
      exact List.length_pos_of_mem hmem'
    omega
  · have h := (hall i).2
    rw [harrived] at h
    cases h

theorem TrafficNext.inStep {s s' : System} {ia : Side × Action} (h : TrafficNext s ia s')
    (hnext : Next s ia s') (htraffic : Traffic s ia) (hbarrier : InBarrier s)
    (hbarrier' : InBarrier s') (hnodes : ∀ i, (s i).InTraffic) (hs : InStep s) : InStep s' := by
  have hhalts := hnext.halts hbarrier hs.halts
  have settle {i : Side} {evs : List Event} (he : Emits (s i) (s' i) evs)
      (hevs : ∀ e ∈ evs, e.Silent)
      (hround : (s' i).wwt.currentQuantumRound = (s i).wwt.currentQuantumRound) :
      (s i).Settles (s' i) :=
    he.settles hevs (hbarrier.inRound i) (hbarrier'.inRound i) hround
  have hsteps := (hnext.inRound hbarrier fun i => (hbarrier'.inRound i).round_lt).2
  cases h with
  | @enter i msg rest _ hsending hself hpeer =>
      refine hs.settle hhalts (Side.forall_of_self_peer i ?_ ?_)
      · rw [hself]
        refine ⟨rfl, rfl, rfl, ?_, ?_⟩
        · rw [hsending]
          exact List.sublist_cons_self msg rest
        · simp [Node.inFlight, hsending]
      · rw [hpeer]
        exact .refl _
  | @receive i msg rest _ _ hring he hround hpeer =>
      refine hs.settle hhalts (Side.forall_of_self_peer i (settle he ?_ hround) ?_)
      · simp [Event.Silent]
      · rw [hpeer]
        refine ⟨rfl, rfl, rfl, List.Sublist.refl _, ?_⟩
        simp [Node.inFlight, hring]
  | @move i a _ hidle hring h hpeer =>
      have hmode := (hbarrier'.inRound i).sync.trans (hbarrier.inRound i).sync.symm
      have send {evs : List Event} {msg : Message} (he : Emits (s i) (s' i) evs)
          (hsent : sentIn evs = [msg])
          (hround : (s' i).wwt.currentQuantumRound = (s i).wwt.currentQuantumRound)
          (hnot : (s i).arrived = false)
          (harrive : (s' i).arrived = true → msg.type = msgTypeSync ∧ (s i.peer).ring = []) :
          InStep s' := by
        have hload := h.load hround hmode fun _ => ⟨hbarrier.inRound i, hbarrier'.inRound i⟩
        have hinFlight := congrArg List.length he.inFlight
        rw [hsent, List.length_append, List.length_singleton] at hinFlight
        refine hs.send hbarrier (hnodes i.peer).single hhalts hpeer hround ?_ ?_ hinFlight hnot
          harrive
        · omega
        · rw [he.sending, hidle.2, hsent, List.nil_append]
      generalize hn : s' i = n' at h
      cases h with
      | quiet he hevs hround =>
          rw [← hn] at he hround
          refine hs.settle hhalts (Side.forall_of_self_peer i (settle he hevs hround) ?_)
          rw [hpeer]
          exact .refl _
      | @send data msg htype =>
          have he := emits_send (s i) data msg
          have hround : (s' i).wwt.currentQuantumRound = (s i).wwt.currentQuantumRound := by
            rw [hn]
            rfl
          have hnot : (s i).arrived = false := by
            rw [Node.arrived, Bool.and_eq_false_iff]
            left
            by_contra hfinished
            rw [Bool.not_eq_false] at hfinished
            exact absurd (htraffic.symm.trans (hs.halts i hfinished)) (by decide)
          rw [← hn] at he
          have harrived := he.arrived (hbarrier.inRound i) (hbarrier'.inRound i)
          have hnone : syncRounds [msg] = [] := syncRounds_cons_other (by rw [htype]; decide) []
          refine send he rfl hround hnot fun h => ?_
          rw [hround, h, hnot] at harrived
          simp [sentIn, hnone] at harrived
      | @announce _ msg _ htype he hround =>
          rw [← hn] at he hround
          have harrived := he.arrived (hbarrier.inRound i) (hbarrier'.inRound i)
          have hone : (syncRounds (sentIn [.commSend msg])).length = 1 :=
            congrArg List.length (syncRounds_cons_sync htype [])
          have hbool := Bool.toNat_le (s' i).arrived
          refine send he rfl hround ?_ fun _ => ⟨htype, hring rfl⟩
          rw [← Bool.toNat_eq_zero]
          omega
      | pass he =>
          rw [← hn] at he
          have harrived := he.arrived (hbarrier.inRound i) (hbarrier'.inRound i)
          have hround : (s' i).wwt.currentQuantumRound = (s i).wwt.currentQuantumRound ∨
              ((s' i).wwt.currentQuantumRound = (s i).wwt.currentQuantumRound + 1 ∧
                (s i).wwt.currentQuantumRound < (s i).seen) := by
            rcases hsteps with hsame | hstep
            · exact Or.inl (congrArg Party.round (congrFun hsame i))
            · exact hstep.round i
          rcases hround with hround | ⟨hround, hseen⟩
          · refine hs.settle hhalts (Side.forall_of_self_peer i (settle he (by simp) hround) ?_)
            rw [hpeer]
            exact .refl _
          · have hbool := Bool.toNat_le (s i).arrived
            refine hs.pass hbarrier hhalts hpeer hround hseen ?_ ?_ ?_ (hring rfl)
            · rw [← Bool.toNat_eq_zero]
              have hnone : (syncRounds (sentIn [])).length = 0 := rfl
              omega
            · rw [he.sending, hidle.2]
              rfl
            · rw [he.inFlight]
              exact List.append_nil _

theorem inStep_created (cfg : Config) : InStep cfg.created where
  halts _ h := by cases h
  sending_le _ := Nat.zero_le _
  sync_last _ h := by cases h
  level _ _ := Nat.zero_le _
  behind _ h := absurd h (lt_irrefl 0)
  met _ := ⟨.left, Nat.zero_le 1⟩

/-- Two nodes that pass their quanta without a barrier, and the messages between them. -/
structure Unsynced (s : System) : Prop where
  off : ∀ i, (s i).wwt.shouldSync = false
  sending_le : ∀ i, (s i).sending.length ≤ (s i).load
  total : ∀ i, (s i).inFlight.length ≤ (s i).calls
  /-- The node that did not poll last has sent what is on its way in its quantum. -/
  level : ∃ i, (s i).inFlight.length ≤ (s i).load

theorem Node.load_of_off {n : Node} (h : n.wwt.shouldSync = false) :
    n.load = n.callsIn n.wwt.currentQuantumRound := by
  rw [Node.load, h]
  rfl

theorem calls_silent {n n' : Node} {evs : List Event} (he : Emits n n' evs)
    (hevs : ∀ e ∈ evs, e.Silent) : n'.calls = n.calls := by
  rw [he.calls]
  have hzero : evs.countP Event.isWwtSend = 0 := by
    rw [List.countP_eq_zero]
    intro e hmem
    have hsilent := hevs e hmem
    cases e <;> simp_all [Event.Silent, Event.isWwtSend]
  rw [hzero, Nat.add_zero]

/-- With sync off only the guest's packets are sent. -/
theorem TrafficMove.calls {n n' : Node} {a : Action} (h : TrafficMove n a n')
    (hoff : n.wwt.shouldSync = false) :
    n'.calls + n.inFlight.length = n.calls + n'.inFlight.length := by
  cases h with
  | quiet he hevs =>
      rw [calls_silent he hevs, he.inFlight, sentIn_silent hevs, List.append_nil]
  | @send data msg =>
      have he := emits_send n data msg
      have hcall : List.countP Event.isWwtSend
          [.wwtSend n.wwt.currentQuantumRound n.universalTime data, .commSend msg] = 1 := rfl
      have hsent : sentIn [.wwtSend n.wwt.currentQuantumRound n.universalTime data,
        .commSend msg] = [msg] := rfl
      rw [he.calls, he.inFlight, hcall, hsent, List.length_append, List.length_singleton]
      omega
  | announce hsync => exact absurd (hoff.symm.trans hsync) (by decide)
  | pass he =>
      rw [calls_silent he (by simp), he.inFlight]
      simp [sentIn]

theorem TrafficMove.passes {n n' : Node} {a : Action} (h : TrafficMove n a n')
    (hne : n'.wwt.currentQuantumRound ≠ n.wwt.currentQuantumRound) :
    a = .pollReturn ∧ Emits n n' [] := by
  cases h with
  | quiet _ _ hround | announce _ _ _ hround => exact absurd hround hne
  | send => exact absurd rfl hne
  | pass he => exact ⟨rfl, he⟩

theorem TrafficNext.unsynced {s s' : System} {ia : Side × Action} (h : TrafficNext s ia s')
    (hmode : ∀ i, (s' i).wwt.shouldSync = (s i).wwt.shouldSync) (hs : Unsynced s) :
    Unsynced s' := by
  have hoff : ∀ i, (s' i).wwt.shouldSync = false := fun i => (hmode i).trans (hs.off i)
  have hon (i : Side) : (s i).wwt.shouldSync = true → (s i).InRound ∧ (s' i).InRound := by
    intro hsync
    exact absurd ((hs.off i).symm.trans hsync) (by decide)
  obtain ⟨k, hk⟩ := hs.level
  cases h with
  | @enter i msg rest _ hsending hself hpeer =>
      have hload : (s' i).load = (s i).load := by rw [hself]; rfl
      have hinFlight : (s' i).inFlight = (s i).inFlight := by
        simp [hself, Node.inFlight, hsending]
      have hcalls : (s' i).calls = (s i).calls := by rw [hself]; rfl
      refine ⟨hoff, Side.forall_of_self_peer i ?_ ?_, Side.forall_of_self_peer i ?_ ?_, k, ?_⟩
      · have hle := hs.sending_le i
        rw [hsending, List.length_cons] at hle
        rw [hload, hself]
        exact (Nat.le_succ _).trans hle
      · rw [hpeer]
        exact hs.sending_le i.peer
      · rw [hinFlight, hcalls]
        exact hs.total i
      · rw [hpeer]
        exact hs.total i.peer
      · rcases Side.eq_or_eq_peer i k with rfl | rfl
        · rwa [hinFlight, hload]
        · rwa [hpeer]
  | @receive i msg rest _ _ hring he hround hpeer =>
      have hload : (s' i).load = (s i).load := by
        rw [he.load hround (hmode i) (hon i)]
        simp [Event.isWwtSendIn, sentIn, syncRounds]
      have hsilent : ∀ e ∈ [Event.processMessage msg], e.Silent := by simp [Event.Silent]
      have hinFlight : (s' i).inFlight = (s i).inFlight := by
        rw [he.inFlight, sentIn_silent hsilent, List.append_nil]
      have hless : (s' i.peer).inFlight.length ≤ (s i.peer).inFlight.length := by
        simp [hpeer, Node.inFlight, hring]
      refine ⟨hoff, Side.forall_of_self_peer i ?_ ?_, Side.forall_of_self_peer i ?_ ?_, k, ?_⟩
      · rw [he.sending, sentIn_silent hsilent, List.append_nil, hload]
        exact hs.sending_le i
      · rw [hpeer]
        exact hs.sending_le i.peer
      · rw [hinFlight, calls_silent he hsilent]
        exact hs.total i
      · refine hless.trans ?_
        rw [hpeer]
        exact hs.total i.peer
      · rcases Side.eq_or_eq_peer i k with rfl | rfl
        · rwa [hinFlight, hload]
        · refine hless.trans ?_
          rw [hpeer]
          exact hk
  | @move i a _ hidle hring h hpeer =>
      have htotal : (s' i).inFlight.length ≤ (s' i).calls := by
        have hcalls := h.calls (hs.off i)
        have hle := hs.total i
        omega
      obtain ⟨evs, he, _, _⟩ := h.sends
      have hsent : (s' i).sending.length = (sentIn evs).length := by
        rw [he.sending, hidle.2, List.nil_append]
      have hinFlight : (s' i).inFlight.length = (s i).inFlight.length + (sentIn evs).length := by
        rw [he.inFlight, List.length_append]
      by_cases hround : (s' i).wwt.currentQuantumRound = (s i).wwt.currentQuantumRound
      · have hload := h.load hround (hmode i) (hon i)
        refine ⟨hoff, Side.forall_of_self_peer i ?_ ?_, Side.forall_of_self_peer i htotal ?_, k, ?_⟩
        · omega
        · rw [hpeer]
          exact hs.sending_le i.peer
        · rw [hpeer]
          exact hs.total i.peer
        · rcases Side.eq_or_eq_peer i k with rfl | rfl
          · omega
          · rwa [hpeer]
      · -- the round is passed, on a poll that has emptied the neighbour's ring
        obtain ⟨rfl, hnone⟩ := h.passes hround
        refine ⟨hoff, Side.forall_of_self_peer i ?_ ?_, Side.forall_of_self_peer i htotal ?_,
          i.peer, ?_⟩
        · rw [hnone.sending, hidle.2]
          exact Nat.zero_le _
        · rw [hpeer]
          exact hs.sending_le i.peer
        · rw [hpeer]
          exact hs.total i.peer
        · rw [hpeer, Node.inFlight, hring rfl, List.nil_append]
          exact hs.sending_le i.peer

theorem unsynced_created {cfg : Config} (hoff : cfg.sync = false) : Unsynced cfg.created where
  off _ := hoff
  sending_le _ := Nat.zero_le _
  total _ := Nat.zero_le _
  level := ⟨.left, Nat.zero_le _⟩

/-! ### Both nodes wait -/

/-- Both nodes are inside the full-ring wait of `pdes_comm_send`. -/
def MutualWait (s : System) : Prop :=
  ∀ i, (s i).sending ≠ [] ∧ ¬HasRoom (some ringCapacity) (s i).ring

theorem hasRoom_some {c : Nat} {ring : List Message} :
    HasRoom (some c) ring ↔ ring.length < c := by
  simp [HasRoom]

/-- No callback runs and no message enters a ring. -/
theorem MutualWait.stuck {s : System} (h : MutualWait s) (ia : Side × Action) (s' : System) :
    step (some ringCapacity) s ia ≠ .ok s' := by
  obtain ⟨i, a⟩ := ia
  obtain ⟨hsending, hfull⟩ := h i
  have hbusy : ¬(s i).Idle := fun hidle => hsending hidle.2
  intro hstep
  by_cases hsend : a = .commSend
  · subst hsend
    rw [step] at hstep
    split at hstep
    · cases hstep
    · rw [if_neg hfull] at hstep
      cases hstep
  by_cases hpoll : a = .pollMessage
  · subst hpoll
    rw [step] at hstep
    split at hstep
    · rw [if_neg hbusy] at hstep
      cases hstep
    · cases hstep
  · rw [step_callback hsend hpoll, if_neg fun hall => hbusy hall.1] at hstep
    cases hstep

theorem MutualWait.full {s : System} (h : MutualWait s) (i : Side) :
    ringSize ≤ (s i).inFlight.length := by
  obtain ⟨hsending, hfull⟩ := h i
  rw [hasRoom_some, ringCapacity] at hfull
  have hpos := List.length_pos_iff.mpr hsending
  rw [Node.inFlight, List.length_append]
  omega

/-- Both guests have made enough calls of `wwt_send` to fill both rings. With sync on that takes one
round, in which each call and each node's SYNC takes a slot; with sync off the calls of one guest may
be spread over its quanta. -/
def Crowded : Bool → System → Prop
  | true, s => ∃ round, (∀ i, ringSize - 1 ≤ (s i).callsIn round) ∧
      ∃ i, ringSize ≤ (s i).callsIn round
  | false, s => ∃ i round, ringSize ≤ (s i).callsIn round ∧ ringSize ≤ (s i.peer).calls

theorem InStep.crowded {s : System} (hs : InStep s) (hwait : MutualWait s) : Crowded true s := by
  have htwo : 1 < ringSize := by decide
  have hbehind : ∀ i, (s i.peer).wwt.currentQuantumRound ≤ (s i).wwt.currentQuantumRound := by
    intro i
    by_contra hlt
    have hfull := hwait.full i
    rw [hs.behind i (not_le.mp hlt), List.length_nil] at hfull
    omega
  have hrounds : ∀ i, (s i).wwt.currentQuantumRound = (s i.peer).wwt.currentQuantumRound := by
    intro i
    have hpeer := hbehind i.peer
    rw [Side.peer_peer] at hpeer
    exact le_antisymm hpeer (hbehind i)
  have hround : ∀ i, (s i).wwt.currentQuantumRound = (s .left).wwt.currentQuantumRound :=
    Side.forall_of_self_peer .left rfl (hrounds .left).symm
  have hcalls : ∀ i, ringSize ≤
      (s i).callsIn (s .left).wwt.currentQuantumRound + (s i).arrived.toNat := by
    intro i
    have hlevel := (hwait.full i).trans (hs.level i (hrounds i))
    rw [Node.load, hround i] at hlevel
    refine hlevel.trans (Nat.add_le_add_left ?_ _)
    cases (s i).wwt.shouldSync <;> simp
  refine ⟨(s .left).wwt.currentQuantumRound, fun i => ?_, ?_⟩
  · have hle := hcalls i
    have hbool := Bool.toNat_le (s i).arrived
    omega
  · -- otherwise both SYNCs are sent, and the second one only after a poll
    by_contra hnone
    push Not at hnone
    obtain ⟨i, hfew⟩ := hs.met fun i => by
      refine ⟨hrounds i, ?_⟩
      have hle := hcalls i
      have hlt := hnone i
      rw [← Bool.toNat_eq_one]
      have hbool := Bool.toNat_le (s i).arrived
      omega
    have hfull := hwait.full i
    omega

theorem Unsynced.crowded {s : System} (hs : Unsynced s) (hwait : MutualWait s) :
    Crowded false s := by
  obtain ⟨i, hlevel⟩ := hs.level
  refine ⟨i, (s i).wwt.currentQuantumRound, ?_, ?_⟩
  · rw [← Node.load_of_off (hs.off i)]
    exact (hwait.full i).trans hlevel
  · exact (hwait.full i.peer).trans (hs.total i.peer)

/-- A step of packet traffic in which the two guests do not crowd the rings. -/
def UncrowdedStep (sync : Bool) (s : System) (ia : Side × Action) (s' : System) : Prop :=
  Traffic s ia ∧ (sync = true → RoundsFit s') ∧ ¬Crowded sync s'

theorem reaches_inTraffic {cfg : Config} {capacity : Option Nat} {s : System}
    (hs : cfg.Reaches capacity (UncrowdedStep cfg.sync) s) :
    (∀ i, (s i).InTraffic) ∧ (cfg.sync = true → InStep s) ∧ (cfg.sync = false → Unsynced s) := by
  refine Reachable.invariant (P := fun s => (∀ i, (s i).InTraffic) ∧ (cfg.sync = true → InStep s) ∧
    (cfg.sync = false → Unsynced s)) ?_ (fun s ia s' hs hinv hstep hguard => ?_) hs
  · rintro s rfl
    exact ⟨inTraffic_created cfg, fun _ => inStep_created cfg, unsynced_created⟩
  · obtain ⟨hnodes, hsynced, hunsynced⟩ := hinv
    obtain ⟨htraffic, hcalm, hmode⟩ := step_traffic hnodes hguard.1 hstep
    refine ⟨htraffic.inTraffic hnodes hcalm, fun hsync => ?_, fun hoff => ?_⟩
    · have hbarrier := reaches_inBarrier hsync (fun _ _ _ h => h.2.1 hsync) hs
      have hnext := step_next (fun i => (hbarrier.inRound i).sync) hstep
      have hbarrier' := hnext.inBarrier hbarrier (hguard.2.1 hsync)
      exact htraffic.inStep hnext hguard.1 hbarrier hbarrier' hnodes (hsynced hsync)
    · exact htraffic.unsynced hmode (hunsynced hoff)

/-- Where the two guests never crowd the rings, the two nodes never wait for each other's rings. -/
theorem no_mutual_wait {cfg : Config} {s : System}
    (hs : cfg.Reaches (some ringCapacity) (UncrowdedStep cfg.sync) s) : ¬MutualWait s := by
  intro hwait
  obtain ⟨_, hsynced, hunsynced⟩ := reaches_inTraffic hs
  have hcrowded : Crowded cfg.sync s := by
    cases hsync : cfg.sync with
    | true => exact (hsynced hsync).crowded hwait
    | false => exact (hunsynced hsync).crowded hwait
  cases hs with
  | start hinit =>
      subst hinit
      exact (hwait .left).1 rfl
  | next _ _ hguard => exact hguard.2.2 hcrowded

theorem uncrowded_of_short {sync : Bool} {s : System}
    (h : ∀ i, (s i).log.length < ringSize - 1) : ¬Crowded sync s := by
  have hfew (i : Side) (round : Nat) : (s i).callsIn round < ringSize - 1 :=
    List.countP_le_length.trans_lt (h i)
  cases sync with
  | true =>
      rintro ⟨round, hmany, _⟩
      exact absurd (hmany .left) (not_le.mpr (hfew .left round))
  | false =>
      rintro ⟨i, round, hmany, _⟩
      have hlt := hfew i round
      omega

/-- Both nodes pass round 0, and both guests send in round 1. -/
def bothSend : List (Side × Action) :=
  firstRound ++ [(.left, .wwtSend [1]), (.right, .wwtSend [2]), (.left, .commSend),
    (.left, .wwtSend [3])]

set_option maxRecDepth 100000 in
theorem no_mutual_wait_bothSend :
    ∃ s, twoNodes.Reaches (some ringCapacity) (UncrowdedStep true) s ∧
      (∀ i, (s i).sending ≠ []) ∧ ¬MutualWait s := by
  have hrun : (run (step (some ringCapacity)) (fun s ia s' => Traffic s ia ∧ RoundsFit s' ∧
      ∀ i, (s' i).log.length < ringSize - 1) twoNodes.created bothSend).map
      (fun s => decide (∀ i, (s i).sending ≠ [])) = some true := by decide
  obtain ⟨s, hs, hfacts⟩ := Option.map_eq_some_iff.mp hrun
  have hreach : twoNodes.Reaches (some ringCapacity) (UncrowdedStep true) s := by
    refine Reachable.mono (fun _ h => h) ?_ (Config.Reaches.of_run hs)
    rintro s ia s' ⟨htraffic, hfit, hshort⟩
    exact ⟨htraffic, fun _ => hfit, uncrowded_of_short hshort⟩
  exact ⟨s, hreach, of_decide_eq_true hfacts, no_mutual_wait hreach⟩

/-- A step of packet traffic under QEMU's promises. -/
def TimelyTraffic (s : System) (ia : Side × Action) (s' : System) : Prop :=
  Traffic s ia ∧ TimelyStep s ia s'

instance (s : System) (ia : Side × Action) (s' : System) : Decidable (TimelyTraffic s ia s') :=
  inferInstanceAs (Decidable (_ ∧ _))

/-- Both nodes run their quanta, below every bound. -/
structure Playing (s : System) : Prop where
  past : ∀ i, (s i).PastSetup
  rounds : RoundsFit s
  times : TimesFit s

instance (s : System) : Decidable (Playing s) :=
  decidable_of_iff ((∀ i, (s i).PastSetup) ∧ RoundsFit s ∧ TimesFit s)
    ⟨fun h => ⟨h.1, h.2.1, h.2.2⟩, fun h => ⟨h.past, h.rounds, h.times⟩⟩

/-- A node whose guest can send. -/
structure Node.Ready (n : Node) : Prop where
  idle : n.Idle
  playing : n.engine.paused = false
  synced : n.engine.firstSyncTime ≠ -1
  biased : n.engine.firstSyncVirtualTime ≠ -1

instance (n : Node) : Decidable n.Ready :=
  decidable_of_iff (n.Idle ∧ n.engine.paused = false ∧ n.engine.firstSyncTime ≠ -1 ∧
    n.engine.firstSyncVirtualTime ≠ -1)
    ⟨fun h => ⟨h.1, h.2.1, h.2.2.1, h.2.2.2⟩, fun h => ⟨h.idle, h.playing, h.synced, h.biased⟩⟩

/-- The node differs in its messages and its log alone. -/
structure Node.SameQuantum (n n' : Node) : Prop where
  engine : n'.engine = n.engine
  wwt : n'.wwt = n.wwt
  exited : n'.exitCalled = n.exitCalled

theorem Node.Ready.of_same {n n' : Node} (h : n.SameQuantum n') (hn : n.Ready)
    (hsending : n'.sending = []) : n'.Ready := by
  refine ⟨⟨h.exited.trans hn.idle.1, hsending⟩, ?_, ?_, ?_⟩
  · rw [h.engine]
    exact hn.playing
  · rw [h.engine]
    exact hn.synced
  · rw [h.engine]
    exact hn.biased

theorem Playing.of_same {s s' : System} (hs : Playing s)
    (h : ∀ i, (s i).SameQuantum (s' i)) : Playing s' := by
  refine ⟨fun i => ?_, fun i => ?_, fun i => ?_⟩
  · rw [Node.PastSetup, (h i).wwt]
    exact hs.past i
  · rw [(h i).wwt]
    exact hs.rounds i
  · rw [Node.Fits, (h i).wwt, (h i).engine]
    exact hs.times i

theorem sameQuantum_update {s : System} {i : Side} {n : Node} (h : (s i).SameQuantum n) :
    ∀ j, (s j).SameQuantum (Function.update s i n j) := by
  refine Side.forall_of_self_peer i ?_ ?_
  · rwa [Function.update_self]
  · rw [Function.update_of_ne (Side.peer_ne i)]
    exact ⟨rfl, rfl, rfl⟩

theorem wwtSend_ready {n : Node} {data : List UInt8} (hn : n.Ready)
    (hdata : data.length ≤ maxMsgSize) :
    ∃ msg, wwtSend n data = .ok (pdesCommSend (n.logSend data) msg) := by
  have htime : getUniversalVirtualTime n = .ok n.universalTime := by
    rw [getUniversalVirtualTime, if_neg hn.biased]
  obtain ⟨msg, hmsg⟩ : ∃ msg, n.packet data = .ok msg := ⟨_, dif_pos hdata⟩
  rw [Node.packet] at hmsg
  refine ⟨msg, ?_⟩
  simp only [wwtSend, htime, bind, Except.bind, hmsg]
  exact if_neg hn.synced

variable {cfg : Config} {s : System} {i : Side} {data : List UInt8}

/-- The guest sends a packet. -/
theorem reaches_send (hs : cfg.Reaches (some ringCapacity) TimelyTraffic s) (hplay : Playing s)
    (hready : (s i).Ready) (hdata : data.length ≤ maxMsgSize) :
    ∃ s' msg, cfg.Reaches (some ringCapacity) TimelyTraffic s' ∧
      (∀ j, (s j).SameQuantum (s' j)) ∧ (s' i).sending = [msg] ∧ (s' i).ring = (s i).ring ∧
      s' i.peer = s i.peer := by
  obtain ⟨msg, hsend⟩ := wwtSend_ready hready hdata
  have hsame := sameQuantum_update (s := s) (i := i)
    (n := pdesCommSend ((s i).logSend data) msg) ⟨rfl, rfl, rfl⟩
  have hplay' := hplay.of_same hsame
  refine ⟨Function.update s i (pdesCommSend ((s i).logSend data) msg), msg,
    .next (a := (i, .wwtSend data)) hs ?_ ⟨hready.playing, ⟨hready.playing, hplay.past⟩,
      hplay'.rounds, hplay'.times⟩, hsame, ?_, ?_, ?_⟩
  · rw [step_callback (by simp) (by simp), if_pos ⟨hready.idle, by simp⟩, Node.act, callback,
      if_pos trivial, hsend]
    rfl
  · rw [Function.update_self, pdesCommSend, Node.logSend, hready.idle.2]
    rfl
  · rw [Function.update_self]
    rfl
  · rw [Function.update_of_ne (Side.peer_ne i)]

/-- A packet that waits enters a ring that has room. -/
theorem reaches_enter (hs : cfg.Reaches (some ringCapacity) TimelyTraffic s) (hplay : Playing s)
    {msg : Message} (hsending : (s i).sending = [msg]) (hroom : (s i).ring.length < ringCapacity) :
    ∃ s', cfg.Reaches (some ringCapacity) TimelyTraffic s' ∧
      (∀ j, (s j).SameQuantum (s' j)) ∧ (s' i).sending = [] ∧
      (s' i).ring.length = (s i).ring.length + 1 ∧ s' i.peer = s i.peer := by
  have hsame := sameQuantum_update (s := s) (i := i)
    (n := { s i with sending := [], ring := (s i).ring ++ [msg] }) ⟨rfl, rfl, rfl⟩
  have hplay' := hplay.of_same hsame
  refine ⟨Function.update s i { s i with sending := [], ring := (s i).ring ++ [msg] },
    .next (a := (i, .commSend)) hs ?_ ⟨rfl, trivial, hplay'.rounds, hplay'.times⟩, hsame, ?_, ?_,
    ?_⟩
  · simp only [step, hsending]
    rw [if_pos (hasRoom_some.mpr hroom)]
  · rw [Function.update_self]
  · rw [Function.update_self, List.length_append, List.length_singleton]
  · rw [Function.update_of_ne (Side.peer_ne i)]

/-- A guest fills its node's ring and sends once more. -/
theorem reaches_full {room : Nat} (hs : cfg.Reaches (some ringCapacity) TimelyTraffic s)
    (hplay : Playing s) (hready : (s i).Ready) (hdata : data.length ≤ maxMsgSize)
    (hroom : (s i).ring.length + room = ringCapacity) :
    ∃ s', cfg.Reaches (some ringCapacity) TimelyTraffic s' ∧ Playing s' ∧
      (s' i).sending ≠ [] ∧ (s' i).ring.length = ringCapacity ∧ s' i.peer = s i.peer := by
  induction room generalizing s with
  | zero =>
      obtain ⟨s', msg, hs', hsame, hsending, hring, hpeer⟩ := reaches_send hs hplay hready hdata
      refine ⟨s', hs', hplay.of_same hsame, ?_, ?_, hpeer⟩
      · rw [hsending]
        exact List.cons_ne_nil msg []
      · rw [hring]
        exact hroom
  | succ room ih =>
      obtain ⟨s₁, msg, hs₁, hsame₁, hsending₁, hring₁, hpeer₁⟩ :=
        reaches_send hs hplay hready hdata
      have hplay₁ := hplay.of_same hsame₁
      obtain ⟨s₂, hs₂, hsame₂, hsending₂, hring₂, hpeer₂⟩ :=
        reaches_enter hs₁ hplay₁ hsending₁ (by rw [hring₁]; omega)
      have hsame : (s i).SameQuantum (s₂ i) :=
        ⟨(hsame₂ i).engine.trans (hsame₁ i).engine, (hsame₂ i).wwt.trans (hsame₁ i).wwt,
          (hsame₂ i).exited.trans (hsame₁ i).exited⟩
      obtain ⟨s', hs', hplay', hsending', hring', hpeer'⟩ :=
        ih hs₂ (hplay₁.of_same hsame₂) (hready.of_same hsame hsending₂)
          (by rw [hring₂, hring₁]; omega)
      exact ⟨s', hs', hplay', hsending', hring', hpeer'.trans (hpeer₂.trans hpeer₁)⟩

set_option maxRecDepth 100000 in
/-- Both guests make `RING_SIZE` calls of `wwt_send` in round 1, and neither node moves again. -/
theorem mutualWait_of_crowded :
    ∃ s, twoNodes.Reaches (some ringCapacity) TimelyTraffic s ∧ MutualWait s ∧
      ∀ ia s', step (some ringCapacity) s ia ≠ .ok s' := by
  have hrun : (run (step (some ringCapacity)) TimelyTraffic twoNodes.created firstRound).map
      (fun s => decide (Playing s ∧ ∀ i, (s i).Ready ∧ (s i).ring = [])) = some true := by decide
  obtain ⟨s₀, hs₀, hfacts⟩ := Option.map_eq_some_iff.mp hrun
  obtain ⟨hplay₀, hnodes⟩ := of_decide_eq_true hfacts
  have hroom (i : Side) : (s₀ i).ring.length + ringCapacity = ringCapacity := by
    rw [(hnodes i).2, List.length_nil, Nat.zero_add]
  have hdata : ([1] : List UInt8).length ≤ maxMsgSize := by decide
  obtain ⟨s₁, hs₁, hplay₁, hsending₁, hring₁, hpeer₁⟩ :=
    reaches_full (i := .left) (.of_run hs₀) hplay₀ (hnodes .left).1 hdata (hroom .left)
  have hright : s₁ .right = s₀ .right := hpeer₁
  obtain ⟨s₂, hs₂, _, hsending₂, hring₂, hpeer₂⟩ :=
    reaches_full (i := .right) hs₁ hplay₁ (hright ▸ (hnodes .right).1) hdata
      (hright ▸ hroom .right)
  have hleft : s₂ .left = s₁ .left := hpeer₂
  have hwait : MutualWait s₂ := by
    refine Side.forall_of_self_peer .right ⟨hsending₂, ?_⟩ ?_
    · rw [hasRoom_some, hring₂]
      exact lt_irrefl _
    · change (s₂ .left).sending ≠ [] ∧ _
      rw [Side.peer, hleft, hasRoom_some, hring₁]
      exact ⟨hsending₁, lt_irrefl _⟩
  exact ⟨s₂, hs₂, hwait, hwait.stuck⟩

end LeanPdes
