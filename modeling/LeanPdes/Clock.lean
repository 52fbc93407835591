import LeanPdes.Rounds

/-! Virtual time. QEMU stops the clock of a node at the end of its quantum and while the node is
paused; with that, the barrier keeps each node's universal time inside its round and the two
universal times within one quantum of each other. -/

namespace LeanPdes

open Words TwoParty Reach

def QEMUTimer.deadline : QEMUTimer Int → Option Int
  | .armed expire => some expire
  | _ => none

/-- `setup_wwt` has run. -/
def Node.PastSetup (n : Node) : Prop := n.wwt.quantumTimer ≠ .null

instance (n : Node) : Decidable n.PastSetup := inferInstanceAs (Decidable (¬_))

/-- What QEMU promises about a step: the clock stands still while the VM is paused and does not pass
the quantum timer, the timer does not fire early, and a packet comes from a running guest. That the
guests send only once both nodes are set up is the scope of these runs: nothing in QEMU ensures it. -/
def Timely (s : System) : Side × Action → Prop
  | (i, .advance t) =>
      (s i).engine.paused = false ∧ ∀ e ∈ (s i).wwt.quantumTimer.deadline, (t : Int) ≤ e
  | (i, .wwtSend _) => (s i).engine.paused = false ∧ ∀ j, (s j).PastSetup
  | (i, .quantaSync) => ∀ e ∈ (s i).wwt.quantumTimer.deadline, e ≤ (s i).virtualClock
  | _ => True

instance (s : System) (ia : Side × Action) : Decidable (Timely s ia) :=
  match ia with
  | (i, .advance t) =>
      inferInstanceAs (Decidable (_ ∧ ∀ e ∈ (s i).wwt.quantumTimer.deadline, (t : Int) ≤ e))
  | (_, .wwtSend _) => inferInstanceAs (Decidable (_ ∧ ∀ j, (s j).PastSetup))
  | (i, .quantaSync) =>
      inferInstanceAs (Decidable (∀ e ∈ (s i).wwt.quantumTimer.deadline, e ≤ (s i).virtualClock))
  | (_, .setup) | (_, .deliver _) | (_, .pollTimer) | (_, .pollMessage) | (_, .pollReturn)
  | (_, .syncCheck) | (_, .pauseBh) | (_, .checkpointBh) | (_, .commSend)
  | (_, .finishInitiateCheckpoint) | (_, .canStop) | (_, .notifyNeighboursOfEnd)
  | (_, .engineDestroy) => .isTrue trivial

/-- The end of the next round fits the clock's 64 bits. -/
def Node.Fits (n : Node) (round : Nat) : Prop :=
  ((round : Int) + 1) * n.wwt.latencyns + n.engine.firstSyncVirtualTime < 2 ^ 63

instance (n : Node) (round : Nat) : Decidable (n.Fits round) := inferInstanceAs (Decidable (_ < _))

/-- On both nodes the end of the node's own next round fits. -/
def TimesFit (s : System) : Prop := ∀ i, (s i).Fits (s i).wwt.currentQuantumRound

instance (s : System) : Decidable (TimesFit s) :=
  inferInstanceAs (Decidable (∀ i, (s i).Fits (s i).wwt.currentQuantumRound))

/-- The steps of a run under QEMU's promises, with no overflow. -/
def TimelyStep (s : System) (ia : Side × Action) (s' : System) : Prop :=
  Timely s ia ∧ RoundsFit s' ∧ TimesFit s'

instance (s : System) (ia : Side × Action) (s' : System) : Decidable (TimelyStep s ia s') :=
  inferInstanceAs (Decidable (_ ∧ _ ∧ _))

/-- The virtual time since the node's set-up, before the subtraction is cut to 64 bits. -/
def Node.elapsed (n : Node) : Int := n.virtualClock - n.engine.firstSyncVirtualTime

/-- The clock of a node past its set-up stands inside the node's round. -/
structure Node.InQuantum (q : Int) (n : Node) : Prop where
  bias_nonneg : 0 ≤ n.engine.firstSyncVirtualTime
  bias_le : n.engine.firstSyncVirtualTime ≤ n.virtualClock
  fits : n.Fits n.wwt.currentQuantumRound
  le_end : n.elapsed ≤ n.wwt.currentQuantumRound * q
  start_le : n.wwt.currentQuantumRound * q ≤ n.elapsed + q
  at_end : n.wwt.finishedQuantum = true → n.elapsed = n.wwt.currentQuantumRound * q
  paused : n.wwt.finishedQuantum = true → n.engine.paused = true
  /-- The quantum timer stands at the end of the round; in round 0 it is armed in the past. -/
  timer : ∀ e ∈ n.wwt.quantumTimer.deadline,
    e = n.wwt.currentQuantumRound * q + n.engine.firstSyncVirtualTime ∨
      (e = 0 ∧ n.wwt.currentQuantumRound = 0)

/-- A node's own part of the clock invariant. -/
structure Node.Timed (q : Int) (n : Node) : Prop where
  latency : n.wwt.latencyns = q
  quantum : n.wwt.quantumNs = q
  clock_lt : n.virtualClock < 2 ^ 63
  stopped : n.wwt.quantumTimer = .stopped → n.wwt.finishedQuantum = true
  before : ¬n.PastSetup → n.wwt.currentQuantumRound = 0
  after : n.PastSetup → n.InQuantum q

theorem Node.InQuantum.universalTime {q : Int} {n : Node} (h : n.InQuantum q)
    (hclock : n.virtualClock < 2 ^ 63) : n.universalTime = n.elapsed := by
  have hnonneg := h.bias_nonneg
  have hle := h.bias_le
  rw [Node.universalTime, Node.elapsed]
  apply int64_eq_self
  · omega
  · omega

/-- The step leaves the clock, the round and the quantum timer alone. -/
structure SameClock (n n' : Node) : Prop where
  wwt : n'.wwt = { n.wwt with
    syncCheckTimer := n'.wwt.syncCheckTimer, syncCounts := n'.wwt.syncCounts }
  clock : n'.virtualClock = n.virtualClock
  bias : n'.engine.firstSyncVirtualTime = n.engine.firstSyncVirtualTime
  paused : n'.engine.paused = n.engine.paused

theorem Control.sameClock {n n' : Node} (h : Control n n') : SameClock n n' where
  wwt := by
    have hcounts : n'.wwt.syncCounts = n.wwt.syncCounts := by rw [h.wwt]
    rw [hcounts]
    exact h.wwt
  clock := h.clock
  bias := h.bias
  paused := h.paused

theorem SameClock.elapsed {n n' : Node} (h : SameClock n n') : n'.elapsed = n.elapsed := by
  rw [Node.elapsed, Node.elapsed, h.clock, h.bias]

theorem SameClock.pastSetup {n n' : Node} (h : SameClock n n') : n'.PastSetup ↔ n.PastSetup := by
  have hquantum : n'.wwt.quantumTimer = n.wwt.quantumTimer := by rw [h.wwt]
  rw [Node.PastSetup, Node.PastSetup, hquantum]

theorem SameClock.timed {q : Int} {n n' : Node} (h : SameClock n n') (hn : n.Timed q) :
    n'.Timed q := by
  have hround : n'.wwt.currentQuantumRound = n.wwt.currentQuantumRound := by rw [h.wwt]
  have hquantum : n'.wwt.quantumTimer = n.wwt.quantumTimer := by rw [h.wwt]
  have hfinished : n'.wwt.finishedQuantum = n.wwt.finishedQuantum := by rw [h.wwt]
  have hlatency : n'.wwt.latencyns = n.wwt.latencyns := by rw [h.wwt]
  have hns : n'.wwt.quantumNs = n.wwt.quantumNs := by rw [h.wwt]
  refine ⟨hlatency.trans hn.latency, hns.trans hn.quantum, h.clock ▸ hn.clock_lt, ?_, ?_, ?_⟩
  · rw [hquantum, hfinished]
    exact hn.stopped
  · rw [h.pastSetup, hround]
    exact hn.before
  · intro hpast
    have hin := hn.after (h.pastSetup.mp hpast)
    refine ⟨?_, ?_, ?_, ?_, ?_, ?_, ?_, ?_⟩
    · rw [h.bias]
      exact hin.bias_nonneg
    · rw [h.bias, h.clock]
      exact hin.bias_le
    · rw [Node.Fits, hround, hlatency, h.bias]
      exact hin.fits
    · rw [h.elapsed, hround]
      exact hin.le_end
    · rw [h.elapsed, hround]
      exact hin.start_le
    · rw [h.elapsed, hround, hfinished]
      exact hin.at_end
    · rw [h.paused, hfinished]
      exact hin.paused
    · rw [hquantum, hround, h.bias]
      exact hin.timer

/-- The clock of a node that is set up starts at zero. -/
theorem setupWwt_timed {q : Int} {n : Node} (hq : 0 ≤ q) (hn : n.Timed q)
    (hnull : n.wwt.quantumTimer = .null) (hrunning : n.wwt.finishedQuantum = false)
    (hfits : (setupWwt n).Fits (setupWwt n).wwt.currentQuantumRound) : (setupWwt n).Timed q := by
  have hround : n.wwt.currentQuantumRound = 0 := hn.before (fun hpast => hpast hnull)
  have helapsed : (setupWwt n).elapsed = 0 := sub_self _
  refine ⟨hn.latency, hn.quantum, hn.clock_lt, (fun hstopped => by cases hstopped), fun _ => hround,
    fun _ => ⟨?_, le_rfl, hfits, ?_, ?_, ?_, ?_, ?_⟩⟩
  · exact Int.natCast_nonneg _
  · rw [helapsed]
    simp [setupWwt, hround]
  · rw [helapsed]
    simpa [setupWwt, hround] using hq
  · intro hfinished
    exact absurd (hrunning.symm.trans hfinished) (by decide)
  · intro hfinished
    exact absurd (hrunning.symm.trans hfinished) (by decide)
  · intro e he
    right
    simpa [setupWwt, timerMod, QEMUTimer.deadline, hround, eq_comm] using he

/-- The quantum timer of a running node is armed. -/
theorem Node.Timed.armed {q : Int} {n : Node} (hn : n.Timed q) (hpast : n.PastSetup)
    (hrunning : n.wwt.finishedQuantum = false) : ∃ e, n.wwt.quantumTimer = .armed e := by
  cases htimer : n.wwt.quantumTimer with
  | null => exact absurd htimer hpast
  | stopped => exact absurd (hrunning.symm.trans (hn.stopped htimer)) (by decide)
  | armed e => exact ⟨e, rfl⟩

/-- The clock moves up to the quantum timer at most. -/
theorem advance_timed {q : Int} {n : Node} {t : Nat} (hn : n.Timed q) (hle : n.virtualClock ≤ t)
    (hlt : t < 2 ^ 63) (hpaused : n.engine.paused = false)
    (htimer : ∀ e ∈ n.wwt.quantumTimer.deadline, (t : Int) ≤ e) :
    ({ n with virtualClock := t } : Node).Timed q := by
  refine ⟨hn.latency, hn.quantum, hlt, hn.stopped, hn.before, fun hpast => ?_⟩
  have hin := hn.after hpast
  have hrunning : n.wwt.finishedQuantum = false := by
    by_contra hfinished
    rw [Bool.not_eq_false] at hfinished
    exact absurd (hpaused.symm.trans (hin.paused hfinished)) (by decide)
  obtain ⟨e, he⟩ := hn.armed hpast hrunning
  have hmem : e ∈ n.wwt.quantumTimer.deadline := by rw [he]; rfl
  have hbias := hin.bias_nonneg
  have hbias' := hin.bias_le
  have hstart := hin.start_le
  rw [Node.elapsed] at hstart
  refine ⟨hbias, ?_, hin.fits, ?_, ?_, ?_, hin.paused, hin.timer⟩
  · show n.engine.firstSyncVirtualTime ≤ (t : Int)
    omega
  · show (t : Int) - n.engine.firstSyncVirtualTime ≤ n.wwt.currentQuantumRound * q
    have ht := htimer e hmem
    rcases hin.timer e hmem with hend | ⟨hzero, hround⟩
    · omega
    · rw [hround, Nat.cast_zero, zero_mul]
      omega
  · show n.wwt.currentQuantumRound * q ≤ (t : Int) - n.engine.firstSyncVirtualTime + q
    omega
  · intro hfinished
    exact absurd (hrunning.symm.trans hfinished) (by decide)

/-- The quantum timer fires at the end of the round. -/
theorem enterQuantaSync_timed {q : Int} {n : Node} (hn : n.Timed q)
    (harmed : n.wwt.quantumTimer.isArmed = true)
    (htimer : ∀ e ∈ n.wwt.quantumTimer.deadline, e ≤ n.virtualClock) :
    n.enterQuantaSync.Timed q := by
  have hpast : n.PastSetup := by
    intro hnull
    rw [hnull] at harmed
    cases harmed
  have hin := hn.after hpast
  refine ⟨hn.latency, hn.quantum, hn.clock_lt, fun _ => rfl, ?_, fun _ => ?_⟩
  · intro hnot
    exact absurd (by simp [Node.PastSetup, Node.enterQuantaSync]) hnot
  · refine ⟨hin.bias_nonneg, hin.bias_le, hin.fits, hin.le_end, hin.start_le, fun _ => ?_,
      fun _ => rfl, ?_⟩
    · show n.elapsed = n.wwt.currentQuantumRound * q
      have hend := hin.le_end
      have hbias := hin.bias_le
      rw [Node.elapsed] at hend ⊢
      cases hquantum : n.wwt.quantumTimer with
      | null => exact absurd hquantum hpast
      | stopped =>
          rw [hquantum] at harmed
          cases harmed
      | armed e =>
          have hmem : e ∈ n.wwt.quantumTimer.deadline := by rw [hquantum]; rfl
          have he := htimer e hmem
          rcases hin.timer e hmem with heq | ⟨hzero, hround⟩
          · omega
          · rw [hround, Nat.cast_zero, zero_mul] at hend ⊢
            omega
    · intro e he
      cases he

/-- The end of a round that fits is computed exactly. -/
theorem Node.quantumEnd_eq {q : Int} {n : Node} (hq : 0 < q) (hn : n.Timed q) {round : Nat}
    (hbias : 0 ≤ n.engine.firstSyncVirtualTime) (hfits : n.Fits round) :
    n.quantumEnd round = round * q + n.engine.firstSyncVirtualTime := by
  rw [Node.Fits, hn.latency, add_one_mul] at hfits
  have hnonneg : 0 ≤ (round : Int) * q := by positivity
  have hproduct : int64 ((round : Int) * q) = round * q := by
    apply int64_eq_self
    · omega
    · omega
  rw [Node.quantumEnd, hn.quantum, hproduct]
  apply int64_eq_self
  · omega
  · omega

/-- The next round's timer is armed for its end. -/
theorem beginQuantum_timed {q : Int} {n : Node} (hq : 0 < q) (hn : n.Timed q) (hround : n.InRound)
    (hpast : n.PastSetup) (hfinished : n.wwt.finishedQuantum = true)
    (hfits : (beginQuantum n).Fits (beginQuantum n).wwt.currentQuantumRound) :
    (beginQuantum n).Timed q := by
  rw [beginQuantum_of_sync hround.sync hround.round_lt] at hfits ⊢
  have hin := hn.after hpast
  have hend := hin.at_end hfinished
  have hbias := hin.bias_nonneg
  have hnext := n.quantumEnd_eq hq hn hbias hfits
  push_cast at hnext
  have hstart : 0 ≤ (n.wwt.currentQuantumRound : Int) * q := by positivity
  refine ⟨hn.latency, hn.quantum, hn.clock_lt, (fun hstopped => by cases hstopped), ?_,
    fun _ => ⟨hbias, hin.bias_le, hfits, ?_, ?_, ?_, ?_, ?_⟩⟩
  · intro hnot
    exact absurd (by simp [Node.PastSetup, timerMod]) hnot
  · show n.elapsed ≤ ((n.wwt.currentQuantumRound + 1 : Nat) : Int) * q
    push_cast
    rw [hend, add_one_mul]
    omega
  · show ((n.wwt.currentQuantumRound + 1 : Nat) : Int) * q ≤ n.elapsed + q
    push_cast
    rw [hend, add_one_mul]
  · intro h
    cases h
  · intro h
    cases h
  · intro e he
    left
    have he' : max (n.quantumEnd (n.wwt.currentQuantumRound + 1)) 0 = e := Option.some.inj he
    show e = ((n.wwt.currentQuantumRound + 1 : Nat) : Int) * q + n.engine.firstSyncVirtualTime
    push_cast
    rw [← he', hnext, add_one_mul]
    omega

theorem Move.timed {q : Int} {n n' : Node} {a : Action} (hq : 0 < q) (h : Move n a n')
    (hround : n.InRound) (hn : n.Timed q) (hfits : n'.Fits n'.wwt.currentQuantumRound)
    (hadvance : ∀ t, a = .advance t → n.engine.paused = false ∧
      ∀ e ∈ n.wwt.quantumTimer.deadline, (t : Int) ≤ e)
    (hfire : a = .quantaSync → ∀ e ∈ n.wwt.quantumTimer.deadline, e ≤ n.virtualClock) :
    n'.Timed q := by
  have hleft : ({ n with site := none } : Node).Timed q := SameClock.timed ⟨rfl, rfl, rfl, rfl⟩ hn
  cases h with
  | control h => exact h.sameClock.timed hn
  | setup hnull => exact setupWwt_timed hq.le hn hnull (hround.running (by simp [hnull])) hfits
  | @advance t hle hlt =>
      obtain ⟨hpaused, htimer⟩ := hadvance t rfl
      exact advance_timed hn hle hlt hpaused htimer
  | wwtSend | deliver | pollTimer | pollDone | syncCheck | wait | again =>
      exact SameClock.timed ⟨rfl, rfl, rfl, rfl⟩ hn
  | quantaSync _ harmed => exact enterQuantaSync_timed hn harmed (hfire rfl)
  | leave _ h => exact h.sameClock.timed hleft
  | @arrive _ n₁ h msg _ =>
      have hsame : SameClock n₁ (pdesCommSend n₁ msg).recheck := ⟨rfl, rfl, rfl, rfl⟩
      exact hsame.timed (h.sameClock.timed hleft)
  | hold _ h => exact SameClock.timed ⟨rfl, rfl, rfl, rfl⟩ (h.sameClock.timed hleft)
  | @pass hsite _ n₁ h =>
      have hfinished : n.wwt.finishedQuantum = true :=
        hround.polling (by simp [hsite]) (by simp [hsite])
      have hfinished₁ : n₁.wwt.finishedQuantum = true := by
        rw [h.wwt]
        exact hfinished
      have hround₁ := (h.inRound (hround.leavePoll (Or.inl hsite)).1).1
      have hpast₁ : n₁.PastSetup := by
        intro hnull
        exact absurd ((hround₁.running (by simp [hnull])).symm.trans hfinished₁) (by decide)
      exact beginQuantum_timed hq (h.sameClock.timed hleft) hround₁ hpast₁ hfinished₁ hfits

theorem Receive.sameClock {n n' : Node} {msg : Message} (h : Receive n msg n') :
    SameClock n n' := by
  cases h with
  | sync | packet => exact ⟨rfl, rfl, rfl, rfl⟩
  | control _ h => exact ⟨h.sameClock.wwt, h.clock, h.bias, h.paused⟩

/-- The clock invariant of both nodes. -/
def InTime (q : Int) (s : System) : Prop := ∀ i, (s i).Timed q

theorem Next.inTime {q : Int} {s s' : System} {ia : Side × Action} (hq : 0 < q) (h : Next s ia s')
    (hbarrier : InBarrier s) (hs : InTime q s) (htimely : Timely s ia) (hfit : TimesFit s') :
    InTime q s' := by
  cases h with
  | @commSend i msg rest _ =>
      refine Side.forall_of_self_peer i ?_ ?_
      · rw [Function.update_self]
        exact SameClock.timed ⟨rfl, rfl, rfl, rfl⟩ (hs i)
      · rw [Function.update_of_ne (Side.peer_ne i)]
        exact hs i.peer
  | @receive i msg rest n' _ _ h =>
      refine Side.forall_of_self_peer i ?_ ?_
      · rw [Function.update_self]
        exact h.sameClock.timed (hs i)
      · rw [Function.update_of_ne (Side.peer_ne i), Function.update_self]
        exact SameClock.timed ⟨rfl, rfl, rfl, rfl⟩ (hs i.peer)
  | @move i a n' _ _ h =>
      refine Side.forall_of_self_peer i ?_ ?_
      · have hfits := hfit i
        rw [Function.update_self] at hfits ⊢
        refine h.timed hq (hbarrier.inRound i) (hs i) hfits ?_ ?_
        · rintro t rfl
          exact htimely
        · rintro rfl
          exact htimely
      · rw [Function.update_of_ne (Side.peer_ne i)]
        exact hs i.peer

theorem inTime_created (cfg : Config) : InTime cfg.latencyns cfg.created := fun i =>
  { latency := rfl
    quantum := rfl
    clock_lt := cfg.clock_lt i
    stopped := fun h => by cases h
    before := fun _ => rfl
    after := fun h => absurd rfl h }

theorem reaches_inTime {cfg : Config} {capacity : Option Nat}
    {guard : System → Side × Action → System → Prop} (hsync : cfg.sync = true)
    (hq : 0 < cfg.latencyns) (hguard : ∀ s a s', guard s a s' → TimelyStep s a s') {s : System}
    (hs : cfg.Reaches capacity guard s) : InTime cfg.latencyns s := by
  refine hs.invariant (fun _ h => h ▸ inTime_created cfg) ?_
  intro s a s' hs htime hstep hg
  have hinv := reaches_inBarrier hsync (fun s a s' h => (hguard s a s' h).2.1) hs
  have hnext := step_next (fun i => (hinv.inRound i).sync) hstep
  exact hnext.inTime hq hinv htime (hguard s a s' hg).1 (hguard s a s' hg).2.2

/-! ### Skew -/

/-- A node's universal time stands in its round. -/
theorem Node.Timed.universalTime {q : Int} {n : Node} (hn : n.Timed q) (hpast : n.PastSetup) :
    n.universalTime = n.elapsed := (hn.after hpast).universalTime hn.clock_lt

/-- A node is at most one quantum ahead of the other. -/
theorem elapsed_le_peer {q : Int} {s : System} (hq : 0 < q) (hbarrier : InBarrier s)
    (hs : InTime q s) (hpast : ∀ i, (s i).PastSetup) (i : Side) :
    (s i).elapsed ≤ (s i.peer).elapsed + q := by
  have hin := (hs i).after (hpast i)
  have hpeer := (hs i.peer).after (hpast i.peer)
  have hend := hin.le_end
  have hstart := hpeer.start_le
  rcases Nat.lt_or_ge (s i.peer).wwt.currentQuantumRound (s i).wwt.currentQuantumRound with hlt | hle
  · -- the other node has announced its round, so its clock stands at the round's end
    have harrived : (s i.peer).arrived = true := hbarrier.ordered.arrived_of_ahead hlt
    have hskew : (s i).wwt.currentQuantumRound ≤ (s i.peer).wwt.currentQuantumRound + 1 :=
      hbarrier.ordered.skew i
    have hround : (s i).wwt.currentQuantumRound = (s i.peer).wwt.currentQuantumRound + 1 := by omega
    have hat := hpeer.at_end (Bool.and_eq_true_iff.mp harrived).1
    rw [hround] at hend
    push_cast at hend
    rw [add_one_mul] at hend
    omega
  · have hmul : ((s i).wwt.currentQuantumRound : Int) * q ≤ (s i.peer).wwt.currentQuantumRound * q := by
      gcongr
    omega

/-- In every state of a run that keeps QEMU's promises the universal time of a node stands in the
node's round, at its end once the quantum is finished, and the two times differ by at most one
quantum. -/
theorem bounded_skew {cfg : Config} {capacity : Option Nat} (hsync : cfg.sync = true)
    (hq : 0 < cfg.latencyns) {s : System} (hs : cfg.Reaches capacity TimelyStep s)
    (hpast : ∀ i, (s i).PastSetup) :
    (∀ i, (s i).universalTime ≤ (s i).wwt.currentQuantumRound * cfg.latencyns ∧
      ((s i).wwt.finishedQuantum = true →
        (s i).universalTime = (s i).wwt.currentQuantumRound * cfg.latencyns) ∧
      (0 < (s i).wwt.currentQuantumRound →
        ((s i).wwt.currentQuantumRound - 1) * cfg.latencyns ≤ (s i).universalTime)) ∧
    |(s .left).universalTime - (s .right).universalTime| ≤ cfg.latencyns := by
  have hbarrier := reaches_inBarrier hsync (fun _ _ _ h => h.2.1) hs
  have htime := reaches_inTime hsync hq (fun _ _ _ h => h) hs
  refine ⟨fun i => ?_, ?_⟩
  · have hin := (htime i).after (hpast i)
    rw [(htime i).universalTime (hpast i)]
    refine ⟨hin.le_end, hin.at_end, fun _ => ?_⟩
    have hstart := hin.start_le
    rw [sub_one_mul]
    omega
  · have hleft := elapsed_le_peer hq hbarrier htime hpast .left
    have hright := elapsed_le_peer hq hbarrier htime hpast .right
    rw [(htime .left).universalTime (hpast .left), (htime .right).universalTime (hpast .right)]
    simp only [Side.peer] at hleft hright
    rw [abs_le]
    exact ⟨by omega, by omega⟩

set_option maxRecDepth 100000 in
theorem bounded_skew_firstRound :
    ∃ s, twoNodes.Reaches none TimelyStep s ∧ (s .left).wwt.currentQuantumRound = 1 ∧
      |(s .left).universalTime - (s .right).universalTime| ≤ 1000 := by
  have hrun : (run (step none) TimelyStep twoNodes.created firstRound).map
      (fun s => ((s .left).wwt.currentQuantumRound, decide (∀ i, (s i).PastSetup))) =
      some (1, true) := by decide
  obtain ⟨s, hs, hfacts⟩ := Option.map_eq_some_iff.mp hrun
  obtain ⟨hround, hpast⟩ := Prod.mk.inj hfacts
  have hreach := Config.Reaches.of_run hs
  exact ⟨s, hreach, hround, (bounded_skew rfl (by decide) hreach (of_decide_eq_true hpast)).2⟩

/-- Nodes whose second quantum ends past the clock's 64 bits. -/
def lateNodes : Config := hugeLatency 1 (by decide)

set_option maxRecDepth 100000 in
/-- Without the bound the next deadline overflows, and the timer fires at once: the quantum of round
1 is finished at universal time 0. -/
theorem skew_of_overflow :
    ∃ s, lateNodes.Reaches none (fun s ia s' => Timely s ia ∧ RoundsFit s') s ∧
      (∀ i, (s i).PastSetup) ∧ (s .left).wwt.finishedQuantum = true ∧
      (s .left).universalTime ≠ (s .left).wwt.currentQuantumRound * lateNodes.latencyns := by
  have hrun : (run (step none) (fun s ia s' => Timely s ia ∧ RoundsFit s') lateNodes.created
      (firstRound ++ [(.left, .pauseBh), (.left, .quantaSync)])).map (fun s =>
        decide ((∀ i, (s i).PastSetup) ∧ (s .left).wwt.finishedQuantum = true ∧
          (s .left).universalTime ≠ (s .left).wwt.currentQuantumRound * lateNodes.latencyns)) =
      some true := by decide
  obtain ⟨s, hs, hfacts⟩ := Option.map_eq_some_iff.mp hrun
  exact ⟨s, Config.Reaches.of_run hs, of_decide_eq_true hfacts⟩

end LeanPdes
