import LeanPdes.Clock
import LeanPdes.QuantumCycle

/-! The virtual machine around one node with sync on. `pdes_pause` stops the CPU that runs the callback
and leaves the machine to a bottom half; `pdes_play` releases the CPU and starts the machine. So the
guest runs in its quanta and stands still at the barrier once the bottom half has run, for any CPUs that
are paused. -/

namespace LeanPdes

open Words TwoParty Reach

/-- The node with what it touches of QEMU: whether the virtual machine runs, the `stop` flags of the CPUs,
and `paused_cpu`. -/
structure Machine (κ : Type) where
  node : Node
  running : Bool
  stop : κ → Bool
  pausedCpu : Option κ

section

variable {κ : Type} [DecidableEq κ]

/-- `pdes_pause`, where `current_cpu` may be null. -/
def Machine.pdesPause (m : Machine κ) (currentCpu : Option κ) : Machine κ :=
  match currentCpu with
  | none => m
  | some cpu => { m with stop := Function.update m.stop cpu true, pausedCpu := some cpu }

/-- `pdes_pause_bh` calls `vm_stop`. -/
def Machine.pdesPauseBh (m : Machine κ) : Machine κ := { m with running := false }

/-- `pdes_play`, with its call of `vm_start`. -/
def Machine.pdesPlay (m : Machine κ) : Machine κ :=
  match m.pausedCpu with
  | none => { m with running := true }
  | some cpu =>
      { m with stop := Function.update m.stop cpu false, pausedCpu := none, running := true }

theorem Machine.pdesPlay_of_none (m : Machine κ) (h : m.pausedCpu = none) :
    m.pdesPlay = { m with running := true } := by
  rw [Machine.pdesPlay, h]

theorem Machine.pdesPlay_of_some (m : Machine κ) {cpu : κ} (h : m.pausedCpu = some cpu) :
    m.pdesPlay =
      { m with stop := Function.update m.stop cpu false, pausedCpu := none, running := true } := by
  rw [Machine.pdesPlay, h]

/-- A step of the node that leads to `n`: `quanta_sync` pauses, the bottom half stops the machine, and the
end of `wwt_sync_check` plays. -/
def Machine.follow (m : Machine κ) (b : NodeAction) (currentCpu : Option κ) (n : Node) : Machine κ :=
  if b = .act .quantaSync ∧ m.node.wwt.shouldSync = true then m.pdesPause currentCpu
  else if b = .act .pauseBh then m.pdesPauseBh
  else if m.node.completesCycle b n = true ∧ n.wwt.shouldSync = true then m.pdesPlay
  else m

/-- A step of the node in the thread of `currentCpu`. -/
def machineStep (m : Machine κ) (a : NodeAction × Option κ) : Except Halt (Machine κ) := do
  let n ← nodeStep m.node a.1
  return { m.follow a.1 a.2 n with node := n }

/-- The machine runs a node that has just been created with sync on. -/
structure Machine.Created (m : Machine κ) : Prop where
  node : ∃ latencyns master incrementalBase clock,
    m.node = pdesEngineWwtCreate true latencyns master incrementalBase clock
  running : m.running = true
  stop : ∀ cpu, m.stop cpu = false
  pausedCpu : m.pausedCpu = none

/-- Bottom halves come first, and the node takes no exit path. -/
def MachineGuard (m : Machine κ) (a : NodeAction × Option κ) (m' : Machine κ) : Prop :=
  BottomHalvesFirst m.node a.1 ∧ StaysIn m.node a.1 m'.node

/-- What a run of the machine keeps. -/
structure Machine.Sound (m : Machine κ) : Prop where
  /-- In its quantum the guest runs on every CPU. -/
  quantum : m.node.engine.paused = false → m.running = true ∧ ∀ cpu, m.stop cpu = false
  /-- After its quantum the guest runs only until the bottom half. -/
  barrier : m.node.engine.paused = true → m.running = m.node.engine.pauseBh
  /-- No CPU is stopped but the one that `pdes_play` releases. -/
  cpus : ∀ cpu, m.stop cpu = true → m.pausedCpu = some cpu
  paused : m.node.engine.paused = m.node.wwt.finishedQuantum

end

/-- A node with sync on, which is paused from the end of its quantum on. -/
structure Node.Pauses (n : Node) : Prop where
  sync : n.wwt.shouldSync = true
  paused : n.engine.paused = n.wwt.finishedQuantum

theorem SameClock.pauses {n n' : Node} (h : SameClock n n') (hn : n.Pauses) : n'.Pauses where
  sync := by
    rw [h.wwt]
    exact hn.sync
  paused := by
    rw [h.paused, h.wwt]
    exact hn.paused

theorem Move.pauses {n n' : Node} {a : Action} (h : Move n a n') (hn : n.Pauses) : n'.Pauses := by
  have hleft : ({ n with site := none } : Node).Pauses := ⟨hn.sync, hn.paused⟩
  cases h with
  | control h => exact h.sameClock.pauses hn
  | setup | advance | wwtSend | deliver | pollTimer | pollDone | syncCheck | wait | again =>
      exact ⟨hn.sync, hn.paused⟩
  | quantaSync => exact ⟨hn.sync, rfl⟩
  | leave _ h => exact h.sameClock.pauses hleft
  | arrive _ h | hold _ h => exact ⟨(h.sameClock.pauses hleft).sync, (h.sameClock.pauses hleft).paused⟩
  | @pass _ _ n₁ h =>
      have hsync := (h.sameClock.pauses hleft).sync
      rw [beginQuantum]
      dsimp only
      rw [if_pos hsync]
      exact ⟨hsync, rfl⟩

theorem nodeStep_pauses {n n' : Node} {b : NodeAction} (h : nodeStep n b = .ok n') (hn : n.Pauses) :
    n'.Pauses := by
  cases b with
  | act a =>
      rw [nodeStep] at h
      split_ifs at h
      exact (act_move hn.sync h).pauses hn
  | receive msg =>
      rw [nodeStep] at h
      split at h
      · cases h
      · split_ifs at h
        have hprocess := mapError_eq_ok.mp h
        rw [pdesEnginePoll_eq] at hprocess
        exact (processMessage_receive hn.sync hprocess).sameClock.pauses hn
  | sent | taken =>
      rw [nodeStep] at h
      split at h <;> cases h
      exact ⟨hn.sync, hn.paused⟩

/-- Only `pdes_pause` and its bottom half touch `pause_bh`. -/
theorem NodeTurn.pauseBh_eq {n n' : Node} {b : NodeAction} (h : NodeTurn n b n') (hstays : StaysIn n b n')
    (hsync : b ≠ .act .quantaSync) (hbh : b ≠ .act .pauseBh) :
    n'.engine.pauseBh = n.engine.pauseBh := by
  cases h with
  | aside _ h | arm _ h => exact congrArg Quantum.pauseBh h.quantum
  | setup | pollTimer | pollDone | syncCheck | wait | again | emptyBh | asked => rfl
  | pauseBh => exact absurd rfl hbh
  | quantaSync => exact absurd rfl hsync
  | arrive _ hdrain h => exact congrArg Quantum.pauseBh (arrived_quantum hdrain h)
  | hold _ _ _ hdrain =>
      exact congrArg Quantum.pauseBh hdrain.quantum
  | pass _ _ hdrain h =>
      obtain ⟨expire, hquantum⟩ := passed_quantum hdrain h
      exact congrArg Quantum.pauseBh hquantum
  | destroy hexit =>
      rcases hexit with hexit | hexit
      · exact absurd hexit hstays.destroy
      · exact absurd hexit hstays.finished
  | save _ _ _ hn' =>
      rcases hn' with ⟨exited, rfl⟩ | ⟨n₁, _, rfl⟩
      · rfl
      · cases hstays.exitCalled

/-- `quanta_sync` pauses the node and schedules the bottom half. -/
theorem nodeStep_quantaSync {n n' : Node} (h : nodeStep n (.act .quantaSync) = .ok n') (hn : n.InPhase)
    (hsync : n.wwt.shouldSync = true) :
    n.wwt.finishedQuantum = false ∧ n'.wwt.finishedQuantum = true ∧ n'.engine.pauseBh = true := by
  rw [nodeStep] at h
  split_ifs at h
  obtain ⟨⟨_, harmed⟩, hcall⟩ := callback_ok.mp h
  rw [quantaSync_ok hsync hcall]
  exact ⟨(hn.running_of (QEMUTimer.ne_stopped harmed)).finishedQuantum, rfl, rfl⟩

/-- The bottom half runs after the quantum only. -/
theorem nodeStep_pauseBh {n n' : Node} (h : nodeStep n (.act .pauseBh) = .ok n') (hn : n.InPhase) :
    n'.wwt.finishedQuantum = true ∧ n'.engine.pauseBh = false := by
  rw [nodeStep] at h
  split_ifs at h
  obtain ⟨⟨hsite, hbh⟩, hcall⟩ := callback_ok.mp h
  cases hcall
  refine ⟨?_, rfl⟩
  rcases hn.between (Or.inl hsite) with hrun | hwait
  · have hnone : n.engine.pauseBh = false := hrun.pauseBh
    rw [hnone] at hbh
    cases hbh
  · exact hwait.finishedQuantum

/-! ### The machine -/

/-- The machine stands as the node's quantum does. -/
structure Machine.Fits {κ : Type} (m : Machine κ) (n : Node) : Prop where
  quantum : n.wwt.finishedQuantum = false → m.running = true ∧ m.pausedCpu = none
  barrier : n.wwt.finishedQuantum = true → m.running = n.engine.pauseBh
  cpus : ∀ cpu, m.stop cpu = true ↔ m.pausedCpu = some cpu

section

variable {κ : Type} {m : Machine κ} {n n' : Node} (h : m.Fits n)
include h

theorem Machine.Fits.congr (hfinished : n'.wwt.finishedQuantum = n.wwt.finishedQuantum)
    (hbh : n'.engine.pauseBh = n.engine.pauseBh) : m.Fits n' where
  quantum hquantum := h.quantum (hfinished ▸ hquantum)
  barrier hbarrier := by
    rw [hbh]
    exact h.barrier (hfinished ▸ hbarrier)
  cpus := h.cpus

theorem Machine.Fits.released (hnone : m.pausedCpu = none) (cpu : κ) : m.stop cpu = false := by
  rw [← Bool.not_eq_true, h.cpus, hnone]
  exact Option.some_ne_none cpu ∘ Eq.symm

theorem Machine.Fits.pauseBh (hfinished : n'.wwt.finishedQuantum = true)
    (hbh : n'.engine.pauseBh = false) : m.pdesPauseBh.Fits n' where
  quantum hquantum := by
    rw [hfinished] at hquantum
    cases hquantum
  barrier _ := hbh.symm
  cpus := h.cpus

variable [DecidableEq κ]

/-- The CPU that runs the callback is stopped, if there is one, and the machine runs on. -/
theorem Machine.Fits.pause (hquantum : n.wwt.finishedQuantum = false)
    (hfinished : n'.wwt.finishedQuantum = true) (hbh : n'.engine.pauseBh = true)
    (currentCpu : Option κ) : (m.pdesPause currentCpu).Fits n' := by
  obtain ⟨hrunning, hnone⟩ := h.quantum hquantum
  have hnot (hno : n'.wwt.finishedQuantum = false) : False := by
    rw [hfinished] at hno
    cases hno
  cases currentCpu with
  | none => exact ⟨fun hno => (hnot hno).elim, fun _ => hrunning.trans hbh.symm, h.cpus⟩
  | some current =>
      refine ⟨fun hno => (hnot hno).elim, fun _ => hrunning.trans hbh.symm, fun cpu => ?_⟩
      change Function.update m.stop current true cpu = true ↔ some current = some cpu
      by_cases heq : cpu = current
      · rw [heq, Function.update_self]
        exact ⟨fun _ => rfl, fun _ => rfl⟩
      · rw [Function.update_of_ne heq, h.released hnone]
        simp [Ne.symm heq]

/-- The CPU that is stopped is released, and the machine starts. -/
theorem Machine.Fits.play (hquantum : n'.wwt.finishedQuantum = false) : m.pdesPlay.Fits n' := by
  have hnot (hno : n'.wwt.finishedQuantum = true) : False := by
    rw [hquantum] at hno
    cases hno
  cases hpaused : m.pausedCpu with
  | none =>
      rw [m.pdesPlay_of_none hpaused]
      exact ⟨fun _ => ⟨rfl, hpaused⟩, fun hno => (hnot hno).elim, h.cpus⟩
  | some paused =>
      rw [m.pdesPlay_of_some hpaused]
      refine ⟨fun _ => ⟨rfl, rfl⟩, fun hno => (hnot hno).elim, fun cpu => ?_⟩
      change Function.update m.stop paused false cpu = true ↔ none = some cpu
      by_cases heq : cpu = paused
      · rw [heq, Function.update_self]
        simp
      · rw [Function.update_of_ne heq, h.cpus, hpaused, Option.some.injEq]
        exact ⟨fun hcpu => absurd hcpu.symm heq, fun hno => by cases hno⟩

end

structure Machine.Inv {κ : Type} (m : Machine κ) : Prop where
  phase : m.node.InPhase
  pauses : m.node.Pauses
  fits : m.Fits m.node

section

variable {κ : Type}

theorem Machine.Created.inv {m : Machine κ} (h : m.Created) : m.Inv := by
  obtain ⟨latencyns, master, incrementalBase, clock, hnode⟩ := h.node
  have hrunning : m.node.wwt.finishedQuantum = false := by rw [hnode]; rfl
  refine ⟨?_, ?_, fun _ => ⟨h.running, h.pausedCpu⟩, fun hfinished => ?_, fun cpu => ?_⟩
  · rw [hnode]
    refine .running ⟨Or.inl rfl, ?_, rfl, rfl, rfl, rfl⟩
    simp [Node.quantum, pdesEngineWwtCreate]
  · rw [hnode]
    exact ⟨rfl, rfl⟩
  · rw [hrunning] at hfinished
    cases hfinished
  · rw [h.stop, h.pausedCpu]
    simp

theorem Machine.Inv.sound {m : Machine κ} (h : m.Inv) : m.Sound where
  quantum hpaused := by
    rw [h.pauses.paused] at hpaused
    obtain ⟨hrunning, hnone⟩ := h.fits.quantum hpaused
    exact ⟨hrunning, h.fits.released hnone⟩
  barrier hpaused := h.fits.barrier (h.pauses.paused ▸ hpaused)
  cpus cpu := (h.fits.cpus cpu).mp
  paused := h.pauses.paused

variable [DecidableEq κ]

/-- What the step does to the machine keeps it in step with the node. -/
theorem Machine.Inv.follow {m : Machine κ} {b : NodeAction} {n : Node} (h : m.Inv)
    (hstep : nodeStep m.node b = .ok n) (hstays : StaysIn m.node b n) (currentCpu : Option κ) :
    (m.follow b currentCpu n).Fits n := by
  have hturn := nodeStep_turn hstep
  have hcalls := (hturn.counts h.phase hstays).calls
  rw [Machine.follow]
  by_cases hsync : b = .act .quantaSync
  · subst hsync
    obtain ⟨hquantum, hfinished, hbh⟩ := nodeStep_quantaSync hstep h.phase h.pauses.sync
    rw [if_pos ⟨rfl, h.pauses.sync⟩]
    exact h.fits.pause hquantum hfinished hbh currentCpu
  rw [if_neg fun hyes => hsync hyes.1]
  by_cases hbh : b = .act .pauseBh
  · subst hbh
    obtain ⟨hfinished, hdone⟩ := nodeStep_pauseBh hstep h.phase
    rw [if_pos rfl]
    exact h.fits.pauseBh hfinished hdone
  rw [if_neg hbh]
  rw [decide_eq_false hsync, Bool.toNat_false, Nat.zero_add] at hcalls
  by_cases hcompletes : m.node.completesCycle b n = true
  · rw [if_pos ⟨hcompletes, (nodeStep_pauses hstep h.pauses).sync⟩]
    rw [hcompletes, Bool.toNat_true] at hcalls
    refine h.fits.play ?_
    have hle := Bool.toNat_le m.node.wwt.finishedQuantum
    exact Bool.toNat_eq_zero.mp (by omega)
  · rw [if_neg fun hyes => hcompletes hyes.1]
    rw [Bool.not_eq_true] at hcompletes
    rw [hcompletes, Bool.toNat_false, Nat.zero_add] at hcalls
    refine h.fits.congr ?_ (hturn.pauseBh_eq hstays hsync hbh)
    rw [← Bool.ofNat_toNat n.wwt.finishedQuantum, ← hcalls, Bool.ofNat_toNat]

theorem Machine.Inv.step {m m' : Machine κ} {a : NodeAction × Option κ} (h : m.Inv)
    (hstep : machineStep m a = .ok m') (hguard : MachineGuard m a m') : m'.Inv := by
  obtain ⟨n, hn, hm'⟩ := bind_eq_ok.mp hstep
  cases hm'
  refine ⟨(nodeStep_turn hn).inPhase h.phase hguard.1 hguard.2, nodeStep_pauses hn h.pauses, ?_⟩
  have hfits := h.follow hn hguard.2 a.2
  exact ⟨hfits.quantum, hfits.barrier, hfits.cpus⟩

/-- With sync on the guest runs on every CPU in each of its quanta, and after the bottom half it stands
still until the next one, for any messages and any CPUs that run the callbacks, in runs off the exit paths
in which bottom halves come before `sync_check_timer`. -/
theorem guest_runs_in_quanta {m : Machine κ}
    (hm : Reachable machineStep MachineGuard Machine.Created m) : m.Sound := by
  have hinv : m.Inv :=
    hm.invariant (fun _ h => h.inv) fun _ _ _ _ hinv hstep hguard => hinv.step hstep hguard
  exact hinv.sound

instance (m : Machine κ) (a : NodeAction × Option κ) (m' : Machine κ) :
    Decidable (MachineGuard m a m') :=
  inferInstanceAs (Decidable (_ ∧ _))

end

/-- The machine of two CPUs before its first quantum. -/
def twoCpus : Machine Bool :=
  ⟨pdesEngineWwtCreate true 1000 true 2 5, true, fun _ => false, none⟩

/-- The first CPU ends the quantum, and the bottom half stops the machine. -/
def firstPause : List (NodeAction × Option Bool) :=
  [(.act .setup, none), (.act .quantaSync, some true), (.act .pollReturn, some true), (.sent, none),
    (.act .pauseBh, none)]

theorem guest_runs_in_quanta_firstPause :
    ∃ m, Reachable machineStep MachineGuard Machine.Created m ∧ m.stop true = true ∧
      m.running = false ∧ m.Sound := by
  have hrun : (run machineStep MachineGuard twoCpus firstPause).map
      (fun m => (m.stop true, m.running)) = some (true, false) := by decide
  obtain ⟨m, hm, hfacts⟩ := Option.map_eq_some_iff.mp hrun
  obtain ⟨hstop, hrunning⟩ := Prod.mk.inj hfacts
  have hstart : Reachable machineStep MachineGuard Machine.Created twoCpus :=
    .start ⟨⟨1000, true, 2, 5, rfl⟩, rfl, fun _ => rfl, rfl⟩
  have hreach := hstart.run hm
  exact ⟨m, hreach, hstop, hrunning, guest_runs_in_quanta hreach⟩

end LeanPdes
