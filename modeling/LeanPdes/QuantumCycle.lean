import LeanPdes.NodeRuns

/-! The quantum of one node. `quantum_timer` ends it, and `sync_check_timer` begins the next one; in
between the node may hold the round for the bottom half that saves a checkpoint. In every order of its
callbacks and for any messages exactly one of the two timers is armed. -/

namespace LeanPdes

open Words TwoParty Reach

theorem QEMUTimer.ne_stopped {τ : Type} {timer : QEMUTimer τ} (h : timer.isArmed = true) :
    timer ≠ .stopped := by
  rintro rfl
  cases h

/-- The quantum runs, or `setup_wwt` is still to come. -/
structure Quantum.Running (q : Quantum) : Prop where
  site : q.site = none ∨ q.site = some .timer
  quantumTimer : q.quantumTimer ≠ .stopped
  syncCheckTimer : q.syncCheckTimer = .null
  finishedQuantum : q.finishedQuantum = false
  pauseBh : q.pauseBh = false
  boundryCheckpointBh : q.boundryCheckpointBh = none

/-- The node is in the poll of `quanta_sync`. -/
structure Quantum.Arriving (q : Quantum) : Prop where
  site : q.site = some .quantaSync
  quantumTimer : q.quantumTimer = .stopped
  syncCheckTimer : q.syncCheckTimer = .null
  finishedQuantum : q.finishedQuantum = true
  boundryCheckpointBh : q.boundryCheckpointBh = none

/-- `sync_check_timer` is to fire, perhaps for a round that is held for a checkpoint. -/
structure Quantum.Waiting (needs : Bool) (q : Quantum) : Prop where
  site : q.site = none ∨ q.site = some .timer
  quantumTimer : q.quantumTimer = .stopped
  syncCheckTimer : q.syncCheckTimer = .armed ()
  finishedQuantum : q.finishedQuantum = true
  boundryCheckpointBh : ∀ bh ∈ q.boundryCheckpointBh, bh.scheduled = true ∧ needs = true

/-- The node is in a poll of `wwt_sync_check`. -/
structure Quantum.Checking (q : Quantum) : Prop where
  site : q.site = some .isWaiting ∨ q.site = some .waitLoop
  quantumTimer : q.quantumTimer = .stopped
  syncCheckTimer : q.syncCheckTimer = .stopped
  finishedQuantum : q.finishedQuantum = true
  pauseBh : q.pauseBh = false
  boundryCheckpointBh : q.boundryCheckpointBh = none

inductive Quantum.Phase (needs : Bool) (q : Quantum) : Prop
  | running (h : q.Running)
  | arriving (h : q.Arriving)
  | waiting (h : q.Waiting needs)
  | checking (h : q.Checking)

section

variable {needs : Bool} {q : Quantum}

theorem Quantum.Phase.running_of (h : q.Phase needs) (hquantum : q.quantumTimer ≠ .stopped) :
    q.Running := by
  cases h with
  | running h => exact h
  | arriving h => exact absurd h.quantumTimer hquantum
  | waiting h => exact absurd h.quantumTimer hquantum
  | checking h => exact absurd h.quantumTimer hquantum

theorem Quantum.Phase.waiting_of (h : q.Phase needs) (hcheck : q.syncCheckTimer.isArmed = true) :
    q.Waiting needs := by
  cases h with
  | waiting h => exact h
  | running h | arriving h | checking h =>
      rw [h.syncCheckTimer] at hcheck
      cases hcheck

theorem Quantum.Phase.arriving_of (h : q.Phase needs) (hsite : q.site = some .quantaSync) :
    q.Arriving := by
  cases h with
  | arriving h => exact h
  | running h | waiting h | checking h =>
      have hpoll := h.site
      rw [hsite] at hpoll
      rcases hpoll with hpoll | hpoll <;> cases hpoll

theorem Quantum.Phase.checking_of (h : q.Phase needs)
    (hsite : q.site = some .isWaiting ∨ q.site = some .waitLoop) : q.Checking := by
  cases h with
  | checking h => exact h
  | arriving h =>
      rw [h.site] at hsite
      rcases hsite with hsite | hsite <;> cases hsite
  | running h | waiting h =>
      rcases h.site with hpoll | hpoll <;> rw [hpoll] at hsite <;>
        rcases hsite with hsite | hsite <;> cases hsite

/-- Between callbacks the quantum runs, or `sync_check_timer` is to fire. -/
theorem Quantum.Phase.between (h : q.Phase needs) (hsite : q.site = none ∨ q.site = some .timer) :
    q.Running ∨ q.Waiting needs := by
  cases h with
  | running h => exact Or.inl h
  | waiting h => exact Or.inr h
  | arriving h =>
      rw [h.site] at hsite
      rcases hsite with hsite | hsite <;> cases hsite
  | checking h =>
      rcases h.site with hpoll | hpoll <;> rw [hpoll] at hsite <;>
        rcases hsite with hsite | hsite <;> cases hsite

/-- The bottom half of a checkpoint exists only while `sync_check_timer` is to fire. -/
theorem Quantum.Phase.held (h : q.Phase needs) {bh : CheckpointBh}
    (hbh : q.boundryCheckpointBh = some bh) : q.Waiting needs := by
  cases h with
  | waiting h => exact h
  | running h | arriving h | checking h =>
      rw [h.boundryCheckpointBh] at hbh
      cases hbh

/-- A request that comes in between changes nothing. -/
theorem Quantum.Phase.ask (h : q.Phase needs) : q.Phase true := by
  cases h with
  | running h => exact .running h
  | arriving h => exact .arriving h
  | waiting h =>
      exact .waiting { h with boundryCheckpointBh := fun bh hbh => ⟨(h.boundryCheckpointBh bh hbh).1, rfl⟩ }
  | checking h => exact .checking h

/-- One of the timers is armed, and the second one exists only after the quantum. -/
theorem Quantum.Phase.timers (h : q.Phase needs) (hsite : q.site = none)
    (hsetup : q.quantumTimer ≠ .null) :
    q.quantumTimer.isArmed ≠ q.syncCheckTimer.isArmed ∧
      (q.finishedQuantum = true ↔ q.syncCheckTimer ≠ .null) := by
  rcases h.between (Or.inl hsite) with h | h
  · have harmed : q.quantumTimer.isArmed = true := by
      cases hquantum : q.quantumTimer with
      | null => exact absurd hquantum hsetup
      | stopped => exact absurd hquantum h.quantumTimer
      | armed expire => rfl
    rw [harmed, h.syncCheckTimer, h.finishedQuantum]
    exact ⟨by decide, by decide⟩
  · rw [h.quantumTimer, h.syncCheckTimer, h.finishedQuantum]
    exact ⟨by decide, by decide⟩

end

def Node.InPhase (n : Node) : Prop := n.quantum.Phase n.engine.needsToCheckpoint

/-- A bottom half that is scheduled runs before `sync_check_timer` fires. -/
def BottomHalvesFirst (n : Node) (b : NodeAction) : Prop :=
  b = .act .syncCheck →
    n.engine.pauseBh = false ∧ ∀ bh ∈ n.engine.boundryCheckpointBh, bh.scheduled = false

/-- The step is not on an exit path. -/
structure StaysIn (n : Node) (b : NodeAction) (n' : Node) : Prop where
  destroy : b ≠ .act .engineDestroy
  finished : ¬(b = .act .pollReturn ∧ n.site = some .waitLoop ∧ n.engine.pairHasFinished = true)
  exitCalled : n'.exitCalled = false

theorem Aside.inPhase {n n' : Node} (h : Aside n n') (hn : n.InPhase) : n'.InPhase := by
  have hneeds : n'.engine.needsToCheckpoint = n.engine.needsToCheckpoint :=
    congrArg DrainRequest.needsToCheckpoint h.request
  rw [Node.InPhase, h.quantum, hneeds]
  exact hn

theorem NodeTurn.inPhase {n n' : Node} {b : NodeAction} (h : NodeTurn n b n') (hn : n.InPhase)
    (horder : BottomHalvesFirst n b) (hstays : StaysIn n b n') : n'.InPhase := by
  cases h with
  | aside _ h => exact h.inPhase hn
  | arm _ h => exact (h.inPhase hn).ask
  | asked _ _ name format round => exact hn.ask
  | setup hnull =>
      have hrun := hn.running_of (by rw [Node.quantum, hnull]; simp)
      exact .running { hrun with quantumTimer := by simp [Node.quantum, setupWwt, timerMod] }
  | pollTimer hsite =>
      rcases hn.between (Or.inl hsite) with h | h
      · exact .running { h with site := Or.inr rfl }
      · exact .waiting { h with site := Or.inr rfl }
  | pollDone hsite =>
      rcases hn.between (Or.inr hsite) with h | h
      · exact .running { h with site := Or.inl rfl }
      · exact .waiting { h with site := Or.inl rfl }
  | pauseBh hsite =>
      rcases hn.between (Or.inl hsite) with h | h
      · exact .running { h with pauseBh := rfl }
      · exact .waiting { h with }
  | quantaSync hsite harmed paused pauseBh =>
      have hrun := hn.running_of (QEMUTimer.ne_stopped harmed)
      exact .arriving
        { site := rfl
          quantumTimer := rfl
          syncCheckTimer := hrun.syncCheckTimer
          finishedQuantum := rfl
          boundryCheckpointBh := hrun.boundryCheckpointBh }
  | @arrive hsite n₁ n₂ hdrain h hcheck =>
      have harriving := hn.arriving_of hsite
      rw [Node.InPhase, arrived_quantum hdrain h]
      exact .waiting
        { site := Or.inl rfl
          quantumTimer := harriving.quantumTimer
          syncCheckTimer := rfl
          finishedQuantum := harriving.finishedQuantum
          boundryCheckpointBh := by simp [harriving.boundryCheckpointBh] }
  | syncCheck hsite harmed =>
      have hwaiting := hn.waiting_of harmed
      obtain ⟨hpause, hnot⟩ := horder rfl
      have hbh : n.engine.boundryCheckpointBh = none := by
        cases hbh : n.engine.boundryCheckpointBh with
        | none => rfl
        | some bh =>
            have hscheduled := (hwaiting.boundryCheckpointBh bh hbh).1
            rw [hnot bh hbh] at hscheduled
            cases hscheduled
      exact .checking
        { site := Or.inl rfl
          quantumTimer := hwaiting.quantumTimer
          syncCheckTimer := rfl
          finishedQuantum := hwaiting.finishedQuantum
          pauseBh := hpause
          boundryCheckpointBh := hbh }
  | wait hsite hwaiting =>
      exact .checking { hn.checking_of (Or.inl hsite) with site := Or.inr rfl }
  | again hsite =>
      exact .checking { hn.checking_of (Or.inr hsite) with site := Or.inl rfl }
  | @hold hsite hwaiting hneeds n₁ hdrain =>
      have hchecking := hn.checking_of (Or.inl hsite)
      have hquantum : n₁.quantum = { n.quantum with site := none } := hdrain.quantum
      have hbh : n₁.engine.boundryCheckpointBh = none :=
        (congrArg Quantum.boundryCheckpointBh hquantum).trans hchecking.boundryCheckpointBh
      have hneeds₁ : n₁.engine.needsToCheckpoint = true := hdrain.needs.trans hneeds
      have hheld : (scheduleCheckpointBh n₁).recheck.quantum = { n₁.quantum with
          syncCheckTimer := .armed ()
          boundryCheckpointBh := some { exitAfter := false, scheduled := true } } := by
        rw [scheduleCheckpointBh, hbh]
        rfl
      rw [Node.InPhase, hheld, hquantum]
      exact .waiting
        { site := Or.inl rfl
          quantumTimer := hchecking.quantumTimer
          syncCheckTimer := rfl
          finishedQuantum := hchecking.finishedQuantum
          boundryCheckpointBh := by
            rintro bh ⟨⟩
            exact ⟨rfl, hneeds₁⟩ }
  | @pass hsite hwaiting n₁ n₂ hdrain h =>
      have hchecking := hn.checking_of (Or.inl hsite)
      obtain ⟨expire, hbegin⟩ := passed_quantum hdrain h
      rw [Node.InPhase, hbegin]
      exact .running
        { site := Or.inl rfl
          quantumTimer := by simp
          syncCheckTimer := rfl
          finishedQuantum := rfl
          pauseBh := hchecking.pauseBh
          boundryCheckpointBh := hchecking.boundryCheckpointBh }
  | destroy hexit h hn' =>
      rcases hexit with hexit | hexit
      · exact absurd hexit hstays.destroy
      · exact absurd hexit hstays.finished
  | emptyBh hsite hbh hneeds =>
      have hwaiting := hn.held hbh
      rw [(hwaiting.boundryCheckpointBh _ hbh).2] at hneeds
      cases hneeds
  | save hsite hbh hneeds hn' =>
      have hwaiting := hn.held hbh
      rcases hn' with ⟨exited, rfl⟩ | ⟨n₁, _, rfl⟩
      · exact .waiting { hwaiting with boundryCheckpointBh := by simp [Node.quantum, saveCheckpoint] }
      · cases hstays.exitCalled

/-- `wwt_sync_check` has returned and has freed its timer. -/
def Node.completesCycle (n : Node) (b : NodeAction) (n' : Node) : Bool :=
  b = .act .pollReturn && n.site = some .isWaiting && n'.wwt.syncCheckTimer = .null

/-- A call of `quanta_sync` begins a cycle, the end of `wwt_sync_check` completes it, and the round
counts the cycles that are complete. -/
structure Counts (n : Node) (b : NodeAction) (n' : Node) : Prop where
  calls : (decide (b = .act .quantaSync)).toNat + n.wwt.finishedQuantum.toNat =
    (n.completesCycle b n').toNat + n'.wwt.finishedQuantum.toNat
  round : n'.wwt.currentQuantumRound =
    if n.completesCycle b n' then (n.wwt.currentQuantumRound + 1) % 2 ^ 64
    else n.wwt.currentQuantumRound

/-- A step that neither begins nor completes a cycle. -/
theorem Counts.still {n n' : Node} {b : NodeAction} (hb : b ≠ .act .quantaSync)
    (hcompletes : n.completesCycle b n' = false)
    (hfinished : n'.wwt.finishedQuantum = n.wwt.finishedQuantum)
    (hround : n'.wwt.currentQuantumRound = n.wwt.currentQuantumRound) : Counts n b n' where
  calls := by rw [decide_eq_false hb, hcompletes, hfinished]
  round := by rw [hcompletes, hround]; rfl

theorem not_completesCycle_of_site {n n' : Node} {b : NodeAction} (hsite : n.site ≠ some .isWaiting) :
    n.completesCycle b n' = false := by
  rw [Node.completesCycle, decide_eq_false hsite, Bool.and_false, Bool.false_and]

theorem not_completesCycle_of_check {n n' : Node} {b : NodeAction}
    (hcheck : n'.wwt.syncCheckTimer ≠ .null) : n.completesCycle b n' = false := by
  rw [Node.completesCycle, decide_eq_false hcheck, Bool.and_false]

theorem Counts.aside {n n' : Node} {b : NodeAction} (hb : b.turnsQuantum = false)
    (hquantum : n'.quantum = n.quantum) : Counts n b n' := by
  have hsync : b ≠ .act .quantaSync := by
    rintro rfl
    cases hb
  have hreturn : b ≠ .act .pollReturn := by
    rintro rfl
    cases hb
  refine .still hsync ?_ (congrArg Quantum.finishedQuantum hquantum)
    (congrArg Quantum.currentQuantumRound hquantum)
  rw [Node.completesCycle, decide_eq_false hreturn, Bool.false_and, Bool.false_and]

theorem NodeTurn.counts {n n' : Node} {b : NodeAction} (h : NodeTurn n b n') (hn : n.InPhase)
    (hstays : StaysIn n b n') : Counts n b n' := by
  cases h with
  | aside hb h => exact .aside hb h.quantum
  | arm hb h => exact .aside hb h.quantum
  | asked _ _ name format round => exact .aside rfl rfl
  | setup | pollTimer | pauseBh | syncCheck | emptyBh => exact .still (by decide) rfl rfl rfl
  | save hsite hbh hneeds hn' =>
      rcases hn' with ⟨exited, rfl⟩ | ⟨n₁, _, rfl⟩
      · exact .still (by decide) rfl rfl rfl
      · cases hstays.exitCalled
  | quantaSync hsite harmed paused pauseBh =>
      have hrun := hn.running_of (QEMUTimer.ne_stopped harmed)
      have hfinished : n.wwt.finishedQuantum = false := hrun.finishedQuantum
      refine ⟨?_, rfl⟩
      rw [hfinished]
      rfl
  | pollDone hsite =>
      exact .still (by decide) (not_completesCycle_of_site (by rw [hsite]; decide)) rfl rfl
  | @arrive hsite n₁ n₂ hdrain h hcheck =>
      have hquantum := arrived_quantum hdrain h
      exact .still (by decide) (not_completesCycle_of_site (by rw [hsite]; decide))
        (congrArg Quantum.finishedQuantum hquantum) (congrArg Quantum.currentQuantumRound hquantum)
  | wait hsite hwaiting =>
      have hcheck : n.wwt.syncCheckTimer = .stopped := (hn.checking_of (Or.inl hsite)).syncCheckTimer
      exact .still (by decide) (not_completesCycle_of_check (by rw [hcheck]; decide)) rfl rfl
  | again hsite =>
      exact .still (by decide) (not_completesCycle_of_site (by rw [hsite]; decide)) rfl rfl
  | @hold hsite hwaiting hneeds n₁ hdrain =>
      have hquantum : n₁.quantum = { n.quantum with site := none } := hdrain.quantum
      exact .still (by decide) (not_completesCycle_of_check (by simp [Node.recheck]))
        (congrArg Quantum.finishedQuantum hquantum) (congrArg Quantum.currentQuantumRound hquantum)
  | @pass hsite hwaiting n₁ n₂ hdrain h =>
      have hfinished : n.wwt.finishedQuantum = true :=
        (hn.checking_of (Or.inl hsite)).finishedQuantum
      obtain ⟨expire, hbegin⟩ := passed_quantum hdrain h
      have hcheck : (beginQuantum n₂).wwt.syncCheckTimer = .null :=
        congrArg Quantum.syncCheckTimer hbegin
      have hcompletes : n.completesCycle (.act .pollReturn) (beginQuantum n₂) = true := by
        rw [Node.completesCycle, hsite, hcheck]
        rfl
      have hfinished' : (beginQuantum n₂).wwt.finishedQuantum = false :=
        congrArg Quantum.finishedQuantum hbegin
      have hround : (beginQuantum n₂).wwt.currentQuantumRound =
          (n.wwt.currentQuantumRound + 1) % 2 ^ 64 := congrArg Quantum.currentQuantumRound hbegin
      refine ⟨?_, ?_⟩
      · rw [hcompletes, hfinished, hfinished']
        rfl
      · rw [hcompletes, hround]
        rfl
  | destroy hexit h hn' =>
      rcases hexit with hexit | hexit
      · exact absurd hexit hstays.destroy
      · exact absurd hexit hstays.finished

/-- The faults of everything but the two asserts about the node's own timer and bottom half. -/
def otherFaults : List Fault := .invalidReceiveContext :: (callFaults ++ protocolFaults)

theorem Fails.other {α : Type} {x : Except Fault α} (h : Fails callFaults x) : Fails otherFaults x :=
  h.mono fun _ hf => List.mem_cons_of_mem _ (List.mem_append_left _ hf)

theorem wwtReciviedCallback_fails (n : Node) (msg : Message) :
    Fails otherFaults (wwtReciviedCallback n msg) := by
  rw [wwtReciviedCallback]
  refine (getUniversalVirtualTime_calls n).other.bind fun t _ => ?_
  split_ifs
  all_goals first
    | exact .ok _
    | exact .error (by decide)

theorem processControl_fails (n : Node) (msg : Message) :
    Fails otherFaults (processControl n msg) := by
  rw [processControl]
  refine Fails.bind ?_ fun n₁ _ => Fails.bind ?_ fun n₂ _ => ?_
  · split_ifs
    all_goals first
      | exact .ok _
      | exact (sendEndIfHandshakeComplete_calls _).other
  · split_ifs
    all_goals first
      | exact .ok _
      | exact .error (by decide)
  · split_ifs
    · simp only [receiveDrainStart]
      split_ifs
      all_goals first
        | exact .ok _
        | exact .error (by decide)
    all_goals exact .ok _

theorem processMessage_fails (n : Node) (msg : Message) :
    Fails otherFaults (processMessage n msg) :=
  (wwtReciviedCallback_fails _ msg).bind fun n' _ => processControl_fails n' msg

theorem syncCheckpointCheck_fails (n : Node) : Fails otherFaults (syncCheckpointCheck n) := by
  rw [syncCheckpointCheck]
  split
  · refine Fails.bind ?_ fun n₁ _ => ?_
    · split_ifs
      · exact (notifyNeighborsForDrain_calls _ _ _).map.other
      · exact .ok _
    · split_ifs
      all_goals first
        | exact .ok _
        | exact .error (by decide)
  · exact .ok _

theorem wwtSyncCheckFinish_fails (n : Node) : Fails otherFaults (wwtSyncCheckFinish n) := by
  rw [wwtSyncCheckFinish]
  refine (syncCheckpointCheck_fails _).bind fun r _ => ?_
  obtain ⟨held, n₁⟩ := r
  dsimp only
  split_ifs
  · exact .ok _
  · exact (wwtSyncCheckMaster_calls _).other.bind fun n₂ _ => .ok _

/-- What the two asserts ask of the node. -/
inductive QuantumFault (n : Node) : Action → Fault → Prop
  | paused (harmed : n.wwt.quantumTimer.isArmed = true) (hpause : n.engine.pauseBh = true) :
      QuantumFault n .quantaSync .pauseBhNotNull
  | checked (hsite : n.site = some .quantaSync) (hcheck : n.wwt.syncCheckTimer ≠ .null) :
      QuantumFault n .pollReturn .syncCheckTimerNotNull

theorem pollReturn_quantumFault {n : Node} {site : PollSite} {f : Fault} (hsite : n.site = some site)
    (h : pollReturn n site = .error f) : f ∈ otherFaults ∨ QuantumFault n .pollReturn f := by
  cases site with
  | timer => cases h
  | quantaSync =>
      rcases quantaSyncFinish_fault h with hcall | ⟨rfl, hcheck⟩
      · exact Or.inl (List.mem_cons_of_mem _ (List.mem_append_left _ hcall))
      · exact Or.inr (.checked hsite hcheck)
  | isWaiting =>
      rw [pollReturn] at h
      split_ifs at h
      exact Or.inl (wwtSyncCheckFinish_fails _ f h)
  | waitLoop =>
      rw [pollReturn] at h
      split_ifs at h
      · cases h
        exact Or.inl (by decide)
      · exact Or.inl ((pdesEngineDestroy_calls _).other f h)

theorem act_quantumFault {n : Node} {a : Action} {f : Fault} (h : n.act a = .error (.fault f)) :
    f ∈ otherFaults ∨ QuantumFault n a f := by
  cases a with
  | pollReturn =>
      rw [Node.act] at h
      split at h
      · cases h
      · rename_i site hsite
        exact pollReturn_quantumFault hsite (callback_fault.mp h).2
  | quantaSync =>
      obtain ⟨⟨_, harmed⟩, hcall⟩ := callback_fault.mp h
      obtain ⟨rfl, hpause⟩ := quantaSync_fault hcall
      exact Or.inr (.paused harmed hpause)
  | wwtSend data => exact Or.inl ((wwtSend_calls _ _).other f (callback_fault.mp h).2)
  | finishInitiateCheckpoint =>
      exact Or.inl ((finishInitiateCheckpoint_calls _).other f (callback_fault.mp h).2)
  | notifyNeighboursOfEnd =>
      exact Or.inl ((notifyNeighboursOfEnd_calls _).other f (callback_fault.mp h).2)
  | engineDestroy => exact Or.inl ((pdesEngineDestroy_calls _).other f (callback_fault.mp h).2)
  | canStop => exact Or.inl ((canStop_calls n).map.other f (callback_fault.mp h).2)
  | checkpointBh =>
      rw [Node.act] at h
      split at h
      · cases h
      · exact Or.inl ((createCheckpointBh_calls _ _).other f (callback_fault.mp h).2)
  | deliver k =>
      rw [Node.act] at h
      split at h
      · cases h
      · have herror := (callback_fault.mp h).2
        rw [processMessageAtVirtualTime] at herror
        split_ifs at herror
        cases herror
        exact Or.inl (by decide)
  | setup | advance | pollTimer | syncCheck | pauseBh => cases (callback_fault.mp h).2
  | pollMessage | commSend => cases h

theorem nodeStep_quantumFault {n : Node} {b : NodeAction} {f : Fault}
    (h : nodeStep n b = .error (.fault f)) : f ∈ otherFaults ∨ ∃ a, QuantumFault n a f := by
  cases b with
  | act a =>
      rw [nodeStep] at h
      split_ifs at h
      · exact (act_quantumFault h).imp_right fun hfault => ⟨a, hfault⟩
      · cases h
  | receive msg =>
      rw [nodeStep] at h
      split at h
      · cases h
      · split_ifs at h
        · rw [mapError_fault, pdesEnginePoll_eq] at h
          exact Or.inl (processMessage_fails n msg f h)
        · cases h
  | sent =>
      rw [nodeStep] at h
      split at h <;> cases h
  | taken =>
      rw [nodeStep] at h
      split at h <;> cases h

/-- A node in one of the phases fails neither assert. -/
theorem Node.InPhase.asserts {n : Node} (hn : n.InPhase) {b : NodeAction} {f : Fault}
    (h : nodeStep n b = .error (.fault f)) : f ∈ otherFaults := by
  rcases nodeStep_quantumFault h with hother | ⟨a, hfault⟩
  · exact hother
  · exfalso
    cases hfault with
    | paused harmed hpause =>
        have hrun := hn.running_of (QEMUTimer.ne_stopped harmed)
        exact absurd (hpause.symm.trans hrun.pauseBh) (by decide)
    | checked hsite hcheck => exact hcheck (hn.arriving_of hsite).syncCheckTimer

/-! ### Runs -/

/-- A node in a run, with what is counted of it. -/
structure CycleRun where
  node : Node
  /-- The calls of `quanta_sync`. -/
  started : Nat
  /-- The calls of `wwt_sync_check` that have freed their timer. -/
  completed : Nat

def cycleStep (r : CycleRun) (b : NodeAction) : Except Halt CycleRun := do
  let n ← nodeStep r.node b
  return {
    node := n
    started := r.started + (decide (b = .act .quantaSync)).toNat
    completed := r.completed + (r.node.completesCycle b n).toNat }

/-- Bottom halves come first, and the node takes no exit path. -/
def CycleGuard (r : CycleRun) (b : NodeAction) (r' : CycleRun) : Prop :=
  BottomHalvesFirst r.node b ∧ StaysIn r.node b r'.node

/-- A node that has just been created, with any parameters. -/
def CycleRun.Created (r : CycleRun) : Prop :=
  ∃ sync latencyns master incrementalBase clock,
    r = ⟨pdesEngineWwtCreate sync latencyns master incrementalBase clock, 0, 0⟩

structure CycleRun.Inv (r : CycleRun) : Prop where
  phase : r.node.InPhase
  started : r.started = r.completed + r.node.wwt.finishedQuantum.toNat
  round : r.node.wwt.currentQuantumRound = r.completed % 2 ^ 64

theorem CycleRun.Created.inv {r : CycleRun} (h : r.Created) : r.Inv := by
  obtain ⟨sync, latencyns, master, incrementalBase, clock, rfl⟩ := h
  refine ⟨.running ⟨Or.inl rfl, ?_, rfl, rfl, rfl, rfl⟩, rfl, rfl⟩
  simp [Node.quantum, pdesEngineWwtCreate]

theorem cycleStep_ok {r r' : CycleRun} {b : NodeAction} (h : cycleStep r b = .ok r') :
    nodeStep r.node b = .ok r'.node ∧
      r'.started = r.started + (decide (b = .act .quantaSync)).toNat ∧
      r'.completed = r.completed + (r.node.completesCycle b r'.node).toNat := by
  obtain ⟨n, hn, h⟩ := bind_eq_ok.mp h
  cases h
  exact ⟨hn, rfl, rfl⟩

theorem CycleRun.Inv.step {r r' : CycleRun} {b : NodeAction} (hr : r.Inv)
    (h : cycleStep r b = .ok r') (hguard : CycleGuard r b r') : r'.Inv := by
  obtain ⟨hstep, hstarted, hcompleted⟩ := cycleStep_ok h
  have hturn := nodeStep_turn hstep
  have hcounts := hturn.counts hr.phase hguard.2
  refine ⟨hturn.inPhase hr.phase hguard.1 hguard.2, ?_, ?_⟩
  · have hcalls := hcounts.calls
    have hold := hr.started
    omega
  · rw [hcounts.round, hr.round, hcompleted]
    cases r.node.completesCycle b r'.node
    · rfl
    · simp only [Bool.toNat_true, if_true]
      omega

/-- What a run of one node keeps. -/
structure CycleRun.Sound (r : CycleRun) : Prop where
  /-- Between callbacks one of the two timers is armed. -/
  armed : r.node.wwt.quantumTimer ≠ .null → r.node.site = none →
    r.node.wwt.quantumTimer.isArmed ≠ r.node.wwt.syncCheckTimer.isArmed
  finished : r.node.wwt.quantumTimer ≠ .null → r.node.site = none →
    (r.node.wwt.finishedQuantum = true ↔ r.node.wwt.syncCheckTimer ≠ .null)
  asserts : ∀ b f, cycleStep r b = .error (.fault f) →
    f ≠ .syncCheckTimerNotNull ∧ f ≠ .pauseBhNotNull
  started : r.started = r.completed + r.node.wwt.finishedQuantum.toNat
  /-- The round is a `uint64_t`. -/
  round : r.node.wwt.currentQuantumRound = r.completed % 2 ^ 64
  /-- The round stays while the bottom half of a checkpoint exists. -/
  held : r.node.engine.boundryCheckpointBh ≠ none → ∀ b r', cycleStep r b = .ok r' →
    CycleGuard r b r' → r'.completed = r.completed ∧
      r'.node.wwt.currentQuantumRound = r.node.wwt.currentQuantumRound

theorem CycleRun.Inv.sound {r : CycleRun} (hr : r.Inv) : r.Sound where
  armed hsetup hsite := (hr.phase.timers hsite hsetup).1
  finished hsetup hsite := (hr.phase.timers hsite hsetup).2
  asserts b f h := by
    have hstep : nodeStep r.node b = .error (.fault f) := by
      rcases bind_eq_error.mp h with h | ⟨n, _, h⟩
      · exact h
      · cases h
    have hother := hr.phase.asserts hstep
    constructor <;> rintro rfl <;> exact absurd hother (by decide)
  started := hr.started
  round := hr.round
  held hbh b r' h hguard := by
    obtain ⟨bh, hbh⟩ := Option.ne_none_iff_exists'.mp hbh
    have hsite : r.node.site ≠ some .isWaiting := by
      intro hsite
      rcases (hr.phase.held hbh).site with hpoll | hpoll <;> rw [Node.quantum, hsite] at hpoll <;>
        cases hpoll
    obtain ⟨hstep, _, hcompleted⟩ := cycleStep_ok h
    rw [not_completesCycle_of_site hsite] at hcompleted
    have hround := ((nodeStep_turn hstep).counts hr.phase hguard.2).round
    rw [not_completesCycle_of_site hsite] at hround
    exact ⟨hcompleted, hround⟩

/-- The quantum of one node, in every run from its creation. -/
theorem quantum_cycle {r : CycleRun} (hr : Reachable cycleStep CycleGuard CycleRun.Created r) :
    r.Sound := by
  have hinv : r.Inv :=
    hr.invariant (fun _ h => h.inv) fun _ _ _ _ hinv hstep hguard => hinv.step hstep hguard
  exact hinv.sound

instance (n : Node) (b : NodeAction) : Decidable (BottomHalvesFirst n b) :=
  inferInstanceAs (Decidable (_ → _))

instance (n : Node) (b : NodeAction) (n' : Node) : Decidable (StaysIn n b n') :=
  decidable_of_iff (b ≠ .act .engineDestroy ∧
      ¬(b = .act .pollReturn ∧ n.site = some .waitLoop ∧ n.engine.pairHasFinished = true) ∧
      n'.exitCalled = false)
    ⟨fun h => ⟨h.1, h.2.1, h.2.2⟩, fun h => ⟨h.destroy, h.finished, h.exitCalled⟩⟩

instance (r : CycleRun) (b : NodeAction) (r' : CycleRun) : Decidable (CycleGuard r b r') :=
  inferInstanceAs (Decidable (_ ∧ _))

/-- A node is set up, ends its quantum and gets the neighbour's SYNC. -/
def firstCycle : List NodeAction :=
  [.act .setup, .act .quantaSync, .act .pollReturn, .sent, .act .pauseBh, .act .syncCheck,
    .receive (.ofType msgTypeSync), .act .pollReturn]

theorem quantum_cycle_firstCycle :
    ∃ r, Reachable cycleStep CycleGuard CycleRun.Created r ∧ r.completed = 1 ∧ r.Sound := by
  have hrun : (run cycleStep CycleGuard ⟨pdesEngineWwtCreate true 1000 true 2 5, 0, 0⟩
      firstCycle).map CycleRun.completed = some 1 := by decide
  obtain ⟨r, hr, hcompleted⟩ := Option.map_eq_some_iff.mp hrun
  have hstart : Reachable cycleStep CycleGuard CycleRun.Created
      ⟨pdesEngineWwtCreate true 1000 true 2 5, 0, 0⟩ := .start ⟨true, 1000, true, 2, 5, rfl⟩
  have hreach := hstart.run hr
  exact ⟨r, hreach, hcompleted, quantum_cycle hreach⟩

end LeanPdes
