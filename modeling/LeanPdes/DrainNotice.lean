import LeanPdes.DrainBounds
import LeanPdes.NodeRuns

/-! The notice of a checkpoint. `notify_neighbors_for_drain` sets its flag before it knows whether the
name fits, and its callers do not read what it returns: a name that does not fit counts as passed on.
Where every name fits, a node holds a round for a checkpoint only after it has sent the
`DRAIN_START`. -/

namespace LeanPdes

open Words Reach

/-- A `DRAIN_START` has been sent since the request was set; unless the neighbour has sent one since, it
carries the name and the format of the request. -/
def HasNotice (request : DrainRequest) (log : List Event) : Prop :=
  ∃ older newer msg, log = older ++ .commSend msg :: newer ∧ msg.type = drainStart ∧
    (∀ e ∈ newer, e.leavesRequest = true) ∧
    ((∀ m, .processMessage m ∈ newer → m.type ≠ drainStart) → ∃ round,
      msg.data = drainPayload request.checkpointName request.checkpointFormat round)

/-- A request that is marked as passed on has been sent. -/
def Noticed (n : Node) : Prop :=
  n.engine.notifiedNeighbors = true → HasNotice n.drainRequest n.log

theorem HasNotice.append {request : DrainRequest} {log evs : List Event} (h : HasNotice request log)
    (hevs : ∀ e ∈ evs, e.leavesRequest = true) : HasNotice request (log ++ evs) := by
  obtain ⟨older, newer, msg, rfl, htype, hnewer, hdata⟩ := h
  refine ⟨older, newer ++ evs, msg, by rw [List.append_assoc, List.cons_append], htype, ?_, ?_⟩
  · intro e hmem
    rcases List.mem_append.mp hmem with hmem | hmem
    · exact hnewer e hmem
    · exact hevs e hmem
  · intro hall
    exact hdata fun m hm => hall m (List.mem_append_left _ hm)

/-- A request of the neighbour may change the name. -/
theorem HasNotice.asked {request request' : DrainRequest} {log : List Event}
    (h : HasNotice request log) {msg : Message} (htype : msg.type = drainStart) :
    HasNotice request' (log ++ [.processMessage msg]) := by
  obtain ⟨older, newer, sent, rfl, hsent, hnewer, _⟩ := h
  refine ⟨older, newer ++ [.processMessage msg], sent,
    by rw [List.append_assoc, List.cons_append], hsent, ?_, ?_⟩
  · intro e hmem
    rcases List.mem_append.mp hmem with hmem | hmem
    · exact hnewer e hmem
    · rw [List.mem_singleton.mp hmem]
      rfl
  · intro hall
    exact absurd htype (hall msg (List.mem_append_right _ (List.mem_singleton.mpr rfl)))

/-- A step that leaves the request alone, with the events it logs. -/
theorem Noticed.mono {n n' : Node} (hn : Noticed n) (hrequest : n'.drainRequest = n.drainRequest)
    {evs : List Event} (hlog : n'.log = n.log ++ evs) (hevs : ∀ e ∈ evs, e.leavesRequest = true) :
    Noticed n' := by
  intro hnotified
  have hold : n.engine.notifiedNeighbors = true :=
    (congrArg DrainRequest.notifiedNeighbors hrequest).symm.trans hnotified
  rw [hrequest, hlog]
  exact (hn hold).append hevs

theorem Noticed.fields {n n' : Node} (hn : Noticed n) (hrequest : n'.drainRequest = n.drainRequest)
    (hlog : n'.log = n.log) : Noticed n' :=
  hn.mono hrequest (hlog.trans (List.append_nil _).symm) (by simp)

theorem Aside.noticed {n n' : Node} (h : Aside n n') (hn : Noticed n) : Noticed n' := by
  obtain ⟨evs, hlog, hevs⟩ := h.log
  exact hn.mono h.request hlog hevs

/-- The name of a request that has not been passed on fits the message. -/
def NameFits (n : Node) : Prop :=
  n.engine.needsToCheckpoint = true → n.engine.notifiedNeighbors = false →
    n.engine.checkpointName.length ≤ 1000

/-- A name that fits is sent. -/
theorem Drain.noticed {n n' : Node} (h : Drain n n') (hn : Noticed n) (hfits : NameFits n) :
    Noticed n' ∧ (n.engine.needsToCheckpoint = true → n'.engine.notifiedNeighbors = true) := by
  cases h with
  | none hnot =>
      refine ⟨hn, fun hneeds => ?_⟩
      rcases hnot with hnot | hnotified
      · rw [hneeds] at hnot
        cases hnot
      · exact hnotified
  | refused hneeds hnotified hlong => exact absurd (hfits hneeds hnotified) (by omega)
  | @sent hneeds hnotified msg htype hdata =>
      refine ⟨fun _ => ?_, fun _ => rfl⟩
      exact ⟨n.log, [], msg, rfl, htype, by simp, fun _ => ⟨_, hdata⟩⟩

/-- Where the step passes a request on, the name fits. -/
def PassesOn (n : Node) (b : NodeAction) : Prop :=
  b = .act .pollReturn ∧
    (n.site = some .quantaSync ∨ (n.site = some .isWaiting ∧ n.waiting = false))

def NoticeGuard (n : Node) (b : NodeAction) (_ : Node) : Prop := PassesOn n b → NameFits n

theorem beginQuantum_request (n : Node) : (beginQuantum n).drainRequest = n.drainRequest := by
  rw [beginQuantum]
  split_ifs <;> rfl

theorem NodeTurn.noticed {n n' : Node} {b : NodeAction} (h : NodeTurn n b n') (hn : Noticed n)
    (hguard : NoticeGuard n b n') : Noticed n' := by
  cases h with
  | aside _ h => exact h.noticed hn
  | arm _ _ => exact fun hnotified => by cases hnotified
  | @asked msg htype _ name format round => exact fun hnotified => (hn hnotified).asked htype
  | setup | pollTimer | pollDone | pauseBh | quantaSync | syncCheck | wait | again | emptyBh =>
      exact hn.fields rfl rfl
  | @arrive hsite n₁ n₂ hdrain h _ =>
      have hn₁ := (hdrain.noticed (hn.fields rfl rfl) (hguard ⟨rfl, Or.inl hsite⟩)).1
      exact (h.noticed hn₁).fields rfl rfl
  | @hold hsite hwaiting _ n₁ hdrain =>
      have hn₁ := (hdrain.noticed (hn.fields rfl rfl) (hguard ⟨rfl, Or.inr ⟨hsite, hwaiting⟩⟩)).1
      exact hn₁.fields rfl rfl
  | @pass hsite hwaiting n₁ n₂ hdrain h =>
      have hn₁ := (hdrain.noticed (hn.fields rfl rfl) (hguard ⟨rfl, Or.inr ⟨hsite, hwaiting⟩⟩)).1
      have hfreed : Noticed { n₁ with wwt.syncCheckTimer := .null } := hn₁.fields rfl rfl
      exact (h.noticed hfreed).fields (beginQuantum_request n₂) (beginQuantum_log n₂)
  | @destroy _ _ site n₁ _ h hn' =>
      have hleft : Noticed { n with site := site } := hn.fields rfl rfl
      rcases hn' with ⟨bh, rfl⟩ | rfl
      · exact (h.noticed hleft).fields rfl rfl
      · exact (h.noticed hleft).fields rfl rfl
  | save _ _ _ hn' =>
      rcases hn' with ⟨exited, rfl⟩ | ⟨n₁, haside, rfl⟩
      · exact fun hnotified => by cases hnotified
      · have hcleared : n₁.engine.notifiedNeighbors = false :=
          congrArg DrainRequest.notifiedNeighbors haside.request
        intro hnotified
        exact absurd (hcleared.symm.trans hnotified) (by decide)

/-- `sync_checkpoint_check` creates and schedules the bottom half. -/
def SchedulesCheckpoint (n : Node) (b : NodeAction) (n' : Node) : Prop :=
  b = .act .pollReturn ∧ n.site = some .isWaiting ∧ n.engine.boundryCheckpointBh = none ∧
    n'.engine.boundryCheckpointBh ≠ none

theorem NodeTurn.schedules {n n' : Node} {b : NodeAction} (h : NodeTurn n b n') (hn : Noticed n)
    (hguard : NoticeGuard n b n') (hschedules : SchedulesCheckpoint n b n') :
    HasNotice n'.drainRequest n'.log := by
  have hn' := h.noticed hn hguard
  obtain ⟨hb, hsite, hnone, hsome⟩ := hschedules
  subst hb
  cases h with
  | aside hb _ => cases hb
  | arm hb _ => cases hb
  | pollDone htimer =>
      rw [hsite] at htimer
      cases htimer
  | arrive hpoll _ _ _ =>
      rw [hsite] at hpoll
      cases hpoll
  | wait => exact absurd hnone hsome
  | again hpoll =>
      rw [hsite] at hpoll
      cases hpoll
  | destroy hexit _ _ =>
      rcases hexit with hexit | ⟨_, hpoll, _⟩
      · cases hexit
      · rw [hsite] at hpoll
        cases hpoll
  | pass _ _ hdrain h =>
      obtain ⟨expire, hbegin⟩ := passed_quantum hdrain h
      exact absurd ((congrArg Quantum.boundryCheckpointBh hbegin).trans hnone) hsome
  | @hold _ hwaiting hneeds n₁ hdrain =>
      have hfits := hguard ⟨rfl, Or.inr ⟨hsite, hwaiting⟩⟩
      exact hn' ((hdrain.noticed (hn.fields rfl rfl) hfits).2 hneeds)

/-- A node that has just been created, with any parameters. -/
def Node.Created (n : Node) : Prop :=
  ∃ sync latencyns master incrementalBase clock,
    n = pdesEngineWwtCreate sync latencyns master incrementalBase clock

/-- A request whose name does not fit is refused, and the flag that it has been passed on is set. -/
theorem refused_unchanged_iff {n : Node} {name : List UInt8} {format : SnapshotFormat}
    (hneeds : n.engine.needsToCheckpoint = true) :
    (∀ n', notifyNeighborsForDrain n name format = .ok (-1, n') → n' = n) ↔
      (n.engine.notifiedNeighbors = true ∨ name.length ≤ 1000) := by
  constructor
  · intro h
    by_contra hnot
    rw [not_or, Bool.not_eq_true, Nat.not_le] at hnot
    have hrefused : notifyNeighborsForDrain n name format =
        .ok (-1, { n with engine.notifiedNeighbors := true }) :=
      notifyNeighborsForDrain_refuses_iff.mpr ⟨hneeds, hnot.1, hnot.2, rfl⟩
    have hsame : true = n.engine.notifiedNeighbors :=
      congrArg (fun n => n.engine.notifiedNeighbors) (h _ hrefused)
    rw [hnot.1] at hsame
    cases hsame
  · rintro hok n' hrefused
    obtain ⟨_, hnotified, hlong, _⟩ := notifyNeighborsForDrain_refuses_iff.mp hrefused
    rcases hok with hok | hok
    · rw [hnotified] at hok
      cases hok
    · omega

instance (n : Node) (b : NodeAction) : Decidable (PassesOn n b) :=
  inferInstanceAs (Decidable (_ ∧ _))

instance (n : Node) : Decidable (NameFits n) :=
  inferInstanceAs (Decidable (_ → _ → _))

instance (n : Node) (b : NodeAction) (n' : Node) : Decidable (NoticeGuard n b n') :=
  inferInstanceAs (Decidable (_ → _))

instance (n : Node) (b : NodeAction) (n' : Node) : Decidable (SchedulesCheckpoint n b n') :=
  inferInstanceAs (Decidable (_ ∧ _))

/-- A request for round 0, with a name of `k` bytes. -/
def requestForRound (k : Nat) (h : k ≤ 2031) : Message :=
  drainStartMessage (nameOfLength k) 2 0 (length_nameOfLength_le h)

/-- A follower in the poll of `quanta_sync` of round 0. -/
def pausedFollower : Node := (setupWwt (pdesEngineWwtCreate true 1000 false 2 5)).enterQuantaSync

/-- The follower ends its `quanta_sync` and comes to the end of `wwt_sync_check`. -/
def toCheckpoint (sends : Nat) : List NodeAction :=
  [.act .pollReturn] ++ List.replicate sends .sent ++ [.act .pauseBh, .act .syncCheck,
    .receive (.ofType msgTypeSync)]

theorem pausedFollower_reached {guard : Node → NodeAction → Node → Prop}
    (hguard : ∀ n b n', ¬PassesOn n b → guard n b n') :
    Reachable nodeStep guard Node.Created pausedFollower := by
  have hcreated : Reachable nodeStep guard Node.Created (pdesEngineWwtCreate true 1000 false 2 5) :=
    .start ⟨true, 1000, false, 2, 5, rfl⟩
  have hsetup : nodeStep (pdesEngineWwtCreate true 1000 false 2 5) (.act .setup) =
      .ok (setupWwt (pdesEngineWwtCreate true 1000 false 2 5)) := rfl
  have hpaused : nodeStep (setupWwt (pdesEngineWwtCreate true 1000 false 2 5)) (.act .quantaSync) =
      .ok pausedFollower := rfl
  exact (hcreated.next hsetup (hguard _ _ _ (by decide))).next hpaused (hguard _ _ _ (by decide))

/-- The follower gets the request in that poll. -/
def requestedFollower (k : Nat) (h : k ≤ 2031) : Node :=
  pausedFollower.requested (requestForRound k h) (qpdes ++ nameOfLength k) 2 0

theorem requestedFollower_reached {guard : Node → NodeAction → Node → Prop}
    (hguard : ∀ n b n', ¬PassesOn n b → guard n b n') (k : Nat) (h : k ≤ 2031) :
    Reachable nodeStep guard Node.Created (requestedFollower k h) := by
  have hreceive : nodeStep pausedFollower (.receive (requestForRound k h)) =
      .ok (requestedFollower k h) := by
    change (pdesEnginePoll pausedFollower .quantaSync (requestForRound k h)).mapError Halt.fault = _
    rw [pdesEnginePoll_eq, processMessage_drainStart rfl rfl rfl (by decide) nameOfLength_noNul rfl
      (by decide)]
    rfl
  refine (pausedFollower_reached hguard).next hreceive (hguard _ _ _ ?_)
  rw [PassesOn]
  simp

theorem toOption_eq_some {α ε : Type} {x : Except ε α} {a : α} : x.toOption = some a ↔ x = .ok a := by
  cases x <;> simp [Except.toOption]

end LeanPdes
