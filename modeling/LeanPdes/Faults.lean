import LeanPdes.Moves

/-! Where the asserts of the protocol can fail. Five asserts speak about the neighbour's messages and
the round of a checkpoint; each of them is raised at one place, under the condition it tests, and by
no other function. -/

namespace LeanPdes

open Words TwoParty Reach

/-- The asserts about the neighbour's messages and the round of a checkpoint. -/
def protocolFaults : List Fault :=
  [.timestampInPast, .wrongQuantumRound, .endBeforePermission, .finishedBeforePermission,
    .checkpointRoundPassed]

/-- A call in which none of these asserts fails. -/
def Quiet {α : Type} (x : Except Fault α) : Prop := ∀ f, x = .error f → f ∉ protocolFaults

theorem bind_eq_error {α β ε : Type} {x : Except ε α} {g : α → Except ε β} {e : ε} :
    x >>= g = .error e ↔ x = .error e ∨ ∃ a, x = .ok a ∧ g a = .error e := by
  cases x <;> simp [bind, Except.bind]

/-- The asserts and accesses of a call that depend on the node alone. -/
def callFaults : List Fault :=
  [.outOfBounds, .firstSyncVirtualTimeUnset, .firstMessageNotSync, .drainNotNeeded]

theorem not_protocolFault {f : Fault} (hf : f ∈ callFaults) : f ∉ protocolFaults := by
  revert hf
  cases f <;> decide

/-- A call that fails with one of these at most. -/
def Fails {α : Type} (faults : List Fault) (x : Except Fault α) : Prop :=
  ∀ f, x = .error f → f ∈ faults

section

variable {α β : Type} {faults faults' : List Fault} {x : Except Fault α}

theorem Fails.ok (a : α) : Fails faults (.ok a) := by
  intro f h
  cases h

theorem Fails.error {f : Fault} (hf : f ∈ faults) : Fails faults (.error f : Except Fault α) := by
  intro f' h
  cases h
  exact hf

theorem Fails.mono (hx : Fails faults x) (hsub : faults ⊆ faults') : Fails faults' x :=
  fun f h => hsub (hx f h)

theorem Fails.bind {g : α → Except Fault β} (hx : Fails faults x)
    (hg : ∀ a, x = .ok a → Fails faults (g a)) : Fails faults (x >>= g) := by
  intro f h
  rcases bind_eq_error.mp h with h | ⟨a, ha, h⟩
  · exact hx f h
  · exact hg a ha f h

theorem Fails.map {g : α → β} (hx : Fails faults x) : Fails faults (g <$> x) := by
  intro f h
  cases x with
  | ok a => cases h
  | error f' =>
      cases h
      exact hx f rfl

theorem Fails.quiet (hx : Fails callFaults x) : Quiet x := fun f h => not_protocolFault (hx f h)

end

theorem getUniversalVirtualTime_calls (n : Node) : Fails callFaults (getUniversalVirtualTime n) := by
  rw [getUniversalVirtualTime]
  split_ifs
  · exact .error (by decide)
  · exact .ok _

theorem createMessage_calls (data : List UInt8) (type : UInt8) (tsNs : Int) :
    Fails callFaults (createMessage data type tsNs) := by
  rw [createMessage]
  split_ifs
  · exact .ok _
  · exact .error (by decide)

theorem sendControl_calls (n : Node) (type : UInt8) : Fails callFaults (sendControl n type) := by
  rw [sendControl]
  refine (getUniversalVirtualTime_calls n).bind fun t _ => ?_
  exact (createMessage_calls _ _ t).bind fun msg _ => .ok _

theorem sendEndIfHandshakeComplete_calls (n : Node) :
    Fails callFaults (sendEndIfHandshakeComplete n) := by
  rw [sendEndIfHandshakeComplete]
  split_ifs
  · exact .ok n
  · exact .ok n
  · exact sendControl_calls _ _

theorem notifyNeighboursOfEnd_calls (n : Node) : Fails callFaults (notifyNeighboursOfEnd n) := by
  rw [notifyNeighboursOfEnd]
  split_ifs
  · exact .ok n
  · exact sendEndIfHandshakeComplete_calls _

theorem pdesEngineDestroy_calls (n : Node) : Fails callFaults (pdesEngineDestroy n) := by
  rw [pdesEngineDestroy]
  refine (notifyNeighboursOfEnd_calls n).bind fun n' _ => ?_
  split_ifs
  · exact .ok _
  · exact .ok _

theorem grantPermission_calls (n : Node) : Fails callFaults (grantPermission n) := by
  rw [grantPermission]
  exact (sendControl_calls _ _).bind fun n' _ => sendEndIfHandshakeComplete_calls n'

theorem canStop_calls (n : Node) : Fails callFaults (canStop n) := by
  rw [canStop]
  refine Fails.bind ?_ fun n' _ => .ok _
  split_ifs
  · exact (sendControl_calls _ _).bind fun n' _ => .ok _
  · exact .ok _
  · exact grantPermission_calls _
  · exact .ok _

theorem wwtSyncCheckMaster_calls (n : Node) : Fails callFaults (wwtSyncCheckMaster n) := by
  rw [wwtSyncCheckMaster]
  split_ifs
  · exact grantPermission_calls n
  · exact .ok n
  · exact .ok n

theorem finishInitiateCheckpoint_calls (n : Node) : Fails callFaults (finishInitiateCheckpoint n) := by
  simp only [finishInitiateCheckpoint]
  split_ifs
  · exact .ok _
  · exact .ok _
  · exact sendControl_calls _ _

theorem createCheckpointBh_calls (exitAfter : Bool) (n : Node) :
    Fails callFaults (createCheckpointBh exitAfter n) := by
  rw [createCheckpointBh]
  split
  · exact .ok n
  · refine Fails.bind ?_ fun n' _ => .ok _
    split_ifs
    · exact pdesEngineDestroy_calls _
    · exact .ok _

theorem notifyNeighborsForDrain_calls (n : Node) (name : List UInt8) (format : SnapshotFormat) :
    Fails callFaults (notifyNeighborsForDrain n name format) := by
  rw [notifyNeighborsForDrain]
  dsimp only
  split_ifs
  · exact .error (by decide)
  · exact .ok _
  · exact .ok _
  · exact .error (by decide)
  · refine (getUniversalVirtualTime_calls _).bind fun t _ => ?_
    exact (createMessage_calls _ _ _).bind fun msg _ => .ok _

theorem wwtSend_calls (n : Node) (data : List UInt8) : Fails callFaults (wwtSend n data) := by
  rw [wwtSend]
  refine (getUniversalVirtualTime_calls n).bind fun t _ => ?_
  refine (createMessage_calls _ _ _).bind fun msg _ => ?_
  rw [pdesEngineSend]
  split_ifs
  · exact .ok _
  · exact .error (by decide)
  · exact .ok _

theorem sendSync_calls (n : Node) : Fails callFaults (sendSync n) := by
  rw [sendSync]
  refine (getUniversalVirtualTime_calls n).bind fun t _ => ?_
  refine (createMessage_calls _ _ _).bind fun msg _ => ?_
  rw [pdesEngineSend]
  split_ifs
  · exact .ok _
  · exact .error (by decide)
  · exact .ok _

theorem quantaSync_fault {n : Node} {f : Fault} (h : quantaSync n = .error f) :
    f = .pauseBhNotNull ∧ n.engine.pauseBh = true := by
  rw [quantaSync] at h
  rcases bind_eq_error.mp h with h | ⟨_, _, h⟩
  · rw [pdesPause] at h
    split_ifs at h with _ hpause
    cases h
    exact ⟨rfl, hpause⟩
  · cases h

/-- Telling the neighbour about the drain changes neither the request nor the round. -/
theorem notifyNeighborsForDrain_request {n n' : Node} {name : List UInt8} {format : SnapshotFormat}
    {r : Int} (h : notifyNeighborsForDrain n name format = .ok (r, n')) :
    n'.engine.checkpointQuantumRound = n.engine.checkpointQuantumRound ∧ n'.wwt = n.wwt := by
  rcases notifyNeighborsForDrain_ok h with ⟨rfl, _⟩ | ⟨rfl, _⟩ | ⟨msg, _, _, _, _, rfl⟩
  · exact ⟨rfl, rfl⟩
  · exact ⟨rfl, rfl⟩
  · exact ⟨rfl, rfl⟩

theorem quantaSyncFinish_fault {n : Node} {f : Fault} (h : quantaSyncFinish n = .error f) :
    f ∈ callFaults ∨ (f = .syncCheckTimerNotNull ∧ n.wwt.syncCheckTimer ≠ .null) := by
  rw [quantaSyncFinish] at h
  rcases bind_eq_error.mp h with h | ⟨n₁, hdrain, h⟩
  · split_ifs at h
    exact Or.inl ((notifyNeighborsForDrain_calls _ _ _).map f h)
  rcases bind_eq_error.mp h with h | ⟨n₂, hsend, h⟩
  · split_ifs at h
    exact Or.inl (sendSync_calls n₁ f h)
  have hn₁ : n₁.wwt = n.wwt := by
    rcases drain_cases hdrain with ⟨_, r, hcall⟩ | ⟨_, rfl⟩
    · exact (notifyNeighborsForDrain_request hcall).2
    · rfl
  have hn₂ : n₂.wwt = n₁.wwt := by
    split_ifs at hsend
    · obtain ⟨time, msg, _, rfl⟩ := sendSync_ok hsend
      rfl
    · cases hsend
      rfl
  split_ifs at h with harmed
  cases h
  rw [hn₂, hn₁] at harmed
  exact Or.inr ⟨rfl, harmed⟩

/-- The condition under which processing a message fails an assert of the protocol. -/
inductive MessageFault (n : Node) (msg : Message) : Fault → Prop
  | sync (htype : msg.type = msgTypeSync) (hround : ¬n.ValidRound msg.syncRound) :
      MessageFault n msg .wrongQuantumRound
  | packet (htype : msg.type = msgTypeNormal) (htime : int64 msg.tsNs < n.universalTime) :
      MessageFault n msg .timestampInPast
  | finished (htype : msg.type = endOfEmulation) (hpermitted : n.engine.permittedToExit = false) :
      MessageFault n msg .endBeforePermission

theorem wwtReciviedCallback_fault {n : Node} {msg : Message} {f : Fault}
    (h : wwtReciviedCallback n msg = .error f) (hf : f ∈ protocolFaults) : MessageFault n msg f := by
  rw [wwtReciviedCallback] at h
  rcases bind_eq_error.mp h with h | ⟨t, ht, h⟩
  · exact absurd hf ((getUniversalVirtualTime_calls n).quiet f h)
  · rw [getUniversalVirtualTime_ok ht] at h
    split_ifs at h with htype hround hnormal hsync htime
    · cases h
      exact .sync htype hround.2
    · cases h
      exact .packet hnormal htime

theorem processControl_fault {n : Node} {msg : Message} {f : Fault}
    (h : processControl n msg = .error f) (hf : f ∈ protocolFaults) :
    msg.type = endOfEmulation ∧ n.engine.permittedToExit = false ∧ f = .endBeforePermission := by
  rw [processControl] at h
  rcases bind_eq_error.mp h with h | ⟨n₁, hn₁, h⟩
  · exfalso
    split_ifs at h
    · exact (sendEndIfHandshakeComplete_calls _).quiet f h hf
    · exact (sendEndIfHandshakeComplete_calls _).quiet f h hf
  · rcases bind_eq_error.mp h with h | ⟨n₂, _, h⟩
    · split_ifs at h with htype hpermitted
      cases h
      have heq : n₁ = n := by
        rw [htype] at hn₁
        cases hn₁
        rfl
      exact ⟨htype, by simpa [heq] using hpermitted, rfl⟩
    · exfalso
      split_ifs at h
      · simp only [receiveDrainStart] at h
        split_ifs at h
        cases h
        exact absurd hf (by decide)
      all_goals cases h

theorem processMessage_fault {n : Node} {msg : Message} {f : Fault}
    (h : processMessage n msg = .error f) (hf : f ∈ protocolFaults) : MessageFault n msg f := by
  rw [processMessage] at h
  rcases bind_eq_error.mp h with h | ⟨n₁, hn₁, h⟩
  · cases wwtReciviedCallback_fault h hf with
    | sync htype hround => exact .sync htype hround
    | packet htype htime => exact .packet htype htime
    | finished htype hpermitted => exact .finished htype hpermitted
  · obtain ⟨htype, hpermitted, rfl⟩ := processControl_fault h hf
    rw [(wwtReciviedCallback_frame hn₁).1] at hpermitted
    exact .finished htype hpermitted

/-- The condition under which the return of a poll fails an assert of the protocol. -/
inductive ReturnFault (n : Node) : PollSite → Fault → Prop
  | round (hneeds : n.engine.needsToCheckpoint = true)
      (hround : n.engine.checkpointQuantumRound < n.wwt.currentQuantumRound) :
      ReturnFault n .isWaiting .checkpointRoundPassed
  | finished (hfinished : n.engine.pairHasFinished = true)
      (hpermitted : n.engine.permittedToExit = false) :
      ReturnFault n .waitLoop .finishedBeforePermission

theorem syncCheckpointCheck_fault {n : Node} {f : Fault} (hsync : n.wwt.shouldSync = true)
    (h : syncCheckpointCheck n = .error f) (hf : f ∈ protocolFaults) :
    f = .checkpointRoundPassed ∧ n.engine.needsToCheckpoint = true ∧
      n.engine.checkpointQuantumRound < n.wwt.currentQuantumRound := by
  rw [syncCheckpointCheck] at h
  split at h
  · rename_i hneeds
    rcases bind_eq_error.mp h with h | ⟨n₁, hn₁, h⟩
    · split at h
      · exact absurd hf ((notifyNeighborsForDrain_calls _ _ _).map.quiet f h)
      · cases h
    · have hrequest : n₁.engine.checkpointQuantumRound = n.engine.checkpointQuantumRound ∧
          n₁.wwt = n.wwt := by
        rcases drain_cases hn₁ with ⟨_, r, hdrain⟩ | ⟨_, rfl⟩
        · exact notifyNeighborsForDrain_request hdrain
        · exact ⟨rfl, rfl⟩
      rw [hrequest.1, hrequest.2] at h
      split_ifs at h with hbelow hat
      cases h
      refine ⟨rfl, hneeds, ?_⟩
      have hge := not_lt.mp fun hlt => hbelow ⟨hlt, hsync⟩
      exact lt_of_le_of_ne hge fun heq => hat (Or.inl heq.symm)
  · cases h

theorem wwtSyncCheckFinish_fault {n : Node} {f : Fault} (hsync : n.wwt.shouldSync = true)
    (h : wwtSyncCheckFinish n = .error f) (hf : f ∈ protocolFaults) :
    f = .checkpointRoundPassed ∧ n.engine.needsToCheckpoint = true ∧
      n.engine.checkpointQuantumRound < n.wwt.currentQuantumRound := by
  rw [wwtSyncCheckFinish] at h
  rcases bind_eq_error.mp h with h | ⟨⟨held, n₁⟩, _, h⟩
  · exact syncCheckpointCheck_fault
      (n := { n with engine.skipBoundryCheckAfterCheckpoint := false }) hsync h hf
  · dsimp only at h
    split at h
    · cases h
    · rcases bind_eq_error.mp h with h | ⟨n₂, _, h⟩
      · exact absurd hf ((wwtSyncCheckMaster_calls _).quiet f h)
      · cases h

theorem pollReturn_fault {n : Node} {site : PollSite} {f : Fault} (hsync : n.wwt.shouldSync = true)
    (h : pollReturn n site = .error f) (hf : f ∈ protocolFaults) : ReturnFault n site f := by
  cases site with
  | timer => cases h
  | quantaSync =>
      rcases quantaSyncFinish_fault h with hcall | ⟨rfl, _⟩
      · exact absurd hf (not_protocolFault hcall)
      · exact absurd hf (by decide)
  | isWaiting =>
      rw [pollReturn] at h
      split_ifs at h
      obtain ⟨rfl, hneeds, hround⟩ :=
        wwtSyncCheckFinish_fault (n := { n with site := none }) hsync h hf
      exact .round hneeds hround
  | waitLoop =>
      rw [pollReturn] at h
      split_ifs at h with hfinished hpermitted
      · cases h
        exact .finished hfinished (by simpa using hpermitted)
      · exact absurd hf ((pdesEngineDestroy_calls _).quiet f h)

/-! ### The system -/

theorem mapError_fault {α : Type} {x : Except Fault α} {f : Fault} :
    x.mapError Halt.fault = .error (.fault f) ↔ x = .error f := by
  cases x <;> simp [Except.mapError]

theorem callback_fault {enabled : Prop} [Decidable enabled] {result : Except Fault Node} {f : Fault} :
    callback enabled result = .error (.fault f) ↔ enabled ∧ result = .error f := by
  rw [callback]
  split_ifs with henabled
  · cases result <;> simp [Except.mapError, henabled]
  · simp [henabled]

/-- A callback fails an assert of the protocol only at the return of a poll. -/
theorem act_fault_pollReturn {n : Node} {a : Action} {f : Fault} (h : n.act a = .error (.fault f))
    (hf : f ∈ protocolFaults) :
    a = .pollReturn ∧ ∃ site, n.site = some site ∧ pollReturn n site = .error f := by
  cases a with
  | pollReturn =>
      rw [Node.act] at h
      split at h
      · cases h
      · rename_i site hsite
        exact ⟨rfl, site, hsite, (callback_fault.mp h).2⟩
  | wwtSend data => exact absurd hf ((wwtSend_calls _ _).quiet f (callback_fault.mp h).2)
  | quantaSync =>
      obtain ⟨rfl, _⟩ := quantaSync_fault (callback_fault.mp h).2
      exact absurd hf (by decide)
  | finishInitiateCheckpoint =>
      exact absurd hf ((finishInitiateCheckpoint_calls _).quiet f (callback_fault.mp h).2)
  | notifyNeighboursOfEnd =>
      exact absurd hf ((notifyNeighboursOfEnd_calls _).quiet f (callback_fault.mp h).2)
  | engineDestroy => exact absurd hf ((pdesEngineDestroy_calls _).quiet f (callback_fault.mp h).2)
  | canStop => exact absurd hf ((canStop_calls n).map.quiet f (callback_fault.mp h).2)
  | checkpointBh =>
      rw [Node.act] at h
      split at h
      · cases h
      · exact absurd hf ((createCheckpointBh_calls _ _).quiet f (callback_fault.mp h).2)
  | deliver k =>
      rw [Node.act] at h
      split at h
      · cases h
      · have herror := (callback_fault.mp h).2
        rw [processMessageAtVirtualTime] at herror
        split_ifs at herror
        cases herror
        exact absurd hf (by decide)
  | setup | advance | pollTimer | syncCheck | pauseBh => cases (callback_fault.mp h).2
  | pollMessage | commSend => cases h

theorem act_fault {n : Node} {a : Action} {f : Fault} (hsync : n.wwt.shouldSync = true)
    (h : n.act a = .error (.fault f)) (hf : f ∈ protocolFaults) :
    a = .pollReturn ∧ ∃ site, n.site = some site ∧ ReturnFault n site f := by
  obtain ⟨ha, site, hsite, hreturn⟩ := act_fault_pollReturn h hf
  exact ⟨ha, site, hsite, pollReturn_fault hsync hreturn hf⟩

/-- A step fails in `process_message` or in a callback. -/
theorem step_fault_cases {capacity : Option Nat} {s : System} {i : Side} {a : Action} {f : Fault}
    (h : step capacity s (i, a) = .error (.fault f)) :
    (a = .pollMessage ∧ ∃ msg rest, (s i.peer).ring = msg :: rest ∧
      processMessage (s i) msg = .error f) ∨ (s i).act a = .error (.fault f) := by
  by_cases hsend : a = .commSend
  · subst hsend
    rw [step] at h
    split at h
    · cases h
    · split_ifs at h
      cases h
  by_cases hpoll : a = .pollMessage
  · subst hpoll
    rw [step] at h
    split at h
    · rename_i site msg rest _ hring
      split at h
      · rcases bind_eq_error.mp h with h | ⟨n', _, h⟩
        · rw [pdesEnginePoll_eq] at h
          exact Or.inl ⟨rfl, msg, rest, hring, mapError_fault.mp h⟩
        · cases h
      · cases h
    · cases h
  · rw [step_callback hsend hpoll] at h
    split at h
    · rcases bind_eq_error.mp h with h | ⟨n', _, h⟩
      · exact Or.inr h
      · cases h
    · cases h

/-- A step fails an assert of the protocol only where the assert stands. -/
theorem step_fault {capacity : Option Nat} {s : System} {i : Side} {a : Action} {f : Fault}
    (hsync : (s i).wwt.shouldSync = true) (h : step capacity s (i, a) = .error (.fault f))
    (hf : f ∈ protocolFaults) :
    (a = .pollMessage ∧ ∃ msg rest, (s i.peer).ring = msg :: rest ∧ MessageFault (s i) msg f) ∨
    (a = .pollReturn ∧ ∃ site, (s i).site = some site ∧ ReturnFault (s i) site f) := by
  rcases step_fault_cases h with ⟨ha, msg, rest, hring, hprocess⟩ | hact
  · exact Or.inl ⟨ha, msg, rest, hring, processMessage_fault hprocess hf⟩
  · exact Or.inr (act_fault hsync hact hf)

end LeanPdes
