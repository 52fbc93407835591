import LeanPdes.CheckpointProtocol
import LeanPdes.DrainStart
import LeanPdes.Faults
import LeanPdes.Rounds

/-! A node as a party that saves checkpoints. What it says is in the messages it passes to
`pdes_comm_send`, and what it decides and saves is in its log: each function of the node is a turn of
the party, or none of its business. -/

namespace LeanPdes

open Words Reach CheckpointProtocol

/-- What a message says about rounds and checkpoints. -/
def Message.mark (msg : Message) : Option Mark :=
  if msg.type = drainStart then some (.ask msg.drainRound)
  else if msg.type = msgTypeSync then some (.sync msg.syncRound)
  else none

def marksIn (msgs : List Message) : List Mark := msgs.filterMap Message.mark

/-- The rounds of the runs of `set_checkpoint_values_for_master`. -/
def armedIn (log : List Event) : List Nat :=
  log.filterMap fun | .setCheckpointValues round => some round | _ => none

/-- The runs of `save_snapshot`: the round of the checkpoint, and the node's own. -/
def savedIn (log : List Event) : List (Nat × Nat) :=
  log.filterMap fun
    | .saveSnapshot _ checkpointRound currentRound => some (checkpointRound, currentRound)
    | _ => none

def Node.checkpointParty (n : Node) : Party where
  leader := n.engine.master
  needs := n.engine.needsToCheckpoint
  asked := n.engine.notifiedNeighbors
  target := n.engine.checkpointQuantumRound
  last := n.engine.checkpointName = initWarmed
  scheduled := n.engine.boundryCheckpointBh.isSome
  round := n.wwt.currentQuantumRound
  left := n.exitCalled
  armed := armedIn n.log
  saved := savedIn n.log
  marks := marksIn (sentIn n.log)

@[simp] theorem marksIn_append (l l' : List Message) : marksIn (l ++ l') = marksIn l ++ marksIn l' :=
  List.filterMap_append

@[simp] theorem armedIn_append (l l' : List Event) : armedIn (l ++ l') = armedIn l ++ armedIn l' :=
  List.filterMap_append

@[simp] theorem savedIn_append (l l' : List Event) : savedIn (l ++ l') = savedIn l ++ savedIn l' :=
  List.filterMap_append

theorem mark_of_drain {msg : Message} (htype : msg.type = drainStart) :
    msg.mark = some (.ask msg.drainRound) := if_pos htype

theorem mark_of_sync {msg : Message} (htype : msg.type = msgTypeSync) :
    msg.mark = some (.sync msg.syncRound) := by
  rw [Message.mark, if_neg (by rw [htype]; decide), if_pos htype]

theorem mark_of_other {msg : Message} (hdrain : msg.type ≠ drainStart)
    (hsync : msg.type ≠ msgTypeSync) : msg.mark = none := by
  rw [Message.mark, if_neg hdrain, if_neg hsync]

/-- The SYNC messages say that their rounds are over. -/
theorem sync_mem_marksIn {msgs : List Message} {r : Nat} :
    .sync r ∈ marksIn msgs ↔ r ∈ syncRounds msgs := by
  simp only [marksIn, syncRounds, List.mem_filterMap, List.mem_map, List.mem_filter,
    decide_eq_true_eq]
  constructor
  · rintro ⟨msg, hmem, hmark⟩
    rw [Message.mark] at hmark
    split_ifs at hmark with hdrain hsync
    · cases hmark
    · cases hmark
      exact ⟨msg, ⟨hmem, hsync⟩, rfl⟩
  · rintro ⟨msg, ⟨hmem, htype⟩, rfl⟩
    exact ⟨msg, hmem, mark_of_sync htype⟩

/-- A node has said that its round is over once `quanta_sync` is done. -/
theorem said_iff {n : Node} (hn : n.InRound) :
    .sync n.wwt.currentQuantumRound ∈ n.checkpointParty.marks ↔ n.arrived = true := by
  rw [Node.checkpointParty, sync_mem_marksIn, hn.sent, List.mem_range, TwoParty.Party.sent, Node.party]
  cases n.arrived <;> simp

/-- An event that says, decides and saves nothing, and is no call of `can_stop`. -/
def Event.isPlain : Event → Bool
  | .commSend msg => msg.type ≠ drainStart && msg.type ≠ msgTypeSync
  | .setCheckpointValues _ => false
  | .saveSnapshot .. => false
  | .canStop => false
  | _ => true

theorem plain_counts {evs : List Event} (h : ∀ e ∈ evs, e.isPlain = true) :
    marksIn (sentIn evs) = [] ∧ armedIn evs = [] ∧ savedIn evs = [] ∧ Event.canStop ∉ evs := by
  refine ⟨?_, ?_, ?_, fun hmem => ?_⟩
  · rw [marksIn, List.filterMap_eq_nil_iff]
    intro msg hmsg
    obtain ⟨e, he, hsent⟩ := List.mem_filterMap.mp hmsg
    have hplain := h e he
    cases e <;> cases hsent
    rw [Event.isPlain, Bool.and_eq_true, decide_eq_true_eq, decide_eq_true_eq] at hplain
    exact mark_of_other hplain.1 hplain.2
  · rw [armedIn, List.filterMap_eq_nil_iff]
    intro e he
    have hplain := h e he
    cases e <;> first | rfl | cases hplain
  · rw [savedIn, List.filterMap_eq_nil_iff]
    intro e he
    have hplain := h e he
    cases e <;> first | rfl | cases hplain
  · cases h _ hmem

/-- The fields of the node that the party has. -/
def Node.checkpoint (n : Node) : Bool × Bool × Bool × Nat × List UInt8 × Bool × Nat × Bool :=
  (n.engine.master, n.engine.needsToCheckpoint, n.engine.notifiedNeighbors,
    n.engine.checkpointQuantumRound, n.engine.checkpointName, n.engine.boundryCheckpointBh.isSome,
    n.wwt.currentQuantumRound, n.exitCalled)

/-- Nothing that the party says, decides or saves. -/
structure Plain (n n' : Node) : Prop where
  emits : ∃ evs, Emits n n' evs ∧ ∀ e ∈ evs, e.isPlain = true
  checkpoint : n'.checkpoint = n.checkpoint

theorem Plain.party {n n' : Node} (h : Plain n n') : n'.checkpointParty = n.checkpointParty := by
  obtain ⟨evs, he, hevs⟩ := h.emits
  obtain ⟨hmarks, harmed, hsaved, _⟩ := plain_counts hevs
  have hfields := h.checkpoint
  simp only [Node.checkpoint, Prod.mk.injEq] at hfields
  obtain ⟨hmaster, hneeds, hnotified, htarget, hname, hbh, hround, hexited⟩ := hfields
  simp only [Node.checkpointParty, hmaster, hneeds, hnotified, htarget, hname, hbh, hround, hexited,
    he.log, sentIn_append, marksIn_append, armedIn_append, savedIn_append, hmarks, harmed, hsaved,
    List.append_nil]

theorem Plain.trans {n n' n'' : Node} (h : Plain n n') (h' : Plain n' n'') : Plain n n'' where
  emits := by
    obtain ⟨evs, he, hevs⟩ := h.emits
    obtain ⟨evs', he', hevs'⟩ := h'.emits
    refine ⟨evs ++ evs', he.trans he', ?_⟩
    intro e hmem
    rcases List.mem_append.mp hmem with hmem | hmem
    · exact hevs e hmem
    · exact hevs' e hmem
  checkpoint := h'.checkpoint.trans h.checkpoint

/-- Other fields change, and nothing is logged. -/
theorem Plain.fields {n n' : Node} (hfields : n'.checkpoint = n.checkpoint)
    (hmessages : n'.messages = n.messages) : Plain n n' :=
  ⟨⟨[], .nothing hmessages, by simp⟩, hfields⟩

theorem Plain.refl (n : Node) : Plain n n := .fields rfl rfl

theorem pdesCommSend_plain (n : Node) {msg : Message} (hdrain : msg.type ≠ drainStart)
    (hsync : msg.type ≠ msgTypeSync) : Plain n (pdesCommSend n msg) :=
  ⟨⟨[.commSend msg], emits_pdesCommSend n msg, by simp [Event.isPlain, hdrain, hsync]⟩, rfl⟩

theorem plain_frame : HandshakeFrame Plain where
  trans := Plain.trans
  send n _ hmsg hdrain := pdesCommSend_plain n hdrain hmsg.1
  flags h := .fields (congrArg Node.checkpoint h :) (congrArg Node.messages h :)

theorem wwtSend_plain {n n' : Node} {data : List UInt8} (h : wwtSend n data = .ok n') :
    Plain n n' := by
  obtain ⟨msg, hmsg, rfl⟩ := wwtSend_ok h
  have htype : msg.type = msgTypeNormal := (createMessage_ok hmsg).2.2.2
  have hlog : Plain n (n.logSend data) :=
    ⟨⟨[.wwtSend n.wwt.currentQuantumRound n.universalTime data], .logs rfl rfl,
      by simp [Event.isPlain]⟩, rfl⟩
  exact hlog.trans (pdesCommSend_plain _ (by rw [htype]; decide) (by rw [htype]; decide))

theorem quantaSync_plain {n n' : Node} (h : quantaSync n = .ok n') : Plain n n' := by
  obtain ⟨paused, pauseBh, rfl⟩ := quantaSync_changes h
  exact .fields rfl rfl

theorem wwtReciviedCallback_plain {n n' : Node} {msg : Message}
    (h : wwtReciviedCallback n msg = .ok n') : Plain n n' := by
  rw [wwtReciviedCallback, bind_eq_ok] at h
  obtain ⟨t, _, h⟩ := h
  split_ifs at h <;> cases h <;> exact .fields rfl rfl

/-! ### Turns of the party -/

theorem Plain.stop {n n' : Node} (h : Plain n n') (hstop : Event.canStop ∈ n'.log) :
    Event.canStop ∈ n.log := by
  obtain ⟨evs, he, hevs⟩ := h.emits
  rw [he.log] at hstop
  exact (List.mem_append.mp hstop).resolve_right (plain_counts hevs).2.2.2

/-- A turn of the party, in which `can_stop` is not called. -/
structure Turns (n n' : Node) : Prop where
  turn : n.checkpointParty.Turn n'.checkpointParty
  stop : Event.canStop ∈ n'.log → Event.canStop ∈ n.log

theorem Plain.turns {n n' : Node} (h : Plain n n') : Turns n n' :=
  ⟨by rw [h.party]; exact .stay, h.stop⟩

theorem Plain.andTurns {n n₁ n' : Node} (h : Plain n n₁) (h' : Turns n₁ n') : Turns n n' :=
  ⟨by rw [← h.party]; exact h'.turn, h.stop ∘ h'.stop⟩

theorem setCheckpointValuesForMaster_party (n : Node) :
    (setCheckpointValuesForMaster n).checkpointParty = n.checkpointParty.arm := by
  simp [Node.checkpointParty, setCheckpointValuesForMaster, Party.arm, armedIn, savedIn, sentIn]

/-- The master decides to save in its round. -/
theorem setCheckpointValuesForMaster_turns {n : Node} (hmaster : n.engine.master = true)
    (hnot : .sync n.wwt.currentQuantumRound ∉ n.checkpointParty.marks) :
    Turns n (setCheckpointValuesForMaster n) := by
  refine ⟨?_, fun hstop => ?_⟩
  · rw [setCheckpointValuesForMaster_party]
    exact .arm hmaster hnot
  · simpa [setCheckpointValuesForMaster] using hstop

theorem finishInitiateCheckpoint_turns {n n' : Node}
    (hnot : n.engine.master = true → 1 ≤ n.engine.initFlag →
      .sync n.wwt.currentQuantumRound ∉ n.checkpointParty.marks)
    (h : finishInitiateCheckpoint n = .ok n') : Turns n n' := by
  simp only [finishInitiateCheckpoint] at h
  split_ifs at h with hmaster hinit
  · cases h
    have hset : Plain n { n with engine.masterInit := true } := .fields rfl rfl
    exact hset.andTurns (setCheckpointValuesForMaster_turns hmaster (hnot hmaster hinit))
  · cases h
    exact Plain.turns (.fields rfl rfl)
  · exact (plain_frame.sendControl (by decide) h).turns

theorem saveCheckpoint_party (n : Node) :
    (saveCheckpoint n).checkpointParty = n.checkpointParty.save n.exitCalled := by
  have hsaved : savedIn (saveCheckpoint n).log =
      savedIn n.log ++ [(n.engine.checkpointQuantumRound, n.wwt.currentQuantumRound)] :=
    savedIn_append ..
  have harmed : armedIn (saveCheckpoint n).log = armedIn n.log := by
    rw [saveCheckpoint, armedIn_append]
    exact List.append_nil _
  have hsent : sentIn (saveCheckpoint n).log = sentIn n.log := by
    rw [saveCheckpoint, sentIn_append]
    exact List.append_nil _
  rw [Node.checkpointParty, hsaved, harmed, hsent]
  rfl

/-- `pdes_engine_destroy` with no checkpoint pending. -/
theorem pdesEngineDestroy_party {n n' : Node} (hneeds : n.engine.needsToCheckpoint = false)
    (h : pdesEngineDestroy n = .ok n') :
    n'.checkpointParty = { n.checkpointParty with left := true } ∧
      (Event.canStop ∈ n'.log → Event.canStop ∈ n.log) := by
  rw [pdesEngineDestroy, bind_eq_ok] at h
  obtain ⟨n₁, hnotify, h⟩ := h
  have hplain := plain_frame.notifyNeighboursOfEnd hnotify
  have hneeds₁ : n₁.engine.needsToCheckpoint = n.engine.needsToCheckpoint :=
    congrArg (fun fields => fields.2.1) hplain.checkpoint
  rw [hneeds₁, hneeds] at h
  cases h
  rw [← hplain.party]
  exact ⟨rfl, hplain.stop⟩

/-- The party saves, and the master leaves after the `init_warmed` checkpoint. -/
theorem createCheckpointBh_turns {exitAfter : Bool} {n n' : Node}
    (hbh : n.engine.boundryCheckpointBh.isSome = true)
    (h : createCheckpointBh exitAfter n = .ok n') : Turns n n' := by
  rw [createCheckpointBh] at h
  split at h
  · cases h
    exact (Plain.refl n).turns
  · rename_i hneeds
    have hneeds' : n.engine.needsToCheckpoint = true := by simpa using hneeds
    obtain ⟨n₁, hdestroy, h⟩ := bind_eq_ok.mp h
    have hstop : Event.canStop ∈ (saveCheckpoint n).log → Event.canStop ∈ n.log := by
      simp [saveCheckpoint]
    split_ifs at hdestroy with hlast
    · obtain ⟨hparty, hstop₁⟩ := pdesEngineDestroy_party rfl hdestroy
      have hparty' : n'.checkpointParty = n.checkpointParty.save true := by
        have hexit : n₁.exitCalled = true := congrArg Party.left hparty
        cases h
        calc
          _ = { n₁.checkpointParty with left := n₁.exitCalled || exitAfter } := rfl
          _ = { (saveCheckpoint n).checkpointParty with left := true } := by
            rw [hparty, hexit, Bool.true_or]
          _ = _ := by
            rw [saveCheckpoint_party]
            rfl
      refine ⟨?_, ?_⟩
      · rw [hparty']
        exact .save hneeds' hbh fun _ _ => rfl
      · cases h
        exact hstop ∘ hstop₁
    · cases hdestroy
      cases h
      refine ⟨?_, hstop⟩
      have hparty' : ({ saveCheckpoint n with
          exitCalled := (saveCheckpoint n).exitCalled || exitAfter } : Node).checkpointParty =
          n.checkpointParty.save (n.exitCalled || exitAfter) := by
        calc
          _ = { (saveCheckpoint n).checkpointParty with left := n.exitCalled || exitAfter } := rfl
          _ = _ := by
            rw [saveCheckpoint_party]
            rfl
      rw [hparty']
      refine .save hneeds' hbh fun hmaster hname => ?_
      exact absurd ⟨of_decide_eq_true hname, hmaster⟩ hlast

/-- What a message says is said. -/
theorem pdesCommSend_party (n : Node) {msg : Message} {m : Mark} (hmark : msg.mark = some m) :
    (pdesCommSend n msg).checkpointParty =
      { n.checkpointParty with marks := n.checkpointParty.marks ++ [m] } := by
  have hsaid : marksIn (sentIn [.commSend msg]) = [m] := by simp [marksIn, sentIn, hmark]
  have hmarks : marksIn (sentIn (pdesCommSend n msg).log) = marksIn (sentIn n.log) ++ [m] := by
    rw [pdesCommSend, sentIn_append, marksIn_append, hsaid]
  have harmed : armedIn (pdesCommSend n msg).log = armedIn n.log := by
    rw [pdesCommSend, armedIn_append]
    exact List.append_nil _
  have hsaved : savedIn (pdesCommSend n msg).log = savedIn n.log := by
    rw [pdesCommSend, savedIn_append]
    exact List.append_nil _
  rw [Node.checkpointParty, hmarks, harmed, hsaved]
  rfl

theorem pdesCommSend_stop {n : Node} {msg : Message}
    (hstop : Event.canStop ∈ (pdesCommSend n msg).log) : Event.canStop ∈ n.log := by
  simpa [pdesCommSend] using hstop

/-- The party asks where it has to, and nothing else happens to the node. -/
structure AsksFirst (n n' : Node) : Prop where
  asks : n.checkpointParty.Asks n'.checkpointParty
  wwt : n'.wwt = n.wwt
  stop : Event.canStop ∈ n'.log → Event.canStop ∈ n.log

/-- A request is passed on: the neighbour is asked to save, unless the name does not fit. -/
theorem notifyNeighborsForDrain_asks {n n' : Node} {r : Int}
    (hround : n.wwt.currentQuantumRound < 2 ^ 32) (hneeds : n.engine.needsToCheckpoint = true)
    (h : notifyNeighborsForDrain n n.engine.checkpointName n.engine.checkpointFormat = .ok (r, n')) :
    AsksFirst n n' := by
  rcases notifyNeighborsForDrain_ok h with
    ⟨rfl, hnotified⟩ | ⟨rfl, hlong⟩ | ⟨msg, htype, hlen, hdata, hnot, rfl⟩
  · exact ⟨.skip (Or.inr hnotified), rfl, id⟩
  · refine ⟨.silent hneeds (decide_eq_false ?_), rfl, id⟩
    intro hname
    rw [hname] at hlong
    exact absurd hlong (by decide)
  · have hmark : msg.mark = some (.ask n.wwt.currentQuantumRound) := by
      rw [mark_of_drain htype, drainRound_of_payload hlen hdata (by omega)]
    refine ⟨?_, rfl, pdesCommSend_stop⟩
    rw [pdesCommSend_party _ hmark]
    exact .ask hneeds hnot

theorem drain_asks {n n' : Node} {needed : Prop} [Decidable needed]
    (hround : n.wwt.currentQuantumRound < 2 ^ 32)
    (hneeded : needed → n.engine.needsToCheckpoint = true)
    (hskip : ¬needed → n.engine.needsToCheckpoint = false ∨ n.engine.notifiedNeighbors = true)
    (h : (if needed then Prod.snd <$> notifyNeighborsForDrain n n.engine.checkpointName
      n.engine.checkpointFormat else .ok n) = .ok n') : AsksFirst n n' := by
  rcases drain_cases h with ⟨hn, r, hdrain⟩ | ⟨hn, rfl⟩
  · exact notifyNeighborsForDrain_asks hround (hneeded hn) hdrain
  · exact ⟨.skip (hskip hn), rfl, id⟩

/-- `quanta_sync` asks before it says that the round is over. -/
theorem quantaSyncFinish_turns {n n' : Node} (hsync : n.wwt.shouldSync = true)
    (hround : n.wwt.currentQuantumRound < 2 ^ 32)
    (hnot : .sync n.wwt.currentQuantumRound ∉ n.checkpointParty.marks)
    (h : quantaSyncFinish n = .ok n') : Turns n n' := by
  rw [quantaSyncFinish, bind_eq_ok] at h
  obtain ⟨n₁, hdrain, h⟩ := h
  have hasks : AsksFirst n n₁ := by
    refine drain_asks hround And.left (fun hn => ?_) hdrain
    cases hneeds : n.engine.needsToCheckpoint with
    | false => exact Or.inl rfl
    | true => exact Or.inr (by simpa [hneeds] using hn)
  obtain ⟨n₂, hsend, h⟩ := bind_eq_ok.mp h
  rw [hasks.wwt, hsync, if_pos rfl] at hsend
  obtain ⟨time, msg, hmsg, rfl⟩ := sendSync_ok hsend
  split_ifs at h
  cases h
  have hmark : msg.mark = some (.sync n.wwt.currentQuantumRound) := by
    have hround₁ : n₁.wwt.currentQuantumRound = n.wwt.currentQuantumRound := by rw [hasks.wwt]
    have hlt : n₁.wwt.currentQuantumRound < 2 ^ 64 := by omega
    rw [mark_of_sync (createMessage_ok hmsg).2.2.2, syncRound_createMessage hlt hmsg]
    exact congrArg (fun r => some (Mark.sync r)) hround₁
  refine ⟨?_, fun h => hasks.stop (pdesCommSend_stop h)⟩
  have hparty := pdesCommSend_party { n₁ with engine.firstSyncTime := time } hmark
  exact hparty ▸ .arrive hnot hasks.asks

/-- `sync_checkpoint_check`: the party holds its round or is free to leave it. -/
theorem syncCheckpointCheck_asks {n n' : Node} {held : Bool} (hsync : n.wwt.shouldSync = true)
    (hround : n.wwt.currentQuantumRound < 2 ^ 32) (h : syncCheckpointCheck n = .ok (held, n')) :
    (held = false ∧ AsksFirst n n' ∧
      (n.engine.needsToCheckpoint = false ∨
        n.wwt.currentQuantumRound < n.engine.checkpointQuantumRound)) ∨
    (held = true ∧ ∃ n₁, AsksFirst n n₁ ∧ n.engine.needsToCheckpoint = true ∧
      n.engine.checkpointQuantumRound = n.wwt.currentQuantumRound ∧
      n'.checkpointParty = { n₁.checkpointParty with scheduled := true } ∧ n'.log = n₁.log) := by
  rcases syncCheckpointCheck_cases h with ⟨hfree, rfl, rfl⟩ | ⟨hneeds, n₁, hdrain, hend⟩
  · exact Or.inl ⟨rfl, ⟨.skip (Or.inl hfree), rfl, id⟩, Or.inl hfree⟩
  · have hasks : AsksFirst n n₁ := by
      refine drain_asks hround (fun _ => hneeds) (fun hn => Or.inr ?_) hdrain
      simpa using hn
    have htarget : n₁.engine.checkpointQuantumRound = n.engine.checkpointQuantumRound :=
      hasks.asks.request.2.1
    rw [hasks.wwt, htarget, hsync] at hend
    rcases hend with ⟨rfl, rfl, hbelow⟩ | ⟨rfl, rfl, hat⟩
    · exact Or.inl ⟨rfl, hasks, Or.inr hbelow⟩
    · have hat' : n.wwt.currentQuantumRound = n.engine.checkpointQuantumRound := by simpa using hat
      exact Or.inr ⟨rfl, n₁, hasks, hneeds, hat'.symm, rfl, rfl⟩

theorem beginQuantum_party (n : Node) : (beginQuantum n).checkpointParty =
    { n.checkpointParty with round := (n.wwt.currentQuantumRound + 1) % 2 ^ 64 } := by
  rw [beginQuantum]
  split_ifs <;> rfl

/-- `wwt_sync_check` when both nodes have said that the round is over. -/
theorem wwtSyncCheckFinish_turns {n n' : Node} (hsync : n.wwt.shouldSync = true)
    (hround : n.wwt.currentQuantumRound < 2 ^ 32)
    (hsaid : .sync n.wwt.currentQuantumRound ∈ n.checkpointParty.marks)
    (h : wwtSyncCheckFinish n = .ok n') : Turns n n' := by
  rw [wwtSyncCheckFinish, bind_eq_ok] at h
  obtain ⟨⟨held, n₁⟩, hcheck, h⟩ := h
  have hskip : Plain n { n with engine.skipBoundryCheckAfterCheckpoint := false } := .fields rfl rfl
  refine hskip.andTurns ?_
  rcases syncCheckpointCheck_asks (by exact hsync) (by exact hround) hcheck with
    ⟨rfl, hasks, hfree⟩ | ⟨rfl, n₂, hasks, hneeds, htarget, hparty, hlog⟩
  · obtain ⟨n₂, hmaster, h⟩ := bind_eq_ok.mp h
    cases h
    have hfreed : Plain n₁ { n₁ with wwt.syncCheckTimer := .null } := .fields rfl rfl
    have hplain := hfreed.trans (plain_frame.wwtSyncCheckMaster hmaster)
    have hround₂ : n₂.wwt.currentQuantumRound = n.wwt.currentQuantumRound := by
      have hsame : n₂.wwt.currentQuantumRound = n₁.wwt.currentQuantumRound :=
        congrArg Party.round hplain.party
      rw [hsame, hasks.wwt]
    have hmod : (n₂.wwt.currentQuantumRound + 1) % 2 ^ 64 = n.wwt.currentQuantumRound + 1 := by omega
    refine ⟨?_, fun hstop => hasks.stop (hplain.stop (by rwa [beginQuantum_log] at hstop))⟩
    rw [beginQuantum_party, hplain.party, hmod]
    exact .pass hsaid hfree hasks.asks
  · cases h
    refine ⟨?_, by rw [hlog]; exact hasks.stop⟩
    rw [hparty]
    exact .hold hsaid hneeds htarget hasks.asks

/-- The return of a poll that does not leave the wait loop for the exit. -/
theorem pollReturn_turns {n n' : Node} {site : PollSite} (hn : n.InRound)
    (hfinished : site = .waitLoop → n.engine.pairHasFinished = false) (hsite : n.site = some site)
    (h : pollReturn n site = .ok n') : Turns n n' := by
  have hleave : Plain n { n with site := none } := .fields rfl rfl
  cases site with
  | timer =>
      cases h
      exact hleave.turns
  | quantaSync =>
      have hnot : n.arrived = false := by simp [Node.arrived, hsite]
      rw [← Bool.not_eq_true, ← said_iff hn] at hnot
      exact hleave.andTurns (quantaSyncFinish_turns (by exact hn.sync) (by exact hn.round_lt)
        (by exact hnot) h)
  | isWaiting =>
      have hpolling := hn.polling (by simp [hsite]) (by simp [hsite])
      have hsaid : n.arrived = true := by simp [Node.arrived, hsite, hpolling]
      rw [← said_iff hn] at hsaid
      rw [pollReturn] at h
      split_ifs at h
      · cases h
        exact Plain.turns (.fields rfl rfl)
      · exact hleave.andTurns (wwtSyncCheckFinish_turns (by exact hn.sync) (by exact hn.round_lt)
          (by exact hsaid) h)
  | waitLoop =>
      rw [pollReturn, hfinished rfl] at h
      cases h
      exact Plain.turns (.fields rfl rfl)

/-- A callback other than the calls of the exit handshake, which decides to save only before its SYNC. -/
theorem act_turns {n n' : Node} {a : Action} (hn : n.InRound)
    (hfinished : a = .pollReturn → n.site = some .waitLoop → n.engine.pairHasFinished = false)
    (hcall : a ≠ .canStop ∧ a ≠ .notifyNeighboursOfEnd ∧ a ≠ .engineDestroy)
    (hnot : a = .finishInitiateCheckpoint → n.engine.master = true → 1 ≤ n.engine.initFlag →
      .sync n.wwt.currentQuantumRound ∉ n.checkpointParty.marks)
    (h : n.act a = .ok n') : Turns n n' := by
  cases a with
  | setup | advance | pollTimer | syncCheck | pauseBh =>
      cases (callback_ok.mp h).2
      exact Plain.turns (.fields rfl rfl)
  | wwtSend data => exact (wwtSend_plain (callback_ok.mp h).2).turns
  | deliver k =>
      obtain ⟨ctx, _, rfl⟩ := act_deliver h
      exact Plain.turns ⟨⟨[.recvCb n.universalTime (ctx.msg.bytes 0 ctx.msg.len)],
        .logs rfl rfl, by simp [Event.isPlain]⟩, rfl⟩
  | pollMessage => cases h
  | pollReturn =>
      obtain ⟨site, hsite, hn'⟩ := act_pollReturn h
      refine pollReturn_turns hn (fun hloop => hfinished rfl ?_) hsite hn'
      rw [hsite, hloop]
  | quantaSync =>
      have hfired : Plain n { n with wwt.quantumTimer := .stopped } := .fields rfl rfl
      exact (hfired.trans (quantaSync_plain (callback_ok.mp h).2)).turns
  | checkpointBh =>
      obtain ⟨bh, hbh, hn'⟩ := act_checkpointBh h
      have hfired : Plain n
          { n with engine.boundryCheckpointBh := some { bh with scheduled := false } } := by
        refine .fields ?_ rfl
        simp only [Node.checkpoint, hbh, Option.isSome_some]
      exact hfired.andTurns (createCheckpointBh_turns rfl hn')
  | commSend => cases h
  | finishInitiateCheckpoint =>
      exact finishInitiateCheckpoint_turns (hnot rfl) (callback_ok.mp h).2
  | canStop => exact absurd rfl hcall.1
  | notifyNeighboursOfEnd => exact absurd rfl hcall.2.1
  | engineDestroy => exact absurd rfl hcall.2.2

/-- A follower is asked to save. -/
theorem receiveDrainStart_party {n n' : Node} {msg : Message} (hfollower : n.engine.master = false)
    (h : receiveDrainStart n msg = .ok n') :
    ∃ last, n'.checkpointParty = n.checkpointParty.hear msg.drainRound last ∧ n'.log = n.log := by
  simp only [receiveDrainStart] at h
  split_ifs at h with hrole
  · cases h
    exact ⟨_, rfl, rfl⟩
  · rw [hfollower] at hrole
    exact absurd rfl hrole

/-- What the master does with a `DRAIN_START`. -/
theorem receiveDrainStart_plain {n n' : Node} {msg : Message} (hmaster : n.engine.master = true)
    (h : receiveDrainStart n msg = .ok n') : Plain n n' := by
  simp only [receiveDrainStart] at h
  split_ifs at h with hrole
  · rw [hmaster] at hrole
    cases hrole
  · cases h
    exact .fields rfl rfl

theorem receiveCheckpointInitStep_turns {n : Node}
    (hnot : n.engine.master = true → int32 (n.engine.initFlag + 1) = 1 → n.engine.masterInit = true →
      .sync n.wwt.currentQuantumRound ∉ n.checkpointParty.marks) :
    Turns n (receiveCheckpointInitStep n) := by
  simp only [receiveCheckpointInitStep]
  have hcount : Plain n { n with engine.initFlag := int32 (n.engine.initFlag + 1) } := .fields rfl rfl
  split_ifs with harm
  · exact hcount.andTurns (setCheckpointValuesForMaster_turns harm.1 (hnot harm.1 harm.2.1 harm.2.2))
  · exact hcount.turns

/-- The party hears what the message says, or takes a turn. -/
inductive Hears (n : Node) (msg : Message) (n' : Node) : Prop
  | asked (hfollower : n.engine.master = false) (htype : msg.type = drainStart) (last : Bool)
      (hparty : n'.checkpointParty = n.checkpointParty.hear msg.drainRound last)
      (hstop : Event.canStop ∈ n'.log → Event.canStop ∈ n.log)
  | turns (hnot : n.engine.master = true ∨ msg.type ≠ drainStart) (h : Turns n n')

theorem processMessage_hears {n n' : Node} {msg : Message}
    (hnot : msg.type = checkpointInitStep → n.engine.master = true →
      int32 (n.engine.initFlag + 1) = 1 → n.engine.masterInit = true →
      .sync n.wwt.currentQuantumRound ∉ n.checkpointParty.marks)
    (h : processMessage n msg = .ok n') : Hears n msg n' := by
  obtain ⟨n₁, hcallback, h⟩ := bind_eq_ok.mp h
  have hengine : n₁.engine = n.engine := (wwtReciviedCallback_frame hcallback).1
  have hlogged : Plain n (n.logReceive msg) :=
    ⟨⟨[.processMessage msg], emits_logReceive n msg, by simp [Event.isPlain]⟩, rfl⟩
  have hn₁ := hlogged.trans (wwtReciviedCallback_plain hcallback)
  rcases plain_frame.processControl h with ⟨htype, harm⟩ | ⟨htype, rfl⟩ | ⟨htype, hn'⟩
  · cases hrole : n.engine.master with
    | true =>
        refine .turns (Or.inl hrole) (hn₁.trans (receiveDrainStart_plain ?_ harm)).turns
        rw [hengine, hrole]
    | false =>
        obtain ⟨last, hparty, hlog⟩ := receiveDrainStart_party (by rw [hengine, hrole]) harm
        refine .asked hrole htype last (by rw [hparty, hn₁.party]) fun hstop => hn₁.stop ?_
        rwa [hlog] at hstop
  · refine .turns (Or.inr (by rw [htype]; decide)) (hn₁.andTurns ?_)
    refine receiveCheckpointInitStep_turns fun hmaster hflag hready => ?_
    rw [hengine] at hmaster hflag hready
    have hround : n₁.wwt.currentQuantumRound = n.wwt.currentQuantumRound :=
      congrArg Party.round hn₁.party
    rw [hn₁.party, hround]
    exact hnot htype hmaster hflag hready
  · exact .turns (Or.inr htype) (hn₁.trans hn').turns

end LeanPdes
