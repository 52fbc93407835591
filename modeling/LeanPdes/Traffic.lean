import LeanPdes.Rounds

/-! Runs that carry packets and SYNC messages alone: the guests send, the nodes poll and pass their
quanta, and nobody asks for a checkpoint or for the end of the emulation. A callback then sends at
most one message, and the messages of a node are counted by its guest's calls and its round. -/

namespace LeanPdes

open Words TwoParty Reach

def Action.isTraffic : Action → Bool
  | .checkpointBh | .finishInitiateCheckpoint | .canStop | .notifyNeighboursOfEnd
  | .engineDestroy => false
  | _ => true

/-- A step of packet traffic. A packet comes from a running guest. -/
def Traffic (s : System) : Side × Action → Prop
  | (i, .wwtSend _) => (s i).engine.paused = false
  | (_, a) => a.isTraffic = true

instance (s : System) (ia : Side × Action) : Decidable (Traffic s ia) :=
  match ia with
  | (i, .wwtSend _) => inferInstanceAs (Decidable ((s i).engine.paused = false))
  | (_, .checkpointBh) | (_, .finishInitiateCheckpoint) | (_, .canStop)
  | (_, .notifyNeighboursOfEnd) | (_, .engineDestroy) => .isFalse Bool.false_ne_true
  | (_, .setup) | (_, .advance _) | (_, .deliver _) | (_, .pollTimer) | (_, .pollMessage)
  | (_, .pollReturn) | (_, .quantaSync) | (_, .syncCheck) | (_, .pauseBh) | (_, .commSend) =>
      .isTrue rfl

theorem Traffic.isTraffic {s : System} {i : Side} {a : Action} (h : Traffic s (i, a)) :
    a.isTraffic = true := by
  cases a <;> first | rfl | exact h

/-- A message that carries a round or a packet. -/
def Message.IsData (msg : Message) : Prop := msg.type = msgTypeSync ∨ msg.type = msgTypeNormal

/-- No checkpoint is asked for, and the neighbour has not asked for an end. -/
structure Node.Calm (n : Node) : Prop where
  noCheckpoint : n.engine.needsToCheckpoint = false
  noIntent : n.engine.readyToExitNeighbors = 0
  noEnd : n.engine.pairHasFinished = false

theorem Node.Calm.of_eq {n m : Node} (hcalm : n.Calm)
    (hneeds : m.engine.needsToCheckpoint = n.engine.needsToCheckpoint)
    (hintent : m.engine.readyToExitNeighbors = n.engine.readyToExitNeighbors)
    (hend : m.engine.pairHasFinished = n.engine.pairHasFinished) : m.Calm :=
  ⟨hneeds.trans hcalm.noCheckpoint, hintent.trans hcalm.noIntent, hend.trans hcalm.noEnd⟩

/-- An event that neither sends a message nor is a call of the guest. -/
def Event.Silent : Event → Prop
  | .commSend _ => False
  | .wwtSend .. => False
  | _ => True

theorem sentIn_silent {evs : List Event} (h : ∀ e ∈ evs, e.Silent) : sentIn evs = [] := by
  rw [sentIn, List.filterMap_eq_nil_iff]
  intro e he
  have hsilent := h e he
  cases e <;> simp_all [Event.Silent]

/-- The outcomes of a callback of a calm node, by the messages it sends. -/
inductive TrafficMove (n : Node) : Action → Node → Prop
  | quiet {a : Action} {n' : Node} {evs : List Event} (he : Emits n n' evs)
      (hevs : ∀ e ∈ evs, e.Silent)
      (hround : n'.wwt.currentQuantumRound = n.wwt.currentQuantumRound) : TrafficMove n a n'
  | send {data : List UInt8} {msg : Message} (htype : msg.type = msgTypeNormal) :
      TrafficMove n (.wwtSend data) (pdesCommSend (n.logSend data) msg)
  /-- The SYNC of the round is sent. -/
  | announce {n' : Node} {msg : Message} (hsync : n.wwt.shouldSync = true)
      (htype : msg.type = msgTypeSync) (he : Emits n n' [.commSend msg])
      (hround : n'.wwt.currentQuantumRound = n.wwt.currentQuantumRound) :
      TrafficMove n .pollReturn n'
  /-- The next round begins. -/
  | pass {n' : Node} (he : Emits n n' []) : TrafficMove n .pollReturn n'

/-- `quanta_sync` on a calm node sends SYNC alone, and nothing with sync off. -/
theorem quantaSyncFinish_calm {n n' : Node} (hcalm : n.Calm) (h : quantaSyncFinish n = .ok n') :
    n'.Calm ∧ n'.wwt.shouldSync = n.wwt.shouldSync ∧
      n'.wwt.currentQuantumRound = n.wwt.currentQuantumRound ∧
      (Emits n n' [] ∨
        (n.wwt.shouldSync = true ∧
          ∃ msg, msg.type = msgTypeSync ∧ Emits n n' [.commSend msg])) := by
  rw [quantaSyncFinish, bind_eq_ok] at h
  obtain ⟨n₁, hdrain, h⟩ := h
  rw [if_neg (by simp [hcalm.noCheckpoint])] at hdrain
  cases hdrain
  obtain ⟨n₂, hsend, h⟩ := bind_eq_ok.mp h
  split_ifs at h
  cases h
  split_ifs at hsend with hsync
  · obtain ⟨time, msg, hmsg, rfl⟩ := sendSync_ok hsend
    have htype := (createMessage_ok hmsg).2.2.2
    exact ⟨hcalm.of_eq rfl rfl rfl, rfl, rfl, Or.inr ⟨hsync, msg, htype, rfl, rfl, rfl⟩⟩
  · cases hsend
    exact ⟨hcalm.of_eq rfl rfl rfl, rfl, rfl,
      Or.inl (.nothing rfl)⟩

theorem beginQuantum_calm {n : Node} (hcalm : n.Calm) :
    (beginQuantum n).Calm ∧ (beginQuantum n).wwt.shouldSync = n.wwt.shouldSync := by
  rw [beginQuantum]
  split_ifs <;> exact ⟨hcalm.of_eq rfl rfl rfl, rfl⟩

/-- `wwt_sync_check` on a calm node goes to the next round and sends nothing. -/
theorem wwtSyncCheckFinish_calm {n n' : Node} (hcalm : n.Calm)
    (h : wwtSyncCheckFinish n = .ok n') :
    n'.Calm ∧ n'.wwt.shouldSync = n.wwt.shouldSync ∧ Emits n n' [] := by
  rw [wwtSyncCheckFinish, bind_eq_ok] at h
  obtain ⟨⟨held, n₁⟩, hcheck, h⟩ := h
  rw [syncCheckpointCheck, if_neg (by simp [hcalm.noCheckpoint])] at hcheck
  cases hcheck
  obtain ⟨n₂, hmaster, h⟩ := bind_eq_ok.mp h
  cases h
  rw [wwtSyncCheckMaster] at hmaster
  have hnone : ¬(1 ≤ n.engine.readyToExitNeighbors) := by
    rw [hcalm.noIntent]
    decide
  split_ifs at hmaster with _ hgrant
  · exact absurd hgrant.1 hnone
  all_goals
    cases hmaster
    obtain ⟨hcalm', hsync⟩ := beginQuantum_calm
      (n := { n with engine.skipBoundryCheckAfterCheckpoint := false, wwt.syncCheckTimer := .null })
      (hcalm.of_eq rfl rfl rfl)
    exact ⟨hcalm', hsync, beginQuantum_emits (.nothing rfl)⟩

theorem pollReturn_traffic {n n' : Node} {site : PollSite} (hcalm : n.Calm)
    (h : pollReturn n site = .ok n') :
    TrafficMove n .pollReturn n' ∧ n'.Calm ∧ n'.wwt.shouldSync = n.wwt.shouldSync := by
  have hcalm' : ({ n with site := none } : Node).Calm :=
    hcalm.of_eq rfl rfl rfl
  have still (site' : Option PollSite) : TrafficMove n .pollReturn { n with site := site' } ∧
      ({ n with site := site' } : Node).Calm ∧ n.wwt.shouldSync = n.wwt.shouldSync :=
    ⟨.quiet (.nothing rfl) (by simp) rfl,
      hcalm.of_eq rfl rfl rfl, rfl⟩
  cases site with
  | timer =>
      cases h
      exact still none
  | quantaSync =>
      rw [pollReturn] at h
      obtain ⟨hn', hsync', hround, he | ⟨hsync, msg, htype, he⟩⟩ := quantaSyncFinish_calm hcalm' h
      · exact ⟨.quiet ⟨he.ring, he.log, he.sending⟩ (by simp) hround, hn', hsync'⟩
      · exact ⟨.announce hsync htype ⟨he.ring, he.log, he.sending⟩ hround, hn', hsync'⟩
  | isWaiting =>
      rw [pollReturn] at h
      split at h
      · cases h
        exact still (some .waitLoop)
      · obtain ⟨hn', hsync', he⟩ := wwtSyncCheckFinish_calm hcalm' h
        exact ⟨.pass ⟨he.ring, he.log, he.sending⟩, hn', hsync'⟩
  | waitLoop =>
      rw [pollReturn, if_neg (by simp [hcalm.noEnd])] at h
      cases h
      exact still (some .isWaiting)

theorem act_traffic {n n' : Node} {a : Action} (hcalm : n.Calm) (ha : a.isTraffic = true)
    (h : n.act a = .ok n') :
    TrafficMove n a n' ∧ n'.Calm ∧ n'.wwt.shouldSync = n.wwt.shouldSync := by
  have quiet (m : Node) (evs : List Event) (he : Emits n m evs) (hevs : ∀ e ∈ evs, e.Silent)
      (hround : m.wwt.currentQuantumRound = n.wwt.currentQuantumRound)
      (hsync : m.wwt.shouldSync = n.wwt.shouldSync) (hm : m.Calm) :
      TrafficMove n a m ∧ m.Calm ∧ m.wwt.shouldSync = n.wwt.shouldSync :=
    ⟨.quiet he hevs hround, hm, hsync⟩
  cases a with
  | setup =>
      cases (callback_ok.mp h).2
      exact quiet _ [] (.nothing rfl) (by simp) rfl rfl (hcalm.of_eq rfl rfl rfl)
  | advance =>
      cases (callback_ok.mp h).2
      exact quiet _ [] (.nothing rfl) (by simp) rfl rfl (hcalm.of_eq rfl rfl rfl)
  | wwtSend data =>
      obtain ⟨msg, hmsg, rfl⟩ := wwtSend_ok (callback_ok.mp h).2
      exact ⟨.send (createMessage_ok hmsg).2.2.2, hcalm.of_eq rfl rfl rfl, rfl⟩
  | deliver k =>
      obtain ⟨ctx, _, rfl⟩ := act_deliver h
      refine quiet _ _ (.logs rfl rfl) ?_ rfl rfl (hcalm.of_eq rfl rfl rfl)
      simp [Event.Silent]
  | pollTimer =>
      cases (callback_ok.mp h).2
      exact quiet _ [] (.nothing rfl) (by simp) rfl rfl (hcalm.of_eq rfl rfl rfl)
  | pollReturn =>
      obtain ⟨site, _, hn'⟩ := act_pollReturn h
      exact pollReturn_traffic hcalm hn'
  | quantaSync =>
      obtain ⟨_, hn'⟩ := callback_ok.mp h
      obtain ⟨paused, pauseBh, rfl⟩ := quantaSync_changes hn'
      exact quiet _ [] (.nothing rfl) (by simp) rfl rfl (hcalm.of_eq rfl rfl rfl)
  | syncCheck =>
      cases (callback_ok.mp h).2
      exact quiet _ [] (.nothing rfl) (by simp) rfl rfl (hcalm.of_eq rfl rfl rfl)
  | pauseBh =>
      cases (callback_ok.mp h).2
      exact quiet _ [] (.nothing rfl) (by simp) rfl rfl (hcalm.of_eq rfl rfl rfl)
  | pollMessage | commSend => cases h
  | checkpointBh | finishInitiateCheckpoint | canStop | notifyNeighboursOfEnd | engineDestroy =>
      cases ha

theorem processMessage_data {n n' : Node} {msg : Message} (hdata : msg.IsData)
    (h : processMessage n msg = .ok n') :
    Emits n n' [.processMessage msg] ∧ n'.engine = n.engine ∧
      n'.wwt.shouldSync = n.wwt.shouldSync ∧
      n'.wwt.currentQuantumRound = n.wwt.currentQuantumRound := by
  rw [processMessage, bind_eq_ok] at h
  obtain ⟨n₁, hcallback, h⟩ := h
  rw [processControl_of_data hdata h]
  obtain ⟨hengine, _, he⟩ := wwtReciviedCallback_frame hcallback
  refine ⟨(emits_logReceive n msg).trans he, hengine, ?_⟩
  rw [wwtReciviedCallback, bind_eq_ok] at hcallback
  obtain ⟨t, _, hcallback⟩ := hcallback
  split_ifs at hcallback <;> cases hcallback <;> exact ⟨rfl, rfl⟩

def Event.isWwtSend : Event → Bool
  | .wwtSend .. => true
  | _ => false

/-- Whether the event is a call of `wwt_send` in the given round. -/
def Event.isWwtSendIn (round : Nat) : Event → Bool
  | .wwtSend r _ _ => r = round
  | _ => false

/-- How many calls of `wwt_send` the guest has made. -/
def Node.calls (n : Node) : Nat := n.log.countP Event.isWwtSend

/-- How many of them it has made in the given round. -/
def Node.callsIn (n : Node) (round : Nat) : Nat := n.log.countP (Event.isWwtSendIn round)

/-- How many messages the node has sent in its quantum: its guest's packets, and the SYNC. -/
def Node.load (n : Node) : Nat :=
  n.callsIn n.wwt.currentQuantumRound + (n.wwt.shouldSync && n.arrived).toNat

theorem Emits.callsIn {n n' : Node} {evs : List Event} (he : Emits n n' evs) (round : Nat) :
    n'.callsIn round = n.callsIn round + evs.countP (Event.isWwtSendIn round) := by
  rw [Node.callsIn, he.log, List.countP_append]
  rfl

theorem Emits.calls {n n' : Node} {evs : List Event} (he : Emits n n' evs) :
    n'.calls = n.calls + evs.countP Event.isWwtSend := by
  rw [Node.calls, he.log, List.countP_append]
  rfl

theorem Emits.inFlight {n n' : Node} {evs : List Event} (he : Emits n n' evs) :
    n'.inFlight = n.inFlight ++ sentIn evs := by
  rw [Node.inFlight, he.ring, he.sending, ← List.append_assoc]
  rfl

/-- A node announces its round by sending its SYNC. -/
theorem Emits.arrived {n n' : Node} {evs : List Event} (he : Emits n n' evs) (hn : n.InRound)
    (hn' : n'.InRound) :
    n'.wwt.currentQuantumRound + n'.arrived.toNat =
      n.wwt.currentQuantumRound + n.arrived.toNat + (syncRounds (sentIn evs)).length := by
  have hsent' := congrArg List.length hn'.sent
  have hsent := congrArg List.length hn.sent
  rw [he.log, sentIn_append, syncRounds_append, List.length_append, hsent] at hsent'
  simpa [Party.sent, Node.party] using hsent'.symm

theorem Emits.load {n n' : Node} {evs : List Event} (he : Emits n n' evs)
    (hround : n'.wwt.currentQuantumRound = n.wwt.currentQuantumRound)
    (hmode : n'.wwt.shouldSync = n.wwt.shouldSync)
    (hin : n.wwt.shouldSync = true → n.InRound ∧ n'.InRound) :
    n'.load = n.load + evs.countP (Event.isWwtSendIn n.wwt.currentQuantumRound) +
      if n.wwt.shouldSync then (syncRounds (sentIn evs)).length else 0 := by
  rw [Node.load, Node.load, hround, hmode, he.callsIn]
  cases hsync : n.wwt.shouldSync with
  | false => simp
  | true =>
      obtain ⟨hn, hn'⟩ := hin hsync
      have harrived := he.arrived hn hn'
      simp only [Bool.true_and, if_true]
      omega

theorem countP_silent {evs : List Event} (h : ∀ e ∈ evs, e.Silent) (round : Nat) :
    evs.countP (Event.isWwtSendIn round) = 0 := by
  rw [List.countP_eq_zero]
  intro e he
  have hsilent := h e he
  cases e <;> simp_all [Event.Silent, Event.isWwtSendIn]

theorem emits_send (n : Node) (data : List UInt8) (msg : Message) :
    Emits n (pdesCommSend (n.logSend data) msg)
      [.wwtSend n.wwt.currentQuantumRound n.universalTime data, .commSend msg] :=
  ⟨rfl, List.append_assoc _ _ _, rfl⟩

/-- A callback that stays in the round adds as many messages to the load as it sends. -/
theorem TrafficMove.load {n n' : Node} {a : Action} (h : TrafficMove n a n')
    (hround : n'.wwt.currentQuantumRound = n.wwt.currentQuantumRound)
    (hmode : n'.wwt.shouldSync = n.wwt.shouldSync)
    (hin : n.wwt.shouldSync = true → n.InRound ∧ n'.InRound) :
    n'.inFlight.length + n.load = n.inFlight.length + n'.load := by
  cases h with
  | quiet he hevs =>
      rw [he.load hround hmode hin, he.inFlight, sentIn_silent hevs, countP_silent hevs]
      simp [syncRounds]
  | @send data msg htype =>
      have he := emits_send n data msg
      have hnone : syncRounds [msg] = [] :=
        syncRounds_cons_other (by rw [htype]; decide) []
      have hsent : sentIn [.wwtSend n.wwt.currentQuantumRound n.universalTime data,
        .commSend msg] = [msg] := rfl
      have hcall : List.countP (Event.isWwtSendIn n.wwt.currentQuantumRound)
          [.wwtSend n.wwt.currentQuantumRound n.universalTime data, .commSend msg] = 1 := by
        simp [Event.isWwtSendIn]
      rw [he.load hround hmode hin, he.inFlight, hsent, hnone, hcall, List.length_append,
        List.length_singleton, List.length_nil, ite_self]
      omega
  | @announce _ msg hsync htype he =>
      have hone : syncRounds [msg] = [msg.syncRound] := syncRounds_cons_sync htype []
      have hsent : sentIn [.commSend msg] = [msg] := rfl
      have hcall : List.countP (Event.isWwtSendIn n.wwt.currentQuantumRound) [.commSend msg] = 0 :=
        rfl
      rw [he.load hround hmode hin, he.inFlight, hsent, hone, hcall, if_pos hsync, List.length_append,
        List.length_singleton, List.length_singleton]
      omega
  | pass he =>
      rw [he.load hround hmode hin, he.inFlight]
      simp [sentIn, syncRounds]

/-- What a callback sends: at most one message, a packet or a SYNC. -/
theorem TrafficMove.sends {n n' : Node} {a : Action} (h : TrafficMove n a n') :
    ∃ evs, Emits n n' evs ∧ (sentIn evs).length ≤ 1 ∧ ∀ msg ∈ sentIn evs, msg.IsData := by
  cases h with
  | @quiet _ _ evs he hevs =>
      refine ⟨evs, he, ?_, ?_⟩
      · rw [sentIn_silent hevs]
        exact Nat.zero_le 1
      · rw [sentIn_silent hevs]
        simp
  | @send data msg htype =>
      refine ⟨_, emits_send n data msg, le_rfl, fun m hm => ?_⟩
      rw [List.mem_singleton.mp hm]
      exact Or.inr htype
  | @announce _ msg _ htype he =>
      refine ⟨_, he, le_rfl, fun m hm => ?_⟩
      rw [List.mem_singleton.mp hm]
      exact Or.inl htype
  | pass he => exact ⟨[], he, Nat.zero_le 1, by simp [sentIn]⟩

/-! ### The system -/

/-- A node that carries packet traffic alone. -/
structure Node.InTraffic (n : Node) : Prop where
  calm : n.Calm
  data : ∀ msg ∈ n.inFlight, msg.IsData
  single : n.sending.length ≤ 1

/-- The outcomes of a step of packet traffic. -/
inductive TrafficNext (s : System) : Side × Action → System → Prop
  | enter {i : Side} {msg : Message} {rest : List Message} {s' : System}
      (hsending : (s i).sending = msg :: rest)
      (hself : s' i = { s i with sending := rest, ring := (s i).ring ++ [msg] })
      (hpeer : s' i.peer = s i.peer) : TrafficNext s (i, .commSend) s'
  | receive {i : Side} {msg : Message} {rest : List Message} {s' : System}
      (hidle : (s i).Idle) (hring : (s i.peer).ring = msg :: rest)
      (he : Emits (s i) (s' i) [.processMessage msg])
      (hround : (s' i).wwt.currentQuantumRound = (s i).wwt.currentQuantumRound)
      (hpeer : s' i.peer = { s i.peer with ring := rest }) : TrafficNext s (i, .pollMessage) s'
  | move {i : Side} {a : Action} {s' : System} (hidle : (s i).Idle)
      (hring : a = .pollReturn → (s i.peer).ring = []) (h : TrafficMove (s i) a (s' i))
      (hpeer : s' i.peer = s i.peer) : TrafficNext s (i, a) s'

theorem step_traffic {capacity : Option Nat} {s s' : System} {ia : Side × Action}
    (hs : ∀ i, (s i).InTraffic) (htraffic : Traffic s ia) (h : step capacity s ia = .ok s') :
    TrafficNext s ia s' ∧ (∀ i, (s' i).Calm) ∧
      ∀ i, (s' i).wwt.shouldSync = (s i).wwt.shouldSync := by
  have ha := htraffic.isTraffic
  cases stepsTo_of_step h with
  | @commSend i msg rest hsending =>
      refine ⟨.enter hsending (Function.update_self ..) (Function.update_of_ne (Side.peer_ne i) ..),
        Side.forall_of_self_peer i ?_ ?_, Side.forall_of_self_peer i ?_ ?_⟩
      · rw [Function.update_self]
        exact (hs i).calm.of_eq rfl rfl rfl
      · rw [Function.update_of_ne (Side.peer_ne i)]
        exact (hs i.peer).calm
      · rw [Function.update_self]
      · rw [Function.update_of_ne (Side.peer_ne i)]
  | @receive i msg rest n' hidle hring hn' =>
      have hmem : msg ∈ (s i.peer).inFlight := by simp [Node.inFlight, hring]
      obtain ⟨he, hengine, hmode, hround⟩ := processMessage_data ((hs i.peer).data msg hmem) hn'
      refine ⟨.receive hidle hring ?_ ?_ ?_, Side.forall_of_self_peer i ?_ ?_,
        Side.forall_of_self_peer i ?_ ?_⟩
      · rwa [Function.update_self]
      · rwa [Function.update_self]
      · rw [Function.update_of_ne (Side.peer_ne i), Function.update_self]
      · rw [Function.update_self]
        exact (hs i).calm.of_eq (by rw [hengine]) (by rw [hengine]) (by rw [hengine])
      · rw [Function.update_of_ne (Side.peer_ne i), Function.update_self]
        exact (hs i.peer).calm.of_eq rfl rfl rfl
      · rwa [Function.update_self]
      · rw [Function.update_of_ne (Side.peer_ne i), Function.update_self]
  | @callback i a n' hidle hempty hn' =>
      obtain ⟨hmove, hcalm, hmode⟩ := act_traffic (hs i).calm ha hn'
      refine ⟨.move hidle hempty ?_ ?_, Side.forall_of_self_peer i ?_ ?_,
        Side.forall_of_self_peer i ?_ ?_⟩
      · rwa [Function.update_self]
      · rw [Function.update_of_ne (Side.peer_ne i)]
      · rwa [Function.update_self]
      · rw [Function.update_of_ne (Side.peer_ne i)]
        exact (hs i.peer).calm
      · rwa [Function.update_self]
      · rw [Function.update_of_ne (Side.peer_ne i)]

theorem TrafficNext.inTraffic {s s' : System} {ia : Side × Action} (h : TrafficNext s ia s')
    (hs : ∀ i, (s i).InTraffic) (hcalm : ∀ i, (s' i).Calm) : ∀ i, (s' i).InTraffic := by
  have same {j : Side} (hinFlight : (s' j).inFlight = (s j).inFlight)
      (hsending : (s' j).sending.length ≤ (s j).sending.length) : (s' j).InTraffic :=
    ⟨hcalm j, by rw [hinFlight]; exact (hs j).data, hsending.trans (hs j).single⟩
  cases h with
  | @enter i msg rest _ hsending hself hpeer =>
      refine Side.forall_of_self_peer i (same ?_ ?_) (same ?_ ?_)
      · simp [hself, Node.inFlight, hsending]
      · simp [hself, hsending]
      · rw [hpeer]
      · rw [hpeer]
  | @receive i msg rest _ _ hring he _ hpeer =>
      refine Side.forall_of_self_peer i (same ?_ ?_) ⟨hcalm i.peer, fun m hm => ?_, ?_⟩
      · rw [he.inFlight]
        exact List.append_nil _
      · rw [he.sending]
        simp [sentIn]
      · apply (hs i.peer).data
        rw [hpeer, Node.inFlight] at hm
        rw [Node.inFlight, hring]
        exact List.mem_cons_of_mem msg hm
      · rw [hpeer]
        exact (hs i.peer).single
  | @move i a _ hidle _ h hpeer =>
      obtain ⟨evs, he, hone, hdata⟩ := h.sends
      refine Side.forall_of_self_peer i ⟨hcalm i, fun m hm => ?_, ?_⟩ (same ?_ ?_)
      · rw [he.inFlight] at hm
        rcases List.mem_append.mp hm with hm | hm
        · exact (hs i).data m hm
        · exact hdata m hm
      · rwa [he.sending, hidle.2, List.nil_append]
      · rw [hpeer]
      · rw [hpeer]

theorem inTraffic_created (cfg : Config) (i : Side) : (cfg.created i).InTraffic :=
  ⟨⟨rfl, rfl, rfl⟩, by simp [Config.created, pdesEngineWwtCreate, Node.inFlight], Nat.zero_le 1⟩

end LeanPdes
