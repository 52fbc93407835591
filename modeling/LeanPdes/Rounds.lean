import LeanPdes.Moves

/-! The barrier of two nodes with sync on. No message is lost between the two logs, the SYNC messages
that a node has sent are numbered by its rounds, and its table counts the ones it has processed: the
rounds of the two nodes are a run of the two-party barrier. -/

namespace LeanPdes

open Words TwoParty Reach

theorem processedIn_control {evs : List Event} (h : ∀ e ∈ evs, e.IsControl) :
    processedIn evs = [] := by
  rw [processedIn, List.filterMap_eq_nil_iff]
  intro e he
  have hcontrol := h e he
  cases e <;> simp_all [Event.IsControl]

theorem sentIn_control {evs : List Event} (h : ∀ e ∈ evs, e.IsControl) :
    ∀ msg ∈ sentIn evs, msg.IsControl := by
  intro msg hmem
  obtain ⟨e, he, hmsg⟩ := List.mem_filterMap.mp hmem
  have hcontrol := h e he
  cases e <;> simp_all [Event.IsControl]

/-- A callback processes no message. -/
theorem Move.emits {n n' : Node} {a : Action} (h : Move n a n') :
    ∃ evs, Emits n n' evs ∧ processedIn evs = [] := by
  cases h with
  | control h | leave _ h | hold _ h =>
      obtain ⟨evs, he, hall⟩ := h.emits
      exact ⟨evs, ⟨he.ring, he.log, he.sending⟩, processedIn_control hall⟩
  | setup | advance | pollTimer | pollDone | quantaSync | syncCheck | wait | again =>
      exact ⟨[], .nothing rfl, rfl⟩
  | @wwtSend data msg =>
      refine ⟨[.wwtSend n.wwt.currentQuantumRound n.universalTime data, .commSend msg],
        ⟨rfl, ?_, rfl⟩, rfl⟩
      exact List.append_assoc _ _ _
  | @deliver k ctx =>
      exact ⟨[.recvCb n.universalTime (ctx.msg.bytes 0 ctx.msg.len)],
        .logs rfl rfl, rfl⟩
  | @arrive _ n₁ h msg =>
      obtain ⟨evs, he, hall⟩ := h.emits
      have hsend := he.trans (emits_pdesCommSend n₁ msg)
      have harrive : Emits n (pdesCommSend n₁ msg).recheck (evs ++ [.commSend msg]) :=
        ⟨hsend.ring, hsend.log, hsend.sending⟩
      refine ⟨_, harrive, ?_⟩
      rw [processedIn_append, processedIn_control hall]
      rfl
  | @pass _ _ n₁ h =>
      obtain ⟨evs, he, hall⟩ := h.emits
      have hleft : Emits n n₁ evs := ⟨he.ring, he.log, he.sending⟩
      exact ⟨evs, beginQuantum_emits hleft, processedIn_control hall⟩

theorem Receive.emits {n n' : Node} {msg : Message} (h : Receive n msg n') :
    ∃ evs, Emits n n' (.processMessage msg :: evs) ∧ ∀ e ∈ evs, e.IsControl := by
  cases h with
  | sync => exact ⟨[], .logs rfl rfl, by simp⟩
  | packet => exact ⟨[], .logs rfl rfl, by simp⟩
  | control _ h =>
      obtain ⟨evs, he, hall⟩ := h.emits
      refine ⟨evs, ⟨he.ring, ?_, he.sending⟩, hall⟩
      rw [he.log, Node.logReceive, List.append_assoc]
      rfl

/-- Every message that `n` has sent was processed by `m` or is on its way, in order. -/
def Channel (n m : Node) : Prop := processedIn m.log ++ n.inFlight = sentIn n.log

theorem Channel.send {n n' m : Node} {evs : List Event} (h : Channel n m) (he : Emits n n' evs) :
    Channel n' m := by
  rw [Channel, Node.inFlight] at h ⊢
  rw [he.ring, he.sending, he.log, sentIn_append, ← h]
  simp only [List.append_assoc]

theorem Channel.idle {n m m' : Node} {evs : List Event} (h : Channel n m) (he : Emits m m' evs)
    (hevs : processedIn evs = []) : Channel n m' := by
  rw [Channel] at h ⊢
  rw [he.log, processedIn_append, hevs, List.append_nil, h]

theorem Channel.receive {n m m' : Node} {msg : Message} {rest : List Message} {evs : List Event}
    (h : Channel n m) (hring : n.ring = msg :: rest) (he : Emits m m' (.processMessage msg :: evs))
    (hevs : processedIn evs = []) : Channel { n with ring := rest } m' := by
  rw [Channel, Node.inFlight, hring] at h
  have hprocessed : processedIn (.processMessage msg :: evs) = [msg] := congrArg (msg :: ·) hevs
  rw [Channel, Node.inFlight, he.log, processedIn_append, hprocessed, ← h]
  simp only [List.append_assoc, List.cons_append, List.nil_append]

/-- No message is lost, in either direction. -/
def Conserved (s : System) : Prop := ∀ i, Channel (s i) (s i.peer)

theorem conserved_created (cfg : Config) : Conserved cfg.created := fun _ => rfl

theorem Next.conserved {s s' : System} {ia : Side × Action} (h : Next s ia s')
    (hs : Conserved s) : Conserved s' := by
  intro j
  cases h with
  | @commSend i msg rest hsending =>
      rcases Side.eq_or_eq_peer i j with rfl | rfl
      · have hj := hs j
        rw [Channel, Node.inFlight, hsending] at hj
        simpa [Channel, Node.inFlight] using hj
      · simpa [Channel] using hs i.peer
  | @receive i msg rest n' _ hring h =>
      obtain ⟨evs, he, hevs⟩ := h.emits
      rcases Side.eq_or_eq_peer i j with rfl | rfl
      · simpa [Channel] using (hs j).send he
      · have hj := hs i.peer
        rw [Side.peer_peer] at hj
        simpa using hj.receive hring he (processedIn_control hevs)
  | @move i a n' _ _ h =>
      obtain ⟨evs, he, hevs⟩ := h.emits
      rcases Side.eq_or_eq_peer i j with rfl | rfl
      · simpa using (hs j).send he
      · have hj := hs i.peer
        rw [Side.peer_peer] at hj
        simpa using hj.idle he hevs

/-- The rounds of the SYNC messages. -/
def syncRounds (msgs : List Message) : List Nat :=
  (msgs.filter (·.type = msgTypeSync)).map Message.syncRound

@[simp] theorem syncRounds_append (l l' : List Message) :
    syncRounds (l ++ l') = syncRounds l ++ syncRounds l' := by
  rw [syncRounds, List.filter_append, List.map_append]
  rfl

theorem syncRounds_cons_sync {msg : Message} (h : msg.type = msgTypeSync) (l : List Message) :
    syncRounds (msg :: l) = msg.syncRound :: syncRounds l := by
  rw [syncRounds, List.filter_cons_of_pos (by simpa using h), List.map_cons]
  rfl

theorem syncRounds_cons_other {msg : Message} (h : msg.type ≠ msgTypeSync) (l : List Message) :
    syncRounds (msg :: l) = syncRounds l := by
  rw [syncRounds, List.filter_cons_of_neg (by simpa using h)]
  rfl

theorem syncRounds_eq_nil {msgs : List Message} (h : ∀ msg ∈ msgs, msg.type ≠ msgTypeSync) :
    syncRounds msgs = [] := by
  rw [syncRounds, List.filter_eq_nil_iff.mpr (by simpa using h), List.map_nil]

/-- How many SYNC messages the node has processed. -/
def Node.seen (n : Node) : Nat := (syncRounds (processedIn n.log)).length

/-- The node has sent the SYNC of its round: `finished_quantum` is set, and `quanta_sync` is over. -/
def Node.arrived (n : Node) : Bool := n.wwt.finishedQuantum && n.site ≠ some .quantaSync

def Node.party (n : Node) : Party := ⟨n.wwt.currentQuantumRound, n.arrived, n.seen⟩

/-- A node's own part of the barrier. -/
structure Node.InRound (n : Node) : Prop where
  sync : n.wwt.shouldSync = true
  round_lt : n.wwt.currentQuantumRound < 2 ^ 32
  /-- SYNC messages are sent once for each round, in order. -/
  sent : syncRounds (sentIn n.log) = List.range n.party.sent
  /-- The table counts one SYNC for every round below the number of SYNCs processed. -/
  counted : ∀ k < 2 ^ 32, syncCountGet n.wwt.syncCounts k = if k < n.seen then 1 else 0
  running : n.wwt.quantumTimer ≠ .stopped → n.wwt.finishedQuantum = false
  polling : n.site ≠ none → n.site ≠ some .timer → n.wwt.finishedQuantum = true
  checking : n.wwt.syncCheckTimer.isArmed = true → n.wwt.finishedQuantum = true

/-- What a callback does to a party of the barrier. -/
inductive PartyStep (p : Party) : Party → Prop
  | stay : PartyStep p p
  | arrive (h : p.arrived = false) : PartyStep p { p with arrived := true }
  | pass (harrived : p.arrived = true) (hseen : p.round < p.seen) :
      PartyStep p { p with round := p.round + 1, arrived := false }

theorem seen_of_emits {n n' : Node} {evs : List Event} (he : Emits n n' evs) :
    n'.seen = n.seen + (syncRounds (processedIn evs)).length := by
  rw [Node.seen, he.log, processedIn_append, syncRounds_append, List.length_append]
  rfl

/-- A step that sends no SYNC, processes none and keeps the round leaves the barrier alone. -/
theorem Node.InRound.stay {n n' : Node} {evs : List Event} (h : n.InRound) (he : Emits n n' evs)
    (hprocessed : syncRounds (processedIn evs) = []) (hsent : syncRounds (sentIn evs) = [])
    (hwwt : n'.wwt = { n.wwt with
      numberOfNeighborsFinished := n'.wwt.numberOfNeighborsFinished
      quantumTimer := n'.wwt.quantumTimer
      syncCheckTimer := n'.wwt.syncCheckTimer })
    (harrived : n'.arrived = n.arrived)
    (hrunning : n'.wwt.quantumTimer ≠ .stopped → n.wwt.finishedQuantum = false)
    (hpolling : n'.site ≠ none → n'.site ≠ some .timer → n.wwt.finishedQuantum = true)
    (hchecking : n'.wwt.syncCheckTimer.isArmed = true → n.wwt.finishedQuantum = true) :
    n'.InRound ∧ n'.party = n.party := by
  have hround : n'.wwt.currentQuantumRound = n.wwt.currentQuantumRound := by rw [hwwt]
  have hfinished : n'.wwt.finishedQuantum = n.wwt.finishedQuantum := by rw [hwwt]
  have hseen : n'.seen = n.seen := by rw [seen_of_emits he, hprocessed]; rfl
  have hparty : n'.party = n.party := by rw [Node.party, Node.party, hround, harrived, hseen]
  refine ⟨⟨?_, ?_, ?_, ?_, ?_, ?_, ?_⟩, hparty⟩
  · rw [hwwt]
    exact h.sync
  · rw [hround]
    exact h.round_lt
  · rw [hparty, he.log, sentIn_append, syncRounds_append, hsent, List.append_nil]
    exact h.sent
  · rw [hwwt, hseen]
    exact h.counted
  · rwa [hfinished]
  · rwa [hfinished]
  · rwa [hfinished]

theorem Control.inRound {n n' : Node} (h : Control n n') (hn : n.InRound) :
    n'.InRound ∧ n'.party = n.party := by
  obtain ⟨evs, he, hall⟩ := h.emits
  have hquantum : n'.wwt.quantumTimer = n.wwt.quantumTimer := by rw [h.wwt]
  have hneighbors : n'.wwt.numberOfNeighborsFinished = n.wwt.numberOfNeighborsFinished := by
    rw [h.wwt]
  have hfinished : n'.wwt.finishedQuantum = n.wwt.finishedQuantum := by rw [h.wwt]
  refine hn.stay he ?_ ?_ ?_ ?_ ?_ ?_ ?_
  · rw [processedIn_control hall]
    rfl
  · exact syncRounds_eq_nil fun msg hmem => (sentIn_control hall msg hmem).1
  · rw [hquantum, hneighbors]
    exact h.wwt
  · rw [Node.arrived, Node.arrived, hfinished, h.site]
  · rw [hquantum]
    exact hn.running
  · rw [h.site]
    exact hn.polling
  · intro harmed
    rcases h.check with hcheck | hcheck
    · exact hn.checking (hcheck ▸ harmed)
    · rw [hcheck] at harmed
      cases harmed

/-- Leaving a poll of `wwt_sync_check` does not touch the barrier. -/
theorem Node.InRound.leavePoll {n : Node} (hn : n.InRound)
    (hsite : n.site = some .isWaiting ∨ n.site = some .waitLoop) :
    ({ n with site := none } : Node).InRound ∧ ({ n with site := none } : Node).party = n.party := by
  have he : Emits n { n with site := none } [] := .nothing rfl
  refine hn.stay he rfl rfl rfl ?_ hn.running (by simp) hn.checking
  rcases hsite with hsite | hsite <;> simp [Node.arrived, hsite]

theorem syncRound_syncMessage {n : Node} {msg : Message} (hn : n.InRound)
    (h : n.syncMessage = .ok msg) :
    msg.type = msgTypeSync ∧ msg.syncRound = n.wwt.currentQuantumRound := by
  have hlt := hn.round_lt
  exact ⟨(createMessage_ok h).2.2.2, syncRound_createMessage (by omega) h⟩

theorem waiting_iff {n : Node} (hn : n.InRound) :
    n.waiting = true ↔ n.seen ≤ n.wwt.currentQuantumRound := by
  have hcount := hn.counted _ hn.round_lt
  rw [Node.waiting, hcount, hn.sync, Bool.and_true, decide_eq_true_iff]
  split_ifs with hseen <;> omega

/-- The next round begins. -/
theorem beginQuantum_inRound {n : Node} (hn : n.InRound) (harrived : n.arrived = true)
    (hseen : n.wwt.currentQuantumRound < n.seen)
    (hlt : (beginQuantum n).wwt.currentQuantumRound < 2 ^ 32) (hsite : n.site = none)
    (hcheck : n.wwt.syncCheckTimer = .null) :
    (beginQuantum n).InRound ∧ PartyStep n.party (beginQuantum n).party := by
  rw [beginQuantum_of_sync hn.sync hn.round_lt] at hlt ⊢
  refine ⟨⟨hn.sync, hlt, ?_, hn.counted, fun _ => rfl, ?_, ?_⟩, .pass harrived hseen⟩
  · have hsent := hn.sent
    rw [Party.sent, Node.party, harrived] at hsent
    exact hsent
  · intro hne
    exact absurd hsite hne
  · intro harmed
    rw [hcheck] at harmed
    cases harmed

/-- The SYNC of the round is sent. -/
theorem arrive_inRound {n n₁ : Node} {msg : Message} (hn : n.InRound)
    (hsite : n.site = some .quantaSync) (h : Control { n with site := none } n₁)
    (hmsg : n.syncMessage = .ok msg) :
    (pdesCommSend n₁ msg).recheck.InRound ∧
      PartyStep n.party (pdesCommSend n₁ msg).recheck.party := by
  obtain ⟨evs, he, hall⟩ := h.emits
  obtain ⟨htype, hround⟩ := syncRound_syncMessage hn hmsg
  have hfinished : n.wwt.finishedQuantum = true := hn.polling (by simp [hsite]) (by simp [hsite])
  have hnot : n.party.arrived = false := by simp [Node.party, Node.arrived, hsite]
  have hround₁ : n₁.wwt.currentQuantumRound = n.wwt.currentQuantumRound := by rw [h.wwt]
  have hfinished₁ : n₁.wwt.finishedQuantum = true := by rw [h.wwt]; exact hfinished
  have hlog : (pdesCommSend n₁ msg).recheck.log = n.log ++ (evs ++ [.commSend msg]) := by
    rw [← List.append_assoc, ← he.log]
    rfl
  have hseen : (pdesCommSend n₁ msg).recheck.seen = n.seen := by
    rw [Node.seen, hlog, processedIn_append, processedIn_append, processedIn_control hall,
      syncRounds_append]
    simp [Node.seen, processedIn, syncRounds]
  have harrived : (pdesCommSend n₁ msg).recheck.arrived = true := by
    simp [Node.arrived, Node.recheck, pdesCommSend, hfinished₁, h.site]
  have hparty : (pdesCommSend n₁ msg).recheck.party = { n.party with arrived := true } := by
    rw [Node.party, hseen, harrived]
    exact congrArg (Party.mk · true n.seen) hround₁
  refine ⟨⟨?_, ?_, ?_, ?_, ?_, fun _ _ => hfinished₁, fun _ => hfinished₁⟩, ?_⟩
  · have hsync : n₁.wwt.shouldSync = n.wwt.shouldSync := by rw [h.wwt]
    exact hsync.trans hn.sync
  · exact hround₁ ▸ hn.round_lt
  · have hcontrol : syncRounds (sentIn evs) = [] :=
      syncRounds_eq_nil fun msg hmem => (sentIn_control hall msg hmem).1
    have hsent := hn.sent
    rw [Party.sent, hnot] at hsent
    rw [hlog, sentIn_append, sentIn_append, syncRounds_append, syncRounds_append, hcontrol, hsent,
      hparty]
    have hlast : syncRounds (sentIn [.commSend msg]) = [n.wwt.currentQuantumRound] := by
      rw [← hround]
      exact syncRounds_cons_sync htype []
    rw [hlast]
    exact List.range_succ.symm
  · have hcounts : n₁.wwt.syncCounts = n.wwt.syncCounts := by rw [h.wwt]
    rw [hseen]
    exact hcounts ▸ hn.counted
  · have hquantum : n₁.wwt.quantumTimer = n.wwt.quantumTimer := by rw [h.wwt]
    intro hne
    have hrunning := hn.running (hquantum ▸ hne)
    rw [hfinished] at hrunning
    cases hrunning
  · rw [hparty]
    exact .arrive hnot

theorem Move.inRound {n n' : Node} {a : Action} (h : Move n a n') (hn : n.InRound)
    (hlt : n'.wwt.currentQuantumRound < 2 ^ 32) : n'.InRound ∧ PartyStep n.party n'.party := by
  have stays : n'.InRound ∧ n'.party = n.party → n'.InRound ∧ PartyStep n.party n'.party := by
    rintro ⟨hn', hparty⟩
    exact ⟨hn', hparty ▸ .stay⟩
  cases h with
  | control h => exact stays (h.inRound hn)
  | setup hnull =>
      have hrunning := hn.running (by simp [hnull])
      exact stays (hn.stay (.nothing rfl) rfl rfl rfl rfl (fun _ => hrunning) hn.polling
        hn.checking)
  | advance =>
      exact stays (hn.stay (.nothing rfl) rfl rfl rfl rfl hn.running hn.polling hn.checking)
  | wwtSend hmsg =>
      have hnormal : _ = msgTypeNormal := (createMessage_ok hmsg).2.2.2
      refine stays (hn.stay ⟨rfl, List.append_assoc _ _ _, rfl⟩ rfl ?_ rfl rfl hn.running hn.polling
        hn.checking)
      refine syncRounds_eq_nil fun msg hmem => ?_
      rw [List.mem_singleton.mp hmem, hnormal]
      decide
  | deliver =>
      exact stays (hn.stay (.logs rfl rfl) rfl rfl rfl rfl hn.running hn.polling
        hn.checking)
  | pollTimer hsite =>
      refine stays (hn.stay (.nothing rfl) rfl rfl rfl ?_ hn.running (by simp) hn.checking)
      simp [Node.arrived, hsite]
  | pollDone hsite =>
      refine stays (hn.stay (.nothing rfl) rfl rfl rfl ?_ hn.running (by simp) hn.checking)
      simp [Node.arrived, hsite]
  | quantaSync hsite harmed =>
      have hrunning : n.wwt.finishedQuantum = false := by
        apply hn.running
        intro hstopped
        rw [hstopped] at harmed
        cases harmed
      have hparty : n.enterQuantaSync.party = n.party := by
        simp [Node.party, Node.arrived, Node.seen, Node.enterQuantaSync, hrunning]
      refine stays ⟨⟨hn.sync, hn.round_lt, ?_, hn.counted, ?_, fun _ _ => rfl, fun _ => rfl⟩, hparty⟩
      · rw [hparty]
        exact hn.sent
      · intro hne
        exact absurd rfl hne
  | arrive hsite h hmsg => exact arrive_inRound hn hsite h hmsg
  | syncCheck hsite harmed =>
      have hfinished := hn.checking harmed
      refine stays (hn.stay (.nothing rfl) rfl rfl rfl ?_ hn.running (fun _ _ => hfinished) ?_)
      · simp [Node.arrived, hsite]
      · intro h
        cases h
  | wait hsite =>
      refine stays (hn.stay (.nothing rfl) rfl rfl rfl ?_ hn.running ?_ hn.checking)
      · simp [Node.arrived, hsite]
      · exact fun _ _ => hn.polling (by simp [hsite]) (by simp [hsite])
  | again hsite =>
      refine stays (hn.stay (.nothing rfl) rfl rfl rfl ?_ hn.running ?_ hn.checking)
      · simp [Node.arrived, hsite]
      · exact fun _ _ => hn.polling (by simp [hsite]) (by simp [hsite])
  | leave hsite h =>
      obtain ⟨hleft, hparty⟩ := hn.leavePoll (Or.inr hsite)
      obtain ⟨hn', hparty'⟩ := h.inRound hleft
      exact stays ⟨hn', hparty'.trans hparty⟩
  | @hold hsite n₁ h =>
      obtain ⟨hleft, hparty⟩ := hn.leavePoll (Or.inl hsite)
      obtain ⟨hn₁, hparty₁⟩ := h.inRound hleft
      have hfinished : n₁.wwt.finishedQuantum = true := by
        rw [h.wwt]
        exact hn.polling (by simp [hsite]) (by simp [hsite])
      have he : Emits n₁ n₁.recheck [] := .nothing rfl
      obtain ⟨hn', hparty'⟩ := hn₁.stay he rfl rfl rfl rfl hn₁.running hn₁.polling
        (fun _ => hfinished)
      exact stays ⟨hn', (hparty'.trans hparty₁).trans hparty⟩
  | @pass hsite hwaiting n₁ h hcheck =>
      obtain ⟨hleft, hparty⟩ := hn.leavePoll (Or.inl hsite)
      obtain ⟨hn₁, hparty₁⟩ := h.inRound hleft
      have hfinished : n.wwt.finishedQuantum = true := hn.polling (by simp [hsite]) (by simp [hsite])
      have harrived : n.party.arrived = true := by simp [Node.party, Node.arrived, hfinished, hsite]
      have hseen : n.party.round < n.party.seen := by
        by_contra hle
        rw [(waiting_iff hn).mpr (not_lt.mp hle)] at hwaiting
        cases hwaiting
      rw [← hparty, ← hparty₁] at harrived hseen ⊢
      exact beginQuantum_inRound hn₁ harrived hseen hlt h.site hcheck

theorem Receive.inRound {n n' : Node} {msg : Message} (h : Receive n msg n') (hn : n.InRound)
    (hround : msg.type = msgTypeSync → msg.syncRound = n.seen ∧ n.seen < 2 ^ 32) :
    n'.InRound ∧ n'.party = { n.party with seen := n.seen + (syncRounds [msg]).length } := by
  cases h with
  | sync htype =>
      obtain ⟨hround, hlt⟩ := hround htype
      have he : Emits n (n.countSync msg) [.processMessage msg] := .logs rfl rfl
      have hone : (syncRounds [msg]).length = 1 := by rw [syncRounds_cons_sync htype]; rfl
      have hseen : (n.countSync msg).seen = n.seen + 1 := by
        rw [seen_of_emits he, ← hone]
        rfl
      have hparty : (n.countSync msg).party = { n.party with seen := n.seen + 1 } := by
        rw [Node.party, hseen]
        rfl
      rw [hone]
      refine ⟨⟨hn.sync, hn.round_lt, ?_, ?_, hn.running, hn.polling, hn.checking⟩, hparty⟩
      · have hsent : sentIn (n.countSync msg).log = sentIn n.log := by
          rw [he.log, sentIn_append]
          exact List.append_nil _
        rw [hsent, hparty]
        exact hn.sent
      · rw [hseen, Node.countSync, hround]
        exact syncCountGet_increment hlt hn.counted
  | packet htype =>
      have hnot : syncRounds [msg] = [] := by
        refine syncRounds_cons_other ?_ []
        rw [htype]
        decide
      rw [hnot]
      exact hn.stay (.logs rfl rfl) hnot rfl rfl rfl hn.running hn.polling
        hn.checking
  | control hmsg h =>
      have hnot : syncRounds [msg] = [] := syncRounds_cons_other hmsg.1 []
      have hlogged := hn.stay (emits_logReceive n msg) hnot rfl rfl rfl hn.running hn.polling hn.checking
      obtain ⟨hn', hparty⟩ := h.inRound hlogged.1
      rw [hnot]
      exact ⟨hn', hparty.trans hlogged.2⟩

/-! ### The system -/

/-- In `0, 1, …` every number is at its own position. -/
theorem range_split {l l' : List Nat} {k count : Nat} (h : l ++ k :: l' = List.range count) :
    k = l.length ∧ l.length < count := by
  have hlt : l.length < count := by
    have hlength := congrArg List.length h
    rw [List.length_append, List.length_cons, List.length_range] at hlength
    omega
  have hget : (l ++ k :: l')[l.length]? = some l.length := by
    rw [h, List.getElem?_range hlt]
  rw [List.getElem?_append_right le_rfl, Nat.sub_self] at hget
  exact ⟨Option.some.inj hget, hlt⟩

/-- The next SYNC in a ring is the one its receiver has to count next. -/
theorem Channel.next_sync {n m : Node} (h : Channel n m) (hn : n.InRound) {msg : Message}
    {rest : List Message} (hring : n.ring = msg :: rest) (htype : msg.type = msgTypeSync) :
    msg.syncRound = m.seen ∧ m.seen < n.party.sent := by
  have hsent := hn.sent
  rw [← h, Node.inFlight, hring, List.cons_append, syncRounds_append,
    syncRounds_cons_sync htype] at hsent
  exact range_split hsent

/-- The rounds of the nodes as the parties of the barrier. -/
def barrier (s : System) : Barrier := fun i => (s i).party

theorem barrier_update (s : System) (i : Side) (n : Node) :
    barrier (Function.update s i n) = Function.update (barrier s) i n.party := by
  funext j
  rcases Side.eq_or_eq_peer i j with rfl | rfl
  · simp [barrier]
  · simp [barrier]

/-- What holds of the two nodes and the two rings in every state of a run. -/
structure InBarrier (s : System) : Prop where
  conserved : Conserved s
  inRound : ∀ i, (s i).InRound
  ordered : (barrier s).Ordered

/-- Both rounds stay below `2 ^ 32`, where the keys of the SYNC tables wrap around. -/
def RoundsFit (s : System) : Prop := ∀ i, (s i).wwt.currentQuantumRound < 2 ^ 32

instance (s : System) : Decidable (RoundsFit s) :=
  inferInstanceAs (Decidable (∀ i, (s i).wwt.currentQuantumRound < 2 ^ 32))

theorem InBarrier.seen_lt {s : System} (h : InBarrier s) (i : Side)
    (hnext : (s i).seen < (s i.peer).party.sent) : (s i).seen < 2 ^ 32 := by
  have hround := (h.inRound i.peer).round_lt
  have hbool := Bool.toNat_le (s i.peer).party.arrived
  rw [Party.sent] at hnext
  have hparty : (s i.peer).party.round = (s i.peer).wwt.currentQuantumRound := rfl
  omega

/-- The nodes and rings hold other messages, and the barrier is as before. -/
theorem Node.InRound.setMessages {n : Node} (hn : n.InRound) (sending ring : List Message) :
    ({ n with sending, ring } : Node).InRound :=
  ⟨hn.sync, hn.round_lt, hn.sent, hn.counted, hn.running, hn.polling, hn.checking⟩

theorem PartyStep.barrier {b : Barrier} {i : Side} {p : Party} (h : PartyStep (b i) p) :
    Function.update b i p = b ∨ Barrier.Step b (Function.update b i p) := by
  cases h with
  | stay => exact Or.inl (Function.update_eq_self i b)
  | arrive harrived => exact Or.inr (.arrive b i harrived)
  | pass harrived hseen => exact Or.inr (.pass b i harrived hseen)

/-- A step of the system is a step of the barrier or leaves it alone. -/
theorem Next.inRound {s s' : System} {ia : Side × Action} (h : Next s ia s') (hs : InBarrier s)
    (hfit : RoundsFit s') :
    (∀ i, (s' i).InRound) ∧ (barrier s' = barrier s ∨ Barrier.Step (barrier s) (barrier s')) := by
  cases h with
  | @commSend i msg rest hsending =>
      refine ⟨Side.forall_of_self_peer i ?_ ?_, Or.inl ?_⟩
      · rw [Function.update_self]
        exact (hs.inRound i).setMessages _ _
      · rw [Function.update_of_ne (Side.peer_ne i)]
        exact hs.inRound i.peer
      · rw [barrier_update]
        exact Function.update_eq_self i (barrier s)
  | @receive i msg rest n' _ hring h =>
      have hnext := (hs.conserved i.peer).next_sync (hs.inRound i.peer) hring
      rw [Side.peer_peer] at hnext
      obtain ⟨hn', hparty⟩ := h.inRound (hs.inRound i) fun htype =>
        ⟨(hnext htype).1, hs.seen_lt i (hnext htype).2⟩
      have hbarrier : barrier (Function.update
          (Function.update s i.peer { s i.peer with ring := rest }) i n') =
          Function.update (barrier s) i n'.party := by
        rw [barrier_update, barrier_update]
        congr 1
        exact Function.update_eq_self i.peer (barrier s)
      rw [hbarrier]
      refine ⟨Side.forall_of_self_peer i ?_ ?_, ?_⟩
      · rw [Function.update_self]
        exact hn'
      · rw [Function.update_of_ne (Side.peer_ne i), Function.update_self]
        exact (hs.inRound i.peer).setMessages _ _
      · rw [hparty]
        by_cases htype : msg.type = msgTypeSync
        · right
          rw [syncRounds_cons_sync htype]
          exact .see (barrier s) i (hnext htype).2
        · left
          rw [syncRounds_cons_other htype]
          exact Function.update_eq_self i (barrier s)
  | @move i a n' _ _ h =>
      have hlt : n'.wwt.currentQuantumRound < 2 ^ 32 := by simpa using hfit i
      obtain ⟨hn', hstep⟩ := h.inRound (hs.inRound i) hlt
      refine ⟨Side.forall_of_self_peer i ?_ ?_, ?_⟩
      · rw [Function.update_self]
        exact hn'
      · rw [Function.update_of_ne (Side.peer_ne i)]
        exact hs.inRound i.peer
      · rw [barrier_update]
        exact PartyStep.barrier hstep

theorem Next.inBarrier {s s' : System} {ia : Side × Action} (h : Next s ia s') (hs : InBarrier s)
    (hfit : RoundsFit s') : InBarrier s' := by
  obtain ⟨hinRound, hbarrier⟩ := h.inRound hs hfit
  refine ⟨h.conserved hs.conserved, hinRound, ?_⟩
  rcases hbarrier with hbarrier | hbarrier
  · rw [hbarrier]
    exact hs.ordered
  · exact hs.ordered.step hbarrier

theorem inBarrier_created {cfg : Config} (hsync : cfg.sync = true) : InBarrier cfg.created where
  conserved := conserved_created cfg
  inRound i :=
    { sync := hsync
      round_lt := by
        rw [Config.created, pdesEngineWwtCreate]
        exact Nat.two_pow_pos 32
      sent := rfl
      counted := fun _ _ => rfl
      running := fun _ => rfl
      polling := fun hne => absurd rfl hne
      checking := fun harmed => by cases harmed }
  ordered := Barrier.ordered_start

/-- The barrier invariant holds in every state of a run whose rounds stay below `2 ^ 32`. -/
theorem reaches_inBarrier {cfg : Config} {capacity : Option Nat}
    {guard : System → Side × Action → System → Prop} (hsync : cfg.sync = true)
    (hguard : ∀ s a s', guard s a s' → RoundsFit s') {s : System}
    (hs : cfg.Reaches capacity guard s) : InBarrier s := by
  refine hs.invariant (fun _ h => h ▸ inBarrier_created hsync) ?_
  intro s a s' _ hs hstep hg
  exact (step_next (fun i => (hs.inRound i).sync) hstep).inBarrier hs (hguard s a s' hg)

end LeanPdes
