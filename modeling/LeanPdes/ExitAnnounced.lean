import LeanPdes.BarrierSafety
import LeanPdes.ExitHandshake

/-! Who hears that a node has left. END is sent together with the permission, so a node that leaves
with the permission has announced it; a node that leaves without it, as the master does after the
`init_warmed` checkpoint, has announced nothing. -/

namespace LeanPdes

open Words TwoParty Reach ExitProtocol

/-- Whether the callback reaches an `exit(0)`: in `pdes_engine_destroy` without a pending checkpoint,
or at the end of `create_checkpoint_bh`. -/
def Node.leaves (n : Node) : Action → Bool
  | .engineDestroy => !n.engine.needsToCheckpoint
  | .pollReturn =>
      n.site = some .waitLoop && n.engine.pairHasFinished && !n.engine.needsToCheckpoint
  | .checkpointBh =>
      n.engine.needsToCheckpoint &&
        ((n.engine.checkpointName = initWarmed && n.engine.master) ||
          n.engine.boundryCheckpointBh.any (·.exitAfter))
  | _ => false

/-- The outcomes of a callback for the handshake. A callback that leaves does no more than close. -/
inductive Exits (n : Node) (a : Action) : Node → Prop
  | stays (call : Call) {n' : Node} (hleaves : n.leaves a = false) (htaken : call.taken = [])
      (hdoes : Does n n' (call.apply n.exitFlags)) : Exits n a n'
  | leaves (call : Call) (n₁ : Node) (hleaves : n.leaves a = true)
      (hcall : call = .idle ∨ call = .sendEnd) (hdoes : Does n n₁ (call.apply n.exitFlags))
      (hsending : (n.engine.permittedToExit = true → n.engine.endMessageSent = true) →
        n₁.sending = n.sending) : Exits n a { n₁ with exitCalled := true }

theorem Exits.idle {n n' : Node} {a : Action} (hleaves : n.leaves a = false) (h : Idle n n') :
    Exits n a n' :=
  .stays .idle hleaves rfl h

/-- `pdes_engine_destroy`, called after changes that are no part of the handshake. -/
theorem pdesEngineDestroy_exits {n n₀ n' : Node} {a : Action} (h : pdesEngineDestroy n₀ = .ok n')
    (hbefore : Idle n n₀) (hsending : n₀.sending = n.sending)
    (hleaves : n.leaves a = !n₀.engine.needsToCheckpoint) : Exits n a n' := by
  obtain ⟨n₁, hcloses, rfl⟩ := pdesEngineDestroy_closes h
  obtain ⟨call, hcall, hdoes⟩ := hcloses.does
  rw [hbefore.flags] at hdoes
  have hboth := hbefore.does hdoes
  cases hneeds : n₀.engine.needsToCheckpoint with
  | true =>
      rw [hneeds, Bool.not_true] at hleaves
      refine .stays call hleaves ?_ ?_
      · rcases hcall with rfl | rfl <;> rfl
      · rw [Bool.not_true, Bool.or_false, ← hdoes.exited]
        exact hboth
  | false =>
      rw [hneeds, Bool.not_false] at hleaves
      rw [Bool.not_false, Bool.or_true]
      refine .leaves call n₁ hleaves hcall hboth fun hsent => ?_
      have hpermitted : n₀.engine.permittedToExit = n.engine.permittedToExit :=
        congrArg Flags.permitted hbefore.flags
      have hend : n₀.engine.endMessageSent = n.engine.endMessageSent :=
        congrArg Flags.endSent hbefore.flags
      rw [← hpermitted, ← hend] at hsent
      rw [hcloses.sending hsent, hsending]

theorem createCheckpointBh_exits {n n' : Node} {bh : CheckpointBh}
    (hbh : n.engine.boundryCheckpointBh = some bh)
    (h : createCheckpointBh bh.exitAfter
      { n with engine.boundryCheckpointBh := some { bh with scheduled := false } } = .ok n') :
    Exits n .checkpointBh n' := by
  rw [createCheckpointBh] at h
  split at h
  · rename_i hneeds
    cases h
    refine .idle ?_ (.fields rfl rfl)
    rw [Node.leaves, show n.engine.needsToCheckpoint = false by simpa using hneeds, Bool.false_and]
  · rename_i hneeds
    have hneeds' : n.engine.needsToCheckpoint = true := by simpa using hneeds
    obtain ⟨n₁, hdestroy, h⟩ := bind_eq_ok.mp h
    have hsaved : Idle n (saveCheckpoint
        { n with engine.boundryCheckpointBh := some { bh with scheduled := false } }) :=
      Idle.does (.fields rfl rfl) (saveCheckpoint_idle _)
    split_ifs at hdestroy with hname
    · have hleaves : n.leaves .checkpointBh = true := by
        rw [Node.leaves, hneeds', Bool.true_and, Bool.or_eq_true, Bool.and_eq_true]
        exact Or.inl ⟨decide_eq_true hname.1, hname.2⟩
      cases pdesEngineDestroy_exits (a := .checkpointBh) hdestroy hsaved rfl hleaves with
      | stays call hnot =>
          rw [hleaves] at hnot
          cases hnot
      | leaves call n₁ hleaves hcall hdoes hsending =>
          cases h
          rw [Bool.true_or]
          exact .leaves call n₁ hleaves hcall hdoes hsending
    · cases hdestroy
      cases h
      have hleaves : n.leaves .checkpointBh = bh.exitAfter := by
        have hnot : (decide (n.engine.checkpointName = initWarmed) && n.engine.master) = false := by
          rw [Bool.eq_false_iff, ne_eq, Bool.and_eq_true, decide_eq_true_eq]
          exact hname
        rw [Node.leaves, hneeds', hnot, hbh, Option.any_some, Bool.true_and, Bool.false_or]
      cases hexit : bh.exitAfter with
      | false =>
          rw [hexit] at hleaves
          rw [Bool.or_false]
          exact .idle hleaves hsaved
      | true =>
          rw [hexit] at hleaves
          rw [Bool.or_true]
          exact .leaves .idle _ hleaves (Or.inl rfl) hsaved fun _ => rfl

theorem pollReturn_exits {n n' : Node} {site : PollSite} (hsite : n.site = some site)
    (h : pollReturn n site = .ok n') : Exits n .pollReturn n' := by
  have stays : site ≠ .waitLoop → n.leaves .pollReturn = false := by
    intro hne
    rw [Node.leaves, hsite]
    simp [hne]
  cases site with
  | timer =>
      cases h
      exact .idle (stays (by decide)) (.fields rfl rfl)
  | quantaSync =>
      have hsite' : Idle n { n with site := none } := .fields rfl rfl
      exact .idle (stays (by decide)) (hsite'.does (quantaSyncFinish_idle h))
  | isWaiting =>
      rw [pollReturn] at h
      split_ifs at h
      · cases h
        exact .idle (stays (by decide)) (.fields rfl rfl)
      · have hsite' : Idle n { n with site := none } := .fields rfl rfl
        rcases wwtSyncCheckFinish_does h with hidle | hcheck
        · exact .idle (stays (by decide)) (hsite'.does hidle)
        · exact .stays .check (stays (by decide)) rfl (hsite'.does hcheck)
  | waitLoop =>
      rw [pollReturn] at h
      split_ifs at h with hfinished
      · refine pdesEngineDestroy_exits h (.fields rfl rfl) rfl ?_
        rw [Node.leaves, hsite, hfinished]
        simp
      · cases h
        refine .idle ?_ (.fields rfl rfl)
        rw [Node.leaves, Bool.not_eq_true] at *
        simp [hfinished]

theorem act_exits {n n' : Node} {a : Action} (h : n.act a = .ok n') : Exits n a n' := by
  cases a with
  | setup =>
      cases (callback_ok.mp h).2
      exact .idle rfl (.fields rfl rfl)
  | advance t =>
      cases (callback_ok.mp h).2
      exact .idle rfl (.fields rfl rfl)
  | wwtSend data => exact .idle rfl (wwtSend_idle (callback_ok.mp h).2)
  | deliver k =>
      obtain ⟨ctx, _, rfl⟩ := act_deliver h
      exact .idle rfl (.of_emits [.recvCb ..] (.logs rfl rfl) rfl rfl rfl)
  | pollTimer =>
      cases (callback_ok.mp h).2
      exact .idle rfl (.fields rfl rfl)
  | pollMessage => cases h
  | pollReturn =>
      obtain ⟨site, hsite, hn'⟩ := act_pollReturn h
      exact pollReturn_exits hsite hn'
  | quantaSync =>
      have hfired : Idle n { n with wwt.quantumTimer := .stopped } := .fields rfl rfl
      exact .idle rfl (hfired.does (quantaSync_idle (callback_ok.mp h).2))
  | syncCheck =>
      cases (callback_ok.mp h).2
      exact .idle rfl (.fields rfl rfl)
  | pauseBh =>
      cases (callback_ok.mp h).2
      exact .idle rfl (.fields rfl rfl)
  | checkpointBh =>
      obtain ⟨bh, hbh, hn'⟩ := act_checkpointBh h
      exact createCheckpointBh_exits hbh hn'
  | commSend => cases h
  | finishInitiateCheckpoint =>
      exact .idle rfl (finishInitiateCheckpoint_idle (callback_ok.mp h).2)
  | canStop =>
      obtain ⟨r, hcall⟩ := act_canStop h
      exact .stays .stop rfl rfl (canStop_does hcall)
  | notifyNeighboursOfEnd =>
      obtain ⟨call, hcall, hdoes⟩ := (notifyNeighboursOfEnd_closes (callback_ok.mp h).2).does
      rcases hcall with rfl | rfl <;> exact .stays _ rfl rfl hdoes
  | engineDestroy => exact pdesEngineDestroy_exits (callback_ok.mp h).2 (Idle.refl n) rfl rfl

/-! ### The system -/

/-- A step of node `i` for the handshake. Only an idle node runs a callback, and only `Node.leaves`
takes it out of the simulation. -/
structure StepExits (s : System) (i : Side) (a : Action) (s' : System) (call : Call) : Prop where
  follows : Follows s s' i call
  peerExited : (s' i.peer).exitCalled = (s i.peer).exitCalled
  peerSending : (s' i.peer).sending = (s i.peer).sending
  idle : (s i).exitCalled = true → (s i).sending ≠ []
  exited : (s' i).exitCalled = ((s i).exitCalled || (s i).leaves a)
  closes : (s i).leaves a = true → call = .idle ∨ call = .sendEnd
  sending : (s i).leaves a = true →
    ((s i).engine.permittedToExit = true → (s i).engine.endMessageSent = true) →
    (s' i).sending = []

theorem step_exits {capacity : Option Nat} {s s' : System} {i : Side} {a : Action}
    (h : step capacity s (i, a) = .ok s') : ∃ call, StepExits s i a s' call := by
  have hne := Side.peer_ne i
  cases stepsTo_of_step h with
  | @commSend _ msg rest hsending =>
      have hmsgs : ({ s i with sending := rest, ring := (s i).ring ++ [msg] } : Node).inFlight =
          (s i).inFlight := by
        rw [Node.inFlight, Node.inFlight, hsending, List.append_assoc, List.singleton_append]
      refine ⟨.idle, .call rfl (Idle.refl (s i)) rfl rfl hmsgs, ?_, ?_, ?_, ?_, ?_, ?_⟩
      · rw [Function.update_of_ne hne]
      · rw [Function.update_of_ne hne]
      · rw [hsending]
        exact fun _ => List.cons_ne_nil msg rest
      · rw [Function.update_self, show (s i).leaves .commSend = false from rfl, Bool.or_false]
      · exact fun _ => Or.inl rfl
      · exact fun hleaves => absurd hleaves Bool.false_ne_true
  | @receive _ msg rest n' hidle hring hn' =>
      obtain ⟨call, hfollows⟩ := Follows.receive n' hring hn' rfl rfl rfl
      refine ⟨call, hfollows, ?_, ?_, ?_, ?_, ?_, ?_⟩
      · rw [Function.update_of_ne hne, Function.update_self]
      · rw [Function.update_of_ne hne, Function.update_self]
      · intro hexited
        rw [hidle.1] at hexited
        cases hexited
      · rw [Function.update_self, show (s i).leaves .pollMessage = false from rfl, Bool.or_false,
          processMessage_exited hn']
      · exact fun hleaves => absurd hleaves Bool.false_ne_true
      · exact fun hleaves => absurd hleaves Bool.false_ne_true
  | @callback _ _ n' hidle _ hn' =>
      have hnot : (s i).exitCalled = true → (s i).sending ≠ [] := by
        intro hexited
        rw [hidle.1] at hexited
        cases hexited
      cases act_exits hn' with
      | stays call hleaves htaken hdoes =>
          refine ⟨call, .call htaken hdoes rfl rfl rfl, ?_, ?_, hnot, ?_, ?_, ?_⟩
          · rw [Function.update_of_ne hne]
          · rw [Function.update_of_ne hne]
          · rw [Function.update_self, hleaves, hdoes.exited, Bool.or_false]
          · exact fun hyes => absurd hyes (by simp [hleaves])
          · exact fun hyes => absurd hyes (by simp [hleaves])
      | leaves call n₁ hleaves hcall hdoes hsending =>
          have htaken : call.taken = [] := by rcases hcall with rfl | rfl <;> rfl
          refine ⟨call, .call htaken hdoes rfl rfl rfl, ?_, ?_, hnot, ?_, fun _ => hcall, ?_⟩
          · rw [Function.update_of_ne hne]
          · rw [Function.update_of_ne hne]
          · rw [Function.update_self, hleaves, Bool.or_true]
          · intro _ hsent
            rw [Function.update_self]
            exact (hsending hsent).trans hidle.2

/-- Every node that has left has announced it: its neighbour has left too, knows that it has
finished, or will find END in its incoming ring. -/
def Announced (s : System) : Prop :=
  ∀ i, (s i).Exited → (s i.peer).Exited ∨ (s i.peer).engine.pairHasFinished = true ∨
    ∃ msg ∈ (s i).ring, msg.type = endOfEmulation

/-- The node waits for a neighbour that has left, with nothing more to receive and without knowing
that the neighbour has finished. -/
def Spins (s : System) (i : Side) : Prop :=
  (s i).InWaitLoop ∧ ¬(s i).Exited ∧ (s i.peer).Exited ∧ (s i.peer).ring = [] ∧
    (s i).engine.pairHasFinished = false

theorem Announced.not_spins {s : System} (h : Announced s) (i : Side) : ¬Spins s i := by
  rintro ⟨_, hstays, hleft, hring, hfinished⟩
  rcases h i.peer hleft with hexited | hknows | ⟨msg, hmem, _⟩
  · rw [Side.peer_peer] at hexited
    exact hstays hexited
  · rw [Side.peer_peer, hfinished] at hknows
    cases hknows
  · rw [hring] at hmem
    cases hmem

/-- A callback that reaches an `exit(0)` runs with the permission to exit, or after the
neighbour has left. -/
def PermittedExit (s : System) (ia : Side × Action) : Prop :=
  (s ia.1).leaves ia.2 = true →
    (s ia.1).engine.permittedToExit = true ∨ (s ia.1.peer).Exited

/-- What holds in every run: the nodes agree, and a node that has called `exit(0)` is gone. -/
structure ExitFlow (master : Side → Bool) (s : System) : Prop where
  agreement : InAgreement master s
  drained : ∀ i, (s i).exitCalled = true → (s i).sending = []

theorem ExitFlow.exited {master : Side → Bool} {s : System} (h : ExitFlow master s) {i : Side}
    (hcalled : (s i).exitCalled = true) : (s i).Exited :=
  ⟨hcalled, h.drained i hcalled⟩

theorem InAgreement.endSent {master : Side → Bool} {s : System} (h : InAgreement master s) (i : Side)
    (hpermitted : (s i).engine.permittedToExit = true) : (s i).engine.endMessageSent = true := by
  obtain ⟨phase, hphase⟩ := h.phase
  have hself := (hphase i).1
  have heq := Phase.endSent_eq_permitted (master i) phase
  rw [← hself] at heq
  exact heq.trans hpermitted

theorem mem_exitMsgs {msgs : List Message} {m : Msg} :
    m ∈ exitMsgs msgs ↔ ∃ msg ∈ msgs, msg.type = exitType m := by
  simp only [exitMsgs, List.mem_filterMap, exitMsg_eq_some_iff]

/-- A node has the permission exactly where its neighbour hears, or has heard, that it finishes. -/
theorem InAgreement.permitted_iff {master : Side → Bool} (hroles : OneMaster master) {s : System}
    (h : InAgreement master s) (i : Side) :
    (s i).engine.permittedToExit = true ↔ (∃ msg ∈ (s i).inFlight, msg.type = endOfEmulation) ∨
      (s i.peer).engine.pairHasFinished = true := by
  obtain ⟨phase, hphase⟩ := h.phase
  have hpeer := (hphase i.peer).1
  rw [hroles i] at hpeer
  have hiff := Phase.permitted_iff (master i) phase
  rw [← (hphase i).1, ← (hphase i).2, ← hpeer, mem_exitMsgs] at hiff
  exact hiff

theorem ExitFlow.preserved {master : Side → Bool} (hroles : OneMaster master) {capacity : Option Nat}
    {s s' : System} {ia : Side × Action} (hflow : ExitFlow master s)
    (h : step capacity s ia = .ok s') : ExitFlow master s' := by
  obtain ⟨i, a⟩ := ia
  obtain ⟨call, hstep⟩ := step_exits h
  refine ⟨hflow.agreement.follows hroles hstep.follows, Side.forall_of_self_peer i ?_ ?_⟩
  · intro hexited
    cases hleaves : (s i).leaves a with
    | true => exact hstep.sending hleaves (hflow.agreement.endSent i)
    | false =>
        rw [hstep.exited, hleaves, Bool.or_false] at hexited
        exact absurd (hflow.drained i hexited) (hstep.idle hexited)
  · rw [hstep.peerExited, hstep.peerSending]
    exact hflow.drained i.peer

/-- Whoever has left has the permission to exit, or its neighbour has left too. -/
def LeftPermitted (s : System) : Prop :=
  ∀ i, (s i).Exited → (s i).engine.permittedToExit = true ∨ (s i.peer).Exited

/-- It is the permission to exit that announces an exit. -/
theorem ExitFlow.announced_iff {master : Side → Bool} (hroles : OneMaster master) {s : System}
    (h : ExitFlow master s) : Announced s ↔ LeftPermitted s := by
  refine forall_congr' fun i => imp_congr_right fun hexited => ?_
  have hflight : (s i).inFlight = (s i).ring := by
    rw [Node.inFlight, hexited.2, List.append_nil]
  rw [h.agreement.permitted_iff hroles i, hflight]
  simp only [or_comm, or_left_comm]

theorem StepExits.permitted {s s' : System} {i : Side} {a : Action} {call : Call}
    (h : StepExits s i a s' call) (hleaves : (s i).leaves a = true) :
    (s' i).engine.permittedToExit = (s i).engine.permittedToExit := by
  have hflags := congrArg Flags.permitted h.follows.flags
  rcases h.closes hleaves with rfl | rfl
  · exact hflags
  · exact hflags.trans (Flags.sendEnd_permitted _)

theorem StepExits.peer_exited {s s' : System} {i : Side} {a : Action} {call : Call}
    (h : StepExits s i a s' call) : (s' i.peer).Exited ↔ (s i.peer).Exited := by
  rw [Node.Exited, Node.Exited, h.peerExited, h.peerSending]

/-- A step leaves nobody without permission exactly where it meets `PermittedExit`. -/
theorem ExitFlow.leftPermitted_iff {master : Side → Bool} (hroles : OneMaster master)
    {capacity : Option Nat} {s s' : System} {ia : Side × Action} (hflow : ExitFlow master s)
    (hleft : LeftPermitted s) (h : step capacity s ia = .ok s') :
    LeftPermitted s' ↔ PermittedExit s ia := by
  have hflow' := hflow.preserved hroles h
  obtain ⟨i, a⟩ := ia
  obtain ⟨call, hstep⟩ := step_exits h
  -- a node that has left makes no step
  have hrunning : (s i).exitCalled = false := by
    by_contra hcalled
    rw [Bool.not_eq_false] at hcalled
    exact hstep.idle hcalled (hflow.drained i hcalled)
  constructor
  · intro hleft' hleaves
    have hexited : (s' i).Exited := by
      apply hflow'.exited
      rw [hstep.exited, hleaves, Bool.or_true]
    rcases hleft' i hexited with hpermitted | hpeer
    · rw [hstep.permitted hleaves] at hpermitted
      exact Or.inl hpermitted
    · exact Or.inr (hstep.peer_exited.mp hpeer)
  · intro hpermit
    refine Side.forall_of_self_peer i ?_ ?_
    · intro hexited
      have hleaves : (s i).leaves a = true := by
        have hcalled := hstep.exited
        rwa [hexited.1, hrunning, Bool.false_or, eq_comm] at hcalled
      rw [hstep.permitted hleaves, hstep.peer_exited]
      exact hpermit hleaves
    · intro hexited
      rw [hstep.peer_exited] at hexited
      rcases hleft i.peer hexited with hpermitted | hself
      · have hflags := congrArg Flags.permitted hstep.follows.peerFlags
        exact Or.inl (hflags.trans hpermitted)
      · rw [Side.peer_peer] at hself
        rw [hself.1] at hrunning
        cases hrunning

theorem reaches_exitFlow {cfg : Config} (hroles : OneMaster cfg.master) {capacity : Option Nat}
    {s : System} (hs : cfg.Reaches capacity (fun s ia _ => PermittedExit s ia) s) :
    ExitFlow cfg.master s ∧ LeftPermitted s := by
  refine Reachable.invariant (P := fun s => ExitFlow cfg.master s ∧ LeftPermitted s) ?_
    (fun s ia s' _ hinv hstep hguard => ?_) hs
  · rintro s rfl
    refine ⟨⟨inAgreement_created cfg, fun i hcalled => ?_⟩, fun i hexited => ?_⟩
    · cases hcalled
    · cases hexited.1
  · exact ⟨hinv.1.preserved hroles hstep, (hinv.1.leftPermitted_iff hroles hinv.2 hstep).mpr hguard⟩

/-- Where every `exit(0)` is called with the permission to exit, or after the neighbour has left, every
exit is announced in every state and nobody waits for a node that has left. The first step that does
otherwise leaves an exit unannounced. -/
theorem announced_of_permitted {cfg : Config} (hroles : OneMaster cfg.master)
    {capacity : Option Nat} {s : System}
    (hs : cfg.Reaches capacity (fun s ia _ => PermittedExit s ia) s) :
    (Announced s ∧ ∀ i, ¬Spins s i) ∧
      ∀ ia s', step capacity s ia = .ok s' → (Announced s' ↔ PermittedExit s ia) := by
  obtain ⟨hflow, hleft⟩ := reaches_exitFlow hroles hs
  have hannounced := (hflow.announced_iff hroles).mpr hleft
  refine ⟨⟨hannounced, hannounced.not_spins⟩, fun ia s' hstep => ?_⟩
  rw [(hflow.preserved hroles hstep).announced_iff hroles]
  exact hflow.leftPermitted_iff hroles hleft hstep

instance (s : System) (ia : Side × Action) : Decidable (PermittedExit s ia) :=
  inferInstanceAs (Decidable (_ → _))

/-- Both nodes want to stop, and the master leaves once it knows that the follower has finished. -/
def permittedRun : List (Side × Action) :=
  [(.right, .canStop), (.right, .commSend), (.left, .setup), (.left, .pollTimer),
    (.left, .pollMessage), (.left, .canStop), (.left, .commSend), (.left, .commSend),
    (.left, .engineDestroy)]

set_option maxRecDepth 100000 in
theorem announced_of_permitted_permittedRun :
    ∃ s, twoNodes.Reaches none (fun s ia _ => PermittedExit s ia) s ∧ (s .left).exitCalled = true ∧
      Announced s := by
  have hrun : (run (step none) (fun s ia _ => PermittedExit s ia) twoNodes.created permittedRun).map
      (fun s => (s .left).exitCalled) = some true := by decide
  obtain ⟨s, hs, hleft⟩ := Option.map_eq_some_iff.mp hrun
  have hreach := Config.Reaches.of_run hs
  exact ⟨s, hreach, hleft, (announced_of_permitted (by decide) hreach).1.1⟩

/-- Both nodes agree on the `init_warmed` checkpoint of round 0. The master saves it and leaves; the
follower saves it and waits for the master in round 1. -/
def initWarmedRun : List (Side × Action) :=
  [(.left, .setup), (.right, .setup), (.right, .finishInitiateCheckpoint), (.right, .commSend),
    (.left, .finishInitiateCheckpoint), (.left, .quantaSync), (.left, .pollMessage),
    (.left, .pollReturn), (.left, .commSend), (.left, .commSend), (.right, .quantaSync),
    (.right, .pollMessage), (.right, .pollMessage), (.right, .pollReturn), (.right, .commSend),
    (.right, .commSend), (.left, .syncCheck), (.left, .pollMessage), (.left, .pollMessage),
    (.left, .pollReturn), (.left, .checkpointBh), (.right, .syncCheck), (.right, .pollReturn),
    (.right, .checkpointBh), (.right, .syncCheck), (.right, .pollReturn), (.right, .pauseBh),
    (.right, .quantaSync), (.right, .pollReturn), (.right, .commSend), (.right, .syncCheck),
    (.right, .pollReturn)]

instance (n : Node) : Decidable n.InWaitLoop := inferInstanceAs (Decidable (_ ∨ _))

instance (s : System) (i : Side) : Decidable (Spins s i) := inferInstanceAs (Decidable (_ ∧ _))

set_option maxRecDepth 100000 in
theorem unannounced_initWarmedRun :
    ∃ s, twoNodes.Reaches (some ringCapacity) (fun _ _ _ => True) s ∧ ¬Announced s ∧
      Spins s .right := by
  have hrun : (run (step (some ringCapacity)) (fun _ _ _ => True) twoNodes.created
      initWarmedRun).map (fun s => decide (Spins s .right)) = some true := by decide
  obtain ⟨s, hs, hspins⟩ := Option.map_eq_some_iff.mp hrun
  have hspins' := of_decide_eq_true hspins
  exact ⟨s, .of_run hs, fun hannounced => hannounced.not_spins .right hspins', hspins'⟩

end LeanPdes
