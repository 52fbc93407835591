import LeanPdes.Delivery
import LeanPdes.Faultless
import LeanPdes.PauseResume

/-! Runs in which nobody asks for a checkpoint, while the nodes may be asked to stop at any moment. A node
then sends its packets, its SYNC messages and the messages of the exit handshake, never more than two at
a time, and each of its own callbacks takes one of a few ways. -/

namespace LeanPdes

open Words TwoParty Reach ExitProtocol

/-- The steps of such a run, under QEMU's promises, with packets that fit and come after both set-ups, with
no overflow, and with bottom halves in their order. -/
def UnaskedStep (s : System) (ia : Side × Action) (s' : System) : Prop :=
  PromptStep s ia s' ∧ Disciplined s ia ∧ ia.2 ≠ .finishInitiateCheckpoint

instance (s : System) (ia : Side × Action) (s' : System) : Decidable (UnaskedStep s ia s') :=
  inferInstanceAs (Decidable (_ ∧ _ ∧ _))

theorem Prompt.packetFits {s : System} {ia : Side × Action} (h : Prompt s ia) : ia.2.PacketFits := by
  obtain ⟨i, a⟩ := ia
  cases a with
  | wwtSend data => exact h
  | _ => trivial

theorem UnaskedStep.orderlyStep {s s' : System} {ia : Side × Action} (h : UnaskedStep s ia s') :
    OrderlyStep s ia s' := ⟨h.1.timelyStep, h.1.2.1.packetFits, h.2.1⟩

/-- Nothing, one message, or the permission with END behind it. -/
inductive Few : List Message → Prop
  | none : Few []
  | one (msg : Message) : Few [msg]
  | grant {permission last : Message} (hpermission : permission.type = permissionToEndEmulation)
      (hlast : last.type = endOfEmulation) : Few [permission, last]

theorem Few.length_le {msgs : List Message} (h : Few msgs) : msgs.length ≤ 2 := by
  cases h <;> simp

theorem Few.tail {msg : Message} {rest : List Message} (h : Few (msg :: rest)) : Few rest := by
  cases h with
  | one => exact .none
  | grant => exact .one _

/-- The call sends few messages. -/
def SendsFew (n n' : Node) : Prop := ∃ msgs, n'.sending = n.sending ++ msgs ∧ Few msgs

theorem SendsFew.none {n n' : Node} (h : n'.sending = n.sending) : SendsFew n n' :=
  ⟨[], by rw [h, List.append_nil], .none⟩

theorem SendsFew.few {n n' : Node} (h : SendsFew n n') (hidle : n.sending = []) : Few n'.sending := by
  obtain ⟨msgs, hsending, hfew⟩ := h
  rw [hsending, hidle]
  exact hfew

theorem sendEndIfHandshakeComplete_sends {n n' : Node} (h : sendEndIfHandshakeComplete n = .ok n') :
    n'.sending = n.sending ∨
      ∃ last : Message, last.type = endOfEmulation ∧ n'.sending = n.sending ++ [last] := by
  rcases sendEndIfHandshakeComplete_ok h with ⟨rfl, _⟩ | ⟨_, _, last, hlast, rfl⟩
  · exact Or.inl rfl
  · exact Or.inr ⟨last, hlast, rfl⟩

theorem sendEndIfHandshakeComplete_sendsFew {n n' : Node}
    (h : sendEndIfHandshakeComplete n = .ok n') : SendsFew n n' := by
  rcases sendEndIfHandshakeComplete_sends h with hsame | ⟨last, _, hsent⟩
  · exact .none hsame
  · exact ⟨[last], hsent, .one last⟩

theorem grantPermission_sendsFew {n n' : Node} (h : grantPermission n = .ok n') : SendsFew n n' := by
  rw [grantPermission, bind_eq_ok] at h
  obtain ⟨n₁, hsend, h⟩ := h
  obtain ⟨permission, hpermission, rfl⟩ := sendControl_ok hsend
  rcases sendEndIfHandshakeComplete_sends h with hsame | ⟨last, hlast, hsent⟩
  · exact ⟨[permission], hsame, .one permission⟩
  · refine ⟨[permission, last], ?_, .grant hpermission hlast⟩
    rw [hsent, pdesCommSend, List.append_assoc]
    rfl

theorem wwtSyncCheckMaster_sendsFew {n n' : Node} (h : wwtSyncCheckMaster n = .ok n') :
    SendsFew n n' := by
  rw [wwtSyncCheckMaster] at h
  split_ifs at h
  · exact grantPermission_sendsFew h
  · cases h
    exact .none rfl
  · cases h
    exact .none rfl

theorem canStop_sendsFew {n n' : Node} {r : Bool} (h : canStop n = .ok (r, n')) : SendsFew n n' := by
  rw [canStop, bind_eq_ok] at h
  obtain ⟨n₁, harm, h⟩ := h
  cases h
  split_ifs at harm
  · obtain ⟨n₂, hsend, harm⟩ := bind_eq_ok.mp harm
    obtain ⟨intent, _, rfl⟩ := sendControl_ok hsend
    cases harm
    exact ⟨[intent], rfl, .one intent⟩
  · cases harm
    exact .none rfl
  · obtain ⟨msgs, hsending, hfew⟩ := grantPermission_sendsFew harm
    exact ⟨msgs, hsending, hfew⟩
  · cases harm
    exact .none rfl

theorem notifyNeighboursOfEnd_sendsFew {n n' : Node} (h : notifyNeighboursOfEnd n = .ok n') :
    SendsFew n n' := by
  rw [notifyNeighboursOfEnd] at h
  split_ifs at h
  · cases h
    exact .none rfl
  · obtain ⟨msgs, hsending, hfew⟩ := sendEndIfHandshakeComplete_sendsFew h
    exact ⟨msgs, hsending, hfew⟩

theorem pdesEngineDestroy_sendsFew {n n' : Node} (h : pdesEngineDestroy n = .ok n') :
    SendsFew n n' := by
  rw [pdesEngineDestroy, bind_eq_ok] at h
  obtain ⟨n₁, hnotify, h⟩ := h
  have hsends := notifyNeighboursOfEnd_sendsFew hnotify
  split_ifs at h <;> cases h <;> exact hsends

/-- Only the permission is answered, with END. -/
theorem processControl_sends {n n' : Node} {msg : Message} (h : processControl n msg = .ok n') :
    n'.sending = n.sending ∨ (msg.type = permissionToEndEmulation ∧
      ∃ last : Message, last.type = endOfEmulation ∧ n'.sending = n.sending ++ [last]) := by
  rw [processControl] at h
  obtain ⟨n₁, hpermission, h⟩ := bind_eq_ok.mp h
  obtain ⟨n₂, hend, h⟩ := bind_eq_ok.mp h
  have hn' : n'.sending = n₁.sending := by
    have hn₂ : n₂.sending = n₁.sending := by
      split_ifs at hend <;> cases hend <;> rfl
    rw [← hn₂]
    split_ifs at h with hdrain
    · rw [receiveDrainStart] at h
      split_ifs at h <;> cases h <;> rfl
    · cases h
      rfl
    · cases h
      rfl
    · cases h
      rw [receiveCheckpointInitStep]
      split_ifs <;> rfl
    · cases h
      rfl
  rw [hn']
  have hsame : ∀ m : Node, m.sending = n.sending → sendEndIfHandshakeComplete m = .ok n₁ →
      n₁.sending = n.sending ∨
        ∃ last : Message, last.type = endOfEmulation ∧ n₁.sending = n.sending ++ [last] := by
    intro m hm hm'
    rw [← hm]
    exact sendEndIfHandshakeComplete_sends hm'
  by_cases htype : msg.type = permissionToEndEmulation
  · rw [if_pos htype] at hpermission
    refine (hsame _ ?_ hpermission).imp id fun hlast => ⟨htype, hlast⟩
    split_ifs <;> rfl
  · rw [if_neg htype] at hpermission
    left
    cases hpermission
    split_ifs <;> rfl

/-- Nobody asks the node for a checkpoint. -/
structure Node.Unasked (n : Node) : Prop where
  needs : n.engine.needsToCheckpoint = false
  masterInit : n.engine.masterInit = false
  bh : n.engine.boundryCheckpointBh = none
  inFlight : ∀ msg ∈ n.inFlight, msg.type ≠ drainStart

theorem Node.Unasked.send {n : Node} (hn : n.Unasked) {msg : Message} (htype : msg.type ≠ drainStart) :
    (pdesCommSend n msg).Unasked where
  needs := hn.needs
  masterInit := hn.masterInit
  bh := hn.bh
  inFlight := by
    intro other hother
    have hsplit : other ∈ n.inFlight ++ [msg] := by
      rw [Node.inFlight, List.append_assoc]
      exact hother
    rcases List.mem_append.mp hsplit with hother | hother
    · exact hn.inFlight other hother
    · rw [List.mem_singleton.mp hother]
      exact htype

/-- What the node is asked for, and what it asks its neighbour for. -/
def Node.asking (n : Node) : Bool × Bool × Option CheckpointBh × List Message :=
  (n.engine.needsToCheckpoint, n.engine.masterInit, n.engine.boundryCheckpointBh, n.inFlight)

theorem Node.Unasked.congr {n n' : Node} (hn : n.Unasked) (h : n'.asking = n.asking) : n'.Unasked := by
  simp only [Node.asking, Prod.mk.injEq] at h
  obtain ⟨hneeds, hinit, hbh, hinFlight⟩ := h
  exact ⟨hneeds.trans hn.needs, hinit.trans hn.masterInit, hbh.trans hn.bh, hinFlight ▸ hn.inFlight⟩

theorem unasked_frame : HandshakeFrame fun n n' : Node => n.Unasked → n'.Unasked where
  trans h h' hn := h' (h hn)
  send _ _ _ htype hn := hn.send htype
  flags h hn := hn.congr (congrArg Node.asking h :)

theorem quantaSyncFinish_unasked {n n' : Node} (hneeds : n.engine.needsToCheckpoint = false)
    (hsync : n.wwt.shouldSync = true) (h : quantaSyncFinish n = .ok n') :
    ∃ time msg, n.syncMessage = .ok msg ∧
      n' = (pdesCommSend { n with engine.firstSyncTime := time } msg).recheck := by
  rw [quantaSyncFinish, bind_eq_ok] at h
  obtain ⟨n₁, hdrain, h⟩ := h
  rcases drain_cases hdrain with ⟨⟨hneeded, _⟩, _⟩ | ⟨_, rfl⟩
  · rw [hneeds] at hneeded
    cases hneeded
  obtain ⟨n₂, hsend, h⟩ := bind_eq_ok.mp h
  rw [if_pos hsync] at hsend
  obtain ⟨time, msg, hmsg, rfl⟩ := sendSync_ok hsend
  split_ifs at h
  cases h
  exact ⟨time, msg, hmsg, rfl⟩

/-- The node at the end of `wwt_sync_check`, with its timer freed. -/
def Node.leaveCheck (n : Node) : Node :=
  { n with
    site := none
    engine.skipBoundryCheckAfterCheckpoint := false
    wwt.syncCheckTimer := .null }

theorem wwtSyncCheckFinish_unasked {n n' : Node} (hneeds : n.engine.needsToCheckpoint = false)
    (h : wwtSyncCheckFinish { n with site := none } = .ok n') :
    ∃ n₁, wwtSyncCheckMaster n.leaveCheck = .ok n₁ ∧ n' = beginQuantum n₁ := by
  rw [wwtSyncCheckFinish, bind_eq_ok] at h
  obtain ⟨⟨held, n₁⟩, hcheck, h⟩ := h
  rcases syncCheckpointCheck_cases hcheck with ⟨_, rfl, rfl⟩ | ⟨hneeded, _⟩
  · obtain ⟨n₂, hmaster, h⟩ := bind_eq_ok.mp h
    cases h
    exact ⟨n₂, hmaster, rfl⟩
  · have hasked : n.engine.needsToCheckpoint = true := hneeded
    rw [hneeds] at hasked
    cases hasked

/-- The callbacks of the main loop after its first poll: nobody calls the node from outside. -/
def Action.own : Action → Bool
  | .wwtSend _ | .pollTimer | .finishInitiateCheckpoint | .canStop | .notifyNeighboursOfEnd
  | .engineDestroy => false
  | _ => true

/-- The outcomes of the node's own callbacks. -/
inductive UnaskedMove (n : Node) : Action → Node → Prop
  | setup (hsite : n.site = none) (hnull : n.wwt.quantumTimer = .null) : UnaskedMove n .setup (setupWwt n)
  | advance {t : Nat} (hle : n.virtualClock ≤ t) (hlt : t < 2 ^ 63) :
      UnaskedMove n (.advance t) { n with virtualClock := t }
  | deliver {k : Nat} {ctx : MessageReceiveContext} (hctx : n.receiveContexts[k]? = some ctx) :
      UnaskedMove n (.deliver k) { n with
        receiveContexts := n.receiveContexts.eraseIdx k
        log := n.log ++ [.recvCb n.universalTime (ctx.msg.bytes 0 ctx.msg.len)] }
  | pollDone (hsite : n.site = some .timer) : UnaskedMove n .pollReturn { n with site := none }
  | pauseBh (hsite : n.site = none) (hbh : n.engine.pauseBh = true) :
      UnaskedMove n .pauseBh (pdesPauseBh n)
  | quantaSync (hsite : n.site = none) (harmed : n.wwt.quantumTimer.isArmed = true) :
      UnaskedMove n .quantaSync n.enterQuantaSync
  | arrive (hsite : n.site = some .quantaSync) (time : Int) {msg : Message}
      (hmsg : n.syncMessage = .ok msg) :
      UnaskedMove n .pollReturn
        (pdesCommSend { n with site := none, engine.firstSyncTime := time } msg).recheck
  | syncCheck (hsite : n.site = none) (harmed : n.wwt.syncCheckTimer.isArmed = true) :
      UnaskedMove n .syncCheck
        { n with wwt.syncCheckTimer := .stopped, site := some .isWaiting }
  | wait (hsite : n.site = some .isWaiting) (hwaiting : n.waiting = true) :
      UnaskedMove n .pollReturn { n with site := some .waitLoop }
  | again (hsite : n.site = some .waitLoop) (hfinished : n.engine.pairHasFinished = false) :
      UnaskedMove n .pollReturn { n with site := some .isWaiting }
  | leave (hsite : n.site = some .waitLoop) (hfinished : n.engine.pairHasFinished = true) {n' : Node}
      (hdestroy : pdesEngineDestroy { n with site := none } = .ok n') : UnaskedMove n .pollReturn n'
  | pass (hsite : n.site = some .isWaiting) (hwaiting : n.waiting = false) {n₁ : Node}
      (hcheck : wwtSyncCheckMaster n.leaveCheck = .ok n₁) : UnaskedMove n .pollReturn (beginQuantum n₁)

theorem Node.Unasked.act {n n' : Node} {a : Action} (hn : n.Unasked) (hsync : n.wwt.shouldSync = true)
    (hown : a.own = true) (h : n.act a = .ok n') : UnaskedMove n a n' := by
  cases a with
  | setup =>
      obtain ⟨⟨hsite, hnull⟩, hcall⟩ := callback_ok.mp h
      cases hcall
      exact .setup hsite hnull
  | advance t =>
      obtain ⟨⟨hle, hlt⟩, hcall⟩ := callback_ok.mp h
      cases hcall
      exact .advance hle hlt
  | deliver k =>
      obtain ⟨ctx, hctx, rfl⟩ := act_deliver h
      exact .deliver hctx
  | pauseBh =>
      obtain ⟨⟨hsite, hbh⟩, hcall⟩ := callback_ok.mp h
      cases hcall
      exact .pauseBh hsite hbh
  | quantaSync =>
      obtain ⟨⟨hsite, harmed⟩, hcall⟩ := callback_ok.mp h
      rw [quantaSync_ok hsync hcall]
      exact .quantaSync hsite harmed
  | syncCheck =>
      obtain ⟨⟨hsite, harmed⟩, hcall⟩ := callback_ok.mp h
      cases hcall
      exact .syncCheck hsite harmed
  | checkpointBh =>
      obtain ⟨bh, hbh, _⟩ := act_checkpointBh h
      rw [hn.bh] at hbh
      cases hbh
  | pollReturn =>
      obtain ⟨site, hsite, hreturn⟩ := act_pollReturn h
      cases site with
      | timer =>
          cases hreturn
          exact .pollDone hsite
      | quantaSync =>
          obtain ⟨time, msg, hmsg, rfl⟩ :=
            quantaSyncFinish_unasked (n := { n with site := none }) hn.needs hsync hreturn
          exact .arrive hsite time hmsg
      | isWaiting =>
          rw [pollReturn] at hreturn
          split at hreturn
          · rename_i hwaiting
            cases hreturn
            exact .wait hsite hwaiting
          · rename_i hwaiting
            rw [Bool.not_eq_true] at hwaiting
            obtain ⟨n₁, hcheck, rfl⟩ := wwtSyncCheckFinish_unasked hn.needs hreturn
            exact .pass hsite hwaiting hcheck
      | waitLoop =>
          rw [pollReturn] at hreturn
          split_ifs at hreturn with hfinished
          · exact .leave hsite hfinished hreturn
          · cases hreturn
            exact .again hsite (by simpa using hfinished)
  | pollMessage | commSend => cases h
  | wwtSend | pollTimer | finishInitiateCheckpoint | canStop | notifyNeighboursOfEnd | engineDestroy =>
      cases hown

theorem pdesEngineDestroy_unasked {n n' : Node} (hn : n.Unasked) (h : pdesEngineDestroy n = .ok n') :
    n'.Unasked := by
  rw [pdesEngineDestroy, bind_eq_ok] at h
  obtain ⟨n₁, hnotify, h⟩ := h
  have hn₁ : n₁.Unasked := unasked_frame.notifyNeighboursOfEnd hnotify hn
  rw [hn₁.needs] at h
  cases h
  exact hn₁.congr rfl

theorem beginQuantum_asking (n : Node) : (beginQuantum n).asking = n.asking := by
  rw [beginQuantum]
  split_ifs <;> rfl

/-- A call on a node keeps it unasked and sends few messages. -/
structure Calm (n n' : Node) : Prop where
  unasked : n'.Unasked
  sends : SendsFew n n'

theorem Calm.fields {n n' : Node} (hn : n.Unasked) (hasking : n'.asking = n.asking)
    (hsending : n'.sending = n.sending) : Calm n n' :=
  ⟨hn.congr hasking, .none hsending⟩

theorem UnaskedMove.calm {n n' : Node} {a : Action} (h : UnaskedMove n a n') (hn : n.Unasked) :
    Calm n n' := by
  cases h with
  | setup | advance | deliver | pollDone | pauseBh | quantaSync | syncCheck | wait | again =>
      exact .fields hn rfl rfl
  | @arrive hsite time msg hmsg =>
      have htype : msg.type ≠ drainStart := by
        rw [(createMessage_ok hmsg).2.2.2]
        decide
      have hleft : ({ n with site := none, engine.firstSyncTime := time } : Node).Unasked := hn.congr rfl
      exact ⟨(hleft.send htype).congr rfl, [msg], rfl, .one msg⟩
  | leave _ _ hdestroy =>
      have hleft : ({ n with site := none } : Node).Unasked := hn.congr rfl
      obtain ⟨msgs, hsending, hfew⟩ := pdesEngineDestroy_sendsFew hdestroy
      exact ⟨pdesEngineDestroy_unasked hleft hdestroy, msgs, hsending, hfew⟩
  | @pass _ _ n₁ hcheck =>
      have hleft : n.leaveCheck.Unasked := hn.congr rfl
      have hn₁ : n₁.Unasked := unasked_frame.wwtSyncCheckMaster hcheck hleft
      obtain ⟨msgs, hsending, hfew⟩ := wwtSyncCheckMaster_sendsFew hcheck
      refine ⟨hn₁.congr (beginQuantum_asking n₁), msgs, ?_, hfew⟩
      rw [beginQuantum_sending, hsending]
      rfl

/-- Nobody who calls the node asks for a checkpoint either. -/
theorem act_calm {n n' : Node} {a : Action} (hn : n.Unasked) (hsync : n.wwt.shouldSync = true)
    (ha : a ≠ .finishInitiateCheckpoint) (h : n.act a = .ok n') : Calm n n' := by
  cases a with
  | wwtSend data =>
      obtain ⟨msg, hmsg, rfl⟩ := wwtSend_ok (callback_ok.mp h).2
      have htype : msg.type ≠ drainStart := by
        rw [(createMessage_ok hmsg).2.2.2]
        decide
      have hlogged : (n.logSend data).Unasked := hn.congr rfl
      exact ⟨hlogged.send htype, [msg], rfl, .one msg⟩
  | pollTimer =>
      cases (callback_ok.mp h).2
      exact .fields hn rfl rfl
  | canStop =>
      obtain ⟨r, hcall⟩ := act_canStop h
      exact ⟨unasked_frame.canStop (fun hn => hn.congr rfl) hcall hn, canStop_sendsFew hcall⟩
  | notifyNeighboursOfEnd =>
      have hcall := (callback_ok.mp h).2
      exact ⟨unasked_frame.notifyNeighboursOfEnd hcall hn, notifyNeighboursOfEnd_sendsFew hcall⟩
  | engineDestroy =>
      have hcall := (callback_ok.mp h).2
      exact ⟨pdesEngineDestroy_unasked hn hcall, pdesEngineDestroy_sendsFew hcall⟩
  | finishInitiateCheckpoint => exact absurd rfl ha
  | setup | advance | deliver | pauseBh | quantaSync | syncCheck | checkpointBh | pollReturn | pollMessage
  | commSend => exact (hn.act hsync rfl h).calm hn

/-- A message that asks for no checkpoint. -/
theorem processMessage_calm {n n' : Node} {msg : Message} (hn : n.Unasked) (htype : msg.type ≠ drainStart)
    (h : processMessage n msg = .ok n') : Calm n n' := by
  obtain ⟨n₁, hcallback, h⟩ := bind_eq_ok.mp h
  obtain ⟨hengine, _, hemits⟩ := wwtReciviedCallback_frame hcallback
  have hsending : n₁.sending = n.sending := by
    rw [hemits.sending, sentIn, List.filterMap_nil, List.append_nil]
  have hn₁ : n₁.Unasked := by
    refine hn.congr ?_
    rw [Node.asking, Node.inFlight, hengine, hsending, hemits.ring]
    rfl
  refine ⟨?_, ?_⟩
  · rcases unasked_frame.processControl h with ⟨hdrain, _⟩ | ⟨_, rfl⟩ | ⟨_, hn'⟩
    · exact absurd hdrain htype
    · rw [receiveCheckpointInitStep, if_neg fun harm => ?_]
      · exact hn₁.congr rfl
      · have hinit : n₁.engine.masterInit = true := harm.2.2
        rw [hn₁.masterInit] at hinit
        cases hinit
    · exact hn' hn₁
  · have hsends := processControl_sends h
    rw [hsending] at hsends
    rcases hsends with hsame | ⟨_, last, _, hsent⟩
    · exact .none hsame
    · exact ⟨[last], hsent, .one last⟩

/-! ### The two nodes -/

/-- Both nodes are unasked, and few messages wait to enter their rings. -/
structure UnaskedNodes (capacity : Option Nat) (s : System) : Prop where
  unasked : ∀ i, (s i).Unasked
  few : ∀ i, Few (s i).sending
  fits : ∀ i, ∀ c ∈ capacity, (s i).ring.length ≤ c

theorem unaskedNodes_created (cfg : Config) (capacity : Option Nat) :
    UnaskedNodes capacity cfg.created where
  unasked _ := ⟨rfl, rfl, rfl, fun _ hmem => absurd hmem List.not_mem_nil⟩
  few _ := .none
  fits _ _ _ := Nat.zero_le _

theorem act_ring {n n' : Node} {a : Action} (h : n.act a = .ok n') : n'.ring = n.ring := by
  cases act_exits h with
  | stays call hleaves htaken hdoes =>
      obtain ⟨evs, hemits, _⟩ := hdoes.emits
      exact hemits.ring
  | leaves call n₁ hleaves hcall hdoes =>
      obtain ⟨evs, hemits, _⟩ := hdoes.emits
      exact hemits.ring

theorem processMessage_ring {n n' : Node} {msg : Message} (h : processMessage n msg = .ok n') :
    n'.ring = n.ring := by
  cases hmsg : exitMsg msg.type with
  | none =>
      obtain ⟨evs, hemits, _⟩ := (processMessage_idle hmsg h).emits
      exact hemits.ring
  | some m =>
      obtain ⟨evs, hemits, _⟩ := (processMessage_does hmsg h).emits
      exact hemits.ring

theorem UnaskedNodes.step {capacity : Option Nat} {s s' : System} {ia : Side × Action}
    (hs : UnaskedNodes capacity s) (hsync : ∀ i, (s i).wwt.shouldSync = true)
    (h : step capacity s ia = .ok s') (hasked : ia.2 ≠ .finishInitiateCheckpoint) :
    UnaskedNodes capacity s' := by
  cases stepsTo_of_step h with
  | @commSend i msg rest hsending hroom =>
      have hfew := hs.few i
      rw [hsending] at hfew
      have hinFlight : ({ s i with sending := rest, ring := (s i).ring ++ [msg] } : Node).inFlight =
          (s i).inFlight := by
        rw [Node.inFlight, Node.inFlight, hsending, List.append_assoc]
        rfl
      refine ⟨Side.forall_of_self_peer i ?_ ?_, Side.forall_of_self_peer i ?_ ?_,
        Side.forall_of_self_peer i ?_ ?_⟩
      · rw [Function.update_self]
        refine (hs.unasked i).congr ?_
        rw [Node.asking, hinFlight]
        rfl
      · rw [Function.update_of_ne (Side.peer_ne i)]
        exact hs.unasked i.peer
      · rw [Function.update_self]
        exact hfew.tail
      · rw [Function.update_of_ne (Side.peer_ne i)]
        exact hs.few i.peer
      · rw [Function.update_self]
        intro c hc
        rw [List.length_append]
        exact hroom c hc
      · rw [Function.update_of_ne (Side.peer_ne i)]
        exact hs.fits i.peer
  | @receive i msg rest n' hidle hring hprocess =>
      have hpeer := hs.unasked i.peer
      have htype : msg.type ≠ drainStart := by
        apply hpeer.inFlight
        rw [Node.inFlight, hring]
        exact List.mem_append_left _ List.mem_cons_self
      have hcalm := processMessage_calm (hs.unasked i) htype hprocess
      refine ⟨Side.forall_of_self_peer i ?_ ?_, Side.forall_of_self_peer i ?_ ?_,
        Side.forall_of_self_peer i ?_ ?_⟩
      · rw [Function.update_self]
        exact hcalm.unasked
      · rw [Function.update_of_ne (Side.peer_ne i), Function.update_self]
        refine ⟨hpeer.needs, hpeer.masterInit, hpeer.bh, fun other hother => hpeer.inFlight other ?_⟩
        rw [Node.inFlight, hring]
        exact List.mem_cons_of_mem _ hother
      · rw [Function.update_self]
        exact hcalm.sends.few hidle.2
      · rw [Function.update_of_ne (Side.peer_ne i), Function.update_self]
        exact hs.few i.peer
      · rw [Function.update_self, processMessage_ring hprocess]
        exact hs.fits i
      · rw [Function.update_of_ne (Side.peer_ne i), Function.update_self]
        intro c hc
        have hlength := hs.fits i.peer c hc
        rw [hring, List.length_cons] at hlength
        exact Nat.le_of_succ_le hlength
  | @callback i a n' hidle _ hact =>
      have hcalm := act_calm (hs.unasked i) (hsync i) hasked hact
      refine ⟨Side.forall_of_self_peer i ?_ ?_, Side.forall_of_self_peer i ?_ ?_,
        Side.forall_of_self_peer i ?_ ?_⟩
      · rw [Function.update_self]
        exact hcalm.unasked
      · rw [Function.update_of_ne (Side.peer_ne i)]
        exact hs.unasked i.peer
      · rw [Function.update_self]
        exact hcalm.sends.few hidle.2
      · rw [Function.update_of_ne (Side.peer_ne i)]
        exact hs.few i.peer
      · rw [Function.update_self, act_ring hact]
        exact hs.fits i
      · rw [Function.update_of_ne (Side.peer_ne i)]
        exact hs.fits i.peer

/-- What holds of the two nodes in every state of such a run in which neither has left. -/
structure UnaskedPair (master : Side → Bool) (capacity : Option Nat) (q : Int) (s : System) : Prop where
  barrier : InBarrier s
  time : InTime q s
  sorted : ∀ i, (s i).receiveContexts.Pairwise (·.timer ≤ ·.timer)
  phase : ∀ i, (s i).InPhase
  pauses : ∀ i, (s i).Pauses
  nodes : UnaskedNodes capacity s
  agreement : InAgreement master s
  faultless : ∀ ia, ia.2.PacketFits → ∀ f, step capacity s ia ≠ .error (.fault f)

theorem pauses_step {capacity : Option Nat} {s s' : System} {ia : Side × Action}
    (hs : ∀ i, (s i).Pauses) (h : step capacity s ia = .ok s') : ∀ i, (s' i).Pauses := by
  obtain ⟨i, a⟩ := ia
  obtain ⟨⟨b, hself, _⟩, hpeer⟩ := nodeStep_of_step h
  refine Side.forall_of_self_peer i (nodeStep_pauses hself (hs i)) ?_
  rcases hpeer with hsame | htaken
  · rw [hsame]
    exact hs i.peer
  · exact nodeStep_pauses htaken (hs i.peer)

theorem reaches_unaskedNodes {cfg : Config} {capacity : Option Nat} (hsync : cfg.sync = true) {s : System}
    (hs : cfg.Reaches capacity UnaskedStep s) : UnaskedNodes capacity s := by
  refine hs.invariant (fun _ h => h ▸ unaskedNodes_created cfg capacity) ?_
  intro s ia s' hs hunasked hstep hguard
  have hbarrier := reaches_inBarrier hsync (fun _ _ _ h => h.1.2.2.1) hs
  exact hunasked.step (fun i => (hbarrier.inRound i).sync) hstep hguard.2.2

theorem reaches_unaskedPair {cfg : Config} {capacity : Option Nat} (hsync : cfg.sync = true)
    (hq : 0 < cfg.latencyns) (hroles : OneMaster cfg.master) {s : System}
    (hs : cfg.Reaches capacity UnaskedStep s) (hstays : ∀ i, (s i).exitCalled = false) :
    UnaskedPair cfg.master capacity cfg.latencyns s := by
  have hprompt : cfg.Reaches capacity PromptStep s := hs.mono (fun _ h => h) fun _ _ _ h => h.1
  have hbarrier := reaches_inBarrier hsync (fun _ _ _ h => h.1.2.2.1) hs
  have hcausal := reaches_causal hsync hq (fun _ _ _ h => h.1.timelyStep) hs
  have hdeliveries := reaches_deliveries hsync hq hprompt
  have hnodes := reaches_unaskedNodes hsync hs
  have hsettled := reaches_settled (fun _ _ _ h => h.2.1) hs
  refine ⟨hbarrier, reaches_inTime hsync hq (fun _ _ _ h => h.1.timelyStep) hs, fun i => ?_, fun i => ?_,
    ?_, hnodes, reaches_inAgreement hroles hs, ?_⟩
  · have hchannel := hbarrier.conserved i.peer
    rw [Side.peer_peer] at hchannel
    exact contexts_sorted (hcausal.stamps i.peer) (hdeliveries i) hchannel
  · exact (hsettled i).resolve_right (by rw [hstays i]; decide)
  · refine hs.invariant (P := fun s => ∀ i, (s i).Pauses) ?_ ?_
    · rintro _ rfl i
      exact ⟨hsync, rfl⟩
    · intro s ia s' _ hs hstep _
      exact pauses_step hs hstep
  · rintro ia hfits f hfault
    obtain ⟨_, _, _, hneeds, _⟩ :=
      reaches_passedRound hsync hq hroles (fun _ _ _ h => h.orderlyStep) hs hfits hfault
    rw [(hnodes.unasked ia.1).needs] at hneeds
    cases hneeds

end LeanPdes
