import LeanPdes.Faultless
import LeanPdes.Startup

/-! No assert fails when the quanta are not synchronised. The asserts about times and rounds stand behind
`should_sync` then, and what is left are those of the exit handshake and of the node's own timers. -/

namespace LeanPdes

open Words TwoParty Reach

theorem act_shouldSync {n n' : Node} {a : Action} (h : n.act a = .ok n') :
    n'.wwt.shouldSync = n.wwt.shouldSync := by
  cases act_startupMove h with
  | setup | advance | wwtSend | deliver => rfl
  | steady _ _ _ h => exact congrArg (fun timing => timing.2.2.2.1) h.timing

theorem processMessage_shouldSync {n n' : Node} {msg : Message} (h : processMessage n msg = .ok n') :
    n'.wwt.shouldSync = n.wwt.shouldSync := by
  by_cases htype : msg.type = msgTypeNormal
  · obtain ⟨n₁, hcallback, h⟩ := bind_eq_ok.mp h
    rw [processControl_of_data (Or.inr htype) h, wwtReciviedCallback_packet htype hcallback]
    rfl
  · have hsteady := steady_frame.processMessage htype h
    exact congrArg (fun timing => timing.2.2.2.1) hsteady.timing

theorem reaches_shouldSync {cfg : Config} {capacity : Option Nat}
    {guard : System → Side × Action → System → Prop} {s : System} (hs : cfg.Reaches capacity guard s) :
    ∀ i, (s i).wwt.shouldSync = cfg.sync := by
  refine hs.invariant (P := fun s => ∀ i, (s i).wwt.shouldSync = cfg.sync) ?_ ?_
  · rintro _ rfl i
    rfl
  · rintro s ⟨i, a⟩ s' _ hsync hstep _
    cases stepsTo_of_step hstep with
    | commSend =>
        refine Side.forall_of_self_peer i ?_ ?_
        · rw [Function.update_self]
          exact hsync i
        · rw [Function.update_of_ne (Side.peer_ne i)]
          exact hsync i.peer
    | receive _ _ hprocess =>
        refine Side.forall_of_self_peer i ?_ ?_
        · rw [Function.update_self]
          exact (processMessage_shouldSync hprocess).trans (hsync i)
        · rw [Function.update_of_ne (Side.peer_ne i), Function.update_self]
          exact hsync i.peer
    | callback _ _ hact =>
        refine Side.forall_of_self_peer i ?_ ?_
        · rw [Function.update_self]
          exact (act_shouldSync hact).trans (hsync i)
        · rw [Function.update_of_ne (Side.peer_ne i)]
          exact hsync i.peer

section

variable {n : Node} (hsync : n.wwt.shouldSync = false)
include hsync

/-- No time and no round is checked. -/
theorem wwtReciviedCallback_unsynced (msg : Message) : Fails callFaults (wwtReciviedCallback n msg) := by
  rw [wwtReciviedCallback]
  refine (getUniversalVirtualTime_calls n).bind fun t _ => ?_
  simp only [hsync, Bool.false_eq_true, false_and, if_false]
  split_ifs
  all_goals exact .ok _

theorem processMessage_fault_unsynced {msg : Message} {f : Fault} (h : processMessage n msg = .error f)
    (hf : f ∈ protocolFaults) : msg.type = endOfEmulation ∧ n.engine.permittedToExit = false := by
  rcases bind_eq_error.mp h with h | ⟨n₁, hn₁, h⟩
  · have hcall := wwtReciviedCallback_unsynced (n := n.logReceive msg) hsync msg f h
    exact absurd hf (not_protocolFault hcall)
  · obtain ⟨htype, hpermitted, _⟩ := processControl_fault h hf
    rw [(wwtReciviedCallback_frame hn₁).1] at hpermitted
    exact ⟨htype, hpermitted⟩

/-- Any round is the one to save in. -/
theorem syncCheckpointCheck_unsynced : Fails callFaults (syncCheckpointCheck n) := by
  rw [syncCheckpointCheck]
  split
  · refine Fails.bind ?_ fun n₁ hn₁ => ?_
    · split
      · exact (notifyNeighborsForDrain_calls _ _ _).map
      · exact .ok _
    · have hsame : n₁.wwt.shouldSync = false := by
        have hwwt : n₁.wwt = n.wwt := by
          rcases drain_cases hn₁ with ⟨_, r, hdrain⟩ | ⟨_, rfl⟩
          · exact (notifyNeighborsForDrain_request hdrain).2
          · rfl
        rw [hwwt, hsync]
      simp only [hsame, Bool.false_eq_true, and_false, if_false, Bool.not_false, or_true, if_true]
      exact .ok _
  · exact .ok _

theorem pollReturn_fault_unsynced {site : PollSite} {f : Fault} (h : pollReturn n site = .error f)
    (hf : f ∈ protocolFaults) :
    n.engine.pairHasFinished = true ∧ n.engine.permittedToExit = false := by
  cases site with
  | timer => cases h
  | quantaSync =>
      rcases quantaSyncFinish_fault h with hcall | ⟨rfl, _⟩
      · exact absurd hf (not_protocolFault hcall)
      · exact absurd hf (by decide)
  | isWaiting =>
      rw [pollReturn] at h
      split_ifs at h
      rw [wwtSyncCheckFinish] at h
      rcases bind_eq_error.mp h with h | ⟨⟨held, n₁⟩, _, h⟩
      · exact absurd hf (not_protocolFault (syncCheckpointCheck_unsynced (n := { n with
          engine.skipBoundryCheckAfterCheckpoint := false, site := none }) hsync f h))
      · dsimp only at h
        split at h
        · cases h
        · rcases bind_eq_error.mp h with h | ⟨n₂, _, h⟩
          · exact absurd hf ((wwtSyncCheckMaster_calls _).quiet f h)
          · cases h
  | waitLoop =>
      rw [pollReturn] at h
      split_ifs at h with hfinished hpermitted
      · exact ⟨hfinished, by simpa using hpermitted⟩
      · exact absurd hf ((pdesEngineDestroy_calls _).quiet f h)

end

/-- The packets fit, and bottom halves come in their order. -/
def CarefulStep (s : System) (ia : Side × Action) (_ : System) : Prop :=
  ia.2.PacketFits ∧ Disciplined s ia

instance (s : System) (ia : Side × Action) (s' : System) : Decidable (CarefulStep s ia s') :=
  inferInstanceAs (Decidable (_ ∧ _))

/-- With sync off no step of a run ends the process either, at any rounds and any times, where the packets
fit, bottom halves come before `sync_check_timer`, and nobody leaves with a request for a checkpoint
pending. -/
theorem unsynced_faultless {cfg : Config} {capacity : Option Nat} (hsync : cfg.sync = false)
    (hroles : OneMaster cfg.master) {s : System} (hs : cfg.Reaches capacity CarefulStep s) :
    ∀ ia, ia.2.PacketFits → ∀ f, step capacity s ia ≠ .error (.fault f) := by
  rintro ⟨i, a⟩ hfits f hfault
  have hoff : (s i).wwt.shouldSync = false := (reaches_shouldSync hs i).trans hsync
  have hagree := reaches_inAgreement hroles hs
  have hprotocol := reaches_protocolFault (fun _ _ _ h => h) hs hfits hfault
  rcases step_fault_cases hfault with ⟨rfl, msg, rest, hring, hprocess⟩ | hact
  · obtain ⟨htype, hpermitted⟩ := processMessage_fault_unsynced hoff hprocess hprotocol
    rw [hagree.permitted_of_end hroles hring htype] at hpermitted
    cases hpermitted
  · obtain ⟨_, site, _, hreturn⟩ := act_fault_pollReturn hact hprotocol
    obtain ⟨hfinished, hpermitted⟩ := pollReturn_fault_unsynced hoff hreturn hprotocol
    rw [(hagree.finished hroles hfinished).1] at hpermitted
    cases hpermitted

def unsyncedNodes : Config := { twoNodes with sync := false }

/-- The clock of the right node has passed the time of the left one's packet. -/
def overdueRun : List (Side × Action) :=
  [(.left, .setup), (.right, .setup), (.left, .wwtSend [7]), (.left, .commSend), (.right, .advance 5000),
    (.right, .pollTimer)]

theorem unsynced_faultless_overdueRun :
    ∃ s : System, (s .left).ring.map (fun msg => decide (int64 msg.tsNs < (s .right).universalTime)) =
        [true] ∧
      ∀ f, step (some ringCapacity) s (.right, .pollMessage) ≠ .error (.fault f) := by
  have hrun : (run (step (some ringCapacity)) CarefulStep unsyncedNodes.created overdueRun).map
      (fun s => (s .left).ring.map fun msg => decide (int64 msg.tsNs < (s .right).universalTime)) =
      some [true] := by decide
  obtain ⟨s, hs, hoverdue⟩ := Option.map_eq_some_iff.mp hrun
  refine ⟨s, hoverdue, ?_⟩
  exact unsynced_faultless rfl (fun i => by cases i <;> rfl) (Config.Reaches.of_run hs) _ trivial

end LeanPdes
