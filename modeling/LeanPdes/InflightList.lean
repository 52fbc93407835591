import LeanPdes.InflightJson
import LeanPdes.Moves

/-! The list of the packets in flight beside the timers of these packets. Only a restore touches both:
the calls that would add a received packet and remove a delivered one are commented out. -/

namespace LeanPdes

open Words Reach

/-- A node with its list of packets in flight. -/
structure InflightNode where
  node : Node
  pending : PendingMessages

inductive InflightAction
  /-- `wwt_recivied_callback` on a packet. -/
  | receive (msg : Message)
  /-- The timer of the `k`-th waiting packet fires. -/
  | deliver (k : Nat)
  /-- `pdes_inflight_restore_and_schedule` with a file of this content. -/
  | restore (content : List Char)
  /-- The virtual clock moves to `t`. -/
  | advance (t : Nat)
  deriving DecidableEq

inductive InflightHalt
  | disabled
  | fault (f : Fault)
  | load (f : LoadFault)
  deriving DecidableEq, Repr

/-- One round of the loop of `pdes_inflight_restore_and_schedule`: the packet gets a timer and an entry
of the list. -/
def restoreEntry (c : InflightNode) (entry : ScheduledMessage) : InflightNode where
  node := { c.node with
    receiveContexts := c.node.receiveContexts ++ [{
      msg := entry.msg
      timestampNs := entry.scheduledTimeNs
      timer := max entry.scheduledTimeNs 0 }] }
  pending := pdesInflightAdd c.pending entry

/-- `pdes_inflight_restore_and_schedule`. -/
def pdesInflightRestoreAndSchedule (c : InflightNode) (content : List Char) :
    Except LoadFault InflightNode := do
  let entries ← pdesInflightLoadJson content
  return entries.foldl restoreEntry c

def inflightStep (c : InflightNode) : InflightAction → Except InflightHalt InflightNode
  | .receive msg =>
      if msg.type = msgTypeNormal then do
        let n ← (wwtReciviedCallback c.node msg).mapError InflightHalt.fault
        return { c with node := n }
      else .error .disabled
  | .deliver k =>
      match c.node.receiveContexts[k]? with
      | none => .error .disabled
      | some ctx => do
          let n ← (processMessageAtVirtualTime
            { c.node with receiveContexts := c.node.receiveContexts.eraseIdx k } ctx).mapError
              InflightHalt.fault
          return { c with node := n }
  | .restore content => (pdesInflightRestoreAndSchedule c content).mapError InflightHalt.load
  | .advance t =>
      if c.node.virtualClock ≤ t ∧ t < 2 ^ 63 then
        .ok { c with node := { c.node with virtualClock := t } }
      else .error .disabled

/-- The list holds the packets whose timer is armed, each with its raw delivery time. -/
def InflightNode.Exact (c : InflightNode) : Prop :=
  (c.pending.messages.map fun e => (e.msg, e.scheduledTimeNs)).Perm
    (c.node.receiveContexts.map fun ctx => (ctx.msg, ctx.timestampNs))

theorem InflightNode.Exact.length {c : InflightNode} (h : c.Exact) :
    c.pending.messages.length = c.node.receiveContexts.length := by
  simpa using h.length_eq

theorem InflightNode.Exact.restoreEntry {c : InflightNode} (h : c.Exact) (entry : ScheduledMessage) :
    (restoreEntry c entry).Exact := by
  rw [Exact, LeanPdes.restoreEntry, pdesInflightAdd, List.map_cons, List.map_append, List.map_singleton]
  exact (h.cons _).trans (List.perm_append_singleton _ _).symm

theorem InflightNode.Exact.restore {c : InflightNode} (h : c.Exact)
    (entries : List ScheduledMessage) : (entries.foldl LeanPdes.restoreEntry c).Exact := by
  induction entries generalizing c with
  | nil => exact h
  | cons entry entries ih => exact ih (h.restoreEntry entry)

/-- No packet is received, and none is delivered. -/
def InflightAction.restoresOnly : InflightAction → Bool
  | .receive _ => false
  | .deliver _ => false
  | .restore _ => true
  | .advance _ => true

theorem processMessageAtVirtualTime_contexts {n n' : Node} {ctx : MessageReceiveContext}
    (h : processMessageAtVirtualTime n ctx = .ok n') : n'.receiveContexts = n.receiveContexts := by
  rw [processMessageAtVirtualTime] at h
  split_ifs at h
  cases h
  rfl

/-- A step keeps the list exact unless it receives or delivers a packet. -/
theorem inflightStep_exact_iff {c c' : InflightNode} {a : InflightAction} (h : c.Exact)
    (hstep : inflightStep c a = .ok c') : c'.Exact ↔ a.restoresOnly = true := by
  have hlength := h.length
  cases a with
  | receive msg =>
      simp only [inflightStep] at hstep
      split_ifs at hstep with htype
      obtain ⟨n, hn, hstep⟩ := bind_eq_ok.mp hstep
      cases hstep
      have hn := wwtReciviedCallback_packet htype (mapError_eq_ok.mp hn)
      have hcontexts : n.receiveContexts =
          c.node.receiveContexts ++ [receiveContext c.node msg (c.node.processingTime msg)] := by
        rw [hn]
        rfl
      refine iff_of_false (fun hexact => ?_) (by simp [InflightAction.restoresOnly])
      have hlength' : c.pending.messages.length = n.receiveContexts.length := hexact.length
      rw [hcontexts, List.length_append, List.length_singleton] at hlength'
      omega
  | deliver k =>
      simp only [inflightStep] at hstep
      split at hstep
      · cases hstep
      · rename_i ctx hctx
        obtain ⟨n, hn, hstep⟩ := bind_eq_ok.mp hstep
        cases hstep
        have hcontexts : n.receiveContexts = c.node.receiveContexts.eraseIdx k :=
          processMessageAtVirtualTime_contexts (mapError_eq_ok.mp hn)
        have hk : k < c.node.receiveContexts.length := (List.getElem?_eq_some_iff.mp hctx).1
        refine iff_of_false (fun hexact => ?_) (by simp [InflightAction.restoresOnly])
        have hlength' : c.pending.messages.length = n.receiveContexts.length := hexact.length
        rw [hcontexts, List.length_eraseIdx_of_lt hk] at hlength'
        omega
  | restore content =>
      obtain ⟨entries, _, hstep⟩ := bind_eq_ok.mp (mapError_eq_ok.mp hstep)
      cases hstep
      exact iff_of_true (h.restore entries) rfl
  | advance t =>
      simp only [inflightStep] at hstep
      split_ifs at hstep
      cases hstep
      have hexact : InflightNode.Exact { c with node := { c.node with virtualClock := t } } := h
      exact iff_of_true hexact rfl

/-- The states that the steps lead through. -/
def inflightStates : InflightNode → List InflightAction → List InflightNode
  | c, [] => [c]
  | c, a :: acts =>
      match inflightStep c a with
      | .error _ => [c]
      | .ok c' => c :: inflightStates c' acts

/-- The steps all succeed. -/
def Runs : InflightNode → List InflightAction → Prop
  | _, [] => True
  | c, a :: acts => ∃ c', inflightStep c a = .ok c' ∧ Runs c' acts

theorem inflightStates_self (c : InflightNode) (acts : List InflightAction) :
    c ∈ inflightStates c acts := by
  cases acts with
  | nil => exact List.mem_singleton_self c
  | cons a acts =>
      rw [inflightStates]
      split <;> simp

/-- The list is exact in every state of a run exactly when the run receives no packet and delivers
none. -/
theorem inflight_exact_iff {c : InflightNode} {acts : List InflightAction} (h : c.Exact)
    (hruns : Runs c acts) :
    (∀ c' ∈ inflightStates c acts, c'.Exact) ↔ ∀ a ∈ acts, a.restoresOnly = true := by
  induction acts generalizing c with
  | nil => simpa [inflightStates] using h
  | cons a acts ih =>
      obtain ⟨c₁, hstep, hrest⟩ := hruns
      rw [inflightStates, hstep, List.forall_mem_cons, List.forall_mem_cons,
        ← inflightStep_exact_iff h hstep]
      constructor
      · intro ⟨_, hall⟩
        have hexact : c₁.Exact := hall c₁ (inflightStates_self c₁ acts)
        exact ⟨hexact, (ih hexact hrest).mp hall⟩
      · intro ⟨hexact, hall⟩
        exact ⟨h, (ih hexact hrest).mpr hall⟩

/-- A node that has no packet in flight. -/
def inflightNode : InflightNode where
  node := pdesEngineWwtCreate true 1000 true 2 5
  pending := .empty

/-- A file with a packet of one byte and one of none. -/
def twoPackets : PendingMessages :=
  pdesInflightAdd (pdesInflightAdd .empty {
    msg := { Message.ofType msgTypeNormal with tsNs := 20, tsNs_lt := by decide }
    scheduledTimeNs := 20
    scheduledTimeNs_ge := by decide
    scheduledTimeNs_lt := by decide }) onePacketEntry

theorem inflightNode_exact : inflightNode.Exact := List.Perm.nil

theorem restore_twoPackets :
    inflightStep inflightNode (.restore (pdesInflightSaveJson twoPackets)) =
      .ok ((twoPackets.messages.map ScheduledMessage.loaded).foldl restoreEntry inflightNode) := by
  have hload := load_save twoPackets
  rw [if_pos (by decide)] at hload
  rw [inflightStep, pdesInflightRestoreAndSchedule, hload]
  rfl

theorem inflight_exact_iff_restore :
    Runs inflightNode [.restore (pdesInflightSaveJson twoPackets)] ∧
      ∀ c ∈ inflightStates inflightNode [.restore (pdesInflightSaveJson twoPackets)], c.Exact := by
  have hruns : Runs inflightNode [.restore (pdesInflightSaveJson twoPackets)] :=
    ⟨_, restore_twoPackets, trivial⟩
  refine ⟨hruns, (inflight_exact_iff inflightNode_exact hruns).mpr fun a ha => ?_⟩
  rw [List.mem_singleton.mp ha]
  rfl

/-- A received packet is not in the list, and a restored one is still there after its delivery. -/
theorem not_exact_of_packet :
    (¬∀ c ∈ inflightStates inflightNode [.receive onePacketMessage], c.Exact) ∧
      ¬∀ c ∈ inflightStates inflightNode
        [.restore (pdesInflightSaveJson twoPackets), .deliver 0], c.Exact := by
  constructor
  · intro hall
    have hreceived : ∃ c, inflightStep inflightNode (.receive onePacketMessage) = .ok c := ⟨_, rfl⟩
    obtain ⟨c, hstep⟩ := hreceived
    rw [inflightStates, hstep] at hall
    have hexact : c.Exact := hall c (by simp [inflightStates])
    exact absurd ((inflightStep_exact_iff inflightNode_exact hstep).mp hexact) (by decide)
  · intro hall
    have hrestored := inflightNode_exact.restore (twoPackets.messages.map ScheduledMessage.loaded)
    have hdelivered : ∃ c, inflightStep
        ((twoPackets.messages.map ScheduledMessage.loaded).foldl restoreEntry inflightNode)
        (.deliver 0) = .ok c := ⟨_, rfl⟩
    obtain ⟨c, hstep⟩ := hdelivered
    rw [inflightStates, restore_twoPackets] at hall
    simp only [inflightStates, hstep] at hall
    have hexact : c.Exact := hall c (by simp)
    exact absurd ((inflightStep_exact_iff hrestored hstep).mp hexact) (by decide)

end LeanPdes
