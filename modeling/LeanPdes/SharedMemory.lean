import LeanPdes.CheckpointCounts
import LeanPdes.Faults
import LeanPdes.RingStart

/-! The two nodes over their two rings in shared memory. A step is one access to a ring and what the
process does until its next access, so the calls of `pdes_comm_send` and `pdes_comm_recv` of the two
processes interleave. The nodes reach the same states as over FIFO queues of `RING_SIZE - 1` messages,
and fail the same asserts. -/

namespace LeanPdes

open TwoParty Reach FifoRing

/-- `comms i` is the ring that node `i` writes, with the call of `pdes_comm_send` of node `i` and the
call of `pdes_comm_recv` of the other node. `Node.ring` repeats what is unread in it: no step reads it. -/
structure MemorySystem where
  nodes : System
  comms : Side → Communicator

inductive MemoryAction
  /-- A callback, up to its sends and its poll. -/
  | act (a : Action)
  | send
  | sendTest
  | sendStore
  | sendPublish
  /-- The test for an empty ring, and the end of the poll where it is empty. -/
  | recvTest
  | recvCopy
  /-- The new read index is set, and the message goes to `process_message`. -/
  | recvPublish
  deriving DecidableEq

/-- An access to a ring that leaves the nodes as they are. -/
def MemorySystem.access (m : MemorySystem) (i : Side) (a : CommAction) : Except Halt MemorySystem := do
  let c ← commStep (m.comms i) a
  return { m with comms := Function.update m.comms i c }

def memoryStep (m : MemorySystem) : Side × MemoryAction → Except Halt MemorySystem
  | (i, .act a) =>
      if (m.nodes i).Idle ∧ a ≠ .pollReturn then do
        let n ← (m.nodes i).act a
        return { m with nodes := Function.update m.nodes i n }
      else .error .disabled
  | (i, .send) =>
      match (m.nodes i).sending with
      | [] => .error .disabled
      | msg :: _ => m.access i (.send msg)
  | (i, .sendTest) => m.access i .sendTest
  | (i, .sendStore) => m.access i .sendStore
  | (i, .sendPublish) => do
      let c ← commStep (m.comms i) .sendPublish
      let n := { m.nodes i with sending := (m.nodes i).sending.tail, ring := c.ring.unread }
      return ⟨Function.update m.nodes i n, Function.update m.comms i c⟩
  | (i, .recvTest) =>
      if (m.nodes i).Idle ∧ (m.nodes i).site.isSome then do
        let c ← commStep (m.comms i.peer) .recvTest
        if c.receiver = .returned noMessage then do
          let c ← commStep c .poll
          let n ← (m.nodes i).act .pollReturn
          return ⟨Function.update m.nodes i n, Function.update m.comms i.peer c⟩
        else return { m with comms := Function.update m.comms i.peer c }
      else .error .disabled
  | (i, .recvCopy) => m.access i.peer .recvCopy
  | (i, .recvPublish) =>
      match (m.nodes i).site with
      | none => .error .disabled
      | some site =>
          if (m.nodes i).Idle then do
            let c ← commStep (m.comms i.peer) .recvPublish
            let c ← commStep c .poll
            let n ← (pdesEnginePoll (m.nodes i) site c.msg).mapError Halt.fault
            let peer := { m.nodes i.peer with ring := c.ring.unread }
            return ⟨Function.update (Function.update m.nodes i.peer peer) i n,
              Function.update m.comms i.peer c⟩
          else .error .disabled

/-- The step of the two nodes over queues that the access completes. -/
def MemorySystem.completes (m : MemorySystem) : Side × MemoryAction → Option (Side × Action)
  | (i, .act a) => some (i, a)
  | (i, .sendPublish) => some (i, .commSend)
  | (i, .recvTest) =>
      if (m.comms i.peer).ring.readIdx = (m.comms i.peer).ring.writeIdx then some (i, .pollReturn) else none
  | (i, .recvPublish) => some (i, .pollMessage)
  | _ => none

/-- The nodes are created with empty rings, which may hold what an earlier run has left in the slots. -/
structure MemorySystem.Created (cfg : Config) (m : MemorySystem) : Prop where
  nodes : m.nodes = cfg.created
  comms : ∀ i, (m.comms i).Empty

/-- A guard on the steps of the two nodes, for the accesses that complete one. -/
def Completing (guard : System → Side × Action → System → Prop) (m : MemorySystem)
    (ia : Side × MemoryAction) (m' : MemorySystem) : Prop :=
  ∀ ib ∈ m.completes ia, guard m.nodes ib m'.nodes

abbrev Config.ReachesInMemory (cfg : Config) (guard : System → Side × Action → System → Prop) :
    MemorySystem → Prop :=
  Reachable memoryStep (Completing guard) (MemorySystem.Created cfg)

section

variable {c c' : Communicator} (h : c.Inv)
include h

omit h in
theorem commSend_ok {msg : Message} (hstep : commStep c (.send msg) = .ok c') :
    c.sender = .idle ∧ c'.ring = c.ring ∧ c'.sender.pending = [msg] ∧ c'.receiver = c.receiver := by
  rw [commStep, pdesCommSendStep] at hstep
  split at hstep
  · rename_i hsender
    cases hstep
    exact ⟨hsender, rfl, rfl, rfl⟩
  · cases hstep

/-- An access that neither sets an index nor begins a send. -/
theorem Communicator.Inv.quiet {a : CommAction}
    (ha : a = .sendTest ∨ a = .sendStore ∨ a = .recvTest ∨ a = .recvCopy)
    (hstep : commStep c a = .ok c') :
    c'.ring.unread = c.ring.unread ∧ c'.sender.pending = c.sender.pending := by
  rcases ha with rfl | rfl | rfl | rfl
  · rw [commStep, pdesCommSendStep] at hstep
    split at hstep
    · rename_i hsender
      split_ifs at hstep <;> cases hstep
      · exact ⟨rfl, rfl⟩
      · exact ⟨rfl, by rw [hsender]; rfl⟩
    · cases hstep
  · rw [commStep, pdesCommSendStep] at hstep
    split at hstep
    · rename_i hsender
      cases hstep
      exact ⟨h.valid.unread_store _, by rw [hsender]; rfl⟩
    · cases hstep
  · rw [commStep, pdesEnginePollStep] at hstep
    split at hstep
    · split_ifs at hstep <;> cases hstep <;> exact ⟨rfl, rfl⟩
    · cases hstep
  · rw [commStep, pdesEnginePollStep] at hstep
    split at hstep
    · cases hstep
      exact ⟨rfl, rfl⟩
    · cases hstep

omit h in
/-- `pdes_comm_recv` tells an empty ring by its indices. -/
theorem recvTest_ok (hstep : commStep c .recvTest = .ok c') : c.receiver = .idle ∧
    ((c.ring.readIdx = c.ring.writeIdx ∧ c' = { c with receiver := .returned noMessage }) ∨
      (c.ring.readIdx ≠ c.ring.writeIdx ∧ c' = { c with receiver := .copying })) := by
  rw [commStep, pdesEnginePollStep] at hstep
  split at hstep
  · rename_i hreceiver
    refine ⟨hreceiver, ?_⟩
    split_ifs at hstep with hempty
    · cases hstep
      exact Or.inl ⟨hempty, rfl⟩
    · cases hstep
      exact Or.inr ⟨hempty, rfl⟩
  · cases hstep

theorem Communicator.Inv.unread_sendPublish (hstep : commStep c .sendPublish = .ok c') :
    ∃ msg, c.sender.pending = [msg] ∧ c'.sender.pending = [] ∧
      c'.ring.unread = c.ring.unread ++ [msg] ∧ c.ring.unread.length < ringCapacity := by
  have hfits := h.sender
  rw [commStep, pdesCommSendStep] at hstep
  split at hstep
  · rename_i msg nextWrite hsender
    rw [hsender] at hfits
    obtain ⟨rfl, hroom, hstored⟩ := hfits
    cases hstep
    refine ⟨msg, by rw [hsender]; rfl, rfl, ?_, ?_⟩
    · rw [← hstored]
      exact h.valid.unread_publishWrite hroom
    · rw [length_unread, ringCapacity]
      omega
  · cases hstep

theorem Communicator.Inv.unread_recvPublish (hstep : commStep c .recvPublish = .ok c') :
    c.ring.unread = c.msg :: c'.ring.unread ∧ c'.msg = c.msg ∧ c'.sender = c.sender ∧
      c'.receiver = .returned (recvResult c.msg) := by
  have hfits := h.receiver
  rw [commStep, pdesEnginePollStep] at hstep
  split at hstep
  · rename_i hreceiver
    rw [hreceiver] at hfits
    obtain ⟨hused, hread⟩ := hfits
    cases hstep
    refine ⟨?_, rfl, rfl, rfl⟩
    rw [← hread]
    exact h.valid.unread_publishRead hused
  · cases hstep

theorem Communicator.Inv.unread_eq_nil : c.ring.unread = [] ↔ c.ring.readIdx = c.ring.writeIdx := by
  rw [← h.valid.used_eq_zero, ← length_unread, List.length_eq_zero_iff]

end

/-- `Node.ring` repeats the unread messages, and the message that `pdes_comm_send` is about to publish is
the next one to be sent. -/
structure Linked (n : Node) (c : Communicator) : Prop where
  comm : c.Inv
  ring : n.ring = c.ring.unread
  pending : c.sender.pending <+: n.sending

def MemorySystem.Inv (m : MemorySystem) : Prop := ∀ i, Linked (m.nodes i) (m.comms i)

theorem MemorySystem.Created.inv {cfg : Config} {m : MemorySystem} (h : m.Created cfg) : m.Inv := by
  intro i
  have hinv := (h.comms i).inv
  refine ⟨hinv, ?_, ?_⟩
  · rw [h.nodes, hinv.unread_eq_nil.mpr (h.comms i).empty]
    rfl
  · rw [(h.comms i).sender]
    exact List.nil_prefix

theorem Linked.quiet {n : Node} {c c' : Communicator} {a : CommAction} (h : Linked n c)
    (ha : a = .sendTest ∨ a = .sendStore ∨ a = .recvTest ∨ a = .recvCopy)
    (hstep : commStep c a = .ok c') : Linked n c' := by
  obtain ⟨hunread, hpending⟩ := h.comm.quiet ha hstep
  exact ⟨(h.comm.step hstep).inv, hunread ▸ h.ring, hpending ▸ h.pending⟩

theorem Linked.send {n : Node} {c c' : Communicator} {msg : Message} {rest : List Message}
    (h : Linked n c) (hsending : n.sending = msg :: rest) (hstep : commStep c (.send msg) = .ok c') :
    Linked n c' := by
  obtain ⟨_, hring, hpending, _⟩ := commSend_ok hstep
  refine ⟨(h.comm.step hstep).inv, hring ▸ h.ring, ?_⟩
  rw [hpending, hsending]
  exact ⟨rest, rfl⟩

/-- The message is published, and `pdes_comm_send` returns. -/
theorem Linked.sendPublish {n : Node} {c c' : Communicator} (h : Linked n c)
    (hstep : commStep c .sendPublish = .ok c') :
    ∃ msg rest, n.sending = msg :: rest ∧ n.ring.length < ringCapacity ∧
      c'.ring.unread = n.ring ++ [msg] ∧
      Linked { n with sending := rest, ring := c'.ring.unread } c' := by
  obtain ⟨msg, hpending, hdone, hunread, hroom⟩ := h.comm.unread_sendPublish hstep
  obtain ⟨rest, hsending⟩ := h.pending
  rw [hpending] at hsending
  refine ⟨msg, rest, hsending.symm, ?_, ?_, (h.comm.step hstep).inv, rfl, ?_⟩
  · rw [h.ring]
    exact hroom
  · rw [h.ring]
    exact hunread
  · rw [hdone]
    exact List.nil_prefix

/-- The message is taken, and `pdes_comm_recv` returns. -/
theorem Linked.recvPublish {n : Node} {c c' c'' : Communicator} (h : Linked n c)
    (hstep : commStep c .recvPublish = .ok c') (hpoll : commStep c' .poll = .ok c'') :
    n.ring = c''.msg :: c''.ring.unread ∧ Linked { n with ring := c''.ring.unread } c'' := by
  obtain ⟨hunread, hmsg, hsender, hreceiver⟩ := h.comm.unread_recvPublish hstep
  have hinv := ((h.comm.step hstep).inv.step hpoll).inv
  rw [commStep_poll, pdesEnginePollStep, hreceiver] at hpoll
  have hkeeps : c''.msg = c.msg ∧ c''.ring = c'.ring ∧ c''.sender = c.sender := by
    dsimp only at hpoll
    split_ifs at hpoll <;> cases hpoll <;> exact ⟨hmsg, rfl, hsender⟩
  obtain ⟨hmsg', hring, hsender'⟩ := hkeeps
  refine ⟨?_, hinv, rfl, ?_⟩
  · rw [h.ring, hmsg', hring]
    exact hunread
  · rw [hsender']
    exact h.pending

/-- The ring is empty, and the poll ends. -/
theorem Linked.recvNone {n : Node} {c c' : Communicator} (h : Linked n c)
    (hempty : c.ring.readIdx = c.ring.writeIdx)
    (hpoll : commStep { c with receiver := .returned noMessage } .poll = .ok c') :
    n.ring = [] ∧ Linked n c' := by
  rw [commStep_poll, pdesEnginePollStep] at hpoll
  dsimp only at hpoll
  rw [if_pos rfl] at hpoll
  cases hpoll
  exact ⟨h.ring.trans (h.comm.unread_eq_nil.mpr hempty),
    ⟨h.comm.valid, h.comm.sender, trivial, h.comm.pending⟩, h.ring, h.pending⟩

/-- A node that does not send leaves the rings alone. -/
theorem Linked.emits {n n' : Node} {c : Communicator} {evs : List Event} (h : Linked n c)
    (hidle : n.Idle) (he : Emits n n' evs) : Linked n' c := by
  refine ⟨h.comm, he.ring.trans h.ring, ?_⟩
  have hpending := h.pending
  rw [hidle.2, List.prefix_nil] at hpending
  rw [hpending]
  exact List.nil_prefix

theorem Linked.act {n n' : Node} {c : Communicator} {a : Action} (h : Linked n c) (hidle : n.Idle)
    (hact : n.act a = .ok n') : Linked n' c := by
  obtain ⟨evs, he, _⟩ := (act_books hact).emits
  exact h.emits hidle he

section

variable {m m' : MemorySystem} (h : m.Inv)
include h

/-- The accesses that leave the nodes as they are. -/
theorem MemorySystem.Inv.access {i : Side} {a : CommAction} (hstep : m.access i a = .ok m')
    (hlinked : ∀ c, commStep (m.comms i) a = .ok c → Linked (m.nodes i) c) :
    m'.Inv ∧ m'.nodes = m.nodes := by
  obtain ⟨c, hc, hm'⟩ := bind_eq_ok.mp hstep
  cases hm'
  refine ⟨Side.forall_of_self_peer i ?_ ?_, rfl⟩
  · dsimp only
    rw [Function.update_self]
    exact hlinked c hc
  · dsimp only
    rw [Function.update_of_ne (Side.peer_ne i)]
    exact h i.peer

theorem MemorySystem.Inv.act {i : Side} {a : Action} (hstep : memoryStep m (i, .act a) = .ok m') :
    m'.Inv ∧ step (some ringCapacity) m.nodes (i, a) = .ok m'.nodes := by
  rw [memoryStep] at hstep
  split_ifs at hstep with hidle
  obtain ⟨n, hact, hm'⟩ := bind_eq_ok.mp hstep
  cases hm'
  refine ⟨Side.forall_of_self_peer i ?_ ?_, ?_⟩
  · dsimp only
    rw [Function.update_self]
    exact (h i).act hidle.1 hact
  · dsimp only
    rw [Function.update_of_ne (Side.peer_ne i)]
    exact h i.peer
  · have hsend : a ≠ .commSend := by rintro rfl; cases hact
    have hpoll : a ≠ .pollMessage := by rintro rfl; cases hact
    rw [step_callback hsend hpoll, if_pos ⟨hidle.1, fun ha => absurd ha hidle.2⟩, hact]
    rfl

theorem MemorySystem.Inv.sendPublish {i : Side} (hstep : memoryStep m (i, .sendPublish) = .ok m') :
    m'.Inv ∧ step (some ringCapacity) m.nodes (i, .commSend) = .ok m'.nodes := by
  rw [memoryStep] at hstep
  obtain ⟨c, hc, hm'⟩ := bind_eq_ok.mp hstep
  cases hm'
  obtain ⟨msg, rest, hsending, hroom, hunread, hlinked⟩ := (h i).sendPublish hc
  refine ⟨Side.forall_of_self_peer i ?_ ?_, ?_⟩
  · dsimp only
    rw [Function.update_self, Function.update_self, hsending]
    exact hlinked
  · dsimp only
    rw [Function.update_of_ne (Side.peer_ne i), Function.update_of_ne (Side.peer_ne i)]
    exact h i.peer
  · have hroom' : HasRoom (some ringCapacity) (m.nodes i).ring := by
      rintro _ ⟨⟩
      exact hroom
    rw [step, hsending]
    dsimp only
    rw [if_pos hroom', hunread, List.tail_cons]

theorem MemorySystem.Inv.recvPublish {i : Side} (hstep : memoryStep m (i, .recvPublish) = .ok m') :
    m'.Inv ∧ step (some ringCapacity) m.nodes (i, .pollMessage) = .ok m'.nodes := by
  rw [memoryStep] at hstep
  split at hstep
  · cases hstep
  rename_i site hsite
  split_ifs at hstep with hidle
  obtain ⟨c, hc, hstep⟩ := bind_eq_ok.mp hstep
  obtain ⟨c', hc', hstep⟩ := bind_eq_ok.mp hstep
  obtain ⟨n, hprocess, hm'⟩ := bind_eq_ok.mp hstep
  cases hm'
  obtain ⟨hring, hlinked⟩ := (h i.peer).recvPublish hc hc'
  refine ⟨Side.forall_of_self_peer i ?_ ?_, ?_⟩
  · dsimp only
    rw [Function.update_self, Function.update_of_ne (Side.ne_peer i)]
    have hprocess' := mapError_eq_ok.mp hprocess
    rw [pdesEnginePoll_eq] at hprocess'
    obtain ⟨evs, he, _⟩ := (processMessage_books hprocess').emits
    exact ((h i).emits hidle (emits_logReceive _ _)).emits hidle he
  · dsimp only
    rw [Function.update_of_ne (Side.peer_ne i), Function.update_self, Function.update_self]
    exact hlinked
  · rw [step, hsite, hring]
    dsimp only
    rw [if_pos hidle, hprocess]
    rfl

/-- The test for an empty ring ends the poll, or nothing happens to the nodes. -/
theorem MemorySystem.Inv.recvTest {i : Side} (hstep : memoryStep m (i, .recvTest) = .ok m') :
    m'.Inv ∧ if (m.comms i.peer).ring.readIdx = (m.comms i.peer).ring.writeIdx
      then step (some ringCapacity) m.nodes (i, .pollReturn) = .ok m'.nodes
      else m'.nodes = m.nodes := by
  rw [memoryStep] at hstep
  split_ifs at hstep with hidle
  obtain ⟨c, hc, hstep⟩ := bind_eq_ok.mp hstep
  rcases (recvTest_ok hc).2 with ⟨hempty, rfl⟩ | ⟨hne, rfl⟩
  · rw [if_pos rfl] at hstep
    obtain ⟨c', hc', hstep⟩ := bind_eq_ok.mp hstep
    obtain ⟨n, hact, hm'⟩ := bind_eq_ok.mp hstep
    cases hm'
    obtain ⟨hring, hlinked⟩ := (h i.peer).recvNone hempty hc'
    refine ⟨Side.forall_of_self_peer i ?_ ?_, ?_⟩
    · dsimp only
      rw [Function.update_self, Function.update_of_ne (Side.ne_peer i)]
      exact (h i).act hidle.1 hact
    · dsimp only
      rw [Function.update_of_ne (Side.peer_ne i), Function.update_self]
      exact hlinked
    · rw [if_pos hempty, step_callback (by decide) (by decide), if_pos ⟨hidle.1, fun _ => hring⟩, hact]
      rfl
  · rw [if_neg (by simp)] at hstep
    cases hstep
    refine ⟨Side.forall_of_self_peer i ?_ ?_, ?_⟩
    · dsimp only
      rw [Function.update_of_ne (Side.ne_peer i)]
      exact h i
    · dsimp only
      rw [Function.update_self]
      exact (h i.peer).quiet (Or.inr (Or.inr (Or.inl rfl))) hc
    · rw [if_neg hne]

/-- An access completes a step of the nodes, or it leaves them as they are. -/
theorem MemorySystem.Inv.step {ia : Side × MemoryAction} (hstep : memoryStep m ia = .ok m') :
    m'.Inv ∧ match m.completes ia with
      | some ib => LeanPdes.step (some ringCapacity) m.nodes ib = .ok m'.nodes
      | none => m'.nodes = m.nodes := by
  obtain ⟨i, a⟩ := ia
  cases a with
  | act a => exact h.act hstep
  | send =>
      rw [memoryStep] at hstep
      split at hstep
      · cases hstep
      · rename_i msg rest hsending
        exact h.access hstep fun c hc => (h i).send hsending hc
  | sendTest => exact h.access hstep fun c hc => (h i).quiet (Or.inl rfl) hc
  | sendStore => exact h.access hstep fun c hc => (h i).quiet (Or.inr (Or.inl rfl)) hc
  | sendPublish => exact h.sendPublish hstep
  | recvTest =>
      obtain ⟨hinv, hnodes⟩ := h.recvTest hstep
      refine ⟨hinv, ?_⟩
      rw [MemorySystem.completes]
      split_ifs at hnodes ⊢
      · exact hnodes
      · exact hnodes
  | recvCopy => exact h.access hstep fun c hc => (h i.peer).quiet (Or.inr (Or.inr (Or.inr rfl))) hc
  | recvPublish => exact h.recvPublish hstep

end

variable {cfg : Config} {guard : System → Side × Action → System → Prop}

theorem reachesInMemory_inv {m : MemorySystem} (hm : cfg.ReachesInMemory guard m) : m.Inv :=
  hm.invariant (fun _ h => h.inv) fun _ _ _ _ h hstep _ => (h.step hstep).1

theorem reaches_of_memory {m : MemorySystem} (hm : cfg.ReachesInMemory guard m) :
    cfg.Reaches (some ringCapacity) guard m.nodes := by
  induction hm with
  | start h => exact .start h.nodes
  | @next m m' ia hm hstep hguard ih =>
      have hnodes := ((reachesInMemory_inv hm).step hstep).2
      cases hcompletes : m.completes ia with
      | none =>
          rw [hcompletes] at hnodes
          rwa [hnodes]
      | some ib =>
          rw [hcompletes] at hnodes
          exact .next ih hnodes (hguard ib hcompletes)

/-! ### Every run over queues is one over the rings -/

/-- No call of `pdes_comm_send` or `pdes_comm_recv` is in progress. -/
def MemorySystem.Quiescent (m : MemorySystem) : Prop :=
  ∀ i, (m.comms i).sender = .idle ∧ (m.comms i).receiver = .idle

/-- The system with another state of the ring that node `i` writes. -/
def MemorySystem.withComm (m : MemorySystem) (i : Side) (c : Communicator) : MemorySystem :=
  { m with comms := Function.update m.comms i c }

section

variable (m : MemorySystem) (i : Side) (c : Communicator)

@[simp] theorem MemorySystem.withComm_nodes : (m.withComm i c).nodes = m.nodes := rfl

@[simp] theorem MemorySystem.withComm_self : (m.withComm i c).comms i = c := Function.update_self ..

@[simp] theorem MemorySystem.withComm_peer : (m.withComm i c).comms i.peer = m.comms i.peer :=
  Function.update_of_ne (Side.peer_ne i) ..

@[simp] theorem MemorySystem.withComm_withComm (c' : Communicator) :
    (m.withComm i c).withComm i c' = m.withComm i c' :=
  congrArg (MemorySystem.mk m.nodes) (Function.update_idem ..)

end

theorem MemorySystem.access_ok {m : MemorySystem} {i : Side} {a : CommAction} {c : Communicator}
    (hstep : commStep (m.comms i) a = .ok c) : m.access i a = .ok (m.withComm i c) := by
  rw [MemorySystem.access, hstep]
  rfl

theorem MemorySystem.access_withComm {m : MemorySystem} {i : Side} {a : CommAction} {c c' : Communicator}
    (hstep : commStep c a = .ok c') : (m.withComm i c).access i a = .ok (m.withComm i c') := by
  rw [← MemorySystem.withComm_withComm m i c c']
  apply MemorySystem.access_ok
  rw [MemorySystem.withComm_self]
  exact hstep

/-- The access that completes a step of the nodes. -/
theorem reachesInMemory_completes {m m' : MemorySystem} {ia : Side × MemoryAction} {ib : Side × Action}
    {s : System} (hm : cfg.ReachesInMemory guard m) (hcompletes : m.completes ia = some ib)
    (hm' : memoryStep m ia = .ok m') (hstep : step (some ringCapacity) m.nodes ib = .ok s)
    (hguard : guard m.nodes ib s) : cfg.ReachesInMemory guard m' ∧ m'.nodes = s := by
  have hnodes := ((reachesInMemory_inv hm).step hm').2
  rw [hcompletes] at hnodes
  have hs : m'.nodes = s := Except.ok.inj (hnodes.symm.trans hstep)
  refine ⟨hm.next hm' fun ib' hib => ?_, hs⟩
  rw [hcompletes] at hib
  cases hib
  rwa [hs]

section

variable {m : MemorySystem} (hm : cfg.ReachesInMemory guard m) (hquiescent : m.Quiescent) {i : Side}
  {s : System}
include hm hquiescent

/-- A call of `pdes_comm_send` from its first access to its last. -/
theorem reachesInMemory_commSend (hstep : step (some ringCapacity) m.nodes (i, .commSend) = .ok s)
    (hguard : guard m.nodes (i, .commSend) s) :
    ∃ m', cfg.ReachesInMemory guard m' ∧ m'.Quiescent ∧ m'.nodes = s := by
  obtain ⟨msg, rest, hsending, hroom⟩ : ∃ msg rest, (m.nodes i).sending = msg :: rest ∧
      (m.nodes i).ring.length < ringCapacity := by
    rw [step] at hstep
    split at hstep
    · cases hstep
    · rename_i msg rest hsending
      split_ifs at hstep with hroom
      exact ⟨msg, rest, hsending, hroom _ rfl⟩
  have hlinked := reachesInMemory_inv hm i
  set c := m.comms i with hc
  have hfree : next ringSize c.ring.writeIdx ≠ c.ring.readIdx := by
    rw [hlinked.ring, length_unread, ringCapacity] at hroom
    rw [ne_eq, hlinked.comm.valid.full_iff]
    omega
  let c₁ : Communicator :=
    { c with sender := .testing msg (next ringSize c.ring.writeIdx), sent := c.sent ++ [msg] }
  let c₂ : Communicator := { c₁ with sender := .storing msg (next ringSize c.ring.writeIdx) }
  let c₃ : Communicator :=
    { c₁ with ring := c.ring.store msg, sender := .publishing msg (next ringSize c.ring.writeIdx) }
  let c₄ : Communicator :=
    { c₁ with ring := (c.ring.store msg).publishWrite (next ringSize c.ring.writeIdx), sender := .idle }
  have hsend : commStep c (.send msg) = .ok c₁ := by
    rw [commStep, pdesCommSendStep, (hquiescent i).1]
  have htest : commStep c₁ .sendTest = .ok c₂ := by
    rw [commStep, pdesCommSendStep]
    exact if_neg hfree
  have hm₁ : cfg.ReachesInMemory guard (m.withComm i c₁) := by
    refine hm.next (a := (i, .send)) ?_ (by rintro _ ⟨⟩)
    rw [memoryStep, hsending]
    exact MemorySystem.access_ok hsend
  have hm₂ : cfg.ReachesInMemory guard (m.withComm i c₂) :=
    hm₁.next (a := (i, .sendTest)) (MemorySystem.access_withComm htest) (by rintro _ ⟨⟩)
  have hm₃ : cfg.ReachesInMemory guard (m.withComm i c₃) :=
    hm₂.next (a := (i, .sendStore)) (MemorySystem.access_withComm rfl) (by rintro _ ⟨⟩)
  have hpublish : memoryStep (m.withComm i c₃) (i, .sendPublish) = .ok
      ⟨Function.update m.nodes i { m.nodes i with
        sending := (m.nodes i).sending.tail, ring := c₄.ring.unread },
        Function.update m.comms i c₄⟩ := by
    rw [memoryStep, MemorySystem.withComm_self]
    exact congrArg Except.ok (congrArg (MemorySystem.mk _) (Function.update_idem ..))
  obtain ⟨hreach, hnodes⟩ := reachesInMemory_completes hm₃ rfl hpublish hstep hguard
  refine ⟨_, hreach, Side.forall_of_self_peer i ?_ ?_, hnodes⟩
  · dsimp only
    rw [Function.update_self]
    exact ⟨rfl, (hquiescent i).2⟩
  · dsimp only
    rw [Function.update_of_ne (Side.peer_ne i)]
    exact hquiescent i.peer

/-- A call of `pdes_comm_recv` that finds a message. -/
theorem reachesInMemory_pollMessage (hstep : step (some ringCapacity) m.nodes (i, .pollMessage) = .ok s)
    (hguard : guard m.nodes (i, .pollMessage) s) :
    ∃ m', cfg.ReachesInMemory guard m' ∧ m'.Quiescent ∧ m'.nodes = s := by
  obtain ⟨site, msg, rest, n, hsite, hring, hidle, hprocess⟩ : ∃ site msg rest n,
      (m.nodes i).site = some site ∧ (m.nodes i.peer).ring = msg :: rest ∧ (m.nodes i).Idle ∧
      (pdesEnginePoll (m.nodes i) site msg).mapError Halt.fault = .ok n := by
    rw [step] at hstep
    split at hstep
    · rename_i site msg rest hsite hring
      split_ifs at hstep with hidle
      obtain ⟨n, hprocess, _⟩ := bind_eq_ok.mp hstep
      exact ⟨site, msg, rest, n, hsite, hring, hidle, hprocess⟩
    · cases hstep
  have hlinked := reachesInMemory_inv hm i.peer
  set c := m.comms i.peer with hc
  have hsome : c.ring.readIdx ≠ c.ring.writeIdx := by
    rw [ne_eq, ← hlinked.comm.unread_eq_nil, ← hlinked.ring, hring]
    exact List.cons_ne_nil _ _
  let c₁ : Communicator := { c with receiver := .copying }
  let c₂ : Communicator := { c with msg := c.ring.slots c.ring.readIdx, receiver := .publishing }
  let c₃ : Communicator :=
    { c₂ with
      ring := c.ring.publishRead (next ringSize c.ring.readIdx)
      receiver := .returned (recvResult c₂.msg) }
  have htest : commStep c .recvTest = .ok c₁ := by
    rw [commStep, pdesEnginePollStep, (hquiescent i.peer).2]
    exact if_neg hsome
  have hm₁ : cfg.ReachesInMemory guard (m.withComm i.peer c₁) := by
    refine hm.next (a := (i, .recvTest)) ?_ ?_
    · rw [memoryStep, if_pos ⟨hidle, by rw [hsite]; rfl⟩, ← hc, htest]
      rfl
    · intro ib hib
      rw [MemorySystem.completes, if_neg hsome] at hib
      cases hib
  have hm₂ : cfg.ReachesInMemory guard (m.withComm i.peer c₂) :=
    hm₁.next (a := (i, .recvCopy)) (MemorySystem.access_withComm rfl) (by rintro _ ⟨⟩)
  let c₄ : Communicator := { c₃ with receiver := .idle, handed := c.handed ++ [c₂.msg] }
  have hresult := recvResult_nonneg c₂.msg
  have hpoll : commStep c₃ .poll = .ok c₄ := by
    have hne : recvResult c₂.msg ≠ noMessage := by
      rw [noMessage]
      omega
    rw [commStep, pdesEnginePollStep]
    dsimp only [c₃]
    rw [if_neg hne, if_neg (not_lt.mpr hresult)]
  have hlinked₂ := reachesInMemory_inv hm₂ i.peer
  rw [MemorySystem.withComm_self] at hlinked₂
  have hpublished : commStep c₂ .recvPublish = .ok c₃ := rfl
  obtain ⟨hunread, _⟩ := hlinked₂.recvPublish hpublished hpoll
  have hmsg : c₄.msg = msg := by
    have hcons := hunread.symm.trans hring
    exact (List.cons.inj hcons).1
  have hpublish : memoryStep (m.withComm i.peer c₂) (i, .recvPublish) = .ok
      ⟨Function.update (Function.update m.nodes i.peer { m.nodes i.peer with ring := c₄.ring.unread }) i n,
        Function.update m.comms i.peer c₄⟩ := by
    have hprocessed : (pdesEnginePoll (m.nodes i) site c₄.msg).mapError Halt.fault = .ok n := by
      rw [hmsg, hprocess]
    rw [memoryStep, MemorySystem.withComm_nodes, hsite]
    dsimp only
    rw [if_pos hidle, MemorySystem.withComm_self, hpublished]
    refine bind_eq_ok.mpr ⟨c₃, rfl, bind_eq_ok.mpr ⟨c₄, hpoll, bind_eq_ok.mpr ⟨n, hprocessed, ?_⟩⟩⟩
    exact congrArg Except.ok (congrArg (MemorySystem.mk _) (Function.update_idem ..))
  obtain ⟨hreach, hnodes⟩ := reachesInMemory_completes hm₂ rfl hpublish hstep hguard
  refine ⟨_, hreach, Side.forall_of_self_peer i.peer ?_ ?_, hnodes⟩
  · dsimp only
    rw [Function.update_self]
    exact ⟨(hquiescent i.peer).1, rfl⟩
  · dsimp only
    rw [Function.update_of_ne (Side.peer_ne i.peer)]
    exact hquiescent i.peer.peer

/-- A call of `pdes_comm_recv` that finds no message. -/
theorem reachesInMemory_pollReturn (hstep : step (some ringCapacity) m.nodes (i, .pollReturn) = .ok s)
    (hguard : guard m.nodes (i, .pollReturn) s) :
    ∃ m', cfg.ReachesInMemory guard m' ∧ m'.Quiescent ∧ m'.nodes = s := by
  obtain ⟨n, hidle, hempty, hact⟩ : ∃ n, (m.nodes i).Idle ∧ (m.nodes i.peer).ring = [] ∧
      (m.nodes i).act .pollReturn = .ok n := by
    rw [step_callback (by decide) (by decide)] at hstep
    split_ifs at hstep with hidle
    obtain ⟨n, hact, _⟩ := bind_eq_ok.mp hstep
    exact ⟨n, hidle.1, hidle.2 rfl, hact⟩
  obtain ⟨site, hsite, _⟩ := act_pollReturn hact
  have hlinked := reachesInMemory_inv hm i.peer
  set c := m.comms i.peer with hc
  have hnone : c.ring.readIdx = c.ring.writeIdx := by
    rw [← hlinked.comm.unread_eq_nil, ← hlinked.ring, hempty]
  let c₁ : Communicator := { c with receiver := .returned noMessage }
  have htest : commStep c .recvTest = .ok c₁ := by
    rw [commStep, pdesEnginePollStep, (hquiescent i.peer).2]
    exact if_pos hnone
  have hpoll : commStep c₁ .poll = .ok { c with receiver := .idle } := by
    rw [commStep, pdesEnginePollStep]
    exact if_pos rfl
  have hreturn : memoryStep m (i, .recvTest) = .ok
      ⟨Function.update m.nodes i n, Function.update m.comms i.peer { c with receiver := .idle }⟩ := by
    rw [memoryStep, if_pos ⟨hidle, by rw [hsite]; rfl⟩]
    refine bind_eq_ok.mpr ⟨c₁, htest, ?_⟩
    rw [if_pos rfl]
    exact bind_eq_ok.mpr ⟨_, hpoll, bind_eq_ok.mpr ⟨n, hact, rfl⟩⟩
  have hcompletes : m.completes (i, .recvTest) = some (i, .pollReturn) := if_pos hnone
  obtain ⟨hreach, hnodes⟩ := reachesInMemory_completes hm hcompletes hreturn hstep hguard
  refine ⟨_, hreach, Side.forall_of_self_peer i.peer ?_ ?_, hnodes⟩
  · dsimp only
    rw [Function.update_self]
    exact ⟨(hquiescent i.peer).1, rfl⟩
  · dsimp only
    rw [Function.update_of_ne (Side.peer_ne i.peer)]
    exact hquiescent i.peer.peer

theorem reachesInMemory_step {ib : Side × Action} (hstep : step (some ringCapacity) m.nodes ib = .ok s)
    (hguard : guard m.nodes ib s) :
    ∃ m', cfg.ReachesInMemory guard m' ∧ m'.Quiescent ∧ m'.nodes = s := by
  obtain ⟨i, a⟩ := ib
  by_cases hsend : a = .commSend
  · subst hsend
    exact reachesInMemory_commSend hm hquiescent hstep hguard
  by_cases hmessage : a = .pollMessage
  · subst hmessage
    exact reachesInMemory_pollMessage hm hquiescent hstep hguard
  by_cases hreturn : a = .pollReturn
  · subst hreturn
    exact reachesInMemory_pollReturn hm hquiescent hstep hguard
  have hcallback := hstep
  rw [step_callback hsend hmessage] at hcallback
  split_ifs at hcallback with hidle
  obtain ⟨n, hact, _⟩ := bind_eq_ok.mp hcallback
  have hm' : memoryStep m (i, .act a) = .ok { m with nodes := Function.update m.nodes i n } := by
    rw [memoryStep, if_pos ⟨hidle.1, hreturn⟩, hact]
    rfl
  obtain ⟨hreach, hnodes⟩ := reachesInMemory_completes hm rfl hm' hstep hguard
  exact ⟨_, hreach, hquiescent, hnodes⟩

end

/-- The nodes before their first callback, with zeroed rings. -/
def Config.createdInMemory (cfg : Config) : MemorySystem where
  nodes := cfg.created
  comms _ :=
    { ring := { writeIdx := 0, readIdx := 0, slots := fun _ => endMessage }
      sender := .idle
      receiver := .idle
      msg := endMessage
      sent := []
      handed := [] }

theorem createdInMemory_created (cfg : Config) : cfg.createdInMemory.Created cfg := by
  have hsize : 0 < ringSize := by decide
  exact ⟨rfl, fun _ => ⟨⟨hsize, hsize⟩, rfl, rfl, rfl, rfl, rfl⟩⟩

theorem memory_of_reaches {s : System} (hs : cfg.Reaches (some ringCapacity) guard s) :
    ∃ m, cfg.ReachesInMemory guard m ∧ m.Quiescent ∧ m.nodes = s := by
  induction hs with
  | start h =>
      subst h
      exact ⟨_, .start (createdInMemory_created cfg), fun _ => ⟨rfl, rfl⟩, rfl⟩
  | next _ hstep hguard ih =>
      obtain ⟨m, hm, hquiescent, rfl⟩ := ih
      exact reachesInMemory_step hm hquiescent hstep hguard

theorem MemorySystem.access_fault {m : MemorySystem} {i : Side} {a : CommAction} {f : Fault} :
    m.access i a ≠ .error (.fault f) := by
  intro h
  rcases bind_eq_error.mp h with h | ⟨c, _, h⟩
  · cases commStep_disabled h
  · cases h

/-- An access fails an assert only where a step of the nodes fails it. -/
theorem MemorySystem.Inv.fault {m : MemorySystem} (h : m.Inv) {ia : Side × MemoryAction} {f : Fault}
    (hfault : memoryStep m ia = .error (.fault f)) :
    ∃ ib, m.completes ia = some ib ∧ LeanPdes.step (some ringCapacity) m.nodes ib = .error (.fault f) := by
  obtain ⟨i, a⟩ := ia
  cases a with
  | act a =>
      rw [memoryStep] at hfault
      split_ifs at hfault with hidle
      · have hact : (m.nodes i).act a = .error (.fault f) := by
          rcases bind_eq_error.mp hfault with h | ⟨n, _, h⟩
          · exact h
          · cases h
        have hsend : a ≠ .commSend := by rintro rfl; cases hact
        have hpoll : a ≠ .pollMessage := by rintro rfl; cases hact
        refine ⟨(i, a), rfl, ?_⟩
        rw [step_callback hsend hpoll, if_pos ⟨hidle.1, fun ha => absurd ha hidle.2⟩, hact]
        rfl
      · cases hfault
  | send =>
      rw [memoryStep] at hfault
      split at hfault
      · cases hfault
      · exact absurd hfault MemorySystem.access_fault
  | sendTest | sendStore | recvCopy => exact absurd hfault MemorySystem.access_fault
  | sendPublish =>
      rw [memoryStep] at hfault
      rcases bind_eq_error.mp hfault with h | ⟨c, _, h⟩
      · cases commStep_disabled h
      · cases h
  | recvTest =>
      rw [memoryStep] at hfault
      split_ifs at hfault with hidle
      swap
      · cases hfault
      rcases bind_eq_error.mp hfault with h | ⟨c, hc, hfault⟩
      · cases commStep_disabled h
      rcases (recvTest_ok hc).2 with ⟨hempty, rfl⟩ | ⟨_, rfl⟩
      · rw [if_pos rfl] at hfault
        rcases bind_eq_error.mp hfault with h | ⟨c', hc', hfault⟩
        · cases commStep_disabled h
        have hact : (m.nodes i).act .pollReturn = .error (.fault f) := by
          rcases bind_eq_error.mp hfault with h | ⟨n, _, h⟩
          · exact h
          · cases h
        obtain ⟨hring, _⟩ := (h i.peer).recvNone hempty hc'
        refine ⟨(i, .pollReturn), if_pos hempty, ?_⟩
        rw [step_callback (by decide) (by decide), if_pos ⟨hidle.1, fun _ => hring⟩, hact]
        rfl
      · rw [if_neg (by simp)] at hfault
        cases hfault
  | recvPublish =>
      rw [memoryStep] at hfault
      split at hfault
      · cases hfault
      rename_i site hsite
      split_ifs at hfault with hidle
      swap
      · cases hfault
      rcases bind_eq_error.mp hfault with h | ⟨c, hc, hfault⟩
      · cases commStep_disabled h
      rcases bind_eq_error.mp hfault with h | ⟨c', hc', hfault⟩
      · cases commStep_disabled h
      obtain ⟨hring, _⟩ := (h i.peer).recvPublish hc hc'
      refine ⟨(i, .pollMessage), rfl, ?_⟩
      rw [LeanPdes.step, hsite, hring]
      dsimp only
      rw [if_pos hidle]
      rcases bind_eq_error.mp hfault with h | ⟨n, _, h⟩
      · rw [h]
        rfl
      · cases h

/-- Over the rings in shared memory the nodes reach exactly the states that they reach over bounded
queues, whatever the interleaving of the accesses, and an access fails an assert only where the
step that it completes fails it over the queues. -/
theorem memory_refines_queues (cfg : Config) (guard : System → Side × Action → System → Prop) :
    (∀ s, cfg.Reaches (some ringCapacity) guard s ↔
      ∃ m, cfg.ReachesInMemory guard m ∧ m.nodes = s) ∧
    ∀ m, cfg.ReachesInMemory guard m → (∀ i, (m.nodes i).ring = (m.comms i).ring.unread) ∧
      ∀ ia f, memoryStep m ia = .error (.fault f) →
        ∃ ib, m.completes ia = some ib ∧ step (some ringCapacity) m.nodes ib = .error (.fault f) := by
  refine ⟨fun s => ⟨fun hs => ?_, ?_⟩, fun m hm => ⟨fun i => ?_, fun ia f hfault => ?_⟩⟩
  · obtain ⟨m, hm, _, hnodes⟩ := memory_of_reaches hs
    exact ⟨m, hm, hnodes⟩
  · rintro ⟨m, hm, rfl⟩
    exact reaches_of_memory hm
  · exact (reachesInMemory_inv hm i).ring
  · exact (reachesInMemory_inv hm).fault hfault

set_option maxRecDepth 100000 in
theorem memory_refines_queues_firstRound :
    ∃ m, twoNodes.ReachesInMemory (fun _ _ s' => RoundsFit s') m ∧
      (m.nodes .left).wwt.currentQuantumRound = 1 := by
  have hrun : (run (step (some ringCapacity)) (fun _ _ s' => RoundsFit s') twoNodes.created
      firstRound).map (fun s => (s .left).wwt.currentQuantumRound) = some 1 := by decide
  obtain ⟨s, hs, hround⟩ := Option.map_eq_some_iff.mp hrun
  have hreach := Config.Reaches.of_run hs
  obtain ⟨m, hm, rfl⟩ := ((memory_refines_queues _ _).1 s).mp hreach
  exact ⟨m, hm, hround⟩

end LeanPdes
