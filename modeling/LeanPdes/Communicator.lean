import LeanPdes.FifoRing
import LeanPdes.Rounds

/-! The shared-memory ring with one process that sends and one that polls. A call is cut at each of
its accesses to the ring, and the accesses of the two processes interleave. Seen from outside, the
ring is a bounded FIFO queue, as the model of the two nodes takes it to be. -/

namespace LeanPdes

open TwoParty Reach FifoRing

/-- `RING_SIZE` divides `2 ^ 32`, so the unsigned indices count modulo `RING_SIZE`. -/
abbrev ShmRing := Ring Message ringSize

/-- Where a call of `pdes_comm_send` stands, with its message and its `next_write`. -/
inductive SendPc
  | idle
  /-- before the test of the full ring -/
  | testing (msg : Message) (nextWrite : Nat)
  /-- before the copy into the slot -/
  | storing (msg : Message) (nextWrite : Nat)
  /-- before the new write index is set -/
  | publishing (msg : Message) (nextWrite : Nat)
  deriving DecidableEq

/-- Where a call of `pdes_comm_recv` in `pdes_engine_poll` stands. -/
inductive RecvPc
  | idle
  /-- before the copy out of the slot -/
  | copying
  /-- before the new read index is set -/
  | publishing
  | returned (res : Int)
  deriving DecidableEq

/-- The ring and both processes. `msg` is the local message of `pdes_engine_poll`; `sent` and
`handed` hold the messages of the calls of `pdes_comm_send` and of `process_message`. -/
structure Communicator where
  ring : ShmRing
  sender : SendPc
  receiver : RecvPc
  msg : Message
  sent : List Message
  handed : List Message

/-- A message without data. -/
def endMessage : Message := .ofType endOfEmulation

/-- One access of a process. -/
inductive CommAction
  /-- `pdes_comm_send` is called and reads `write_idx`. -/
  | send (msg : Message)
  /-- The test of the full ring, once or in the wait loop. -/
  | sendTest
  | sendStore
  | sendPublish
  /-- `pdes_comm_recv` is called and tests for an empty ring. -/
  | recvTest
  | recvCopy
  | recvPublish
  /-- `pdes_engine_poll` looks at the return value. -/
  | poll
  deriving DecidableEq

/-- One access of the sender. -/
def pdesCommSendStep (c : Communicator) : CommAction → Except Halt Communicator
  | .send msg =>
      match c.sender with
      | .idle => .ok { c with
          sender := .testing msg (next ringSize c.ring.writeIdx)
          sent := c.sent ++ [msg] }
      | _ => .error .disabled
  | .sendTest =>
      match c.sender with
      | .testing msg nextWrite =>
          if nextWrite = c.ring.readIdx then .ok c
          else .ok { c with sender := .storing msg nextWrite }
      | _ => .error .disabled
  | .sendStore =>
      match c.sender with
      | .storing msg nextWrite =>
          .ok { c with ring := c.ring.store msg, sender := .publishing msg nextWrite }
      | _ => .error .disabled
  | .sendPublish =>
      match c.sender with
      | .publishing _ nextWrite =>
          .ok { c with ring := c.ring.publishWrite nextWrite, sender := .idle }
      | _ => .error .disabled
  | _ => .error .disabled

/-- One access of the receiver. -/
def pdesEnginePollStep (c : Communicator) : CommAction → Except Halt Communicator
  | .recvTest =>
      match c.receiver with
      | .idle =>
          if c.ring.readIdx = c.ring.writeIdx then .ok { c with receiver := .returned noMessage }
          else .ok { c with receiver := .copying }
      | _ => .error .disabled
  | .recvCopy =>
      match c.receiver with
      | .copying => .ok { c with msg := c.ring.slots c.ring.readIdx, receiver := .publishing }
      | _ => .error .disabled
  | .recvPublish =>
      match c.receiver with
      | .publishing => .ok { c with
          ring := c.ring.publishRead (next ringSize c.ring.readIdx)
          receiver := .returned (recvResult c.msg) }
      | _ => .error .disabled
  | .poll =>
      match c.receiver with
      | .returned res =>
          if res = noMessage then .ok { c with receiver := .idle }
          else if res < 0 then .ok { c with receiver := .idle }
          else .ok { c with receiver := .idle, handed := c.handed ++ [c.msg] }
      | _ => .error .disabled
  | _ => .error .disabled

def commStep (c : Communicator) (a : CommAction) : Except Halt Communicator :=
  match a with
  | .send _ | .sendTest | .sendStore | .sendPublish => pdesCommSendStep c a
  | .recvTest | .recvCopy | .recvPublish | .poll => pdesEnginePollStep c a

theorem commStep_poll (c : Communicator) : commStep c .poll = pdesEnginePollStep c .poll := rfl

/-- No call is in progress, and the ring is empty: it may be left from another run. -/
structure Communicator.Empty (c : Communicator) : Prop where
  valid : c.ring.Valid
  empty : c.ring.readIdx = c.ring.writeIdx
  sender : c.sender = .idle
  receiver : c.receiver = .idle
  sent : c.sent = []
  handed : c.handed = []

/-- The message that the call of `pdes_comm_send` in progress has not published. -/
def SendPc.pending : SendPc → List Message
  | .idle => []
  | .testing msg _ => [msg]
  | .storing msg _ => [msg]
  | .publishing msg _ => [msg]

/-- The message that `pdes_engine_poll` has taken from the ring and not handed on. -/
def RecvPc.held (msg : Message) : RecvPc → List Message
  | .returned res => if res = noMessage then [] else [msg]
  | _ => []

/-- No message is lost by its length: `pdes_comm_recv` returns `NO_MESSAGE` for none. -/
theorem held_returned (msg : Message) : (RecvPc.returned (recvResult msg)).held msg = [msg] := by
  have hresult := recvResult_nonneg msg
  have hne : recvResult msg ≠ noMessage := by
    unfold noMessage
    omega
  rw [RecvPc.held, if_neg hne]

/-- What the sender's progress says about the ring. The receiver can only make more room. -/
def SendPc.Fits (ring : ShmRing) : SendPc → Prop
  | .idle => True
  | .testing _ nextWrite => nextWrite = next ringSize ring.writeIdx
  | .storing _ nextWrite => nextWrite = next ringSize ring.writeIdx ∧ ring.used + 1 < ringSize
  | .publishing msg nextWrite => nextWrite = next ringSize ring.writeIdx ∧
      ring.used + 1 < ringSize ∧ ring.slots ring.writeIdx = msg

/-- What the receiver's progress says about the ring. The sender can only add messages. -/
def RecvPc.Fits (ring : ShmRing) (msg : Message) : RecvPc → Prop
  | .idle => True
  | .copying => 0 < ring.used
  | .publishing => 0 < ring.used ∧ ring.slots ring.readIdx = msg
  | .returned res => res = noMessage ∨ res = recvResult msg

theorem RecvPc.Fits.store {ring : ShmRing} {msg : Message} {pc : RecvPc} (h : pc.Fits ring msg)
    (hvalid : ring.Valid) (new : Message) : pc.Fits (ring.store new) msg := by
  cases pc with
  | publishing =>
      obtain ⟨hused, hread⟩ := h
      have hne : ring.readIdx ≠ ring.writeIdx := by
        have hslot := hvalid.slot_ne_writeIdx hused
        rwa [hvalid.slot_zero] at hslot
      refine ⟨hused, ?_⟩
      rw [← hread]
      exact Function.update_of_ne hne new ring.slots
  | _ => exact h

theorem RecvPc.Fits.publishWrite {ring : ShmRing} {msg : Message} {pc : RecvPc}
    (h : pc.Fits ring msg) (hvalid : ring.Valid) (hroom : ring.used + 1 < ringSize) :
    pc.Fits (ring.publishWrite (next ringSize ring.writeIdx)) msg := by
  have hused := hvalid.used_publishWrite hroom
  cases pc with
  | copying =>
      unfold RecvPc.Fits
      omega
  | publishing => exact ⟨by omega, h.2⟩
  | _ => exact h

theorem SendPc.Fits.publishRead {ring : ShmRing} {pc : SendPc} (h : pc.Fits ring)
    (hvalid : ring.Valid) (hread : 0 < ring.used) :
    pc.Fits (ring.publishRead (next ringSize ring.readIdx)) := by
  have hused := hvalid.used_publishRead hread
  cases pc with
  | storing new nextWrite => exact ⟨h.1, by have hroom := h.2; omega⟩
  | publishing new nextWrite => exact ⟨h.1, by have hroom := h.2.1; omega, h.2.2⟩
  | _ => exact h

structure Communicator.Inv (c : Communicator) : Prop where
  valid : c.ring.Valid
  sender : c.sender.Fits c.ring
  receiver : c.receiver.Fits c.ring c.msg
  pending : c.sender.pending <:+ c.sent

/-- The messages whose write index is published. -/
def Communicator.published (c : Communicator) : List Message :=
  c.sent.take (c.sent.length - c.sender.pending.length)

/-- The queue that the ring implements. -/
def Communicator.fifo (c : Communicator) : Fifo Message where
  accepted := c.published
  queue := c.ring.unread
  delivered := c.handed ++ c.receiver.held c.msg

theorem published_eq {c : Communicator} {l : List Message} (h : c.sent = l ++ c.sender.pending) :
    c.published = l := by
  unfold Communicator.published
  rw [h, List.length_append, Nat.add_sub_cancel]
  exact List.take_left

theorem Communicator.Inv.sent_eq {c : Communicator} (h : c.Inv) :
    c.sent = c.published ++ c.sender.pending := by
  obtain ⟨l, hl⟩ := h.pending
  rw [published_eq hl.symm, hl]

theorem Communicator.Empty.inv {c : Communicator} (h : c.Empty) : c.Inv where
  valid := h.valid
  sender := by
    rw [h.sender]
    trivial
  receiver := by
    rw [h.receiver]
    trivial
  pending := by
    rw [h.sender]
    exact List.nil_suffix

theorem Communicator.Empty.fifo {c : Communicator} (h : c.Empty) : c.fifo = Fifo.empty := by
  have hused : c.ring.used = 0 := h.valid.used_eq_zero.mpr h.empty
  ext1
  · exact published_eq (l := []) (by rw [h.sent, h.sender]; rfl)
  · unfold Communicator.fifo Ring.unread
    rw [hused]
    rfl
  · unfold Communicator.fifo
    rw [h.handed, h.receiver]
    rfl

/-- The steps of a ring's queue. -/
abbrev QueueStep : Fifo Message → Fifo Message → Prop := Fifo.Step (ringSize - 1)

/-- An access keeps the invariant and is, for the queue, a step or nothing. -/
structure Communicator.Refines (c c' : Communicator) : Prop where
  inv : c'.Inv
  queue : Relation.ReflTransGen QueueStep c.fifo c'.fifo

theorem Communicator.Refines.stutter {c c' : Communicator} (hinv : c'.Inv)
    (hpublished : c'.published = c.published) (hqueue : c'.ring.unread = c.ring.unread)
    (hdelivered : c'.handed ++ c'.receiver.held c'.msg = c.handed ++ c.receiver.held c.msg) :
    c.Refines c' := by
  refine ⟨hinv, ?_⟩
  have hfifo : c'.fifo = c.fifo := by
    ext1
    · exact hpublished
    · exact hqueue
    · exact hdelivered
  rw [hfifo]

/-- The accesses of the sender. The message enters the queue when the write index is published. -/
theorem Communicator.Inv.send {c c' : Communicator} {a : CommAction} (h : c.Inv)
    (hstep : pdesCommSendStep c a = .ok c') : c.Refines c' := by
  have hsent := h.sent_eq
  have hpending := h.pending
  have hfits := h.sender
  cases a with
  | send new =>
      simp only [pdesCommSendStep] at hstep
      split at hstep
      · rename_i hsender
        cases hstep
        rw [hsender] at hsent
        refine .stutter ⟨h.valid, rfl, h.receiver, List.suffix_append c.sent [new]⟩ ?_ rfl rfl
        exact published_eq (congrArg (· ++ [new]) (hsent.trans (List.append_nil _)))
      · cases hstep
  | sendTest =>
      simp only [pdesCommSendStep] at hstep
      split at hstep
      · rename_i new nextWrite hsender
        rw [hsender] at hfits hpending
        have hnext : nextWrite = next ringSize c.ring.writeIdx := hfits
        split_ifs at hstep with hfull
        · cases hstep
          exact ⟨h, .refl⟩
        · cases hstep
          have hroom : c.ring.used + 1 < ringSize := by
            apply lt_of_le_of_ne h.valid.used_lt
            rw [hnext] at hfull
            exact fun heq => hfull (h.valid.full_iff.mpr heq)
          refine .stutter ⟨h.valid, ⟨hnext, hroom⟩, h.receiver, hpending⟩ ?_ rfl rfl
          unfold Communicator.published
          rw [hsender]
          rfl
      · cases hstep
  | sendStore =>
      simp only [pdesCommSendStep] at hstep
      split at hstep
      · rename_i new nextWrite hsender
        rw [hsender] at hfits hpending
        cases hstep
        have hstored : (c.ring.store new).slots c.ring.writeIdx = new := Function.update_self ..
        refine .stutter ⟨h.valid.store new, ⟨hfits.1, hfits.2, hstored⟩,
          h.receiver.store h.valid new, hpending⟩ ?_ (h.valid.unread_store new) rfl
        unfold Communicator.published
        rw [hsender]
        rfl
      · cases hstep
  | sendPublish =>
      simp only [pdesCommSendStep] at hstep
      split at hstep
      · rename_i new nextWrite hsender
        rw [hsender] at hfits hsent
        obtain ⟨rfl, hroom, hstored⟩ := hfits
        cases hstep
        refine ⟨⟨h.valid.publishWrite, trivial, h.receiver.publishWrite h.valid hroom,
          List.nil_suffix⟩, .single ?_⟩
        have hput : QueueStep c.fifo
            { c.fifo with accepted := c.published ++ [new], queue := c.ring.unread ++ [new] } := by
          apply Fifo.Step.put
          change c.ring.unread.length < ringSize - 1
          rw [length_unread]
          omega
        convert hput using 1
        ext1
        · apply published_eq
          exact hsent.trans (List.append_nil _).symm
        · rw [← hstored]
          exact h.valid.unread_publishWrite hroom
        · rfl
      · cases hstep
  | _ => cases hstep

/-- The accesses of the receiver. The message leaves the queue when the read index is published. -/
theorem Communicator.Inv.recv {c c' : Communicator} {a : CommAction} (h : c.Inv)
    (hstep : pdesEnginePollStep c a = .ok c') : c.Refines c' := by
  have hfits := h.receiver
  have hresult := recvResult_nonneg c.msg
  cases a with
  | recvTest =>
      simp only [pdesEnginePollStep] at hstep
      split at hstep
      · rename_i hreceiver
        split_ifs at hstep with hempty
        · cases hstep
          refine .stutter ⟨h.valid, h.sender, Or.inl rfl, h.pending⟩ rfl rfl ?_
          rw [hreceiver]
          rfl
        · cases hstep
          have hused : 0 < c.ring.used := by
            apply Nat.pos_of_ne_zero
            rwa [ne_eq, h.valid.used_eq_zero]
          refine .stutter ⟨h.valid, h.sender, hused, h.pending⟩ rfl rfl ?_
          rw [hreceiver]
          rfl
      · cases hstep
  | recvCopy =>
      simp only [pdesEnginePollStep] at hstep
      split at hstep
      · rename_i hreceiver
        rw [hreceiver] at hfits
        cases hstep
        refine .stutter ⟨h.valid, h.sender, ⟨hfits, rfl⟩, h.pending⟩ rfl rfl ?_
        rw [hreceiver]
        rfl
      · cases hstep
  | recvPublish =>
      simp only [pdesEnginePollStep] at hstep
      split at hstep
      · rename_i hreceiver
        rw [hreceiver] at hfits
        obtain ⟨hused, hread⟩ := hfits
        cases hstep
        refine ⟨⟨h.valid.publishRead, h.sender.publishRead h.valid hused, Or.inr rfl, h.pending⟩,
          .single ?_⟩
        have hqueue := h.valid.unread_publishRead hused
        rw [hread] at hqueue
        have htake : QueueStep _ _ := Fifo.Step.take c.fifo c.msg _ hqueue
        convert htake using 1
        ext1
        · rfl
        · rfl
        · change c.handed ++ (RecvPc.returned (recvResult c.msg)).held c.msg =
            c.handed ++ c.receiver.held c.msg ++ [c.msg]
          rw [held_returned, hreceiver]
          exact congrArg (· ++ [c.msg]) (List.append_nil _).symm
      · cases hstep
  | poll =>
      simp only [pdesEnginePollStep] at hstep
      split at hstep
      · rename_i res hreceiver
        rw [hreceiver] at hfits
        split_ifs at hstep with hnone hnegative
        · cases hstep
          refine .stutter ⟨h.valid, h.sender, trivial, h.pending⟩ rfl rfl ?_
          rw [hreceiver]
          exact congrArg (c.handed ++ ·) (if_pos hnone).symm
        · rcases hfits with hres | hres
          · exact absurd hres hnone
          · omega
        · cases hstep
          refine .stutter ⟨h.valid, h.sender, trivial, h.pending⟩ rfl rfl ?_
          rw [hreceiver]
          exact (List.append_nil _).trans (congrArg (c.handed ++ ·) (if_neg hnone).symm)
      · cases hstep
  | _ => cases hstep

theorem Communicator.Inv.step {c c' : Communicator} {a : CommAction} (h : c.Inv)
    (hstep : commStep c a = .ok c') : c.Refines c' := by
  cases a with
  | send new => exact h.send (a := .send new) hstep
  | sendTest => exact h.send (a := .sendTest) hstep
  | sendStore => exact h.send (a := .sendStore) hstep
  | sendPublish => exact h.send (a := .sendPublish) hstep
  | recvTest => exact h.recv (a := .recvTest) hstep
  | recvCopy => exact h.recv (a := .recvCopy) hstep
  | recvPublish => exact h.recv (a := .recvPublish) hstep
  | poll => exact h.recv (a := .poll) hstep

/-- What one sender and one poller reach from an empty ring. -/
abbrev CommReaches : Communicator → Prop :=
  Reachable commStep (fun _ _ _ => True) Communicator.Empty

theorem commReaches_inv {c : Communicator} (hc : CommReaches c) : c.Inv :=
  hc.invariant (fun _ h => h.inv) fun _ _ _ _ h hstep _ => (h.step hstep).inv

theorem commReaches_fifo {c : Communicator} (hc : CommReaches c) :
    Relation.ReflTransGen QueueStep Fifo.empty c.fifo := by
  apply hc.abstract
  · intro c h
    rw [h.fifo]
  · intro c a c' hreach hstep _
    exact ((commReaches_inv hreach).step hstep).queue

/-- The ring is a FIFO queue of `RING_SIZE - 1` messages for every interleaving of the accesses. Its
indices stay below `RING_SIZE`; what is handed to `process_message` is a prefix of what was sent,
without the messages in the ring and in the calls in progress; the slot that a call of
`pdes_comm_send` writes holds no unread message; and a message taken from the ring is handed on,
whatever its length. -/
theorem ring_refines_fifo {c : Communicator} (hc : CommReaches c) :
    (c.ring.writeIdx < ringSize ∧ c.ring.readIdx < ringSize) ∧
    c.ring.unread.length ≤ ringSize - 1 ∧
    Relation.ReflTransGen QueueStep Fifo.empty c.fifo ∧
    c.sent = c.handed ++ c.receiver.held c.msg ++ c.ring.unread ++ c.sender.pending ∧
    (∀ c', commStep c .sendStore = .ok c' →
      (∀ k < c.ring.used, c.ring.slot k ≠ c.ring.writeIdx) ∧ c'.ring.unread = c.ring.unread) ∧
    (c.receiver = .publishing → ∀ c' c'', commStep c .recvPublish = .ok c' →
      commStep c' .poll = .ok c'' → c''.handed = c.handed ++ [c.msg]) := by
  have hinv := commReaches_inv hc
  have hfifo := commReaches_fifo hc
  obtain ⟨haccepted, hlength⟩ := Fifo.run hfifo
  refine ⟨⟨hinv.valid.write_lt, hinv.valid.read_lt⟩, hlength, hfifo, ?_, ?_, ?_⟩
  · calc c.sent = c.published ++ c.sender.pending := hinv.sent_eq
      _ = c.handed ++ c.receiver.held c.msg ++ c.ring.unread ++ c.sender.pending :=
        congrArg (· ++ c.sender.pending) haccepted
  · intro c' hstep
    refine ⟨fun k hk => hinv.valid.slot_ne_writeIdx hk, ?_⟩
    change pdesCommSendStep c .sendStore = .ok c' at hstep
    simp only [pdesCommSendStep] at hstep
    split at hstep
    · cases hstep
      exact hinv.valid.unread_store _
    · cases hstep
  · intro hreceiver c' c'' hpublish hpoll
    change pdesEnginePollStep c .recvPublish = .ok c' at hpublish
    simp only [pdesEnginePollStep, hreceiver] at hpublish
    cases hpublish
    have hresult := recvResult_nonneg c.msg
    have hne : recvResult c.msg ≠ noMessage := by
      unfold noMessage
      omega
    rw [commStep_poll] at hpoll
    simp only [pdesEnginePollStep, if_neg hne, if_neg (not_lt.mpr hresult)] at hpoll
    rw [← Except.ok.inj hpoll]

/-- A message without data goes through the last slot of the ring. -/
def wrappingRing : Communicator where
  ring := { writeIdx := 8191, readIdx := 8191, slots := fun _ => endMessage }
  sender := .idle
  receiver := .idle
  msg := endMessage
  sent := []
  handed := []

set_option maxRecDepth 100000 in
theorem ring_refines_fifo_wrappingRing :
    ∃ c, CommReaches c ∧ c.ring.writeIdx = 0 ∧ c.handed = [endMessage] ∧
      c.sent = c.handed ++ c.receiver.held c.msg ++ c.ring.unread ++ c.sender.pending := by
  have hempty : wrappingRing.Empty := ⟨⟨by decide, by decide⟩, rfl, rfl, rfl, rfl, rfl⟩
  have hrun : (run commStep (fun _ _ _ => True) wrappingRing
      [.send endMessage, .recvTest, .poll, .sendTest, .sendStore, .sendPublish, .recvTest,
        .recvCopy, .recvPublish, .poll]).map (fun c => (c.ring.writeIdx, c.handed)) =
      some (0, [endMessage]) := by decide
  obtain ⟨c, hc, hends⟩ := Option.map_eq_some_iff.mp hrun
  have hstart : CommReaches wrappingRing := .start hempty
  have hreach := hstart.run hc
  rw [Prod.mk.injEq] at hends
  exact ⟨c, hreach, hends.1, hends.2, (ring_refines_fifo hreach).2.2.2.1⟩

/-! ### The rings of the two nodes -/

/-- The ring a node writes to, with the messages that have passed it. -/
def ringQueue (s : System) (i : Side) : Fifo Message where
  accepted := processedIn (s i.peer).log ++ (s i).ring
  queue := (s i).ring
  delivered := processedIn (s i.peer).log

/-- The rings in the model of the two nodes take the steps of the same bounded queue. -/
theorem step_ringQueue {s s' : System} {ia : Side × Action}
    (hsync : ∀ i, (s i).wwt.shouldSync = true) (h : step (some ringCapacity) s ia = .ok s')
    (j : Side) : Relation.ReflTransGen QueueStep (ringQueue s j) (ringQueue s' j) := by
  have same {s'' : System} (hring : (s'' j).ring = (s j).ring)
      (hlog : processedIn (s'' j.peer).log = processedIn (s j.peer).log) :
      Relation.ReflTransGen QueueStep (ringQueue s j) (ringQueue s'' j) := by
    unfold ringQueue
    rw [hring, hlog]
  cases step_next hsync h with
  | @commSend i msg rest hsending =>
      rcases Side.eq_or_eq_peer i j with rfl | rfl
      · have hroom : (s j).ring.length < ringCapacity := by
          rw [step, hsending] at h
          dsimp only at h
          split_ifs at h with hroom
          exact hroom _ rfl
        have hput : QueueStep _ _ := Fifo.Step.put (ringQueue s j) msg hroom
        apply Relation.ReflTransGen.single
        convert hput using 1
        ext1 <;> simp [ringQueue]
      · exact same (by simp) (by simp)
  | @receive i msg rest n' _ hring hreceive =>
      obtain ⟨evs, he, hall⟩ := hreceive.emits
      rcases Side.eq_or_eq_peer i j with rfl | rfl
      · exact same (by simp [he.ring]) (by simp)
      · have hprocessed : processedIn (.processMessage msg :: evs) = [msg] :=
          congrArg (msg :: ·) (processedIn_control hall)
        have htake : QueueStep _ _ := Fifo.Step.take (ringQueue s i.peer) msg rest hring
        apply Relation.ReflTransGen.single
        convert htake using 1
        ext1 <;> simp [ringQueue, he.log, hprocessed, hring]
  | @move i a n' _ _ hmove =>
      obtain ⟨evs, he, hevs⟩ := hmove.emits
      rcases Side.eq_or_eq_peer i j with rfl | rfl
      · exact same (by simp [he.ring]) (by simp)
      · exact same (by simp) (by simp [he.log, hevs])

end LeanPdes
