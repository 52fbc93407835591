import LeanPdes.Communicator

/-! The ring with two threads of one process that send on it. `pdes_comm_send` takes no lock: two
calls that overlap publish the same write index, and one of the two messages is never received. Calls
that do not overlap use the ring as one sender does. -/

namespace LeanPdes

open Reach FifoRing

/-- The threads of a process that send: `can_stop` runs on the Flexus thread. -/
inductive Thread
  | flexus
  | main
  deriving DecidableEq, Repr

def Thread.other : Thread → Thread
  | .flexus => .main
  | .main => .flexus

@[simp] theorem Thread.other_other (t : Thread) : t.other.other = t := by cases t <;> rfl

@[simp] theorem Thread.other_ne (t : Thread) : t.other ≠ t := by cases t <;> decide

theorem Thread.eq_or_eq_other (t u : Thread) : u = t ∨ u = t.other := by
  cases t <;> cases u <;> decide

/-- The ring, the two threads that send and the process that polls. `returned` holds the messages of
the calls of `pdes_comm_send` that have returned, in the order of their returns. -/
structure SharedRing where
  ring : ShmRing
  sender : Thread → SendPc
  receiver : RecvPc
  msg : Message
  returned : List Message
  handed : List Message

inductive SharedAction
  | send (t : Thread) (a : CommAction)
  | recv (a : CommAction)
  deriving DecidableEq

/-- The ring as one of the threads uses it. -/
def SharedRing.view (c : SharedRing) (t : Thread) : Communicator where
  ring := c.ring
  sender := c.sender t
  receiver := c.receiver
  msg := c.msg
  sent := c.returned ++ (c.sender t).pending
  handed := c.handed

/-- The message of a call that returns with this access. -/
def SendPc.returns (pc : SendPc) : CommAction → List Message
  | .sendPublish => pc.pending
  | _ => []

/-- One access of a thread or of the receiver. -/
def sharedStep (c : SharedRing) : SharedAction → Except Halt SharedRing
  | .send t a => do
      let v ← pdesCommSendStep (c.view t) a
      return { c with
        ring := v.ring
        sender := Function.update c.sender t v.sender
        returned := c.returned ++ (c.sender t).returns a }
  | .recv a => do
      let v ← pdesEnginePollStep (c.view .main) a
      return { c with ring := v.ring, receiver := v.receiver, msg := v.msg, handed := v.handed }

/-- Every message of a call that has returned is received once or still in the ring. -/
def SharedRing.NothingLost (c : SharedRing) : Prop :=
  c.returned.Perm (c.handed ++ c.receiver.held c.msg ++ c.ring.unread)

/-- No call is in progress, and the ring is empty. -/
structure SharedRing.Empty (c : SharedRing) : Prop where
  valid : c.ring.Valid
  empty : c.ring.readIdx = c.ring.writeIdx
  sender : ∀ t, c.sender t = .idle
  receiver : c.receiver = .idle
  returned : c.returned = []
  handed : c.handed = []

/-- A thread calls `pdes_comm_send` only while the other one is not inside it. -/
def Serial (c : SharedRing) : SharedAction → Prop
  | .send t (.send _) => c.sender t.other = .idle
  | _ => True

instance (c : SharedRing) (a : SharedAction) : Decidable (Serial c a) :=
  match a with
  | .recv _ => .isTrue trivial
  | .send t (.send _) => inferInstanceAs (Decidable (c.sender t.other = .idle))
  | .send _ .sendTest | .send _ .sendStore | .send _ .sendPublish | .send _ .recvTest
  | .send _ .recvCopy | .send _ .recvPublish | .send _ .poll => .isTrue trivial

/-- What the two threads and the receiver reach from an empty ring. -/
abbrev SharedReaches (guard : SharedRing → SharedAction → SharedRing → Prop) : SharedRing → Prop :=
  Reachable sharedStep guard SharedRing.Empty

/-! ### One thread at a time -/

/-- What an access of the sender does to the messages of its calls, and to the receiver. -/
theorem sendStep_frame {v v' : Communicator} {a : CommAction} {l : List Message}
    (hsent : v.sent = l ++ v.sender.pending) (h : pdesCommSendStep v a = .ok v') :
    v'.sent = l ++ v.sender.returns a ++ v'.sender.pending ∧ v'.receiver = v.receiver ∧
      v'.msg = v.msg ∧ v'.handed = v.handed := by
  cases a with
  | send msg =>
      simp only [pdesCommSendStep] at h
      split at h
      · rename_i hidle
        cases h
        refine ⟨?_, rfl, rfl, rfl⟩
        rw [hsent, hidle]
        simp [SendPc.returns, SendPc.pending]
      · cases h
  | sendTest =>
      simp only [pdesCommSendStep] at h
      split at h
      · rename_i msg nextWrite hsender
        have hnone : l ++ v.sender.returns .sendTest = l := List.append_nil l
        rw [hnone]
        split at h
        · cases h
          exact ⟨hsent, rfl, rfl, rfl⟩
        · cases h
          exact ⟨by rw [hsent, hsender]; rfl, rfl, rfl, rfl⟩
      · cases h
  | sendStore =>
      simp only [pdesCommSendStep] at h
      split at h
      · rename_i msg nextWrite hsender
        have hnone : l ++ v.sender.returns .sendStore = l := List.append_nil l
        rw [hnone]
        cases h
        exact ⟨by rw [hsent, hsender]; rfl, rfl, rfl, rfl⟩
      · cases h
  | sendPublish =>
      simp only [pdesCommSendStep] at h
      split at h
      · rename_i msg nextWrite hsender
        cases h
        exact ⟨by rw [hsent, hsender]; simp [SendPc.returns, SendPc.pending], rfl, rfl, rfl⟩
      · cases h
  | _ => cases h

/-- An access of a thread is the access of the one sender. -/
theorem view_of_send {c c' : SharedRing} {t : Thread} {a : CommAction}
    (h : sharedStep c (.send t a) = .ok c') :
    pdesCommSendStep (c.view t) a = .ok (c'.view t) ∧ c'.sender t.other = c.sender t.other := by
  obtain ⟨v, hv, h⟩ := bind_eq_ok.mp h
  cases h
  obtain ⟨hsent, hreceiver, hmsg, hhanded⟩ := sendStep_frame (l := c.returned) rfl hv
  refine ⟨?_, Function.update_of_ne t.other_ne ..⟩
  rw [hv]
  have hself : Function.update c.sender t v.sender t = v.sender := Function.update_self ..
  obtain ⟨ring, sender, receiver, msg, sent, handed⟩ := v
  simp only [SharedRing.view, hself] at hsent hreceiver hmsg hhanded ⊢
  rw [hsent, hreceiver, hmsg, hhanded]

/-- A thread inside a call makes every access but the first. -/
theorem busy_of_send {c c' : SharedRing} {t : Thread} {a : CommAction} (hcall : ∀ msg, a ≠ .send msg)
    (h : sharedStep c (.send t a) = .ok c') : c.sender t ≠ .idle := by
  obtain ⟨v, hv, _⟩ := bind_eq_ok.mp h
  intro hidle
  cases a with
  | send msg => exact hcall msg rfl
  | sendTest | sendStore | sendPublish => simp [pdesCommSendStep, SharedRing.view, hidle] at hv
  | _ => cases hv

/-- The receiver does not look at the sender. -/
theorem pollStep_frame {v v' : Communicator} {a : CommAction} (sender : SendPc) (sent : List Message)
    (h : pdesEnginePollStep v a = .ok v') :
    pdesEnginePollStep { v with sender, sent } a = .ok { v' with sender, sent } := by
  cases a with
  | recvTest =>
      simp only [pdesEnginePollStep] at h ⊢
      split at h
      · split_ifs at h ⊢ <;> cases h <;> rfl
      · cases h
  | recvCopy | recvPublish =>
      simp only [pdesEnginePollStep] at h ⊢
      split at h
      · cases h
        rfl
      · cases h
  | poll =>
      simp only [pdesEnginePollStep] at h ⊢
      split at h
      · split_ifs at h ⊢ <;> cases h <;> rfl
      · cases h
  | _ => cases h

theorem view_of_recv {c c' : SharedRing} {a : CommAction} (h : sharedStep c (.recv a) = .ok c')
    (t : Thread) :
    pdesEnginePollStep (c.view t) a = .ok (c'.view t) ∧ c'.sender = c.sender := by
  obtain ⟨v, hv, h⟩ := bind_eq_ok.mp h
  cases h
  exact ⟨pollStep_frame (c.sender t) (c.returned ++ (c.sender t).pending) hv, rfl⟩

theorem view_of_idle {c : SharedRing} {t u : Thread} (ht : c.sender t = .idle)
    (hu : c.sender u = .idle) : c.view t = c.view u := by
  simp only [SharedRing.view, ht, hu]

/-- At most one thread is inside `pdes_comm_send`, and the ring is the queue of that one sender. -/
structure SharedRing.OneSender (c : SharedRing) : Prop where
  one : ∃ t, c.sender t = .idle
  inv : ∀ t, c.sender t.other = .idle → (c.view t).Inv
  fifo : ∀ t, c.sender t.other = .idle →
    Relation.ReflTransGen QueueStep Fifo.empty (c.view t).fifo

theorem SharedRing.Empty.oneSender {c : SharedRing} (h : c.Empty) : c.OneSender := by
  have hempty (t : Thread) : (c.view t).Empty :=
    ⟨h.valid, h.empty, h.sender t, h.receiver, by simp [view, h.returned, h.sender, SendPc.pending],
      h.handed⟩
  refine ⟨⟨.main, h.sender .main⟩, fun t _ => (hempty t).inv, fun t _ => ?_⟩
  rw [(hempty t).fifo]

theorem SharedRing.OneSender.step {c c' : SharedRing} {a : SharedAction} (h : c.OneSender)
    (hserial : Serial c a) (hstep : sharedStep c a = .ok c') : c'.OneSender := by
  cases a with
  | send t a =>
      have hother : c.sender t.other = .idle := by
        by_cases hcall : ∃ msg, a = .send msg
        · obtain ⟨msg, rfl⟩ := hcall
          exact hserial
        · obtain ⟨u, hu⟩ := h.one
          have hbusy := busy_of_send (fun msg heq => hcall ⟨msg, heq⟩) hstep
          rcases Thread.eq_or_eq_other t u with rfl | rfl
          · exact absurd hu hbusy
          · exact hu
      obtain ⟨hview, hsame⟩ := view_of_send hstep
      have hrefines := (h.inv t hother).send hview
      have hother' : c'.sender t.other = .idle := hsame.trans hother
      -- the other thread sees the same ring once this one is idle, too
      have hviews (u : Thread) (hu : c'.sender u.other = .idle) : c'.view u = c'.view t := by
        rcases Thread.eq_or_eq_other t u with rfl | rfl
        · rfl
        · rw [Thread.other_other] at hu
          exact view_of_idle hother' hu
      refine ⟨⟨_, hother'⟩, fun u hu => ?_, fun u hu => ?_⟩
      · rw [hviews u hu]
        exact hrefines.inv
      · rw [hviews u hu]
        exact (h.fifo t hother).trans hrefines.queue
  | recv a =>
      have hsender : c'.sender = c.sender := (view_of_recv hstep .main).2
      have hrefines (t : Thread) (ht : c'.sender t.other = .idle) :
          (c.view t).Refines (c'.view t) := by
        rw [hsender] at ht
        exact (h.inv t ht).recv (view_of_recv hstep t).1
      refine ⟨hsender ▸ h.one, fun t ht => (hrefines t ht).inv, fun t ht => ?_⟩
      have hfifo := h.fifo t (by rwa [hsender] at ht)
      exact hfifo.trans (hrefines t ht).queue

/-- Where the two threads' calls never overlap, each message whose send has returned is received once,
in order, or is still in the ring. -/
theorem serial_sends_lose_nothing {c : SharedRing}
    (hc : SharedReaches (fun c a _ => Serial c a) c) : c.NothingLost := by
  have hone : c.OneSender := hc.invariant (fun _ h => h.oneSender) fun _ _ _ _ h hstep hserial =>
    h.step hserial hstep
  obtain ⟨u, hu⟩ := hone.one
  have hother : c.sender u.other.other = .idle := by rwa [Thread.other_other]
  obtain ⟨haccepted, _⟩ := Fifo.run (hone.fifo u.other hother)
  have hpublished : (c.view u.other).published = c.returned := published_eq rfl
  have hreturned : c.returned = c.handed ++ c.receiver.held c.msg ++ c.ring.unread :=
    hpublished.symm.trans haccepted
  rw [SharedRing.NothingLost, ← hreturned]

/-- A ring that a thread and the receiver have used before. -/
def sharedRing : SharedRing where
  ring := { writeIdx := 8191, readIdx := 8191, slots := fun _ => endMessage }
  sender _ := .idle
  receiver := .idle
  msg := endMessage
  returned := []
  handed := []

theorem sharedRing_empty : sharedRing.Empty :=
  ⟨⟨by decide, by decide⟩, rfl, fun _ => rfl, rfl, rfl, rfl⟩

/-- A call of `pdes_comm_send` without an interruption. -/
def wholeSend (t : Thread) (msg : Message) : List SharedAction :=
  [.send t (.send msg), .send t .sendTest, .send t .sendStore, .send t .sendPublish]

set_option maxRecDepth 100000 in
theorem serial_sends_lose_nothing_twoCalls :
    ∃ c, SharedReaches (fun c a _ => Serial c a) c ∧ c.returned.length = 2 ∧ c.NothingLost := by
  have hrun : (run sharedStep (fun c a _ => Serial c a) sharedRing
      (wholeSend .main endMessage ++ wholeSend .flexus endMessage)).map
      (fun c => c.returned.length) = some 2 := by decide
  obtain ⟨c, hc, hends⟩ := Option.map_eq_some_iff.mp hrun
  have hstart : SharedReaches (fun c a _ => Serial c a) sharedRing := .start sharedRing_empty
  have hreach := hstart.run hc
  exact ⟨c, hreach, hends, serial_sends_lose_nothing hreach⟩

/-- Two calls whose accesses alternate. -/
def overlappingSends : List SharedAction :=
  [.send .main (.send endMessage), .send .flexus (.send endMessage), .send .main .sendTest,
    .send .flexus .sendTest, .send .main .sendStore, .send .flexus .sendStore,
    .send .main .sendPublish, .send .flexus .sendPublish]

set_option maxRecDepth 100000 in
/-- Both calls return, and the ring holds one message. -/
theorem lost_of_overlap : ∃ c, SharedReaches (fun _ _ _ => True) c ∧ ¬c.NothingLost := by
  have hrun : (run sharedStep (fun _ _ _ => True) sharedRing overlappingSends).map
      (fun c => (c.returned.length, (c.handed ++ c.receiver.held c.msg ++ c.ring.unread).length)) =
      some (2, 1) := by decide
  obtain ⟨c, hc, hends⟩ := Option.map_eq_some_iff.mp hrun
  have hstart : SharedReaches (fun _ _ _ => True) sharedRing := .start sharedRing_empty
  refine ⟨c, hstart.run hc, fun hlost => ?_⟩
  have hlength := hlost.length_eq
  obtain ⟨hreturned, hkept⟩ := Prod.mk.inj hends
  rw [hreturned, hkept] at hlength
  exact absurd hlength (by decide)

end LeanPdes
