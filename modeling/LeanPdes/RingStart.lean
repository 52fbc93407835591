import LeanPdes.Communicator

/-! The start of a run on a ring's shared-memory object. Each of the two processes goes through
`pdes_comm_init_ring`: the one that creates the object sizes, maps and zeroes it, the other one opens
and maps it and does not wait. No path unlinks the object, so a run may find one that an earlier run
has left. The calls of `pdes_comm_send` and `pdes_comm_recv` follow the initialisation of their own
process, and all steps interleave. -/

namespace LeanPdes

open Reach FifoRing

/-- The two processes on a ring. -/
inductive Endpoint
  | sender
  | receiver
  deriving DecidableEq, Repr

/-- Where a process stands in `pdes_comm_init_ring`. -/
inductive InitPc
  /-- before the exclusive create -/
  | create
  /-- before the plain open of an object that exists -/
  | openExisting
  /-- before `ftruncate` -/
  | resize
  /-- before `mmap` -/
  | map (isCreator : Bool)
  /-- before `memset` -/
  | zero
  | done
  deriving DecidableEq, Repr

/-- The process has created the object and not zeroed it yet. -/
def InitPc.zeroes : InitPc → Bool
  | .resize => true
  | .map isCreator => isCreator
  | .zero => true
  | _ => false

/-- The shared-memory object: there is none, it has no bytes, or it holds a ring. -/
inductive ShmObject
  | absent
  | unsized
  | sized
  deriving DecidableEq, Repr

/-- The object, both processes' initialisations, and the calls of both. The bytes of a sized object are
`comm.ring`. -/
structure RingRun where
  object : ShmObject
  init : Endpoint → InitPc
  comm : Communicator

def zeroMessage : Message := .ofType 0

/-- A ring whose bytes are zero. -/
def zeroRing : ShmRing where
  writeIdx := 0
  readIdx := 0
  slots _ := zeroMessage

inductive RingRunAction
  /-- One step of `pdes_comm_init_ring`. -/
  | init (e : Endpoint)
  | access (a : CommAction)
  deriving DecidableEq

def CommAction.endpoint : CommAction → Endpoint
  | .send _ | .sendTest | .sendStore | .sendPublish => .sender
  | .recvTest | .recvCopy | .recvPublish | .poll => .receiver

/-- The slot that an access touches is one of the ring's. -/
def Communicator.InBounds (c : Communicator) : CommAction → Prop
  | .sendStore => c.ring.writeIdx < ringSize
  | .recvCopy => c.ring.readIdx < ringSize
  | _ => True

instance (c : Communicator) (a : CommAction) : Decidable (c.InBounds a) := by
  cases a <;> unfold Communicator.InBounds <;> infer_instance

/-- One step of `pdes_comm_init_ring`. -/
def pdesCommInitRingStep (c : RingRun) (e : Endpoint) : Except Halt RingRun :=
  match c.init e with
  | .create =>
      if c.object = .absent then
        .ok { c with object := .unsized, init := Function.update c.init e .resize }
      else .ok { c with init := Function.update c.init e .openExisting }
  | .openExisting => .ok { c with init := Function.update c.init e (.map false) }
  | .resize => .ok { c with
      object := .sized
      init := Function.update c.init e (.map true)
      comm.ring := zeroRing }
  | .map isCreator =>
      .ok { c with init := Function.update c.init e (if isCreator then .zero else .done) }
  | .zero => .ok { c with init := Function.update c.init e .done, comm.ring := zeroRing }
  | .done => .error .disabled

/-- A step of one process. An access leaves the object where it has no bytes, or past the ring's last
slot. -/
def ringRunStep (c : RingRun) : RingRunAction → Except Halt RingRun
  | .init e => pdesCommInitRingStep c e
  | .access a =>
      if c.init a.endpoint = .done then
        if c.object = .sized ∧ c.comm.InBounds a then do
          let comm ← commStep c.comm a
          return { c with comm }
        else .error (.fault .outOfBounds)
      else .error .disabled

/-- Both processes are about to start, with any object. -/
structure RingRun.Fresh (c : RingRun) : Prop where
  init : ∀ e, c.init e = .create
  sender : c.comm.sender = .idle
  receiver : c.comm.receiver = .idle
  sent : c.comm.sent = []
  handed : c.comm.handed = []

/-- The messages that the receiver has got. -/
def RingRun.received (c : RingRun) : List Message :=
  c.comm.handed ++ c.comm.receiver.held c.comm.msg

/-- The messages that the ring holds for the receiver. -/
def RingRun.unread (c : RingRun) : List Message :=
  if c.object = .sized then c.comm.ring.unread else []

/-- The receiver gets the messages of this run in their order, and what is published stays in the ring
until it is received. -/
structure RingRun.SeesOwn (c : RingRun) : Prop where
  own : c.received <+: c.comm.sent
  kept : c.comm.published = c.received ++ c.unread

/-- No call leaves the slots of the ring. -/
def RingRun.StaysInside (c : RingRun) : Prop :=
  c.object = .sized → ∀ a, ringRunStep c (.access a) ≠ .error (.fault .outOfBounds)

/-- A ring that an earlier run has left in the object is empty. -/
def RingRun.LeftEmpty (c : RingRun) : Prop :=
  c.object = .sized → c.comm.ring.Valid ∧ c.comm.ring.readIdx = c.comm.ring.writeIdx

/-- The sender stores no message in an object that its creator has still to zero. -/
def AfterZero (c : RingRun) : RingRunAction → Prop
  | .access .sendStore => ∀ e, (c.init e).zeroes = false
  | _ => True

instance (c : RingRun) (a : RingRunAction) : Decidable (AfterZero c a) := by
  cases a with
  | init e => exact .isTrue trivial
  | access a =>
      cases a with
      | sendStore =>
          refine decidable_of_iff
            ((c.init .sender).zeroes = false ∧ (c.init .receiver).zeroes = false) ?_
          exact ⟨fun h e => by cases e <;> simp [h], fun h => ⟨h .sender, h .receiver⟩⟩
      | _ => exact .isTrue trivial

/-- The states of runs on one object. -/
abbrev RingRunReaches (init : RingRun → Prop)
    (guard : RingRun → RingRunAction → RingRun → Prop) : RingRun → Prop :=
  Reachable ringRunStep guard init

/-- Nobody has put a message into the ring or taken one out. -/
structure Communicator.Untouched (c : Communicator) : Prop where
  writeIdx : c.ring.writeIdx = 0
  readIdx : c.ring.readIdx = 0
  sender : ∀ msg nextWrite, c.sender ≠ .publishing msg nextWrite
  receiver : c.receiver ≠ .copying ∧ c.receiver ≠ .publishing

theorem unread_of_empty {ring : ShmRing} (hvalid : ring.Valid)
    (hempty : ring.readIdx = ring.writeIdx) : ring.unread = [] := by
  rw [Ring.unread, hvalid.used_eq_zero.mpr hempty, List.range_zero, List.map_nil]

theorem zeroRing_valid : zeroRing.Valid := ⟨by decide, by decide⟩

/-- To zero a ring that nobody has used changes nothing that the two processes can tell. -/
theorem Communicator.Untouched.zero {c : Communicator} (h : c.Untouched) (hinv : c.Inv) :
    Communicator.Inv { c with ring := zeroRing } ∧
      Communicator.fifo { c with ring := zeroRing } = c.fifo := by
  have hsender : c.sender.Fits zeroRing := by
    have hfits := hinv.sender
    cases hpc : c.sender with
    | idle => trivial
    | testing msg nextWrite =>
        rw [hpc] at hfits
        rwa [SendPc.Fits, h.writeIdx] at hfits
    | storing msg nextWrite =>
        rw [hpc] at hfits
        rw [SendPc.Fits, h.writeIdx] at hfits
        exact ⟨hfits.1, by decide⟩
    | publishing msg nextWrite => exact absurd hpc (h.sender msg nextWrite)
  have hreceiver : c.receiver.Fits zeroRing c.msg := by
    have hfits := hinv.receiver
    cases hpc : c.receiver with
    | idle => trivial
    | copying => exact absurd hpc h.receiver.1
    | publishing => exact absurd hpc h.receiver.2
    | returned res =>
        rw [hpc] at hfits
        exact hfits
  refine ⟨⟨zeroRing_valid, hsender, hreceiver, hinv.pending⟩, ?_⟩
  ext1
  · rfl
  · rw [Communicator.fifo, Communicator.fifo, unread_of_empty zeroRing_valid rfl,
      unread_of_empty hinv.valid (h.readIdx.trans h.writeIdx.symm)]
  · rfl

/-- Without a store the calls leave the ring as it is. -/
theorem Communicator.Untouched.step {c c' : Communicator} {a : CommAction} (h : c.Untouched)
    (hstore : a ≠ .sendStore) (hstep : commStep c a = .ok c') : c'.Untouched := by
  cases a with
  | send msg =>
      simp only [commStep, pdesCommSendStep] at hstep
      split at hstep
      · cases hstep
        exact ⟨h.writeIdx, h.readIdx, by simp, h.receiver⟩
      · cases hstep
  | sendTest =>
      simp only [commStep, pdesCommSendStep] at hstep
      split at hstep
      · split_ifs at hstep
        · cases hstep
          exact h
        · cases hstep
          exact ⟨h.writeIdx, h.readIdx, by simp, h.receiver⟩
      · cases hstep
  | sendStore => exact absurd rfl hstore
  | sendPublish =>
      simp only [commStep, pdesCommSendStep] at hstep
      split at hstep
      · rename_i hsender
        exact absurd hsender (h.sender _ _)
      · cases hstep
  | recvTest =>
      simp only [commStep, pdesEnginePollStep] at hstep
      split at hstep
      · rw [if_pos (h.readIdx.trans h.writeIdx.symm)] at hstep
        cases hstep
        exact ⟨h.writeIdx, h.readIdx, h.sender, by simp⟩
      · cases hstep
  | recvCopy =>
      simp only [commStep, pdesEnginePollStep] at hstep
      split at hstep
      · rename_i hreceiver
        exact absurd hreceiver h.receiver.1
      · cases hstep
  | recvPublish =>
      simp only [commStep, pdesEnginePollStep] at hstep
      split at hstep
      · rename_i hreceiver
        exact absurd hreceiver h.receiver.2
      · cases hstep
  | poll =>
      simp only [commStep, pdesEnginePollStep] at hstep
      split at hstep
      · split_ifs at hstep <;> cases hstep <;> exact ⟨h.writeIdx, h.readIdx, h.sender, by simp⟩
      · cases hstep

/-- The object has one creator at most, and until it is zeroed the ring is as the resize left it. Once
it is sized the ring is the queue of this run. -/
structure RingRun.Inv (c : RingRun) : Prop where
  absent : c.object = .absent → ∀ e, c.init e = .create
  one : ∀ e e', (c.init e).zeroes = true → (c.init e').zeroes = true → e = e'
  resize : ∀ e, c.init e = .resize ↔ (c.init e).zeroes = true ∧ c.object = .unsized
  idle : c.object ≠ .sized →
    c.comm.sender = .idle ∧ c.comm.receiver = .idle ∧ c.comm.sent = [] ∧ c.comm.handed = []
  sized : c.object = .sized →
    c.comm.Inv ∧ Relation.ReflTransGen QueueStep Fifo.empty c.comm.fifo
  pending : ∀ e, (c.init e).zeroes = true → c.object = .sized → c.comm.Untouched

theorem RingRun.Fresh.inv {c : RingRun} (h : c.Fresh) (hleft : c.LeftEmpty) : c.Inv where
  absent _ := h.init
  one e e' he := by
    rw [h.init e] at he
    cases he
  resize e := by simp [h.init e, InitPc.zeroes]
  idle _ := ⟨h.sender, h.receiver, h.sent, h.handed⟩
  sized hsized := by
    obtain ⟨hvalid, hempty⟩ := hleft hsized
    have hcomm : c.comm.Empty := ⟨hvalid, hempty, h.sender, h.receiver, h.sent, h.handed⟩
    exact ⟨hcomm.inv, by rw [hcomm.fifo]⟩
  pending e he := by
    rw [h.init e] at he
    cases he

/-- A process moves on in its initialisation, and the object stays as it is. -/
theorem RingRun.Inv.move {c : RingRun} (h : c.Inv) {e : Endpoint} {pc : InitPc}
    (hpresent : c.object ≠ .absent) (hold : c.init e ≠ .resize) (hnew : pc ≠ .resize)
    (hzeroes : pc.zeroes = true → (c.init e).zeroes = true) :
    RingRun.Inv { c with init := Function.update c.init e pc } := by
  have hback (e' : Endpoint) (hpending : (Function.update c.init e pc e').zeroes = true) :
      (c.init e').zeroes = true := by
    by_cases heq : e' = e
    · subst heq
      rw [Function.update_self] at hpending
      exact hzeroes hpending
    · rwa [Function.update_of_ne heq] at hpending
  constructor
  case absent => exact fun habsent => absurd habsent hpresent
  case one => exact fun e₁ e₂ h₁ h₂ => h.one e₁ e₂ (hback e₁ h₁) (hback e₂ h₂)
  case resize =>
    intro e'
    dsimp only
    by_cases heq : e' = e
    · subst heq
      rw [Function.update_self]
      refine iff_of_false hnew fun hpending => ?_
      exact hold ((h.resize e').mpr ⟨hzeroes hpending.1, hpending.2⟩)
    · rw [Function.update_of_ne heq]
      exact h.resize e'
  case idle => exact h.idle
  case sized => exact h.sized
  case pending => exact fun e' hpending => h.pending e' (hback e' hpending)

/-- The exclusive create succeeds for the first process. -/
theorem RingRun.Inv.create {c : RingRun} (h : c.Inv) (e : Endpoint) (habsent : c.object = .absent) :
    RingRun.Inv { c with object := .unsized, init := Function.update c.init e .resize } := by
  have hinit := h.absent habsent
  have hother (e' : Endpoint) (heq : e' ≠ e) : Function.update c.init e .resize e' = .create := by
    rw [Function.update_of_ne heq, hinit e']
  have hzeroes (e' : Endpoint)
      (hpending : (Function.update c.init e InitPc.resize e').zeroes = true) : e' = e := by
    by_contra heq
    rw [hother e' heq] at hpending
    cases hpending
  constructor
  case absent => exact fun hpresent => by cases hpresent
  case one => exact fun e₁ e₂ h₁ h₂ => (hzeroes e₁ h₁).trans (hzeroes e₂ h₂).symm
  case resize =>
    intro e'
    dsimp only
    by_cases heq : e' = e
    · subst heq
      simp [InitPc.zeroes]
    · rw [hother e' heq]
      simp [InitPc.zeroes]
  case idle => exact fun _ => h.idle (by rw [habsent]; decide)
  case sized => exact fun hsized => by cases hsized
  case pending => exact fun _ _ hsized => by cases hsized

/-- `ftruncate` gives the object its bytes, all zero. -/
theorem RingRun.Inv.truncate {c : RingRun} (h : c.Inv) {e : Endpoint} (hpc : c.init e = .resize) :
    RingRun.Inv { c with
      object := .sized
      init := Function.update c.init e (.map true)
      comm.ring := zeroRing } := by
  obtain ⟨hzeroes, hunsized⟩ := (h.resize e).mp hpc
  obtain ⟨hsender, hreceiver, hsent, hhanded⟩ := h.idle (by rw [hunsized]; decide)
  have hback (e' : Endpoint)
      (hpending : (Function.update c.init e (InitPc.map true) e').zeroes = true) : e' = e := by
    by_contra heq
    rw [Function.update_of_ne heq] at hpending
    exact heq (h.one e' e hpending hzeroes)
  constructor
  case absent => exact fun habsent => by cases habsent
  case one => exact fun e₁ e₂ h₁ h₂ => (hback e₁ h₁).trans (hback e₂ h₂).symm
  case resize =>
    intro e'
    refine iff_of_false ?_ (by simp)
    dsimp only
    by_cases heq : e' = e
    · subst heq
      simp
    · rw [Function.update_of_ne heq]
      intro hpc'
      exact heq (h.one e' e ((h.resize e').mp hpc').1 hzeroes)
  case idle => exact fun hsized => absurd rfl hsized
  case sized =>
    intro _
    have hempty : Communicator.Empty { c.comm with ring := zeroRing } :=
      ⟨zeroRing_valid, rfl, hsender, hreceiver, hsent, hhanded⟩
    exact ⟨hempty.inv, by rw [hempty.fifo]⟩
  case pending =>
    intro _ _ _
    exact ⟨rfl, rfl, by simp [hsender], by simp [hreceiver]⟩

/-- `memset` zeroes a ring that nobody has used. -/
theorem RingRun.Inv.memset {c : RingRun} (h : c.Inv) {e : Endpoint} (hpc : c.init e = .zero) :
    RingRun.Inv { c with init := Function.update c.init e .done, comm.ring := zeroRing } := by
  have hzeroes : (c.init e).zeroes = true := by rw [hpc]; rfl
  have hpresent : c.object ≠ .absent := by
    intro habsent
    rw [h.absent habsent e] at hpc
    cases hpc
  have hmoved : RingRun.Inv { c with init := Function.update c.init e .done } :=
    h.move hpresent (by rw [hpc]; decide) (by decide) (by simp [InitPc.zeroes])
  constructor
  case absent => exact hmoved.absent
  case one => exact hmoved.one
  case resize => exact hmoved.resize
  case idle => exact hmoved.idle
  case sized =>
    intro hsized
    obtain ⟨hinv, hfifo⟩ := h.sized hsized
    obtain ⟨hinv', hfifo'⟩ := (h.pending e hzeroes hsized).zero hinv
    rw [← hfifo'] at hfifo
    exact ⟨hinv', hfifo⟩
  case pending =>
    intro e' _ hsized
    have huntouched := h.pending e hzeroes hsized
    exact ⟨rfl, rfl, huntouched.sender, huntouched.receiver⟩

/-- A call makes an access. -/
theorem RingRun.Inv.access {c : RingRun} (h : c.Inv) {a : CommAction} {comm : Communicator}
    (hsized : c.object = .sized) (hstep : commStep c.comm a = .ok comm)
    (hstore : a = .sendStore → ∀ e, (c.init e).zeroes = false) :
    RingRun.Inv { c with comm } := by
  obtain ⟨hinv, hfifo⟩ := h.sized hsized
  have hrefines := hinv.step hstep
  constructor
  case absent => exact h.absent
  case one => exact h.one
  case resize => exact h.resize
  case idle => exact fun hunsized => absurd hsized hunsized
  case sized => exact fun _ => ⟨hrefines.inv, hfifo.trans hrefines.queue⟩
  case pending =>
    intro e hzeroes _
    refine (h.pending e hzeroes hsized).step ?_ hstep
    intro ha
    rw [hstore ha e] at hzeroes
    cases hzeroes

theorem RingRun.Inv.step {c c' : RingRun} {a : RingRunAction} (h : c.Inv)
    (hstep : ringRunStep c a = .ok c') (hafter : AfterZero c a) : c'.Inv := by
  cases a with
  | init e =>
      have hpresent (hpc : c.init e ≠ .create) : c.object ≠ .absent :=
        fun habsent => hpc (h.absent habsent e)
      rw [ringRunStep, pdesCommInitRingStep] at hstep
      split at hstep
      · split_ifs at hstep with habsent
        · cases hstep
          exact h.create e habsent
        · rename_i hpc
          cases hstep
          exact h.move habsent (by rw [hpc]; decide) (by decide) (by simp [InitPc.zeroes])
      · rename_i hpc
        cases hstep
        exact h.move (hpresent (by rw [hpc]; decide)) (by rw [hpc]; decide) (by decide)
          (by simp [InitPc.zeroes])
      · rename_i hpc
        cases hstep
        exact h.truncate hpc
      · rename_i isCreator hpc
        cases hstep
        refine h.move (hpresent (by rw [hpc]; simp)) (by rw [hpc]; simp) ?_ ?_
        · cases isCreator <;> simp
        · rw [hpc]
          cases isCreator <;> simp [InitPc.zeroes]
      · rename_i hpc
        cases hstep
        exact h.memset hpc
      · cases hstep
  | access a =>
      rw [ringRunStep] at hstep
      split_ifs at hstep with hdone hinside
      obtain ⟨comm, hcomm, hstep⟩ := bind_eq_ok.mp hstep
      cases hstep
      refine h.access hinside.1 hcomm ?_
      rintro rfl
      exact hafter

theorem RingRun.Inv.seesOwn {c : RingRun} (h : c.Inv) : c.SeesOwn := by
  by_cases hsized : c.object = .sized
  · obtain ⟨hinv, hfifo⟩ := h.sized hsized
    have hkept : c.comm.published = c.received ++ c.unread := by
      rw [RingRun.unread, if_pos hsized]
      exact (Fifo.run hfifo).1
    refine ⟨?_, hkept⟩
    rw [hinv.sent_eq, hkept, List.append_assoc]
    exact List.prefix_append ..
  · obtain ⟨hsender, hreceiver, hsent, hhanded⟩ := h.idle hsized
    have hreceived : c.received = [] := by
      rw [RingRun.received, hhanded, hreceiver]
      rfl
    refine ⟨?_, ?_⟩
    · rw [hreceived]
      exact List.nil_prefix
    · rw [hreceived, RingRun.unread, if_neg hsized, Communicator.published, hsent]
      exact List.take_nil

/-- An access that is not possible now is no access outside the ring. -/
theorem commStep_disabled {c : Communicator} {a : CommAction} {halt : Halt}
    (h : commStep c a = .error halt) : halt = .disabled := by
  cases a <;> simp only [commStep, pdesCommSendStep, pdesEnginePollStep] at h <;> split at h
  all_goals first | (cases h; done) | (cases h; rfl) | (split_ifs at h)

theorem RingRun.Inv.staysInside {c : RingRun} (h : c.Inv) : c.StaysInside := by
  intro hsized a hfault
  obtain ⟨hinv, _⟩ := h.sized hsized
  have hinside : c.comm.InBounds a := by
    cases a with
    | sendStore => exact hinv.valid.write_lt
    | recvCopy => exact hinv.valid.read_lt
    | _ => trivial
  rw [ringRunStep, if_pos (And.intro hsized hinside)] at hfault
  split_ifs at hfault
  · cases hcomm : commStep c.comm a with
    | ok comm =>
        rw [hcomm] at hfault
        cases hfault
    | error halt =>
        rw [hcomm] at hfault
        cases hfault
        cases commStep_disabled hcomm
  · cases hfault

theorem ringRunReaches_inv {c₀ c : RingRun} (h : c₀.Fresh) (hleft : c₀.LeftEmpty)
    (hc : RingRunReaches (· = c₀) (fun c a _ => AfterZero c a) c) : c.Inv := by
  refine hc.invariant ?_ fun _ _ _ _ hinv hstep hafter => hinv.step hstep hafter
  rintro c rfl
  exact h.inv hleft

/-! ### An object that is not clean -/

/-- A process opens an object that exists. -/
theorem RingRun.Fresh.opened {c : RingRun} (h : c.Fresh) (hsized : c.object = .sized)
    (e : Endpoint) :
    RingRunReaches (· = c) (fun c a _ => AfterZero c a)
      { c with init := Function.update c.init e .done } := by
  have hstart : RingRunReaches (· = c) (fun c a _ => AfterZero c a) c := .start rfl
  have hcreate : ringRunStep c (.init e) =
      .ok { c with init := Function.update c.init e .openExisting } := by
    simp [ringRunStep, pdesCommInitRingStep, h.init e, hsized]
  have hopen : ringRunStep { c with init := Function.update c.init e .openExisting } (.init e) =
      .ok { c with init := Function.update c.init e (.map false) } := by
    simp [ringRunStep, pdesCommInitRingStep]
  have hmap : ringRunStep { c with init := Function.update c.init e (.map false) } (.init e) =
      .ok { c with init := Function.update c.init e .done } := by
    simp [ringRunStep, pdesCommInitRingStep]
  exact ((hstart.next hcreate trivial).next hopen trivial).next hmap trivial

/-- An access in a sized object. -/
theorem ringRunStep_access {c : RingRun} {a : CommAction} {comm : Communicator}
    (hdone : c.init a.endpoint = .done) (hsized : c.object = .sized) (hinside : c.comm.InBounds a)
    (hstep : commStep c.comm a = .ok comm) :
    ringRunStep c (.access a) = .ok { c with comm } := by
  rw [ringRunStep, if_pos hdone, if_pos ⟨hsized, hinside⟩, hstep]
  rfl

theorem ringRunStep_outside {c : RingRun} {a : CommAction} (hdone : c.init a.endpoint = .done)
    (houtside : ¬c.comm.InBounds a) :
    ringRunStep c (.access a) = .error (.fault .outOfBounds) := by
  rw [ringRunStep, if_pos hdone, if_neg (fun h => houtside h.2)]

/-- The receiver takes a message of an earlier run, or reads past the ring. -/
theorem RingRun.Fresh.stale {c : RingRun} (h : c.Fresh) (hsized : c.object = .sized)
    (hne : c.comm.ring.readIdx ≠ c.comm.ring.writeIdx) :
    ∃ c', RingRunReaches (· = c) (fun c a _ => AfterZero c a) c' ∧
      ¬(c'.SeesOwn ∧ c'.StaysInside) := by
  have hopened := h.opened hsized .receiver
  have hdone : Function.update c.init .receiver InitPc.done .receiver = .done :=
    Function.update_self ..
  have htest : commStep c.comm .recvTest = .ok { c.comm with receiver := .copying } := by
    simp [commStep, pdesEnginePollStep, h.receiver, hne]
  have hcopying := hopened.next
    (ringRunStep_access (a := .recvTest) hdone hsized trivial htest) trivial
  by_cases hinside : c.comm.ring.readIdx < ringSize
  · have hcopy : commStep { c.comm with receiver := .copying } .recvCopy =
        .ok { c.comm with
          msg := c.comm.ring.slots c.comm.ring.readIdx
          receiver := .publishing } := rfl
    have hpublish : commStep { c.comm with
          msg := c.comm.ring.slots c.comm.ring.readIdx
          receiver := .publishing } .recvPublish =
        .ok { c.comm with
          ring := c.comm.ring.publishRead (next ringSize c.comm.ring.readIdx)
          msg := c.comm.ring.slots c.comm.ring.readIdx
          receiver := .returned (recvResult (c.comm.ring.slots c.comm.ring.readIdx)) } := rfl
    have hpublishing := hcopying.next
      (ringRunStep_access (a := .recvCopy) hdone hsized hinside hcopy) trivial
    have hreturned := hpublishing.next
      (ringRunStep_access (a := .recvPublish) hdone hsized trivial hpublish) trivial
    refine ⟨_, hreturned, fun hgood => ?_⟩
    have hown := hgood.1.own
    simp only [RingRun.received, held_returned, h.sent, List.prefix_nil] at hown
    simp at hown
  · refine ⟨_, hcopying, fun hgood => hgood.2 hsized .recvCopy ?_⟩
    exact ringRunStep_outside (a := .recvCopy) hdone hinside

/-- The sender stores past the ring. -/
theorem RingRun.Fresh.outside {c : RingRun} (h : c.Fresh) (hsized : c.object = .sized)
    (hempty : c.comm.ring.readIdx = c.comm.ring.writeIdx)
    (houtside : ¬c.comm.ring.writeIdx < ringSize) :
    ∃ c', RingRunReaches (· = c) (fun c a _ => AfterZero c a) c' ∧
      ¬(c'.SeesOwn ∧ c'.StaysInside) := by
  have hopened := h.opened hsized .sender
  have hdone : Function.update c.init .sender InitPc.done .sender = .done := Function.update_self ..
  have hroom : next ringSize c.comm.ring.writeIdx ≠ c.comm.ring.readIdx := by
    have hlt : next ringSize c.comm.ring.writeIdx < ringSize := Nat.mod_lt _ (by decide)
    omega
  have hsend : commStep c.comm (.send zeroMessage) = .ok { c.comm with
      sender := .testing zeroMessage (next ringSize c.comm.ring.writeIdx)
      sent := [zeroMessage] } := by
    simp [commStep, pdesCommSendStep, h.sender, h.sent]
  have htest : commStep { c.comm with
        sender := .testing zeroMessage (next ringSize c.comm.ring.writeIdx)
        sent := [zeroMessage] } .sendTest = .ok { c.comm with
      sender := .storing zeroMessage (next ringSize c.comm.ring.writeIdx)
      sent := [zeroMessage] } := by
    simp [commStep, pdesCommSendStep, hroom]
  have htesting := hopened.next
    (ringRunStep_access (a := .send zeroMessage) hdone hsized trivial hsend) trivial
  have hstoring := htesting.next
    (ringRunStep_access (a := .sendTest) hdone hsized trivial htest) trivial
  refine ⟨_, hstoring, fun hgood => hgood.2 hsized .sendStore ?_⟩
  exact ringRunStep_outside (a := .sendStore) hdone houtside

/-- Where the sender stores nothing before the object's creator has zeroed it, the receiver gets the
sender's messages of this run and none is lost, from exactly those objects that hold no ring or an
empty one. -/
theorem ring_sees_own {c₀ : RingRun} (h : c₀.Fresh) :
    (∀ c, RingRunReaches (· = c₀) (fun c a _ => AfterZero c a) c →
      c.SeesOwn ∧ c.StaysInside) ↔ c₀.LeftEmpty := by
  constructor
  · intro hgood hsized
    by_contra hleft
    have hbad : ∃ c', RingRunReaches (· = c₀) (fun c a _ => AfterZero c a) c' ∧
        ¬(c'.SeesOwn ∧ c'.StaysInside) := by
      by_cases hempty : c₀.comm.ring.readIdx = c₀.comm.ring.writeIdx
      · refine h.outside hsized hempty fun hinside => hleft ⟨⟨hinside, ?_⟩, hempty⟩
        rwa [hempty]
      · exact h.stale hsized hempty
    obtain ⟨c', hreach, hbad⟩ := hbad
    exact hbad (hgood c' hreach)
  · intro hleft c hc
    have hinv := ringRunReaches_inv h hleft hc
    exact ⟨hinv.seesOwn, hinv.staysInside⟩

/-- A message is published, and the ring is zeroed before the receiver looks at it. -/
theorem RingRun.Inv.not_seesOwn {c : RingRun} (h : c.Inv) (hsized : c.object = .sized)
    (huntouched : c.comm.Untouched) {msg : Message} {nextWrite : Nat}
    (hsender : c.comm.sender = .storing msg nextWrite) (init : Endpoint → InitPc) :
    ¬RingRun.SeesOwn { c with init, comm := { c.comm with ring := zeroRing, sender := .idle } } := by
  intro hsees
  obtain ⟨hinv, _⟩ := h.sized hsized
  have hempty : c.unread = [] := by
    rw [RingRun.unread, if_pos hsized]
    exact unread_of_empty hinv.valid (huntouched.readIdx.trans huntouched.writeIdx.symm)
  have hsent : c.comm.sent = c.received ++ [msg] := by
    rw [hinv.sent_eq, h.seesOwn.kept, hempty, List.append_nil, hsender]
    rfl
  have hnone :
      RingRun.unread { c with init, comm := { c.comm with ring := zeroRing, sender := .idle } } =
        [] := by
    rw [RingRun.unread, if_pos hsized]
    exact unread_of_empty zeroRing_valid rfl
  have hkept : c.comm.sent = c.received := by
    calc c.comm.sent
        = Communicator.published { c.comm with ring := zeroRing, sender := .idle } :=
          (published_eq (List.append_nil _).symm).symm
      _ = c.received ++ _ := hsees.kept
      _ = c.received := by rw [hnone, List.append_nil]
  have hlength := congrArg List.length (hsent.symm.trans hkept)
  rw [List.length_append, List.length_singleton] at hlength
  omega

/-- A store before the creator has zeroed the object may lose the message: the sender publishes it, and
the creator goes on. -/
theorem lost_of_early_store {c₀ c c' : RingRun} (h : c₀.Fresh) (hleft : c₀.LeftEmpty)
    (hc : RingRunReaches (· = c₀) (fun c a _ => AfterZero c a) c)
    (hstep : ringRunStep c (.access .sendStore) = .ok c')
    (hearly : ¬AfterZero c (.access .sendStore)) :
    ∃ c'', RingRunReaches (· = c₀) (fun _ _ _ => True) c'' ∧ ¬c''.SeesOwn := by
  have hinv : c.Inv := ringRunReaches_inv h hleft hc
  have hreach : RingRunReaches (· = c₀) (fun _ _ _ => True) c' :=
    (hc.mono (fun _ h => h) fun _ _ _ _ => trivial).next hstep trivial
  obtain ⟨e, hzeroes⟩ : ∃ e, (c.init e).zeroes = true := by
    by_contra hnone
    exact hearly fun e => Bool.eq_false_iff.mpr fun hzeroes => hnone ⟨e, hzeroes⟩
  rw [ringRunStep] at hstep
  split_ifs at hstep with hdone hinside
  obtain ⟨comm, hcomm, hstep⟩ := bind_eq_ok.mp hstep
  cases hstep
  simp only [commStep, pdesCommSendStep] at hcomm
  split at hcomm
  · rename_i msg nextWrite hsender
    cases hcomm
    have hsized := hinside.1
    have huntouched := hinv.pending e hzeroes hsized
    have hpublished := hreach.next
      (ringRunStep_access (a := .sendPublish) hdone hsized trivial rfl) trivial
    have hzero {init : Endpoint → InitPc} (hpc : init e = .zero)
        (hc : RingRunReaches (· = c₀) (fun _ _ _ => True)
          ({ c with init, comm := { c.comm with
            ring := (c.comm.ring.store msg).publishWrite nextWrite, sender := .idle } } : RingRun)) :
        ∃ c'', RingRunReaches (· = c₀) (fun _ _ _ => True) c'' ∧ ¬c''.SeesOwn := by
      have hmemset : ringRunStep ({ c with init, comm := { c.comm with
          ring := (c.comm.ring.store msg).publishWrite nextWrite, sender := .idle } } : RingRun)
          (.init e) = .ok { c with
            init := Function.update init e .done
            comm := { c.comm with ring := zeroRing, sender := .idle } } := by
        simp [ringRunStep, pdesCommInitRingStep, hpc]
      exact ⟨_, hc.next hmemset trivial, hinv.not_seesOwn hsized huntouched hsender _⟩
    cases hpc : c.init e with
    | resize =>
        have hunsized := ((hinv.resize e).mp hpc).2
        rw [hsized] at hunsized
        cases hunsized
    | map isCreator =>
        rw [hpc] at hzeroes
        have hmap : ringRunStep ({ c with comm := { c.comm with
            ring := (c.comm.ring.store msg).publishWrite nextWrite, sender := .idle } } : RingRun)
            (.init e) = .ok { c with
              init := Function.update c.init e .zero
              comm := { c.comm with
                ring := (c.comm.ring.store msg).publishWrite nextWrite
                sender := .idle } } := by
          have hcreator : isCreator = true := hzeroes
          simp [ringRunStep, pdesCommInitRingStep, hpc, hcreator]
        exact hzero (Function.update_self ..) (hpublished.next hmap trivial)
    | zero => exact hzero hpc hpublished
    | _ =>
        rw [hpc] at hzeroes
        cases hzeroes
  · cases hcomm

/-- No object exists, and neither process has started. -/
def noObject : RingRun where
  object := .absent
  init _ := .create
  comm := wrappingRing

/-- An earlier run has left one message in the object. -/
def leftObject : RingRun where
  object := .sized
  init _ := .create
  comm := { wrappingRing with ring := { writeIdx := 1, readIdx := 0, slots := fun _ => endMessage } }

theorem noObject_fresh : noObject.Fresh := ⟨fun _ => rfl, rfl, rfl, rfl, rfl⟩

/-- The receiver creates the object and the sender opens it. -/
def receiverCreates : List RingRunAction :=
  [.init .receiver, .init .receiver, .init .receiver, .init .sender, .init .sender, .init .sender]

/-- A call of `pdes_comm_send` without an interruption. -/
def oneSend : List RingRunAction :=
  [.access (.send endMessage), .access .sendTest, .access .sendStore, .access .sendPublish]

/-- A call of `pdes_comm_recv` in `pdes_engine_poll`. -/
def oneRecv : List RingRunAction :=
  [.access .recvTest, .access .recvCopy, .access .recvPublish, .access .poll]

set_option maxRecDepth 100000 in
theorem ring_sees_own_noObject :
    noObject.LeftEmpty ∧ ∃ c, RingRunReaches (· = noObject) (fun c a _ => AfterZero c a) c ∧
      c.received = [endMessage] ∧ c.SeesOwn := by
  have hleft : noObject.LeftEmpty := fun hsized => by cases hsized
  have hrun : (run ringRunStep (fun c a _ => AfterZero c a) noObject
      (receiverCreates ++ .init .receiver :: oneSend ++ oneRecv)).map RingRun.received =
      some [endMessage] := by decide
  obtain ⟨c, hc, hreceived⟩ := Option.map_eq_some_iff.mp hrun
  have hstart : RingRunReaches (· = noObject) (fun c a _ => AfterZero c a) noObject := .start rfl
  have hreach := hstart.run hc
  exact ⟨hleft, c, hreach, hreceived, ((ring_sees_own noObject_fresh).mpr hleft c hreach).1⟩

set_option maxRecDepth 100000 in
/-- The receiver gets a message of an earlier run, and where it creates the object late, the message
that the sender has published before is gone. -/
theorem not_seesOwn_of_history_of_order :
    (∃ c, RingRunReaches (· = leftObject) (fun _ _ _ => True) c ∧ ¬c.SeesOwn) ∧
      ∃ c, RingRunReaches (· = noObject) (fun _ _ _ => True) c ∧ ¬c.SeesOwn := by
  have hleft : (run ringRunStep (fun _ _ _ => True) leftObject
      ([.init .receiver, .init .receiver, .init .receiver] ++ oneRecv)).map
      (fun c => (c.received, c.comm.sent)) = some ([endMessage], []) := by decide
  have hlate : (run ringRunStep (fun _ _ _ => True) noObject
      (receiverCreates ++ oneSend ++ [.init .receiver])).map
      (fun c => (c.comm.published.length, (c.received ++ c.unread).length)) = some (1, 0) := by decide
  refine ⟨?_, ?_⟩
  · obtain ⟨c, hc, hends⟩ := Option.map_eq_some_iff.mp hleft
    have hstart : RingRunReaches (· = leftObject) (fun _ _ _ => True) leftObject := .start rfl
    refine ⟨c, hstart.run hc, fun hsees => ?_⟩
    obtain ⟨hreceived, hsent⟩ := Prod.mk.inj hends
    have hown := hsees.own
    rw [hreceived, hsent] at hown
    exact absurd hown (by decide)
  · obtain ⟨c, hc, hends⟩ := Option.map_eq_some_iff.mp hlate
    have hstart : RingRunReaches (· = noObject) (fun _ _ _ => True) noObject := .start rfl
    refine ⟨c, hstart.run hc, fun hsees => ?_⟩
    obtain ⟨hpublished, hkept⟩ := Prod.mk.inj hends
    rw [hsees.kept, hkept] at hpublished
    cases hpublished

end LeanPdes
