import LeanPdes.Engine
import LeanPdes.Reach
import LeanPdes.TwoPartyBarrier

/-! Two nodes joined by two rings. A step is one callback of a node, one iteration of
`pdes_engine_poll`, one message that enters a ring, or a move of a node's environment: its virtual
clock, its guest, the thread that calls `can_stop`. A thread inside `pdes_comm_send` waits until its
message is in the ring, and the node does nothing else meanwhile. -/

namespace LeanPdes

open Words TwoParty Reach

inductive Action
  /-- `setup_timer` fires. -/
  | setup
  /-- The virtual clock moves to `t`. -/
  | advance (t : Nat)
  /-- The guest sends a packet. -/
  | wwtSend (data : List UInt8)
  /-- The one-time timer of the `k`-th waiting packet fires. -/
  | deliver (k : Nat)
  /-- `msg_rec_poll_timer` fires. -/
  | pollTimer
  /-- `pdes_engine_poll` takes a message. -/
  | pollMessage
  /-- `pdes_engine_poll` finds the ring empty and returns. -/
  | pollReturn
  /-- `quantum_timer` fires. -/
  | quantaSync
  /-- `sync_check_timer` fires. -/
  | syncCheck
  | pauseBh
  | checkpointBh
  /-- The oldest message of the pending sends enters the ring. -/
  | commSend
  | finishInitiateCheckpoint
  | canStop
  | notifyNeighboursOfEnd
  | engineDestroy
  deriving DecidableEq

/-- Why there is no next state: the action is not possible now, or the process ended by a fault. -/
inductive Halt
  | disabled
  | fault (f : Fault)
  deriving DecidableEq, Repr

/-- A callback that runs when `enabled` holds. -/
def callback (enabled : Prop) [Decidable enabled] (result : Except Fault Node) : Except Halt Node :=
  if enabled then result.mapError Halt.fault else .error .disabled

def QEMUTimer.isArmed {τ : Type} : QEMUTimer τ → Bool
  | .armed _ => true
  | _ => false

/-- The actions that read and write the node alone. -/
def Node.act (n : Node) : Action → Except Halt Node
  | .setup => callback (n.site = none ∧ n.wwt.quantumTimer = .null) (.ok (setupWwt n))
  | .advance t =>
      callback (n.virtualClock ≤ t ∧ t < 2 ^ 63) (.ok { n with virtualClock := t })
  | .wwtSend data => callback True (LeanPdes.wwtSend n data)
  | .deliver k =>
      match n.receiveContexts[k]? with
      | none => .error .disabled
      | some ctx =>
          callback True (processMessageAtVirtualTime
            { n with receiveContexts := n.receiveContexts.eraseIdx k } ctx)
  | .pollTimer => callback (n.site = none) (.ok { n with site := some .timer })
  | .pollReturn =>
      match n.site with
      | none => .error .disabled
      | some site => callback True (LeanPdes.pollReturn n site)
  | .quantaSync =>
      callback (n.site = none ∧ n.wwt.quantumTimer.isArmed)
        (LeanPdes.quantaSync { n with wwt.quantumTimer := .stopped })
  | .syncCheck =>
      callback (n.site = none ∧ n.wwt.syncCheckTimer.isArmed)
        (.ok { n with wwt.syncCheckTimer := .stopped, site := some .isWaiting })
  | .pauseBh => callback (n.site = none ∧ n.engine.pauseBh) (.ok (pdesPauseBh n))
  | .checkpointBh =>
      match n.engine.boundryCheckpointBh with
      | none => .error .disabled
      | some bh =>
          callback (n.site = none ∧ bh.scheduled) (createCheckpointBh bh.exitAfter
            { n with engine.boundryCheckpointBh := some { bh with scheduled := false } })
  | .finishInitiateCheckpoint =>
      callback (n.site = none) (LeanPdes.finishInitiateCheckpoint n)
  | .canStop => callback True ((LeanPdes.canStop n).map Prod.snd)
  | .notifyNeighboursOfEnd => callback True (LeanPdes.notifyNeighboursOfEnd n)
  | .engineDestroy => callback True (pdesEngineDestroy n)
  | .pollMessage => .error .disabled
  | .commSend => .error .disabled

abbrev System := Side → Node

/-- Whether the ring has room for one more unread message; `none` is a ring without a bound. -/
def HasRoom (capacity : Option Nat) (ring : List Message) : Prop :=
  ∀ c ∈ capacity, ring.length < c

instance (capacity : Option Nat) (ring : List Message) : Decidable (HasRoom capacity ring) :=
  inferInstanceAs (Decidable (∀ c ∈ capacity, ring.length < c))

/-- The capacity of the shared-memory ring: one slot stays free to tell full from empty. -/
def ringCapacity : Nat := ringSize - 1

/-- The node can run a callback: it has not called `exit(0)`, and no send of it waits. -/
def Node.Idle (n : Node) : Prop := n.exitCalled = false ∧ n.sending = []

instance (n : Node) : Decidable n.Idle := inferInstanceAs (Decidable (_ ∧ _))

/-- One step of a node. The poll returns only when the ring is empty. -/
def step (capacity : Option Nat) (s : System) : Side × Action → Except Halt System
  | (i, .commSend) =>
      match (s i).sending with
      | [] => .error .disabled
      | msg :: rest =>
          if HasRoom capacity (s i).ring then
            .ok (Function.update s i { s i with sending := rest, ring := (s i).ring ++ [msg] })
          else .error .disabled
  | (i, .pollMessage) =>
      match (s i).site, (s i.peer).ring with
      | some site, msg :: rest =>
          if (s i).Idle then do
            let n ← (pdesEnginePoll (s i) site msg).mapError Halt.fault
            return Function.update (Function.update s i.peer { s i.peer with ring := rest }) i n
          else .error .disabled
      | _, _ => .error .disabled
  | (i, a) =>
      if (s i).Idle ∧ (a = .pollReturn → (s i.peer).ring = []) then do
        let n ← (s i).act a
        return Function.update s i n
      else .error .disabled

/-- Every other action is a callback of one node. -/
theorem step_callback {capacity : Option Nat} {s : System} {i : Side} {a : Action}
    (hsend : a ≠ .commSend) (hpoll : a ≠ .pollMessage) :
    step capacity s (i, a) =
      if (s i).Idle ∧ (a = .pollReturn → (s i.peer).ring = []) then do
        let n ← (s i).act a
        return Function.update s i n
      else .error .disabled := by
  cases a <;> first | rfl | contradiction

/-- What the two nodes are created with. -/
structure Config where
  sync : Bool
  latencyns : Int
  master : Side → Bool
  incrementalBase : SnapshotFormat
  clock : Side → Nat
  clock_lt : ∀ i, clock i < 2 ^ 63

/-- Both nodes after `pdes_engine_wwt_create`, with empty rings. -/
def Config.created (cfg : Config) : System := fun i =>
  pdesEngineWwtCreate cfg.sync cfg.latencyns (cfg.master i) cfg.incrementalBase (cfg.clock i)

/-- The states that the two nodes reach from their creation in runs whose steps meet `guard`. -/
abbrev Config.Reaches (cfg : Config) (capacity : Option Nat)
    (guard : System → Side × Action → System → Prop) : System → Prop :=
  Reachable (step capacity) guard (· = cfg.created)

theorem Config.Reaches.of_run {cfg : Config} {capacity : Option Nat}
    {guard : System → Side × Action → System → Prop} [∀ s a s', Decidable (guard s a s')]
    {acts : List (Side × Action)} {s : System}
    (hrun : run (step capacity) guard cfg.created acts = some s) : cfg.Reaches capacity guard s := by
  have hstart : cfg.Reaches capacity guard cfg.created := .start rfl
  exact hstart.run hrun

/-- A pair of nodes for concrete runs. -/
def twoNodes : Config where
  sync := true
  latencyns := 1000
  master i := i = .left
  incrementalBase := 2
  clock _ := 5
  clock_lt _ := by decide

/-- A pair of nodes whose first quantum is as long as a signed 64-bit time allows. -/
def hugeLatency (clock : Nat) (hclock : clock < 2 ^ 63) : Config where
  sync := true
  latencyns := 2 ^ 63 - 1
  master i := i = .left
  incrementalBase := 2
  clock _ := clock
  clock_lt _ := hclock

/-- Both nodes are set up and pass round 0. -/
def firstRound : List (Side × Action) :=
  [(.left, .setup), (.right, .setup), (.left, .quantaSync), (.left, .pollReturn),
    (.left, .commSend), (.right, .quantaSync), (.right, .pollMessage), (.right, .pollReturn),
    (.right, .commSend), (.right, .syncCheck), (.right, .pollReturn), (.left, .syncCheck),
    (.left, .pollMessage), (.left, .pollReturn)]

end LeanPdes
