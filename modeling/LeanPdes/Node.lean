import LeanPdes.Message

/-! The state of one simulator process: the fields of `PDESEngine` and `PDESWWT` that the modelled
functions use, the QEMU timers and bottom halves they arm, the ring the process writes to, and
where its main thread stands. -/

namespace LeanPdes

open Words

/-- A snapshot format as the four bytes of its C enumeration. -/
abbrev SnapshotFormat := UInt32

/-- A timer pointer: `NULL`, a timer that is not pending, or one armed for a deadline. -/
inductive QEMUTimer (τ : Type)
  | null
  | stopped
  | armed (expire : τ)
  deriving DecidableEq, Repr

/-- `timer_mod`: a negative expiry is stored as zero. -/
def timerMod (expire : Int) : QEMUTimer Int := .armed (max expire 0)

/-- A `GHashTable` from `guint` keys to integers stored in pointers. -/
abbrev GHashTable := Nat → Option Int

/-- The bottom half that runs `create_checkpoint_bh`, with its argument. -/
structure CheckpointBh where
  exitAfter : Bool
  scheduled : Bool
  deriving DecidableEq, Repr

structure PDESEngine where
  latencyns : Int
  pairHasFinished : Bool
  paused : Bool
  firstSyncTime : Int
  firstSyncVirtualTime : Int
  neighbourDrained : Int
  checkpointInProgress : Bool
  master : Bool
  initFlag : Int
  masterInit : Bool
  pauseBh : Bool
  needsToCheckpoint : Bool
  notifiedNeighbors : Bool
  checkpointName : List UInt8
  checkpointFormat : SnapshotFormat
  checkpointQuantumRound : Nat
  boundryCheckpointBh : Option CheckpointBh
  skipBoundryCheckAfterCheckpoint : Bool
  notifiedNeighborsForExit : Bool
  readyToExitNeighbors : Int
  permittedToExit : Bool
  readyToExit : Bool
  endMessageSent : Bool
  intentSent : Bool

structure PDESWWT where
  latencyns : Int
  quantumNs : Int
  numberOfNeighbors : Int
  numberOfNeighborsFinished : Int
  shouldSync : Bool
  quantumTimer : QEMUTimer Int
  syncCounts : GHashTable
  currentQuantumRound : Nat
  syncCheckTimer : QEMUTimer Unit
  finishedQuantum : Bool

/-- A received packet that waits for its virtual time. `timer` is the expiry of its one-time timer. -/
structure MessageReceiveContext where
  msg : Message
  timestampNs : Int
  timer : Int
  deriving DecidableEq

/-- The call of `pdes_engine_poll` that the main thread is in. -/
inductive PollSite
  /-- the callback of `msg_rec_poll_timer` -/
  | timer
  /-- the poll of `quanta_sync`, between the pause and the SYNC -/
  | quantaSync
  /-- `is_waiting_for_quanta` in `wwt_sync_check` -/
  | isWaiting
  /-- the body of the wait loop of `wwt_sync_check` -/
  | waitLoop
  deriving DecidableEq, Repr

/-- What a node has done that others can see: calls made to the ring, to QEMU and to the packet
consumer, and the calls it received, oldest first. Nothing in the program reads it. -/
inductive Event
  | wwtSend (round : Nat) (time : Int) (data : List UInt8)
  | commSend (msg : Message)
  | processMessage (msg : Message)
  | recvCb (time : Int) (data : List UInt8)
  | setCheckpointValues (round : Nat)
  | saveSnapshot (name : List UInt8) (checkpointRound currentRound : Nat)
  | canStop
  deriving DecidableEq

structure Node where
  engine : PDESEngine
  wwt : PDESWWT
  /-- `SNAPSHOT_FORMAT_EXTERNAL_INCREMENTAL_BASE` of QEMU's headers. -/
  incrementalBase : SnapshotFormat
  /-- `QEMU_CLOCK_VIRTUAL`, which never reads negative. -/
  virtualClock : Nat
  /-- Packets whose one-time timer is armed, in the order of arming. -/
  receiveContexts : List MessageReceiveContext
  site : Option PollSite
  /-- Messages of calls of `pdes_comm_send` that are not in the ring yet. -/
  sending : List Message
  /-- The unread messages of the ring the node writes to, oldest first. -/
  ring : List Message
  /-- `exit(0)` is called; the process is gone once its last send has returned. -/
  exitCalled : Bool
  log : List Event

/-- The node has left the simulation. -/
def Node.Exited (n : Node) : Prop := n.exitCalled = true ∧ n.sending = []

instance (n : Node) : Decidable n.Exited := inferInstanceAs (Decidable (_ ∧ _))

/-- The messages on the way to the neighbour. -/
def Node.inFlight (n : Node) : List Message := n.ring ++ n.sending

/-- The node's virtual time since its own set-up. -/
def Node.universalTime (n : Node) : Int :=
  int64 (n.virtualClock - n.engine.firstSyncVirtualTime)

/-- `get_universal_virtual_time`. -/
def getUniversalVirtualTime (n : Node) : Except Fault Int :=
  if n.engine.firstSyncVirtualTime = -1 then .error .firstSyncVirtualTimeUnset
  else .ok n.universalTime

/-- The first part of `pdes_comm_send`: the call is made and waits for room in the ring. -/
def pdesCommSend (n : Node) (msg : Message) : Node :=
  { n with sending := n.sending ++ [msg], log := n.log ++ [.commSend msg] }

/-- `pdes_engine_send`. -/
def pdesEngineSend (n : Node) (msg : Message) : Except Fault Node :=
  if n.engine.firstSyncTime = -1 then
    if msg.type = msgTypeSync then
      .ok (pdesCommSend { n with engine.firstSyncTime := n.virtualClock } msg)
    else .error .firstMessageNotSync
  else .ok (pdesCommSend n msg)

/-- `sync_count_increment`. The key keeps the low 32 bits of the round. -/
def syncCountIncrement (table : GHashTable) (round : Nat) : GHashTable :=
  let key := round % 2 ^ 32
  let count := (table key).getD 0
  Function.update table key (some (int32 (count + 1)))

/-- `sync_count_get`. -/
def syncCountGet (table : GHashTable) (round : Nat) : Int :=
  (table (round % 2 ^ 32)).getD 0

theorem syncCountGet_increment {table : GHashTable} {seen : Nat} (hseen : seen < 2 ^ 32)
    (htable : ∀ k < 2 ^ 32, syncCountGet table k = if k < seen then 1 else 0) :
    ∀ k < 2 ^ 32, syncCountGet (syncCountIncrement table seen) k = if k < seen + 1 then 1 else 0 := by
  intro k hk
  have hold := htable k hk
  rw [syncCountGet, Nat.mod_eq_of_lt hk] at hold
  rw [syncCountGet, syncCountIncrement, Nat.mod_eq_of_lt hseen, Nat.mod_eq_of_lt hk]
  by_cases heq : k = seen
  · subst heq
    have hcount : (table k).getD 0 = 0 := by simpa using hold
    rw [Function.update_self, hcount]
    simp [int32, Int.bmod_def]
  · rw [Function.update_of_ne heq, hold]
    have hiff : k < seen + 1 ↔ k < seen := by omega
    simp only [hiff]

end LeanPdes
