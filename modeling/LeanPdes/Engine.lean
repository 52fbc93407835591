import LeanPdes.Node

/-! The functions of a node, as the sources compute them with `CONFIG_LIBQFLEX` off. A call that
ends the process by an assert or by an access outside an object returns a `Fault`. A callback that
polls is cut at the poll: the part before it enters a `PollSite`, and the part after it is run by
the poll's return. -/

namespace LeanPdes

open Words

/-- `"QPDES"`, the prefix of a snapshot name on the wire. -/
def qpdes : List UInt8 := [81, 80, 68, 69, 83]

/-- `"init_warmed"`. -/
def initWarmed : List UInt8 := [105, 110, 105, 116, 95, 119, 97, 114, 109, 101, 100]

/-- The C string at the start of a buffer. -/
def cString (bytes : List UInt8) : List UInt8 := bytes.takeWhile (· ≠ 0)

/-- Sends a message without data, stamped with the node's universal time. -/
def sendControl (n : Node) (type : UInt8) : Except Fault Node := do
  let tsNs ← getUniversalVirtualTime n
  let msg ← createMessage [] type tsNs
  return pdesCommSend n msg

/-- `_send_end_if_handshake_complete`. -/
def sendEndIfHandshakeComplete (n : Node) : Except Fault Node :=
  if !n.engine.permittedToExit then .ok n
  else if n.engine.endMessageSent then .ok n
  else sendControl { n with engine.endMessageSent := true } endOfEmulation

/-- `notify_neighbours_of_end`. -/
def notifyNeighboursOfEnd (n : Node) : Except Fault Node :=
  if n.engine.notifiedNeighborsForExit then .ok n
  else sendEndIfHandshakeComplete { n with engine.notifiedNeighborsForExit := true }

/-- `destroy_strategy`. -/
def destroyStrategy (n : Node) : Node := { n with wwt.syncCheckTimer := .null }

/-- `pdes_engine_destroy`. With a checkpoint pending the exit is left to its bottom half. -/
def pdesEngineDestroy (n : Node) : Except Fault Node := do
  let n ← notifyNeighboursOfEnd n
  if n.engine.needsToCheckpoint then
    let bh := n.engine.boundryCheckpointBh.getD { exitAfter := true, scheduled := false }
    return { n with engine.boundryCheckpointBh := some { bh with scheduled := true } }
  else
    return { destroyStrategy n with exitCalled := true }

/-- The two places where the master lets both nodes exit: the body of the tests in `can_stop` and
in `wwt_sync_check`. -/
def grantPermission (n : Node) : Except Fault Node := do
  let n := { n with engine.permittedToExit := true }
  let n ← sendControl n permissionToEndEmulation
  sendEndIfHandshakeComplete n

/-- `can_stop`, with its return value. -/
def canStop (n : Node) : Except Fault (Bool × Node) := do
  let n := { n with log := n.log ++ [.canStop] }
  let n ← (
    if !n.engine.master then
      if !n.engine.intentSent then do
        let n ← sendControl n intentToEndEmulation
        return { n with engine.intentSent := true }
      else .ok n
    else if 1 ≤ n.engine.readyToExitNeighbors ∧ !n.engine.permittedToExit then grantPermission n
    else .ok n)
  let n := { n with engine.readyToExit := true }
  return (n.engine.permittedToExit && n.engine.pairHasFinished, n)

/-- The master's arm of `wwt_sync_check`. -/
def wwtSyncCheckMaster (n : Node) : Except Fault Node :=
  if n.engine.master then
    if 1 ≤ n.engine.readyToExitNeighbors ∧ n.engine.readyToExit ∧ !n.engine.permittedToExit then
      grantPermission n
    else .ok n
  else .ok n

/-- `set_checkpoint_values_for_master`. -/
def setCheckpointValuesForMaster (n : Node) : Node :=
  { n with
    engine.notifiedNeighbors := false
    engine.needsToCheckpoint := true
    engine.checkpointFormat := n.incrementalBase
    engine.checkpointQuantumRound := n.wwt.currentQuantumRound
    engine.checkpointName := initWarmed
    log := n.log ++ [.setCheckpointValues n.wwt.currentQuantumRound] }

/-- `finish_initiate_checkpoint`. -/
def finishInitiateCheckpoint (n : Node) : Except Fault Node :=
  if n.engine.master then
    let n := { n with engine.masterInit := true }
    if 1 ≤ n.engine.initFlag then .ok (setCheckpointValuesForMaster n) else .ok n
  else sendControl n checkpointInitStep

/-- The part of `create_checkpoint_bh` that saves the snapshot and clears the request. -/
def saveCheckpoint (n : Node) : Node :=
  { n with
    engine.checkpointInProgress := false
    engine.needsToCheckpoint := false
    engine.notifiedNeighbors := false
    engine.checkpointQuantumRound := 0
    engine.boundryCheckpointBh := none
    engine.skipBoundryCheckAfterCheckpoint := true
    log := n.log ++ [.saveSnapshot n.engine.checkpointName n.engine.checkpointQuantumRound
      n.wwt.currentQuantumRound] }

/-- `create_checkpoint_bh`. -/
def createCheckpointBh (exitAfter : Bool) (n : Node) : Except Fault Node :=
  if !n.engine.needsToCheckpoint then .ok n
  else do
    let n := saveCheckpoint n
    let n ← (
      if n.engine.checkpointName = initWarmed ∧ n.engine.master then pdesEngineDestroy n else .ok n)
    return { n with exitCalled := n.exitCalled || exitAfter }

/-- The size of `snapshot_name_data` in `notify_neighbors_for_drain`. -/
def snapshotNameDataSize : Nat := 1006

/-- `notify_neighbors_for_drain`, with its return value. Where the message is sent the function ends
without a `return`; no caller reads the value. -/
def notifyNeighborsForDrain (n : Node) (snapshotName : List UInt8) (format : SnapshotFormat) :
    Except Fault (Int × Node) :=
  if !n.engine.needsToCheckpoint then .error .drainNotNeeded
  else if n.engine.notifiedNeighbors then .ok (0, n)
  else
    let n := { n with engine.notifiedNeighbors := true }
    let text := qpdes ++ snapshotName
    if snapshotNameDataSize ≤ text.length then .ok (-1, n)
    -- the format and the round are copied behind the text
    else if snapshotNameDataSize < text.length + 12 then .error .outOfBounds
    else do
      let payload := text ++ bytesLE 4 format.toNat ++ bytesLE 8 n.wwt.currentQuantumRound
      let tsNs ← getUniversalVirtualTime n
      let msg ← createMessage payload drainStart tsNs
      return (0, pdesCommSend n msg)

/-- `valid_round` of `wwt_recivied_callback`. -/
def Node.ValidRound (n : Node) (msgRound : Nat) : Prop :=
  msgRound = n.wwt.currentQuantumRound ∨
    (n.wwt.finishedQuantum = true ∧ msgRound = (n.wwt.currentQuantumRound + 1) % 2 ^ 64)

instance (n : Node) (msgRound : Nat) : Decidable (n.ValidRound msgRound) :=
  inferInstanceAs (Decidable (_ ∨ _))

/-- The context of a received packet, with its one-time timer. -/
def receiveContext (n : Node) (msg : Message) (processingTime : Int) : MessageReceiveContext :=
  let rawProcessingTime := int64 (processingTime + n.engine.firstSyncVirtualTime)
  { msg, timestampNs := rawProcessingTime, timer := max rawProcessingTime 0 }

/-- A received packet gets a one-time timer for its processing time. -/
def armReceiveContext (n : Node) (msg : Message) (processingTime : Int) : Node :=
  { n with receiveContexts := n.receiveContexts ++ [receiveContext n msg processingTime] }

/-- `wwt_recivied_callback`. -/
def wwtReciviedCallback (n : Node) (msg : Message) : Except Fault Node := do
  let translatedTime := int64 msg.tsNs
  let currentVirtualTimeTranslated ← getUniversalVirtualTime n
  if msg.type = msgTypeSync then
    if n.wwt.shouldSync ∧ ¬n.ValidRound msg.syncRound then .error .wrongQuantumRound
    else .ok { n with wwt.syncCounts := syncCountIncrement n.wwt.syncCounts msg.syncRound }
  else if msg.type = msgTypeNormal then
    if n.wwt.shouldSync then
      if translatedTime < currentVirtualTimeTranslated then .error .timestampInPast
      else .ok (armReceiveContext n msg translatedTime)
    else if int64 (currentVirtualTimeTranslated + 1) < translatedTime then
      .ok (armReceiveContext n msg translatedTime)
    else .ok (armReceiveContext n msg (int64 (currentVirtualTimeTranslated + 1)))
  else .ok n

/-- `process_message_at_virtual_time` on a context whose timer fired. The packet consumer's callback
is never `NULL`: `net_init_pdes` passes `pdes_recv_callback`. -/
def processMessageAtVirtualTime (n : Node) (ctx : MessageReceiveContext) : Except Fault Node :=
  if 0 < ctx.msg.len ∧ ctx.msg.type ≠ msgTypeSync then
    .ok { n with log := n.log ++ [.recvCb n.universalTime (ctx.msg.bytes 0 ctx.msg.len)] }
  else .error .invalidReceiveContext

/-- The `DRAIN_START` arm of `process_message`. The length of the name is an unsigned difference:
for a shorter message it wraps, and the copy of the name leaves the message. -/
def receiveDrainStart (n : Node) (msg : Message) : Except Fault Node :=
  let n := { n with engine.checkpointInProgress := true }
  if !n.engine.master then
    if msg.len < 12 then .error .outOfBounds
    else
      let nameLen := msg.len - 12
      .ok { n with
        engine.needsToCheckpoint := true
        engine.checkpointName := cString (msg.bytes 0 nameLen)
        engine.checkpointFormat := UInt32.ofNat (valueLE (msg.bytes nameLen 4))
        engine.checkpointQuantumRound := valueLE (msg.bytes (nameLen + 4) 8) }
  else .ok { n with engine.neighbourDrained := int32 (n.engine.neighbourDrained + 1) }

/-- The `CHECKPOINT_INIT_STEP` arm of `process_message`. -/
def receiveCheckpointInitStep (n : Node) : Node :=
  let n := { n with engine.initFlag := int32 (n.engine.initFlag + 1) }
  if n.engine.master ∧ n.engine.initFlag = 1 ∧ n.engine.masterInit then
    setCheckpointValuesForMaster n
  else n

/-- `process_message` after its callback: the arms of the control messages. -/
def processControl (n : Node) (msg : Message) : Except Fault Node := do
  let n :=
    if msg.type = intentToEndEmulation ∧ n.engine.master then
      { n with engine.readyToExitNeighbors := int32 (n.engine.readyToExitNeighbors + 1) }
    else n
  let n ← (
    if msg.type = permissionToEndEmulation then
      sendEndIfHandshakeComplete { n with engine.permittedToExit := true }
    else .ok n)
  let n ← (
    if msg.type = endOfEmulation then
      if !n.engine.permittedToExit then .error .endBeforePermission
      else .ok { n with engine.pairHasFinished := true }
    else .ok n)
  if msg.type = drainStart then receiveDrainStart n msg
  else if msg.type = drainEnd then
    if !n.engine.master then return { n with engine.checkpointInProgress := false } else return n
  else if msg.type = checkpointInitStep then return receiveCheckpointInitStep n
  else return n

/-- `process_message`. -/
def processMessage (n : Node) (msg : Message) : Except Fault Node := do
  let n ← wwtReciviedCallback { n with log := n.log ++ [.processMessage msg] } msg
  processControl n msg

/-! ### Sending and the quantum -/

/-- `wwt_send`. -/
def wwtSend (n : Node) (data : List UInt8) : Except Fault Node := do
  let currentVirtualTime ← getUniversalVirtualTime n
  let scheduledTime := int64 (currentVirtualTime + n.wwt.latencyns)
  let msg ← createMessage data msgTypeNormal scheduledTime
  pdesEngineSend { n with
    log := n.log ++ [.wwtSend n.wwt.currentQuantumRound currentVirtualTime data] } msg

/-- `send_sync`. -/
def sendSync (n : Node) : Except Fault Node := do
  let tsNs ← getUniversalVirtualTime n
  let msg ← createMessage (bytesLE 8 n.wwt.currentQuantumRound) msgTypeSync tsNs
  pdesEngineSend n msg

/-- `setup_wwt`. -/
def setupWwt (n : Node) : Node :=
  { n with
    engine.firstSyncVirtualTime := n.virtualClock
    wwt.quantumTimer := timerMod 0
    wwt.numberOfNeighborsFinished := 0 }

/-- `pdes_pause`. -/
def pdesPause (n : Node) : Except Fault Node :=
  if n.engine.pauseBh then .error .pauseBhNotNull
  else .ok { n with engine.paused := true, engine.pauseBh := true }

/-- `pdes_pause_bh`. -/
def pdesPauseBh (n : Node) : Node := { n with engine.pauseBh := false }

/-- `pdes_play`. -/
def pdesPlay (n : Node) : Node := { n with engine.paused := false }

/-- `quanta_sync` up to its poll. -/
def quantaSync (n : Node) : Except Fault Node := do
  let n := { n with wwt.finishedQuantum := true }
  let n ← (if n.wwt.shouldSync then pdesPause n else .ok n)
  return { n with site := some .quantaSync }

/-- `quanta_sync` after its poll. -/
def quantaSyncFinish (n : Node) : Except Fault Node := do
  let n ← (
    if n.engine.needsToCheckpoint ∧ !n.engine.notifiedNeighbors then
      Prod.snd <$> notifyNeighborsForDrain n n.engine.checkpointName n.engine.checkpointFormat
    else .ok n)
  let n ← (if n.wwt.shouldSync then sendSync n else .ok n)
  if n.wwt.syncCheckTimer ≠ .null then .error .syncCheckTimerNotNull
  else .ok { n with wwt.syncCheckTimer := .armed () }

/-- `boundry_checkpoint_bh` is created and scheduled unless it exists. -/
def scheduleCheckpointBh (n : Node) : Node :=
  let bh := n.engine.boundryCheckpointBh.getD { exitAfter := false, scheduled := true }
  { n with engine.boundryCheckpointBh := some bh }

/-- `sync_checkpoint_check`, with its return value: whether the round is held. -/
def syncCheckpointCheck (n : Node) : Except Fault (Bool × Node) :=
  if n.engine.needsToCheckpoint then do
    let n ← (
      if !n.engine.notifiedNeighbors then
        Prod.snd <$> notifyNeighborsForDrain n n.engine.checkpointName n.engine.checkpointFormat
      else .ok n)
    if n.wwt.currentQuantumRound < n.engine.checkpointQuantumRound ∧ n.wwt.shouldSync then
      .ok (false, n)
    else if n.wwt.currentQuantumRound = n.engine.checkpointQuantumRound ∨ !n.wwt.shouldSync then
      .ok (true, { scheduleCheckpointBh n with wwt.syncCheckTimer := .armed () })
    else .error .checkpointRoundPassed
  else .ok (false, n)

/-- The end of `wwt_sync_check`: the next round begins. -/
def beginQuantum (n : Node) : Node :=
  let round : Nat := (n.wwt.currentQuantumRound + 1) % 2 ^ 64
  let nextQuantumTime := int64 ((round : Int) * n.wwt.quantumNs)
  let nextQuantumTimeLocal := int64 (nextQuantumTime + n.engine.firstSyncVirtualTime)
  let n := { n with
    wwt.numberOfNeighborsFinished :=
      int64 (n.wwt.numberOfNeighborsFinished - n.wwt.numberOfNeighbors)
    wwt.currentQuantumRound := round
    wwt.finishedQuantum := false
    wwt.quantumTimer := timerMod nextQuantumTimeLocal }
  if n.wwt.shouldSync then pdesPlay n else n

/-- `wwt_sync_check` once it no longer waits. -/
def wwtSyncCheckFinish (n : Node) : Except Fault Node := do
  let n := { n with engine.skipBoundryCheckAfterCheckpoint := false }
  let (held, n) ← syncCheckpointCheck n
  if held then .ok n
  else do
    let n ← wwtSyncCheckMaster { n with wwt.syncCheckTimer := .null }
    return beginQuantum n

/-- The value `is_waiting_for_quanta` returns after its poll. -/
def Node.waiting (n : Node) : Bool :=
  syncCountGet n.wwt.syncCounts n.wwt.currentQuantumRound < 1 && n.wwt.shouldSync

/-- What the main thread does after a call of `pdes_engine_poll` has found the ring empty. -/
def pollReturn (n : Node) (site : PollSite) : Except Fault Node :=
  match site with
  | .timer => .ok { n with site := none }
  | .quantaSync => quantaSyncFinish { n with site := none }
  | .isWaiting =>
      if n.waiting then .ok { n with site := some .waitLoop }
      else wwtSyncCheckFinish { n with site := none }
  | .waitLoop =>
      if n.engine.pairHasFinished then
        if !n.engine.permittedToExit then .error .finishedBeforePermission
        else pdesEngineDestroy { n with site := none }
      else .ok { n with site := some .isWaiting }

/-- The body of `pdes_engine_poll` on a message that was in the ring. -/
def pdesEnginePoll (n : Node) (site : PollSite) (msg : Message) : Except Fault Node :=
  let res := recvResult msg
  if res = noMessage then pollReturn n site
  else if res < 0 then pollReturn n site
  else processMessage n msg

/-- A node as `pdes_engine_wwt_create` leaves it. -/
def pdesEngineWwtCreate (sync : Bool) (latencyns : Int) (master : Bool)
    (incrementalBase : SnapshotFormat) (clock : Nat) : Node where
  engine :=
    { latencyns, master
      pairHasFinished := false
      paused := false
      firstSyncTime := clock
      firstSyncVirtualTime := clock
      neighbourDrained := 0
      checkpointInProgress := false
      initFlag := 0
      masterInit := false
      pauseBh := false
      needsToCheckpoint := false
      notifiedNeighbors := false
      checkpointName := []
      checkpointFormat := 0
      checkpointQuantumRound := 0
      boundryCheckpointBh := none
      skipBoundryCheckAfterCheckpoint := false
      notifiedNeighborsForExit := false
      readyToExitNeighbors := 0
      permittedToExit := false
      readyToExit := false
      endMessageSent := false
      intentSent := false }
  wwt :=
    { latencyns
      quantumNs := latencyns
      numberOfNeighbors := 1
      numberOfNeighborsFinished := 0
      shouldSync := sync
      quantumTimer := .null
      syncCounts := fun _ => none
      currentQuantumRound := 0
      syncCheckTimer := .null
      finishedQuantum := false }
  incrementalBase := incrementalBase
  virtualClock := clock
  receiveContexts := []
  site := none
  sending := []
  ring := []
  exitCalled := false
  log := []

end LeanPdes
