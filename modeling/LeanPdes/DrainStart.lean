import Mathlib.Data.List.TakeWhile
import LeanPdes.Moves

/-! The `DRAIN_START` message: the snapshot name, the format and the round that one node writes are
the ones the other node reads. The name has no length of its own: what follows it has a fixed size. -/

namespace LeanPdes

open Words

/-- `validate_checkpoint` on a C string: its result, the name it leaves in the caller's pointer, and
the engine. Without an engine the node is alone. -/
def validateCheckpoint (engine : Option PDESEngine) (name : Option (List UInt8)) :
    Bool × Option (List UInt8) × Option PDESEngine :=
  match engine with
  | none => (true, name, none)
  | some engine =>
      if !engine.master then
        match name with
        | none => (false, none, some engine)
        | some text =>
            if 5 ≤ text.length ∧ text.take 5 = qpdes then (true, some (text.drop 5), some engine)
            else (false, some text, some engine)
      else if name = some initWarmed then
        if engine.initFlag < 1 then (false, name, some { engine with masterInit := true })
        else (true, name, some engine)
      else (true, name, some engine)

/-- What `notify_neighbors_for_drain` writes into the message. -/
def drainPayload (name : List UInt8) (format : SnapshotFormat) (round : Nat) : List UInt8 :=
  qpdes ++ name ++ bytesLE 4 format.toNat ++ bytesLE 8 round

theorem length_drainPayload (name : List UInt8) (format : SnapshotFormat) (round : Nat) :
    (drainPayload name format round).length = (qpdes ++ name).length + 12 := by
  simp [drainPayload]
  omega

theorem cString_of_noNul {text : List UInt8} (h : ∀ b ∈ text, b ≠ 0) : cString text = text := by
  rw [cString, List.takeWhile_eq_self_iff]
  simpa using h

/-! ### The parts of the payload, each at its place -/

section

variable (name : List UInt8) (format : SnapshotFormat) (round : Nat)

theorem drainPayload_name :
    readBytes (drainPayload name format round) 0 (qpdes ++ name).length = qpdes ++ name := by
  have hsplit : drainPayload name format round =
      [] ++ (qpdes ++ name) ++ (bytesLE 4 format.toNat ++ bytesLE 8 round) := by
    simp only [drainPayload, List.nil_append, List.append_assoc]
  rw [hsplit]
  exact readBytes_append [] (qpdes ++ name) _

theorem drainPayload_format :
    readBytes (drainPayload name format round) (qpdes ++ name).length 4 =
      bytesLE 4 format.toNat := by
  have h := readBytes_append (qpdes ++ name) (bytesLE 4 format.toNat) (bytesLE 8 round)
  rwa [length_bytesLE] at h

theorem drainPayload_round :
    readBytes (drainPayload name format round) ((qpdes ++ name).length + 4) 8 =
      bytesLE 8 round := by
  have h := readBytes_append (qpdes ++ name ++ bytesLE 4 format.toNat) (bytesLE 8 round) []
  rwa [List.append_nil, List.length_append, length_bytesLE, length_bytesLE] at h

end

/-- The round in a `DRAIN_START`, at the place where `process_message` reads it. -/
def Message.drainRound (msg : Message) : Nat := valueLE (msg.bytes (msg.len - 12 + 4) 8)

theorem drainRound_of_payload {msg : Message} {name : List UInt8} {format : SnapshotFormat}
    {round : Nat} (hlen : msg.len = msg.data.length) (hdata : msg.data = drainPayload name format round)
    (hround : round < 2 ^ 64) : msg.drainRound = round := by
  have hsize : msg.len - 12 = (qpdes ++ name).length := by
    rw [hlen, hdata, length_drainPayload, Nat.add_sub_cancel]
  rw [Message.drainRound, Message.bytes, hsize, hdata, drainPayload_round]
  exact valueLE_bytesLE 8 (by omega)

/-- The node with the request for the checkpoint that the message carries. -/
def Node.requested (n : Node) (msg : Message) (name : List UInt8) (format : SnapshotFormat)
    (round : Nat) : Node :=
  { n.logReceive msg with
    engine.checkpointInProgress := true
    engine.needsToCheckpoint := true
    engine.checkpointName := name
    engine.checkpointFormat := format
    engine.checkpointQuantumRound := round }

theorem getUniversalVirtualTime_of_bias {n : Node} (hbias : n.engine.firstSyncVirtualTime ≠ -1) :
    getUniversalVirtualTime n = .ok n.universalTime := by
  rw [getUniversalVirtualTime, if_neg hbias]

/-- A control message goes past `wwt_recivied_callback`. -/
theorem processMessage_of_control {n : Node} {msg : Message} (hmsg : msg.IsControl)
    (hbias : n.engine.firstSyncVirtualTime ≠ -1) :
    processMessage n msg = processControl (n.logReceive msg) msg := by
  have htime : getUniversalVirtualTime (n.logReceive msg) = .ok n.universalTime :=
    getUniversalVirtualTime_of_bias hbias
  have hcallback : wwtReciviedCallback (n.logReceive msg) msg = .ok (n.logReceive msg) := by
    simp only [wwtReciviedCallback, htime, bind, Except.bind, if_neg hmsg.1, if_neg hmsg.2]
  rw [processMessage]
  change (wwtReciviedCallback (n.logReceive msg) msg >>= fun n => processControl n msg) = _
  rw [hcallback]
  rfl

/-- A follower reads the name, the format and the round that were written. -/
theorem processMessage_drainStart {n : Node} {msg : Message} {name : List UInt8}
    {format : SnapshotFormat} {round : Nat} (htype : msg.type = drainStart)
    (hlen : msg.len = msg.data.length) (hdata : msg.data = drainPayload name format round)
    (hround : round < 2 ^ 64) (hname : ∀ b ∈ name, b ≠ 0) (hfollower : n.engine.master = false)
    (hbias : n.engine.firstSyncVirtualTime ≠ -1) :
    processMessage n msg = .ok (n.requested msg (qpdes ++ name) format round) := by
  have hcontrol : msg.IsControl := by
    rw [Message.IsControl, htype]
    decide
  have hsize : msg.len - 12 = (qpdes ++ name).length := by
    rw [hlen, hdata, length_drainPayload, Nat.add_sub_cancel]
  have htext : cString (msg.bytes 0 (msg.len - 12)) = qpdes ++ name := by
    rw [Message.bytes, hsize, hdata, drainPayload_name, cString_of_noNul]
    intro b hb
    rcases List.mem_append.mp hb with hb | hb
    · have hprefix : ∀ b ∈ qpdes, b ≠ 0 := by simp [qpdes]
      exact hprefix b hb
    · exact hname b hb
  have hformat : UInt32.ofNat (valueLE (msg.bytes (msg.len - 12) 4)) = format := by
    rw [Message.bytes, hsize, hdata, drainPayload_format, valueLE_bytesLE 4 format.toNat_lt]
    exact UInt32.ofNat_toNat
  have hread : valueLE (msg.bytes (msg.len - 12 + 4) 8) = round :=
    drainRound_of_payload hlen hdata hround
  have hlong : ¬msg.len < 12 := by
    rw [hlen, hdata, length_drainPayload]
    omega
  have harm : receiveDrainStart (n.logReceive msg) msg =
      .ok (n.requested msg (qpdes ++ name) format round) := by
    have hnotMaster : (!(n.logReceive msg).engine.master) = true := by
      rw [Bool.not_eq_true']
      exact hfollower
    rw [receiveDrainStart]
    dsimp only
    rw [if_pos hnotMaster, if_neg hlong, htext, hformat, hread]
    rfl
  rw [processMessage_of_control hcontrol hbias, processControl, htype]
  exact harm

/-- A name that fits the buffer is sent. -/
theorem notifyNeighborsForDrain_sends {n : Node} {name : List UInt8} (format : SnapshotFormat)
    (hneeds : n.engine.needsToCheckpoint = true) (hnot : n.engine.notifiedNeighbors = false)
    (hbias : n.engine.firstSyncVirtualTime ≠ -1)
    (hfits : (drainPayload name format n.wwt.currentQuantumRound).length ≤ snapshotNameDataSize) :
    ∃ msg, msg.type = drainStart ∧ msg.len = msg.data.length ∧
      msg.data = drainPayload name format n.wwt.currentQuantumRound ∧
      notifyNeighborsForDrain n name format =
        .ok (0, pdesCommSend { n with engine.notifiedNeighbors := true } msg) := by
  rw [length_drainPayload] at hfits
  have htext : ¬snapshotNameDataSize ≤ (qpdes ++ name).length := by omega
  have htotal : ¬snapshotNameDataSize < (qpdes ++ name).length + 12 := by omega
  have hmax : (drainPayload name format n.wwt.currentQuantumRound).length ≤ maxMsgSize := by
    rw [length_drainPayload, maxMsgSize]
    rw [snapshotNameDataSize] at hfits
    omega
  obtain ⟨msg, hmsg⟩ : ∃ msg, createMessage (drainPayload name format n.wwt.currentQuantumRound)
      drainStart n.universalTime = .ok msg := ⟨_, dif_pos hmax⟩
  obtain ⟨_, hlen, hdata, htype⟩ := createMessage_ok hmsg
  refine ⟨msg, htype, by rw [hlen, hdata], hdata, ?_⟩
  have htime : getUniversalVirtualTime { n with engine.notifiedNeighbors := true } =
      .ok n.universalTime := getUniversalVirtualTime_of_bias hbias
  rw [notifyNeighborsForDrain, if_neg (by simp [hneeds]), if_neg (by simp [hnot])]
  dsimp only
  rw [if_neg htext, if_neg htotal]
  exact bind_eq_ok.mpr ⟨_, htime, bind_eq_ok.mpr ⟨msg, hmsg, rfl⟩⟩

/-- The name behind the prefix is the name a follower saves the snapshot under. -/
theorem validateCheckpoint_qpdes {engine : PDESEngine} (hfollower : engine.master = false)
    (name : List UInt8) :
    validateCheckpoint (some engine) (some (qpdes ++ name)) = (true, some name, some engine) := by
  have hlong : 5 ≤ (qpdes ++ name).length ∧ (qpdes ++ name).take 5 = qpdes :=
    ⟨by simp [qpdes], List.take_left' rfl⟩
  have hrest : (qpdes ++ name).drop 5 = name := List.drop_left' rfl
  simp only [validateCheckpoint, hfollower, Bool.not_false, if_true, if_pos hlong, hrest]

/-- The `DRAIN_START` round trip, for every name that fits. -/
theorem drain_start_round_trip {n m : Node} {name : List UInt8} {format : SnapshotFormat}
    (hneeds : n.engine.needsToCheckpoint = true) (hnot : n.engine.notifiedNeighbors = false)
    (hbias : n.engine.firstSyncVirtualTime ≠ -1) (hround : n.wwt.currentQuantumRound < 2 ^ 64)
    (hname : ∀ b ∈ name, b ≠ 0)
    (hfits : (drainPayload name format n.wwt.currentQuantumRound).length ≤ snapshotNameDataSize)
    (hfollower : m.engine.master = false) (hbias' : m.engine.firstSyncVirtualTime ≠ -1) :
    ∃ r n' msg m', notifyNeighborsForDrain n name format = .ok (r, n') ∧
      n'.sending = n.sending ++ [msg] ∧ msg.type = drainStart ∧ processMessage m msg = .ok m' ∧
      m'.engine.checkpointName = qpdes ++ name ∧ m'.engine.checkpointFormat = format ∧
      m'.engine.checkpointQuantumRound = n.wwt.currentQuantumRound ∧
      validateCheckpoint (some m'.engine) (some m'.engine.checkpointName) =
        (true, some name, some m'.engine) := by
  obtain ⟨msg, htype, hlen, hdata, hsend⟩ :=
    notifyNeighborsForDrain_sends format hneeds hnot hbias hfits
  have hreceive := processMessage_drainStart htype hlen hdata hround hname hfollower hbias'
  exact ⟨0, _, msg, _, hsend, rfl, htype, hreceive, rfl, rfl, rfl,
    validateCheckpoint_qpdes (by exact hfollower) name⟩

/-- A request for `QPDESinit_warmed`, the name that the follower sends back. -/
def echoingNode (master : Bool) : Node :=
  { pdesEngineWwtCreate true 1000 master 2 5 with
    engine.needsToCheckpoint := true
    wwt.currentQuantumRound := 2 ^ 64 - 1 }

theorem drain_start_round_trip_echo :
    ∃ r n' msg m', notifyNeighborsForDrain (echoingNode true) (qpdes ++ initWarmed) 2 = .ok (r, n') ∧
      n'.sending = [] ++ [msg] ∧ msg.type = drainStart ∧
      processMessage (echoingNode false) msg = .ok m' ∧
      m'.engine.checkpointName = qpdes ++ (qpdes ++ initWarmed) ∧ m'.engine.checkpointFormat = 2 ∧
      m'.engine.checkpointQuantumRound = 2 ^ 64 - 1 ∧
      validateCheckpoint (some m'.engine) (some m'.engine.checkpointName) =
        (true, some (qpdes ++ initWarmed), some m'.engine) :=
  drain_start_round_trip (n := echoingNode true) (m := echoingNode false) rfl rfl (by decide)
    (by decide) (by simp [qpdes, initWarmed]) (by decide) rfl (by decide)

end LeanPdes
