import LeanPdes.Words

/-! The messages of the shared-memory ring and the failures a node can run into. -/

namespace LeanPdes

open Words

def maxMsgSize : Nat := 2048
def ringSize : Nat := 8192

def msgTypeNormal : UInt8 := 0
def msgTypeSync : UInt8 := 1
def drainStart : UInt8 := 3
def drainEnd : UInt8 := 4
def checkpointInitStep : UInt8 := 5
def endOfEmulation : UInt8 := 6
def intentToEndEmulation : UInt8 := 7
def permissionToEndEmulation : UInt8 := 8

/-- The return value of `pdes_comm_recv` that says the ring is empty. -/
def noMessage : Int := -1

/-- The asserts of the modelled functions, and accesses outside an object. Each ends the process. -/
inductive Fault
  | outOfBounds
  | firstSyncVirtualTimeUnset
  | firstMessageNotSync
  | timestampInPast
  | wrongQuantumRound
  | endBeforePermission
  | finishedBeforePermission
  | invalidReceiveContext
  | syncCheckTimerNotNull
  | pauseBhNotNull
  | drainNotNeeded
  | checkpointRoundPassed
  deriving DecidableEq, Repr

/-- A sequence of calls returns when each of them does. -/
theorem bind_eq_ok {α β ε : Type} {x : Except ε α} {f : α → Except ε β} {b : β} :
    x >>= f = .ok b ↔ ∃ a, x = .ok a ∧ f a = .ok b := by
  cases x <;> simp [bind, Except.bind]

/-- A message of the ring. `data` holds the bytes written to the array of `MAX_MSG_SIZE` bytes; the
rest of the array is zero. -/
structure Message where
  tsNs : Nat
  len : Nat
  data : List UInt8
  type : UInt8
  tsNs_lt : tsNs < 2 ^ 64
  len_le : len ≤ maxMsgSize
  data_le : data.length ≤ maxMsgSize
  deriving DecidableEq

/-- The message without data that is stamped zero. -/
def Message.ofType (type : UInt8) : Message where
  tsNs := 0
  len := 0
  data := []
  type
  tsNs_lt := by decide
  len_le := by decide
  data_le := by decide

/-- `create_message` on `data` of its full length: the copy leaves the array when it is longer. -/
def createMessage (data : List UInt8) (type : UInt8) (tsNs : Int) : Except Fault Message :=
  if h : data.length ≤ maxMsgSize then
    .ok { tsNs := uint64 tsNs, len := data.length, data, type
          tsNs_lt := uint64_lt tsNs, len_le := h, data_le := h }
  else .error .outOfBounds

theorem createMessage_ok {data : List UInt8} {type : UInt8} {tsNs : Int} {msg : Message}
    (h : createMessage data type tsNs = .ok msg) :
    msg.tsNs = uint64 tsNs ∧ msg.len = data.length ∧ msg.data = data ∧ msg.type = type := by
  rw [createMessage] at h
  split_ifs at h
  cases h
  exact ⟨rfl, rfl, rfl, rfl⟩

/-- The bytes of the message's data array from `offset` on. -/
def Message.bytes (msg : Message) (offset count : Nat) : List UInt8 :=
  readBytes msg.data offset count

/-- The round a SYNC message carries, as `wwt_recivied_callback` reads it. -/
def Message.syncRound (msg : Message) : Nat :=
  if 8 ≤ msg.len then valueLE (msg.bytes 0 8) else 0

/-- The return value of `pdes_comm_recv` on a message: its length as an `int`. -/
def recvResult (msg : Message) : Int := int32 msg.len

/-- A received message of any length, zero included, is told from an empty ring and from an
error. -/
theorem recvResult_nonneg (msg : Message) : 0 ≤ recvResult msg := by
  have hlen := msg.len_le
  rw [maxMsgSize] at hlen
  rw [recvResult, int32_natCast (by omega)]
  omega

theorem syncRound_createMessage {round : Nat} (hround : round < 2 ^ 64) {tsNs : Int} {msg : Message}
    (h : createMessage (bytesLE 8 round) msgTypeSync tsNs = .ok msg) : msg.syncRound = round := by
  obtain ⟨_, hlen, hdata, _⟩ := createMessage_ok h
  have hbytes : readBytes (bytesLE 8 round) 0 8 = bytesLE 8 round := by
    simpa using readBytes_self (bytesLE 8 round)
  have hround' : round < 256 ^ 8 := by omega
  rw [Message.syncRound, Message.bytes, hlen, hdata, hbytes, valueLE_bytesLE 8 hround']
  simp

end LeanPdes
