import LeanPdes.InflightJson
import LeanPdes.KeyedBag

/-! Entries that leave the list of the packets in flight. `pdes_inflight_remove` looks for a packet by its
delivery time and its bytes, so the list is a bag of these, whatever the time stamps and the types of
the messages are. -/

namespace LeanPdes

open Words KeyedBag

/-- What `pdes_inflight_remove` tells a packet by. -/
structure PacketKey where
  scheduledTimeNs : Int
  bytes : List UInt8
  deriving DecidableEq

def packetKey (msg : Message) (scheduledTimeNs : Int) : PacketKey :=
  { scheduledTimeNs, bytes := msg.bytes 0 msg.len }

def ScheduledMessage.key (entry : ScheduledMessage) : PacketKey :=
  packetKey entry.msg entry.scheduledTimeNs

/-- The test of an entry: its time, its length, and `memcmp` over the length. -/
def ScheduledMessage.isQueried (entry : ScheduledMessage) (msg : Message) (scheduledTimeNs : Int) : Bool :=
  entry.scheduledTimeNs = scheduledTimeNs && entry.msg.len = msg.len &&
    entry.msg.bytes 0 msg.len = msg.bytes 0 msg.len

/-- The loop over `pending_messages`. -/
def removePending (msg : Message) (scheduledTimeNs : Int) :
    List ScheduledMessage → Option (List ScheduledMessage)
  | [] => none
  | entry :: entries =>
      if entry.isQueried msg scheduledTimeNs then some entries
      else (removePending msg scheduledTimeNs entries).map (entry :: ·)

/-- The assert at the end of `pdes_inflight_remove`. -/
inductive RemoveFault
  | messageNotFound
  deriving DecidableEq, Repr

theorem length_removePending {msg : Message} {scheduledTimeNs : Int}
    {entries entries' : List ScheduledMessage}
    (h : removePending msg scheduledTimeNs entries = some entries') :
    entries.length = entries'.length + 1 := by
  induction entries generalizing entries' with
  | nil => cases h
  | cons entry entries ih =>
      rw [removePending] at h
      split_ifs at h
      · cases h
        rfl
      · obtain ⟨rest, hrest, rfl⟩ := Option.map_eq_some_iff.mp h
        exact congrArg (· + 1) (ih hrest)

/-- `pdes_inflight_remove`. -/
def pdesInflightRemove (p : PendingMessages) (msg : Message) (scheduledTimeNs : Int) :
    Except RemoveFault PendingMessages :=
  match h : removePending msg scheduledTimeNs p.messages with
  | none => .error .messageNotFound
  | some entries => .ok {
      messages := entries
      pendingCount := p.pendingCount - 1
      pendingCount_eq :=
        congrArg (· - 1) (p.pendingCount_eq.trans (length_removePending h)) }

/-- What `pdes_inflight_get_all` returns: two arrays of `count` elements. -/
structure InflightMessageArray where
  messages : List Message
  scheduledTimes : List Int
  count : Nat
  messages_length : messages.length = count
  scheduledTimes_length : scheduledTimes.length = count

def pdesInflightGetAll (p : PendingMessages) : InflightMessageArray where
  messages := p.messages.map ScheduledMessage.msg
  scheduledTimes := p.messages.map ScheduledMessage.scheduledTimeNs
  count := p.pendingCount
  messages_length := by rw [List.length_map, p.pendingCount_eq]
  scheduledTimes_length := by rw [List.length_map, p.pendingCount_eq]

/-- The keys of the packets that the arrays list. -/
def InflightMessageArray.keys (arr : InflightMessageArray) : List PacketKey :=
  List.zipWith packetKey arr.messages arr.scheduledTimes

inductive InflightCall
  | add (entry : ScheduledMessage)
  | remove (msg : Message) (scheduledTimeNs : Int)

/-- A sequence of calls of `pdes_inflight_add` and `pdes_inflight_remove`. -/
def inflightCalls (p : PendingMessages) : List InflightCall → Except RemoveFault PendingMessages
  | [] => .ok p
  | .add entry :: calls => inflightCalls (pdesInflightAdd p entry) calls
  | .remove msg scheduledTimeNs :: calls => do
      let p ← pdesInflightRemove p msg scheduledTimeNs
      inflightCalls p calls

/-! ### The list as a bag -/

theorem isQueried_iff {entry : ScheduledMessage} {msg : Message} {scheduledTimeNs : Int} :
    entry.isQueried msg scheduledTimeNs = true ↔ entry.key = packetKey msg scheduledTimeNs := by
  rw [ScheduledMessage.isQueried, ScheduledMessage.key, packetKey, packetKey, Bool.and_eq_true,
    Bool.and_eq_true, decide_eq_true_eq, decide_eq_true_eq, decide_eq_true_eq, PacketKey.mk.injEq, and_assoc]
  refine and_congr_right fun _ => ⟨fun ⟨hlen, hbytes⟩ => ?_, fun hbytes => ?_⟩
  · rw [hlen]
    exact hbytes
  · have hlen : entry.msg.len = msg.len := by
      have hlength := congrArg List.length hbytes
      rwa [Message.bytes, Message.bytes, length_readBytes, length_readBytes] at hlength
    refine ⟨hlen, ?_⟩
    rw [← hlen, hbytes, hlen]

theorem removePending_eq (msg : Message) (scheduledTimeNs : Int) (entries : List ScheduledMessage) :
    removePending msg scheduledTimeNs entries =
      removeFirst ScheduledMessage.key (packetKey msg scheduledTimeNs) entries := by
  induction entries with
  | nil => rfl
  | cons entry entries ih => simp only [removePending, removeFirst, isQueried_iff, ih]

/-- The call for the bag. -/
def InflightCall.op : InflightCall → Op ScheduledMessage PacketKey
  | .add entry => .add entry
  | .remove msg scheduledTimeNs => .remove (packetKey msg scheduledTimeNs)

theorem pdesInflightRemove_messages (p : PendingMessages) (msg : Message) (scheduledTimeNs : Int) :
    (pdesInflightRemove p msg scheduledTimeNs).toOption.map PendingMessages.messages =
      removeFirst ScheduledMessage.key (packetKey msg scheduledTimeNs) p.messages := by
  rw [← removePending_eq, pdesInflightRemove]
  split
  · rename_i h
    exact h.symm
  · rename_i h
    exact h.symm

theorem inflightCalls_messages (p : PendingMessages) (calls : List InflightCall) :
    (inflightCalls p calls).toOption.map PendingMessages.messages =
      run ScheduledMessage.key p.messages (calls.map InflightCall.op) := by
  induction calls generalizing p with
  | nil => rfl
  | cons call calls ih =>
      cases call with
      | add entry => exact ih (pdesInflightAdd p entry)
      | remove msg scheduledTimeNs =>
          rw [inflightCalls, List.map_cons, InflightCall.op, run, ← pdesInflightRemove_messages]
          cases hcall : pdesInflightRemove p msg scheduledTimeNs with
          | error => rfl
          | ok p' => exact ih p'

theorem keys_getAll (p : PendingMessages) :
    (pdesInflightGetAll p).keys = p.messages.map ScheduledMessage.key := by
  rw [InflightMessageArray.keys, pdesInflightGetAll, List.zipWith_map, List.zipWith_self]
  rfl

/-- How often the calls add a packet of the key. -/
def addsOf (k : PacketKey) (calls : List InflightCall) : Nat :=
  adds ScheduledMessage.key k (calls.map InflightCall.op)

/-- How often the calls remove a packet of the key. -/
def removesOf (k : PacketKey) (calls : List InflightCall) : Nat :=
  removes k (calls.map InflightCall.op)

theorem count_getAll (p : PendingMessages) (k : PacketKey) :
    (pdesInflightGetAll p).keys.count k = (keys ScheduledMessage.key p.messages).count k := by
  rw [keys_getAll, KeyedBag.keys, Multiset.coe_count]

theorem inflightCalls_isSome {p : PendingMessages} {calls : List InflightCall} :
    (∃ p', inflightCalls p calls = .ok p') ↔
      (run ScheduledMessage.key p.messages (calls.map InflightCall.op)).isSome := by
  rw [← inflightCalls_messages, Option.isSome_map]
  cases inflightCalls p calls with
  | error f => simp [Except.toOption]
  | ok p' => simp [Except.toOption]

/-- The packet that is removed is the one added last of those with its time and its bytes. -/
theorem pdesInflightRemove_last {p p' : PendingMessages} {msg : Message} {scheduledTimeNs : Int}
    (h : pdesInflightRemove p msg scheduledTimeNs = .ok p') :
    ∃ before entry after, p.messages = before ++ entry :: after ∧ p'.messages = before ++ after ∧
      entry.key = packetKey msg scheduledTimeNs ∧
      ∀ e ∈ before, e.key ≠ packetKey msg scheduledTimeNs := by
  have hmessages := pdesInflightRemove_messages p msg scheduledTimeNs
  rw [h] at hmessages
  exact removeFirst_eq_some.mp hmessages.symm

end LeanPdes
