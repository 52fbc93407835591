import LeanPdes.DrainStart

/-! The way of a packet from the sender's network device to the receiver's. A message holds at most
`MAX_MSG_SIZE` bytes and the receiver takes no empty packet, but no function on the way tests the
size of what the device is handed. -/

namespace LeanPdes

open Words

/-- `pdes_net_receive`, with its return value. `wwt_send` returns what `pdes_comm_send` does, which is
zero for the ring of a node that runs. -/
def pdesNetReceive (n : Node) (buf : List UInt8) : Except Fault (Int × Node) := do
  let n ← wwtSend n buf
  let ret : Int := 0
  return (if ret < 0 then ret else buf.length, n)

/-- Every node that processes the message hands `buf` to its packet consumer when the packet's timer
fires. -/
def Message.Delivers (msg : Message) (buf : List UInt8) : Prop :=
  ∀ m m' : Node, processMessage m msg = .ok m' →
    ∃ ctx, m'.receiveContexts = m.receiveContexts ++ [ctx] ∧ ∀ m'' : Node,
      processMessageAtVirtualTime m'' ctx =
        .ok { m'' with log := m''.log ++ [.recvCb m''.universalTime buf] }

/-- The packet is refused, or it reaches the neighbour's packet consumer byte for byte. -/
def Node.Admits (n : Node) (buf : List UInt8) : Prop :=
  ∃ ret n', pdesNetReceive n buf = .ok (ret, n') ∧
    ((ret < 0 ∧ n'.inFlight = n.inFlight) ∨
      ∃ msg, n'.inFlight = n.inFlight ++ [msg] ∧ msg.data = buf ∧ msg.len = buf.length ∧
        buf.length ≤ maxMsgSize ∧ msg.Delivers buf)

/-- A packet that the node processes gets a one-time timer. -/
theorem processMessage_packet {m m' : Node} {msg : Message} (htype : msg.type = msgTypeNormal)
    (h : processMessage m msg = .ok m') :
    ∃ ctx, ctx.msg = msg ∧ m'.receiveContexts = m.receiveContexts ++ [ctx] := by
  rw [processMessage, bind_eq_ok] at h
  obtain ⟨m₁, hcallback, h⟩ := h
  rw [processControl_of_data (Or.inr htype) h, wwtReciviedCallback_packet htype hcallback]
  exact ⟨_, rfl, rfl⟩

theorem delivers_of_nonempty {msg : Message} {buf : List UInt8} (htype : msg.type = msgTypeNormal)
    (hdata : msg.data = buf) (hlen : msg.len = buf.length) (hpos : 1 ≤ buf.length) :
    msg.Delivers buf := by
  intro m m' h
  obtain ⟨ctx, hctx, hcontexts⟩ := processMessage_packet htype h
  refine ⟨ctx, hcontexts, fun m'' => ?_⟩
  have hvalid : 0 < msg.len ∧ msg.type ≠ msgTypeSync := by
    refine ⟨by rw [hlen]; exact hpos, ?_⟩
    rw [htype]
    decide
  have hbytes : msg.bytes 0 msg.len = buf := by rw [Message.bytes, hlen, hdata, readBytes_self]
  rw [processMessageAtVirtualTime, hctx, if_pos hvalid, hbytes]

/-- A node with sync off takes every packet. -/
theorem processMessage_unsynced {m : Node} {msg : Message} (htype : msg.type = msgTypeNormal)
    (hsync : m.wwt.shouldSync = false) (hbias : m.engine.firstSyncVirtualTime ≠ -1) :
    ∃ m', processMessage m msg = .ok m' := by
  have htime : getUniversalVirtualTime (m.logReceive msg) = .ok m.universalTime :=
    getUniversalVirtualTime_of_bias hbias
  have hcallback : ∃ m₁, wwtReciviedCallback (m.logReceive msg) msg = .ok m₁ := by
    have hsync' : (m.logReceive msg).wwt.shouldSync = false := hsync
    have hne : ¬msgTypeNormal = msgTypeSync := by decide
    simp only [wwtReciviedCallback, htime, bind, Except.bind, htype, hsync', if_neg hne, if_true,
      Bool.false_eq_true, if_false]
    split_ifs
    · exact ⟨_, rfl⟩
    · exact ⟨_, rfl⟩
  obtain ⟨m₁, hm₁⟩ := hcallback
  refine ⟨m₁, bind_eq_ok.mpr ⟨m₁, hm₁, ?_⟩⟩
  rw [processControl, htype]
  rfl

/-- The receiver's assert stops the packet that has no bytes. -/
theorem not_delivers_empty {msg : Message} {buf : List UInt8} (htype : msg.type = msgTypeNormal)
    (hlen : msg.len = 0) : ¬msg.Delivers buf := by
  intro hdelivers
  have hcreated : ∃ m', processMessage (pdesEngineWwtCreate false 0 true 0 0) msg = .ok m' :=
    processMessage_unsynced htype rfl (by decide)
  obtain ⟨m', hm'⟩ := hcreated
  obtain ⟨ctx, hctx, hcontexts⟩ := processMessage_packet htype hm'
  obtain ⟨ctx', hcontexts', hcall⟩ := hdelivers _ m' hm'
  have heq : ctx' = ctx := by
    rw [hcontexts] at hcontexts'
    simpa using hcontexts'.symm
  have hok := hcall m'
  rw [processMessageAtVirtualTime, heq, hctx, hlen, if_neg (by simp)] at hok
  cases hok

theorem Node.Admits.size {n : Node} {buf : List UInt8} (h : n.Admits buf) :
    1 ≤ buf.length ∧ buf.length ≤ maxMsgSize := by
  obtain ⟨ret, n', hcall, hresult⟩ := h
  rw [pdesNetReceive, bind_eq_ok] at hcall
  obtain ⟨n₁, hsend, hcall⟩ := hcall
  obtain ⟨msg, hmsg, rfl⟩ := wwtSend_ok hsend
  obtain ⟨_, hlen, _, htype⟩ := createMessage_ok hmsg
  cases hcall
  have hinFlight : (pdesCommSend (n.logSend buf) msg).inFlight = n.inFlight ++ [msg] :=
    (List.append_assoc _ _ _).symm
  rcases hresult with ⟨hneg, _⟩ | ⟨msg', hput, _, _, hmax, hdelivers⟩
  · exact absurd hneg (by simp)
  · have heq : msg' = msg := by
      rw [hinFlight] at hput
      simpa using hput.symm
    refine ⟨?_, hmax⟩
    by_contra hempty
    refine not_delivers_empty htype ?_ (heq ▸ hdelivers)
    rw [hlen]
    omega

theorem admits_of_size {n : Node} {buf : List UInt8} (hbias : n.engine.firstSyncVirtualTime ≠ -1)
    (hfirst : n.engine.firstSyncTime ≠ -1) (hpos : 1 ≤ buf.length)
    (hmax : buf.length ≤ maxMsgSize) : n.Admits buf := by
  obtain ⟨msg, hmsg⟩ : ∃ msg, n.packet buf = .ok msg := ⟨_, dif_pos hmax⟩
  obtain ⟨_, hlen, hdata, htype⟩ := createMessage_ok hmsg
  have hsend : wwtSend n buf = .ok (pdesCommSend (n.logSend buf) msg) := by
    rw [wwtSend, bind_eq_ok]
    exact ⟨_, getUniversalVirtualTime_of_bias hbias, bind_eq_ok.mpr ⟨msg, hmsg, if_neg hfirst⟩⟩
  refine ⟨buf.length, pdesCommSend (n.logSend buf) msg, bind_eq_ok.mpr ⟨_, hsend, rfl⟩,
    Or.inr ⟨msg, (List.append_assoc _ _ _).symm, hdata, hlen, hmax, ?_⟩⟩
  exact delivers_of_nonempty htype hdata hlen hpos

/-- A node whose times are set admits exactly the packets of one to `MAX_MSG_SIZE` bytes. -/
theorem packet_admission {n : Node} (hbias : n.engine.firstSyncVirtualTime ≠ -1)
    (hfirst : n.engine.firstSyncTime ≠ -1) (buf : List UInt8) :
    n.Admits buf ↔ 1 ≤ buf.length ∧ buf.length ≤ maxMsgSize :=
  ⟨Node.Admits.size, fun h => admits_of_size hbias hfirst h.1 h.2⟩

theorem packet_admission_oneByte : (pdesEngineWwtCreate true 1000 true 2 5).Admits [7] :=
  (packet_admission (by decide) (by decide) [7]).mpr (by decide)

/-- A packet larger than a message is copied past the end of the message. -/
theorem pdesNetReceive_tooLong {n : Node} {buf : List UInt8}
    (hbias : n.engine.firstSyncVirtualTime ≠ -1) (hlong : maxMsgSize < buf.length) :
    pdesNetReceive n buf = .error .outOfBounds := by
  have hmsg : n.packet buf = .error .outOfBounds := dif_neg (not_le.mpr hlong)
  rw [Node.packet] at hmsg
  simp only [pdesNetReceive, wwtSend, getUniversalVirtualTime_of_bias hbias, bind, Except.bind, hmsg]

/-- An empty packet is sent and the receiver aborts on it, and one of 2049 bytes leaves the sender's
message. -/
theorem not_admitted_of_size :
    ¬(pdesEngineWwtCreate true 1000 true 2 5).Admits [] ∧
      pdesNetReceive (pdesEngineWwtCreate true 1000 true 2 5) (List.replicate 2049 7) =
        .error .outOfBounds := by
  refine ⟨fun h => absurd h.size (by decide), pdesNetReceive_tooLong (by decide) ?_⟩
  rw [List.length_replicate]
  decide

end LeanPdes
