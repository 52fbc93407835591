import LeanPdes.ArrayAccess
import LeanPdes.DrainStart
import LeanPdes.Faults

/-! The buffers of `DRAIN_START`. The encoder tests the length of the text alone, before the format and
the round are copied behind it; the decoder subtracts the size of these from a length that it has not
tested. -/

namespace LeanPdes

open Words Arrays

/-- `snprintf` of a text into a buffer of `size` bytes: what fits, and a NUL. -/
def snprintf (size : Nat) (text : List UInt8) : Store UInt8 := ⟨0, text.take (size - 1) ++ [0]⟩

/-- What `notify_neighbors_for_drain` writes into `snapshot_name_data`, in order. -/
def drainStores (n : Node) (snapshotName : List UInt8) (format : SnapshotFormat) :
    List (Store UInt8) :=
  if !n.engine.needsToCheckpoint then []
  else if n.engine.notifiedNeighbors then []
  else
    let text := qpdes ++ snapshotName
    let printed := snprintf snapshotNameDataSize text
    if snapshotNameDataSize ≤ text.length then [printed]
    -- the text is printed once for its length and once more before the rest is copied
    else
      [printed, printed, ⟨text.length, bytesLE 4 format.toNat⟩,
        ⟨text.length + 4, bytesLE 8 n.wwt.currentQuantumRound⟩]

/-- Unless `notify_neighbors_for_drain` returns -1, every byte it writes lies inside the buffer. -/
def EncodesInside (n : Node) (snapshotName : List UInt8) (format : SnapshotFormat) : Prop :=
  (∀ n', notifyNeighborsForDrain n snapshotName format ≠ .ok (-1, n')) →
    ∀ w ∈ drainStores n snapshotName format, w.span.Inside snapshotNameDataSize

theorem snprintf_inside {size : Nat} (hsize : 0 < size) (text : List UInt8) :
    (snprintf size text).span.Inside size := by
  rw [Span.inside_iff]
  right
  simp only [snprintf, Store.span, List.length_append, List.length_take, List.length_singleton]
  omega

/-- The writes stay inside the buffer unless the text fits and what follows it does not. -/
theorem drainStores_inside_iff {n : Node} {name : List UInt8} {format : SnapshotFormat} :
    (∀ w ∈ drainStores n name format, w.span.Inside snapshotNameDataSize) ↔
      (n.engine.needsToCheckpoint = true → n.engine.notifiedNeighbors = false →
        name.length < 990 ∨ 1000 < name.length) := by
  have hprinted : (snprintf snapshotNameDataSize (qpdes ++ name)).span.Inside snapshotNameDataSize :=
    snprintf_inside (by decide) _
  have hlength := length_qpdes_append name
  rw [drainStores]
  split_ifs with hneeds hnotified
  · simp at hneeds
    simp [hneeds]
  · simp [hnotified]
  · simp only [Bool.not_eq_true', Bool.not_eq_false] at hneeds hnotified
    simp only [hneeds, hnotified, forall_const]
    rw [hlength]
    split_ifs with hlong
    · simp only [List.mem_singleton, forall_eq, hprinted, true_iff]
      rw [snapshotNameDataSize] at hlong
      omega
    · simp only [List.mem_cons, List.not_mem_nil, or_false, forall_eq_or_imp, forall_eq, hprinted,
        true_and]
      simp only [Span.inside_iff, Store.span, length_bytesLE]
      rw [snapshotNameDataSize] at hlong ⊢
      omega

/-- The return value -1 is that of a request that is not passed on because the text does not fit. -/
theorem notifyNeighborsForDrain_refuses_iff {n n' : Node} {name : List UInt8}
    {format : SnapshotFormat} :
    notifyNeighborsForDrain n name format = .ok (-1, n') ↔
      n.engine.needsToCheckpoint = true ∧ n.engine.notifiedNeighbors = false ∧
        1000 < name.length ∧ n' = { n with engine.notifiedNeighbors := true } := by
  have hlength := length_qpdes_append name
  constructor
  · intro h
    rw [notifyNeighborsForDrain] at h
    split_ifs at h with hneeds hnotified
    · cases h
    · dsimp only at h
      rw [hlength, snapshotNameDataSize] at h
      split_ifs at h with hlong
      · cases h
        exact ⟨by simpa using hneeds, by simpa using hnotified, by omega, rfl⟩
      · obtain ⟨tsNs, _, h⟩ := bind_eq_ok.mp h
        obtain ⟨msg, _, h⟩ := bind_eq_ok.mp h
        cases h
  · rintro ⟨hneeds, hnotified, hlong, rfl⟩
    have htext : snapshotNameDataSize ≤ (qpdes ++ name).length := by
      rw [hlength, snapshotNameDataSize]
      omega
    rw [notifyNeighborsForDrain, if_neg (by simp [hneeds]), if_neg (by simp [hnotified])]
    exact if_pos htext

/-- The encoder stays inside the buffer exactly for names that fit together with what follows them, and
for names that are refused. -/
theorem encodesInside_iff {n : Node} {name : List UInt8} {format : SnapshotFormat} :
    EncodesInside n name format ↔
      (n.engine.needsToCheckpoint = true → n.engine.notifiedNeighbors = false →
        name.length < 990 ∨ 1000 < name.length) := by
  have hinside : (∀ w ∈ drainStores n name format, w.span.Inside snapshotNameDataSize) ↔ _ :=
    drainStores_inside_iff
  rw [← hinside]
  constructor
  · intro h
    by_contra houtside
    refine houtside (h fun n' hrefused => houtside ?_)
    obtain ⟨_, _, hlong, _⟩ := notifyNeighborsForDrain_refuses_iff.mp hrefused
    exact drainStores_inside_iff.mpr fun _ _ => Or.inr hlong
  · exact fun h _ => h

theorem createMessage_error {data : List UInt8} {type : UInt8} {tsNs : Int} {f : Fault}
    (h : createMessage data type tsNs = .error f) : maxMsgSize < data.length := by
  rw [createMessage] at h
  split_ifs at h with hfits
  exact Nat.lt_of_not_le hfits

/-- The access outside an object that the model refuses is that of a write behind the buffer. -/
theorem notifyNeighborsForDrain_outOfBounds_iff {n : Node} {name : List UInt8}
    {format : SnapshotFormat} :
    notifyNeighborsForDrain n name format = .error .outOfBounds ↔
      ∃ w ∈ drainStores n name format, ¬w.span.Inside snapshotNameDataSize := by
  have houtside : (∃ w ∈ drainStores n name format, ¬w.span.Inside snapshotNameDataSize) ↔
      ¬∀ w ∈ drainStores n name format, w.span.Inside snapshotNameDataSize := by
    simp only [not_forall, exists_prop]
  rw [houtside, drainStores_inside_iff, notifyNeighborsForDrain]
  split_ifs with hneeds hnotified
  · simp at hneeds
    simp [hneeds]
  · simp [hnotified]
  · simp only [Bool.not_eq_true', Bool.not_eq_false] at hneeds hnotified
    simp only [hneeds, hnotified, forall_const]
    rw [length_qpdes_append, snapshotNameDataSize]
    split_ifs with hlong hbuffer
    · simp only [false_iff]
      omega
    · simp only [true_iff]
      omega
    · have hshort : name.length < 990 ∨ 1000 < name.length := by omega
      simp only [hshort, not_true, iff_false]
      intro h
      rcases bind_eq_error.mp h with htime | ⟨_, _, h⟩
      · rw [getUniversalVirtualTime] at htime
        split_ifs at htime
        cases htime
      rcases bind_eq_error.mp h with hmsg | ⟨_, _, h⟩
      · have hlarge := createMessage_error hmsg
        rw [List.length_append, List.length_append, length_qpdes_append, length_bytesLE,
          length_bytesLE, maxMsgSize] at hlarge
        omega
      · cases h

/-- What the message carries is what the writes have left at the start of the buffer. -/
theorem drainStores_payload {n : Node} {name : List UInt8} {format : SnapshotFormat}
    {buffer : List UInt8} (hneeds : n.engine.needsToCheckpoint = true)
    (hnotified : n.engine.notifiedNeighbors = false) (hfits : name.length < 990)
    (hbuffer : buffer.length = snapshotNameDataSize) :
    ((drainStores n name format).foldl Store.apply buffer).take (17 + name.length) =
      drainPayload name format n.wwt.currentQuantumRound := by
  set text := qpdes ++ name with htext
  have hlength : text.length = 5 + name.length := length_qpdes_append name
  have hshort : ¬snapshotNameDataSize ≤ text.length := by
    rw [hlength, snapshotNameDataSize]
    omega
  rw [snapshotNameDataSize] at hbuffer
  have hprint : snprintf snapshotNameDataSize text = ⟨0, text ++ [0]⟩ := by
    rw [snprintf, List.take_of_length_le (by rw [hlength, snapshotNameDataSize]; omega)]
  have hstores : drainStores n name format =
      [⟨0, text ++ [0]⟩, ⟨0, text ++ [0]⟩, ⟨text.length, bytesLE 4 format.toNat⟩,
        ⟨text.length + 4, bytesLE 8 n.wwt.currentQuantumRound⟩] := by
    rw [drainStores, if_neg (by simp [hneeds]), if_neg (by simp [hnotified])]
    dsimp only
    rw [← htext, if_neg hshort, hprint]
  rw [hstores]
  simp only [List.foldl_cons, List.foldl_nil]
  have hinside : 0 + (text ++ [0]).length ≤ 1006 := by
    rw [List.length_append, hlength, List.length_singleton]
    omega
  set once := Store.apply buffer ⟨0, text ++ [0]⟩ with honce
  set twice := Store.apply once ⟨0, text ++ [0]⟩ with htwice
  have honceLength : once.length = 1006 := by
    rw [honce, Store.length_apply (by rwa [hbuffer]), hbuffer]
  have htwiceLength : twice.length = 1006 := by
    rw [htwice, Store.length_apply (by rwa [honceLength]), honceLength]
  have hprinted : twice.take text.length = text := by
    have hbytes : twice.take (0 + (text ++ [0]).length) = once.take 0 ++ (text ++ [0]) :=
      Store.take_apply (Nat.zero_le _)
    have htake : (twice.take (0 + (text ++ [0]).length)).take text.length = text := by
      rw [hbytes, List.take_zero, List.nil_append, List.take_left]
    rwa [List.take_take, Nat.min_eq_left (by simp)] at htake
  set third := Store.apply twice ⟨text.length, bytesLE 4 format.toNat⟩ with hthird
  have hthirdLength : third.length = 1006 := by
    rw [hthird, Store.length_apply (by rw [length_bytesLE, htwiceLength]; omega), htwiceLength]
  have hformat : third.take (text ++ bytesLE 4 format.toNat).length =
      text ++ bytesLE 4 format.toNat :=
    Store.take_apply_behind hprinted (by rw [htwiceLength]; omega)
  have hbehind : (text ++ bytesLE 4 format.toNat).length = text.length + 4 := by
    rw [List.length_append, length_bytesLE]
  have hsize : 17 + name.length = (drainPayload name format n.wwt.currentQuantumRound).length := by
    rw [length_drainPayload, ← htext, hlength]
    omega
  rw [hsize, ← hbehind]
  exact Store.take_apply_behind hformat (by rw [hthirdLength, hbehind]; omega)

/-- The prefix is written again in front of a name that a follower has read with its prefix. -/
theorem processMessage_drainStart_encodes {m m' : Node} {msg : Message} {name : List UInt8}
    {format : SnapshotFormat} {round : Nat} (htype : msg.type = drainStart)
    (hlen : msg.len = msg.data.length) (hdata : msg.data = drainPayload name format round)
    (hround : round < 2 ^ 64) (hname : ∀ b ∈ name, b ≠ 0) (hfollower : m.engine.master = false)
    (hbias : m.engine.firstSyncVirtualTime ≠ -1) (hreceive : processMessage m msg = .ok m') :
    EncodesInside m' m'.engine.checkpointName m'.engine.checkpointFormat ↔
      (m.engine.notifiedNeighbors = false → name.length < 985 ∨ 995 < name.length) := by
  rw [processMessage_drainStart htype hlen hdata hround hname hfollower hbias] at hreceive
  cases hreceive
  rw [encodesInside_iff]
  change (true = true → m.engine.notifiedNeighbors = false →
    (qpdes ++ name).length < 990 ∨ 1000 < (qpdes ++ name).length) ↔ _
  rw [length_qpdes_append]
  constructor
  · intro h hnotified
    have hlength := h rfl hnotified
    omega
  · intro h _ hnotified
    have hlength := h hnotified
    omega

theorem unstamped_lt : 0 < 2 ^ 64 := by decide

theorem drainPayload_fits {name : List UInt8} {format : SnapshotFormat} {round : Nat}
    (h : name.length ≤ 2031) : (drainPayload name format round).length ≤ maxMsgSize := by
  rw [length_drainPayload, length_qpdes_append, maxMsgSize]
  omega

/-- A `DRAIN_START` with a name that the array of a message has room for. -/
def drainStartMessage (name : List UInt8) (format : SnapshotFormat) (round : Nat)
    (h : name.length ≤ 2031) : Message where
  tsNs := 0
  len := (drainPayload name format round).length
  data := drainPayload name format round
  type := drainStart
  tsNs_lt := unstamped_lt
  len_le := drainPayload_fits h
  data_le := drainPayload_fits h

/-- Where the encoder stays inside its buffer: on a node that passes a request on, and on a follower
that has read the name and passes it back. -/
theorem drain_encoder_inside_iff (n : Node) (name : List UInt8) (format : SnapshotFormat) :
    (EncodesInside n name format ↔
      (n.engine.needsToCheckpoint = true → n.engine.notifiedNeighbors = false →
        name.length < 990 ∨ 1000 < name.length)) ∧
    ∀ (m m' : Node) (msg : Message) (round : Nat), msg.type = drainStart →
      msg.len = msg.data.length → msg.data = drainPayload name format round → round < 2 ^ 64 →
      (∀ b ∈ name, b ≠ 0) → m.engine.master = false → m.engine.firstSyncVirtualTime ≠ -1 →
      processMessage m msg = .ok m' →
      (EncodesInside m' m'.engine.checkpointName m'.engine.checkpointFormat ↔
        (m.engine.notifiedNeighbors = false → name.length < 985 ∨ 995 < name.length)) := by
  refine ⟨encodesInside_iff, ?_⟩
  intro m m' msg round htype hlen hdata hround hname hfollower hbias hreceive
  exact processMessage_drainStart_encodes htype hlen hdata hround hname hfollower hbias hreceive

/-- A name of `k` bytes. -/
def nameOfLength (k : Nat) : List UInt8 := List.replicate k 97

theorem length_nameOfLength (k : Nat) : (nameOfLength k).length = k := List.length_replicate

theorem length_nameOfLength_le {k : Nat} (h : k ≤ 2031) : (nameOfLength k).length ≤ 2031 := by
  rwa [length_nameOfLength]

theorem nameOfLength_noNul {k : Nat} : ∀ b ∈ nameOfLength k, b ≠ 0 := by
  intro b hb
  rw [List.eq_of_mem_replicate hb]
  decide

/-- A request for a name of `k` bytes. -/
def requestOfLength (k : Nat) (h : k ≤ 2031) : Message :=
  drainStartMessage (nameOfLength k) 2 5 (length_nameOfLength_le h)

/-- The name of 984 bytes is the longest that a follower passes back inside the buffer. -/
theorem drain_encoder_inside_longest :
    (EncodesInside (echoingNode true) (nameOfLength 984) 2 ↔
      (true = true → false = false →
        (nameOfLength 984).length < 990 ∨ 1000 < (nameOfLength 984).length)) ∧
    ∃ m', processMessage (echoingNode false) (requestOfLength 984 (by decide)) = .ok m' ∧
      (EncodesInside m' m'.engine.checkpointName m'.engine.checkpointFormat ↔
        (false = false → (nameOfLength 984).length < 985 ∨ 995 < (nameOfLength 984).length)) := by
  have h := drain_encoder_inside_iff (echoingNode true) (nameOfLength 984) 2
  have hreceive : processMessage (echoingNode false) (requestOfLength 984 (by decide)) =
      .ok ((echoingNode false).requested (requestOfLength 984 (by decide))
        (qpdes ++ nameOfLength 984) 2 5) :=
    processMessage_drainStart rfl rfl rfl (by decide) nameOfLength_noNul rfl (by decide)
  exact ⟨h.1, _, hreceive, h.2 (echoingNode false) _ (requestOfLength 984 (by decide)) 5 rfl rfl rfl
    (by decide) nameOfLength_noNul rfl (by decide) hreceive⟩

/-- A name of 990 bytes is printed inside the buffer and its round is not; nor is that of a name of 985
bytes when the follower passes it back. -/
theorem drain_encoder_outside :
    ¬EncodesInside (echoingNode true) (nameOfLength 990) 2 ∧
    EncodesInside (echoingNode true) (nameOfLength 985) 2 ∧
    ∃ m', processMessage (echoingNode false) (requestOfLength 985 (by decide)) = .ok m' ∧
      ¬EncodesInside m' m'.engine.checkpointName m'.engine.checkpointFormat := by
  refine ⟨?_, ?_, _,
    processMessage_drainStart rfl rfl rfl (by decide) nameOfLength_noNul rfl (by decide), ?_⟩
  · rw [encodesInside_iff, length_nameOfLength]
    intro h
    have hlength := h rfl rfl
    omega
  · rw [encodesInside_iff, length_nameOfLength]
    intro _ _
    omega
  · rw [encodesInside_iff]
    intro h
    have hlength : (qpdes ++ nameOfLength 985).length < 990 ∨
        1000 < (qpdes ++ nameOfLength 985).length := h rfl rfl
    rw [length_qpdes_append, length_nameOfLength] at hlength
    omega

/-! ### The decoder -/

/-- The size of `checkpoint_name`. -/
def checkpointNameSize : Nat := 10006

/-- `name_len`: the sizes of the format and of the round are subtracted in 64 bits. -/
def drainNameLen (len : Nat) : Nat :=
  uint64 ((uint64 ((len : Int) - 4) : Int) - 8)

/-- What a follower's `DRAIN_START` arm reads of the data. -/
def drainReads (msg : Message) : List Span :=
  let nameLen := drainNameLen msg.len
  let round := if 12 ≤ msg.len then [⟨nameLen + 4, 8⟩] else []
  ⟨0, nameLen⟩ :: ⟨nameLen, 4⟩ :: round

/-- What it writes into `checkpoint_name`. -/
def drainNameStores (msg : Message) : List (Store UInt8) :=
  let nameLen := drainNameLen msg.len
  [⟨0, msg.bytes 0 nameLen⟩, ⟨nameLen, [0]⟩]

/-- The difference is the one of the integers, and no access leaves the first `len` bytes of the data
or the name. -/
structure DecodesInside (msg : Message) : Prop where
  nameLen : (drainNameLen msg.len : Int) = msg.len - 4 - 8
  reads : ∀ s ∈ drainReads msg, s.Inside msg.len
  writes : ∀ w ∈ drainNameStores msg, w.span.Inside checkpointNameSize

theorem drainNameLen_eq {len : Nat} (hlong : 12 ≤ len) (hmax : len ≤ maxMsgSize) :
    drainNameLen len = len - 12 := by
  rw [maxMsgSize] at hmax
  rw [drainNameLen, uint64, uint64]
  omega

theorem decodesInside_iff {msg : Message} : DecodesInside msg ↔ 12 ≤ msg.len := by
  constructor
  · intro h
    have hnameLen := h.nameLen
    omega
  · intro hlong
    have hmax := msg.len_le
    have hnameLen := drainNameLen_eq hlong hmax
    rw [maxMsgSize] at hmax
    refine ⟨?_, ?_, ?_⟩
    · rw [hnameLen]
      omega
    · simp only [drainReads, hnameLen, if_pos hlong, List.mem_cons, List.not_mem_nil, or_false,
        forall_eq_or_imp, forall_eq, Span.inside_iff]
      omega
    · simp only [drainNameStores, hnameLen, List.mem_cons, List.not_mem_nil, or_false,
        forall_eq_or_imp, forall_eq, Span.inside_iff, Store.span, Message.bytes, length_readBytes,
        List.length_singleton, checkpointNameSize]
      omega

/-- A C string ends at the first NUL behind it. -/
theorem cString_append_nul (name rest : List UInt8) :
    cString (name ++ [0] ++ rest) = cString name := by
  induction name with
  | nil => rfl
  | cons b name ih =>
      by_cases hb : b = 0
      · simp [cString, hb]
      · have htail : (name ++ [0] ++ rest).takeWhile (· ≠ 0) = name.takeWhile (· ≠ 0) := ih
        simp only [cString, List.cons_append]
        rw [List.takeWhile_cons_of_pos (by simpa using hb), htail,
          List.takeWhile_cons_of_pos (by simpa using hb)]

/-- The name that the writes leave is the one the model reads. -/
theorem drainNameStores_name {n n' : Node} {msg : Message} {buffer : List UInt8}
    (hfollower : n.engine.master = false) (hbuffer : buffer.length = checkpointNameSize)
    (h : receiveDrainStart n msg = .ok n') :
    cString ((drainNameStores msg).foldl Store.apply buffer) = n'.engine.checkpointName := by
  have hmax := msg.len_le
  rw [receiveDrainStart] at h
  dsimp only at h
  rw [if_pos (by rw [Bool.not_eq_true']; exact hfollower)] at h
  split_ifs at h with hshort
  cases h
  have hnameLen := drainNameLen_eq (Nat.le_of_not_lt hshort) hmax
  set name := msg.bytes 0 (msg.len - 12) with hname
  have hlength : name.length = msg.len - 12 := by rw [hname, Message.bytes, length_readBytes]
  rw [maxMsgSize] at hmax
  rw [checkpointNameSize] at hbuffer
  have hstores : drainNameStores msg = [⟨0, name⟩, ⟨name.length, [0]⟩] := by
    rw [drainNameStores, hnameLen, hlength]
  rw [hstores]
  simp only [List.foldl_cons, List.foldl_nil]
  set copied := Store.apply buffer ⟨0, name⟩ with hcopied
  have hcopiedLength : copied.length = 10006 := by
    rw [hcopied, Store.length_apply (by rw [hlength]; omega), hbuffer]
  have hfront : copied.take name.length = name := by
    have hbytes : copied.take (0 + name.length) = buffer.take 0 ++ name :=
      Store.take_apply (Nat.zero_le _)
    rwa [Nat.zero_add, List.take_zero, List.nil_append] at hbytes
  set ended := Store.apply copied ⟨name.length, [0]⟩
  have hended : ended.take (name ++ [0]).length = name ++ [0] :=
    Store.take_apply_behind hfront (by omega)
  calc cString ended = cString (ended.take (name ++ [0]).length ++ ended.drop (name ++ [0]).length) := by
        rw [List.take_append_drop]
    _ = cString (name ++ [0] ++ ended.drop (name ++ [0]).length) := by rw [hended]
    _ = cString name := cString_append_nul name _

/-- A follower reads a `DRAIN_START` within its buffers exactly when the message has room for a format
and a round. -/
theorem drain_decoder_inside_iff {n : Node} {msg : Message} (htype : msg.type = drainStart)
    (hfollower : n.engine.master = false) (hbias : n.engine.firstSyncVirtualTime ≠ -1) :
    (DecodesInside msg ↔ 12 ≤ msg.len) ∧
    (processMessage n msg = .error .outOfBounds ↔ ¬DecodesInside msg) := by
  refine ⟨decodesInside_iff, ?_⟩
  have hcontrol : msg.IsControl := by
    rw [Message.IsControl, htype]
    decide
  rw [decodesInside_iff, processMessage_of_control hcontrol hbias, processControl, htype]
  change receiveDrainStart (n.logReceive msg) msg = _ ↔ _
  rw [receiveDrainStart]
  dsimp only
  rw [if_pos (by rw [Bool.not_eq_true']; exact hfollower)]
  split_ifs with hshort
  · simpa using hshort
  · simpa using hshort

/-- A `DRAIN_START` of a format and a round, from which the empty name is read. -/
def shortestDrainStart : Message where
  tsNs := 0
  len := 12
  data := bytesLE 4 2 ++ bytesLE 8 5
  type := drainStart
  tsNs_lt := unstamped_lt
  len_le := by decide
  data_le := by decide

theorem drain_decoder_inside_shortest :
    shortestDrainStart.len = 12 ∧ (DecodesInside shortestDrainStart ↔ 12 ≤ shortestDrainStart.len) ∧
    (processMessage (echoingNode false) shortestDrainStart = .error .outOfBounds ↔
      ¬DecodesInside shortestDrainStart) :=
  ⟨rfl, drain_decoder_inside_iff rfl rfl (by decide)⟩

/-- From a message without data the length of the name is 12 bytes below zero. -/
theorem drain_decoder_outside :
    (Message.ofType drainStart).type = drainStart ∧ (echoingNode false).engine.master = false ∧
    drainNameLen (Message.ofType drainStart).len = 2 ^ 64 - 12 ∧
    ¬DecodesInside (Message.ofType drainStart) ∧
    processMessage (echoingNode false) (Message.ofType drainStart) = .error .outOfBounds := by
  refine ⟨rfl, rfl, by decide, ?_, by rfl⟩
  rw [decodesInside_iff]
  decide

end LeanPdes
