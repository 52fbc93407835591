import LeanPdes.CheckpointCounts
import LeanPdes.DrainStart

/-! The rendezvous of the two nodes before the first checkpoint. The master's own call and the first
`CHECKPOINT_INIT_STEP` come in either order, and the later of the two sets the request. The messages are
counted in an `int`. -/

namespace LeanPdes

open Words

abbrev InitStep : Type := { msg : Message // msg.type = checkpointInitStep }

/-- What the rendezvous is made of. -/
inductive InitEvent
  | finishInitiateCheckpoint
  | checkpointInitStep (msg : InitStep)

def InitEvent.isCall : InitEvent → Bool
  | .finishInitiateCheckpoint => true
  | .checkpointInitStep .. => false

def initEvent (n : Node) : InitEvent → Except Fault Node
  | .finishInitiateCheckpoint => LeanPdes.finishInitiateCheckpoint n
  | .checkpointInitStep msg => processMessage n msg

/-- Both the call and a message are among the events. -/
def met (events : List InitEvent) : Bool :=
  events.any InitEvent.isCall && events.any (!·.isCall)

/-- After any number of the events the request has been set once if both have happened by then, and
not at all before: it is set at the first event after which both have happened. -/
def ArmsWhenMet (n : Node) (events : List InitEvent) : Prop :=
  ∀ k, ∃ n', (events.take k).foldlM initEvent n = .ok n' ∧
    n'.arms = n.arms + (met (events.take k)).toNat

/-- The master after `count` messages, with the call made or not, and the request set `armed` times. -/
structure InitState (n : Node) (count armed : Nat) (called : Bool) (n' : Node) : Prop where
  master : n'.engine.master = true
  bias : n'.engine.firstSyncVirtualTime ≠ -1
  initFlag : n'.engine.initFlag = int32 count
  masterInit : n'.engine.masterInit = called
  arms : n'.arms = n.arms + armed

/-- How often the `int` becomes 1 while it counts up `steps` times. -/
def returns (count steps : Nat) : Nat :=
  (List.range' (count + 1) steps).countP fun c => c % 2 ^ 32 = 1

theorem int32_succ (count : Nat) : int32 (int32 count + 1) = int32 ((count + 1 : Nat) : Int) := by
  rw [int32, int32, int32, Int.bmod_add_bmod]
  norm_num

theorem int32_eq_one_iff (count : Nat) : int32 count = 1 ↔ count % 2 ^ 32 = 1 := by
  rw [int32, Int.bmod_def]
  split_ifs <;> omega

theorem one_le_int32_iff (count : Nat) :
    1 ≤ int32 count ↔ 1 ≤ count % 2 ^ 32 ∧ count % 2 ^ 32 < 2 ^ 31 := by
  rw [int32, Int.bmod_def]
  split_ifs <;> omega

theorem setCheckpointValuesForMaster_arms (n : Node) :
    (setCheckpointValuesForMaster n).arms = n.arms + 1 := by
  simp [Node.arms, setCheckpointValuesForMaster, Event.isArm]

/-- A message adds one to the count, and sets the request when it is counted as the first one after the
call. -/
theorem InitState.message {n n' : Node} {count armed : Nat} {called : Bool}
    (h : InitState n count armed called n') (msg : InitStep) :
    ∃ n'', initEvent n' (.checkpointInitStep msg) = .ok n'' ∧
      InitState n (count + 1) (armed + (called && decide ((count + 1) % 2 ^ 32 = 1)).toNat) called
        n'' := by
  have hcontrol : msg.1.IsControl := by
    rw [Message.IsControl, msg.2]
    decide
  have hresult : initEvent n' (.checkpointInitStep msg) =
      .ok (receiveCheckpointInitStep (n'.logReceive msg)) := by
    rw [initEvent, processMessage_of_control hcontrol h.bias, processControl, msg.2]
    rfl
  have hlog : (n'.logReceive msg).arms = n'.arms := by
    simp [Node.arms, Node.logReceive, Event.isArm]
  have hflag : int32 (n'.engine.initFlag + 1) = int32 ((count + 1 : Nat) : Int) := by
    rw [h.initFlag, int32_succ]
  refine ⟨_, hresult, ?_⟩
  rw [receiveCheckpointInitStep]
  dsimp only
  split_ifs with harm
  · obtain ⟨_, hone, hinit⟩ := harm
    have hcalled : called = true := by
      rw [← h.masterInit]
      exact hinit
    have hfirst : (count + 1) % 2 ^ 32 = 1 := by
      rw [← int32_eq_one_iff, ← hflag]
      exact hone
    refine ⟨h.master, h.bias, hflag, h.masterInit, ?_⟩
    rw [setCheckpointValuesForMaster_arms, hcalled, Bool.true_and, decide_eq_true hfirst]
    change (n'.logReceive msg).arms + 1 = _
    rw [hlog, h.arms]
    rfl
  · have hnot : (called && decide ((count + 1) % 2 ^ 32 = 1)) = false := by
      rw [Bool.eq_false_iff]
      intro hboth
      rw [Bool.and_eq_true, decide_eq_true_eq, ← int32_eq_one_iff, ← hflag, ← h.masterInit] at hboth
      exact harm ⟨h.master, hboth.2, hboth.1⟩
    refine ⟨h.master, h.bias, hflag, h.masterInit, ?_⟩
    rw [hnot]
    change (n'.logReceive msg).arms = _
    rw [hlog, h.arms]
    rfl

/-- The call sets the request when a message has been counted. -/
theorem InitState.call {n n' : Node} {count armed : Nat} {called : Bool}
    (h : InitState n count armed called n') :
    ∃ n'', initEvent n' .finishInitiateCheckpoint = .ok n'' ∧
      InitState n count (armed + (decide (1 ≤ int32 count)).toNat) true n'' := by
  rw [initEvent, finishInitiateCheckpoint, if_pos h.master]
  dsimp only
  split_ifs with hflag
  · refine ⟨_, rfl, h.master, h.bias, h.initFlag, rfl, ?_⟩
    rw [h.initFlag] at hflag
    rw [setCheckpointValuesForMaster_arms, decide_eq_true hflag]
    change n'.arms + 1 = _
    rw [h.arms]
    rfl
  · refine ⟨_, rfl, h.master, h.bias, h.initFlag, rfl, ?_⟩
    rw [h.initFlag] at hflag
    rw [decide_eq_false hflag]
    exact h.arms

theorem returns_succ (count steps : Nat) :
    returns count (steps + 1) =
      (decide ((count + 1) % 2 ^ 32 = 1)).toNat + returns (count + 1) steps := by
  rw [returns, List.range'_succ, List.countP_cons, ← returns, Nat.add_comm]
  by_cases hone : (count + 1) % 2 ^ 32 = 1
  · rw [decide_eq_true hone]
    rfl
  · rw [decide_eq_false hone]
    rfl

/-- Past 1 the count returns to it only once it has wrapped round. -/
theorem returns_eq_zero_iff {count : Nat} (hcount : 1 ≤ count % 2 ^ 32) (steps : Nat) :
    returns count steps = 0 ↔ count % 2 ^ 32 + steps ≤ 2 ^ 32 := by
  simp only [returns, List.countP_eq_zero, List.mem_range'_1, decide_eq_true_eq]
  constructor
  · intro h
    by_contra hlong
    have hreturn := h (count - count % 2 ^ 32 + 2 ^ 32 + 1)
    omega
  · intro hshort c hc
    omega

/-- From no message on, the count is 1 at the first one and then only once it has wrapped round. -/
theorem returns_from_zero (steps : Nat) : returns 0 (steps + 1) = 1 ↔ steps + 1 ≤ 2 ^ 32 := by
  have hone : (0 + 1) % 2 ^ 32 = 1 := by norm_num
  have hrest : returns (0 + 1) steps = 0 ↔ (0 + 1) % 2 ^ 32 + steps ≤ 2 ^ 32 :=
    returns_eq_zero_iff hone.ge steps
  rw [hone, Nat.add_comm 1 steps] at hrest
  rw [returns_succ, decide_eq_true hone, Bool.toNat_true, Nat.add_eq_left, hrest]

/-- A number of messages, one after the other. -/
theorem InitState.messages {n n' : Node} {count armed : Nat} {called : Bool}
    (h : InitState n count armed called n') (msgs : List InitStep) :
    ∃ n'', (msgs.map .checkpointInitStep).foldlM initEvent n' = .ok n'' ∧
      InitState n (count + msgs.length) (armed + called.toNat * returns count msgs.length) called
        n'' := by
  induction msgs generalizing n' count armed with
  | nil =>
      refine ⟨n', rfl, ?_⟩
      simpa [returns] using h
  | cons msg msgs ih =>
      obtain ⟨middle, hmiddle, hstate⟩ := h.message msg
      obtain ⟨n'', hrest, hfinal⟩ := ih hstate
      refine ⟨n'', ?_, ?_⟩
      · rw [List.map_cons, List.foldlM_cons, hmiddle]
        exact hrest
      · have hcount : count + (msg :: msgs).length = count + 1 + msgs.length := by
          rw [List.length_cons]
          omega
        have harmed : armed + called.toNat * returns count (msg :: msgs).length =
            armed + (called && decide ((count + 1) % 2 ^ 32 = 1)).toNat +
              called.toNat * returns (count + 1) msgs.length := by
          rw [List.length_cons, returns_succ]
          cases called
          · simp
          · simp only [Bool.true_and, Bool.toNat_true, Nat.one_mul]
            omega
        rw [hcount, harmed]
        exact hfinal

/-- The messages before the call, the call, and the messages after it. -/
def initEvents (before after : List InitStep) : List InitEvent :=
  before.map .checkpointInitStep ++ .finishInitiateCheckpoint :: after.map .checkpointInitStep

theorem met_messages (msgs : List InitStep) : met (msgs.map .checkpointInitStep) = false := by
  have hcall : (msgs.map InitEvent.checkpointInitStep).any InitEvent.isCall = false := by
    simp [InitEvent.isCall]
  rw [met, hcall, Bool.false_and]

theorem met_initEvents (before after : List InitStep) :
    met (initEvents before after) = decide (before.length + after.length ≠ 0) := by
  have hcall : (initEvents before after).any InitEvent.isCall = true := by
    simp [initEvents, InitEvent.isCall]
  rw [met, hcall, Bool.true_and]
  cases before with
  | cons msg before => simp [initEvents, InitEvent.isCall]
  | nil =>
      cases after with
      | cons msg after => simp [initEvents, InitEvent.isCall]
      | nil => simp [initEvents, InitEvent.isCall]

theorem take_initEvents_before {before after : List InitStep} {k : Nat} (hk : k ≤ before.length) :
    (initEvents before after).take k = (before.take k).map .checkpointInitStep := by
  rw [initEvents, List.take_append_of_le_length (by rwa [List.length_map]), List.map_take]

theorem take_initEvents_after (before after : List InitStep) (k : Nat) :
    (initEvents before after).take (before.length + (k + 1)) = initEvents before (after.take k) := by
  have hlength : before.length = (before.map InitEvent.checkpointInitStep).length := by
    rw [List.length_map]
  rw [initEvents, hlength, List.take_length_add_append, List.take_succ_cons, ← List.map_take]
  rfl

/-- A master at the start of the program, before its call and before any message. -/
theorem InitState.start {n : Node} (hmaster : n.engine.master = true)
    (hbias : n.engine.firstSyncVirtualTime ≠ -1) (hflag : n.engine.initFlag = 0)
    (hinit : n.engine.masterInit = false) : InitState n 0 0 false n := by
  refine ⟨hmaster, hbias, ?_, hinit, rfl⟩
  rw [hflag]
  rfl

/-- How often the request has been set after all of the events. -/
theorem InitState.initEvents {n : Node} (h : InitState n 0 0 false n) (before after : List InitStep) :
    ∃ n', (initEvents before after).foldlM initEvent n = .ok n' ∧
      n'.arms = n.arms + ((decide (1 ≤ int32 before.length)).toNat +
        returns before.length after.length) := by
  obtain ⟨middle, hbefore, hmiddle⟩ := h.messages before
  obtain ⟨called, hcall, hcalled⟩ := hmiddle.call
  obtain ⟨n', hafter, hfinal⟩ := hcalled.messages after
  refine ⟨n', ?_, ?_⟩
  · rw [LeanPdes.initEvents, List.foldlM_append, hbefore]
    change (InitEvent.finishInitiateCheckpoint :: _).foldlM initEvent middle = _
    rw [List.foldlM_cons, hcall]
    exact hafter
  · have harms := hfinal.arms
    simpa using harms

/-- Whether the prefixes of the events set the request when they should is a matter of the counts. -/
theorem armsWhenMet_iff {n : Node} (h : InitState n 0 0 false n) (before after : List InitStep) :
    ArmsWhenMet n (initEvents before after) ↔
      ∀ k ≤ after.length, (decide (1 ≤ int32 before.length)).toNat + returns before.length k =
        (decide (before.length + k ≠ 0)).toNat := by
  constructor
  · intro harms k hk
    obtain ⟨n', hrun, hcount⟩ := harms (before.length + (k + 1))
    obtain ⟨_, hrun', hcount'⟩ := h.initEvents before (after.take k)
    rw [take_initEvents_after] at hrun hcount
    rw [met_initEvents, List.length_take, Nat.min_eq_left hk] at hcount
    rw [List.length_take, Nat.min_eq_left hk] at hcount'
    rw [hrun] at hrun'
    cases hrun'
    omega
  · intro hcounts k
    rcases Nat.lt_or_ge before.length k with hafter | hbefore
    · obtain ⟨j, rfl⟩ : ∃ j, k = before.length + (j + 1) := ⟨k - before.length - 1, by omega⟩
      rw [take_initEvents_after]
      obtain ⟨n', hrun, hcount⟩ := h.initEvents before (after.take j)
      refine ⟨n', hrun, ?_⟩
      rw [hcount, met_initEvents, hcounts _ (List.length_take_le' j after)]
    · rw [take_initEvents_before hbefore, met_messages]
      obtain ⟨n', hrun, hstate⟩ := h.messages (before.take k)
      refine ⟨n', hrun, ?_⟩
      simpa using hstate.arms

/-- The two paths set the request once, at the first event after which both sides are ready, exactly for
the sequences in which the count is positive at the call, or no message has come yet, and does not
become 1 again after it. -/
theorem init_rendezvous_iff {n : Node} (hmaster : n.engine.master = true)
    (hbias : n.engine.firstSyncVirtualTime ≠ -1) (hflag : n.engine.initFlag = 0)
    (hinit : n.engine.masterInit = false) (before after : List InitStep) :
    ArmsWhenMet n (initEvents before after) ↔
      (before = [] ∨ 1 ≤ int32 before.length) ∧
        before.length % 2 ^ 32 + after.length ≤ 2 ^ 32 := by
  rw [armsWhenMet_iff (.start hmaster hbias hflag hinit)]
  cases before with
  | nil =>
      have hzero : int32 ((0 : Nat) : Int) = 0 := by decide
      have hnever : decide ((1 : Int) ≤ 0) = false := by decide
      simp only [List.length_nil, hzero, hnever, true_or, true_and, Nat.zero_mod, Nat.zero_add,
        Bool.toNat_false]
      constructor
      · intro h
        cases hlength : after.length with
        | zero => exact Nat.zero_le _
        | succ k => exact (returns_from_zero k).mp (h (k + 1) hlength.ge)
      · intro hshort k hk
        cases k with
        | zero => rfl
        | succ k => exact (returns_from_zero k).mpr (hk.trans hshort)
  | cons msg before =>
      set count := (msg :: before).length with hcount
      have hpos : ∀ k, decide (count + k ≠ 0) = true := by
        intro k
        rw [decide_eq_true_eq, hcount, List.length_cons]
        omega
      have hnonempty : (msg :: before : List InitStep) ≠ [] := List.cons_ne_nil _ _
      simp only [hpos, hnonempty, false_or, Bool.toNat_true]
      constructor
      · intro h
        have hcall : 1 ≤ int32 count := by
          by_contra hnot
          have hnone := h 0 (Nat.zero_le _)
          rw [decide_eq_false hnot] at hnone
          cases hnone
        have hlast := h after.length le_rfl
        rw [decide_eq_true hcall, Bool.toNat_true, Nat.add_eq_left,
          returns_eq_zero_iff ((one_le_int32_iff count).mp hcall).1] at hlast
        exact ⟨hcall, hlast⟩
      · rintro ⟨hcall, hshort⟩ k hk
        rw [decide_eq_true hcall, Bool.toNat_true, Nat.add_eq_left,
          returns_eq_zero_iff ((one_le_int32_iff count).mp hcall).1]
        exact (Nat.add_le_add_left hk _).trans hshort

def initStep : InitStep := ⟨.ofType checkpointInitStep, rfl⟩

/-- Two messages before the call and one after it. -/
theorem init_rendezvous_two_one :
    ArmsWhenMet (pdesEngineWwtCreate true 1000 true 2 5) (initEvents [initStep, initStep] [initStep]) ↔
      ([initStep, initStep] = [] ∨ 1 ≤ int32 [initStep, initStep].length) ∧
        [initStep, initStep].length % 2 ^ 32 + [initStep].length ≤ 2 ^ 32 :=
  init_rendezvous_iff rfl (by decide) rfl rfl [initStep, initStep] [initStep]

/-- After 2 ^ 31 messages the count is negative, and the call does not set the request. -/
theorem not_armsWhenMet_of_wrapped :
    ¬ArmsWhenMet (pdesEngineWwtCreate true 1000 true 2 5)
      (initEvents (List.replicate (2 ^ 31) initStep) []) := by
  intro h
  have hstart : InitState (pdesEngineWwtCreate true 1000 true 2 5) 0 0 false
      (pdesEngineWwtCreate true 1000 true 2 5) := .start rfl (by decide) rfl rfl
  have hcounts := (armsWhenMet_iff hstart _ _).mp h 0 (Nat.zero_le _)
  have hwrapped : int32 ((2 ^ 31 : Nat) : Int) = -2 ^ 31 := by decide
  rw [List.length_replicate, hwrapped] at hcounts
  cases hcounts

end LeanPdes
