import LeanPdes.Words

/-! How two parties agree to exit. The follower asks once it is ready; the master, once it is ready
too, grants the request, and from then on each party says once that it has finished. `Phase` is what
the two parties have agreed on so far; it determines what each of them knows and which messages are
on the way. -/

namespace ExitProtocol

open Words

inductive Msg
  | intent
  | permission
  | finished
  deriving DecidableEq, Repr

/-- What a party does: it asks whether it may stop, it sends a message, it processes one. -/
inductive Act
  | stop
  | sent (msg : Msg)
  | got (msg : Msg)
  deriving DecidableEq, Repr

/-- The messages sent by some acts. -/
def sends (acts : List Act) : List Msg :=
  acts.filterMap fun | .sent msg => some msg | _ => none

@[simp] theorem sends_nil : sends [] = [] := rfl

/-- What a party has noted of the agreement. -/
structure Flags where
  master : Bool
  intents : Int
  permitted : Bool
  ready : Bool
  endSent : Bool
  finished : Bool
  intentSent : Bool
  deriving DecidableEq, Repr

/-- A permitted party says that it has finished, unless it has said so. -/
def Flags.sendEnd (p : Flags) : Flags × List Act :=
  if p.permitted && !p.endSent then ({ p with endSent := true }, [.sent .finished]) else (p, [])

theorem Flags.sendEnd_permitted (p : Flags) : p.sendEnd.1.permitted = p.permitted := by
  rw [Flags.sendEnd]
  split_ifs <;> rfl

/-- The master grants the request. -/
def Flags.grant (p : Flags) : Flags × List Act :=
  let r := { p with permitted := true }.sendEnd
  (r.1, .sent .permission :: r.2)

/-- The part of a call to stop before the party says that it is ready. -/
def Flags.ask (p : Flags) : Flags × List Act :=
  if p.master then
    if 1 ≤ p.intents ∧ p.permitted = false then p.grant else (p, [])
  else if p.intentSent then (p, [])
  else ({ p with intentSent := true }, [.sent .intent])

def Flags.stop (p : Flags) : Flags × List Act :=
  ({ p.ask.1 with ready := true }, .stop :: p.ask.2)

/-- A call to stop finds out nothing about the other party. -/
theorem Flags.stop_finished (p : Flags) : p.stop.1.finished = p.finished := by
  rw [Flags.stop, Flags.ask]
  split_ifs
  · rw [Flags.grant, Flags.sendEnd]
    split_ifs <;> rfl
  · rfl
  · rfl
  · rfl

/-- The master's check at the end of a round. -/
def Flags.check (p : Flags) : Flags × List Act :=
  if p.master = true ∧ 1 ≤ p.intents ∧ p.ready = true ∧ p.permitted = false then p.grant
  else (p, [])

/-- What a party does about a message. -/
def Flags.process (p : Flags) : Msg → Flags × List Act
  | .intent => (if p.master then { p with intents := int32 (p.intents + 1) } else p, [])
  | .permission => { p with permitted := true }.sendEnd
  | .finished => ({ p with finished := true }, [])

def Flags.receive (p : Flags) (msg : Msg) : Flags × List Act :=
  ((p.process msg).1, .got msg :: (p.process msg).2)

/-- One call of a party, or a call that does not concern the exit. -/
inductive Call
  | idle
  | stop
  | check
  | sendEnd
  | receive (msg : Msg)
  deriving DecidableEq, Repr

def Call.apply : Call → Flags → Flags × List Act
  | .idle, p => (p, [])
  | .stop, p => p.stop
  | .check, p => p.check
  | .sendEnd, p => p.sendEnd
  | .receive msg, p => p.receive msg

/-- The message that a call processes. -/
def Call.taken : Call → List Msg
  | .receive msg => [msg]
  | _ => []

/-! ### The phases -/

/-- How far the agreement has come. `ready` says whether the master wants to stop, and the flags of
`closing` which party has processed that the other has finished. -/
inductive Phase
  | running (ready : Bool)
  | asked (ready : Bool)
  | received (ready : Bool)
  | granted
  | closing (masterKnows followerKnows : Bool)
  deriving DecidableEq, Repr

namespace Phase

/-- What the master, or the follower, knows in a phase. -/
def flags (master : Bool) : Phase → Flags
  | running ready => ⟨master, 0, false, master && ready, false, false, false⟩
  | asked ready => ⟨master, 0, false, !master || ready, false, false, !master⟩
  | received ready => ⟨master, master.toNat, false, !master || ready, false, false, !master⟩
  | granted => ⟨master, master.toNat, master, true, master, false, !master⟩
  | closing masterKnows followerKnows =>
      ⟨master, master.toNat, true, true, true, bif master then masterKnows else followerKnows,
        !master⟩

@[simp] theorem flags_master (master : Bool) (phase : Phase) :
    (phase.flags master).master = master := by
  cases phase <;> rfl

/-- The messages on the way from the master, or from the follower. -/
def onTheWay (master : Bool) : Phase → List Msg
  | asked _ => if master then [] else [.intent]
  | granted => if master then [.permission, .finished] else []
  | closing masterKnows followerKnows =>
      if bif master then followerKnows else masterKnows then [] else [.finished]
  | _ => []

/-- The phase after a call of the master, or of the follower. -/
def next (master : Bool) (call : Call) (phase : Phase) : Phase :=
  match master, call, phase with
  | true, .stop, running _ => running true
  | true, .stop, asked _ => asked true
  | true, .stop, received _ => granted
  | true, .check, received true => granted
  | true, .receive .intent, asked ready => received ready
  | true, .receive .finished, closing _ followerKnows => closing true followerKnows
  | false, .stop, running ready => asked ready
  | false, .receive .permission, granted => closing false false
  | false, .receive .finished, closing masterKnows _ => closing masterKnows true
  | _, _, phase => phase

/-- A call takes the agreement to its next phase. What it processes is the next message on the
way. -/
theorem next_call {call : Call} {master : Bool} {phase : Phase} {rest : List Msg}
    (h : phase.onTheWay (!master) = call.taken ++ rest) :
    (call.apply (phase.flags master)).1 = (phase.next master call).flags master ∧
    phase.flags (!master) = (phase.next master call).flags (!master) ∧
    phase.onTheWay master ++ sends (call.apply (phase.flags master)).2 =
      (phase.next master call).onTheWay master ∧
    rest = (phase.next master call).onTheWay (!master) := by
  cases call with
  | idle =>
      cases h
      cases phase <;> decide +revert
  | stop =>
      cases h
      cases phase <;> decide +revert
  | check =>
      cases h
      cases phase <;> decide +revert
  | sendEnd =>
      cases h
      cases phase <;> decide +revert
  | receive msg =>
      cases phase with
      | running ready => cases h
      | received ready => cases h
      | asked ready =>
          cases master <;> cases h
          decide +revert
      | granted =>
          cases master <;> cases h
          decide
      | closing masterKnows followerKnows =>
          cases master <;> cases masterKnows <;> cases followerKnows <;> cases h <;> decide

/-- A party hears that the other has finished only when it is permitted to exit. -/
theorem permitted_of_finished {master : Bool} {phase : Phase}
    (h : .finished ∈ (phase.onTheWay (!master)).head?) : (phase.flags master).permitted = true := by
  cases phase <;> decide +revert

/-- A party that knows that the other has finished is permitted to exit, and both are ready. -/
theorem ready_of_finished {master : Bool} {phase : Phase}
    (h : (phase.flags master).finished = true) :
    (phase.flags master).permitted = true ∧ (phase.flags master).ready = true ∧
      (phase.flags (!master)).ready = true := by
  cases phase <;> decide +revert

/-- END is sent together with the permission. -/
theorem endSent_eq_permitted (master : Bool) (phase : Phase) :
    (phase.flags master).endSent = (phase.flags master).permitted := by
  cases phase <;> decide +revert

/-- A party is permitted to exit exactly where the other hears, or has heard, that it finishes. -/
theorem permitted_iff (master : Bool) (phase : Phase) :
    (phase.flags master).permitted = true ↔
      .finished ∈ phase.onTheWay master ∨ (phase.flags (!master)).finished = true := by
  cases phase <;> decide +revert

theorem not_master_of_permission {master : Bool} {phase : Phase}
    (h : .permission ∈ (phase.onTheWay (!master)).head?) : master = false := by
  cases phase <;> decide +revert

theorem length_onTheWay_le (master : Bool) (phase : Phase) : (phase.onTheWay master).length ≤ 2 := by
  cases phase <;> decide +revert

/-- Nothing is on the way before the master has granted the request, or after both parties have heard
that the other one has finished. -/
theorem quiet_cases {phase : Phase} (h : ∀ master, phase.onTheWay master = []) :
    (∀ master, (phase.flags master).finished = true) ∨
      ∀ master, (phase.flags master).finished = false ∧ (phase.flags master).permitted = false := by
  have hmaster := h true
  have hfollower := h false
  cases phase with
  | running ready | received ready =>
      right
      intro master
      cases master <;> exact ⟨rfl, rfl⟩
  | asked ready => cases hfollower
  | granted => cases hmaster
  | closing masterKnows followerKnows =>
      left
      cases masterKnows <;> cases followerKnows <;> cases hmaster <;> cases hfollower
      intro master
      cases master <;> rfl

/-- How far the agreement has come. It has come to 3 once both parties are ready and the master knows. -/
def level : Phase → Nat
  | running _ => 0
  | asked _ => 1
  | received false => 2
  | received true => 3
  | granted => 4
  | closing _ _ => 5

/-- No call takes the agreement back. -/
theorem level_le_next (master : Bool) (call : Call) (phase : Phase) :
    phase.level ≤ (phase.next master call).level := by
  cases call with
  | receive msg => cases msg <;> cases phase <;> decide +revert
  | _ => cases phase <;> decide +revert

/-- The request is granted where a party is permitted to exit. -/
theorem level_of_permitted {master : Bool} {phase : Phase} (h : (phase.flags master).permitted = true) :
    4 ≤ phase.level := by
  cases phase <;> decide +revert

theorem permitted_of_level {phase : Phase} (h : 4 ≤ phase.level) :
    (phase.flags true).permitted = true := by
  cases phase <;> decide +revert

theorem eq_received_of_level {phase : Phase} (h : 3 ≤ phase.level) (hnot : ¬4 ≤ phase.level) :
    phase = .received true := by
  cases phase with
  | running | asked => simp [level] at h
  | received ready =>
      cases ready with
      | false => simp [level] at h
      | true => rfl
  | granted | closing => simp [level] at hnot

/-- Both parties are ready, and nothing is on the way: the master knows, or it has granted the request. -/
theorem level_of_ready {phase : Phase} (hready : ∀ master, (phase.flags master).ready = true)
    (hquiet : phase.onTheWay false = []) : 3 ≤ phase.level := by
  have hmaster := hready true
  have hfollower := hready false
  clear hready
  cases phase <;> decide +revert

theorem intentSent_of_finished {master : Bool} {phase : Phase}
    (h : (phase.flags master).finished = true) : (phase.flags master).intentSent = !master := by
  cases phase <;> decide +revert

end Phase

/-- A party that is ready stays ready. -/
theorem Call.ready_apply (call : Call) {p : Flags} (h : p.ready = true) :
    (call.apply p).1.ready = true := by
  cases call with
  | idle => exact h
  | stop => rfl
  | check =>
      rw [Call.apply, Flags.check, Flags.grant, Flags.sendEnd]
      split_ifs <;> exact h
  | sendEnd =>
      rw [Call.apply, Flags.sendEnd]
      split_ifs <;> exact h
  | receive msg =>
      rw [Call.apply, Flags.receive, Flags.process.eq_def]
      cases msg with
      | intent =>
          dsimp only
          split_ifs <;> exact h
      | permission =>
          dsimp only
          rw [Flags.sendEnd]
          split_ifs <;> exact h
      | finished => exact h

/-- Every `a` of the list stands after a `b`. -/
def After (a b : Act) (acts : List Act) : Prop :=
  ∀ pre post, acts = pre ++ a :: post → b ∈ pre

theorem After.append {a b : Act} {acts new : List Act} (h : After a b acts)
    (hnew : a ∉ new ∨ b ∈ acts) : After a b (acts ++ new) := by
  intro pre post heq
  rcases List.append_eq_append_iff.mp heq with ⟨mid, hpre, hmid⟩ | ⟨mid, hacts, hmid⟩
  · rcases hnew with hnot | hmem
    · exact absurd (by rw [hmid]; simp) hnot
    · rw [hpre]
      exact List.mem_append_left mid hmem
  · cases mid with
    | nil =>
        rcases hnew with hnot | hmem
        · rw [List.nil_append] at hmid
          exact absurd (by rw [← hmid]; simp) hnot
        · simpa [hacts] using hmem
    | cons x mid =>
        cases hmid
        exact h pre mid hacts

/-- What the flags of a party say about its acts so far. -/
structure Told (p : Flags) (acts : List Act) : Prop where
  ready : p.ready = true → .stop ∈ acts
  finished : acts.count (.sent .finished) = p.endSent.toNat
  permission : acts.count (.sent .permission) = (p.master && p.permitted).toNat
  intent : 1 ≤ p.intents → .got .intent ∈ acts
  granted : After (.sent .permission) (.got .intent) acts

theorem told_start (master : Bool) : Told ((Phase.running false).flags master) [] where
  ready := by simp [Phase.flags]
  finished := rfl
  permission := by simp [Phase.flags]
  intent := by simp [Phase.flags]
  granted := by simp [After]

/-- A party does something that sends neither the permission nor the last message. -/
theorem Told.add {p : Flags} {acts : List Act} (h : Told p acts) (act : Act)
    (hfinished : act ≠ .sent .finished) (hpermission : act ≠ .sent .permission) :
    Told p (acts ++ [act]) where
  ready hready := List.mem_append_left _ (h.ready hready)
  finished := by
    rw [List.count_append, h.finished, List.count_singleton, beq_eq_false_iff_ne.mpr hfinished]
    rfl
  permission := by
    rw [List.count_append, h.permission, List.count_singleton,
      beq_eq_false_iff_ne.mpr hpermission]
    rfl
  intent hintent := List.mem_append_left _ (h.intent hintent)
  granted := h.granted.append (Or.inl (by simpa using hpermission.symm))

theorem Told.sendEnd {p : Flags} {acts : List Act} (h : Told p acts) :
    Told p.sendEnd.1 (acts ++ p.sendEnd.2) := by
  rw [Flags.sendEnd]
  split_ifs with hsend
  · have hnone : p.endSent = false := by simpa using (Bool.and_eq_true_iff.mp hsend).2
    exact
      { ready := fun hready => List.mem_append_left _ (h.ready hready)
        finished := by rw [List.count_append, h.finished, hnone]; rfl
        permission := by rw [List.count_append, h.permission]; rfl
        intent := fun hintent => List.mem_append_left _ (h.intent hintent)
        granted := h.granted.append (Or.inl (by simp)) }
  · simpa using h

theorem Told.grant {p : Flags} {acts : List Act} (h : Told p acts) (hmaster : p.master = true)
    (hintents : 1 ≤ p.intents) (hpermitted : p.permitted = false) :
    Told p.grant.1 (acts ++ p.grant.2) := by
  have hgrant : Told { p with permitted := true } (acts ++ [.sent .permission]) :=
    { ready := fun hready => List.mem_append_left _ (h.ready hready)
      finished := by rw [List.count_append, h.finished]; rfl
      permission := by rw [List.count_append, h.permission, hmaster, hpermitted]; rfl
      intent := fun hintent => List.mem_append_left _ (h.intent hintent)
      granted := h.granted.append (Or.inr (h.intent hintents)) }
  have hend := hgrant.sendEnd
  rwa [List.append_assoc] at hend

theorem Told.ask {p : Flags} {acts : List Act} (h : Told p acts) :
    Told p.ask.1 (acts ++ p.ask.2) := by
  rw [Flags.ask]
  split_ifs with hmaster hgrant hsent
  · exact h.grant hmaster hgrant.1 hgrant.2
  · simpa using h
  · simpa using h
  · have hadd := h.add (.sent .intent) (by decide) (by decide)
    exact ⟨hadd.ready, hadd.finished, hadd.permission, hadd.intent, hadd.granted⟩

theorem Told.stop {p : Flags} {acts : List Act} (h : Told p acts) :
    Told p.stop.1 (acts ++ p.stop.2) := by
  have hask := (h.add .stop (by decide) (by decide)).ask
  rw [List.append_assoc] at hask
  refine ⟨fun _ => ?_, hask.finished, hask.permission, hask.intent, hask.granted⟩
  simp [Flags.stop]

theorem Told.check {p : Flags} {acts : List Act} (h : Told p acts) :
    Told p.check.1 (acts ++ p.check.2) := by
  rw [Flags.check]
  split_ifs with hgrant
  · exact h.grant hgrant.1 hgrant.2.1 hgrant.2.2.2
  · simpa using h

theorem Told.receive {p : Flags} {acts : List Act} (h : Told p acts) {msg : Msg}
    (hpermission : msg = .permission → p.master = false) :
    Told (p.receive msg).1 (acts ++ (p.receive msg).2) := by
  have hadd := h.add (.got msg) (by simp) (by simp)
  rw [Flags.receive, ← List.singleton_append, ← List.append_assoc]
  cases msg with
  | intent =>
      simp only [Flags.process, List.append_nil]
      split_ifs
      · refine ⟨hadd.ready, hadd.finished, hadd.permission, fun _ => ?_, hadd.granted⟩
        simp
      · exact hadd
  | permission =>
      have hpermitted : Told { p with permitted := true } (acts ++ [.got .permission]) := by
        refine ⟨hadd.ready, hadd.finished, ?_, hadd.intent, hadd.granted⟩
        rw [hadd.permission, hpermission rfl]
        rfl
      exact hpermitted.sendEnd
  | finished =>
      simp only [Flags.process, List.append_nil]
      exact ⟨hadd.ready, hadd.finished, hadd.permission, hadd.intent, hadd.granted⟩

theorem Told.call {p : Flags} {acts : List Act} (h : Told p acts) {call : Call}
    (hpermission : call = .receive .permission → p.master = false) :
    Told (call.apply p).1 (acts ++ (call.apply p).2) := by
  cases call with
  | idle => simpa [Call.apply] using h
  | stop => exact h.stop
  | check => exact h.check
  | sendEnd => exact h.sendEnd
  | receive msg => exact h.receive fun hmsg => hpermission (by rw [hmsg])

end ExitProtocol
