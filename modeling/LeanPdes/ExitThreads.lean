import LeanPdes.ExitProtocol
import LeanPdes.TwoSenders

/-! The master's exit flags under two threads. `can_stop` runs on the Flexus thread, the master's check,
the messages and the end of the emulation on the main thread; a call is cut at each atomic access of
a flag and at each message it sends. The master tests `permitted_to_exit` and sets it in two
accesses, and sets it before it sends the permission. -/

namespace LeanPdes

open Words Reach ExitProtocol

/-- Where a thread stands between two accesses that belong together. -/
inductive Role
  | none
  /-- It has found the permission clear and will set it. -/
  | granting
  /-- It has set the permission and will send it. -/
  | announcing
  /-- It has found the permission set and will claim the announcement of the end. -/
  | gated
  /-- It has claimed the announcement of the end and will send it. -/
  | ending
  deriving DecidableEq, Repr

structure Grants where
  role : Thread → Role
  permitted : Bool
  endSent : Bool
  wire : List Msg

/-- The accesses of a thread, where no test runs between another thread's test and its write, and no
end is sent between another thread's write and its permission. -/
inductive Grants.Step : Grants → Grants → Prop
  | leave (g : Grants) (t : Thread) (h : g.role t = .none ∨ g.role t = .gated) :
      Step g { g with role := Function.update g.role t .none }
  | test (g : Grants) (t : Thread) (h : g.role t = .none) (hclear : g.permitted = false)
      (happart : g.role t.other ≠ .granting) :
      Step g { g with role := Function.update g.role t .granting }
  | set (g : Grants) (t : Thread) (h : g.role t = .granting) :
      Step g { g with role := Function.update g.role t .announcing, permitted := true }
  | announce (g : Grants) (t : Thread) (h : g.role t = .announcing) :
      Step g { g with role := Function.update g.role t .none, wire := g.wire ++ [.permission] }
  | gate (g : Grants) (t : Thread) (h : g.role t = .none) (hset : g.permitted = true) :
      Step g { g with role := Function.update g.role t .gated }
  | claim (g : Grants) (t : Thread) (h : g.role t = .gated) (hclear : g.endSent = false) :
      Step g { g with role := Function.update g.role t .ending, endSent := true }
  | finish (g : Grants) (t : Thread) (h : g.role t = .ending)
      (happart : g.role t.other ≠ .announcing) :
      Step g { g with role := Function.update g.role t .none, wire := g.wire ++ [.finished] }

/-- What the roles of a thread and of the other one say about the shared variables. -/
@[grind cases]
structure Grants.Fits (role other : Role) (permitted endSent : Bool) (wire : List Msg) : Prop where
  clear : permitted = false → wire = [] ∧ endSent = false ∧ (role = .none ∨ role = .granting)
  granting : role = .granting → permitted = false ∧ other ≠ .granting
  announcing : role = .announcing → wire = [] ∧ other ≠ .announcing
  announced : permitted = true → wire = [] → role = .announcing ∨ other = .announcing
  ending : role = .ending → endSent = true ∧ other ≠ .ending ∧ (wire = [] ∨ wire = [.permission])
  wire : wire = [] ∨ wire = [.permission] ∨ (wire = [.permission, .finished] ∧ endSent = true)

/-- One thread sets the permission and sends it next, and one thread claims the end. -/
def Grants.Ordered (g : Grants) : Prop :=
  ∀ t, Fits (g.role t) (g.role t.other) g.permitted g.endSent g.wire

theorem Grants.Ordered.of_thread {g : Grants} (t : Thread)
    (hself : Fits (g.role t) (g.role t.other) g.permitted g.endSent g.wire)
    (hother : Fits (g.role t.other) (g.role t) g.permitted g.endSent g.wire) : g.Ordered := by
  intro u
  rcases Thread.eq_or_eq_other t u with rfl | rfl
  · exact hself
  · rwa [Thread.other_other]

/-- The thread that makes an access moves from one role to another. -/
theorem Grants.Ordered.move {g : Grants} (h : g.Ordered) (t : Thread) (role : Role)
    (permitted endSent : Bool) (wire : List Msg)
    (hself : Fits (g.role t) (g.role t.other) g.permitted g.endSent g.wire →
      Fits (g.role t.other) (g.role t) g.permitted g.endSent g.wire →
      Fits role (g.role t.other) permitted endSent wire ∧
        Fits (g.role t.other) role permitted endSent wire) :
    Ordered ⟨Function.update g.role t role, permitted, endSent, wire⟩ := by
  have hrole : Function.update g.role t role t = role := Function.update_self ..
  have hstay : Function.update g.role t role t.other = g.role t.other :=
    Function.update_of_ne t.other_ne ..
  have hother := h t.other
  rw [Thread.other_other] at hother
  obtain ⟨hfits, hfits'⟩ := hself (h t) hother
  exact .of_thread t (by simpa only [hrole, hstay]) (by simpa only [hrole, hstay])

theorem Grants.Ordered.step {g g' : Grants} (h : g.Ordered) (hstep : Grants.Step g g') :
    g'.Ordered := by
  cases hstep with
  | leave t ht =>
      refine h.move t _ _ _ _ fun hself hother => ⟨?_, ?_⟩
      · constructor <;> grind
      · constructor <;> grind
  | test t ht hclear happart =>
      refine h.move t _ _ _ _ fun hself hother => ⟨?_, ?_⟩
      · constructor <;> grind
      · constructor <;> grind
  | set t ht =>
      refine h.move t _ _ _ _ fun hself hother => ⟨?_, ?_⟩
      · constructor <;> grind
      · constructor <;> grind
  | announce t ht =>
      have hempty : g.wire = [] := ((h t).announcing ht).1
      rw [hempty]
      refine h.move t _ _ _ _ fun hself hother => ⟨?_, ?_⟩
      · constructor <;> grind
      · constructor <;> grind
  | gate t ht hset =>
      refine h.move t _ _ _ _ fun hself hother => ⟨?_, ?_⟩
      · constructor <;> grind
      · constructor <;> grind
  | claim t ht hclear =>
      refine h.move t _ _ _ _ fun hself hother => ⟨?_, ?_⟩
      · constructor <;> grind
      · constructor <;> grind
  | finish t ht happart =>
      -- the permission has been set, and nobody has still to send it
      have hpermission : g.wire = [.permission] := by
        have hself := h t
        grind
      have hset : g.permitted = true := by
        by_contra hclear
        have hempty := ((h t).clear (by simpa using hclear)).1
        rw [hpermission] at hempty
        cases hempty
      obtain ⟨hsent, hnotEnding, _⟩ := (h t).ending ht
      rw [hpermission, List.singleton_append]
      refine h.move t _ _ _ _ fun hself hother => ⟨?_, ?_⟩
      · refine ⟨?_, ?_, ?_, ?_, ?_, Or.inr (Or.inr ⟨rfl, hsent⟩)⟩
        · simp [hset]
        · simp
        · simp
        · simp
        · simp
      · refine ⟨?_, fun hgranting => ?_, fun hannouncing => ?_, ?_, fun hending => ?_,
          Or.inr (Or.inr ⟨rfl, hsent⟩)⟩
        · simp [hset]
        · rw [(hother.granting hgranting).1] at hset
          cases hset
        · exact absurd hannouncing happart
        · simp
        · exact absurd hending hnotEnding

/-! ### The accesses of the master's calls -/

/-- The functions that hold a test of the flags, or call `_send_end_if_handshake_complete`. -/
inductive ExitSite
  | canStop
  | wwtSyncCheck
  | processMessage
  | notifyNeighboursOfEnd
  deriving DecidableEq, Repr

/-- The next access of a call. -/
inductive ExitPc
  | idle
  | readIntents (site : ExitSite)
  | readReady
  | readPermitted (site : ExitSite)
  | setPermitted (site : ExitSite)
  | sendPermission (site : ExitSite)
  /-- the first test of `_send_end_if_handshake_complete` -/
  | readEndPermitted (site : ExitSite)
  | xchgEndSent (site : ExitSite)
  | sendEnd (site : ExitSite)
  | setReady
  | readResultPermitted
  | readResultFinished
  | incIntents
  | setPermittedByPeer
  /-- the assert of `process_message` -/
  | assertPermitted
  | setFinished
  | xchgNotified
  deriving DecidableEq, Repr

/-- The flags of the master, its two threads and what it has put on its ring. -/
structure ExitMaster where
  intents : Int
  permitted : Bool
  ready : Bool
  endSent : Bool
  finished : Bool
  notified : Bool
  pc : Thread → ExitPc
  wire : List Msg

/-- A call of the main thread: the master's arm of `wwt_sync_check`, `process_message`, or
`notify_neighbours_of_end`, which `pdes_engine_destroy` calls. -/
inductive MainCall
  | wwtSyncCheck
  | processMessage (msg : Msg)
  | notifyNeighboursOfEnd
  deriving DecidableEq, Repr

inductive ExitAccess
  /-- The Flexus thread calls `can_stop`. -/
  | canStop
  /-- The main thread calls. -/
  | call (call : MainCall)
  /-- A thread makes the next access of its call. -/
  | step (t : Thread)
  deriving DecidableEq, Repr

/-- The first access of a call. -/
def MainCall.entry : MainCall → ExitPc
  | .wwtSyncCheck => .readIntents .wwtSyncCheck
  | .processMessage .intent => .incIntents
  | .processMessage .permission => .setPermittedByPeer
  | .processMessage .finished => .assertPermitted
  | .notifyNeighboursOfEnd => .xchgNotified

/-- Where a call goes on after its test or after `_send_end_if_handshake_complete`. -/
def ExitSite.after : ExitSite → ExitPc
  | .canStop => .setReady
  | _ => .idle

def ExitMaster.goto (m : ExitMaster) (t : Thread) (pc : ExitPc) : ExitMaster :=
  { m with pc := Function.update m.pc t pc }

/-- One access of a thread. -/
def exitAccess (m : ExitMaster) (t : Thread) : Except Halt ExitMaster :=
  match m.pc t with
  | .idle => .error .disabled
  | .readIntents site =>
      if 1 ≤ m.intents then
        match site with
        | .wwtSyncCheck => .ok (m.goto t .readReady)
        | site => .ok (m.goto t (.readPermitted site))
      else .ok (m.goto t site.after)
  | .readReady =>
      if m.ready then .ok (m.goto t (.readPermitted .wwtSyncCheck)) else .ok (m.goto t .idle)
  | .readPermitted site =>
      if m.permitted then .ok (m.goto t site.after) else .ok (m.goto t (.setPermitted site))
  | .setPermitted site => .ok ({ m with permitted := true }.goto t (.sendPermission site))
  | .sendPermission site =>
      .ok ({ m with wire := m.wire ++ [Msg.permission] }.goto t (.readEndPermitted site))
  | .readEndPermitted site =>
      if m.permitted then .ok (m.goto t (.xchgEndSent site)) else .ok (m.goto t site.after)
  | .xchgEndSent site =>
      if m.endSent then .ok (m.goto t site.after)
      else .ok ({ m with endSent := true }.goto t (.sendEnd site))
  | .sendEnd site => .ok ({ m with wire := m.wire ++ [Msg.finished] }.goto t site.after)
  | .setReady => .ok ({ m with ready := true }.goto t .readResultPermitted)
  | .readResultPermitted =>
      if m.permitted then .ok (m.goto t .readResultFinished) else .ok (m.goto t .idle)
  | .readResultFinished => .ok (m.goto t .idle)
  | .incIntents => .ok ({ m with intents := int32 (m.intents + 1) }.goto t .idle)
  | .setPermittedByPeer =>
      .ok ({ m with permitted := true }.goto t (.readEndPermitted .processMessage))
  | .assertPermitted =>
      if m.permitted then .ok (m.goto t .setFinished) else .error (.fault .endBeforePermission)
  | .setFinished => .ok ({ m with finished := true }.goto t .idle)
  | .xchgNotified =>
      if m.notified then .ok (m.goto t .idle)
      else .ok ({ m with notified := true }.goto t (.readEndPermitted .notifyNeighboursOfEnd))

def exitMasterStep (m : ExitMaster) : ExitAccess → Except Halt ExitMaster
  | .canStop =>
      if m.pc .flexus = .idle then .ok (m.goto .flexus (.readIntents .canStop))
      else .error .disabled
  | .call call => if m.pc .main = .idle then .ok (m.goto .main call.entry) else .error .disabled
  | .step t => exitAccess m t

/-- The master after `pdes_engine_create`. -/
def exitMaster : ExitMaster where
  intents := 0
  permitted := false
  ready := false
  endSent := false
  finished := false
  notified := false
  pc _ := .idle
  wire := []

/-- A follower sends no permission. -/
def FromFollower (a : ExitAccess) : Prop := a ≠ .call (.processMessage .permission)

instance (a : ExitAccess) : Decidable (FromFollower a) := inferInstanceAs (Decidable (a ≠ _))

def ExitPc.role : ExitPc → Role
  | .setPermitted _ => .granting
  | .sendPermission _ => .announcing
  | .xchgEndSent _ => .gated
  | .sendEnd _ => .ending
  | _ => .none

/-- No thread finds the permission clear between the other's test and its write, and none sends the
end between the other's write and its permission. -/
def Apart (m : ExitMaster) : ExitAccess → Prop
  | .step t =>
      match m.pc t with
      | .readPermitted _ => m.permitted = false → (m.pc t.other).role ≠ .granting
      | .sendEnd _ => (m.pc t.other).role ≠ .announcing
      | _ => True
  | _ => True

instance (m : ExitMaster) (a : ExitAccess) : Decidable (Apart m a) := by
  cases a with
  | step t => unfold Apart; dsimp only; split <;> infer_instance
  | _ => exact instDecidableTrue

/-- What the two threads reach. -/
abbrev ExitReaches (guard : ExitMaster → ExitAccess → Prop) : ExitMaster → Prop :=
  Reachable exitMasterStep (fun m a _ => FromFollower a ∧ guard m a) fun m => m = exitMaster

/-- The permission and the end are sent at most once, the permission first. -/
structure Orderly (wire : List Msg) : Prop where
  permission : wire.count .permission ≤ 1
  finished : wire.count .finished ≤ 1
  order : ∀ pre post, wire = pre ++ .finished :: post → Msg.permission ∈ pre

def ExitMaster.flags (m : ExitMaster) : Flags :=
  ⟨true, m.intents, m.permitted, m.ready, m.endSent, m.finished, false⟩

/-- The master after a call without an interruption, as the protocol has it. -/
def ExitMaster.called (m : ExitMaster) (r : Flags × List Act) : ExitMaster :=
  { m with
    intents := r.1.intents
    permitted := r.1.permitted
    ready := r.1.ready
    endSent := r.1.endSent
    finished := r.1.finished
    wire := m.wire ++ sends r.2 }

/-- The thread makes some accesses, and the other one none. -/
abbrev Alone (t : Thread) : ExitMaster → ExitMaster → Prop :=
  Relation.ReflTransGen fun m m' => exitAccess m t = .ok m'

theorem sendEnd_alone (m : ExitMaster) (t : Thread) (site : ExitSite) :
    Alone t (m.goto t (.readEndPermitted site)) ((m.called m.flags.sendEnd).goto t site.after) := by
  cases hpermitted : m.permitted with
  | false =>
      refine .single ?_
      simp [exitAccess, ExitMaster.called, Flags.sendEnd, ExitMaster.flags, ExitMaster.goto, hpermitted]
  | true =>
      have hread : exitAccess (m.goto t (.readEndPermitted site)) t =
          .ok (m.goto t (.xchgEndSent site)) := by
        simp [exitAccess, ExitMaster.goto, hpermitted]
      refine .head hread ?_
      cases hsent : m.endSent with
      | true =>
          refine .single ?_
          simp [exitAccess, ExitMaster.called, Flags.sendEnd, ExitMaster.flags, ExitMaster.goto,
            hpermitted, hsent]
      | false =>
          have hxchg : exitAccess (m.goto t (.xchgEndSent site)) t =
              .ok ({ m with endSent := true }.goto t (.sendEnd site)) := by
            simp [exitAccess, ExitMaster.goto, hsent]
          refine .head hxchg (.single ?_)
          simp [exitAccess, ExitMaster.called, Flags.sendEnd, ExitMaster.flags, ExitMaster.goto,
            hpermitted, hsent, sends]

theorem grant_alone (m : ExitMaster) (t : Thread) (site : ExitSite) :
    Alone t (m.goto t (.setPermitted site)) ((m.called m.flags.grant).goto t site.after) := by
  have hset : exitAccess (m.goto t (.setPermitted site)) t =
      .ok ({ m with permitted := true }.goto t (.sendPermission site)) := by
    simp [exitAccess, ExitMaster.goto]
  have hsend : exitAccess ({ m with permitted := true }.goto t (.sendPermission site)) t =
      .ok ({ m with permitted := true, wire := m.wire ++ [Msg.permission] }.goto t
        (.readEndPermitted site)) := by
    simp [exitAccess, ExitMaster.goto]
  refine .head hset (.head hsend ?_)
  have hend := sendEnd_alone { m with permitted := true, wire := m.wire ++ [Msg.permission] } t site
  simpa only [ExitMaster.called, Flags.grant, ExitMaster.flags, sends, List.filterMap_cons,
    List.append_assoc, List.singleton_append] using hend

theorem canStop_alone (m : ExitMaster) :
    Alone .flexus (m.goto .flexus (.readIntents .canStop))
      ((m.called m.flags.stop).goto .flexus .idle) := by
  -- the end of the call, after the master's arm
  have hend (m : ExitMaster) : Alone .flexus (m.goto .flexus .setReady)
      ({ m with ready := true }.goto .flexus .idle) := by
    have hset : exitAccess (m.goto .flexus .setReady) .flexus =
        .ok ({ m with ready := true }.goto .flexus .readResultPermitted) := by
      simp [exitAccess, ExitMaster.goto]
    refine .head hset ?_
    by_cases hpermitted : m.permitted = true
    · have hread : exitAccess ({ m with ready := true }.goto .flexus .readResultPermitted) .flexus =
          .ok ({ m with ready := true }.goto .flexus .readResultFinished) := by
        simp [exitAccess, ExitMaster.goto, hpermitted]
      exact .head hread (.single (by simp [exitAccess, ExitMaster.goto]))
    · exact .single (by simp [exitAccess, ExitMaster.goto, hpermitted])
  by_cases hintents : 1 ≤ m.intents
  · have hread : exitAccess (m.goto .flexus (.readIntents .canStop)) .flexus =
        .ok (m.goto .flexus (.readPermitted .canStop)) := by
      simp [exitAccess, ExitMaster.goto, hintents]
    refine .head hread ?_
    by_cases hpermitted : m.permitted = true
    · have htest : exitAccess (m.goto .flexus (.readPermitted .canStop)) .flexus =
          .ok (m.goto .flexus .setReady) := by
        simp [exitAccess, ExitMaster.goto, hpermitted, ExitSite.after]
      have hstop : m.flags.stop = ({ m.flags with ready := true }, [.stop]) := by
        simp [Flags.stop, Flags.ask, ExitMaster.flags, hpermitted]
      rw [hstop]
      refine .head htest ?_
      simpa [ExitMaster.called, ExitMaster.flags, sends] using hend m
    · have htest : exitAccess (m.goto .flexus (.readPermitted .canStop)) .flexus =
          .ok (m.goto .flexus (.setPermitted .canStop)) := by
        simp [exitAccess, ExitMaster.goto, hpermitted]
      have hstop : m.flags.stop =
          ({ m.flags.grant.1 with ready := true }, .stop :: m.flags.grant.2) := by
        simp [Flags.stop, Flags.ask, ExitMaster.flags, hintents, hpermitted]
      rw [hstop]
      refine .head htest ((grant_alone m .flexus .canStop).trans ?_)
      exact hend (m.called m.flags.grant)
  · have hread : exitAccess (m.goto .flexus (.readIntents .canStop)) .flexus =
        .ok (m.goto .flexus .setReady) := by
      simp [exitAccess, ExitMaster.goto, hintents, ExitSite.after]
    refine .head hread ?_
    have hstop : m.flags.stop = ({ m.flags with ready := true }, [.stop]) := by
      simp [Flags.stop, Flags.ask, ExitMaster.flags, hintents]
    rw [hstop]
    simpa [ExitMaster.called, ExitMaster.flags, sends] using hend m

theorem wwtSyncCheck_alone (m : ExitMaster) :
    Alone .main (m.goto .main MainCall.wwtSyncCheck.entry)
      ((m.called m.flags.check).goto .main .idle) := by
  have hnone (hgrant : ¬(1 ≤ m.intents ∧ m.ready = true ∧ m.permitted = false)) :
      m.called m.flags.check = m := by
    have hcheck : m.flags.check = (m.flags, []) := by
      rw [Flags.check, if_neg]
      simpa [ExitMaster.flags] using hgrant
    rw [hcheck]
    simp [ExitMaster.called, ExitMaster.flags]
  by_cases hintents : 1 ≤ m.intents
  · have hread : exitAccess (m.goto .main (.readIntents .wwtSyncCheck)) .main =
        .ok (m.goto .main .readReady) := by
      simp [exitAccess, ExitMaster.goto, hintents]
    refine .head hread ?_
    by_cases hready : m.ready = true
    · have hreadReady : exitAccess (m.goto .main .readReady) .main =
          .ok (m.goto .main (.readPermitted .wwtSyncCheck)) := by
        simp [exitAccess, ExitMaster.goto, hready]
      refine .head hreadReady ?_
      by_cases hpermitted : m.permitted = true
      · rw [hnone (by simp [hpermitted])]
        exact .single (by simp [exitAccess, ExitMaster.goto, hpermitted, ExitSite.after])
      · have htest : exitAccess (m.goto .main (.readPermitted .wwtSyncCheck)) .main =
            .ok (m.goto .main (.setPermitted .wwtSyncCheck)) := by
          simp [exitAccess, ExitMaster.goto, hpermitted]
        have hcheck : m.flags.check = m.flags.grant := by
          simp [Flags.check, ExitMaster.flags, hintents, hready, hpermitted]
        rw [hcheck]
        exact .head htest (grant_alone m .main .wwtSyncCheck)
    · rw [hnone (by simp [hready])]
      exact .single (by simp [exitAccess, ExitMaster.goto, hready])
  · rw [hnone (by simp [hintents])]
    exact .single (by simp [exitAccess, ExitMaster.goto, hintents, ExitSite.after, MainCall.entry])

theorem processMessage_alone (m : ExitMaster) (msg : Msg)
    (hpermitted : msg = .finished → m.permitted = true) :
    Alone .main (m.goto .main (MainCall.processMessage msg).entry)
      ((m.called (m.flags.receive msg)).goto .main .idle) := by
  cases msg with
  | intent =>
      refine .single ?_
      simp [exitAccess, MainCall.entry, ExitMaster.called, ExitMaster.goto, ExitMaster.flags,
        Flags.receive, Flags.process, sends]
  | permission =>
      have hset : exitAccess (m.goto .main (MainCall.processMessage .permission).entry) .main =
          .ok ({ m with permitted := true }.goto .main (.readEndPermitted .processMessage)) := by
        simp [exitAccess, MainCall.entry, ExitMaster.goto]
      refine .head hset ?_
      exact sendEnd_alone { m with permitted := true } .main .processMessage
  | finished =>
      have hassert : exitAccess (m.goto .main (MainCall.processMessage .finished).entry) .main =
          .ok (m.goto .main .setFinished) := by
        simp [exitAccess, MainCall.entry, ExitMaster.goto, hpermitted rfl]
      refine .head hassert (.single ?_)
      simp [exitAccess, ExitMaster.called, ExitMaster.goto, ExitMaster.flags, Flags.receive,
        Flags.process, sends]

theorem notifyNeighboursOfEnd_alone (m : ExitMaster) (hnotified : m.notified = false) :
    Alone .main (m.goto .main MainCall.notifyNeighboursOfEnd.entry)
      (({ m with notified := true }.called m.flags.sendEnd).goto .main .idle) := by
  have hxchg : exitAccess (m.goto .main MainCall.notifyNeighboursOfEnd.entry) .main =
      .ok ({ m with notified := true }.goto .main (.readEndPermitted .notifyNeighboursOfEnd)) := by
    simp [exitAccess, MainCall.entry, ExitMaster.goto, hnotified]
  exact .head hxchg (sendEnd_alone { m with notified := true } .main .notifyNeighboursOfEnd)

def ExitMaster.grants (m : ExitMaster) : Grants where
  role t := (m.pc t).role
  permitted := m.permitted
  endSent := m.endSent
  wire := m.wire

theorem ExitMaster.grants_goto (m : ExitMaster) (t : Thread) (pc : ExitPc) :
    (m.goto t pc).grants = { m.grants with role := Function.update m.grants.role t pc.role } := by
  have hrole : (m.goto t pc).grants.role = Function.update m.grants.role t pc.role :=
    (Function.comp_update ExitPc.role m.pc t pc)
  simp only [grants] at hrole ⊢
  rw [hrole]
  rfl

@[simp] theorem ExitSite.role_after (site : ExitSite) : site.after.role = .none := by
  cases site <;> rfl

theorem ExitMaster.grants_stay {m : ExitMaster} {t : Thread} {pc : ExitPc}
    (h : pc.role = (m.pc t).role) : (m.goto t pc).grants = m.grants := by
  rw [grants_goto, h]
  have hself : Function.update m.grants.role t (m.pc t).role = m.grants.role :=
    Function.update_eq_self t m.grants.role
  rw [hself]

/-- An access that keeps the threads apart is an access of the abstract threads, or changes nothing
that concerns them. -/
theorem grants_of_access {m m' : ExitMaster} {t : Thread} (hpeer : m.pc t ≠ .setPermittedByPeer)
    (hapart : Apart m (.step t)) (h : exitAccess m t = .ok m') :
    Relation.ReflGen Grants.Step m.grants m'.grants := by
  have hrole : m.grants.role t = (m.pc t).role := rfl
  have stay {m₁ m₂ : ExitMaster} (heq : m₂.grants = m₁.grants) :
      Relation.ReflGen Grants.Step m₁.grants m₂.grants := heq ▸ .refl
  have leave {pc : ExitPc} (hgated : (m.pc t).role = .none ∨ (m.pc t).role = .gated)
      (hpc : pc.role = .none) : Relation.ReflGen Grants.Step m.grants (m.goto t pc).grants := by
    rw [ExitMaster.grants_goto, hpc]
    exact .single (.leave m.grants t hgated)
  unfold Apart at hapart
  cases hpc : m.pc t with
  | idle =>
      simp only [exitAccess, hpc] at h
      cases h
  | readIntents site =>
      have hnone : (m.pc t).role = .none := by rw [hpc]; rfl
      simp only [exitAccess, hpc] at h
      split_ifs at h
      · cases site <;> cases h <;> exact leave (Or.inl hnone) rfl
      · cases h
        exact leave (Or.inl hnone) site.role_after
  | readReady =>
      have hnone : (m.pc t).role = .none := by rw [hpc]; rfl
      simp only [exitAccess, hpc] at h
      split_ifs at h <;> cases h <;> exact leave (Or.inl hnone) rfl
  | readPermitted site =>
      have hnone : (m.pc t).role = .none := by rw [hpc]; rfl
      simp only [exitAccess, hpc] at h hapart
      split_ifs at h with hset
      · cases h
        exact leave (Or.inl hnone) site.role_after
      · cases h
        have hclear : m.permitted = false := by simpa using hset
        rw [ExitMaster.grants_goto]
        exact .single (.test m.grants t hnone hclear (hapart hclear))
  | setPermitted site =>
      have hgranting : (m.pc t).role = .granting := by rw [hpc]; rfl
      simp only [exitAccess, hpc] at h
      cases h
      rw [ExitMaster.grants_goto]
      exact .single (.set m.grants t hgranting)
  | sendPermission site =>
      have hannouncing : (m.pc t).role = .announcing := by rw [hpc]; rfl
      simp only [exitAccess, hpc] at h
      cases h
      rw [ExitMaster.grants_goto]
      exact .single (.announce m.grants t hannouncing)
  | readEndPermitted site =>
      have hnone : (m.pc t).role = .none := by rw [hpc]; rfl
      simp only [exitAccess, hpc] at h
      split_ifs at h with hset
      · cases h
        rw [ExitMaster.grants_goto]
        exact .single (.gate m.grants t hnone hset)
      · cases h
        exact leave (Or.inl hnone) site.role_after
  | xchgEndSent site =>
      have hgated : (m.pc t).role = .gated := by rw [hpc]; rfl
      simp only [exitAccess, hpc] at h
      split_ifs at h with hsent
      · cases h
        exact leave (Or.inr hgated) site.role_after
      · cases h
        have hclear : m.endSent = false := by simpa using hsent
        rw [ExitMaster.grants_goto]
        exact .single (.claim m.grants t hgated hclear)
  | sendEnd site =>
      have hending : (m.pc t).role = .ending := by rw [hpc]; rfl
      simp only [exitAccess, hpc] at h hapart
      cases h
      rw [ExitMaster.grants_goto, ExitSite.role_after]
      exact .single (.finish m.grants t hending hapart)
  | setReady =>
      simp only [exitAccess, hpc] at h
      cases h
      exact stay (ExitMaster.grants_stay (m := { m with ready := true }) (by rw [hpc]; rfl))
  | readResultPermitted =>
      have hnone : (m.pc t).role = .none := by rw [hpc]; rfl
      simp only [exitAccess, hpc] at h
      split_ifs at h <;> cases h <;> exact leave (Or.inl hnone) rfl
  | readResultFinished =>
      have hnone : (m.pc t).role = .none := by rw [hpc]; rfl
      simp only [exitAccess, hpc] at h
      cases h
      exact leave (Or.inl hnone) rfl
  | incIntents =>
      simp only [exitAccess, hpc] at h
      cases h
      exact stay (ExitMaster.grants_stay (m := { m with intents := int32 (m.intents + 1) })
        (by rw [hpc]; rfl))
  | setPermittedByPeer => exact absurd hpc hpeer
  | assertPermitted =>
      have hnone : (m.pc t).role = .none := by rw [hpc]; rfl
      simp only [exitAccess, hpc] at h
      split_ifs at h
      cases h
      exact leave (Or.inl hnone) rfl
  | setFinished =>
      simp only [exitAccess, hpc] at h
      cases h
      exact stay (ExitMaster.grants_stay (m := { m with finished := true }) (by rw [hpc]; rfl))
  | xchgNotified =>
      have hnone : (m.pc t).role = .none := by rw [hpc]; rfl
      simp only [exitAccess, hpc] at h
      split_ifs at h
      · cases h
        exact leave (Or.inl hnone) rfl
      · cases h
        exact stay (ExitMaster.grants_stay (m := { m with notified := true }) (by rw [hpc]; rfl))

/-- No thread is where only a permission from the peer leads. -/
def ExitMaster.NoPeer (m : ExitMaster) : Prop := ∀ t, m.pc t ≠ .setPermittedByPeer

theorem ExitMaster.NoPeer.goto {m : ExitMaster} (h : m.NoPeer) (t : Thread) {pc : ExitPc}
    (hpc : pc ≠ .setPermittedByPeer) : (m.goto t pc).NoPeer := by
  intro u
  change Function.update m.pc t pc u ≠ _
  by_cases hu : u = t
  · rw [hu, Function.update_self]
    exact hpc
  · rw [Function.update_of_ne hu]
    exact h u

theorem ExitSite.after_ne (site : ExitSite) : site.after ≠ .setPermittedByPeer := by
  cases site <;> decide

theorem ExitMaster.NoPeer.access {m m' : ExitMaster} {t : Thread} (hm : m.NoPeer)
    (h : exitAccess m t = .ok m') : m'.NoPeer := by
  cases hpc : m.pc t with
  | setPermittedByPeer => exact absurd hpc (hm t)
  | readIntents site =>
      simp only [exitAccess, hpc] at h
      split_ifs at h
      · cases site <;> cases h <;> exact hm.goto t (by simp)
      · cases h
        exact hm.goto t site.after_ne
  | _ =>
      simp only [exitAccess, hpc] at h
      try split_ifs at h
      all_goals cases h
      all_goals first | exact hm.goto t (ExitSite.after_ne _) | exact hm.goto t (by simp)

theorem exitMasterStep_keeps {m m' : ExitMaster} {a : ExitAccess} (hm : m.NoPeer)
    (hordered : m.grants.Ordered) (hfollower : FromFollower a) (hapart : Apart m a)
    (h : exitMasterStep m a = .ok m') : m'.NoPeer ∧ m'.grants.Ordered := by
  cases a with
  | canStop =>
      simp only [exitMasterStep] at h
      split_ifs at h with hidle
      cases h
      refine ⟨hm.goto .flexus (by simp), ?_⟩
      rwa [ExitMaster.grants_stay (by rw [hidle]; rfl)]
  | call call =>
      simp only [exitMasterStep] at h
      split_ifs at h with hidle
      cases h
      have hentry : call.entry ≠ .setPermittedByPeer ∧ call.entry.role = .none := by
        cases call with
        | processMessage msg => cases msg <;> first | exact absurd rfl hfollower | decide
        | _ => decide
      refine ⟨hm.goto .main hentry.1, ?_⟩
      rwa [ExitMaster.grants_stay (by rw [hidle, hentry.2]; rfl)]
  | step t =>
      refine ⟨hm.access h, ?_⟩
      rcases (Relation.reflGen_iff ..).mp (grants_of_access (hm t) hapart h) with heq | hstep
      · rwa [heq]
      · exact hordered.step hstep

theorem Grants.Ordered.orderly {g : Grants} (h : g.Ordered) : Orderly g.wire := by
  rcases (h .main).wire with hwire | hwire | ⟨hwire, _⟩
  · rw [hwire]
    exact ⟨by decide, by decide, by simp⟩
  · rw [hwire]
    refine ⟨by decide, by decide, fun pre post heq => ?_⟩
    cases pre with
    | nil => cases heq
    | cons msg pre => simp at heq
  · rw [hwire]
    refine ⟨by decide, by decide, fun pre post heq => ?_⟩
    cases pre with
    | nil => cases heq
    | cons msg pre =>
        rw [(List.cons.inj heq).1]
        exact List.mem_cons_self

/-- Where the threads stay apart, the master sends the permission and the end at most once each, the
permission first. -/
theorem exit_orderly {m : ExitMaster} (hm : ExitReaches Apart m) : Orderly m.wire := by
  have hkeeps : m.NoPeer ∧ m.grants.Ordered := by
    refine hm.invariant (P := fun m => m.NoPeer ∧ m.grants.Ordered) ?_ ?_
    · rintro _ rfl
      refine ⟨fun t => by simp [exitMaster], fun t => ?_⟩
      constructor <;> simp [exitMaster, ExitMaster.grants, ExitPc.role]
    · intro m a m' _ h hstep hguard
      exact exitMasterStep_keeps h.1 h.2 hguard.1 hguard.2 hstep
  exact hkeeps.2.orderly

/-- The accesses of a call of the main thread. -/
def mainCall (call : MainCall) (count : Nat) : List ExitAccess :=
  .call call :: List.replicate count (.step .main)

/-- A call of `can_stop`. -/
def canStopCall (count : Nat) : List ExitAccess :=
  .canStop :: List.replicate count (.step .flexus)

set_option maxRecDepth 100000 in
theorem exit_orderly_wholeCalls :
    ∃ m, ExitReaches Apart m ∧ m.wire = [.permission, .finished] ∧ Orderly m.wire := by
  have hrun : (run exitMasterStep (fun m a _ => FromFollower a ∧ Apart m a) exitMaster
      (mainCall (.processMessage .intent) 1 ++ canStopCall 10 ++
        mainCall (.processMessage .finished) 2 ++ mainCall .notifyNeighboursOfEnd 3)).map (·.wire) =
      some [.permission, .finished] := by decide
  obtain ⟨m, hm, hwire⟩ := Option.map_eq_some_iff.mp hrun
  have hstart : ExitReaches Apart exitMaster := .start rfl
  have hreach := hstart.run hm
  exact ⟨m, hreach, hwire, exit_orderly hreach⟩

/-- Both threads find the permission clear before either sets it. -/
def doubleGrant : List ExitAccess :=
  canStopCall 3 ++ mainCall (.processMessage .intent) 1 ++ canStopCall 2 ++
    mainCall .wwtSyncCheck 5 ++ [.step .flexus, .step .flexus]

/-- The end of the emulation comes between the permission's write and its message. -/
def endFirst : List ExitAccess :=
  mainCall (.processMessage .intent) 1 ++ canStopCall 3 ++ mainCall .notifyNeighboursOfEnd 4

set_option maxRecDepth 100000 in
theorem not_orderly_of_overlap :
    (∃ m, ExitReaches (fun _ _ => True) m ∧ m.wire = [.permission, .permission] ∧
      ¬Orderly m.wire) ∧
    ∃ m, ExitReaches (fun _ _ => True) m ∧ m.wire = [.finished] ∧ ¬Orderly m.wire := by
  have hstart : ExitReaches (fun _ _ => True) exitMaster := .start rfl
  constructor
  · have hrun : (run exitMasterStep (fun _ a _ => FromFollower a ∧ True) exitMaster
        doubleGrant).map (·.wire) = some [.permission, .permission] := by decide
    obtain ⟨m, hm, hwire⟩ := Option.map_eq_some_iff.mp hrun
    refine ⟨m, hstart.run hm, hwire, fun horderly => ?_⟩
    have hcount := horderly.permission
    rw [hwire] at hcount
    exact absurd hcount (by decide)
  · have hrun : (run exitMasterStep (fun _ a _ => FromFollower a ∧ True) exitMaster
        endFirst).map (·.wire) = some [.finished] := by decide
    obtain ⟨m, hm, hwire⟩ := Option.map_eq_some_iff.mp hrun
    refine ⟨m, hstart.run hm, hwire, fun horderly => ?_⟩
    have hbefore := horderly.order [] [] hwire
    exact absurd hbefore (by decide)

end LeanPdes
