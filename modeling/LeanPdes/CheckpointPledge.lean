import LeanPdes.CheckpointProtocol

/-! The save that the leader decides on at any time, also after it has announced its round. The rounds
in which the parties save may then differ, but the leader does not leave its round before it has
saved, and it asks for no other round than that one. -/

namespace CheckpointProtocol

/-- What a party does on its own, where the leader may decide late. A party with nothing to save may
leave. -/
inductive Party.Proceeds (p : Party) : Party → Prop
  | turn {p' : Party} (h : p.Turn p') : Proceeds p p'
  | arm (hleader : p.leader = true) : Proceeds p p.arm
  | leave (hneeds : p.needs = false) : Proceeds p { p with left := true }

/-- The leader saves in its round, and has asked for a save in no other round. -/
structure Pledged (p : Party) : Prop where
  target : p.needs = true → p.target = p.round ∧ p.last = true
  asked : ∀ c, .ask c ∈ p.marks → c = p.round ∧ (p.needs = true ∨ p.left = true)

theorem Pledged.asks {p q : Party} (h : Pledged p) (hasks : p.Asks q) : Pledged q := by
  cases hasks with
  | skip => exact h
  | silent => exact ⟨h.target, h.asked⟩
  | ask hneeds =>
      refine ⟨h.target, fun c hmem => ?_⟩
      rcases List.mem_append.mp hmem with hmem | hmem
      · exact h.asked c hmem
      · cases List.mem_singleton.mp hmem
        exact ⟨rfl, Or.inl hneeds⟩

/-- A leader with nothing to save has asked for nothing. -/
theorem Pledged.unasked {p : Party} (h : Pledged p) (hneeds : p.needs = false)
    (hstays : p.left = false) (c : Nat) : .ask c ∉ p.marks := by
  intro hmem
  rcases (h.asked c hmem).2 with hyes | hyes
  · rw [hneeds] at hyes
    cases hyes
  · rw [hstays] at hyes
    cases hyes

/-- The leader stays in its round and does not take back that it saves there. -/
structure Stands (p p' : Party) : Prop where
  round : p'.round = p.round
  pledge : p'.needs = true ∨ p'.left = true

theorem Party.Asks.stands {p q : Party} (h : p.Asks q) (hneeds : p.needs = true) : Stands p q :=
  ⟨h.request.1, Or.inl (h.request.2.2.trans hneeds)⟩

theorem Pledged.arm {p : Party} (h : Pledged p) : Pledged p.arm ∧ Stands p p.arm :=
  ⟨⟨fun _ => ⟨rfl, rfl⟩, fun c hmem => ⟨(h.asked c hmem).1, Or.inl rfl⟩⟩, rfl, Or.inl rfl⟩

theorem Pledged.turn {p p' : Party} (h : Pledged p) (hleader : p.leader = true)
    (hstays : p.left = false) (hturn : p.Turn p') :
    Pledged p' ∧ (p.needs = true → Stands p p') := by
  cases hturn with
  | stay => exact ⟨h, fun hneeds => ⟨rfl, Or.inl hneeds⟩⟩
  | arm => exact ⟨h.arm.1, fun _ => h.arm.2⟩
  | @arrive q _ hasks =>
      have hq := h.asks hasks
      refine ⟨⟨hq.target, fun c hmem => hq.asked c ?_⟩, fun hneeds => ?_⟩
      · exact (List.mem_append.mp hmem).resolve_right (by simp)
      · exact ⟨(hasks.stands hneeds).round, (hasks.stands hneeds).pledge⟩
  | @hold q _ hneeds _ hasks =>
      have hq := h.asks hasks
      exact ⟨⟨hq.target, hq.asked⟩, fun _ =>
        ⟨(hasks.stands hneeds).round, (hasks.stands hneeds).pledge⟩⟩
  | pass _ hfree hasks =>
      have hneeds : p.needs = false := by
        rcases hfree with hneeds | hlt
        · exact hneeds
        · by_contra hyes
          have htarget := (h.target (by simpa using hyes)).1
          omega
      cases hasks.eq_of_done hneeds
      refine ⟨⟨fun hyes => ?_, fun c hmem => absurd hmem (h.unasked hneeds hstays c)⟩, fun hyes => ?_⟩
      · rw [hneeds] at hyes
        cases hyes
      · rw [hneeds] at hyes
        cases hyes
  | @save left hneeds _ hleft =>
      have hleaves : left = true := hleft hleader (h.target hneeds).2
      refine ⟨⟨fun hyes => ?_, fun c hmem => ⟨(h.asked c hmem).1, Or.inr hleaves⟩⟩,
        fun _ => ⟨rfl, Or.inr hleaves⟩⟩
      cases hyes

theorem Pledged.proceeds {p p' : Party} (h : Pledged p) (hleader : p.leader = true)
    (hstays : p.left = false) (hproceeds : p.Proceeds p') :
    Pledged p' ∧ (p.needs = true → Stands p p') := by
  cases hproceeds with
  | turn hturn => exact h.turn hleader hstays hturn
  | arm => exact ⟨h.arm.1, fun _ => h.arm.2⟩
  | leave hneeds =>
      refine ⟨⟨h.target, fun c hmem => ⟨(h.asked c hmem).1, Or.inr rfl⟩⟩, fun hyes => ?_⟩
      rw [hneeds] at hyes
      cases hyes

/-- What the follower `f` has to save it saves in the round of the leader `l`, which does not leave
it. -/
structure Bound (l f : Party) : Prop where
  target : f.needs = true → f.target = l.round
  pledge : f.needs = true → l.needs = true ∨ l.left = true

theorem Bound.leader {l l' f : Party} (h : Bound l f) (hpledged : Pledged l)
    (hleader : l.leader = true) (hstays : l.left = false) (hproceeds : l.Proceeds l') : Bound l' f := by
  have hstands (hneeds : f.needs = true) : Stands l l' := by
    refine (hpledged.proceeds hleader hstays hproceeds).2 ((h.pledge hneeds).resolve_right ?_)
    rw [hstays]
    exact Bool.false_ne_true
  refine ⟨fun hneeds => ?_, fun hneeds => (hstands hneeds).pledge⟩
  rw [(hstands hneeds).round]
  exact h.target hneeds

theorem Bound.follower {l f f' : Party} (h : Bound l f) (hfollower : f.leader = false)
    (hproceeds : f.Proceeds f') : Bound l f' := by
  have kept {q : Party} (htarget : q.target = f.target) (hneeds : q.needs = f.needs) : Bound l q := by
    refine ⟨fun hyes => ?_, fun hyes => h.pledge (hneeds ▸ hyes)⟩
    rw [htarget]
    exact h.target (hneeds ▸ hyes)
  have noLeader (hleader : f.leader = true) : False := by
    rw [hfollower] at hleader
    cases hleader
  cases hproceeds with
  | arm hleader => exact (noLeader hleader).elim
  | leave => exact kept rfl rfl
  | turn hturn =>
      cases hturn with
      | stay => exact h
      | arm hleader => exact (noLeader hleader).elim
      | arrive _ hasks | hold _ _ _ hasks | pass _ _ hasks =>
          exact kept hasks.request.2.1 hasks.request.2.2
      | save =>
          refine ⟨fun hyes => ?_, fun hyes => ?_⟩
          · cases hyes
          · cases hyes

theorem Pledged.hear {l f : Party} (h : Pledged l) {c : Nat} (hmem : .ask c ∈ l.marks) (last : Bool) :
    Bound l (f.hear c last) :=
  ⟨fun _ => (h.asked c hmem).1, fun _ => (h.asked c hmem).2⟩

end CheckpointProtocol
