import Mathlib.Tactic

/-! How two parties save at the end of the same round. The leader decides to save in a round it has not
announced; it asks the follower and then announces the round, in this order, on a channel that keeps
it. Each party leaves a round only after it has seen the other's announcement, and no round in which
it has to save before it has saved. -/

namespace CheckpointProtocol

/-- What a party says to the other one: that it has finished a round, or in which round to save. -/
inductive Mark
  | sync (round : Nat)
  | ask (round : Nat)
  deriving DecidableEq, Repr

/-- A party. `target` is the round in which it has to save, `scheduled` that it is about to, `last`
that it leaves afterwards; `armed`, `saved` and `marks` are what it has decided, saved and said. -/
structure Party where
  leader : Bool
  needs : Bool
  asked : Bool
  target : Nat
  last : Bool
  scheduled : Bool
  round : Nat
  left : Bool
  armed : List Nat
  saved : List (Nat × Nat)
  marks : List Mark

/-- The leader decides to save in its round. -/
def Party.arm (p : Party) : Party :=
  { p with
    needs := true, asked := false, target := p.round, last := true, armed := p.armed ++ [p.round] }

/-- The party saves. -/
def Party.save (p : Party) (left : Bool) : Party :=
  { p with
    needs := false, asked := false, target := 0, scheduled := false, left
    saved := p.saved ++ [(p.target, p.round)] }

/-- A party that has to save says so, once. -/
inductive Party.Asks (p : Party) : Party → Prop
  | skip (h : p.needs = false ∨ p.asked = true) : Asks p p
  | ask (hneeds : p.needs = true) (hasked : p.asked = false) :
      Asks p { p with asked := true, marks := p.marks ++ [.ask p.round] }
  /-- Nothing is said about a save that is not the last one. -/
  | silent (hneeds : p.needs = true) (hlast : p.last = false) : Asks p { p with asked := true }

/-- Who has nothing to save says nothing. -/
theorem Party.Asks.eq_of_done {p q : Party} (h : p.Asks q) (hneeds : p.needs = false) : q = p := by
  cases h with
  | skip => rfl
  | ask hyes =>
      rw [hneeds] at hyes
      cases hyes
  | silent hyes =>
      rw [hneeds] at hyes
      cases hyes

theorem Party.Asks.request {p q : Party} (h : p.Asks q) :
    q.round = p.round ∧ q.target = p.target ∧ q.needs = p.needs := by
  cases h <;> exact ⟨rfl, rfl, rfl⟩

/-- What a party does on its own. -/
inductive Party.Turn (p : Party) : Party → Prop
  | stay : Turn p p
  | arm (hleader : p.leader = true) (hnot : .sync p.round ∉ p.marks) : Turn p p.arm
  | arrive {q : Party} (hnot : .sync p.round ∉ p.marks) (h : p.Asks q) :
      Turn p { q with marks := q.marks ++ [.sync p.round] }
  | hold {q : Party} (hsaid : .sync p.round ∈ p.marks) (hneeds : p.needs = true)
      (htarget : p.target = p.round) (h : p.Asks q) : Turn p { q with scheduled := true }
  | pass {q : Party} (hsaid : .sync p.round ∈ p.marks)
      (hfree : p.needs = false ∨ p.round < p.target) (h : p.Asks q) :
      Turn p { q with round := p.round + 1 }
  | save {left : Bool} (hneeds : p.needs = true) (hscheduled : p.scheduled = true)
      (hleft : p.leader = true → p.last = true → left = true) : Turn p (p.save left)

/-- Only the leader decides to save. -/
theorem Party.Turn.armed_of_follower {p p' : Party} (h : p.Turn p') (hfollower : p.leader = false) :
    p'.armed = p.armed := by
  cases h with
  | stay | save => rfl
  | arm hleader =>
      rw [hfollower] at hleader
      cases hleader
  | arrive _ h | hold _ _ _ h | pass _ _ h => cases h <;> rfl

/-- The leader's progress. Once it has decided to save it does not leave the round any more. -/
inductive Leads (p : Party) : Prop
  | running (hneeds : p.needs = false) (harmed : p.armed = []) (hmarks : ∀ c, .ask c ∉ p.marks)
      (hsaved : p.saved = []) (hscheduled : p.scheduled = false)
  | armed (hneeds : p.needs = true) (hasked : p.asked = false) (htarget : p.target = p.round)
      (hlast : p.last = true) (hnot : .sync p.round ∉ p.marks)
      (harmed : p.armed ≠ [] ∧ ∀ r ∈ p.armed, r = p.round) (hmarks : ∀ c, .ask c ∉ p.marks)
      (hsaved : p.saved = []) (hscheduled : p.scheduled = false)
  | announced (hneeds : p.needs = true) (hasked : p.asked = true) (htarget : p.target = p.round)
      (hlast : p.last = true) (harmed : p.armed ≠ [] ∧ ∀ r ∈ p.armed, r = p.round)
      {before : List Mark} (hmarks : p.marks = before ++ [.ask p.round, .sync p.round])
      (hbefore : .sync p.round ∉ before ∧ ∀ c, .ask c ∉ before) (hsaved : p.saved = [])
  | saved (hleft : p.left = true) (hneeds : p.needs = false)
      (harmed : p.armed ≠ [] ∧ ∀ r ∈ p.armed, r = p.round)
      {before : List Mark} (hmarks : p.marks = before ++ [.ask p.round, .sync p.round])
      (hbefore : .sync p.round ∉ before ∧ ∀ c, .ask c ∉ before)
      (hsaved : p.saved = [(p.round, p.round)])

theorem Leads.turn {p p' : Party} (h : Leads p) (hleader : p.leader = true) (hstays : p.left = false)
    (hturn : p.Turn p') : Leads p' := by
  cases h with
  | running hneeds harmed hmarks hsaved hscheduled =>
      cases hturn with
      | stay => exact .running hneeds harmed hmarks hsaved hscheduled
      | arm _ hnot =>
          refine .armed rfl rfl rfl rfl hnot ?_ hmarks hsaved hscheduled
          rw [Party.arm, harmed]
          simp
      | arrive _ h =>
          cases h.eq_of_done hneeds
          refine .running hneeds harmed ?_ hsaved hscheduled
          intro c hmem
          rcases List.mem_append.mp hmem with hmem | hmem
          · exact hmarks c hmem
          · simp at hmem
      | hold _ hyes => rw [hneeds] at hyes; cases hyes
      | pass _ _ h =>
          cases h.eq_of_done hneeds
          exact .running hneeds harmed hmarks hsaved hscheduled
      | save hyes => rw [hneeds] at hyes; cases hyes
  | armed hneeds hasked htarget hlast hnot harmed hmarks hsaved hscheduled =>
      cases hturn with
      | stay => exact .armed hneeds hasked htarget hlast hnot harmed hmarks hsaved hscheduled
      | arm =>
          refine .armed rfl rfl rfl rfl hnot ⟨by simp [Party.arm], ?_⟩ hmarks hsaved hscheduled
          intro r hr
          rcases List.mem_append.mp hr with hr | hr
          · exact harmed.2 r hr
          · exact List.mem_singleton.mp hr
      | arrive _ h =>
          cases h with
          | skip h =>
              rcases h with hno | hno
              · rw [hneeds] at hno; cases hno
              · rw [hasked] at hno; cases hno
          | ask =>
              exact .announced hneeds rfl htarget hlast harmed (List.append_assoc ..) ⟨hnot, hmarks⟩
                hsaved
          | silent _ hno => rw [hlast] at hno; cases hno
      | hold hsaid => exact absurd hsaid hnot
      | pass hsaid => exact absurd hsaid hnot
      | save _ hyes => rw [hscheduled] at hyes; cases hyes
  | announced hneeds hasked htarget hlast harmed hmarks hbefore hsaved =>
      have hsaid : .sync p.round ∈ p.marks := by
        rw [hmarks]
        simp
      cases hturn with
      | stay => exact .announced hneeds hasked htarget hlast harmed hmarks hbefore hsaved
      | arm _ hnot => exact absurd hsaid hnot
      | arrive hnot => exact absurd hsaid hnot
      | hold _ _ _ h =>
          cases h with
          | skip => exact .announced hneeds hasked htarget hlast harmed hmarks hbefore hsaved
          | ask _ hno => rw [hasked] at hno; cases hno
          | silent _ hno => rw [hlast] at hno; cases hno
      | pass _ hfree =>
          rcases hfree with hno | hlt
          · rw [hneeds] at hno; cases hno
          · omega
      | save _ _ hleft =>
          refine .saved (hleft hleader hlast) rfl harmed hmarks hbefore ?_
          rw [Party.save, hsaved, htarget]
          rfl
  | saved hleft =>
      rw [hleft] at hstays
      cases hstays

/-- The follower's progress, with what it has heard of the leader. -/
inductive Obeys (p : Party) (heard : List Mark) : Prop
  | running (hneeds : p.needs = false) (hheard : ∀ c, .ask c ∉ heard) (hsaved : p.saved = [])
      (hscheduled : p.scheduled = false)
  | asked (hneeds : p.needs = true) (hheard : .ask p.target ∈ heard) (hround : p.round ≤ p.target)
      (hsaved : p.saved = []) (hscheduled : p.scheduled = true → p.round = p.target)
  | saved {c : Nat} (hneeds : p.needs = false) (hheard : .ask c ∈ heard) (hsaved : p.saved = [(c, c)])

theorem Obeys.turn {p p' : Party} {heard : List Mark} (h : Obeys p heard)
    (hfollower : p.leader = false) (hturn : p.Turn p') : Obeys p' heard := by
  cases h with
  | running hneeds hheard hsaved hscheduled =>
      cases hturn with
      | stay => exact .running hneeds hheard hsaved hscheduled
      | arm hleader => rw [hfollower] at hleader; cases hleader
      | arrive _ h | pass _ _ h =>
          cases h.eq_of_done hneeds
          exact .running hneeds hheard hsaved hscheduled
      | hold _ hyes => rw [hneeds] at hyes; cases hyes
      | save hyes => rw [hneeds] at hyes; cases hyes
  | asked hneeds hheard hround hsaved hscheduled =>
      cases hturn with
      | stay => exact .asked hneeds hheard hround hsaved hscheduled
      | arm hleader => rw [hfollower] at hleader; cases hleader
      | arrive _ h => cases h <;> exact .asked hneeds hheard hround hsaved hscheduled
      | hold _ _ htarget h =>
          cases h <;> exact .asked hneeds hheard hround hsaved fun _ => htarget.symm
      | pass _ hfree h =>
          rcases hfree with hno | hlt
          · rw [hneeds] at hno; cases hno
          · have hnot (hyes : p.scheduled = true) : p.round + 1 = p.target := by
              have heq := hscheduled hyes
              omega
            cases h <;> exact .asked hneeds hheard hlt hsaved hnot
      | save _ hyes =>
          refine .saved rfl hheard ?_
          rw [Party.save, hsaved, hscheduled hyes]
          rfl
  | saved hneeds hheard hsaved =>
      cases hturn with
      | stay => exact .saved hneeds hheard hsaved
      | arm hleader => rw [hfollower] at hleader; cases hleader
      | arrive _ h | pass _ _ h =>
          cases h.eq_of_done hneeds
          exact .saved hneeds hheard hsaved
      | hold _ hyes => rw [hneeds] at hyes; cases hyes
      | save hyes => rw [hneeds] at hyes; cases hyes

/-! ### Both parties -/

/-- What is heard of a channel on which the leader asks before it announces the round. -/
theorem heard_cases {heard before : List Mark} {c : Nat}
    (h : heard <+: before ++ [.ask c, .sync c]) :
    heard <+: before ∨ heard = before ++ [.ask c] ∨ heard = before ++ [.ask c, .sync c] := by
  have hsplit : before ++ [Mark.ask c, Mark.sync c] = (before ++ [.ask c]) ++ [.sync c] := by simp
  rw [hsplit, List.prefix_concat_iff, List.prefix_concat_iff] at h
  rcases h with h | h | h
  · exact Or.inr (Or.inr (h.trans hsplit.symm))
  · exact Or.inr (Or.inl h)
  · exact Or.inl h

theorem ask_heard_once {heard before : List Mark} {c r : Nat}
    (hbefore : .sync r ∉ before ∧ ∀ c, .ask c ∉ before)
    (h : heard ++ [.ask c] <+: before ++ [.ask r, .sync r]) :
    c = r ∧ .sync c ∉ heard ∧ ∀ r, .ask r ∉ heard := by
  rcases heard_cases h with h | h | h
  · have hmem : Mark.ask c ∈ before := h.subset (by simp)
    exact absurd hmem (hbefore.2 c)
  · obtain ⟨rfl, hlast⟩ := List.append_inj' h rfl
    cases hlast
    exact ⟨rfl, hbefore.1, hbefore.2⟩
  · have hsplit : before ++ [Mark.ask r, Mark.sync r] = (before ++ [.ask r]) ++ [.sync r] := by simp
    rw [hsplit] at h
    cases (List.append_inj' h rfl).2

/-- Where the follower hears that it has to save, it has heard no such thing before, nor that the round
is announced. -/
theorem Leads.ask_heard {p : Party} (h : Leads p) {heard : List Mark} {c : Nat}
    (hheard : heard ++ [.ask c] <+: p.marks) :
    c = p.round ∧ .sync c ∉ heard ∧ ∀ r, .ask r ∉ heard := by
  have hmem : Mark.ask c ∈ p.marks := hheard.subset (by simp)
  cases h with
  | running _ _ hmarks => exact absurd hmem (hmarks c)
  | armed _ _ _ _ _ _ hmarks => exact absurd hmem (hmarks c)
  | announced _ _ _ _ _ hmarks hbefore => exact ask_heard_once hbefore (hmarks ▸ hheard)
  | saved _ _ _ hmarks hbefore => exact ask_heard_once hbefore (hmarks ▸ hheard)

theorem ask_before_sync {heard before : List Mark} {r : Nat}
    (hbefore : .sync r ∉ before ∧ ∀ c, .ask c ∉ before)
    (h : heard <+: before ++ [.ask r, .sync r]) :
    (∀ c, .ask c ∈ heard → c = r) ∧ ((∀ c, .ask c ∉ heard) → .sync r ∉ heard) := by
  refine ⟨fun c hc => ?_, fun hnone hs => ?_⟩
  · have hmem := h.subset hc
    rcases List.mem_append.mp hmem with hmem | hmem
    · exact absurd hmem (hbefore.2 c)
    · simpa using hmem
  · rcases heard_cases h with h | h | h
    · exact hbefore.1 (h.subset hs)
    · exact hnone r (by rw [h]; simp)
    · exact hnone r (by rw [h]; simp)

/-- A list of rounds in which the leader has decided to save: all are one round. -/
theorem mem_of_armed {rounds : List Nat} {r : Nat} (h : rounds ≠ [] ∧ ∀ c ∈ rounds, c = r) :
    r ∈ rounds := by
  obtain ⟨c, hc⟩ := List.exists_mem_of_ne_nil _ h.1
  rwa [h.2 c hc] at hc

/-- Nobody is asked in another round than the leader's, and the follower has heard of the round only
after it was asked. -/
theorem Leads.heard {p : Party} (h : Leads p) {heard : List Mark} (hheard : heard <+: p.marks) :
    (∀ c, .ask c ∈ heard → c = p.round ∧ p.round ∈ p.armed) ∧
      (p.armed ≠ [] → (∀ c, .ask c ∉ heard) → .sync p.round ∉ heard) := by
  cases h with
  | running _ harmed hmarks =>
      exact ⟨fun c hc => absurd (hheard.subset hc) (hmarks c), fun hne => absurd harmed hne⟩
  | armed _ _ _ _ hnot _ hmarks =>
      exact ⟨fun c hc => absurd (hheard.subset hc) (hmarks c), fun _ _ hs => hnot (hheard.subset hs)⟩
  | announced _ _ _ _ harmed hmarks hbefore =>
      obtain ⟨hround, hsync⟩ := ask_before_sync hbefore (hmarks ▸ hheard)
      exact ⟨fun c hc => ⟨hround c hc, mem_of_armed harmed⟩, fun _ => hsync⟩
  | saved _ _ harmed hmarks hbefore =>
      obtain ⟨hround, hsync⟩ := ask_before_sync hbefore (hmarks ▸ hheard)
      exact ⟨fun c hc => ⟨hround c hc, mem_of_armed harmed⟩, fun _ => hsync⟩

/-- What the leader has decided and done is about the round it is in. -/
theorem Leads.inRound {p : Party} (h : Leads p) :
    (∀ c ∈ p.armed, c = p.round) ∧ (∀ x ∈ p.saved, p.round ∈ p.armed ∧ x = (p.round, p.round)) ∧
      (p.needs = true → p.round ≤ p.target) := by
  cases h with
  | running hneeds harmed _ hsaved =>
      rw [harmed, hsaved, hneeds]
      exact ⟨by simp, by simp, by simp⟩
  | armed _ _ htarget _ _ harmed _ hsaved =>
      rw [hsaved, htarget]
      exact ⟨harmed.2, by simp, fun _ => le_rfl⟩
  | announced _ _ htarget _ harmed _ _ hsaved =>
      rw [hsaved, htarget]
      exact ⟨harmed.2, by simp, fun _ => le_rfl⟩
  | saved _ hneeds harmed _ _ hsaved =>
      rw [hsaved, hneeds]
      exact ⟨harmed.2, fun x hx => ⟨mem_of_armed harmed, List.mem_singleton.mp hx⟩, by simp⟩

/-- A party is asked by a message. -/
def Party.hear (p : Party) (c : Nat) (last : Bool) : Party := { p with needs := true, target := c, last }

theorem Obeys.hear {l p : Party} (hl : Leads l) {heard : List Mark} (h : Obeys p heard) {c : Nat}
    (hheard : heard ++ [.ask c] <+: l.marks) (last : Bool)
    (hround : ∀ r, .sync r ∉ heard → p.round ≤ r) : Obeys (p.hear c last) (heard ++ [.ask c]) := by
  obtain ⟨_, hsync, hnone⟩ := hl.ask_heard hheard
  cases h with
  | running _ _ hsaved hscheduled =>
      refine .asked rfl (List.mem_append_right _ (List.mem_singleton.mpr rfl)) (hround c hsync) hsaved ?_
      intro hyes
      rw [Party.hear, hscheduled] at hyes
      cases hyes
  | asked _ hbefore => exact absurd hbefore (hnone _)
  | saved _ hbefore => exact absurd hbefore (hnone _)

/-- The announcement of a round asks for nothing. -/
theorem Obeys.hearSync {p : Party} {heard : List Mark} (h : Obeys p heard) (r : Nat) :
    Obeys p (heard ++ [.sync r]) := by
  cases h with
  | running hneeds hheard hsaved hscheduled =>
      refine .running hneeds ?_ hsaved hscheduled
      intro c hc
      rcases List.mem_append.mp hc with hc | hc
      · exact hheard c hc
      · simp at hc
  | asked hneeds hheard => exact .asked hneeds (List.mem_append_left _ hheard) ‹_› ‹_› ‹_›
  | saved hneeds hheard hsaved => exact .saved hneeds (List.mem_append_left _ hheard) hsaved

/-- What the parties have decided and done fits together. -/
structure Agree (l f : Party) : Prop where
  /-- Each party saves in a round that the leader has chosen, at the end of that round. -/
  saved : ∀ x ∈ l.saved ++ f.saved, ∃ c ∈ l.armed, x = (c, c)
  /-- No party is past a chosen round in which it has not saved. -/
  passed : ∀ c ∈ l.armed, ¬c < l.round ∧ (c < f.round → (c, c) ∈ f.saved)
  /-- The round in which a party has to save is not over. -/
  target : (l.needs = true → l.round ≤ l.target) ∧ (f.needs = true → f.round ≤ f.target)

theorem Leads.agree {l f : Party} (hl : Leads l) {heard : List Mark} (hf : Obeys f heard)
    (hheard : heard <+: l.marks) (hround : ∀ r, .sync r ∉ heard → f.round ≤ r) : Agree l f := by
  obtain ⟨hdecided, hleader, htarget⟩ := hl.inRound
  obtain ⟨hask, hsync⟩ := hl.heard hheard
  have hleaderSaved (x : Nat × Nat) (hx : x ∈ l.saved) : ∃ c ∈ l.armed, x = (c, c) :=
    ⟨l.round, (hleader x hx).1, (hleader x hx).2⟩
  have hleaderRound (c : Nat) (hc : c ∈ l.armed) : ¬c < l.round := by
    have heq := hdecided c hc
    omega
  cases hf with
  | running hneeds hnone hsaved =>
      refine ⟨?_, fun c hc => ⟨hleaderRound c hc, fun hlt => ?_⟩, htarget, ?_⟩
      · rwa [hsaved, List.append_nil]
      · have hnot := hsync (List.ne_nil_of_mem hc) hnone
        have hle := hround l.round hnot
        have heq := hdecided c hc
        omega
      · rw [hneeds]
        simp
  | asked _ hmem hle hsaved =>
      refine ⟨?_, fun c hc => ⟨hleaderRound c hc, fun hlt => ?_⟩, htarget, fun _ => hle⟩
      · rwa [hsaved, List.append_nil]
      · have heq := hdecided c hc
        have htargetRound := (hask _ hmem).1
        omega
  | @saved r hneeds hmem hsaved =>
      obtain ⟨rfl, harmed⟩ := hask _ hmem
      refine ⟨?_, fun c hc => ⟨hleaderRound c hc, fun _ => ?_⟩, htarget, ?_⟩
      · intro x hx
        rcases List.mem_append.mp hx with hx | hx
        · exact hleaderSaved x hx
        · rw [hsaved] at hx
          exact ⟨l.round, harmed, List.mem_singleton.mp hx⟩
      · rw [hsaved, hdecided c hc]
        exact List.mem_singleton.mpr rfl
      · rw [hneeds]
        simp

end CheckpointProtocol
