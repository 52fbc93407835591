import LeanPdes.Reach

/-! What a process holds of its rings. `pdes_comm_create` opens and maps one ring after the other, and
each of its system calls may fail; `pdes_comm_destroy` gives back what the communicator has. -/

namespace LeanPdes

open Reach

/-- The open descriptors and the mappings of the process, and the shared-memory objects that exist. -/
@[ext] structure Holdings (ν : Type) where
  fds : Finset Nat
  mappings : Finset Nat
  objects : Finset ν

/-- The ends of the system calls of one `pdes_comm_init_ring`. -/
structure SystemCalls where
  /-- The exclusive `shm_open` of a name that is free. -/
  creates : Bool
  /-- The plain `shm_open` of an object that exists. -/
  opens : Bool
  resizes : Bool
  maps : Bool

/-- The fields of the communicator that name something outside it. -/
structure PDESCommunicator where
  fdSend : Nat
  fdRecv : Nat
  ringSend : Nat
  ringRecv : Nat
  deriving DecidableEq

/-- The lowest number that is not in use. -/
def lowestFree (used : Finset Nat) : Nat :=
  ((List.range (used.card + 1)).find? (· ∉ used)).getD 0

theorem lowestFree_notMem (used : Finset Nat) : lowestFree used ∉ used := by
  cases hfind : (List.range (used.card + 1)).find? (· ∉ used) with
  | some free =>
      rw [lowestFree, hfind]
      simpa using List.find?_some hfind
  | none =>
      rw [List.find?_eq_none] at hfind
      have hall : Finset.range (used.card + 1) ⊆ used := fun k hk => by
        simpa using hfind k (List.mem_range.mpr (Finset.mem_range.mp hk))
      have hcard := Finset.card_le_card hall
      rw [Finset.card_range] at hcard
      omega

section

variable {ν : Type} [DecidableEq ν]

def Holdings.open (h : Holdings ν) (fd : Nat) : Holdings ν := { h with fds := insert fd h.fds }

def Holdings.close (h : Holdings ν) (fd : Nat) : Holdings ν := { h with fds := h.fds.erase fd }

def Holdings.mmap (h : Holdings ν) (ring : Nat) : Holdings ν :=
  { h with mappings := insert ring h.mappings }

def Holdings.munmap (h : Holdings ν) (ring : Nat) : Holdings ν :=
  { h with mappings := h.mappings.erase ring }

def Holdings.shmCreate (h : Holdings ν) (shmName : ν) : Holdings ν :=
  { h with objects := insert shmName h.objects }

def Holdings.shmUnlink (h : Holdings ν) (shmName : ν) : Holdings ν :=
  { h with objects := h.objects.erase shmName }

/-- `pdes_comm_init_ring`: the descriptor and the mapping, or nothing where a call fails. -/
def pdesCommInitRing (h : Holdings ν) (shmName : ν) (calls : SystemCalls) :
    Option (Nat × Nat) × Holdings ν :=
  let fd := lowestFree h.fds
  let ring := lowestFree h.mappings
  let isCreator := shmName ∉ h.objects && calls.creates
  if !isCreator then
    if shmName ∈ h.objects ∧ calls.opens = true then
      let h := h.open fd
      if calls.maps then (some (fd, ring), h.mmap ring) else (none, h.close fd)
    else (none, h)
  else
    let h := (h.open fd).shmCreate shmName
    if !calls.resizes then (none, (h.shmUnlink shmName).close fd)
    else if calls.maps then (some (fd, ring), h.mmap ring)
    else (none, (h.shmUnlink shmName).close fd)

/-- The process with its communicator. `singletonComm` is the pointer that a second call would find. -/
structure CommProcess (ν : Type) where
  holdings : Holdings ν
  singletonComm : Option PDESCommunicator
  comm : Option PDESCommunicator

inductive CommProcessCall (ν : Type)
  | create (shmSend shmRecv : ν) (sendCalls recvCalls : SystemCalls)
  | destroy
  /-- Another process creates an object. -/
  | appears (shmName : ν)

/-- The process exits because it has had a communicator before. -/
inductive CommExit
  | multipleInstances
  deriving DecidableEq

/-- `pdes_comm_create`. -/
def pdesCommCreate (p : CommProcess ν) (shmSend shmRecv : ν) (sendCalls recvCalls : SystemCalls) :
    Except CommExit (CommProcess ν) :=
  if p.singletonComm ≠ none then .error .multipleInstances
  else
    match pdesCommInitRing p.holdings shmSend sendCalls with
    | (none, h) => .ok { p with holdings := h }
    | (some (fdSend, ringSend), h) =>
        match pdesCommInitRing h shmRecv recvCalls with
        | (none, h) => .ok { p with holdings := (h.munmap ringSend).close fdSend }
        | (some (fdRecv, ringRecv), h) =>
            let comm : PDESCommunicator := { fdSend, fdRecv, ringSend, ringRecv }
            .ok { holdings := h, singletonComm := some comm, comm := some comm }

/-- `pdes_comm_destroy` on the communicator of the process, or on `NULL`. -/
def pdesCommDestroy (p : CommProcess ν) : CommProcess ν :=
  match p.comm with
  | none => p
  | some comm =>
      { p with
        holdings := (((p.holdings.munmap comm.ringSend).munmap comm.ringRecv).close comm.fdSend).close
          comm.fdRecv
        comm := none }

def commProcessStep (p : CommProcess ν) : CommProcessCall ν → Except CommExit (CommProcess ν)
  | .create shmSend shmRecv sendCalls recvCalls =>
      pdesCommCreate p shmSend shmRecv sendCalls recvCalls
  | .destroy => .ok (pdesCommDestroy p)
  | .appears shmName => .ok { p with holdings := p.holdings.shmCreate shmName }

/-- A ring that has been opened and mapped. -/
structure Opened (h : Holdings ν) (shmName : ν) (fd ring : Nat) (h' : Holdings ν) : Prop where
  freshFd : fd ∉ h.fds
  freshRing : ring ∉ h.mappings
  holdings : h' = ((h.open fd).mmap ring).shmCreate shmName

/-- Either the ring is open and mapped, or everything is as before, the object's name included. -/
theorem pdesCommInitRing_cases (h : Holdings ν) (shmName : ν) (calls : SystemCalls) :
    pdesCommInitRing h shmName calls = (none, h) ∨
      ∃ fd ring h', pdesCommInitRing h shmName calls = (some (fd, ring), h') ∧
        Opened h shmName fd ring h' := by
  have hfd := lowestFree_notMem h.fds
  have hring := lowestFree_notMem h.mappings
  have hclosed : (h.open (lowestFree h.fds)).close (lowestFree h.fds) = h :=
    Holdings.ext (Finset.erase_insert hfd) rfl rfl
  by_cases hexists : shmName ∈ h.objects
  · have hopen : pdesCommInitRing h shmName calls =
        if shmName ∈ h.objects ∧ calls.opens = true then
          if calls.maps then (some (lowestFree h.fds, lowestFree h.mappings),
            (h.open (lowestFree h.fds)).mmap (lowestFree h.mappings))
          else (none, (h.open (lowestFree h.fds)).close (lowestFree h.fds))
        else (none, h) := by
      rw [pdesCommInitRing]
      simp [hexists]
    rw [hopen, hclosed]
    split_ifs
    · refine Or.inr ⟨_, _, _, rfl, hfd, hring, ?_⟩
      exact Holdings.ext rfl rfl (Finset.insert_eq_of_mem hexists).symm
    · exact Or.inl rfl
    · exact Or.inl rfl
  · have hunlinked : (((h.open (lowestFree h.fds)).shmCreate shmName).shmUnlink shmName).close
        (lowestFree h.fds) = h :=
      Holdings.ext (Finset.erase_insert hfd) rfl (Finset.erase_insert hexists)
    rw [pdesCommInitRing]
    simp only [hexists, not_false_eq_true, decide_true, Bool.true_and, false_and, if_false,
      Bool.not_eq_true']
    rw [hunlinked]
    split_ifs
    · exact Or.inl rfl
    · exact Or.inl rfl
    · exact Or.inr ⟨_, _, _, rfl, hfd, hring, rfl⟩
    · exact Or.inl rfl

/-! ### Runs -/

/-- Before any communicator. -/
structure CommProcess.StartsFrom (base : Holdings ν) (p : CommProcess ν) : Prop where
  holdings : p.holdings = base
  singletonComm : p.singletonComm = none
  comm : p.comm = none

/-- What the process holds with its communicator. -/
structure PDESCommunicator.Held (base : Holdings ν) (comm : PDESCommunicator) (h : Holdings ν) : Prop where
  freshFds : comm.fdSend ∉ base.fds ∧ comm.fdRecv ∉ base.fds ∧ comm.fdSend ≠ comm.fdRecv
  freshRings : comm.ringSend ∉ base.mappings ∧ comm.ringRecv ∉ base.mappings ∧
    comm.ringSend ≠ comm.ringRecv
  fds : h.fds = insert comm.fdRecv (insert comm.fdSend base.fds)
  mappings : h.mappings = insert comm.ringRecv (insert comm.ringSend base.mappings)

/-- In every run of calls the process holds the two rings of its communicator and nothing more. -/
structure CommProcess.Holds (base : Holdings ν) (p : CommProcess ν) : Prop where
  closed : p.comm = none → p.holdings.fds = base.fds ∧ p.holdings.mappings = base.mappings
  opened : ∀ comm ∈ p.comm, comm.Held base p.holdings
  /-- The objects of the start are still there. -/
  objects : base.objects ⊆ p.holdings.objects
  once : p.singletonComm = none → p.comm = none

omit [DecidableEq ν] in
theorem PDESCommunicator.Held.destroy {base h : Holdings ν} {comm : PDESCommunicator}
    (hheld : comm.Held base h) :
    ((h.fds.erase comm.fdSend).erase comm.fdRecv) = base.fds ∧
      ((h.mappings.erase comm.ringSend).erase comm.ringRecv) = base.mappings := by
  obtain ⟨hsend, hrecv, hne⟩ := hheld.freshFds
  obtain ⟨hsend', hrecv', hne'⟩ := hheld.freshRings
  constructor
  · rw [hheld.fds, Finset.erase_insert_of_ne hne.symm, Finset.erase_insert hsend,
      Finset.erase_insert hrecv]
  · rw [hheld.mappings, Finset.erase_insert_of_ne hne'.symm, Finset.erase_insert hsend',
      Finset.erase_insert hrecv']

/-- The first ring is given back where the second one fails. -/
theorem Opened.give_back {h h' : Holdings ν} {shmName : ν} {fd ring : Nat}
    (hopened : Opened h shmName fd ring h') : (h'.munmap ring).close fd = h.shmCreate shmName := by
  rw [hopened.holdings]
  exact Holdings.ext (Finset.erase_insert hopened.freshFd) (Finset.erase_insert hopened.freshRing) rfl

/-- `pdes_comm_create` makes a communicator, or it leaves at most the name of its first object. -/
theorem pdesCommCreate_cases {p p' : CommProcess ν} {shmSend shmRecv : ν}
    {sendCalls recvCalls : SystemCalls}
    (h : pdesCommCreate p shmSend shmRecv sendCalls recvCalls = .ok p') :
    p.singletonComm = none ∧
      (p' = p ∨ p' = { p with holdings := p.holdings.shmCreate shmSend } ∨
        ∃ comm h₁ h₂, Opened p.holdings shmSend comm.fdSend comm.ringSend h₁ ∧
          Opened h₁ shmRecv comm.fdRecv comm.ringRecv h₂ ∧
          p' = { holdings := h₂, singletonComm := some comm, comm := some comm }) := by
  rw [pdesCommCreate] at h
  split_ifs at h with hfirst
  refine ⟨not_not.mp hfirst, ?_⟩
  rcases pdesCommInitRing_cases p.holdings shmSend sendCalls with hsend | ⟨fd, ring, h₁, hsend, hopened⟩
  · rw [hsend] at h
    cases h
    exact Or.inl rfl
  · rw [hsend] at h
    dsimp only at h
    rcases pdesCommInitRing_cases h₁ shmRecv recvCalls with
      hrecv | ⟨fd', ring', h₂, hrecv, hopened'⟩
    · rw [hrecv] at h
      dsimp only at h
      rw [hopened.give_back] at h
      cases h
      exact Or.inr (Or.inl rfl)
    · rw [hrecv] at h
      cases h
      exact Or.inr (Or.inr ⟨⟨fd, fd', ring, ring'⟩, h₁, h₂, hopened, hopened', rfl⟩)

/-- A call unlinks no object that was there before it: `pdes_comm_init_ring` gives up a name only where
it has just created the object itself. -/
theorem commProcessStep_objects {p p' : CommProcess ν} {call : CommProcessCall ν}
    (h : commProcessStep p call = .ok p') : p.holdings.objects ⊆ p'.holdings.objects := by
  cases call with
  | create shmSend shmRecv =>
      obtain ⟨_, rfl | rfl | ⟨comm, h₁, h₂, hsend, hrecv, rfl⟩⟩ := pdesCommCreate_cases h
      · exact subset_rfl
      · exact Finset.subset_insert ..
      · have hboth : h₂.objects = insert shmRecv (insert shmSend p.holdings.objects) := by
          rw [hrecv.holdings, hsend.holdings]
          rfl
        dsimp only
        rw [hboth]
        exact (Finset.subset_insert ..).trans (Finset.subset_insert ..)
  | destroy =>
      cases h
      rw [pdesCommDestroy]
      split <;> exact subset_rfl
  | appears =>
      cases h
      exact Finset.subset_insert ..

theorem reachable_objects {p p' : CommProcess ν}
    (h : Reachable commProcessStep (fun _ _ _ => True) (· = p) p') :
    p.holdings.objects ⊆ p'.holdings.objects := by
  refine h.invariant (P := fun p' => p.holdings.objects ⊆ p'.holdings.objects) ?_ ?_
  · rintro _ rfl
    exact subset_rfl
  · intro _ _ _ _ hkept hstep _
    exact hkept.trans (commProcessStep_objects hstep)

theorem CommProcess.Holds.create {base : Holdings ν} {p p' : CommProcess ν} (hp : p.Holds base)
    {shmSend shmRecv : ν} {sendCalls recvCalls : SystemCalls}
    (h : pdesCommCreate p shmSend shmRecv sendCalls recvCalls = .ok p') : p'.Holds base := by
  have hstep : commProcessStep p (.create shmSend shmRecv sendCalls recvCalls) = .ok p' := h
  have hobjects := hp.objects.trans (commProcessStep_objects hstep)
  obtain ⟨hfirst, hend⟩ := pdesCommCreate_cases h
  have hnone := hp.once hfirst
  obtain ⟨hfds, hmappings⟩ := hp.closed hnone
  rcases hend with rfl | rfl | ⟨comm, h₁, h₂, hsend, hrecv, rfl⟩
  · exact hp
  · refine ⟨fun _ => ⟨hfds, hmappings⟩, fun comm hcomm => ?_, hobjects, fun _ => hnone⟩
    rw [hnone] at hcomm
    cases hcomm
  · have hfresh := hrecv.freshFd
    have hfresh' := hrecv.freshRing
    have hh₂ := hrecv.holdings
    rw [hsend.holdings] at hfresh hfresh' hh₂
    have hfdRecv : comm.fdRecv ∉ insert comm.fdSend p.holdings.fds := hfresh
    have hringRecv : comm.ringRecv ∉ insert comm.ringSend p.holdings.mappings := hfresh'
    rw [hfds, Finset.mem_insert, not_or] at hfdRecv
    rw [hmappings, Finset.mem_insert, not_or] at hringRecv
    refine ⟨nofun, ?_, hobjects, nofun⟩
    rintro _ ⟨⟩
    refine ⟨⟨hfds ▸ hsend.freshFd, hfdRecv.2, Ne.symm hfdRecv.1⟩,
      ⟨hmappings ▸ hsend.freshRing, hringRecv.2, Ne.symm hringRecv.1⟩, ?_, ?_⟩
    · rw [hh₂, ← hfds]
      rfl
    · rw [hh₂, ← hmappings]
      rfl

omit [DecidableEq ν] in
theorem CommProcess.Holds.destroy {base : Holdings ν} {p : CommProcess ν} (hp : p.Holds base) :
    (pdesCommDestroy p).Holds base := by
  cases hcomm : p.comm with
  | none =>
      rw [pdesCommDestroy, hcomm]
      exact hp
  | some comm =>
      rw [pdesCommDestroy, hcomm]
      exact ⟨fun _ => (hp.opened comm hcomm).destroy, nofun, hp.objects, fun _ => rfl⟩

theorem CommProcess.Holds.appears {base : Holdings ν} {p : CommProcess ν} (hp : p.Holds base)
    (shmName : ν) : CommProcess.Holds base { p with holdings := p.holdings.shmCreate shmName } :=
  ⟨hp.closed, fun comm hcomm => ⟨(hp.opened comm hcomm).freshFds, (hp.opened comm hcomm).freshRings,
    (hp.opened comm hcomm).fds, (hp.opened comm hcomm).mappings⟩,
    hp.objects.trans (Finset.subset_insert ..), hp.once⟩

/-- Once it is set, `singleton_comm` stays. -/
theorem commProcessStep_singletonComm {p p' : CommProcess ν} {call : CommProcessCall ν}
    (h : commProcessStep p call = .ok p') (hset : p.singletonComm ≠ none) : p'.singletonComm ≠ none := by
  cases call with
  | create => exact absurd (pdesCommCreate_cases h).1 hset
  | destroy =>
      cases h
      rw [pdesCommDestroy]
      split <;> exact hset
  | appears =>
      cases h
      exact hset

/-- Whatever system calls fail, the process holds the descriptors and the mappings of its communicator as
long as it has one, and otherwise what it had at the start. No object that exists at some point is
unlinked later, whoever created it. A process that has had a communicator makes no second one, not even
when it has destroyed the first. -/
theorem comm_resources {base : Holdings ν} {p : CommProcess ν}
    (hp : Reachable commProcessStep (fun _ _ _ => True) (CommProcess.StartsFrom base) p) :
    p.Holds base ∧
    (∀ p', Reachable commProcessStep (fun _ _ _ => True) (· = p) p' →
      p.holdings.objects ⊆ p'.holdings.objects) ∧
    (p.comm ≠ none →
      ∀ p', Reachable commProcessStep (fun _ _ _ => True) (· = p) p' →
        ∀ shmSend shmRecv sendCalls recvCalls,
          commProcessStep p' (.create shmSend shmRecv sendCalls recvCalls) =
            .error .multipleInstances) := by
  have hholds : p.Holds base := by
    refine hp.invariant ?_ ?_
    · rintro p ⟨hholdings, _, hcomm⟩
      refine ⟨fun _ => by rw [hholdings]; exact ⟨rfl, rfl⟩, fun comm hmem => ?_, by rw [hholdings],
        fun _ => hcomm⟩
      rw [hcomm] at hmem
      cases hmem
    · rintro p call p' _ hp hstep _
      cases call with
      | create => exact hp.create hstep
      | destroy =>
          cases hstep
          exact hp.destroy
      | appears shmName =>
          cases hstep
          exact hp.appears shmName
  refine ⟨hholds, fun _ => reachable_objects, ?_⟩
  intro hcomm p' hp' shmSend shmRecv sendCalls recvCalls
  have hset : p'.singletonComm ≠ none := by
    refine hp'.invariant (P := fun p => p.singletonComm ≠ none) ?_ ?_
    · rintro _ rfl hnone
      exact hcomm (hholds.once hnone)
    · intro p call p' _ hset hstep _
      exact commProcessStep_singletonComm hstep hset
  rw [commProcessStep, pdesCommCreate, if_pos hset]

end

/-- A process with its three standard descriptors. -/
def standardProcess : CommProcess Nat := ⟨⟨{0, 1, 2}, ∅, ∅⟩, none, none⟩

/-- The second ring's `mmap` fails the first time. -/
def secondAttempt : List (CommProcessCall Nat) :=
  [.create 7 8 ⟨true, true, true, true⟩ ⟨true, true, true, false⟩,
    .create 7 8 ⟨true, true, true, true⟩ ⟨true, true, true, true⟩]

theorem comm_resources_secondAttempt :
    ∃ p : CommProcess Nat, p.comm = some ⟨3, 4, 0, 1⟩ ∧ p.Holds ⟨{0, 1, 2}, ∅, ∅⟩ := by
  have hrun : (run commProcessStep (fun _ _ _ => True) standardProcess secondAttempt).map
      CommProcess.comm = some (some ⟨3, 4, 0, 1⟩) := by decide
  obtain ⟨p, hp, hcomm⟩ := Option.map_eq_some_iff.mp hrun
  have hstart : Reachable commProcessStep (fun _ _ _ => True)
      (CommProcess.StartsFrom ⟨{0, 1, 2}, ∅, ∅⟩) standardProcess := .start ⟨rfl, rfl, rfl⟩
  exact ⟨p, hcomm, (comm_resources (hstart.run hp)).1⟩

end LeanPdes
