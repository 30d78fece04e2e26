import ArtifactIndex.Proofs.Closure.Coordination

/-!
# Coordinator and workers as a transition system

Coordinator and workers as one transition system. The coordinator starts pending revisions until the
limit is reached or none is left, waits for a letter, takes it and whatever else has arrived, and
begins anew; it stops when nothing is pending or in flight. A worker that has been started may post
its next event at any time, into the one channel that all of them share. Which pending revision is
started, and whose step comes next, is open.

The sender of a letter, the list of dispatched revisions and the letters received are records for
the proofs: no step of the coordinator looks at them.
-/

set_option autoImplicit false
set_option relaxedAutoImplicit false

namespace ArtifactIndex

namespace Coordination

/-- A revision was started, which led to these life cycles. -/
def started (c : Coordination) (revisions : Lifecycle) : Coordination :=
  let stats := { c.closure.stats with dispatched := c.closure.stats.dispatched + 1 }
  ⟨revisions, { c.closure with stats := stats }⟩

/-- Takes note of how many revisions are in flight. -/
def measured (c : Coordination) : Coordination :=
  let stats :=
    { c.closure.stats with peak := max c.closure.stats.peak c.revisions.inFlight.length }
  ⟨c.revisions, { c.closure with stats := stats }⟩

theorem ofOutcome_started {c : Coordination} {revisions : Lifecycle} (o : Outcome) :
    (c.started revisions).closure.stats.ofOutcome o = c.closure.stats.ofOutcome o := by
  cases o <;> rfl

theorem ofOutcome_measured {c : Coordination} (o : Outcome) :
    c.measured.closure.stats.ofOutcome o = c.closure.stats.ofOutcome o := by
  cases o <;> rfl

end Coordination

namespace Protocol

/-- Where the coordinator stands. -/
inductive Phase where
  /-- About to look whether anything is left. -/
  | checking
  /-- Starts revisions. -/
  | filling
  /-- Blocked until there is a letter. -/
  | waiting
  /-- Takes the letters that are there without blocking. -/
  | draining
  /-- Has left the loop. -/
  | ended
  deriving DecidableEq

structure Letter where
  sender : Revision
  event : Event
  deriving DecidableEq

structure State where
  phase : Phase
  coordination : Coordination
  dispatched : List Revision
  /-- What each worker has still to send. -/
  owed : Revision → List Event
  /-- Posted and not yet taken, the oldest first. -/
  channel : List Letter
  received : List Letter

/-! ### Letters of one sender -/

def eventsFrom (r : Revision) (letters : List Letter) : List Event :=
  (letters.filter fun l ↦ l.sender = r).map Letter.event

@[simp] theorem eventsFrom_nil (r : Revision) : eventsFrom r [] = [] :=
  rfl

@[simp] theorem eventsFrom_append (r : Revision) (letters more : List Letter) :
    eventsFrom r (letters ++ more) = eventsFrom r letters ++ eventsFrom r more := by
  simp [eventsFrom]

theorem eventsFrom_cons (r : Revision) (l : Letter) (letters : List Letter) :
    eventsFrom r (l :: letters) =
      if l.sender = r then l.event :: eventsFrom r letters else eventsFrom r letters := by
  by_cases h : l.sender = r <;> simp [eventsFrom, h]

theorem event_mem_eventsFrom {l : Letter} {letters : List Letter} (h : l ∈ letters) :
    l.event ∈ eventsFrom l.sender letters :=
  List.mem_map_of_mem (List.mem_filter.2 ⟨h, by simp⟩)

theorem mem_eventsFrom {r : Revision} {e : Event} {letters : List Letter} :
    e ∈ eventsFrom r letters ↔ ⟨r, e⟩ ∈ letters := by
  constructor
  · intro h
    obtain ⟨l, hl, rfl⟩ := List.mem_map.1 h
    obtain ⟨hmem, hsender⟩ := List.mem_filter.1 hl
    rw [← of_decide_eq_true hsender]
    exact hmem
  · exact event_mem_eventsFrom

/-! ### Steps -/

namespace State

def revisions (s : State) : Lifecycle :=
  s.coordination.revisions

def stats (s : State) : Stats :=
  s.coordination.closure.stats

/-- After the seeds came in. Whatever was there before them is forgotten. -/
def ofSeeds (prior : Lifecycle) (seeds : List Revision) : State :=
  ⟨.checking, .ofSeeds prior seeds, [], fun _ ↦ [], [], []⟩

def start (load : Workload) (s : State) (r : Revision) (revisions : Lifecycle) : State :=
  { s with
    coordination := s.coordination.started revisions
    dispatched := s.dispatched ++ [r]
    owed := Function.update s.owed r (load.events r) }

/-- The worker of `r` posts `e` and has `rest` still to send. -/
def post (s : State) (r : Revision) (e : Event) (rest : List Event) : State :=
  { s with
    owed := Function.update s.owed r rest
    channel := s.channel ++ [⟨r, e⟩] }

/-- The coordinator takes the oldest letter and leaves `rest` in the channel. -/
def take (s : State) (l : Letter) (rest : List Letter) : State :=
  { s with
    phase := .draining
    coordination := s.coordination.apply l.event
    channel := rest
    received := s.received ++ [l] }

end State

inductive Step (load : Workload) (limit : ℕ) : State → State → Prop where
  | leave {s : State} : s.phase = .checking → s.revisions.isSettled = true →
      Step load limit s { s with phase := .ended }
  | enter {s : State} : s.phase = .checking → s.revisions.isSettled = false →
      Step load limit s { s with phase := .filling }
  | start {s : State} {r : Revision} {revisions : Lifecycle} : s.phase = .filling →
      s.revisions.start? limit r = some revisions →
      Step load limit s (s.start load r revisions)
  | filled {s : State} : s.phase = .filling → (∀ r, s.revisions.start? limit r = none) →
      Step load limit s { s with phase := .waiting, coordination := s.coordination.measured }
  | receive {s : State} {l : Letter} {rest : List Letter} : s.phase = .waiting →
      s.channel = l :: rest → Step load limit s (s.take l rest)
  | drain {s : State} {l : Letter} {rest : List Letter} : s.phase = .draining →
      s.channel = l :: rest → Step load limit s (s.take l rest)
  | drained {s : State} : s.phase = .draining → s.channel = [] →
      Step load limit s { s with phase := .checking }
  | post {s : State} {r : Revision} {e : Event} {rest : List Event} : s.owed r = e :: rest →
      Step load limit s (s.post r e rest)

/-- A run from `first` to a last state, with every state on the way, the latest in front. -/
inductive Run (load : Workload) (limit : ℕ) (first : State) : List State → State → Prop where
  | refl : Run load limit first [first] first
  | step {visited : List State} {s t : State} : Run load limit first visited s →
      Step load limit s t → Run load limit first (t :: visited) t

/-- What holds at first and survives every step holds along every run. -/
theorem Run.preserves {load : Workload} {limit : ℕ} {first s : State} {visited : List State}
    {motive : State → Prop} (hrun : Run load limit first visited s) (hfirst : motive first)
    (hstep : ∀ s t, motive s → Step load limit s t → motive t) : motive s := by
  induction hrun with
  | refl => exact hfirst
  | step _ hs ih => exact hstep _ _ ih hs

/-! ### What a step leaves alone -/

namespace State

/-- What of a worker's events the coordinator has not taken yet. -/
def outstanding (s : State) (r : Revision) : List Event :=
  eventsFrom r s.channel ++ s.owed r

variable {load : Workload} {s : State} {r x : Revision} {e : Event} {rest : List Event}

theorem outstanding_post (h : s.owed r = e :: rest) :
    (s.post r e rest).outstanding x = s.outstanding x := by
  by_cases hx : x = r
  · subst x
    simp [outstanding, post, eventsFrom_cons, h]
  · simp [outstanding, post, eventsFrom_cons, Ne.symm hx, hx]

theorem outstanding_start_self {revisions : Lifecycle} (h : s.outstanding r = []) :
    (s.start load r revisions).outstanding r = load.events r := by
  have hchannel : eventsFrom r s.channel = [] := (List.append_eq_nil_iff.1 h).1
  simp [outstanding, start, hchannel]

theorem outstanding_start_of_ne {revisions : Lifecycle} (h : x ≠ r) :
    (s.start load r revisions).outstanding x = s.outstanding x := by
  simp [outstanding, start, h]

theorem outstanding_take {l : Letter} {letters : List Letter} (h : s.channel = l :: letters) :
    s.outstanding x =
      if l.sender = x then l.event :: (s.take l letters).outstanding x
      else (s.take l letters).outstanding x := by
  simp only [outstanding, take, h, eventsFrom_cons]
  split_ifs <;> rfl

theorem outstanding_take_of_ne {l : Letter} {letters : List Letter} (h : s.channel = l :: letters)
    (hx : x ≠ l.sender) : (s.take l letters).outstanding x = s.outstanding x := by
  rw [outstanding_take h, if_neg (Ne.symm hx)]

/-- Taking a letter moves it from what is outstanding to what is received. -/
theorem received_append_outstanding_take {l : Letter} {letters : List Letter}
    (h : s.channel = l :: letters) :
    eventsFrom x (s.take l letters).received ++ (s.take l letters).outstanding x =
      eventsFrom x s.received ++ s.outstanding x := by
  rw [outstanding_take h]
  simp only [take, eventsFrom_append, eventsFrom_cons, eventsFrom_nil]
  split_ifs <;> simp

end State
end Protocol
end ArtifactIndex
