import ArtifactIndex.Proofs.Closure.Safety
import Mathlib.Algebra.BigOperators.Group.Finset.Piecewise
import Mathlib.Algebra.Order.BigOperators.Group.Finset

/-!
# Completion of the protocol

How a run ends. The books are a tally of the letters received (`Tallied`), only revisions that some
seed leads to become known (`Run.reaches`), and every step makes `State.potential` less, so that
no run is longer than the potential at its start. When no step is left all letters have been
received, the known revisions are closed under discovery, and the books say what the workers of all
reachable revisions reported.
-/

set_option autoImplicit false
set_option relaxedAutoImplicit false

namespace ArtifactIndex.Protocol

open Finset

variable {load : Workload} {limit : ℕ} {s t : State} {r : Revision} {seeds : List Revision}

/-! ### The books and the letters -/

structure Tallied (seeds : List Revision) (s : State) : Prop where
  seeded : s.stats.seeded = seeds.toFinset.card
  dispatched : s.stats.dispatched = s.dispatched.length
  ofOutcome : ∀ o, s.stats.ofOutcome o = s.received.countP fun l ↦ l.event.endsIn o
  unbound : s.stats.unbound = s.received.countP fun l ↦ l.event.isUnbound
  nodup_resources : s.coordination.closure.resources.Nodup
  mem_resources : ∀ x, x ∈ s.coordination.closure.resources ↔
    ∃ l ∈ s.received, l.event.resource? = some x
  mem_known : ∀ r, r ∈ s.revisions.known ↔
    r ∈ seeds ∨ ∃ l ∈ s.received, l.event.discovery? = some r

theorem countP_received_take (p : Letter → Bool) (l : Letter) (rest : List Letter) :
    (s.take l rest).received.countP p = s.received.countP p + (p l).toNat := by
  simp only [State.take, List.countP_append, List.countP_singleton]
  cases p l <;> rfl

theorem exists_received_take {p : Letter → Prop} {l : Letter} {rest : List Letter} :
    (∃ m ∈ (s.take l rest).received, p m) ↔ (∃ m ∈ s.received, p m) ∨ p l := by
  simp [State.take, or_and_right, exists_or]

theorem tallied_ofSeeds (prior : Lifecycle) (seeds : List Revision) :
    Tallied seeds (State.ofSeeds prior seeds) where
  seeded := Lifecycle.seed_empty_fst seeds
  dispatched := rfl
  ofOutcome := fun o ↦ by cases o <;> rfl
  unbound := rfl
  nodup_resources := List.nodup_nil
  mem_resources := fun x ↦ by
    simp [State.ofSeeds, Coordination.ofSeeds, Closure.empty]
  mem_known := fun r ↦ by
    have hknown : r ∈ (Lifecycle.empty.seed seeds).2.known ↔
        r ∈ seeds ∨ r ∈ Lifecycle.empty.known :=
      Lifecycle.mem_known_seed
    change r ∈ (Lifecycle.empty.seed seeds).2.known ↔ r ∈ seeds ∨ ∃ l ∈ [], _
    rw [hknown]
    simp [Lifecycle.known, Lifecycle.empty]

theorem Tallied.start (h : Tallied seeds s) {revisions : Lifecycle}
    (hstart : s.revisions.start? limit r = some revisions) :
    Tallied seeds (s.start load r revisions) where
  seeded := h.seeded
  dispatched := by
    change s.stats.dispatched + 1 = (s.dispatched ++ [r]).length
    rw [h.dispatched, List.length_append, List.length_singleton]
  ofOutcome := fun o ↦ (Coordination.ofOutcome_started o).trans (h.ofOutcome o)
  unbound := h.unbound
  nodup_resources := h.nodup_resources
  mem_resources := h.mem_resources
  mem_known := fun x ↦ by
    change x ∈ revisions.known ↔ _
    rw [(Lifecycle.known_start_perm hstart).mem_iff]
    exact h.mem_known x

theorem Tallied.take (h : Tallied seeds s) (l : Letter) (rest : List Letter) :
    Tallied seeds (s.take l rest) where
  seeded := Coordination.seeded_apply.trans h.seeded
  dispatched := Coordination.dispatched_apply.trans h.dispatched
  ofOutcome := fun o ↦ by
    rw [countP_received_take, ← h.ofOutcome o]
    exact Coordination.ofOutcome_apply o
  unbound := by
    rw [countP_received_take, ← h.unbound]
    exact Coordination.unbound_apply
  nodup_resources := Coordination.nodup_resources_apply h.nodup_resources
  mem_resources := fun x ↦ by
    rw [exists_received_take, ← h.mem_resources x]
    exact Coordination.mem_resources_apply
  mem_known := fun x ↦ by
    rw [exists_received_take, ← or_assoc, ← h.mem_known x]
    exact Coordination.mem_known_apply

theorem Tallied.step (h : Tallied seeds s) (hstep : Step load limit s t) : Tallied seeds t := by
  cases hstep with
  | leave => exact ⟨h.1, h.2, h.3, h.4, h.5, h.6, h.7⟩
  | enter => exact ⟨h.1, h.2, h.3, h.4, h.5, h.6, h.7⟩
  | start _ hstart => exact h.start hstart
  | filled =>
    exact ⟨h.1, h.2, fun o ↦ (Coordination.ofOutcome_measured o).trans (h.3 o), h.4, h.5, h.6, h.7⟩
  | receive => exact h.take _ _
  | drain => exact h.take _ _
  | drained => exact ⟨h.1, h.2, h.3, h.4, h.5, h.6, h.7⟩
  | post => exact ⟨h.1, h.2, h.3, h.4, h.5, h.6, h.7⟩

theorem Run.tallied {prior : Lifecycle} {visited : List State}
    (hrun : Run load limit (State.ofSeeds prior seeds) visited s) : Tallied seeds s :=
  hrun.preserves (tallied_ofSeeds prior seeds) fun _ _ ↦ Tallied.step

/-! ### Only what the seeds lead to becomes known -/

theorem Sound.mem_known_of_dispatched (h : Sound load limit s) (hr : r ∈ s.dispatched) :
    r ∈ s.revisions.known :=
  Lifecycle.mem_known.2 (Or.inr (h.mem_dispatched.1 hr))

theorem Run.reaches {prior : Lifecycle} {visited : List State}
    (hrun : Run load limit (State.ofSeeds prior seeds) visited s) :
    ∀ r ∈ s.revisions.known, load.Reaches seeds r := by
  have htake : ∀ (s : State) (l : Letter) (rest : List Letter), Sound load limit s →
      s.channel = l :: rest → (∀ r ∈ s.revisions.known, load.Reaches seeds r) →
        ∀ r ∈ (s.take l rest).revisions.known, load.Reaches seeds r := by
    intro s l rest hsound hchannel ih r hr
    rcases Coordination.mem_known_apply.1 hr with hold | hnew
    · exact ih r hold
    · have hl : l ∈ s.channel := hchannel ▸ List.mem_cons_self
      have hsender := hsound.mem_dispatched.2 (Or.inl (hsound.sender_mem_inFlight hl))
      exact .discovery (ih _ (hsound.mem_known_of_dispatched hsender))
        (hsound.event_mem_events (List.mem_append_right _ hl)) hnew
  induction hrun with
  | refl =>
    intro r hr
    rcases ((tallied_ofSeeds prior seeds).mem_known r).1 hr with hseed | ⟨l, hl, -⟩
    · exact .seed hseed
    · exact absurd hl List.not_mem_nil
  | step hbefore hstep ih =>
    cases hstep with
    | leave => exact ih
    | enter => exact ih
    | start _ hstart =>
      exact fun r hr ↦ ih r ((Lifecycle.known_start_perm hstart).mem_iff.1 hr)
    | filled => exact ih
    | receive _ hchannel => exact htake _ _ _ hbefore.sound hchannel ih
    | drain _ hchannel => exact htake _ _ _ hbefore.sound hchannel ih
    | drained => exact ih
    | post => exact ih

/-! ### Every run is finite -/

/-- The steps a revision is still good for until its letters are taken, less those of the letters in
the channel. -/
def State.weight (load : Workload) (s : State) (r : Revision) : ℕ :=
  if r ∈ s.dispatched then 2 * (s.owed r).length else 2 * (load.events r).length + 1

/-- Between two letters the coordinator goes from `draining` down to `waiting`. -/
def Phase.rank : Phase → ℕ
  | .draining => 4
  | .checking => 3
  | .filling => 2
  | .waiting => 1
  | .ended => 0

def State.potential (load : Workload) (reach : Finset Revision) (s : State) : ℕ :=
  4 * (∑ r ∈ reach, s.weight load r + s.channel.length) + s.phase.rank

theorem sum_weight_add {reach : Finset Revision} {k : ℕ} (hr : r ∈ reach)
    (hself : t.weight load r + k = s.weight load r)
    (hother : ∀ x, x ≠ r → t.weight load x = s.weight load x) :
    ∑ x ∈ reach, t.weight load x + k = ∑ x ∈ reach, s.weight load x := by
  have hrest : ∑ x ∈ reach.erase r, t.weight load x = ∑ x ∈ reach.erase r, s.weight load x :=
    sum_congr rfl fun x hx ↦ hother x (ne_of_mem_erase hx)
  rw [← add_sum_erase reach _ hr, ← add_sum_erase reach _ hr, hrest]
  omega

theorem weight_start (h : Sound load limit s) {revisions : Lifecycle}
    (hstart : s.revisions.start? limit r = some revisions) {reach : Finset Revision}
    (hr : r ∈ reach) :
    ∑ x ∈ reach, (s.start load r revisions).weight load x + 1 =
      ∑ x ∈ reach, s.weight load x := by
  have hfresh : r ∉ s.dispatched :=
    h.not_mem_dispatched_of_pending (Lifecycle.start?_eq_some_iff.1 hstart).2.1
  refine sum_weight_add hr ?_ fun x hx ↦ ?_
  · simp [State.weight, State.start, hfresh]
  · simp [State.weight, State.start, hx]

theorem weight_post (h : Sound load limit s) {e : Event} {rest : List Event}
    (howed : s.owed r = e :: rest) {reach : Finset Revision} (hr : r ∈ reach) :
    ∑ x ∈ reach, (s.post r e rest).weight load x + 2 = ∑ x ∈ reach, s.weight load x := by
  have hdispatched : r ∈ s.dispatched :=
    h.mem_dispatched_of_outstanding (by simp [State.outstanding, howed])
  refine sum_weight_add hr ?_ fun x hx ↦ ?_
  · simp only [State.weight, State.post, if_pos hdispatched, howed, Function.update_self,
      List.length_cons]
    omega
  · simp [State.weight, State.post, hx]

theorem potential_take {reach : Finset Revision} {l : Letter} {rest : List Letter}
    (hchannel : s.channel = l :: rest) (hphase : 0 < s.phase.rank) :
    (s.take l rest).potential load reach < s.potential load reach := by
  have hweight : ∀ x, (s.take l rest).weight load x = s.weight load x := fun x ↦ rfl
  have hrank : (s.take l rest).phase.rank = 4 := rfl
  have hrest : (s.take l rest).channel.length = rest.length := rfl
  simp only [State.potential, hweight, hrank, hrest, hchannel, List.length_cons]
  omega

theorem potential_lt (h : Sound load limit s) {reach : Finset Revision}
    (hreach : ∀ r ∈ s.revisions.known, r ∈ reach) (hstep : Step load limit s t) :
    t.potential load reach < s.potential load reach := by
  cases hstep with
  | leave hphase => simp [State.potential, State.weight, hphase, Phase.rank]
  | enter hphase => simp [State.potential, State.weight, hphase, Phase.rank]
  | @start r revisions hphase hstart =>
    have hpending := (Lifecycle.start?_eq_some_iff.1 hstart).2.1
    have hsum := weight_start h hstart (hreach r (Lifecycle.mem_known.2 (Or.inl hpending)))
    simp only [State.potential, ← hsum]
    simp only [State.start]
    omega
  | filled hphase => simp [State.potential, State.weight, hphase, Phase.rank]
  | receive hphase hchannel => exact potential_take hchannel (by simp [hphase, Phase.rank])
  | drain hphase hchannel => exact potential_take hchannel (by simp [hphase, Phase.rank])
  | drained hphase => simp [State.potential, State.weight, hphase, Phase.rank]
  | @post r e rest howed =>
    have hdispatched := h.mem_dispatched_of_outstanding (r := r)
      (by simp [State.outstanding, howed])
    have hsum := weight_post h howed (hreach r (h.mem_known_of_dispatched hdispatched))
    simp only [State.potential, ← hsum]
    simp only [State.post, List.length_append, List.length_singleton]
    omega

/-- A run has no more steps than the potential it started with. -/
theorem Run.length_add_potential_le {prior : Lifecycle} {visited : List State}
    {reach : Finset Revision} (hreach : ∀ r, load.Reaches seeds r → r ∈ reach)
    (hrun : Run load limit (State.ofSeeds prior seeds) visited s) :
    visited.length + s.potential load reach ≤
      (State.ofSeeds prior seeds).potential load reach + 1 := by
  induction hrun with
  | refl => rw [List.length_singleton, add_comm]
  | step hbefore hstep ih =>
    have hless := potential_lt hbefore.sound
      (fun r hr ↦ hreach r (hbefore.reaches r hr)) hstep
    rw [List.length_cons]
    omega

/-! ### The books at the end -/

/-- The letters of a kind, counted sender by sender. -/
theorem countP_eq_sum (p : Event → Bool) {reach : Finset Revision} {letters : List Letter}
    (hsenders : ∀ l ∈ letters, l.sender ∈ reach) :
    letters.countP (fun l ↦ p l.event) = ∑ r ∈ reach, (eventsFrom r letters).countP p := by
  induction letters with
  | nil => simp
  | cons l letters ih =>
    have hcount : ∀ r, (eventsFrom r (l :: letters)).countP p =
        (eventsFrom r letters).countP p +
          if l.sender = r then (if p l.event then 1 else 0) else 0 := by
      intro r
      rw [eventsFrom_cons]
      by_cases hr : l.sender = r
      · rw [if_pos hr, if_pos hr, List.countP_cons]
      · rw [if_neg hr, if_neg hr, add_zero]
    rw [List.countP_cons, ih fun m hm ↦ hsenders m (List.mem_cons_of_mem _ hm)]
    simp only [hcount, sum_add_distrib, sum_ite_eq]
    rw [if_pos (hsenders l List.mem_cons_self)]

/-- The books say what the workers of the revisions `reach` sent, for these seeds. -/
structure Summarizes (load : Workload) (seeds : List Revision) (reach : Finset Revision)
    (c : Closure) : Prop where
  nodup_resources : c.resources.Nodup
  mem_resources : ∀ x, x ∈ c.resources ↔ ∃ r ∈ reach, load.resource r = some x
  seeded : c.stats.seeded = seeds.toFinset.card
  dispatched : c.stats.dispatched = reach.card
  indexed : c.stats.indexed = #{r ∈ reach | load.outcome r = .indexed}
  missing : c.stats.missing = #{r ∈ reach | load.outcome r = .missing}
  failed : c.stats.failed = #{r ∈ reach | load.outcome r = .failed}
  aborted : c.stats.aborted = #{r ∈ reach | load.outcome r = .aborted}
  total : c.stats.indexed + c.stats.missing + c.stats.failed + c.stats.aborted = reach.card
  unbound : c.stats.unbound = ∑ r ∈ reach, (load.events r).countP Event.isUnbound

/-- Every revision has one of the four outcomes. -/
theorem card_outcomes (load : Workload) (reach : Finset Revision) :
    #{r ∈ reach | load.outcome r = .indexed} + #{r ∈ reach | load.outcome r = .missing} +
      #{r ∈ reach | load.outcome r = .failed} + #{r ∈ reach | load.outcome r = .aborted} =
        reach.card := by
  simp only [card_filter, ← sum_add_distrib]
  rw [card_eq_sum_ones]
  refine sum_congr rfl fun r _ ↦ ?_
  cases load.outcome r <;> rfl

theorem Tallied.summarizes (h : Tallied seeds s) (hsound : Sound load limit s)
    (hnil : ∀ r, s.outstanding r = []) {reach : Finset Revision}
    (hreach : ∀ r, r ∈ reach ↔ r ∈ s.dispatched) :
    Summarizes load seeds reach s.coordination.closure := by
  have hall : ∀ r ∈ reach, eventsFrom r s.received = load.events r := by
    intro r hr
    rw [← hsound.events_eq ((hreach r).1 hr), hnil r, List.append_nil]
  have hcount : ∀ p : Event → Bool, s.received.countP (fun l ↦ p l.event) =
      ∑ r ∈ reach, (load.events r).countP p := by
    intro p
    rw [countP_eq_sum p fun l hl ↦ (hreach _).2 (hsound.sender_mem_dispatched hl)]
    exact sum_congr rfl fun r hr ↦ by rw [hall r hr]
  have houtcome : ∀ o, s.stats.ofOutcome o = #{r ∈ reach | load.outcome r = o} := by
    intro o
    rw [h.ofOutcome o, hcount (Event.endsIn o), card_filter]
    exact sum_congr rfl fun r _ ↦ Workload.countP_endsIn o
  have hcard : s.dispatched.toFinset = reach := by
    ext r
    rw [List.mem_toFinset, hreach r]
  constructor
  case nodup_resources => exact h.nodup_resources
  case mem_resources =>
    intro x
    rw [h.mem_resources x]
    constructor
    · rintro ⟨l, hl, hx⟩
      refine ⟨l.sender, (hreach _).2 (hsound.sender_mem_dispatched hl), ?_⟩
      exact Workload.resource_eq_some_iff.2
        ⟨l.event, hsound.event_mem_events (List.mem_append_left _ hl), hx⟩
    · rintro ⟨r, hr, hx⟩
      obtain ⟨e, he, hx⟩ := Workload.resource_eq_some_iff.1 hx
      rw [← hall r hr] at he
      exact ⟨⟨r, e⟩, mem_eventsFrom.1 he, hx⟩
  case seeded => exact h.seeded
  case dispatched =>
    rw [← hcard, List.toFinset_card_of_nodup hsound.nodup_dispatched]
    exact h.dispatched
  case indexed => exact houtcome .indexed
  case missing => exact houtcome .missing
  case failed => exact houtcome .failed
  case aborted => exact houtcome .aborted
  case total =>
    rw [← card_outcomes load reach, ← houtcome, ← houtcome, ← houtcome, ← houtcome]
    rfl
  case unbound => exact h.unbound.trans (hcount Event.isUnbound)

/-- In the end the dispatched revisions are those the seeds lead to. -/
theorem Run.mem_dispatched_iff {prior : Lifecycle} {visited : List State}
    (hrun : Run load limit (State.ofSeeds prior seeds) visited s) (hended : s.phase = .ended) :
    r ∈ s.dispatched ↔ load.Reaches seeds r := by
  have hsound := hrun.sound
  have htallied := hrun.tallied
  have hsettled := Lifecycle.isSettled_iff.1 (hrun.phased.settled hended)
  have hknown : ∀ x, x ∈ s.revisions.known ↔ x ∈ s.dispatched := by
    intro x
    rw [Lifecycle.mem_known, hsound.mem_dispatched, hsettled.1]
    simp
  constructor
  · intro hr
    exact hrun.reaches r ((hknown r).2 hr)
  · intro hr
    induction hr with
    | seed hseed => exact (hknown _).1 ((htallied.mem_known _).2 (Or.inl hseed))
    | @discovery r d e _ he hd ih =>
      have hnil := hsound.outstanding_eq_nil hrun.phased hended r
      have hevents := hsound.events_eq ih
      rw [hnil, List.append_nil] at hevents
      rw [← hevents] at he
      exact (hknown d).1 ((htallied.mem_known d).2 (Or.inr ⟨_, mem_eventsFrom.1 he, hd⟩))

end ArtifactIndex.Protocol
