import ArtifactIndex.Proofs.Closure.Completion

/-!
# The resolver as a schedule of the protocol

The resolver is one of the schedules of the protocol. A round of `Resolver.run` fills up, lets the
worker of the revision longest in flight post all of its events and takes them, so it is a run of
steps between two states in which every worker has still all or nothing to send (`run_round`). Each
round finishes one revision; with a budget for every reachable one the resolver gets to the end
(`exists_run_eq_some`).
-/

set_option autoImplicit false
set_option relaxedAutoImplicit false

namespace ArtifactIndex

namespace Coordination

variable {c : Coordination} {e : Event}

theorem inFlight_apply_of_isReport (h : e.isReport = true) :
    (c.apply e).revisions.inFlight = c.revisions.inFlight := by
  cases e with
  | discovered source revision => exact Lifecycle.inFlight_offer
  | unbound source dependency => rfl
  | finished revision outcome resource => cases h

theorem done_apply_of_isReport (h : e.isReport = true) :
    (c.apply e).revisions.done = c.revisions.done := by
  cases e with
  | discovered source revision => exact Lifecycle.done_offer
  | unbound source dependency => rfl
  | finished revision outcome resource => cases h

theorem foldl_apply_reports {reports : List Event} (h : ∀ e ∈ reports, e.isReport = true) :
    (reports.foldl apply c).revisions.inFlight = c.revisions.inFlight ∧
      (reports.foldl apply c).revisions.done = c.revisions.done := by
  induction reports generalizing c with
  | nil => exact ⟨rfl, rfl⟩
  | cons e reports ih =>
    obtain ⟨hflight, hdone⟩ := @ih (c.apply e) fun x hx ↦ h x (List.mem_cons_of_mem _ hx)
    have he := h e List.mem_cons_self
    exact ⟨hflight.trans (inFlight_apply_of_isReport he), hdone.trans (done_apply_of_isReport he)⟩

/-- The events of a worker in flight take its revision to those that are done. -/
theorem done_foldl_events {load : Workload} {r : Revision} (h : r ∈ c.revisions.inFlight) :
    ((load.events r).foldl apply c).revisions.done = c.revisions.done ++ [r] := by
  obtain ⟨hflight, hdone⟩ := @foldl_apply_reports c _ (load.isReport_of_mem r)
  rw [Workload.events, List.foldl_append, List.foldl_cons, List.foldl_nil, Workload.closing, apply]
  rw [Lifecycle.finish_of_mem (by rw [hflight]; exact h), hdone]

end Coordination

namespace Protocol

variable {load : Workload} {limit : ℕ} {first s : State} {visited : List State} {r : Revision}

/-! ### Stretches of a run -/

/-- Between two rounds a worker has sent nothing or everything. -/
def Unbroken (load : Workload) (s : State) : Prop :=
  ∀ r, s.owed r = [] ∨ s.owed r = load.events r

theorem Run.fill {n : ℕ} (hrun : Run load limit first visited s) (hphase : s.phase = .filling)
    (hwhole : Unbroken load s) :
    ∃ visited t, Run load limit first visited t ∧ t.phase = .filling ∧ t.channel = s.channel ∧
      Unbroken load t ∧ t.revisions = (Lifecycle.startAll.go limit n s.revisions).2 ∧
      t.coordination.closure =
        { s.coordination.closure with
          stats := { s.stats with
            dispatched := s.stats.dispatched +
              (Lifecycle.startAll.go limit n s.revisions).1.length } } := by
  induction n generalizing visited s with
  | zero => exact ⟨visited, s, hrun, hphase, rfl, hwhole, rfl, rfl⟩
  | succ n ih =>
    rw [Lifecycle.startAll.go]
    split
    case h_1 => exact ⟨visited, s, hrun, hphase, rfl, hwhole, rfl, rfl⟩
    case h_2 r revisions hsome =>
      have hstart := Lifecycle.start?_of_startNext hsome
      have hnext : Unbroken load (s.start load r revisions) := by
        intro x
        by_cases hx : x = r
        · subst x
          exact Or.inr (by simp [State.start])
        · simpa [State.start, hx] using hwhole x
      obtain ⟨visited, t, hrun, hphase, hchannel, hwhole, hrevisions, hclosure⟩ :=
        ih (hrun.step (.start hphase hstart)) hphase hnext
      refine ⟨visited, t, hrun, hphase, hchannel, hwhole, hrevisions, hclosure.trans ?_⟩
      simp only [List.length_cons]
      simp only [State.start, State.stats, State.revisions, Coordination.started, add_assoc,
        add_comm 1]

theorem Run.postAll (hrun : Run load limit first visited s) {events : List Event}
    (howed : s.owed r = events) :
    ∃ visited, Run load limit first visited
      { s with
        owed := Function.update s.owed r []
        channel := s.channel ++ events.map (Letter.mk r) } := by
  induction events generalizing visited s with
  | nil =>
    refine ⟨visited, ?_⟩
    rw [← howed, Function.update_eq_self, howed, List.map_nil, List.append_nil]
    exact hrun
  | cons e rest ih =>
    have hposted : (s.post r e rest).owed r = rest := by simp [State.post]
    obtain ⟨visited, hrun⟩ := ih (hrun.step (.post howed)) hposted
    refine ⟨visited, ?_⟩
    simpa [State.post] using hrun

theorem Run.drainAll (hrun : Run load limit first visited s) (hphase : s.phase = .draining)
    {letters : List Letter} (hchannel : s.channel = letters) :
    ∃ visited t, Run load limit first visited t ∧ t.phase = .draining ∧ t.channel = [] ∧
      t.owed = s.owed ∧
      t.coordination = (letters.map Letter.event).foldl Coordination.apply s.coordination := by
  induction letters generalizing visited s with
  | nil => exact ⟨visited, s, hrun, hphase, hchannel, rfl, rfl⟩
  | cons l letters ih => exact ih (hrun.step (.drain hphase hchannel)) rfl rfl

/-! ### Rounds -/

section Rounds

variable {ρ : Type} {repository : Repository ρ} {builder : Builder ρ} {prior : Lifecycle}
  {seeds : List Revision}

/-- Where a round begins and ends. -/
structure Resting (load : Workload) (s : State) : Prop where
  checking : s.phase = .checking
  quiet : s.channel = []
  unbroken : Unbroken load s

/-- Filling up, with the count and the peak noted, is one dispatch of the books. -/
theorem Run.dispatch (hrun : Run load limit first visited s) (hrest : Resting load s)
    (hbusy : s.revisions.isSettled = false) :
    ∃ visited t, Run load limit first visited t ∧ t.phase = .waiting ∧ t.channel = [] ∧
      Unbroken load t ∧ t.coordination = s.coordination.dispatch limit := by
  obtain ⟨visited, t, hrun, hphase, hchannel, hwhole, hrevisions, hclosure⟩ :=
    (hrun.step (.enter hrest.checking hbusy)).fill rfl hrest.unbroken
      (n := s.revisions.pending.length)
  have hfull : t.revisions.IsFull limit := hrevisions ▸ Lifecycle.isFull_go le_rfl
  refine ⟨_, _, hrun.step (.filled hphase (Lifecycle.isFull_iff.1 hfull)), rfl,
    hchannel.trans hrest.quiet, hwhole, ?_⟩
  have hbooks : t.coordination = ⟨t.revisions, t.coordination.closure⟩ := rfl
  change t.coordination.measured = _
  rw [hbooks, hrevisions, hclosure]
  rfl

/-- A round of the resolver is a stretch of a run, and takes one more revision to its end. -/
theorem Run.round (hrun : Run load limit (.ofSeeds prior seeds) visited s) (hlimit : 0 < limit)
    (hrest : Resting load s) (hbusy : s.revisions.isSettled = false)
    (hwork : ∀ r, load.Reaches seeds r →
      ∀ w, (repository.process builder r w).events = load.events r) (w : World ρ) :
    ∃ visited t, Run load limit (.ofSeeds prior seeds) visited t ∧ Resting load t ∧
      t.coordination = (Resolver.round limit repository builder s.coordination w).1 ∧
      t.revisions.done.length = s.revisions.done.length + 1 := by
  obtain ⟨visited, u, hrun, hwaiting, hchannel, hwhole, hdispatch⟩ :=
    hrun.dispatch hrest hbusy
  obtain ⟨r, others, hflight⟩ :=
    List.exists_cons_of_ne_nil (hrun.phased.inFlight_ne_nil hlimit hwaiting)
  have hr : r ∈ u.revisions.inFlight := hflight ▸ List.mem_cons_self
  have hreaches : load.Reaches seeds r :=
    hrun.reaches r (Lifecycle.mem_known.2 (Or.inr (Or.inl hr)))
  have howed : u.owed r = load.events r := by
    have hmore := (hrun.sound.inFlight_iff r).1 hr
    rw [State.outstanding, hchannel, eventsFrom_nil, List.nil_append] at hmore
    exact (hwhole r).resolve_left hmore
  -- The worker of `r` posts everything, and the coordinator takes the first letter, then the rest.
  obtain ⟨visited, hrun⟩ := hrun.postAll howed
  obtain ⟨e, rest, hevents⟩ := List.exists_cons_of_ne_nil (@Workload.events_ne_nil load r)
  rw [hchannel, List.nil_append, hevents, List.map_cons] at hrun
  have htaken := hrun.step (.receive hwaiting rfl)
  obtain ⟨visited, t, hrun, hdraining, hempty, hstill, hcoordination⟩ :=
    @Run.drainAll _ _ _ _ _ htaken rfl (rest.map (Letter.mk r)) rfl
  have hmap : (rest.map (Letter.mk r)).map Letter.event = rest := by
    rw [List.map_map]
    exact List.map_id rest
  have hfold : t.coordination = (load.events r).foldl Coordination.apply
      (s.coordination.dispatch limit) := by
    rw [hcoordination, hmap, ← hdispatch, hevents]
    rfl
  refine ⟨_, _, hrun.step (.drained hdraining hempty), ⟨rfl, hempty, ?_⟩, ?_, ?_⟩
  · intro x
    change t.owed x = [] ∨ t.owed x = load.events x
    rw [hstill]
    by_cases hx : x = r
    · subst x
      exact Or.inl (by simp [State.take])
    · simpa [State.take, hx] using hwhole x
  · have hnext : (s.coordination.dispatch limit).revisions.inFlight = r :: others :=
      hdispatch ▸ hflight
    change t.coordination = _
    rw [hfold, Resolver.round]
    simp only [hnext, hwork r hreaches w]
  · change t.coordination.revisions.done.length = _
    have hin : r ∈ (s.coordination.dispatch limit).revisions.inFlight := hdispatch ▸ hr
    rw [hfold, Coordination.done_foldl_events hin, List.length_append, List.length_singleton]
    change (Lifecycle.startAll.go limit _ s.revisions).2.done.length + 1 = _
    rw [Lifecycle.done_go]

/-- With a budget for every revision that is not done, the resolver comes to the end, and what it
found there is what some run of the protocol found. -/
theorem Run.exists_run_eq_some {budget : ℕ}
    (hrun : Run load limit (.ofSeeds prior seeds) visited s) (hlimit : 0 < limit)
    (hrest : Resting load s)
    (hwork : ∀ r, load.Reaches seeds r →
      ∀ w, (repository.process builder r w).events = load.events r)
    {reach : Finset Revision} (hreach : ∀ r, load.Reaches seeds r → r ∈ reach)
    (hbudget : reach.card ≤ budget + s.revisions.done.length) (w : World ρ) :
    ∃ visited t after, Run load limit (.ofSeeds prior seeds) visited t ∧ t.phase = .ended ∧
      Resolver.run limit repository builder budget s.coordination w =
        (some t.coordination, after) := by
  induction budget generalizing visited s w with
  | zero =>
    have hsettled : s.revisions.isSettled = true := by
      have hsubset : s.revisions.known.toFinset ⊆ reach := fun r hr ↦
        hreach r (hrun.reaches r (List.mem_toFinset.1 hr))
      have hfew := Finset.card_le_card hsubset
      rw [List.toFinset_card_of_nodup hrun.sound.nodup_known, Lifecycle.known,
        List.length_append, List.length_append] at hfew
      refine Lifecycle.isSettled_iff.2
        ⟨List.length_eq_zero_iff.1 ?_, List.length_eq_zero_iff.1 ?_⟩
      · omega
      · omega
    refine ⟨_, _, w, hrun.step (.leave hrest.checking hsettled), rfl, ?_⟩
    rw [Resolver.run]
    exact if_pos hsettled
  | succ budget ih =>
    cases hsettled : s.revisions.isSettled with
    | true =>
      refine ⟨_, _, w, hrun.step (.leave hrest.checking hsettled), rfl, ?_⟩
      rw [Resolver.run]
      exact if_pos hsettled
    | false =>
      obtain ⟨visited, t, hrun, hrest, hround, hdone⟩ :=
        hrun.round hlimit hrest hsettled hwork w
      have hbefore : ¬ s.coordination.revisions.isSettled = true := Bool.eq_false_iff.1 hsettled
      have hnext := ih hrun hrest (by omega)
        (Resolver.round limit repository builder s.coordination w).2
      rw [hround] at hnext
      rw [Resolver.run, if_neg hbefore]
      exact hnext

/-- A settled run of the resolver is its answer, and leaves all its sets empty. -/
theorem resolve_of_run {resolver : Resolver} {budget : ℕ} {c : Coordination} {w after : World ρ}
    (hrun : Resolver.run resolver.maxParallel repository builder budget
      (.ofSeeds resolver.revisions seeds) w = (some c, after))
    (hsettled : c.revisions.isSettled = true) :
    resolver.resolve repository builder budget seeds w =
      (.ok c.closure, ⟨resolver.maxParallel, .empty⟩, after) := by
  obtain ⟨hpending, hinFlight⟩ := Lifecycle.isSettled_iff.1 hsettled
  have hempty : c.revisions.clearDone = Lifecycle.empty := by
    rw [Lifecycle.clearDone, Lifecycle.empty, Lifecycle.mk.injEq]
    exact ⟨hpending, hinFlight, rfl⟩
  unfold Resolver.resolve
  simp only [hrun, hempty]

end Rounds

end Protocol
end ArtifactIndex
