import ArtifactIndex.Proofs.Closure.Protocol

/-!
# Safety of the protocol

What holds in every state of a run. `Sound` ties the life cycle to the letters: the events of a
dispatched revision are those received, those in the channel and those still owed, in this order,
and the revision is in flight as long as the last two are not used up. `Phased` says what the
coordinator knows where it stands. From both, no run dispatches twice, exceeds the limit, closes a
revision that is not in flight, waits for nothing or leaves a letter behind.
-/

set_option autoImplicit false
set_option relaxedAutoImplicit false

namespace ArtifactIndex.Protocol

open scoped List

variable {load : Workload} {limit : ℕ} {s t : State} {r : Revision}

/-! ### The invariant -/

structure Sound (load : Workload) (limit : ℕ) (s : State) : Prop where
  nodup_known : s.revisions.known.Nodup
  dispatched_perm : s.dispatched ~ s.revisions.inFlight ++ s.revisions.done
  bounded : s.revisions.inFlight.length ≤ limit
  letters : ∀ r, eventsFrom r s.received ++ s.outstanding r =
    if r ∈ s.dispatched then load.events r else []
  inFlight_iff : ∀ r, r ∈ s.revisions.inFlight ↔ s.outstanding r ≠ []

namespace Sound

theorem mem_dispatched (h : Sound load limit s) :
    r ∈ s.dispatched ↔ r ∈ s.revisions.inFlight ∨ r ∈ s.revisions.done := by
  rw [h.dispatched_perm.mem_iff, List.mem_append]

theorem nodup_dispatched (h : Sound load limit s) : s.dispatched.Nodup :=
  h.dispatched_perm.nodup_iff.2 h.nodup_known.of_append_right

theorem nodup_inFlight (h : Sound load limit s) : s.revisions.inFlight.Nodup :=
  h.nodup_known.of_append_right.of_append_left

theorem not_mem_dispatched_of_pending (h : Sound load limit s) (hr : r ∈ s.revisions.pending) :
    r ∉ s.dispatched := by
  rw [h.dispatched_perm.mem_iff]
  exact fun hd ↦ (List.disjoint_of_nodup_append h.nodup_known) hr hd

theorem events_eq (h : Sound load limit s) (hr : r ∈ s.dispatched) :
    eventsFrom r s.received ++ s.outstanding r = load.events r := by
  rw [h.letters r, if_pos hr]

theorem eventsFrom_received_eq_nil (h : Sound load limit s) (hr : r ∉ s.dispatched) :
    eventsFrom r s.received = [] := by
  have hnil := h.letters r
  rw [if_neg hr] at hnil
  exact (List.append_eq_nil_iff.1 hnil).1

theorem mem_dispatched_of_outstanding (h : Sound load limit s) (hr : s.outstanding r ≠ []) :
    r ∈ s.dispatched :=
  h.mem_dispatched.2 (Or.inl ((h.inFlight_iff r).2 hr))

/-- The sender of a letter in the channel is in flight. -/
theorem sender_mem_inFlight (h : Sound load limit s) {l : Letter} (hl : l ∈ s.channel) :
    l.sender ∈ s.revisions.inFlight := by
  refine (h.inFlight_iff _).2 fun hnil ↦ ?_
  have hmem := event_mem_eventsFrom hl
  rw [(List.append_eq_nil_iff.1 hnil).1] at hmem
  exact List.not_mem_nil hmem

theorem sender_mem_dispatched (h : Sound load limit s) {l : Letter} (hl : l ∈ s.received) :
    l.sender ∈ s.dispatched := by
  by_contra hr
  have hmem := event_mem_eventsFrom hl
  rw [h.eventsFrom_received_eq_nil hr] at hmem
  exact List.not_mem_nil hmem

/-- What is received or in the channel is an event of its sender. -/
theorem event_mem_events (h : Sound load limit s) {l : Letter}
    (hl : l ∈ s.received ++ s.channel) : l.event ∈ load.events l.sender := by
  have hsent : l.event ∈ eventsFrom l.sender s.received ++ s.outstanding l.sender := by
    rw [State.outstanding, ← List.append_assoc, ← eventsFrom_append]
    exact List.mem_append_left _ (event_mem_eventsFrom hl)
  rw [h.letters] at hsent
  split_ifs at hsent with hr
  · exact hsent
  · exact absurd hsent List.not_mem_nil

end Sound

/-! ### The invariant is kept -/

theorem sound_ofSeeds (load : Workload) (limit : ℕ) (prior : Lifecycle) (seeds : List Revision) :
    Sound load limit (State.ofSeeds prior seeds) where
  nodup_known := Lifecycle.nodup_known_seed (l := Lifecycle.empty) List.nodup_nil
  dispatched_perm := by
    simp [State.ofSeeds, State.revisions, Coordination.ofSeeds, Lifecycle.clear, Lifecycle.empty]
  bounded := by
    simp [State.ofSeeds, State.revisions, Coordination.ofSeeds, Lifecycle.clear, Lifecycle.empty]
  letters := fun r ↦ by simp [State.ofSeeds, State.outstanding]
  inFlight_iff := fun r ↦ by
    simp [State.ofSeeds, State.outstanding, State.revisions, Coordination.ofSeeds,
      Lifecycle.clear, Lifecycle.empty]

theorem Sound.start (h : Sound load limit s) {revisions : Lifecycle}
    (hstart : s.revisions.start? limit r = some revisions) :
    Sound load limit (s.start load r revisions) := by
  obtain ⟨hlimit, hpending, hrevisions⟩ := Lifecycle.start?_eq_some_iff.1 hstart
  have hfresh : r ∉ s.dispatched := h.not_mem_dispatched_of_pending hpending
  have hquiet : s.outstanding r = [] := by
    by_contra hne
    exact hfresh (h.mem_dispatched_of_outstanding hne)
  have hflight : revisions.inFlight = s.revisions.inFlight ++ [r] := by rw [hrevisions]
  have hdone : revisions.done = s.revisions.done := by rw [hrevisions]
  constructor
  case nodup_known =>
    exact (Lifecycle.known_start_perm hstart).nodup_iff.2 h.nodup_known
  case dispatched_perm =>
    change s.dispatched ++ [r] ~ revisions.inFlight ++ revisions.done
    rw [hflight, hdone]
    calc s.dispatched ++ [r]
      _ ~ (s.revisions.inFlight ++ s.revisions.done) ++ [r] := h.dispatched_perm.append_right _
      _ ~ s.revisions.inFlight ++ [r] ++ s.revisions.done := by
        simpa only [List.append_assoc] using List.perm_append_comm.append_left _
  case bounded =>
    change revisions.inFlight.length ≤ limit
    rw [hflight, List.length_append, List.length_singleton]
    exact hlimit
  case letters =>
    intro x
    change eventsFrom x s.received ++ _ = if x ∈ s.dispatched ++ [r] then load.events x else []
    by_cases hx : x = r
    · subst x
      rw [State.outstanding_start_self hquiet, h.eventsFrom_received_eq_nil hfresh]
      simp
    · rw [State.outstanding_start_of_ne hx, h.letters x]
      simp [hx]
  case inFlight_iff =>
    intro x
    change x ∈ revisions.inFlight ↔ _
    rw [hflight, List.mem_append, List.mem_singleton]
    by_cases hx : x = r
    · subst x
      rw [State.outstanding_start_self hquiet]
      simp [Workload.events_ne_nil]
    · rw [State.outstanding_start_of_ne hx, h.inFlight_iff x]
      simp [hx]

theorem Sound.post (h : Sound load limit s) {e : Event} {rest : List Event}
    (howed : s.owed r = e :: rest) : Sound load limit (s.post r e rest) where
  nodup_known := h.nodup_known
  dispatched_perm := h.dispatched_perm
  bounded := h.bounded
  letters := fun x ↦ by
    rw [State.outstanding_post howed]
    exact h.letters x
  inFlight_iff := fun x ↦ by
    rw [State.outstanding_post howed]
    exact h.inFlight_iff x

/-- A letter in front of the channel is a report of a revision that has more to send, or it closes
the revision that sent it. -/
theorem Sound.front_cases (h : Sound load limit s) {l : Letter} {rest : List Letter}
    (hchannel : s.channel = l :: rest) :
    (l.event.isReport = true ∧ (s.take l rest).outstanding l.sender ≠ []) ∨
      (l.event = load.closing l.sender ∧ (s.take l rest).outstanding l.sender = []) := by
  have hmem : l ∈ s.channel := hchannel ▸ List.mem_cons_self
  have hsent := h.events_eq (h.mem_dispatched.2 (Or.inl (h.sender_mem_inFlight hmem)))
  rw [State.outstanding_take hchannel, if_pos rfl] at hsent
  exact Workload.events_split hsent.symm

section Take

variable {l : Letter} {rest : List Letter}

theorem Sound.letters_take (h : Sound load limit s) (hchannel : s.channel = l :: rest)
    (x : Revision) : eventsFrom x (s.take l rest).received ++ (s.take l rest).outstanding x =
      if x ∈ s.dispatched then load.events x else [] := by
  rw [State.received_append_outstanding_take hchannel]
  exact h.letters x

/-- A report leaves every revision in flight, its sender too, which has more to send. -/
theorem Sound.take_report (h : Sound load limit s) (hchannel : s.channel = l :: rest)
    (hreport : l.event.isReport = true) (hmore : (s.take l rest).outstanding l.sender ≠ []) :
    Sound load limit (s.take l rest) := by
  have hflight : l.sender ∈ s.revisions.inFlight :=
    h.sender_mem_inFlight (hchannel ▸ List.mem_cons_self)
  have hsame : ∀ x, x ∈ s.revisions.inFlight ↔ (s.take l rest).outstanding x ≠ [] := by
    intro x
    by_cases hx : x = l.sender
    · subst x
      exact iff_of_true hflight hmore
    · rw [State.outstanding_take_of_ne hchannel hx]
      exact h.inFlight_iff x
  cases he : l.event with
  | discovered source revision =>
    have hrevisions : (s.take l rest).revisions = (s.revisions.offer revision).2 := by
      simp only [State.revisions, State.take, he, Coordination.apply]
    constructor
    case nodup_known =>
      rw [hrevisions]
      exact Lifecycle.nodup_known_offer h.nodup_known
    case dispatched_perm =>
      rw [hrevisions, Lifecycle.inFlight_offer, Lifecycle.done_offer]
      exact h.dispatched_perm
    case bounded =>
      rw [hrevisions, Lifecycle.inFlight_offer]
      exact h.bounded
    case letters => exact h.letters_take hchannel
    case inFlight_iff =>
      rw [hrevisions, Lifecycle.inFlight_offer]
      exact hsame
  | unbound source dependency =>
    have hrevisions : (s.take l rest).revisions = s.revisions := by
      simp only [State.revisions, State.take, he, Coordination.apply]
    exact ⟨hrevisions ▸ h.nodup_known, hrevisions ▸ h.dispatched_perm, hrevisions ▸ h.bounded,
      h.letters_take hchannel, hrevisions ▸ hsame⟩
  | finished revision outcome resource =>
    rw [he] at hreport
    cases hreport

/-- The closing event takes its sender out, which has nothing more to send. -/
theorem Sound.take_closing (h : Sound load limit s) (hchannel : s.channel = l :: rest)
    (hclosing : l.event = load.closing l.sender)
    (hnone : (s.take l rest).outstanding l.sender = []) : Sound load limit (s.take l rest) := by
  have hflight : l.sender ∈ s.revisions.inFlight :=
    h.sender_mem_inFlight (hchannel ▸ List.mem_cons_self)
  have hrevisions : (s.take l rest).revisions = (s.revisions.finish l.sender).2 := by
    simp only [State.revisions, State.take, hclosing, Workload.closing, Coordination.apply]
  have herase : (s.take l rest).revisions.inFlight = s.revisions.inFlight.erase l.sender := by
    rw [hrevisions, Lifecycle.finish_of_mem hflight]
  constructor
  case nodup_known =>
    rw [hrevisions]
    exact Lifecycle.known_finish_perm.nodup_iff.2 h.nodup_known
  case dispatched_perm =>
    rw [hrevisions]
    exact h.dispatched_perm.trans Lifecycle.started_finish_perm.symm
  case bounded =>
    rw [herase]
    exact (List.length_erase_le).trans h.bounded
  case letters => exact h.letters_take hchannel
  case inFlight_iff =>
    intro x
    rw [herase, h.nodup_inFlight.mem_erase_iff]
    by_cases hx : x = l.sender
    · subst x
      simp [hnone]
    · rw [State.outstanding_take_of_ne hchannel hx, h.inFlight_iff x]
      simp [hx]

theorem Sound.take (h : Sound load limit s) (hchannel : s.channel = l :: rest) :
    Sound load limit (s.take l rest) := by
  rcases h.front_cases hchannel with ⟨hreport, hmore⟩ | ⟨hclosing, hnone⟩
  · exact h.take_report hchannel hreport hmore
  · exact h.take_closing hchannel hclosing hnone

end Take

theorem Sound.step (h : Sound load limit s) (hstep : Step load limit s t) :
    Sound load limit t := by
  cases hstep with
  | leave => exact ⟨h.nodup_known, h.dispatched_perm, h.bounded, h.letters, h.inFlight_iff⟩
  | enter => exact ⟨h.nodup_known, h.dispatched_perm, h.bounded, h.letters, h.inFlight_iff⟩
  | start _ hstart => exact h.start hstart
  | filled => exact ⟨h.nodup_known, h.dispatched_perm, h.bounded, h.letters, h.inFlight_iff⟩
  | receive _ hchannel => exact h.take hchannel
  | drain _ hchannel => exact h.take hchannel
  | drained => exact ⟨h.nodup_known, h.dispatched_perm, h.bounded, h.letters, h.inFlight_iff⟩
  | post howed => exact h.post howed

theorem Run.sound {prior : Lifecycle} {seeds : List Revision} {visited : List State}
    (hrun : Run load limit (State.ofSeeds prior seeds) visited s) : Sound load limit s :=
  hrun.preserves (sound_ofSeeds load limit prior seeds) fun _ _ ↦ Sound.step

/-! ### What the coordinator knows -/

structure Phased (limit : ℕ) (s : State) : Prop where
  busy : s.phase = .filling ∨ s.phase = .waiting → s.revisions.isSettled = false
  full : s.phase = .waiting → s.revisions.IsFull limit
  settled : s.phase = .ended → s.revisions.isSettled = true

theorem phased_of_phase (hfilling : s.phase ≠ .filling) (hwaiting : s.phase ≠ .waiting)
    (hended : s.phase ≠ .ended) : Phased limit s where
  busy := fun h ↦ (h.elim hfilling hwaiting).elim
  full := fun h ↦ (hwaiting h).elim
  settled := fun h ↦ (hended h).elim

theorem phased_take (l : Letter) (rest : List Letter) : Phased limit (s.take l rest) :=
  phased_of_phase (by simp [State.take]) (by simp [State.take]) (by simp [State.take])

theorem Phased.step (h : Phased limit s) (hstep : Step load limit s t) : Phased limit t := by
  cases hstep with
  | leave _ hsettled => exact ⟨by simp, by simp, fun _ ↦ hsettled⟩
  | enter _ hbusy => exact ⟨fun _ ↦ hbusy, by simp, by simp⟩
  | @start r revisions hphase hstart =>
    obtain ⟨-, -, hrevisions⟩ := Lifecycle.start?_eq_some_iff.1 hstart
    have hbusy : revisions.isSettled = false := by
      simp [hrevisions, Lifecycle.isSettled]
    exact ⟨fun _ ↦ hbusy, fun hw ↦ absurd (hphase.symm.trans hw) (by simp),
      fun ho ↦ absurd (hphase.symm.trans ho) (by simp)⟩
  | filled hphase hfull =>
    exact ⟨fun _ ↦ h.busy (Or.inl hphase), fun _ ↦ Lifecycle.isFull_iff.2 hfull, by simp⟩
  | receive => exact phased_take _ _
  | drain => exact phased_take _ _
  | drained => exact phased_of_phase (by simp) (by simp) (by simp)
  | post => exact ⟨h.busy, h.full, h.settled⟩

theorem Run.phased {prior : Lifecycle} {seeds : List Revision} {visited : List State}
    (hrun : Run load limit (State.ofSeeds prior seeds) visited s) : Phased limit s :=
  hrun.preserves (phased_of_phase (by simp [State.ofSeeds]) (by simp [State.ofSeeds])
    (by simp [State.ofSeeds])) fun _ _ ↦ Phased.step

/-- A coordinator that waits has work in flight. -/
theorem Phased.inFlight_ne_nil (h : Phased limit s) (hlimit : 0 < limit)
    (hphase : s.phase = .waiting) : s.revisions.inFlight ≠ [] := by
  intro hnil
  rcases h.full hphase with hpending | hreached
  · have hsettled := Lifecycle.isSettled_iff.2 ⟨hpending, hnil⟩
    rw [h.busy (Or.inr hphase)] at hsettled
    cases hsettled
  · rw [hnil, List.length_nil] at hreached
    omega

/-- Once the coordinator has left the loop, every letter has been taken and none is to come. -/
theorem Sound.outstanding_eq_nil (h : Sound load limit s) (hp : Phased limit s)
    (hended : s.phase = .ended) (r : Revision) : s.outstanding r = [] := by
  by_contra hne
  have hflight := (h.inFlight_iff r).2 hne
  rw [(Lifecycle.isSettled_iff.1 (hp.settled hended)).2] at hflight
  exact List.not_mem_nil hflight

/-- Short of the end there is always a step to take. -/
theorem Sound.exists_step (h : Sound load limit s) (hp : Phased limit s) (hlimit : 0 < limit)
    (hended : s.phase ≠ .ended) : ∃ t, Step load limit s t := by
  cases hphase : s.phase with
  | checking =>
    cases hsettled : s.revisions.isSettled with
    | true => exact ⟨_, .leave hphase hsettled⟩
    | false => exact ⟨_, .enter hphase hsettled⟩
  | filling =>
    by_cases hfull : ∀ r, s.revisions.start? limit r = none
    · exact ⟨_, .filled hphase hfull⟩
    · obtain ⟨r, hr⟩ := not_forall.1 hfull
      obtain ⟨revisions, hstart⟩ := Option.ne_none_iff_exists'.1 hr
      exact ⟨_, .start hphase hstart⟩
  | waiting =>
    obtain ⟨r, hr⟩ := List.exists_mem_of_ne_nil _ (hp.inFlight_ne_nil hlimit hphase)
    have hmore := (h.inFlight_iff r).1 hr
    cases hchannel : s.channel with
    | cons l rest => exact ⟨_, .receive hphase hchannel⟩
    | nil =>
      rw [State.outstanding, hchannel, eventsFrom_nil, List.nil_append] at hmore
      obtain ⟨e, rest, howed⟩ := List.exists_cons_of_ne_nil hmore
      exact ⟨_, .post howed⟩
  | draining =>
    cases hchannel : s.channel with
    | cons l rest => exact ⟨_, .drain hphase hchannel⟩
    | nil => exact ⟨_, .drained hphase hchannel⟩
  | ended => exact absurd hphase hended

/-! ### The most revisions in flight -/

/-- The peak as it will be noted next. -/
def State.crest (s : State) : ℕ :=
  max s.stats.peak s.revisions.inFlight.length

/-- The crest is the largest number of revisions in flight so far, and outside of a filling the
noted peak is already as high. -/
structure Peaked (visited : List State) (s : State) : Prop where
  noted : s.phase ≠ .filling → s.revisions.inFlight.length ≤ s.stats.peak
  bound : ∀ t ∈ visited, t.revisions.inFlight.length ≤ s.crest
  attained : ∃ t ∈ visited, t.revisions.inFlight.length = s.crest

/-- A step that leaves the crest as it is. -/
theorem Peaked.of_crest_eq {visited : List State} (h : Peaked visited s)
    (hcrest : t.crest = s.crest)
    (hnoted : t.phase ≠ .filling → t.revisions.inFlight.length ≤ t.stats.peak) :
    Peaked (t :: visited) t := by
  refine ⟨hnoted, ?_, ?_⟩
  · intro u hu
    rcases List.mem_cons.1 hu with rfl | hu
    · exact le_max_right _ _
    · rw [hcrest]
      exact h.bound u hu
  · obtain ⟨u, hu, hlength⟩ := h.attained
    exact ⟨u, List.mem_cons_of_mem _ hu, by rw [hlength, hcrest]⟩

theorem Peaked.take {visited : List State} (h : Peaked visited s) (hphase : s.phase ≠ .filling)
    (l : Letter) (rest : List Letter) : Peaked (s.take l rest :: visited) (s.take l rest) := by
  have hpeak : (s.take l rest).stats.peak = s.stats.peak := Coordination.peak_apply
  have hfewer : (s.take l rest).revisions.inFlight.length ≤ s.revisions.inFlight.length :=
    Coordination.length_inFlight_apply_le
  have hnoted := h.noted hphase
  refine h.of_crest_eq ?_ fun _ ↦ ?_
  · rw [State.crest, State.crest, hpeak, max_eq_left (hfewer.trans hnoted), max_eq_left hnoted]
  · rw [hpeak]
    exact hfewer.trans hnoted

theorem Peaked.start {visited : List State} (h : Peaked visited s) (hphase : s.phase = .filling)
    {revisions : Lifecycle} (hstart : s.revisions.start? limit r = some revisions) :
    Peaked (s.start load r revisions :: visited) (s.start load r revisions) := by
  obtain ⟨-, -, hrevisions⟩ := Lifecycle.start?_eq_some_iff.1 hstart
  have hpeak : (s.start load r revisions).stats.peak = s.stats.peak := rfl
  have hmore : (s.start load r revisions).revisions.inFlight.length =
      s.revisions.inFlight.length + 1 := by
    change revisions.inFlight.length = _
    rw [hrevisions, List.length_append, List.length_singleton]
  have hcrest : (s.start load r revisions).crest =
      max s.stats.peak (s.revisions.inFlight.length + 1) := by
    rw [State.crest, hpeak, hmore]
  refine ⟨fun hne ↦ absurd hphase hne, ?_, ?_⟩
  · intro u hu
    rcases List.mem_cons.1 hu with rfl | hu
    · exact le_max_right _ _
    · have hbound := h.bound u hu
      rw [State.crest] at hbound
      omega
  · by_cases hhigher : s.stats.peak ≤ s.revisions.inFlight.length + 1
    · refine ⟨_, List.mem_cons_self, ?_⟩
      rw [hcrest, hmore, max_eq_right hhigher]
    · obtain ⟨u, hu, hlength⟩ := h.attained
      refine ⟨u, List.mem_cons_of_mem _ hu, ?_⟩
      rw [hlength, hcrest, State.crest]
      omega

theorem Run.peaked {prior : Lifecycle} {seeds : List Revision} {visited : List State}
    (hrun : Run load limit (State.ofSeeds prior seeds) visited s) : Peaked visited s := by
  induction hrun with
  | refl =>
    have hnone : (State.ofSeeds prior seeds).revisions.inFlight = [] := Lifecycle.inFlight_seed
    refine ⟨fun _ ↦ ?_, fun t ht ↦ ?_, _, List.mem_singleton_self _, ?_⟩
    · rw [hnone]
      exact Nat.zero_le _
    · rw [List.mem_singleton.1 ht]
      exact le_max_right _ _
    · rw [State.crest, hnone]
      rfl
  | step _ hstep ih =>
    cases hstep with
    | leave hphase =>
      exact ih.of_crest_eq rfl fun _ ↦ ih.noted (by simp [hphase])
    | enter => exact ih.of_crest_eq rfl fun hne ↦ absurd rfl hne
    | start hphase hstart => exact ih.start hphase hstart
    | filled =>
      exact ih.of_crest_eq (max_eq_left (le_max_right _ _)) fun _ ↦ le_max_right _ _
    | receive hphase => exact ih.take (by simp [hphase]) _ _
    | drain hphase => exact ih.take (by simp [hphase]) _ _
    | drained hphase =>
      exact ih.of_crest_eq rfl fun _ ↦ ih.noted (by simp [hphase])
    | post => exact ih.of_crest_eq rfl ih.noted

/-! ### Every state of every run -/

/-- What the coordinator can rely on in a state `s` reached through the states `visited`, and how it
got there. -/
structure Orderly (load : Workload) (limit : ℕ) (visited : List State) (s : State) : Prop where
  /-- In flight is what was dispatched and whose closing event has not been applied. -/
  inFlight_iff : ∀ r, r ∈ s.revisions.inFlight ↔
    r ∈ s.dispatched ∧ ∀ l ∈ s.received, l.event.closed? ≠ some r
  /-- A closing event that is still to be applied finds its revision in flight. -/
  finishes : ∀ l ∈ s.channel, ∀ r, l.event.closed? = some r → (s.revisions.finish r).1 = true
  nodup_inFlight : s.revisions.inFlight.Nodup
  bounded : s.revisions.inFlight.length ≤ limit
  nodup_dispatched : s.dispatched.Nodup
  /-- A coordinator that waits is owed an event, and could start nothing more. -/
  waits : s.phase = .waiting → s.revisions.inFlight ≠ [] ∧
    (∃ r ∈ s.revisions.inFlight, s.outstanding r ≠ []) ∧
    (s.revisions.pending = [] ∨ s.revisions.inFlight.length = limit)
  /-- Short of the end the run can go on. -/
  goes_on : s.phase ≠ .ended → ∃ t, Step load limit s t
  delivered : s.phase = .ended → s.channel = [] ∧ ∀ r, s.owed r = []
  peak_bound : s.phase = .ended →
    ∀ t ∈ visited, t.revisions.inFlight.length ≤ s.stats.peak
  peak_attained : s.phase = .ended →
    ∃ t ∈ visited, t.revisions.inFlight.length = s.stats.peak

/-- The closing event of a revision is received exactly when nothing of it is outstanding. -/
theorem Sound.closed_iff (h : Sound load limit s) (hr : r ∈ s.dispatched) :
    (∃ l ∈ s.received, l.event.closed? = some r) ↔ s.outstanding r = [] := by
  have hevents := h.events_eq hr
  constructor
  · rintro ⟨l, hl, hclosed⟩
    have hevent := h.event_mem_events (List.mem_append_left _ hl)
    obtain ⟨hclosing, hsender⟩ := (Workload.closed?_eq_some_iff hevent).1 hclosed
    have hmem : load.closing r ∈ eventsFrom r s.received := by
      rw [hsender, ← hclosing]
      exact event_mem_eventsFrom hl
    obtain ⟨before, after, hsplit⟩ := List.append_of_mem hmem
    rw [hsplit, List.append_assoc, List.cons_append] at hevents
    rcases Workload.events_split hevents.symm with ⟨hreport, -⟩ | ⟨-, hnil⟩
    · cases hreport
    · exact (List.append_eq_nil_iff.1 hnil).2
  · intro hnil
    rw [hnil, List.append_nil] at hevents
    have hmem : load.closing r ∈ eventsFrom r s.received := by
      rw [hevents]
      exact Workload.mem_events.2 (Or.inr rfl)
    exact ⟨_, mem_eventsFrom.1 hmem, rfl⟩

/-- Whatever the order of the steps, every state of a run is orderly. -/
theorem run_orderly (load : Workload) (maxParallel : ℕ) (prior : Lifecycle)
    (seeds : List Revision) {visited : List State} {s : State}
    (hrun : Run load (Resolver.new maxParallel).maxParallel (.ofSeeds prior seeds) visited s) :
    Orderly load (max maxParallel 1) visited s := by
  have hlimit : 0 < max maxParallel 1 := lt_of_lt_of_le Nat.one_pos (le_max_right _ _)
  have hsound : Sound load (max maxParallel 1) s := hrun.sound
  have hphased : Phased (max maxParallel 1) s := hrun.phased
  have hpeaked := hrun.peaked
  have hcrest : s.phase = .ended → s.crest = s.stats.peak := fun hended ↦
    max_eq_left (hpeaked.noted (by simp [hended]))
  constructor
  case inFlight_iff =>
    intro r
    rw [hsound.inFlight_iff]
    constructor
    · intro hmore
      have hr := hsound.mem_dispatched_of_outstanding hmore
      exact ⟨hr, fun l hl hclosed ↦ hmore ((hsound.closed_iff hr).1 ⟨l, hl, hclosed⟩)⟩
    · rintro ⟨hr, hopen⟩ hnil
      obtain ⟨l, hl, hclosed⟩ := (hsound.closed_iff hr).2 hnil
      exact hopen l hl hclosed
  case finishes =>
    intro l hl r hclosed
    have hevent := hsound.event_mem_events (List.mem_append_right _ hl)
    obtain ⟨-, rfl⟩ := (Workload.closed?_eq_some_iff hevent).1 hclosed
    exact Lifecycle.finish_fst.2 (hsound.sender_mem_inFlight hl)
  case nodup_inFlight => exact hsound.nodup_inFlight
  case bounded => exact hsound.bounded
  case nodup_dispatched => exact hsound.nodup_dispatched
  case waits =>
    intro hphase
    have hflight := hphased.inFlight_ne_nil hlimit hphase
    obtain ⟨r, hr⟩ := List.exists_mem_of_ne_nil _ hflight
    exact ⟨hflight, ⟨r, hr, (hsound.inFlight_iff r).1 hr⟩,
      (hphased.full hphase).imp_right fun hreached ↦ le_antisymm hsound.bounded hreached⟩
  case goes_on => exact hsound.exists_step hphased hlimit
  case delivered =>
    intro hended
    have hnil := hsound.outstanding_eq_nil hphased hended
    refine ⟨List.eq_nil_iff_forall_not_mem.2 fun l hl ↦ ?_, fun r ↦ ?_⟩
    · exact (hsound.inFlight_iff _).1 (hsound.sender_mem_inFlight hl) (hnil l.sender)
    · exact (List.append_eq_nil_iff.1 (hnil r)).2
  case peak_bound =>
    intro hended
    rw [← hcrest hended]
    exact hpeaked.bound
  case peak_attained =>
    intro hended
    rw [← hcrest hended]
    exact hpeaked.attained

/-- Two workers whose letters come in turns: both revisions are dispatched, and all that their
workers have to report is received, in the order in which it was posted. -/
theorem run_orderly_pair : ∃ visited s, s.phase = .ended ∧
    s.dispatched = [Workload.right, Workload.left] ∧
    s.received = [⟨Workload.right, .discovered Workload.right Workload.left⟩,
      ⟨Workload.left, .discovered Workload.left Workload.right⟩,
      ⟨Workload.left, .finished Workload.left .failed none⟩,
      ⟨Workload.right, .finished Workload.right .failed none⟩] ∧
    s.stats.peak = 2 ∧ Orderly .pair (max 2 1) visited s ∧
    Run .pair (Resolver.new 2).maxParallel (.ofSeeds .empty [Workload.left, Workload.right])
      visited s := by
  have first := @Run.refl .pair (Resolver.new 2).maxParallel
    (.ofSeeds .empty [Workload.left, Workload.right])
  have filling := (first.step (.enter rfl rfl)).step (.start (r := Workload.right) rfl rfl)
  have full := (filling.step (.start (r := Workload.left) rfl rfl)).step
    (.filled rfl (Lifecycle.isFull_iff.1 (Or.inl rfl)))
  have received := (full.step (.post (r := Workload.right) rfl)).step (.receive rfl rfl)
  have posted := (received.step (.post (r := Workload.left) rfl)).step
    (.post (r := Workload.left) rfl)
  have drained := ((posted.step (.drain rfl rfl)).step (.drain rfl rfl)).step (.drained rfl rfl)
  have waiting := (drained.step (.enter rfl rfl)).step
    (.filled rfl (Lifecycle.isFull_iff.1 (Or.inl rfl)))
  have last := (waiting.step (.post (r := Workload.right) rfl)).step (.receive rfl rfl)
  have ended := (last.step (.drained rfl rfl)).step (.leave rfl rfl)
  exact ⟨_, _, rfl, rfl, rfl, rfl, run_orderly .pair 2 .empty _ ended, ended⟩

end ArtifactIndex.Protocol
