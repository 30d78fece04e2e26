import ArtifactIndex.Closure.Resolver
import ArtifactIndex.Proofs.Closure.Lifecycle
import ArtifactIndex.Proofs.Closure.Workload

/-!
# The books of the coordinator

What an event changes in the books of the coordinator, one lemma for each entry. No event touches
the counts of seeds, of dispatches and of the most revisions in flight.
-/

set_option autoImplicit false
set_option relaxedAutoImplicit false

namespace ArtifactIndex

namespace Stats

/-- The counter of an outcome. -/
def ofOutcome (s : Stats) : Outcome → ℕ
  | .indexed => s.indexed
  | .missing => s.missing
  | .failed => s.failed
  | .aborted => s.aborted

variable (s : Stats) (o p : Outcome)

theorem ofOutcome_countOutcome :
    (s.countOutcome o).ofOutcome p = s.ofOutcome p + (decide (o = p)).toNat := by
  cases o <;> cases p <;> rfl

@[simp] theorem seeded_countOutcome : (s.countOutcome o).seeded = s.seeded := by
  cases o <;> rfl

@[simp] theorem dispatched_countOutcome : (s.countOutcome o).dispatched = s.dispatched := by
  cases o <;> rfl

@[simp] theorem unbound_countOutcome : (s.countOutcome o).unbound = s.unbound := by
  cases o <;> rfl

@[simp] theorem peak_countOutcome : (s.countOutcome o).peak = s.peak := by
  cases o <;> rfl

end Stats

namespace Closure

@[simp] theorem stats_addResource (c : Closure) (resource : Option Resource) :
    (c.addResource resource).stats = c.stats := by
  cases resource with
  | none => rfl
  | some x =>
    rw [addResource]
    split_ifs <;> rfl

theorem mem_addResource {c : Closure} {resource : Option Resource} {x : Resource} :
    x ∈ (c.addResource resource).resources ↔ x ∈ c.resources ∨ resource = some x := by
  cases resource with
  | none => simp [addResource]
  | some y =>
    rw [addResource, Option.some_inj]
    split_ifs with hy
    · constructor
      · exact Or.inl
      · rintro (hx | rfl)
        · exact hx
        · exact hy
    · rw [List.mem_append, List.mem_singleton, eq_comm (a := x)]

theorem nodup_addResource {c : Closure} (h : c.resources.Nodup) (resource : Option Resource) :
    (c.addResource resource).resources.Nodup := by
  cases resource with
  | none => exact h
  | some x =>
    rw [addResource]
    split_ifs with hx
    · exact h
    · exact List.nodup_append.2
        ⟨h, List.nodup_singleton x, fun a ha b hb hab ↦
          hx (List.mem_singleton.1 hb ▸ hab ▸ ha)⟩

end Closure

namespace Coordination

variable {c : Coordination} {e : Event}

/-! ### The revisions -/

theorem mem_known_apply {r : Revision} :
    r ∈ (c.apply e).revisions.known ↔ r ∈ c.revisions.known ∨ e.discovery? = some r := by
  cases e with
  | discovered source revision =>
    rw [apply, Lifecycle.mem_known_offer, Event.discovery?, Option.some_inj,
      eq_comm (a := revision), or_comm]
  | unbound source dependency => simp [apply, Event.discovery?]
  | finished revision outcome resource =>
    rw [apply, Lifecycle.known_finish_perm.mem_iff]
    simp [Event.discovery?]

theorem length_inFlight_apply_le :
    (c.apply e).revisions.inFlight.length ≤ c.revisions.inFlight.length := by
  cases e with
  | discovered source revision => rw [apply, Lifecycle.inFlight_offer]
  | unbound source dependency => exact le_refl _
  | finished revision outcome resource =>
    by_cases h : revision ∈ c.revisions.inFlight
    · simp only [apply, Lifecycle.finish_of_mem h]
      exact List.length_erase_le
    · simp only [apply, Lifecycle.finish_of_not_mem h, le_refl]

/-! ### The counters -/

theorem seeded_apply : (c.apply e).closure.stats.seeded = c.closure.stats.seeded := by
  cases e <;> simp [apply]

theorem dispatched_apply :
    (c.apply e).closure.stats.dispatched = c.closure.stats.dispatched := by
  cases e <;> simp [apply]

theorem peak_apply : (c.apply e).closure.stats.peak = c.closure.stats.peak := by
  cases e <;> simp [apply]

theorem unbound_apply :
    (c.apply e).closure.stats.unbound = c.closure.stats.unbound + e.isUnbound.toNat := by
  cases e <;> simp [apply, Event.isUnbound]

theorem ofOutcome_apply (o : Outcome) :
    (c.apply e).closure.stats.ofOutcome o =
      c.closure.stats.ofOutcome o + (e.endsIn o).toNat := by
  cases e with
  | discovered source revision => rfl
  | unbound source dependency => cases o <;> rfl
  | finished revision outcome resource =>
    rw [apply, Closure.stats_addResource]
    exact Stats.ofOutcome_countOutcome _ _ _

/-! ### The resources -/

theorem mem_resources_apply {x : Resource} :
    x ∈ (c.apply e).closure.resources ↔ x ∈ c.closure.resources ∨ e.resource? = some x := by
  cases e with
  | discovered source revision => simp [apply, Event.resource?]
  | unbound source dependency => simp [apply, Event.resource?]
  | finished revision outcome resource => exact Closure.mem_addResource

theorem nodup_resources_apply (h : c.closure.resources.Nodup) :
    (c.apply e).closure.resources.Nodup := by
  cases e with
  | discovered source revision => exact h
  | unbound source dependency => exact h
  | finished revision outcome resource =>
    rw [apply]
    exact Closure.nodup_addResource (by exact h) resource

end Coordination
end ArtifactIndex
