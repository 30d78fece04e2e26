import ArtifactIndex.Proofs.Closure.Schedule

/-!
# The closure of the seeds

The closure of the seeds, whatever the order of the work. Main statement: when the seeds lead to
finitely many revisions, every run ends, each of these revisions has been dispatched once and
nothing else, and the books summarize what their workers sent (`resolution_complete`). The resolver
itself, with a budget for every one of them, comes to such books too.
-/

set_option autoImplicit false
set_option relaxedAutoImplicit false

namespace ArtifactIndex.Protocol

/-- Every run from the seeds is finite, and one that no step continues has found the closure; so
has the resolver, whatever it knew before, if its collaborators make the workers send these
events. -/
theorem resolution_complete (load : Workload) (seeds : List Revision) (reach : Finset Revision)
    (hreach : ∀ r, r ∈ reach ↔ load.Reaches seeds r) (maxParallel : ℕ) (prior : Lifecycle) :
    (∃ bound, ∀ visited s,
      Run load (Resolver.new maxParallel).maxParallel (.ofSeeds prior seeds) visited s →
        visited.length ≤ bound) ∧
    (∀ visited s,
      Run load (Resolver.new maxParallel).maxParallel (.ofSeeds prior seeds) visited s →
      (∀ t, ¬ Step load (Resolver.new maxParallel).maxParallel s t) →
        s.phase = .ended ∧ s.dispatched.Nodup ∧ s.dispatched.toFinset = reach ∧
          Summarizes load seeds reach s.coordination.closure) ∧
    (∀ {ρ : Type} (repository : Repository ρ) (builder : Builder ρ),
      (∀ r ∈ reach, ∀ w, (repository.process builder r w).events = load.events r) →
      ∀ budget w, reach.card ≤ budget → ∃ closure after,
        (Resolver.mk (Resolver.new maxParallel).maxParallel prior).resolve repository builder
            budget seeds w = (.ok closure, Resolver.new maxParallel, after) ∧
        Summarizes load seeds reach closure) := by
  have hlimit : 0 < (Resolver.new maxParallel).maxParallel :=
    lt_of_lt_of_le Nat.one_pos (le_max_right _ _)
  have hbooks : ∀ visited s,
      Run load (Resolver.new maxParallel).maxParallel (.ofSeeds prior seeds) visited s →
      s.phase = .ended → Summarizes load seeds reach s.coordination.closure := by
    intro visited s hrun hended
    refine hrun.tallied.summarizes hrun.sound (hrun.sound.outstanding_eq_nil hrun.phased hended)
      fun r ↦ ?_
    rw [hrun.mem_dispatched_iff hended, hreach r]
  refine ⟨⟨(State.ofSeeds prior seeds).potential load reach + 1, fun visited s hrun ↦ ?_⟩,
    fun visited s hrun hlast ↦ ?_, ?_⟩
  · exact (Nat.le_add_right _ _).trans
      (hrun.length_add_potential_le fun r hr ↦ (hreach r).2 hr)
  · have hended : s.phase = .ended := by
      by_contra hne
      obtain ⟨t, hstep⟩ := hrun.sound.exists_step hrun.phased hlimit hne
      exact hlast t hstep
    refine ⟨hended, hrun.sound.nodup_dispatched, ?_, hbooks visited s hrun hended⟩
    ext r
    rw [List.mem_toFinset, hrun.mem_dispatched_iff hended, hreach r]
  · intro ρ repository builder hwork budget w hbudget
    obtain ⟨visited, t, after, hrun, hended, hresolver⟩ :=
      Run.refl.exists_run_eq_some hlimit ⟨rfl, rfl, fun r ↦ Or.inl rfl⟩
        (fun r hr ↦ hwork r ((hreach r).2 hr)) (fun r hr ↦ (hreach r).2 hr)
        (hbudget.trans (Nat.le_add_right _ _)) w
    refine ⟨t.coordination.closure, after, ?_, hbooks visited t hrun hended⟩
    exact resolve_of_run hresolver (hrun.phased.settled hended)

/-! ### Two revisions that depend on each other -/

section Pair

open Workload

/-- Every revision has an archive that cannot be fetched, and declares the other one. -/
def pairRepository : Repository Unit where
  resolveArchive r := .done (.ok (some (.jar r)))
  snapshotSources := .done []
  metadataTimestamp _ _ := .done (.ok none)
  localFile _ := .done ""
  fetch _ := .done (.error .files)
  buildDescriptor r :=
    let other := if r = left then right else left
    .done (.ok (some ⟨[⟨other.program, other.version.literal, .compile, false⟩]⟩))
  availableRevisions _ := .done (.ok [])

theorem reaches_pair_iff (r : Revision) :
    r ∈ ({left, right} : Finset Revision) ↔ pair.Reaches [left, left] r := by
  have hleft : pair.Reaches [left, left] left := .seed List.mem_cons_self
  have hright : pair.Reaches [left, left] right :=
    .discovery hleft (e := .discovered left right) (by decide) rfl
  rw [Finset.mem_insert, Finset.mem_singleton]
  constructor
  · rintro (rfl | rfl)
    · exact hleft
    · exact hright
  · intro h
    induction h with
    | seed hseed => exact Or.inl (by simpa using hseed)
    | @discovery x d e _ he hd _ =>
      rcases mem_events.1 he with hreport | rfl
      · rw [pair, List.mem_singleton] at hreport
        rw [hreport, Event.discovery?, Option.some_inj] at hd
        split_ifs at hd
        · exact Or.inr hd.symm
        · exact Or.inl hd.symm
      · cases hd

/-- A repeated seed and a cycle, with room for one revision at a time. -/
theorem resolution_complete_pair : ∃ closure after,
    (Resolver.mk (Resolver.new 0).maxParallel ⟨[right], [left], [left]⟩).resolve pairRepository
        (fun _ _ ↦ .crash) 2 [left, left] ⟨⟨[], ⟨[], 0, FileSystem.directoryMode⟩, 0⟩, ()⟩ =
      (.ok closure, Resolver.new 0, after) ∧
    Summarizes pair [left, left] {left, right} closure :=
  (resolution_complete pair [left, left] {left, right} reaches_pair_iff 0
    ⟨[right], [left], [left]⟩).2.2 pairRepository (fun _ _ ↦ .crash)
      (by
        intro r hr w
        rcases Finset.mem_insert.1 hr with rfl | hr
        · rfl
        · rw [Finset.mem_singleton.1 hr]
          rfl)
      2 _ Finset.card_le_two

end Pair

end ArtifactIndex.Protocol
