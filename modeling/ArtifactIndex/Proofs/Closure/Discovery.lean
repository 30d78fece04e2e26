import ArtifactIndex.Closure.Work
import ArtifactIndex.Proofs.Closure.Binding
import ArtifactIndex.Proofs.Dependency.Followed

/-!
# What is discovered

The declarations that are followed are bound one after the other, and each is reported by one event.
What a declaration comes to is a matter of its own text and of the revisions that are on offer for
its program at its turn (`Dependency.target?`); the turn passes to the next declaration unless the
revisions on offer cannot be sorted, which takes versions that are not in order.

Main statement: the programs that have a compile or a runtime declaration are reported once each, in
ascending order, by the declaration that decides for them. The event of a program depends on nothing
but that declaration and what is on offer for it (`Repository.discover_follows`). Where versions are
not in order a declaration may keep those behind it from being reported (`discover_cyclic`).
-/

set_option autoImplicit false
set_option relaxedAutoImplicit false

namespace ArtifactIndex

/-! ### The event of a declaration -/

/-- The version that a declaration comes to: the one it names, or the highest one in its range that
is on offer. -/
def Dependency.target? (d : Dependency) (offer : Ending (Except Error (List Revision))) :
    Option Version :=
  match Constraint.parse d.version, offer with
  | .ok (.exact v), _ => some v
  | .ok (.range range), .done (.ok candidates) =>
    match range.highest? candidates with
    | .done highest => highest.map (·.version)
    | .crashed => none
  | _, _ => none

/-- The program of the declaration in the version it comes to, or the text of the declaration. -/
def Event.ofTarget (source : Revision) (d : Dependency) : Option Version → Event
  | some v => .discovered source ⟨d.program, v⟩
  | none => .unbound source d.text

theorem Event.ofBinding_exact (source : Revision) {d : Dependency} {v : Version}
    (h : Constraint.parse d.version = .ok (.exact v)) :
    Event.ofBinding source (.ok .exact, d) = .ofTarget source d (some v) := by
  have hrevision : d.revision = .ok ⟨d.program, v⟩ := Dependency.revision_eq_ok_iff.2 ⟨h, rfl⟩
  simp [ofBinding, ofTarget, hrevision]

/-- The version that was written to the declaration is read from it again. -/
theorem Event.ofBinding_bindTo (source : Revision) (d : Dependency) (found : Option Revision) :
    Event.ofBinding source (d.bindTo found) = .ofTarget source d (found.map (·.version)) := by
  cases found with
  | none => rfl
  | some r =>
    have hrevision : { d with version := r.version.literal }.revision =
        .ok ⟨d.program, r.version⟩ :=
      Dependency.revision_eq_ok_iff.2 ⟨Constraint.parse_literal r.version, rfl⟩
    simp [ofBinding, Dependency.bindTo, ofTarget, hrevision]

namespace Repository

variable {ρ : Type} {repository : Repository ρ} {source : Revision} {d : Dependency}
  {w after : World ρ}

theorem Binds.event_eq {bound : Except Error Binding × Dependency}
    (h : repository.Binds d w (.done bound, after)) :
    Event.ofBinding source bound =
      .ofTarget source d (d.target? (repository.availableRevisions d.program w).1) := by
  cases h with
  | malformed hparse => simp [Event.ofBinding, Dependency.target?, hparse, Event.ofTarget]
  | exact hparse =>
    simp only [Dependency.target?, hparse]
    exact Event.ofBinding_exact source hparse
  | refused hparse hoffer =>
    simp [Event.ofBinding, Dependency.target?, hparse, hoffer, Event.ofTarget]
  | offered hparse hoffer hhighest =>
    simp only [Dependency.target?, hparse, hoffer, hhighest]
    exact Event.ofBinding_bindTo source d _

/-! ### The turns of the declarations -/

variable (repository)

/-- Asked for the revisions of a program the repository never crashes. -/
def Replies : Prop :=
  ∀ p w, (repository.availableRevisions p w).1 ≠ .crashed

/-- Each declaration with the world in which it is bound. -/
def turns : List Dependency → World ρ → List (Dependency × World ρ)
  | [], _ => []
  | d :: ds, w => (d, w) :: turns ds (repository.bind d w).2

/-- What the repository offers for the program of a declaration at its turn. -/
def offer (turn : Dependency × World ρ) : Ending (Except Error (List Revision)) :=
  (repository.availableRevisions turn.1.program turn.2).1

def eventAt (source : Revision) (turn : Dependency × World ρ) : Event :=
  .ofTarget source turn.1 (turn.1.target? (repository.offer turn))

theorem map_fst_turns (ds : List Dependency) (w : World ρ) :
    (repository.turns ds w).map Prod.fst = ds := by
  induction ds generalizing w with
  | nil => rfl
  | cons d ds ih => rw [turns, List.map_cons, ih]

/-- What is on offer for a range at its turn, if anything is, has its versions in order. -/
def OffersOrdered (turn : Dependency × World ρ) : Prop :=
  ∀ range candidates, Constraint.parse turn.1.version = .ok (.range range) →
    repository.offer turn = .done (.ok candidates) → Revision.VersionsOrdered (· ∈ candidates)

variable {repository}

theorem not_offersOrdered_of_bind (h : repository.Replies)
    (hcrashed : (repository.bind d w).1 = .crashed) : ¬ repository.OffersOrdered (d, w) := by
  obtain ⟨range, hparse, hanswer | ⟨candidates, hanswer, -⟩⟩ := bind_eq_crashed_iff.1 hcrashed
  · exact absurd hanswer (h _ _)
  · intro hordered
    exact bind_ne_crashed hanswer (hordered range candidates hparse hanswer) hcrashed

/-- A turn sends its event, or it ends the work. -/
theorem report_eq (h : repository.Replies) :
    repository.report source d w =
        ⟨.done (), [repository.eventAt source (d, w)], (repository.bind d w).2⟩ ∨
      repository.report source d w = ⟨.crashed, [], (repository.bind d w).2⟩ ∧
        ¬ repository.OffersOrdered (d, w) := by
  have hbinds := repository.binds_bind d w
  have hunordered := not_offersOrdered_of_bind (d := d) (w := w) h
  unfold report Work.call Work.andThen
  beta_reduce
  generalize repository.bind d w = ended at hbinds hunordered ⊢
  obtain ⟨bound | _, after⟩ := ended
  · refine .inl ?_
    show Worked.mk (.done ()) [Event.ofBinding source bound] after = _
    rw [hbinds.event_eq]
    rfl
  · exact .inr ⟨rfl, hunordered rfl⟩

/-- The turns are reported one by one, up to the first that offers what cannot be sorted. -/
theorem reportAll_eq (h : repository.Replies) (source : Revision) (ds : List Dependency)
    (w : World ρ) :
    ∃ reported left, repository.turns ds w = reported ++ left ∧
      (repository.reportAll source ds w).events = reported.map (repository.eventAt source) ∧
      ((repository.reportAll source ds w).ending = .done () ↔ left = []) ∧
      ∀ turn ∈ left.head?, ¬ repository.OffersOrdered turn := by
  induction ds generalizing w with
  | nil => exact ⟨[], [], rfl, rfl, by simp [reportAll, Work.done], by simp⟩
  | cons d ds ih =>
    unfold reportAll Work.andThen turns
    rcases report_eq (d := d) (w := w) h with hreport | ⟨hreport, hordered⟩
    · obtain ⟨reported, left, hturns, hevents, hending, hleft⟩ := ih (repository.bind d w).2
      rw [hreport, hturns]
      exact ⟨(d, w) :: reported, left, rfl, congrArg (List.cons _) hevents, hending, hleft⟩
    · rw [hreport]
      exact ⟨[], _, rfl, rfl, by simp, by simpa using hordered⟩

theorem discover_eq {b : BuildDescriptor} {described : World ρ}
    (h : repository.buildDescriptor source w = (.done (.ok (some b)), described)) :
    repository.discover source w = repository.reportAll source b.followed described := by
  unfold discover Work.andThen Work.call
  rw [h]
  rfl

/-- The turns are those of the programs with a compile or a runtime declaration, in ascending order,
each with the declaration that decides. Every turn sends one event, provided that the versions on
offer for ranges are in order; if they are not, the turns send theirs up to one of which that is
true, and nothing is sent from there on. Given what is on offer for each program at its turn, the
event of a program depends on its declaration and on nothing else. -/
theorem discover_follows (repository : Repository ρ) (source : Revision) (b : BuildDescriptor)
    (w described : World ρ)
    (hdescribed : repository.buildDescriptor source w = (.done (.ok (some b)), described))
    (hreplies : repository.Replies) :
    let turns := repository.turns b.followed described
    let programs := turns.map (·.1.program)
    let worked := repository.discover source w
    ((∀ turn ∈ turns, repository.OffersOrdered turn) →
      worked.ending = .done () ∧ worked.events = turns.map (repository.eventAt source)) ∧
    (∃ reported left, turns = reported ++ left ∧
      worked.events = reported.map (repository.eventAt source) ∧
      (worked.ending = .done () ↔ left = []) ∧
      ∀ turn ∈ left.head?, ¬ repository.OffersOrdered turn) ∧
    programs.Pairwise (compare · · = .lt) ∧
    (∀ p, p ∈ programs ↔
      ∃ d ∈ b.dependencies, d.program = p ∧ (d.scope = .compile ∨ d.scope = .runtime)) ∧
    (∀ turn ∈ turns, b.declaration? turn.1.program = some turn.1) ∧
    ∀ offers : Program → Ending (Except Error (List Revision)),
      (∀ turn ∈ turns, repository.offer turn = offers turn.1.program) →
        turns.map (repository.eventAt source) =
          b.followed.map fun d ↦ .ofTarget source d (d.target? (offers d.program)) := by
  intro turns programs worked
  have hreported := reportAll_eq hreplies source b.followed described
  rw [← discover_eq hdescribed] at hreported
  have hfollowed : turns.map Prod.fst = b.followed := repository.map_fst_turns _ _
  have hprograms : programs = b.followed.map (·.program) := by
    rw [← hfollowed, List.map_map]
    rfl
  refine ⟨fun hordered ↦ ?_, hreported, ?_, fun p ↦ ?_, fun turn hturn ↦ ?_,
    fun offers hoffers ↦ ?_⟩
  · obtain ⟨reported, left, hturns, hevents, hending, hleft⟩ := hreported
    cases left with
    | nil =>
      rw [List.append_nil] at hturns
      exact ⟨hending.2 rfl, hevents.trans (congrArg _ hturns.symm)⟩
    | cons turn later =>
      have hturn : turn ∈ turns := by simp [turns, hturns]
      exact absurd (hordered turn hturn) (hleft turn rfl)
  · rw [hprograms]
    exact List.pairwise_map.2 b.ascending_followed
  · rw [hprograms, List.mem_map]
    exact b.exists_mem_followed_iff
  · exact b.mem_followed_iff.1 (hfollowed ▸ List.mem_map_of_mem hturn)
  · rw [← hfollowed, List.map_map]
    refine List.map_congr_left fun turn hturn ↦ ?_
    rw [eventAt, hoffers turn hturn]
    rfl

/-- A script lists the revisions of a program or says that it cannot. -/
theorem replies_script : Script.repository.Replies := by
  intro p w
  change (Script.availableRevisions p w).1 ≠ .crashed
  unfold Script.availableRevisions
  split <;> simp

/-- Declarations of five programs: one twice for `compile` and once, with a range, for `runtime`,
one in a range that nothing on offer is in, one that cannot be read, one for `test` alone and one
for `runtime` alone. -/
theorem discover_follows_declared :
    let program : String → Program := Program.mk "g"
    let source : Revision := ⟨program "root", .zero⟩
    let lower : Version := ⟨"1.7", by decide +kernel⟩
    let eight : Version := ⟨"8", by decide +kernel⟩
    let b : BuildDescriptor := ⟨[
      ⟨program "a", "[1,2)", .runtime, false⟩, ⟨program "e", "8", .runtime, false⟩,
      ⟨program "b", "[2,)", .compile, false⟩, ⟨program "a", "1", .compile, false⟩,
      ⟨program "d", "2", .test, false⟩, ⟨program "c", "[1", .compile, true⟩,
      ⟨program "a", "3", .compile, false⟩]⟩
    let script := Script.empty.addArtifact
      ⟨source, none, some b.dependencies, none, .usual, .usual, .usual, .usual⟩
    let w := (script.setVersions (program "a")
      (some [⟨program "a", lower⟩, ⟨program "a", eight⟩])).withoutFiles
    Script.repository.buildDescriptor source w = (.done (.ok (some b)), w) ∧
      Script.repository.Replies ∧ (Script.repository.discover source w).events =
      [.discovered source ⟨program "a", lower⟩, .unbound source "g:b:[2,) (compile)",
        .unbound source "g:c:[1 (compile)", .discovered source ⟨program "e", eight⟩] := by
  intro program source lower eight b script w
  have hdescribed : Script.repository.buildDescriptor source w = (.done (.ok (some b)), w) := rfl
  have hoffers : ∀ offer ∈ (Script.repository.turns b.followed w).map Script.repository.offer,
      offer = .done (.ok []) ∨
        offer = .done (.ok [⟨program "a", lower⟩, ⟨program "a", eight⟩]) := by
    decide +kernel
  have hordered : ∀ turn ∈ Script.repository.turns b.followed w,
      Script.repository.OffersOrdered turn := by
    intro turn hturn _ candidates _ hcandidates
    have hversions : ∀ r ∈ candidates, r.version ∈ [lower, eight] := by
      intro r hr
      rcases hoffers _ (List.mem_map_of_mem hturn) with hoffer | hoffer
      all_goals
        rw [hcandidates, Ending.done.injEq, Except.ok.injEq] at hoffer
        subst hoffer
      · simp at hr
      · rcases List.mem_pair.1 hr with rfl | rfl <;> simp
    exact .of_forall_mem hversions (by decide +kernel)
  obtain ⟨hevents, -⟩ := discover_follows Script.repository source b w w hdescribed replies_script
  refine ⟨hdescribed, replies_script, ?_⟩
  rw [(hevents hordered).2]
  decide +kernel

/-- The first of two declarations is for a range, and the revisions on offer for it go in circles:
there is no event for it, and none for the other one. -/
theorem discover_cyclic :
    let source : Revision := ⟨⟨"g", "a"⟩, .zero⟩
    let b : BuildDescriptor := ⟨[⟨⟨"g", "b"⟩, "[1,)", .compile, false⟩,
      ⟨⟨"g", "c"⟩, "1", .compile, false⟩]⟩
    let w := (Script.cyclic.addArtifact ⟨source, none, some b.dependencies, none, .usual, .usual,
      .usual, .usual⟩).withoutFiles
    Script.repository.buildDescriptor source w = (.done (.ok (some b)), w) ∧
      Script.repository.Replies ∧ b.followed = b.dependencies ∧
      (Script.repository.discover source w).events = [] := by
  intro source b w
  exact ⟨rfl, replies_script, by decide +kernel, by decide +kernel⟩

end Repository
end ArtifactIndex
