import ArtifactIndex.Proofs.Closure.Selection
import ArtifactIndex.Repository.Scripted

/-!
# Binding, from the declaration to the revision

The text of a declared version is judged more than once. Binding takes it for an exact version or
for a range, and a dependency that is asked for its revision judges it anew. Both come to the same
result on every text (`Dependency.revision_eq_ok_iff`), and no literal of a version is taken for a
range (`Constraint.parse_literal`). So a version that was written back is the one that is read.

Main statement: binding leaves a dependency alone or writes a version to it that is available and in
the declared range; in either case but the latter, and an exact version aside, no revision comes of
it, and a dependency that names a version stays as it is when it is bound again. It crashes when the
repository does, or when the candidates in the range cannot be sorted, which takes versions that are
not in order (`Repository.bind_settles`); there are such versions (`Repository.bind_cyclic`).
-/

set_option autoImplicit false
set_option relaxedAutoImplicit false

namespace ArtifactIndex

/-! ### Exact versions and ranges -/

/-- The literal of a version does not start with a bracket. -/
theorem Range.isRangeText_literal (v : Version) : isRangeText v.literal = false := by
  obtain ⟨c, cs, hliteral⟩ := List.exists_cons_of_ne_nil v.toList_literal_ne_nil
  have hmem : c ∈ v.literal.toList := hliteral ▸ List.mem_cons_self
  have hblank : ¬ Text.isBlank c := v.not_isBlank_of_mem c hmem
  have hadmits : Version.admits c := (Version.isLegal_iff.1 v.legal).2 c hmem
  have hstart : Text.trimStart v.literal.toList = c :: cs := by
    rw [hliteral, Text.trimStart_eq_self (by simpa using hblank)]
  rw [isRangeText, hstart]
  simp_all [Version.admits, isOpening]

namespace Constraint

variable {s : String} {v : Version} {range : Range}

theorem parse_eq_exact_iff :
    parse s = .ok (.exact v) ↔ Range.isRangeText s = false ∧ Version.parse s = .ok v := by
  unfold parse
  by_cases hrange : Range.isRangeText s
  · cases Range.parse s <;> simp [hrange, Except.map, Except.mapError]
  · cases Version.parse s <;> simp [hrange, Except.map, Except.mapError]

theorem isRangeText_of_parse (h : parse s = .ok (.range range)) : Range.isRangeText s := by
  by_contra hrange
  unfold parse at h
  cases hparse : Version.parse s <;> simp [hrange, hparse, Except.map, Except.mapError] at h

/-- The literal of a version stands for that version and no other constraint. -/
theorem parse_literal (v : Version) : parse v.literal = .ok (.exact v) :=
  parse_eq_exact_iff.2 ⟨Range.isRangeText_literal v, Version.parse_literal v⟩

end Constraint

/-! ### Every ending of a binding -/

/-- How binding a dependency ends, and the world it leaves, by what is declared, by what the
repository answers, and by what is found in the answer. Only a range asks the repository. -/
inductive Repository.Binds {ρ : Type} (repository : Repository ρ) (d : Dependency) (w : World ρ) :
    Ending (Except Error Binding × Dependency) × World ρ → Prop where
  | malformed {e : Constraint.Error} (h : Constraint.parse d.version = .error e) :
    Binds repository d w (.done (.error (.ofConstraint e), d), w)
  | exact {v : Version} (h : Constraint.parse d.version = .ok (.exact v)) :
    Binds repository d w (.done (.ok .exact, d), w)
  | crashed {range : Range} {after : World ρ} (h : Constraint.parse d.version = .ok (.range range))
    (hanswer : repository.availableRevisions d.program w = (.crashed, after)) :
    Binds repository d w (.crashed, after)
  | refused {range : Range} {e : Error} {after : World ρ}
    (h : Constraint.parse d.version = .ok (.range range))
    (hanswer : repository.availableRevisions d.program w = (.done (.error e), after)) :
    Binds repository d w (.done (.error e, d), after)
  | unsorted {range : Range} {candidates : List Revision} {after : World ρ}
    (h : Constraint.parse d.version = .ok (.range range))
    (hanswer : repository.availableRevisions d.program w = (.done (.ok candidates), after))
    (hhighest : range.highest? candidates = .crashed) :
    Binds repository d w (.crashed, after)
  | offered {range : Range} {candidates : List Revision} {found : Option Revision} {after : World ρ}
    (h : Constraint.parse d.version = .ok (.range range))
    (hanswer : repository.availableRevisions d.program w = (.done (.ok candidates), after))
    (hhighest : range.highest? candidates = .done found) :
    Binds repository d w (.done (d.bindTo found), after)

theorem Repository.binds_bind {ρ : Type} (repository : Repository ρ) (d : Dependency)
    (w : World ρ) : repository.Binds d w (repository.bind d w) := by
  unfold bind
  cases hparse : Constraint.parse d.version with
  | error e => exact .malformed hparse
  | ok constraint =>
    cases constraint with
    | exact v => exact .exact hparse
    | range range =>
      simp only [Call.andThen]
      rcases hanswer : repository.availableRevisions d.program w with
        ⟨(e | candidates) | _, after⟩
      · exact .refused hparse hanswer
      · simp only [Call.ofEnding]
        cases hhighest : range.highest? candidates with
        | done found => exact .offered hparse hanswer hhighest
        | crashed => exact .unsorted hparse hanswer hhighest
      · exact .crashed hparse hanswer

namespace Dependency

variable {d after : Dependency} {found : Option Revision}

theorem bindTo_ne_error {e : Error} : d.bindTo found ≠ (.error e, after) := by
  cases found <;> simp [bindTo]

theorem bindTo_ne_exact : d.bindTo found ≠ (.ok .exact, after) := by
  cases found <;> simp [bindTo]

theorem bindTo_eq_bound_iff {v : Version} :
    d.bindTo found = (.ok (.bound v), after) ↔
      (∃ r, found = some r ∧ r.version = v) ∧ after = { d with version := v.literal } := by
  cases found with
  | none => simp [bindTo]
  | some r =>
    simp only [bindTo, Prod.mk.injEq, Except.ok.injEq, Binding.bound.injEq, Option.some.injEq,
      exists_eq_left']
    refine and_congr_right ?_
    rintro rfl
    exact eq_comm

theorem bindTo_eq_unbound_iff : d.bindTo found = (.ok .unbound, after) ↔ found = none ∧ after = d := by
  cases found with
  | none => simp [bindTo, eq_comm]
  | some r => simp [bindTo]

end Dependency

namespace Repository

variable {ρ : Type} {repository : Repository ρ} {d after : Dependency} {w : World ρ} {v : Version}

theorem bind_eq_exact_iff :
    (repository.bind d w).1 = .done (.ok .exact, after) ↔
      (∃ v, Constraint.parse d.version = .ok (.exact v)) ∧ after = d := by
  have hbinds := repository.binds_bind d w
  generalize repository.bind d w = bound at hbinds ⊢
  cases hbinds <;> simp_all [Dependency.bindTo_ne_exact, @eq_comm _ d after]

theorem bind_eq_bound_iff :
    (repository.bind d w).1 = .done (.ok (.bound v), after) ↔
      (∃ range candidates r, Constraint.parse d.version = .ok (.range range) ∧
        (repository.availableRevisions d.program w).1 = .done (.ok candidates) ∧
        range.highest? candidates = .done (some r) ∧ r.version = v) ∧
      after = { d with version := v.literal } := by
  have hbinds := repository.binds_bind d w
  generalize repository.bind d w = bound at hbinds ⊢
  cases hbinds <;> simp_all [Dependency.bindTo_eq_bound_iff]

theorem bind_eq_unbound_iff :
    (repository.bind d w).1 = .done (.ok .unbound, after) ↔
      (∃ range candidates, Constraint.parse d.version = .ok (.range range) ∧
        (repository.availableRevisions d.program w).1 = .done (.ok candidates) ∧
        ∀ r ∈ candidates, r.version ∉ range) ∧ after = d := by
  simp only [← Range.highest?_eq_none_iff]
  have hbinds := repository.binds_bind d w
  generalize repository.bind d w = bound at hbinds ⊢
  cases hbinds <;> simp_all [Dependency.bindTo_eq_unbound_iff]

theorem bind_eq_error_iff {e : Error} :
    (repository.bind d w).1 = .done (.error e, after) ↔
      ((∃ c, Constraint.parse d.version = .error c ∧ .ofConstraint c = e) ∨
        ∃ range, Constraint.parse d.version = .ok (.range range) ∧
          (repository.availableRevisions d.program w).1 = .done (.error e)) ∧ after = d := by
  have hbinds := repository.binds_bind d w
  generalize repository.bind d w = bound at hbinds ⊢
  cases hbinds <;> simp_all [Dependency.bindTo_ne_error, @eq_comm _ d after]

theorem bind_eq_crashed_iff :
    (repository.bind d w).1 = .crashed ↔
      ∃ range, Constraint.parse d.version = .ok (.range range) ∧
        ((repository.availableRevisions d.program w).1 = .crashed ∨
          ∃ candidates, (repository.availableRevisions d.program w).1 = .done (.ok candidates) ∧
            range.highest? candidates = .crashed) := by
  have hbinds := repository.binds_bind d w
  generalize repository.bind d w = bound at hbinds ⊢
  cases hbinds <;> simp_all

/-- Offered revisions whose versions are in order do not crash the binding. -/
theorem bind_ne_crashed {candidates : List Revision}
    (hanswer : (repository.availableRevisions d.program w).1 = .done (.ok candidates))
    (hordered : Revision.VersionsOrdered (· ∈ candidates)) :
    (repository.bind d w).1 ≠ .crashed := by
  rw [Ne, bind_eq_crashed_iff, hanswer]
  rintro ⟨range, -, hcrashed | ⟨offered, hoffered, hhighest⟩⟩
  · simp at hcrashed
  · obtain rfl : candidates = offered := by simpa using hoffered
    rw [Range.highest?_of_versionsOrdered hordered] at hhighest
    simp at hhighest

end Repository

/-! ### Dependencies that name a version -/

namespace Dependency

variable {d : Dependency} {v : Version} {r : Revision}

/-- What a dependency is asked for is what binding finds declared. -/
theorem revision_eq_ok_iff :
    d.revision = .ok r ↔
      Constraint.parse d.version = .ok (.exact r.version) ∧ r.program = d.program := by
  rw [Constraint.parse_eq_exact_iff, revision, isRange]
  by_cases hrange : Range.isRangeText d.version
  · simp [hrange]
  · cases hparse : Version.parse d.version with
    | error e => simp [hrange]
    | ok v =>
      obtain ⟨p, w⟩ := r
      simp [hrange, eq_comm, and_comm]

theorem exists_revision_eq_error (h : d.isRange) : ∃ u, d.revision = .error u :=
  ⟨_, if_pos h⟩

/-- The dependency is no range and stands for its program in this version; whatever repository it is
bound against is not even asked. -/
structure Names (d : Dependency) (v : Version) : Prop where
  isRange_eq : d.isRange = false
  revision_eq : d.revision = .ok ⟨d.program, v⟩
  bind_eq : ∀ {ρ : Type} (repository : Repository ρ) (w : World ρ),
    repository.bind d w = (.done (.ok .exact, d), w)

theorem names_of_parse (h : Constraint.parse d.version = .ok (.exact v)) : d.Names v where
  isRange_eq := (Constraint.parse_eq_exact_iff.1 h).1
  revision_eq := revision_eq_ok_iff.2 ⟨h, rfl⟩
  bind_eq repository w := by
    rw [Repository.bind, h]
    rfl

end Dependency

/-! ### Main statement -/

/-- A dependency that names a version is left alone. A range is bound to the version of a revision
that is available and in the range, which is all that is written to the dependency, and then it
names that version; or no available revision is in the range, and then it names none. What cannot be
read and a refusal leave the dependency as it is. The binding crashes with the repository, or when
the candidates cannot be sorted, which does not happen to versions that are in order. -/
theorem Repository.bind_settles {ρ : Type} (repository : Repository ρ) (d : Dependency)
    (w : World ρ) :
    let ending := (repository.bind d w).1
    let answer := (repository.availableRevisions d.program w).1
    (∀ result after, ending = .done (result, after) → (∀ v, result ≠ .ok (.bound v)) → after = d) ∧
    (ending = .done (.ok .exact, d) ↔ ∃ v, d.Names v) ∧
    (∀ v after, ending = .done (.ok (.bound v), after) →
      after = { d with version := v.literal } ∧ after.Names v ∧
      ∃ range candidates, Constraint.parse d.version = .ok (.range range) ∧
        answer = .done (.ok candidates) ∧ v ∈ range ∧ ∃ r ∈ candidates, r.version = v) ∧
    (ending = .done (.ok .unbound, d) ↔
      ∃ range candidates, Constraint.parse d.version = .ok (.range range) ∧
        answer = .done (.ok candidates) ∧ ∀ r ∈ candidates, r.version ∉ range) ∧
    (ending = .done (.ok .unbound, d) → ∃ u, d.revision = .error u) ∧
    (∀ e, ending = .done (.error e, d) ↔
      (∃ c, Constraint.parse d.version = .error c ∧ .ofConstraint c = e) ∨
        ∃ range, Constraint.parse d.version = .ok (.range range) ∧ answer = .done (.error e)) ∧
    (ending = .crashed ↔
      ∃ range, Constraint.parse d.version = .ok (.range range) ∧
        (answer = .crashed ∨ ∃ candidates, answer = .done (.ok candidates) ∧
          range.highest? candidates = .crashed)) ∧
    ∀ candidates, answer = .done (.ok candidates) →
      Revision.VersionsOrdered (· ∈ candidates) → ending ≠ .crashed := by
  intro ending answer
  refine ⟨?_, ?_, ?_, bind_eq_unbound_iff.trans (and_iff_left rfl), ?_,
    fun e ↦ bind_eq_error_iff.trans (and_iff_left rfl), bind_eq_crashed_iff,
    fun candidates ↦ bind_ne_crashed⟩
  · rintro (e | _ | v | _) after hending hbound
    · exact (bind_eq_error_iff.1 hending).2
    · exact (bind_eq_exact_iff.1 hending).2
    · exact absurd rfl (hbound v)
    · exact (bind_eq_unbound_iff.1 hending).2
  · constructor
    · intro hexact
      obtain ⟨⟨v, hparse⟩, -⟩ := bind_eq_exact_iff.1 hexact
      exact ⟨v, Dependency.names_of_parse hparse⟩
    · rintro ⟨v, hnames⟩
      exact congrArg Prod.fst (hnames.bind_eq repository w)
  · intro v after hbound
    obtain ⟨⟨range, candidates, r, hparse, hanswer, hhighest, hversion⟩, rfl⟩ :=
      bind_eq_bound_iff.1 hbound
    obtain ⟨hmem, hrange⟩ := Range.mem_of_highest? hhighest
    exact ⟨rfl, Dependency.names_of_parse (Constraint.parse_literal v), range, candidates, hparse,
      hanswer, hversion ▸ hrange, r, hmem, hversion⟩
  · intro hunbound
    obtain ⟨⟨range, -, hparse, -⟩, -⟩ := bind_eq_unbound_iff.1 hunbound
    exact Dependency.exists_revision_eq_error (Constraint.isRangeText_of_parse hparse)

/-- The world of a script where there are no files. -/
def Script.withoutFiles (s : Script) : World Script :=
  ⟨⟨[], ⟨[], 0, FileSystem.directoryMode⟩, 0⟩, s⟩

/-- A range with white space in front of it, bound to the lower of two versions, and a range that
holds neither. -/
theorem Repository.bind_settles_listed :
    let p : Program := ⟨"g", "a"⟩
    let lower : Version := ⟨"1.6", by decide +kernel⟩
    let upper : Version := ⟨"2.1", by decide +kernel⟩
    let script := Script.empty.setVersions p (some [⟨p, lower⟩, ⟨p, upper⟩])
    let w := script.withoutFiles
    let inside : Dependency := ⟨p, " [1.0,2.0)", .compile, false⟩
    let above : Dependency := ⟨p, "[3,)", .compile, false⟩
    let after : Dependency := ⟨p, "1.6", .compile, false⟩
    (Script.repository.bind inside w).1 = .done (.ok (.bound lower), after) ∧ after.Names lower ∧
      (Script.repository.bind above w).1 = .done (.ok .unbound, above) ∧
      ∃ u, above.revision = .error u := by
  intro p lower upper script w inside above after
  have hinside : (Script.repository.bind inside w).1 = .done (.ok (.bound lower), after) := by
    decide +kernel
  have habove : (Script.repository.bind above w).1 = .done (.ok .unbound, above) := by
    decide +kernel
  obtain ⟨-, -, hbound, -⟩ := bind_settles Script.repository inside w
  obtain ⟨-, -, -, -, hunbound, -⟩ := bind_settles Script.repository above w
  obtain ⟨-, hnames, -⟩ := hbound lower after hinside
  exact ⟨hinside, hnames, habove, hunbound habove⟩

/-- A repository that offers the cyclic revisions. -/
def Script.cyclic : Script :=
  Script.empty.setVersions ⟨"g", "b"⟩ (some Revision.cyclic)

/-- The repository answers, and the range holds every version of its answer. -/
theorem Repository.bind_cyclic :
    let d : Dependency := ⟨⟨"g", "b"⟩, "[1,)", .compile, false⟩
    let w := Script.cyclic.withoutFiles
    (Script.repository.availableRevisions d.program w).1 = .done (.ok Revision.cyclic) ∧
      (∀ range, Constraint.parse d.version = .ok (.range range) →
        ∀ r ∈ Revision.cyclic, r.version ∈ range) ∧
      (Script.repository.bind d w).1 = .crashed := by
  intro d w
  obtain ⟨range, hparse, hall, hcrashed⟩ := Range.highest?_cyclic
  have hanswer : (Script.repository.availableRevisions d.program w).1 =
      .done (.ok Revision.cyclic) := by
    decide +kernel
  refine ⟨hanswer, fun other hother ↦ ?_, ?_⟩
  · obtain rfl : range = other := by simpa using hparse.symm.trans hother
    exact hall
  · exact bind_eq_crashed_iff.2 ⟨range, hparse, .inr ⟨_, hanswer, hcrashed⟩⟩

end ArtifactIndex
