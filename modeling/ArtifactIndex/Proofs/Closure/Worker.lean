import ArtifactIndex.Proofs.Closure.Course

/-!
# How the work on a revision ends

Whatever the collaborators do, the work on a revision sends reports and then one closing event.
`process_closes` reads both off the record of the calls: the closing event names the revision asked
for, a resource comes with the outcome `indexed` and no other, every report has the revision of the
archive that was resolved as its source, and after that archive the calls and the reports take the
course of the work on it (`Course`). Answers that only say that something could not be looked up
count for nothing: with empty answers in their place the work is the same.

The outcome is the one that `Outcome.ofLog` finds in the record, but for revisions on offer that
could not be sorted. Then the work is aborted although no collaborator crashed (`process_cyclic`).
-/

set_option autoImplicit false
set_option relaxedAutoImplicit false

namespace ArtifactIndex

/-! ### Stale snapshots on record -/

/-- Calls of one kind and no events, and a crash when one of the calls crashed. -/
def Quiet {α : Type} (kind : Observation → Bool) (ending : Ending α) (log : List Observation)
    (events : List Event) : Prop :=
  (∀ o ∈ log, kind o) ∧ ending.isCrash = log.any Observation.isCrash ∧ events = []

namespace Work.Records

variable {ρ α β : Type} {kind : Observation → Bool}

theorem quiet_done (value : α) :
    (Work.done value : Work (Recorded ρ) α).Records (.done value) (Quiet kind) :=
  ofEnding ⟨by simp, rfl, rfl⟩

theorem quiet_recorded (call : Call ρ α) {observe : Ending α → Observation}
    (hkind : ∀ ending, kind (observe ending))
    (hcrash : ∀ ending, (observe ending).isCrash = ending.isCrash) :
    (Work.call (call.recorded observe)).Records (.call call) (Quiet kind) := by
  refine (recorded call observe).imp ?_
  rintro ending _ _ ⟨rfl, rfl⟩
  exact ⟨by simpa using hkind ending, by simp [hcrash], rfl⟩

theorem quiet_andThen {work : Work (Recorded ρ) α} {plain : Work ρ α}
    {next : α → Work (Recorded ρ) β} {plainNext : α → Work ρ β}
    (h : work.Records plain (Quiet kind))
    (hnext : ∀ value, (next value).Records (plainNext value) (Quiet kind)) :
    (work.andThen next).Records (plain.andThen plainNext) (Quiet kind) := by
  refine (h.andThen hnext).imp ?_
  rintro ending log events (⟨rfl, hquiet⟩ |
    ⟨value, first, rest, sent, later, rfl, rfl, ⟨hfirst, hfirstcrash, rfl⟩,
      ⟨hrest, hrestcrash, rfl⟩⟩)
  · exact hquiet
  · refine ⟨List.forall_mem_append.2 ⟨hfirst, hrest⟩, ?_, rfl⟩
    rw [List.any_append, ← hfirstcrash, hrestcrash]
    rfl

end Work.Records

namespace Repository

variable {ρ : Type} (repository : Repository ρ) (builder : Builder ρ)

theorem records_dropCached (time : Timestamp) (a : Archive) :
    (Work.call (repository.recorded.dropCached time a)).Records
      (.call (repository.dropCached time a)) (Quiet Observation.isUpkeep) := by
  unfold dropCached
  rw [Work.call_andThen, Work.call_andThen]
  refine .quiet_andThen (.quiet_recorded _ (fun _ ↦ rfl) fun _ ↦ rfl) fun path ↦ ?_
  refine (Work.Records.changeFiles _).imp ?_
  rintro ending _ _ ⟨hcrash, rfl, rfl⟩
  exact ⟨by simp, hcrash, rfl⟩

theorem records_dropStaleFrom (a : Archive) (sources : List String) :
    (Work.call (repository.recorded.dropStaleFrom a sources)).Records
      (.call (repository.dropStaleFrom a sources)) (Quiet Observation.isUpkeep) := by
  induction sources with
  | nil => exact .quiet_done ()
  | cons source rest ih =>
    unfold dropStaleFrom
    rw [Work.call_andThen, Work.call_andThen]
    refine .quiet_andThen (.quiet_recorded _ (fun _ ↦ rfl) fun _ ↦ rfl) fun answer ↦ ?_
    rcases answer with e | _ | time
    · exact ih
    · exact ih
    · simp only
      rw [Work.call_andThen, Work.call_andThen]
      exact .quiet_andThen (repository.records_dropCached time a) fun _ ↦
        repository.records_dropCached time a.pom

theorem records_dropStale (a : Archive) :
    (Work.call (repository.recorded.dropStale a)).Records (.call (repository.dropStale a))
      (Quiet Observation.isUpkeep) := by
  unfold dropStale
  split
  · rw [Work.call_andThen, Work.call_andThen]
    exact .quiet_andThen (.quiet_recorded _ (fun _ ↦ rfl) fun _ ↦ rfl) fun sources ↦
      repository.records_dropStaleFrom a sources
  · exact .quiet_done ()

/-! ### Dependencies on record -/

theorem records_bind (d : Dependency) :
    (Work.call (repository.recorded.bind d)).Records (.call (repository.bind d))
      fun ending log events ↦ Bound d ending log ∧ events = [] := by
  unfold bind
  cases hparse : Constraint.parse d.version with
  | error e => exact .ofEnding ⟨.malformed hparse, rfl⟩
  | ok constraint =>
    cases constraint with
    | exact version => exact .ofEnding ⟨.exact hparse, rfl⟩
    | range range =>
      simp only
      rw [Work.call_andThen, Work.call_andThen]
      refine .recorded_andThen ⟨.crashed hparse, rfl⟩ fun answer ↦ ?_
      rcases answer with e | candidates
      · exact .ofEnding ⟨.refused hparse, rfl⟩
      · exact .ofEnding ⟨.offered hparse, rfl⟩

/-- A binding that ends is followed by its event. -/
theorem records_report (source : Revision) (d : Dependency) :
    (repository.recorded.report source d).Records (repository.report source d)
      fun ending log events ↦ (ending = .crashed ∧ Bound d .crashed log ∧ events = []) ∨
        ∃ bound, ending = .done () ∧ Bound d (.done bound) log ∧
          events = [.ofBinding source bound] := by
  refine ((repository.records_bind d).andThen fun bound ↦ .send _).imp ?_
  rintro ending log events (hcrashed |
    ⟨bound, first, rest, sent, later, rfl, rfl, ⟨hbound, rfl⟩, ⟨rfl, rfl, rfl⟩⟩)
  · exact .inl hcrashed
  · exact .inr ⟨bound, rfl, by rwa [List.append_nil], rfl⟩

theorem records_reportAll (source : Revision) (ds : List Dependency) :
    (repository.recorded.reportAll source ds).Records (repository.reportAll source ds)
      (Reported source ds) := by
  induction ds with
  | nil => exact .ofEnding .nil
  | cons d ds ih =>
    refine ((repository.records_report source d).andThen fun _ ↦ ih).imp ?_
    rintro ending log events (⟨rfl, hfirst⟩ |
      ⟨value, first, rest, sent, later, rfl, rfl, hfirst, hrest⟩)
    · rcases hfirst with ⟨-, hbound, rfl⟩ | ⟨bound, hdone, -⟩
      · exact .crashed hbound
      · cases hdone
    · rcases hfirst with ⟨hcrashed, -⟩ | ⟨bound, -, hbound, rfl⟩
      · cases hcrashed
      · exact .sent hbound hrest

theorem records_discover (source : Revision) :
    (repository.recorded.discover source).Records (repository.discover source)
      (Discovery source) := by
  unfold discover
  refine .recorded_andThen .crashed fun answer ↦ ?_
  rcases answer with e | _ | b
  · exact .ofEnding (.undescribed (by simp))
  · exact .ofEnding (.undescribed (by simp))
  · exact (repository.records_reportAll source b.followed).imp fun _ _ _ ↦ .described

/-! ### The resource on record -/

theorem records_build (a : Archive) :
    (Work.call (repository.recorded.build builder.recorded a)).Records
      (.call (repository.build builder a)) fun built log events ↦
        Building built log ∧ events = [] := by
  unfold build
  rw [Work.call_andThen, Work.call_andThen]
  refine .recorded_andThen ⟨.crashed, rfl⟩ fun answer ↦ ?_
  rcases answer with e | path
  · exact .ofEnding ⟨.refused e, rfl⟩
  · refine (Work.Records.recorded (builder path a) Observation.built).imp ?_
    rintro built _ _ ⟨rfl, rfl⟩
    exact ⟨.fetched path built, rfl⟩

/-! ### The whole work on record -/

/-- The building decides between a resource and a failure. -/
theorem records_ofBuilt (a : Archive) :
    ((Work.call (repository.recorded.build builder.recorded a)).andThen fun built ↦
        .done (Conclusion.ofBuilt built)).Records
      ((Work.call (repository.build builder a)).andThen fun built ↦ .done (.ofBuilt built))
      fun ending log events ↦ ∃ built, ending = built.map Conclusion.ofBuilt ∧
        Building built log ∧ events = [] := by
  refine ((repository.records_build builder a).andThen fun built ↦ .done _).imp ?_
  rintro ending log events (⟨rfl, hbuilding, rfl⟩ |
    ⟨built, first, rest, sent, later, rfl, rfl, ⟨hbuilding, rfl⟩, ⟨rfl, rfl, rfl⟩⟩)
  · exact ⟨.crashed, rfl, hbuilding, rfl⟩
  · exact ⟨.done built, rfl, by rwa [List.append_nil], rfl⟩

theorem records_pursue (a : Archive) :
    ((Work.call (repository.recorded.dropStale a)).andThen fun _ ↦
        (repository.recorded.discover a.revision).andThen fun _ ↦
          (Work.call (repository.recorded.build builder.recorded a)).andThen fun built ↦
            .done (Conclusion.ofBuilt built)).Records
      ((Work.call (repository.dropStale a)).andThen fun _ ↦
        (repository.discover a.revision).andThen fun _ ↦
          (Work.call (repository.build builder a)).andThen fun built ↦ .done (.ofBuilt built))
      (Course a) := by
  refine ((repository.records_dropStale a).andThen fun _ ↦
    (repository.records_discover a.revision).andThen fun _ ↦
      repository.records_ofBuilt builder a).imp ?_
  rintro ending log events (⟨rfl, hkind, hcrash, rfl⟩ |
    ⟨value, upkeep, rest, sent, later, rfl, rfl, ⟨hkind, hcrash, rfl⟩, hrest⟩)
  · exact .inUpkeep hkind hcrash.symm
  · rcases hrest with ⟨rfl, hdiscovery⟩ |
      ⟨found, search, building, sent, built, rfl, rfl, hdiscovery, ⟨ending, rfl, hbuilding, rfl⟩⟩
    · exact .inDiscovery hkind hcrash.symm hdiscovery
    · rw [List.nil_append, List.append_nil]
      exact .whole hkind hcrash.symm hdiscovery hbuilding

/-- The record of the whole work starts with the archive; nothing follows where there is none. -/
inductive Concludes : Ending Conclusion → List Observation → List Event → Prop where
  | crashed : Concludes .crashed [.resolved .crashed] []
  | missing {answer : Except Error (Option Archive)} (h : ∀ a, answer ≠ .ok (some a)) :
    Concludes (.done (.missing, none)) [.resolved (.done answer)] []
  | pursued {a : Archive} {ending : Ending Conclusion} {rest : List Observation}
    {events : List Event} (h : Course a ending rest events) :
    Concludes ending (.resolved (.done (.ok (some a))) :: rest) events

theorem Concludes.exists_course {ending : Ending Conclusion} {log : List Observation}
    {events : List Event} (h : Concludes ending log events) :
    ∃ answer rest, log = .resolved answer :: rest ∧
      (∀ e ∈ events, e.isReport ∧
        ∃ a, answer = .done (.ok (some a)) ∧ e.source? = some a.revision) ∧
      (ending.conclusion.1 = Outcome.ofLog log ∨
        ending.conclusion.1 = .aborted ∧ EndsUnordered log) ∧
      (ending.conclusion.2.isSome ↔ ending.conclusion.1 = .indexed) ∧
      (ending.conclusion.1 = .missing → events = []) ∧
      ((∀ a, answer ≠ .done (.ok (some a))) → rest = []) ∧
      ∀ a, answer = .done (.ok (some a)) → Course a ending rest events := by
  cases h with
  | crashed => exact ⟨.crashed, [], rfl, by simp, .inl rfl, by simp [Ending.conclusion]⟩
  | @missing answer habsent =>
    have hanswer : ∀ a, Ending.done answer ≠ .done (.ok (some a)) := by simpa using habsent
    refine ⟨.done answer, [], rfl, by simp, .inl ?_, by simp [Ending.conclusion], fun _ ↦ rfl,
      fun _ ↦ rfl, fun a ha ↦ absurd ha (hanswer a)⟩
    rcases answer with e | _ | a
    · rfl
    · rfl
    · exact absurd rfl (habsent a)
  | @pursued a _ rest _ hcourse =>
    have hfirst : [Observation.resolved (.done (.ok (some a)))].any Observation.isCrash = false :=
      rfl
    refine ⟨_, rest, rfl, fun e he ↦ ?_, ?_, hcourse.isSome_resource_iff,
      fun hmissing ↦ absurd hmissing hcourse.present, fun habsent ↦ absurd rfl (habsent a), ?_⟩
    · have hsource := hcourse.source?_eq e he
      exact ⟨e.isReport_of_source? hsource, a, rfl, hsource⟩
    · rcases hcourse.outcome with houtcome | ⟨haborted, hunordered⟩
      · refine .inl (houtcome.trans (Outcome.ofLog_append hfirst ?_).symm)
        simp [Observation.isAbsence, Observation.isFailure, Ending.isRefusal]
      · exact .inr ⟨haborted, hunordered.prepend hfirst⟩
    · rintro _ ⟨⟩
      exact hcourse

theorem records_conclude (r : Revision) :
    (repository.recorded.conclude builder.recorded r).Records (repository.conclude builder r)
      Concludes := by
  unfold conclude
  refine .recorded_andThen .crashed fun answer ↦ ?_
  rcases answer with e | _ | a
  · exact .ofEnding (.missing (by simp))
  · exact .ofEnding (.missing (by simp))
  · exact (repository.records_pursue builder a).imp fun _ _ _ ↦ .pursued

/-! ### Answers that are passed over -/

theorem lenient_dropStaleFrom (a : Archive) (sources : List String) :
    repository.lenient.dropStaleFrom a sources = repository.dropStaleFrom a sources := by
  induction sources with
  | nil => rfl
  | cons source rest ih =>
    funext w
    unfold dropStaleFrom
    rw [ih]
    unfold lenient Call.andThen
    rcases hcall : repository.metadataTimestamp source a.revision w with
      ⟨(e | _ | time) | _, after⟩ <;> simp only [hcall] <;> rfl

theorem lenient_report (source : Revision) (d : Dependency) :
    repository.lenient.report source d = repository.report source d := by
  unfold report bind
  cases Constraint.parse d.version with
  | error e => rfl
  | ok constraint =>
    cases constraint with
    | exact version => rfl
    | range range =>
      funext w
      unfold lenient Work.andThen Work.call Call.andThen
      rcases hcall : repository.availableRevisions d.program w with
        ⟨(e | candidates) | _, after⟩ <;> simp only [hcall] <;> rfl

theorem lenient_discover (source : Revision) :
    repository.lenient.discover source = repository.discover source := by
  have hall : repository.lenient.reportAll source = repository.reportAll source := by
    funext ds
    induction ds with
    | nil => rfl
    | cons d ds ih =>
      unfold reportAll
      rw [lenient_report, ih]
  funext w
  unfold discover
  rw [hall]
  unfold lenient Work.andThen Work.call Call.andThen
  rcases hcall : repository.buildDescriptor source w with
    ⟨(e | _ | b) | _, after⟩ <;> simp only [hcall] <;> rfl

/-- With empty answers in the place of errors that decide nothing the work is the same. -/
theorem lenient_process (r : Revision) :
    repository.lenient.process builder r = repository.process builder r := by
  have hstale : repository.lenient.dropStale = repository.dropStale := by
    funext a
    unfold dropStale
    rw [funext (repository.lenient_dropStaleFrom a)]
    rfl
  have hconclude : repository.lenient.conclude builder r = repository.conclude builder r := by
    unfold conclude
    rw [hstale, funext repository.lenient_discover]
    rfl
  unfold process
  rw [hconclude]

/-! ### Main statement -/

/-- The calls made while the revision is worked on, in turn. -/
def log (r : Revision) (w : World ρ) : List Observation :=
  (repository.recorded.process builder.recorded r w.recorded).world.state.log

/-- The work sends reports on the archive that was resolved and closes with one event; the record
of the calls, which does not disturb the work, tells all of them. The first call asks for the
archive, and where there is one its course follows; where there is none, nothing follows. The
outcome is the one on record, unless the last call offered revisions that could not be sorted. -/
theorem process_closes (r : Revision) (w : World ρ) :
    (repository.recorded.process builder.recorded r w.recorded).plain =
        repository.process builder r w ∧
      repository.lenient.process builder r w = repository.process builder r w ∧
      ∃ answer rest reports outcome resource,
        repository.log builder r w = .resolved answer :: rest ∧
        (repository.process builder r w).events = reports ++ [.finished r outcome resource] ∧
        (∀ e ∈ reports, e.isReport ∧
          ∃ a, answer = .done (.ok (some a)) ∧ e.source? = some a.revision) ∧
        (outcome = Outcome.ofLog (repository.log builder r w) ∨
          outcome = .aborted ∧ EndsUnordered (repository.log builder r w)) ∧
        (resource.isSome ↔ outcome = .indexed) ∧
        (outcome = .missing → reports = []) ∧
        ((∀ a, answer ≠ .done (.ok (some a))) → rest = []) ∧
        ∀ a, answer = .done (.ok (some a)) →
          ∃ ending, Course a ending rest reports ∧ ending.conclusion = (outcome, resource) := by
  obtain ⟨log, hlog, hplain, hconcludes⟩ := repository.records_conclude builder r w.recorded
  have hrecord : repository.log builder r w = log := hlog.trans (List.nil_append log)
  -- the recorded work and the plain one end alike, so both close with the same event
  set recorded := repository.recorded.conclude builder.recorded r w.recorded with hrecorded
  have hconclude : repository.conclude builder r w = recorded.plain := hplain.symm
  have hprocess : repository.process builder r w = ⟨recorded.ending.map fun _ ↦ (),
      recorded.events ++ [.ofEnding r recorded.ending], recorded.world.plain⟩ := by
    unfold process
    rw [hconclude]
    rfl
  refine ⟨hprocess.symm, congrFun (repository.lenient_process builder r) w, ?_⟩
  rw [hprocess, hrecord, Event.ofEnding_eq]
  obtain ⟨answer, rest, hfirst, hreports, houtcome, hresource, hmissing, hnone, hcourse⟩ :=
    hconcludes.exists_course
  exact ⟨answer, rest, recorded.events, recorded.ending.conclusion.1,
    recorded.ending.conclusion.2, hfirst, rfl, hreports, houtcome, hresource, hmissing, hnone,
    fun a ha ↦ ⟨recorded.ending, hcourse a ha, rfl⟩⟩

/-- The repository crashes when it is asked for revisions, which it is for the second of three
dependencies: the first was reported, and of the third nothing is heard. -/
theorem process_closes_midway :
    let program : String → Program := Program.mk "g"
    let source : Revision := ⟨program "root", .zero⟩
    let b : BuildDescriptor := ⟨[⟨program "b", "0", .compile, false⟩,
      ⟨program "c", "[0,1)", .compile, false⟩, ⟨program "d", "0", .compile, false⟩]⟩
    let repository := { Script.repository with availableRevisions := fun _ ↦ .crash }
    let w := (Script.empty.addArtifact ⟨source, none, some b.dependencies, none, .usual, .usual,
      .usual, .usual⟩).withoutFiles
    let calls : List Observation := [.described (.done (.ok (some b))), .offered .crashed]
    (repository.process Script.builder source w).events =
        [.discovered source ⟨program "b", .zero⟩, .finished source .aborted none] ∧
      repository.log Script.builder source w =
        .resolved (.done (.ok (some (.jar source)))) :: calls ∧
      ∃ ending, Course (.jar source) ending calls [.discovered source ⟨program "b", .zero⟩] ∧
        ending.conclusion = (.aborted, none) := by
  intro program source b repository w calls
  have hevents : (repository.process Script.builder source w).events =
      [.discovered source ⟨program "b", .zero⟩] ++ [.finished source .aborted none] := by
    decide +kernel
  have hlog : repository.log Script.builder source w =
      .resolved (.done (.ok (some (.jar source)))) :: calls := by
    decide +kernel
  obtain ⟨-, -, answer, rest, reports, outcome, resource, hfirst, hsent, -, -, -, -, -, hcourse⟩ :=
    process_closes repository Script.builder source w
  obtain ⟨hanswer, rfl⟩ := List.cons.inj (hlog.symm.trans hfirst)
  obtain ⟨rfl, hfinished⟩ := List.append_inj' (hevents.symm.trans hsent) rfl
  obtain ⟨ending, hending, hconclusion⟩ := hcourse _ (Observation.resolved.inj hanswer).symm
  obtain ⟨rfl, rfl⟩ : .aborted = outcome ∧ none = resource := by simpa using hfinished
  exact ⟨hevents, hlog, ending, hending, hconclusion⟩

/-- Every call is answered, and still the work is aborted. -/
theorem process_cyclic :
    let source : Revision := ⟨⟨"g", "a"⟩, .zero⟩
    let d : Dependency := ⟨⟨"g", "b"⟩, "[1,)", .compile, false⟩
    let w := (Script.cyclic.addArtifact ⟨source, none, some [d], none, .usual, .usual, .usual,
      .usual⟩).withoutFiles
    (Script.repository.log Script.builder source w).any Observation.isCrash = false ∧
      (Script.repository.process Script.builder source w).events =
        [.finished source .aborted none] := by
  decide +kernel

end Repository
end ArtifactIndex
