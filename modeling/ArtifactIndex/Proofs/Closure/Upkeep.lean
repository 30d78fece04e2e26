import ArtifactIndex.Closure.Work
import ArtifactIndex.Proofs.Closure.Binding
import ArtifactIndex.Proofs.FileSystem.Pruning

/-!
# Outdated copies of snapshots

Before the build descriptor of a revision is asked for, copies of a snapshot that are older than
what is on offer are removed. `Repository.Consults` says who is asked for the time of the last
update: one source after the other, past refusals and empty answers, up to the first that gives a
time. `Repository.Upkeep` says what has been done by then: nothing for a release, nothing to any
file where no source gives a time, and else the files of the archive and of its build descriptor,
each of them if it was modified before that time, have gone and nothing else has changed.

Main statement: the work on a revision is this upkeep, followed by the rest of the work in the world
that the upkeep leaves, so that everything is removed that will be before the build descriptor and
the archive are asked for (`Repository.process_upkeep`).
-/

set_option autoImplicit false
set_option relaxedAutoImplicit false

namespace ArtifactIndex

variable {ρ α : Type}

/-! ### Calls that only ask -/

/-- The call comes to an answer and changes no file. -/
def Call.Inquires (call : Call ρ α) : Prop :=
  ∀ w, ∃ answer after, call w = (.done answer, after) ∧ after.files = w.files

namespace Repository

/-- No file is changed by asking for an archive, for sources and times or for the place of a cached
file, and none of these but the first crashes. -/
structure Attentive (repository : Repository ρ) : Prop where
  resolveArchive : ∀ r w, (repository.resolveArchive r w).2.files = w.files
  snapshotSources : repository.snapshotSources.Inquires
  metadataTimestamp : ∀ source r, (repository.metadataTimestamp source r).Inquires
  localFile : ∀ a, (repository.localFile a).Inquires

variable (repository : Repository ρ)

/-- Asking the sources in turn, from one world to another, when they last updated the revision. The
first time that is given is the outcome, and the sources behind it are not asked. -/
inductive Consults (r : Revision) : List String → World ρ → Option Timestamp → World ρ → Prop where
  | exhausted (w : World ρ) : Consults r [] w none w
  | passed {source : String} {rest : List String} {w next after : World ρ}
    {answer : Except Error (Option Timestamp)} {time : Option Timestamp}
    (hanswer : repository.metadataTimestamp source r w = (.done answer, next))
    (hpassed : ∀ t, answer ≠ .ok (some t)) (hrest : Consults r rest next time after) :
    Consults r (source :: rest) w time after
  | dated {source : String} {rest : List String} {w after : World ρ} {t : Timestamp}
    (hanswer : repository.metadataTimestamp source r w = (.done (.ok (some t)), after)) :
    Consults r (source :: rest) w (some t) after

/-- What has been done about cached files when the build descriptor of an archive is asked for. -/
inductive Upkeep (a : Archive) (w ready : World ρ) : Prop where
  | release (hrelease : a.isSnapshot = false) (hready : ready = w)
  | undated (sources : List String) (listed : World ρ) (hsnapshot : a.isSnapshot)
    (hsources : repository.snapshotSources w = (.done sources, listed))
    (hconsults : repository.Consults a.revision sources listed none ready)
    (hfiles : ready.files = w.files)
  | dated (sources : List String) (t : Timestamp) (cached pom : String)
    (listed consulted located between asked : World ρ) (hsnapshot : a.isSnapshot)
    (hsources : repository.snapshotSources w = (.done sources, listed))
    (hconsults : repository.Consults a.revision sources listed (some t) consulted)
    (hcached : repository.localFile a consulted = (.done cached, located))
    (hbetween : between.state = located.state ∧ w.files.Pruned t [cached] between.files)
    (hpom : repository.localFile a.pom between = (.done pom, asked))
    (hready : ready.state = asked.state ∧ w.files.Pruned t [cached, pom] ready.files)

/-- The work that follows the upkeep: the build descriptor is asked for and what it declares is
reported, and then the archive is fetched and described. -/
def survey (builder : Builder ρ) (a : Archive) : Work ρ Conclusion :=
  (repository.discover a.revision).andThen fun _ ↦
    (Work.call (repository.build builder a)).andThen fun built ↦ .done (.ofBuilt built)

variable {repository} {a : Archive} {w after : World ρ}

/-! ### The upkeep of a snapshot -/

theorem dropCached_eq {path : String} (time : Timestamp)
    (h : repository.localFile a w = (.done path, after)) :
    repository.dropCached time a w =
      (.done (), { after with files := after.files.dropOlder path time }) := by
  rw [dropCached, Call.andThen, h]
  rfl

/-- The sources are consulted first; a time that one of them gives is what the cached files are
dropped by. -/
theorem dropStaleFrom_eq (h : repository.Attentive) (a : Archive) (sources : List String)
    (w : World ρ) :
    ∃ time asked, repository.Consults a.revision sources w time asked ∧ asked.files = w.files ∧
      repository.dropStaleFrom a sources w =
        match time with
        | none => (.done (), asked)
        | some t =>
          ((repository.dropCached t a).andThen fun _ ↦ repository.dropCached t a.pom) asked := by
  induction sources generalizing w with
  | nil => exact ⟨none, w, .exhausted w, rfl, rfl⟩
  | cons source rest ih =>
    obtain ⟨answer, next, hanswer, hnext⟩ := h.metadataTimestamp source a.revision w
    rw [dropStaleFrom, Call.andThen, hanswer]
    by_cases hdated : ∃ t, answer = .ok (some t)
    · obtain ⟨t, rfl⟩ := hdated
      exact ⟨some t, next, .dated hanswer, hnext, rfl⟩
    · rw [not_exists] at hdated
      obtain ⟨time, asked, hconsults, hasked, hdrop⟩ := ih next
      refine ⟨time, asked, .passed hanswer hdated hconsults, hasked.trans hnext, ?_⟩
      rcases answer with e | _ | t
      · exact hdrop
      · exact hdrop
      · exact absurd rfl (hdated t)

theorem upkeep_dropStale (h : repository.Attentive) (a : Archive) (w : World ρ) :
    ∃ ready, repository.dropStale a w = (.done (), ready) ∧ repository.Upkeep a w ready := by
  cases hsnapshot : a.isSnapshot with
  | false => exact ⟨w, by rw [dropStale, hsnapshot]; rfl, .release hsnapshot rfl⟩
  | true =>
    obtain ⟨sources, listed, hsources, hlisted⟩ := h.snapshotSources w
    obtain ⟨time, consulted, hconsults, hconsulted, hdrop⟩ := dropStaleFrom_eq h a sources listed
    have hstale : repository.dropStale a w = repository.dropStaleFrom a sources listed := by
      rw [dropStale, if_pos hsnapshot, Call.andThen, hsources]
    have hfiles : consulted.files = w.files := hconsulted.trans hlisted
    rw [hstale, hdrop]
    cases time with
    | none =>
      exact ⟨consulted, rfl, .undated sources listed hsnapshot hsources hconsults hfiles⟩
    | some t =>
      obtain ⟨cached, located, hcached, hlocated⟩ := h.localFile a consulted
      let between : World ρ := { located with files := located.files.dropOlder cached t }
      -- The place of the build descriptor is asked for when the other file may have gone.
      obtain ⟨pom, asked, hpom, hasked⟩ := h.localFile a.pom between
      let ready : World ρ := { asked with files := asked.files.dropOlder pom t }
      have hfirst : w.files.Pruned t [cached] between.files := by
        rw [← hfiles, ← hlocated]
        exact FileSystem.pruned_dropOlder _ t cached
      have hsecond : between.files.Pruned t [pom] ready.files := by
        rw [← hasked]
        exact FileSystem.pruned_dropOlder _ t pom
      have hupkeep : repository.Upkeep a w ready :=
        .dated sources t cached pom listed consulted located between asked hsnapshot hsources
          hconsults hcached ⟨rfl, hfirst⟩ hpom ⟨rfl, hfirst.append hsecond⟩
      refine ⟨ready, ?_, hupkeep⟩
      simp only [Call.andThen]
      rw [dropCached_eq t hcached]
      exact dropCached_eq t hpom

/-! ### The upkeep within the work -/

theorem conclude_eq (builder : Builder ρ) {r : Revision} {resolved ready : World ρ}
    (hresolve : repository.resolveArchive r w = (.done (.ok (some a)), resolved))
    (hupkeep : repository.dropStale a resolved = (.done (), ready)) :
    repository.conclude builder r w = repository.survey builder a ready := by
  unfold conclude
  simp only [Work.andThen, Work.call, hresolve, hupkeep, survey, List.nil_append]

theorem conclude_of_no_archive (builder : Builder ρ) {r : Revision}
    (h : ∀ a, (repository.resolveArchive r w).1 ≠ .done (.ok (some a))) :
    (repository.conclude builder r w).world = (repository.resolveArchive r w).2 := by
  unfold conclude
  rcases hresolve : repository.resolveArchive r w with ⟨(e | _ | a) | _, resolved⟩
  · simp only [Work.andThen, Work.call, hresolve, Work.done]
  · simp only [Work.andThen, Work.call, hresolve, Work.done]
  · exact absurd (congrArg Prod.fst hresolve) (h a)
  · simp only [Work.andThen, Work.call, hresolve]

/-- If the repository knows an archive, the work goes on after the upkeep of that archive and in the
world that it leaves. Else the world stays as the search for an archive has left it. -/
theorem process_upkeep (repository : Repository ρ) (builder : Builder ρ) (r : Revision)
    (w : World ρ) (h : repository.Attentive) :
    (∀ a resolved, repository.resolveArchive r w = (.done (.ok (some a)), resolved) →
      resolved.files = w.files ∧ ∃ ready, repository.Upkeep a resolved ready ∧
        let worked := repository.survey builder a ready
        repository.process builder r w =
          ⟨worked.ending.map fun _ ↦ (), worked.events ++ [.ofEnding r worked.ending],
            worked.world⟩) ∧
    ((∀ a, (repository.resolveArchive r w).1 ≠ .done (.ok (some a))) →
      (repository.process builder r w).world = (repository.resolveArchive r w).2 ∧
        (repository.process builder r w).world.files = w.files) := by
  have hfiles := h.resolveArchive r w
  constructor
  · intro a resolved hresolve
    obtain ⟨ready, hdrop, hupkeep⟩ := upkeep_dropStale h a resolved
    rw [hresolve] at hfiles
    refine ⟨hfiles, ready, hupkeep, ?_⟩
    simp only [process, conclude_eq builder hresolve hdrop]
  · intro hmissing
    have hworld : (repository.process builder r w).world = (repository.resolveArchive r w).2 :=
      conclude_of_no_archive builder hmissing
    exact ⟨hworld, hworld ▸ hfiles⟩

end Repository

theorem Script.attentive_repository : Script.repository.Attentive where
  resolveArchive r w := by
    simp only [repository, resolveArchive]
    split
    · rfl
    · split <;> rfl
  snapshotSources w := ⟨_, w, rfl, rfl⟩
  metadataTimestamp source r w := by
    simp only [repository, metadataTimestamp]
    split
    · exact ⟨_, w, rfl, rfl⟩
    · split <;> exact ⟨_, w, rfl, rfl⟩
  localFile a w := ⟨_, w, rfl, rfl⟩

/-- The first source refuses, the second does not know the snapshot, and the time that the third
gives, not the one of the fourth, lies between those of the archive and of its build descriptor. The
archive cannot be fetched again. -/
theorem Repository.process_upkeep_third_source :
    let r : Revision := ⟨⟨"g", "a"⟩, "1.0-SNAPSHOT", by decide +kernel⟩
    let script : Script := { Script.empty.addArtifact
      ⟨r, none, some [], none, .usual, .usual, .usual, .usual⟩ with
        sources := [⟨"down", [], true⟩, ⟨"other", [], false⟩, ⟨"fresh", [(r.text, 50)], false⟩,
          ⟨"late", [(r.text, 90)], false⟩] }
    let jar := Script.localFile (.jar r)
    let pom := Script.localFile (Archive.jar r).pom
    let files := (Script.storeAt script.withoutFiles.files jar [1] 49).2
    let w : World Script := ⟨(Script.storeAt files pom [2] 50).2, script⟩
    let worked := Script.repository.process Script.builder r w
    Script.repository.Attentive ∧
    (∃ resolved ready, resolved.files = w.files ∧
      Script.repository.Upkeep (.jar r) resolved ready ∧
      worked.world = (Script.repository.survey Script.builder (.jar r) ready).world) ∧
    w.files.listing = [jar, pom] ∧ worked.world.files.listing = [pom] := by
  intro r script jar pom files w worked
  obtain ⟨hupkeep, -⟩ :=
    Repository.process_upkeep Script.repository Script.builder r w Script.attentive_repository
  obtain ⟨hfiles, ready, hready, hworked⟩ := hupkeep (.jar r) _ rfl
  refine ⟨Script.attentive_repository,
    ⟨_, ready, hfiles, hready, congrArg Worked.world hworked⟩, ?_, ?_⟩
  · decide +kernel
  · decide +kernel

end ArtifactIndex
