import ArtifactIndex.Proofs.Closure.Binding
import ArtifactIndex.Proofs.Closure.Recording
import ArtifactIndex.Proofs.Closure.Workload

/-!
# The course of the work on a revision

Which calls are made in the work on an archive, in which order, and what is sent meanwhile: calls
about stale files, the build descriptor, for each followed dependency its binding and its event, and
at last the file and the resource. Each step is made only if no step before it crashed (`Course`).

A step crashes with the collaborator that it calls. There is one other way: a list of revisions that
is not in order may not be sorted. Then no call crashed, and the list is the answer to the last one
(`Told`). So the outcome is read off the calls (`Outcome.ofLog`) but for that case
(`Course.outcome`).
-/

set_option autoImplicit false
set_option relaxedAutoImplicit false

namespace ArtifactIndex

/-! ### What a record tells -/

/-- A crash comes before all else, then a missing archive, then a failure to build. -/
def Outcome.ofLog (log : List Observation) : Outcome :=
  if log.any Observation.isCrash then .aborted
  else if log.any Observation.isAbsence then .missing
  else if log.any Observation.isFailure then .failed
  else .indexed

/-- No call crashed, and the last one offered revisions whose versions are not in order. -/
def EndsUnordered (log : List Observation) : Prop :=
  log.any Observation.isCrash = false ∧
    ∃ front candidates, log = front ++ [.offered (.done (.ok candidates))] ∧
      ¬ Revision.VersionsOrdered (· ∈ candidates)

theorem EndsUnordered.prepend {first rest : List Observation} (h : EndsUnordered rest)
    (hfirst : first.any Observation.isCrash = false) : EndsUnordered (first ++ rest) := by
  obtain ⟨hrest, front, candidates, rfl, hcandidates⟩ := h
  refine ⟨?_, first ++ front, candidates, (List.append_assoc _ _ _).symm, hcandidates⟩
  rw [List.any_append, hfirst, hrest]
  rfl

/-- What crashed made a call that crashed, or could not sort what the last call offered. -/
structure Told (crashed : Bool) (log : List Observation) : Prop where
  of_true : crashed → log.any Observation.isCrash ∨ EndsUnordered log
  of_false : crashed = false → log.any Observation.isCrash = false

namespace Told

variable {crashed : Bool} {log first rest : List Observation}

theorem of_eq (h : crashed = log.any Observation.isCrash) : Told crashed log :=
  ⟨fun hcrashed ↦ .inl (h ▸ hcrashed), fun hcrashed ↦ h ▸ hcrashed⟩

theorem prepend (h : Told crashed rest) (hfirst : first.any Observation.isCrash = false) :
    Told crashed (first ++ rest) where
  of_true hcrashed := by
    rcases h.of_true hcrashed with hrest | hrest
    · exact .inl (by simp [hrest])
    · exact .inr (hrest.prepend hfirst)
  of_false hcrashed := by
    rw [List.any_append, hfirst, h.of_false hcrashed]
    rfl

end Told

/-! ### Dependencies -/

/-- How the binding of a dependency ends, by what is declared and what the repository offers. Only a
range asks for revisions. -/
inductive Bound (d : Dependency) :
    Ending (Except Error Binding × Dependency) → List Observation → Prop where
  | malformed {e : Constraint.Error} (h : Constraint.parse d.version = .error e) :
    Bound d (.done (.error (.ofConstraint e), d)) []
  | exact {v : Version} (h : Constraint.parse d.version = .ok (.exact v)) :
    Bound d (.done (.ok .exact, d)) []
  | crashed {range : Range} (h : Constraint.parse d.version = .ok (.range range)) :
    Bound d .crashed [.offered .crashed]
  | refused {range : Range} {e : Error} (h : Constraint.parse d.version = .ok (.range range)) :
    Bound d (.done (.error e, d)) [.offered (.done (.error e))]
  | offered {range : Range} {candidates : List Revision}
    (h : Constraint.parse d.version = .ok (.range range)) :
    Bound d ((range.highest? candidates).map d.bindTo) [.offered (.done (.ok candidates))]

/-- Dependencies in turn, with the calls that bind them and the events that are sent. A crash leaves
out what would have followed. -/
inductive Reported (source : Revision) :
    List Dependency → Ending Unit → List Observation → List Event → Prop where
  | nil : Reported source [] (.done ()) [] []
  | sent {d : Dependency} {ds : List Dependency} {bound : Except Error Binding × Dependency}
    {ending : Ending Unit} {first rest : List Observation} {events : List Event}
    (h : Bound d (.done bound) first) (hrest : Reported source ds ending rest events) :
    Reported source (d :: ds) ending (first ++ rest) (.ofBinding source bound :: events)
  | crashed {d : Dependency} {ds : List Dependency} {log : List Observation}
    (h : Bound d .crashed log) : Reported source (d :: ds) .crashed log []

/-- The calls by which dependencies are found, with the events that are sent. -/
inductive Discovery (source : Revision) :
    Ending Unit → List Observation → List Event → Prop where
  | crashed : Discovery source .crashed [.described .crashed] []
  | undescribed {answer : Except Error (Option BuildDescriptor)}
    (h : ∀ b, answer ≠ .ok (some b)) : Discovery source (.done ()) [.described (.done answer)] []
  | described {b : BuildDescriptor} {ending : Ending Unit} {log : List Observation}
    {events : List Event} (h : Reported source b.followed ending log events) :
    Discovery source ending (.described (.done (.ok (some b))) :: log) events

theorem Bound.told {d : Dependency} {ending : Ending (Except Error Binding × Dependency)}
    {log : List Observation} (h : Bound d ending log) : Told ending.isCrash log := by
  cases h with
  | malformed h => exact .of_eq rfl
  | exact h => exact .of_eq rfl
  | crashed h => exact .of_eq rfl
  | refused h => exact .of_eq rfl
  | @offered range candidates h =>
    refine ⟨fun hcrash ↦ .inr ⟨rfl, [], candidates, rfl, fun hordered ↦ ?_⟩, fun _ ↦ rfl⟩
    rw [Range.highest?_of_versionsOrdered hordered] at hcrash
    simp [Ending.map, Ending.isCrash] at hcrash

theorem Bound.isDiscovery {d : Dependency} {ending : Ending (Except Error Binding × Dependency)}
    {log : List Observation} (h : Bound d ending log) : ∀ o ∈ log, o.isDiscovery := by
  cases h <;> simp [Observation.isDiscovery]

/-- The revision that an event on the way speaks of. -/
def Event.source? : Event → Option Revision
  | .discovered source _ => some source
  | .unbound source _ => some source
  | .finished .. => none

theorem Event.isReport_of_source? {e : Event} {source : Revision} (h : e.source? = some source) :
    e.isReport := by
  cases e <;> simp_all [Event.source?, Event.isReport]

theorem Event.source?_ofBinding (source : Revision) (bound : Except Error Binding × Dependency) :
    (Event.ofBinding source bound).source? = some source := by
  unfold Event.ofBinding
  split
  · rfl
  · rfl
  · split <;> rfl

namespace Reported

variable {source : Revision} {ds : List Dependency} {ending : Ending Unit}
  {log : List Observation} {events : List Event}

theorem source?_eq (h : Reported source ds ending log events) :
    ∀ e ∈ events, e.source? = some source := by
  induction h with
  | nil => simp
  | sent _ _ ih => exact List.forall_mem_cons.2 ⟨Event.source?_ofBinding _ _, ih⟩
  | crashed _ => simp

theorem isDiscovery (h : Reported source ds ending log events) : ∀ o ∈ log, o.isDiscovery := by
  induction h with
  | nil => simp
  | sent hbound _ ih => exact List.forall_mem_append.2 ⟨hbound.isDiscovery, ih⟩
  | crashed hbound => exact hbound.isDiscovery

theorem told (h : Reported source ds ending log events) : Told ending.isCrash log := by
  induction h with
  | nil => exact .of_eq rfl
  | sent hbound _ ih => exact ih.prepend (hbound.told.of_false rfl)
  | crashed hbound => exact hbound.told

end Reported

namespace Discovery

variable {source : Revision} {ending : Ending Unit} {log : List Observation} {events : List Event}

theorem source?_eq (h : Discovery source ending log events) :
    ∀ e ∈ events, e.source? = some source := by
  cases h with
  | crashed => simp
  | undescribed _ => simp
  | described hreported => exact hreported.source?_eq

theorem isDiscovery (h : Discovery source ending log events) : ∀ o ∈ log, o.isDiscovery := by
  cases h with
  | crashed => simp [Observation.isDiscovery]
  | undescribed _ => simp [Observation.isDiscovery]
  | described hreported => exact List.forall_mem_cons.2 ⟨rfl, hreported.isDiscovery⟩

theorem told (h : Discovery source ending log events) : Told ending.isCrash log := by
  cases h with
  | crashed => exact .of_eq rfl
  | undescribed _ => exact .of_eq rfl
  | @described b _ _ _ hreported =>
    have hanswer : [Observation.described (.done (.ok (some b)))].any Observation.isCrash = false :=
      rfl
    exact hreported.told.prepend hanswer

end Discovery

/-! ### The resource -/

/-- The calls by which a resource is built. -/
inductive Building : Ending (Except Error Resource) → List Observation → Prop where
  | crashed : Building .crashed [.fetched .crashed]
  | refused (e : Error) : Building (.done (.error e)) [.fetched (.done (.error e))]
  | fetched (path : String) (ending : Ending (Except Error Resource)) :
    Building ending [.fetched (.done (.ok path)), .built ending]

/-- What the closing event tells; a crash leaves no resource. -/
def Ending.conclusion : Ending Conclusion → Conclusion
  | .done conclusion => conclusion
  | .crashed => (.aborted, none)

theorem Event.ofEnding_eq (r : Revision) (ending : Ending Conclusion) :
    Event.ofEnding r ending = .finished r ending.conclusion.1 ending.conclusion.2 := by
  cases ending <;> rfl

namespace Outcome

theorem ofLog_of_isCrash {log : List Observation} (h : log.any Observation.isCrash) :
    ofLog log = .aborted :=
  if_pos h

/-- Calls that neither crash nor miss nor fail leave the outcome to what follows. -/
theorem ofLog_append {first rest : List Observation}
    (hcrash : first.any Observation.isCrash = false)
    (hkind : ∀ o ∈ first, ¬ o.isAbsence ∧ ¬ o.isFailure) : ofLog (first ++ rest) = ofLog rest := by
  have habsence : first.any Observation.isAbsence = false :=
    List.any_eq_false.2 fun o ho ↦ (hkind o ho).1
  have hfailure : first.any Observation.isFailure = false :=
    List.any_eq_false.2 fun o ho ↦ (hkind o ho).2
  unfold ofLog
  simp only [List.any_append, hcrash, habsence, hfailure, Bool.false_or]

end Outcome

theorem Building.outcome {built : Ending (Except Error Resource)} {log : List Observation}
    (h : Building built log) : (built.map Conclusion.ofBuilt).conclusion.1 = Outcome.ofLog log := by
  cases h with
  | crashed => rfl
  | refused e => rfl
  | fetched path built => rcases built with (e | resource) | _ <;> rfl

/-! ### The whole work on an archive -/

/-- The calls made for an archive, with what is sent and how the work ends. -/
inductive Course (a : Archive) : Ending Conclusion → List Observation → List Event → Prop where
  | inUpkeep {upkeep : List Observation} (hkind : ∀ o ∈ upkeep, o.isUpkeep)
    (hcrash : upkeep.any Observation.isCrash) : Course a .crashed upkeep []
  | inDiscovery {upkeep search : List Observation} {events : List Event}
    (hkind : ∀ o ∈ upkeep, o.isUpkeep) (hcrash : upkeep.any Observation.isCrash = false)
    (h : Discovery a.revision .crashed search events) : Course a .crashed (upkeep ++ search) events
  | whole {upkeep search building : List Observation} {events : List Event}
    {built : Ending (Except Error Resource)} (hkind : ∀ o ∈ upkeep, o.isUpkeep)
    (hcrash : upkeep.any Observation.isCrash = false)
    (h : Discovery a.revision (.done ()) search events) (hbuilding : Building built building) :
    Course a (built.map Conclusion.ofBuilt) (upkeep ++ (search ++ building)) events

namespace Course

variable {a : Archive} {ending : Ending Conclusion} {log : List Observation} {events : List Event}

theorem source?_eq (h : Course a ending log events) :
    ∀ e ∈ events, e.source? = some a.revision := by
  cases h with
  | inUpkeep _ _ => simp
  | inDiscovery _ _ h => exact h.source?_eq
  | whole _ _ h _ => exact h.source?_eq

theorem present (h : Course a ending log events) : ending.conclusion.1 ≠ .missing := by
  cases h with
  | inUpkeep _ _ => simp [Ending.conclusion]
  | inDiscovery _ _ _ => simp [Ending.conclusion]
  | @whole _ _ _ _ built _ _ _ _ =>
    rcases built with (e | resource) | _ <;>
      simp [Ending.map, Conclusion.ofBuilt, Ending.conclusion]

theorem isSome_resource_iff (h : Course a ending log events) :
    ending.conclusion.2.isSome ↔ ending.conclusion.1 = .indexed := by
  cases h with
  | inUpkeep _ _ => simp [Ending.conclusion]
  | inDiscovery _ _ _ => simp [Ending.conclusion]
  | @whole _ _ _ _ built _ _ _ _ =>
    rcases built with (e | resource) | _ <;>
      simp [Ending.map, Conclusion.ofBuilt, Ending.conclusion]

/-- The outcome is the one on record, unless offered revisions could not be sorted. -/
theorem outcome (h : Course a ending log events) :
    ending.conclusion.1 = Outcome.ofLog log ∨
      ending.conclusion.1 = .aborted ∧ EndsUnordered log := by
  cases h with
  | inUpkeep _ hcrash => exact .inl (Outcome.ofLog_of_isCrash hcrash).symm
  | inDiscovery _ hcrash h =>
    rcases (h.told.prepend hcrash).of_true rfl with hcall | hunordered
    · exact .inl (Outcome.ofLog_of_isCrash hcall).symm
    · exact .inr ⟨rfl, hunordered⟩
  | whole hkind hcrash h hbuilding =>
    refine .inl ?_
    rw [Outcome.ofLog_append hcrash fun o ho ↦ ?_, Outcome.ofLog_append (h.told.of_false rfl)
      fun o ho ↦ Observation.of_isDiscovery (h.isDiscovery o ho), hbuilding.outcome]
    exact Observation.of_isUpkeep (hkind o ho)

end Course

end ArtifactIndex
