import ArtifactIndex.Closure.Work
import Mathlib.Data.List.Basic

/-!
# Calls on record

What the collaborators answer while a revision is worked on, as data. A recorded repository behaves
like the one it records and writes down, call by call, what was asked and how the call ended: with
an answer or with a crash. `Work.Records` says that recorded work is the plain one with a record, and
what the record, and what was sent, look like for each way the work can end. Every way in which work
is put together keeps it, so that a statement about the record is proved along the program
(`Work.Records.andThen`).

`Repository.lenient` is a repository whose refusals to give a timestamp, a build descriptor or a
list of revisions have become empty answers.
-/

set_option autoImplicit false
set_option relaxedAutoImplicit false

namespace ArtifactIndex

/-! ### Observations -/

def Ending.isCrash {α : Type} : Ending α → Bool
  | .done _ => false
  | .crashed => true

/-- The answer of a collaborator that did not crash, where it is an error. -/
def Ending.isRefusal {α : Type} : Ending (Except Error α) → Bool
  | .done (.error _) => true
  | _ => false

/-- A call to a collaborator, by what was asked, and its ending. -/
inductive Observation where
  | resolved (ending : Ending (Except Error (Option Archive)))
  | sources (ending : Ending (List String))
  | dated (ending : Ending (Except Error (Option Timestamp)))
  | located (ending : Ending String)
  | described (ending : Ending (Except Error (Option BuildDescriptor)))
  | offered (ending : Ending (Except Error (List Revision)))
  | fetched (ending : Ending (Except Error String))
  | built (ending : Ending (Except Error Resource))
  deriving DecidableEq

namespace Observation

def isCrash : Observation → Bool
  | resolved ending => ending.isCrash
  | sources ending => ending.isCrash
  | dated ending => ending.isCrash
  | located ending => ending.isCrash
  | described ending => ending.isCrash
  | offered ending => ending.isCrash
  | fetched ending => ending.isCrash
  | built ending => ending.isCrash

/-- The repository gave no archive, or an error in its place. -/
def isAbsence : Observation → Bool
  | resolved (.done (.ok none)) => true
  | resolved ending => ending.isRefusal
  | _ => false

/-- The archive could not be fetched, or no resource built from it. -/
def isFailure : Observation → Bool
  | fetched ending => ending.isRefusal
  | built ending => ending.isRefusal
  | _ => false

/-- A call about the cached files of a snapshot. -/
def isUpkeep : Observation → Bool
  | sources _ => true
  | dated _ => true
  | located _ => true
  | _ => false

/-- A call about the dependencies of an archive. -/
def isDiscovery : Observation → Bool
  | described _ => true
  | offered _ => true
  | _ => false

theorem of_isUpkeep {o : Observation} (h : o.isUpkeep) : ¬ o.isAbsence ∧ ¬ o.isFailure := by
  cases o <;> simp_all [isUpkeep, isAbsence, isFailure]

theorem of_isDiscovery {o : Observation} (h : o.isDiscovery) : ¬ o.isAbsence ∧ ¬ o.isFailure := by
  cases o <;> simp_all [isDiscovery, isAbsence, isFailure]

end Observation

/-! ### Recorded collaborators -/

structure Recorded (ρ : Type) where
  state : ρ
  log : List Observation

variable {ρ α β : Type}

namespace World

/-- The world with nothing on record yet. -/
def recorded (w : World ρ) : World (Recorded ρ) :=
  ⟨w.files, w.state, []⟩

/-- The world without the record. -/
def plain (w : World (Recorded ρ)) : World ρ :=
  ⟨w.files, w.state.state⟩

end World

/-- Puts the ending of a call on record. -/
def Call.recorded (observe : Ending α → Observation) (call : Call ρ α) : Call (Recorded ρ) α :=
  fun w ↦
    let (ending, after) := call w.plain
    (ending, ⟨after.files, after.state, w.state.log ++ [observe ending]⟩)

namespace Repository

def recorded (repository : Repository ρ) : Repository (Recorded ρ) where
  resolveArchive r := (repository.resolveArchive r).recorded .resolved
  snapshotSources := repository.snapshotSources.recorded .sources
  metadataTimestamp source r := (repository.metadataTimestamp source r).recorded .dated
  localFile a := (repository.localFile a).recorded .located
  fetch a := (repository.fetch a).recorded .fetched
  buildDescriptor r := (repository.buildDescriptor r).recorded .described
  availableRevisions p := (repository.availableRevisions p).recorded .offered

/-- Answers that are errors become empty where the work goes on without them. -/
def lenient (repository : Repository ρ) : Repository ρ :=
  { repository with
    metadataTimestamp := fun source r ↦
      (repository.metadataTimestamp source r).andThen fun answer ↦
        .done (.ok (answer.toOption.getD none))
    buildDescriptor := fun r ↦
      (repository.buildDescriptor r).andThen fun answer ↦ .done (.ok (answer.toOption.getD none))
    availableRevisions := fun p ↦
      (repository.availableRevisions p).andThen fun answer ↦
        .done (.ok (answer.toOption.getD [])) }

end Repository

def Builder.recorded (builder : Builder ρ) : Builder (Recorded ρ) :=
  fun path a ↦ (builder path a).recorded .built

/-! ### Work with a record -/

/-- The outcome of the work without the record. -/
def Worked.plain (worked : Worked (Recorded ρ) α) : Worked ρ α :=
  ⟨worked.ending, worked.events, worked.world.plain⟩

namespace Work

/-- The work is the plain work with a record; `post` holds of the record and the events. -/
def Records (work : Work (Recorded ρ) α) (plain : Work ρ α)
    (post : Ending α → List Observation → List Event → Prop) : Prop :=
  ∀ w, ∃ log, (work w).world.state.log = w.state.log ++ log ∧
    (work w).plain = plain w.plain ∧ post (work w).ending log (work w).events

/-- Calls in a row are work in a row that sends nothing. -/
theorem call_andThen (call : Call ρ α) (next : α → Call ρ β) :
    Work.call (call.andThen next) = (Work.call call).andThen fun value ↦ .call (next value) := by
  funext w
  unfold Work.call Call.andThen Work.andThen
  rcases hcall : call w with ⟨value | _, after⟩
  · simp only [hcall, List.nil_append]
  · simp only [hcall]

namespace Records

variable {work : Work (Recorded ρ) α} {plain : Work ρ α}
  {post post' : Ending α → List Observation → List Event → Prop}

theorem imp (h : work.Records plain post)
    (hpost : ∀ ending log events, post ending log events → post' ending log events) :
    work.Records plain post' := by
  intro w
  obtain ⟨log, hlog, hplain, hlogged⟩ := h w
  exact ⟨log, hlog, hplain, hpost _ _ _ hlogged⟩

theorem done (value : α) : (Work.done value : Work (Recorded ρ) α).Records (.done value)
    fun ending log events ↦ ending = .done value ∧ log = [] ∧ events = [] :=
  fun _ ↦ ⟨[], (List.append_nil _).symm, rfl, rfl, rfl, rfl⟩

/-- Work that ends at once, in whichever way. -/
theorem ofEnding {ending : Ending α} (h : post ending [] []) :
    (Work.call (.ofEnding ending) : Work (Recorded ρ) α).Records (.call (.ofEnding ending)) post :=
  fun _ ↦ ⟨[], (List.append_nil _).symm, rfl, h⟩

theorem send (e : Event) : (Work.send e : Work (Recorded ρ) Unit).Records (.send e)
    fun ending log events ↦ ending = .done () ∧ log = [] ∧ events = [e] :=
  fun _ ↦ ⟨[], (List.append_nil _).symm, rfl, rfl, rfl, rfl⟩

theorem changeFiles (f : FileSystem → α × FileSystem) :
    (Work.call (.changeFiles f) : Work (Recorded ρ) α).Records (.call (.changeFiles f))
      fun ending log events ↦ ending.isCrash = false ∧ log = [] ∧ events = [] :=
  fun _ ↦ ⟨[], (List.append_nil _).symm, rfl, rfl, rfl, rfl⟩

theorem recorded (call : Call ρ α) (observe : Ending α → Observation) :
    (Work.call (call.recorded observe)).Records (.call call)
      fun ending log events ↦ log = [observe ending] ∧ events = [] :=
  fun _ ↦ ⟨_, rfl, rfl, rfl, rfl⟩

/-- What was sent before a crash stays sent, and else the second events follow the first. -/
theorem andThen {next : α → Work (Recorded ρ) β} {plainNext : α → Work ρ β}
    {postNext : α → Ending β → List Observation → List Event → Prop} (h : work.Records plain post)
    (hnext : ∀ value, (next value).Records (plainNext value) (postNext value)) :
    (work.andThen next).Records (plain.andThen plainNext) fun ending log events ↦
      (ending = .crashed ∧ post .crashed log events) ∨
        ∃ value first rest sent later, log = first ++ rest ∧ events = sent ++ later ∧
          post (.done value) first sent ∧ postNext value ending rest later := by
  intro w
  obtain ⟨first, hfirst, hplain, hpost⟩ := h w
  unfold Work.andThen
  rcases hwork : work w with ⟨value | _, sent, after⟩
  all_goals
    rw [hwork] at hfirst hplain hpost
    simp only [← hplain, Worked.plain]
  · obtain ⟨rest, hrest, hplainNext, hpostNext⟩ := hnext value after
    refine ⟨first ++ rest, ?_, ?_, .inr ⟨value, first, rest, sent, _, rfl, rfl, hpost, hpostNext⟩⟩
    · rw [hrest, hfirst, List.append_assoc]
    · rw [← hplainNext]
      rfl
  · exact ⟨first, hfirst, trivial, .inl ⟨trivial, hpost⟩⟩

/-- A call comes first on the record, and alone where it crashes. -/
theorem recorded_andThen {call : Call ρ α} {observe : Ending α → Observation}
    {next : α → Work (Recorded ρ) β} {plainNext : α → Work ρ β}
    {post : Ending β → List Observation → List Event → Prop}
    (hcrashed : post .crashed [observe .crashed] [])
    (hnext : ∀ answer, (next answer).Records (plainNext answer) fun ending log events ↦
      post ending (observe (.done answer) :: log) events) :
    ((Work.call (call.recorded observe)).andThen next).Records ((Work.call call).andThen plainNext)
      post := by
  refine ((recorded call observe).andThen hnext).imp ?_
  rintro ending log events (⟨rfl, rfl, rfl⟩ |
    ⟨answer, first, rest, sent, later, rfl, rfl, ⟨rfl, rfl⟩, hpost⟩)
  · exact hcrashed
  · exact hpost

end Records
end Work
end ArtifactIndex
