import ArtifactIndex.Closure.Event
import Mathlib.Data.List.Basic

/-!
# What the workers send

What the workers of a resolution send, as data: for every revision some reports, then one closing
event. `Workload.Reaches` is the least set that holds the seeds and, with a revision, every revision
its worker discovers.
-/

set_option autoImplicit false
set_option relaxedAutoImplicit false

namespace ArtifactIndex

/-! ### What an event carries -/

namespace Event

/-- An event on the way; every event but the closing one. -/
def isReport : Event → Bool
  | .finished .. => false
  | _ => true

def isUnbound : Event → Bool
  | .unbound .. => true
  | _ => false

/-- A closing event with this outcome. -/
def endsIn (o : Outcome) : Event → Bool
  | .finished _ p _ => p = o
  | _ => false

/-- The revision a closing event closes. -/
def closed? : Event → Option Revision
  | .finished revision .. => some revision
  | _ => none

def discovery? : Event → Option Revision
  | .discovered _ revision => some revision
  | _ => none

def resource? : Event → Option Resource
  | .finished _ _ resource => resource
  | _ => none

end Event

/-! ### Workloads -/

/-- The events of the worker of each revision. -/
structure Workload where
  reports : Revision → List Event
  outcome : Revision → Outcome
  resource : Revision → Option Resource
  isReport_of_mem : ∀ r, ∀ e ∈ reports r, e.isReport

namespace Workload

variable (load : Workload)

def closing (r : Revision) : Event :=
  .finished r (load.outcome r) (load.resource r)

def events (r : Revision) : List Event :=
  load.reports r ++ [load.closing r]

/-- Led to by a seed. -/
inductive Reaches (seeds : List Revision) : Revision → Prop where
  | seed {r : Revision} : r ∈ seeds → Reaches seeds r
  | discovery {r d : Revision} {e : Event} :
      Reaches seeds r → e ∈ load.events r → e.discovery? = some d → Reaches seeds d

variable {load} {r : Revision} {e : Event} {before after : List Event}

theorem events_ne_nil : load.events r ≠ [] := by
  simp [events]

theorem mem_events : e ∈ load.events r ↔ e ∈ load.reports r ∨ e = load.closing r := by
  simp [events]

/-- A worker's event is a report exactly when it has more to send, and else the closing event. -/
theorem events_split (h : load.events r = before ++ e :: after) :
    (e.isReport = true ∧ after ≠ []) ∨ (e = load.closing r ∧ after = []) := by
  rcases List.eq_nil_or_concat after with rfl | ⟨rest, last, rfl⟩
  · have hlast := List.append_inj_right' h rfl
    exact Or.inr ⟨(List.cons.inj hlast).1.symm, rfl⟩
  · have hsplit : load.reports r ++ [load.closing r] = (before ++ e :: rest) ++ [last] := by
      rw [← events, h]
      simp
    have hreports : load.reports r = before ++ e :: rest := List.append_inj_left' hsplit rfl
    refine Or.inl ⟨load.isReport_of_mem r e ?_, by simp⟩
    rw [hreports]
    exact List.mem_append_right _ List.mem_cons_self

/-- Only the worker of a revision closes it, and it does so in one way. -/
theorem closed?_eq_some_iff {x : Revision} (h : e ∈ load.events r) :
    e.closed? = some x ↔ e = load.closing r ∧ x = r := by
  constructor
  · intro hclosed
    rcases mem_events.1 h with hreport | rfl
    · have hopen := load.isReport_of_mem r e hreport
      cases e <;> simp [Event.closed?, Event.isReport] at hclosed hopen
    · exact ⟨rfl, (Option.some.inj hclosed).symm⟩
  · rintro ⟨rfl, rfl⟩
    rfl

theorem countP_endsIn (o : Outcome) :
    (load.events r).countP (Event.endsIn o) = if load.outcome r = o then 1 else 0 := by
  have hreports : (load.reports r).countP (Event.endsIn o) = 0 := by
    refine List.countP_eq_zero.2 fun e he ↦ ?_
    have hreport := load.isReport_of_mem r e he
    cases e <;> simp [Event.endsIn, Event.isReport] at hreport ⊢
  rw [events, List.countP_append, hreports, List.countP_singleton]
  simp [closing, Event.endsIn]

/-- The resource of a revision is carried by its closing event alone. -/
theorem resource_eq_some_iff {x : Resource} :
    load.resource r = some x ↔ ∃ e ∈ load.events r, e.resource? = some x := by
  constructor
  · intro h
    exact ⟨load.closing r, mem_events.2 (Or.inr rfl), h⟩
  · rintro ⟨e, he, hx⟩
    rcases mem_events.1 he with hreport | rfl
    · have hopen := load.isReport_of_mem r e hreport
      cases e <;> simp [Event.resource?, Event.isReport] at hx hopen
    · exact hx

/-! ### Two revisions that depend on each other -/

def left : Revision :=
  ⟨⟨"g", "left"⟩, .zero⟩

def right : Revision :=
  ⟨⟨"g", "right"⟩, .zero⟩

def pair : Workload where
  reports r := [.discovered r (if r = left then right else left)]
  outcome _ := .failed
  resource _ := none
  isReport_of_mem := by simp [Event.isReport]

end Workload
end ArtifactIndex
