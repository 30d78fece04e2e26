import ArtifactIndex.Proofs.Closure.Lifecycle
import ArtifactIndex.Proofs.Closure.Workload
import Mathlib.Data.List.Nodup

/-!
# Histories of a life cycle

What becomes of revisions when a life cycle is used in any way, from the empty one on. An `Action`
is an operation with its answer, and a `History` lists the actions so far. Which pending revision a
start picks is open, so a `Step` allows every pick.

The three places of a revision are looked at one revision at a time: `Action.stageAfter` says where
it stands after an action, from where it stood before and nothing else, and `Action.Answers` what
the answer of an action tells. Every step preserves that no revision stands in two places
(`Separate.step`), and where none does, every step keeps to both (`stage?_step`, `answers_step`).
Main statement: so does every history (`history_orderly`).
-/

set_option autoImplicit false
set_option relaxedAutoImplicit false

namespace ArtifactIndex.Lifecycle

open scoped List Finset

/-- An operation and its answer. -/
inductive Action where
  | offer (r : Revision) (added : Bool)
  | seed (rs : List Revision) (added : ℕ)
  | start (limit : ℕ) (started : Option Revision)
  | finish (r : Revision) (finished : Bool)
  | clear
  | clearDone

/-- What one use of an operation can do. -/
inductive Step : Lifecycle → Action → Lifecycle → Prop where
  | offer (l : Lifecycle) (r : Revision) : Step l (.offer r (l.offer r).1) (l.offer r).2
  | seed (l : Lifecycle) (rs : List Revision) : Step l (.seed rs (l.seed rs).1) (l.seed rs).2
  | start {l m : Lifecycle} {limit : ℕ} {r : Revision} (h : l.start? limit r = some m) :
    Step l (.start limit (some r)) m
  /-- A start does nothing where it could start nothing. -/
  | idle {l : Lifecycle} {limit : ℕ} (h : ∀ r, l.start? limit r = none) :
    Step l (.start limit none) l
  | finish (l : Lifecycle) (r : Revision) : Step l (.finish r (l.finish r).1) (l.finish r).2
  | clear (l : Lifecycle) : Step l .clear l.clear
  | clearDone (l : Lifecycle) : Step l .clearDone l.clearDone

/-- The actions since the empty life cycle, the latest in front. -/
inductive History : List Action → Lifecycle → Prop where
  | empty : History [] empty
  | step {actions : List Action} {a : Action} {l m : Lifecycle} : History actions l → Step l a m →
      History (a :: actions) m

namespace Action

/-- Where `x` stands after an action, by where it stood before. -/
def stageAfter (x : Revision) : Action → Option Stage → Option Stage
  | offer r _, none => if x = r then some .pending else none
  | seed rs _, none => if x ∈ rs then some .pending else none
  | start _ (some r), some .pending => if x = r then some .inFlight else some .pending
  | finish r _, some .inFlight => if x = r then some .done else some .inFlight
  | clear, _ => none
  | clearDone, some .done => none
  | _, stage => stage

/-- What the answer of an action tells about the life cycle before it. -/
def Answers (l : Lifecycle) : Action → Prop
  | offer r added => added = true ↔ l.stage? r = none
  | seed rs added => added = #{r ∈ rs.toFinset | l.stage? r = none}
  | start limit (some r) => l.inFlight.length < limit ∧ l.stage? r = some .pending
  | start limit none => limit ≤ l.inFlight.length ∨ l.pending = []
  | finish r finished => finished = true ↔ l.stage? r = some .inFlight
  | clear => True
  | clearDone => True

/-- How many revisions an action added. -/
def gain : Action → ℕ
  | offer _ added => added.toNat
  | seed _ added => added
  | _ => 0

/-- How many revisions were added since everything was cleared. -/
def gainSinceClear : List Action → ℕ
  | [] => 0
  | clear :: _ => 0
  | a :: earlier => gainSinceClear earlier + a.gain

/-- The done revisions have not been cleared since everything was. -/
def KeepsDone : List Action → Prop
  | [] => True
  | clear :: _ => True
  | clearDone :: _ => False
  | _ :: earlier => KeepsDone earlier

end Action

variable {l m : Lifecycle} {r x : Revision} {limit : ℕ}

/-! ### One place for each revision -/

/-- No revision stands in a place twice, or in two places. -/
structure Separate (l : Lifecycle) : Prop where
  nodup_pending : l.pending.Nodup
  nodup_inFlight : l.inFlight.Nodup
  nodup_done : l.done.Nodup
  pending_inFlight : l.pending.Disjoint l.inFlight
  pending_done : l.pending.Disjoint l.done
  inFlight_done : l.inFlight.Disjoint l.done

theorem separate_iff : l.Separate ↔ l.known.Nodup := by
  rw [known, List.nodup_append', List.nodup_append', List.disjoint_append_right]
  constructor
  · intro h
    exact ⟨h.nodup_pending, ⟨h.nodup_inFlight, h.nodup_done, h.inFlight_done⟩,
      h.pending_inFlight, h.pending_done⟩
  · rintro ⟨hp, ⟨hf, hd, hfd⟩, hpf, hpd⟩
    exact ⟨hp, hf, hd, hpf, hpd, hfd⟩

theorem stage?_eq_none_iff : l.stage? x = none ↔ x ∉ l.known := by
  rw [← knows_iff, knows, Option.not_isSome_iff_eq_none]

theorem stage?_eq_pending_iff : l.stage? x = some .pending ↔ x ∈ l.pending := by
  unfold stage?
  split_ifs with hp <;> simp [hp]

theorem Separate.stage?_eq_inFlight_iff (h : l.Separate) :
    l.stage? x = some .inFlight ↔ x ∈ l.inFlight := by
  unfold stage?
  split_ifs with hp hf
  · simpa using h.pending_inFlight hp
  all_goals simp [hf]

theorem Separate.stage?_eq_done_iff (h : l.Separate) :
    l.stage? x = some .done ↔ x ∈ l.done := by
  unfold stage?
  split_ifs with hp hf hd
  · simpa using h.pending_done hp
  · simpa using h.inFlight_done hf
  all_goals simp [hd]

/-- The same places, the same stage. -/
theorem stage?_congr (hp : x ∈ m.pending ↔ x ∈ l.pending) (hf : x ∈ m.inFlight ↔ x ∈ l.inFlight)
    (hd : x ∈ m.done ↔ x ∈ l.done) : m.stage? x = l.stage? x := by
  simp only [stage?, hp, hf, hd]

/-! ### Stages after an operation -/

theorem stage?_offer :
    (l.offer r).2.stage? x = if x = r ∧ l.stage? x = none then some .pending else l.stage? x := by
  by_cases hr : r ∈ l.known
  · have hx : ¬ (x = r ∧ l.stage? x = none) := by
      rintro ⟨rfl, hx⟩
      exact stage?_eq_none_iff.1 hx hr
    rw [offer_of_mem hr, if_neg hx]
  · rw [offer_of_not_mem hr]
    by_cases hx : x = r
    · subst hx
      rw [if_pos ⟨rfl, stage?_eq_none_iff.2 hr⟩]
      exact stage?_eq_pending_iff.2 (by simp)
    · rw [if_neg fun h ↦ hx h.1]
      exact stage?_congr (by simp [hx]) Iff.rfl Iff.rfl

theorem stage?_seed {rs : List Revision} :
    (l.seed rs).2.stage? x = if x ∈ rs ∧ l.stage? x = none then some .pending else l.stage? x := by
  induction rs generalizing l with
  | nil => simp [seed]
  | cons r rs ih =>
    rw [seed_cons, ih, stage?_offer]
    cases hx : l.stage? x with
    | none => by_cases hr : x = r <;> simp [hr]
    | some stage => simp

theorem separate_start (h : l.Separate) (hstart : l.start? limit r = some m) : m.Separate :=
  separate_iff.2 ((known_start_perm hstart).nodup_iff.2 (separate_iff.1 h))

theorem stage?_start (h : l.Separate) (hstart : l.start? limit r = some m) :
    m.stage? x = if x = r then some .inFlight else l.stage? x := by
  have hm := separate_start h hstart
  obtain ⟨-, -, rfl⟩ := start?_eq_some_iff.1 hstart
  by_cases hx : x = r
  · rw [if_pos hx, hm.stage?_eq_inFlight_iff]
    simp [hx]
  · rw [if_neg hx]
    exact stage?_congr (List.mem_erase_of_ne hx) (by simp [hx]) Iff.rfl

theorem separate_finish (h : l.Separate) : (l.finish r).2.Separate :=
  separate_iff.2 (known_finish_perm.nodup_iff.2 (separate_iff.1 h))

theorem stage?_finish (h : l.Separate) :
    (l.finish r).2.stage? x =
      if x = r ∧ l.stage? x = some .inFlight then some .done else l.stage? x := by
  by_cases hr : r ∈ l.inFlight
  · have hm : (l.finish r).2.Separate := separate_finish h
    rw [finish_of_mem hr] at hm ⊢
    by_cases hx : x = r
    · subst hx
      rw [if_pos ⟨rfl, h.stage?_eq_inFlight_iff.2 hr⟩, hm.stage?_eq_done_iff]
      simp
    · rw [if_neg fun hmoved ↦ hx hmoved.1]
      exact stage?_congr Iff.rfl (List.mem_erase_of_ne hx) (by simp [hx])
  · have hx : ¬ (x = r ∧ l.stage? x = some .inFlight) := by
      rintro ⟨rfl, hx⟩
      exact hr (h.stage?_eq_inFlight_iff.1 hx)
    rw [finish_of_not_mem hr, if_neg hx]

theorem stage?_clearDone (h : l.Separate) :
    l.clearDone.stage? x = if l.stage? x = some .done then none else l.stage? x := by
  by_cases hd : x ∈ l.done
  · rw [if_pos (h.stage?_eq_done_iff.2 hd), stage?_eq_none_iff, mem_known]
    have hp : x ∉ l.pending := fun hp ↦ h.pending_done hp hd
    have hf : x ∉ l.inFlight := fun hf ↦ h.inFlight_done hf hd
    simp [clearDone, hp, hf]
  · rw [if_neg fun hs ↦ hd (h.stage?_eq_done_iff.1 hs)]
    exact stage?_congr Iff.rfl Iff.rfl (by simp [clearDone, hd])

/-! ### Steps -/

variable {a : Action} {actions : List Action}

theorem Separate.step (h : l.Separate) (hstep : Step l a m) : m.Separate := by
  cases hstep with
  | offer r => exact separate_iff.2 (nodup_known_offer (separate_iff.1 h))
  | seed rs => exact separate_iff.2 (nodup_known_seed (separate_iff.1 h))
  | start hstart => exact separate_start h hstart
  | idle => exact h
  | finish r => exact separate_finish h
  | clear => exact separate_iff.2 List.nodup_nil
  | clearDone =>
    exact ⟨h.nodup_pending, h.nodup_inFlight, List.nodup_nil, h.pending_inFlight,
      List.disjoint_nil_right _, List.disjoint_nil_right _⟩

theorem History.separate (h : History actions l) : l.Separate := by
  induction h with
  | empty => exact separate_iff.2 List.nodup_nil
  | step _ hstep ih => exact ih.step hstep

theorem stage?_step (h : l.Separate) (hstep : Step l a m) (x : Revision) :
    m.stage? x = a.stageAfter x (l.stage? x) := by
  cases hstep with
  | offer r =>
    rw [stage?_offer]
    cases l.stage? x <;> simp [Action.stageAfter]
  | seed rs =>
    rw [stage?_seed]
    cases l.stage? x <;> simp [Action.stageAfter]
  | @start _ limit r hstart =>
    -- a pending revision is started, so what the others are does not change
    have hr := stage?_eq_pending_iff.2 (start?_eq_some_iff.1 hstart).2.1
    rw [stage?_start h hstart]
    by_cases hx : x = r
    · rw [if_pos hx, hx, hr]
      simp [Action.stageAfter]
    · rw [if_neg hx]
      cases l.stage? x with
      | none => rfl
      | some stage => cases stage <;> simp [Action.stageAfter, hx]
  | idle => cases l.stage? x <;> rfl
  | finish r =>
    rw [stage?_finish h]
    cases l.stage? x with
    | none => simp [Action.stageAfter]
    | some stage => cases stage <;> simp [Action.stageAfter]
  | clear => rfl
  | clearDone =>
    rw [stage?_clearDone h]
    cases l.stage? x with
    | none => rfl
    | some stage => cases stage <;> rfl

/-- As many revisions are added as there are different ones among the seeds that were not known. -/
theorem seed_fst (h : l.Separate) (rs : List Revision) :
    (l.seed rs).1 = #{r ∈ rs.toFinset | l.stage? r = none} := by
  have hnodup := separate_iff.1 h
  have hcard : #(l.seed rs).2.known.toFinset = #l.known.toFinset + (l.seed rs).1 := by
    rw [List.toFinset_card_of_nodup (nodup_known_seed hnodup), List.toFinset_card_of_nodup hnodup,
      length_known_seed]
  have hset : (l.seed rs).2.known.toFinset = rs.toFinset ∪ l.known.toFinset := by
    ext x
    simp only [List.mem_toFinset, Finset.mem_union, mem_known_seed]
  have hnew : {r ∈ rs.toFinset | l.stage? r = none} = rs.toFinset \ l.known.toFinset := by
    ext x
    simp only [Finset.mem_filter, Finset.mem_sdiff, List.mem_toFinset, stage?_eq_none_iff]
  have hsplit := Finset.card_sdiff_add_card rs.toFinset l.known.toFinset
  rw [← hset, hcard] at hsplit
  rw [hnew]
  omega

theorem answers_step (h : l.Separate) (hstep : Step l a m) : a.Answers l := by
  cases hstep with
  | offer r =>
    rw [Action.Answers, stage?_eq_none_iff]
    by_cases hr : r ∈ l.known
    · simp [offer_of_mem hr, hr]
    · simp [offer_of_not_mem hr, hr]
  | seed rs => exact seed_fst h rs
  | start hstart =>
    obtain ⟨hlimit, hr, -⟩ := start?_eq_some_iff.1 hstart
    exact ⟨hlimit, stage?_eq_pending_iff.2 hr⟩
  | idle hidle => exact (isFull_iff.2 hidle).symm
  | finish r => exact finish_fst.trans h.stage?_eq_inFlight_iff.symm
  | clear => trivial
  | clearDone => trivial

/-- A pending revision can be started as long as the limit leaves room, whichever it is. -/
theorem exists_start (hlimit : l.inFlight.length < limit) (hr : r ∈ l.pending) :
    ∃ m, Step l (.start limit (some r)) m :=
  ⟨_, .start (start?_eq_some_iff.2 ⟨hlimit, hr, rfl⟩)⟩

/-- Picking what has been pending longest is one of the picks. -/
theorem step_startNext (l : Lifecycle) (limit : ℕ) :
    Step l (.start limit ((l.startNext limit).map Prod.fst))
      ((l.startNext limit).elim l Prod.snd) := by
  cases h : l.startNext limit with
  | none => exact .idle (isFull_iff.1 (isFull_of_startNext h))
  | some next => exact .start (start?_of_startNext h)

/-- An offer is answered with yes exactly when it changes something. -/
theorem offer_fst_iff_ne : (l.offer r).1 = true ↔ (l.offer r).2 ≠ l := by
  by_cases hr : r ∈ l.known
  · simp [offer_of_mem hr]
  · rw [offer_of_not_mem hr]
    refine iff_of_true rfl fun h ↦ ?_
    have hlength := congrArg (fun m ↦ m.pending.length) h
    simp at hlength

theorem finish_fst_iff_ne : (l.finish r).1 = true ↔ (l.finish r).2 ≠ l := by
  by_cases hr : r ∈ l.inFlight
  · rw [finish_of_mem hr]
    refine iff_of_true rfl fun h ↦ ?_
    have hlength := congrArg (fun m ↦ m.done.length) h
    simp at hlength
  · simp [finish_of_not_mem hr]

/-! ### Order of seeds -/

/-- The same revisions in each place, in whatever order they came. -/
structure SamePlaces (l m : Lifecycle) : Prop where
  pending : l.pending ~ m.pending
  inFlight : l.inFlight ~ m.inFlight
  done : l.done ~ m.done

/-- Only the set of seeds counts. -/
theorem seed_congr (h : l.Separate) {rs rs' : List Revision} (hset : ∀ x, x ∈ rs ↔ x ∈ rs') :
    (l.seed rs).1 = (l.seed rs').1 ∧ (l.seed rs).2.SamePlaces (l.seed rs').2 := by
  have hcount : (l.seed rs).1 = (l.seed rs').1 := by
    rw [seed_fst h, seed_fst h, List.toFinset.ext hset]
  have hstage : ∀ x, (l.seed rs).2.stage? x = (l.seed rs').2.stage? x := by
    intro x
    simp only [stage?_seed, hset x]
  -- seeds reach the pending list only, and it has no repeats
  refine ⟨hcount, ?_, by simp, by simp⟩
  rw [List.perm_ext_iff_of_nodup (h.step (.seed l rs)).nodup_pending
    (h.step (.seed l rs')).nodup_pending]
  intro x
  rw [← stage?_eq_pending_iff, ← stage?_eq_pending_iff, hstage x]

/-! ### Counting -/

theorem length_known : l.known.length = l.pending.length + l.inFlight.length + l.done.length := by
  simp only [known, List.length_append]
  omega

/-- As long as no done revision is dropped, what is known is what was added. -/
theorem History.length_known (h : History actions l) (hkeeps : Action.KeepsDone actions) :
    l.known.length = Action.gainSinceClear actions := by
  -- only offers and seeds make what is known more; starting and finishing move it about
  induction h with
  | empty => rfl
  | step hl hstep ih =>
    cases hstep with
    | offer r =>
      rw [length_known_offer, ih hkeeps]
      rfl
    | seed rs =>
      rw [length_known_seed, ih hkeeps]
      rfl
    | start hstart =>
      rw [(known_start_perm hstart).length_eq, ih hkeeps]
      rfl
    | idle => exact ih hkeeps
    | finish r =>
      rw [known_finish_perm.length_eq, ih hkeeps]
      rfl
    | clear => rfl
    | clearDone => exact hkeeps.elim

/-- Whatever is done with a life cycle, each revision stands in one place at most and moves on from
none to pending, in flight and done, back only where it is cleared; and the answers say so. -/
theorem history_orderly (h : History actions l) :
    l.Separate ∧
    (∀ a m, Step l a m → a.Answers l ∧ ∀ x, m.stage? x = a.stageAfter x (l.stage? x)) ∧
    (∀ limit, (∀ r ∈ l.pending, l.inFlight.length < limit →
        ∃ m, Step l (.start limit (some r)) m) ∧
      Step l (.start limit ((l.startNext limit).map Prod.fst))
        ((l.startNext limit).elim l Prod.snd)) ∧
    (∀ r, ((l.offer r).1 = true ↔ (l.offer r).2 ≠ l) ∧
      ((l.finish r).1 = true ↔ (l.finish r).2 ≠ l)) ∧
    (∀ rs rs' : List Revision, (∀ x, x ∈ rs ↔ x ∈ rs') →
      (l.seed rs).1 = (l.seed rs').1 ∧ (l.seed rs).2.SamePlaces (l.seed rs').2) ∧
    (Action.KeepsDone actions →
      l.pending.length + l.inFlight.length + l.done.length = Action.gainSinceClear actions) :=
  ⟨h.separate,
    fun _ _ hstep ↦ ⟨answers_step h.separate hstep, stage?_step h.separate hstep⟩,
    fun limit ↦ ⟨fun _ hr hlimit ↦ exists_start hlimit hr, step_startNext l limit⟩,
    fun _ ↦ ⟨offer_fst_iff_ne, finish_fst_iff_ne⟩,
    fun _ _ hset ↦ seed_congr h.separate hset,
    fun hkeeps ↦ by rw [← Lifecycle.length_known, h.length_known hkeeps]⟩

/-- A seed comes twice, and a revision is offered again while it is in flight. -/
theorem history_orderly_pair :
    History [.finish Workload.left true, .offer Workload.left false,
      .start 1 (some Workload.left), .seed [Workload.left, Workload.right, Workload.left] 2]
      ⟨[Workload.right], [], [Workload.left]⟩ ∧
    [Workload.right].length + 0 + [Workload.left].length = 2 := by
  have seeded : History [.seed [Workload.left, Workload.right, Workload.left] 2]
      ⟨[Workload.left, Workload.right], [], []⟩ :=
    .step .empty (.seed empty [Workload.left, Workload.right, Workload.left])
  have hstart : start? ⟨[Workload.left, Workload.right], [], []⟩ 1 Workload.left =
      some ⟨[Workload.right], [Workload.left], []⟩ := rfl
  have started := seeded.step (.start hstart)
  have offered := started.step (.offer _ Workload.left)
  have finished := offered.step (.finish _ Workload.left)
  exact ⟨finished, (history_orderly finished).2.2.2.2.2 trivial⟩

end ArtifactIndex.Lifecycle
