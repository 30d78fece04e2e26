import ArtifactIndex.Closure.Lifecycle
import Mathlib.Data.Finset.Card

/-!
# Life cycles of revisions

What the operations of a life cycle do to the revisions it knows. `Lifecycle.known` lists them all;
as long as that list has no repeats, a known revision stands in exactly one of the three places.
Starting and finishing only rearrange it, and an offer adds to it what was not there
(`known_start_perm`, `known_finish_perm`, `mem_known_offer`).
-/

set_option autoImplicit false
set_option relaxedAutoImplicit false

namespace ArtifactIndex.Lifecycle

open scoped List

variable {l m : Lifecycle} {r x : Revision} {limit : ℕ}

/-- Every revision that came in, wherever it stands now. -/
def known (l : Lifecycle) : List Revision :=
  l.pending ++ (l.inFlight ++ l.done)

theorem mem_known : x ∈ l.known ↔ x ∈ l.pending ∨ x ∈ l.inFlight ∨ x ∈ l.done := by
  simp only [known, List.mem_append]

theorem knows_iff : l.knows r ↔ r ∈ l.known := by
  rw [mem_known, knows, stage?]
  split_ifs with hp hf hd
  · simp [hp]
  · simp [hf]
  · simp [hd]
  · simp [hp, hf, hd]

/-! ### Offers -/

theorem offer_of_mem (h : r ∈ l.known) : l.offer r = (false, l) := by
  rw [offer, if_pos (knows_iff.2 h)]

theorem offer_of_not_mem (h : r ∉ l.known) :
    l.offer r = (true, { l with pending := l.pending ++ [r] }) := by
  rw [offer, if_neg (fun hk ↦ h (knows_iff.1 hk))]

@[simp] theorem inFlight_offer : (l.offer r).2.inFlight = l.inFlight := by
  unfold offer
  split_ifs <;> rfl

@[simp] theorem done_offer : (l.offer r).2.done = l.done := by
  unfold offer
  split_ifs <;> rfl

theorem known_offer_perm (h : r ∉ l.known) : (l.offer r).2.known ~ r :: l.known := by
  rw [offer_of_not_mem h]
  simp only [known, List.append_assoc, List.singleton_append]
  exact List.perm_middle

theorem mem_known_offer : x ∈ (l.offer r).2.known ↔ x = r ∨ x ∈ l.known := by
  by_cases h : r ∈ l.known
  · rw [offer_of_mem h]
    constructor
    · exact Or.inr
    · rintro (rfl | hx)
      · exact h
      · exact hx
  · rw [(known_offer_perm h).mem_iff, List.mem_cons]

theorem nodup_known_offer (h : l.known.Nodup) : (l.offer r).2.known.Nodup := by
  by_cases hr : r ∈ l.known
  · rw [offer_of_mem hr]
    exact h
  · exact (known_offer_perm hr).nodup_iff.2 (List.nodup_cons.2 ⟨hr, h⟩)

/-- An offer is answered with yes exactly when it makes the known revisions more. -/
theorem length_known_offer : (l.offer r).2.known.length = l.known.length + (l.offer r).1.toNat := by
  by_cases h : r ∈ l.known
  · rw [offer_of_mem h]
    rfl
  · rw [(known_offer_perm h).length_eq, offer_of_not_mem h]
    rfl

/-! ### Seeds -/

theorem seed_cons (rs : List Revision) :
    l.seed (r :: rs) =
      (((l.offer r).2.seed rs).1 + (l.offer r).1.toNat, ((l.offer r).2.seed rs).2) :=
  rfl

theorem mem_known_seed {rs : List Revision} :
    x ∈ (l.seed rs).2.known ↔ x ∈ rs ∨ x ∈ l.known := by
  induction rs generalizing l with
  | nil => simp [seed]
  | cons r rs ih =>
    rw [seed_cons, ih, mem_known_offer, List.mem_cons]
    tauto

theorem nodup_known_seed {rs : List Revision} (h : l.known.Nodup) :
    (l.seed rs).2.known.Nodup := by
  induction rs generalizing l with
  | nil => exact h
  | cons r rs ih =>
    rw [seed_cons]
    exact ih (nodup_known_offer h)

theorem length_known_seed {rs : List Revision} :
    (l.seed rs).2.known.length = l.known.length + (l.seed rs).1 := by
  induction rs generalizing l with
  | nil => rfl
  | cons r rs ih =>
    rw [seed_cons, ih, length_known_offer]
    omega

@[simp] theorem inFlight_seed {rs : List Revision} : (l.seed rs).2.inFlight = l.inFlight := by
  induction rs generalizing l with
  | nil => rfl
  | cons r rs ih => rw [seed_cons, ih, inFlight_offer]

@[simp] theorem done_seed {rs : List Revision} : (l.seed rs).2.done = l.done := by
  induction rs generalizing l with
  | nil => rfl
  | cons r rs ih => rw [seed_cons, ih, done_offer]

/-- From nothing, as many revisions are added as there are different seeds. -/
theorem seed_empty_fst (rs : List Revision) : (empty.seed rs).1 = rs.toFinset.card := by
  have hnodup : (empty.seed rs).2.known.Nodup := nodup_known_seed (l := empty) List.nodup_nil
  have hset : (empty.seed rs).2.known.toFinset = rs.toFinset := by
    ext x
    rw [List.mem_toFinset, List.mem_toFinset, mem_known_seed]
    simp [known, empty]
  have hlength : (empty.seed rs).2.known.length = empty.known.length + (empty.seed rs).1 :=
    length_known_seed
  rw [← hset, List.toFinset_card_of_nodup hnodup, hlength]
  simp [known, empty]

/-! ### Starting and finishing -/

theorem start?_eq_some_iff :
    l.start? limit r = some m ↔ l.inFlight.length < limit ∧ r ∈ l.pending ∧
      m = { l with pending := l.pending.erase r, inFlight := l.inFlight ++ [r] } := by
  unfold start?
  split_ifs with h
  · rw [Option.some_inj]
    exact ⟨fun hm ↦ ⟨h.1, h.2, hm.symm⟩, fun hm ↦ hm.2.2.symm⟩
  · constructor
    · intro hm
      cases hm
    · intro hm
      exact absurd ⟨hm.1, hm.2.1⟩ h

/-- Nothing more can be started: nothing is pending, or the limit is reached. -/
def IsFull (l : Lifecycle) (limit : ℕ) : Prop :=
  l.pending = [] ∨ limit ≤ l.inFlight.length

theorem isFull_iff : l.IsFull limit ↔ ∀ r, l.start? limit r = none := by
  unfold IsFull
  constructor
  · rintro (hp | hl) r
    · simp [start?, hp]
    · exact if_neg fun h ↦ absurd h.1 (Nat.not_lt.2 hl)
  · intro h
    cases hp : l.pending with
    | nil => exact Or.inl rfl
    | cons r rest =>
      refine Or.inr (Nat.not_lt.1 fun hlt ↦ ?_)
      have hnone := h r
      rw [start?, if_pos ⟨hlt, hp ▸ List.mem_cons_self⟩] at hnone
      cases hnone

theorem known_start_perm (h : l.start? limit r = some m) : m.known ~ l.known := by
  obtain ⟨-, hr, rfl⟩ := start?_eq_some_iff.1 h
  have hpending : r :: l.pending.erase r ~ l.pending := (List.perm_cons_erase hr).symm
  calc l.pending.erase r ++ ((l.inFlight ++ [r]) ++ l.done)
    _ ~ l.pending.erase r ++ r :: (l.inFlight ++ l.done) := by
      simpa only [List.append_assoc, List.singleton_append] using
        List.perm_middle.append_left (l.pending.erase r)
    _ ~ r :: l.pending.erase r ++ (l.inFlight ++ l.done) := List.perm_middle
    _ ~ l.pending ++ (l.inFlight ++ l.done) := hpending.append_right _

theorem start?_of_startNext (h : l.startNext limit = some (r, m)) : l.start? limit r = some m := by
  unfold startNext at h
  obtain ⟨x, -, hx⟩ := Option.bind_eq_some_iff.1 h
  obtain ⟨revisions, hstart, heq⟩ := Option.map_eq_some_iff.1 hx
  cases heq
  exact hstart

theorem isFull_of_startNext (h : l.startNext limit = none) : l.IsFull limit := by
  cases hp : l.pending with
  | nil => exact Or.inl hp
  | cons r rest =>
    refine Or.inr (Nat.not_lt.1 fun hlt ↦ ?_)
    simp [startNext, start?, hp, hlt] at h

/-- Starting the longest pending first, as often as revisions are pending, leaves nothing to
start. -/
theorem isFull_go {n : ℕ} (hn : l.pending.length ≤ n) :
    (startAll.go limit n l).2.IsFull limit := by
  induction n generalizing l with
  | zero => exact Or.inl (List.length_eq_zero_iff.1 (Nat.le_zero.1 hn))
  | succ n ih =>
    rw [startAll.go]
    split
    case h_1 hnone => exact isFull_of_startNext hnone
    case h_2 r m hsome =>
      obtain ⟨-, hr, rfl⟩ := start?_eq_some_iff.1 (start?_of_startNext hsome)
      refine ih ?_
      rw [List.length_erase_of_mem hr]
      omega

theorem done_go (n : ℕ) : (startAll.go limit n l).2.done = l.done := by
  induction n generalizing l with
  | zero => rfl
  | succ n ih =>
    rw [startAll.go]
    split
    case h_1 => rfl
    case h_2 r m hsome =>
      obtain ⟨-, -, rfl⟩ := start?_eq_some_iff.1 (start?_of_startNext hsome)
      exact ih

theorem finish_of_mem (h : r ∈ l.inFlight) :
    l.finish r = (true, { l with inFlight := l.inFlight.erase r, done := l.done ++ [r] }) :=
  if_pos h

theorem finish_of_not_mem (h : r ∉ l.inFlight) : l.finish r = (false, l) :=
  if_neg h

theorem finish_fst : (l.finish r).1 = true ↔ r ∈ l.inFlight := by
  by_cases h : r ∈ l.inFlight
  · simp [finish_of_mem h, h]
  · simp [finish_of_not_mem h, h]

theorem started_finish_perm :
    (l.finish r).2.inFlight ++ (l.finish r).2.done ~ l.inFlight ++ l.done := by
  by_cases h : r ∈ l.inFlight
  · rw [finish_of_mem h]
    have hflight : r :: l.inFlight.erase r ~ l.inFlight := (List.perm_cons_erase h).symm
    calc l.inFlight.erase r ++ (l.done ++ [r])
      _ ~ l.inFlight.erase r ++ r :: l.done :=
        (List.perm_append_singleton r l.done).append_left _
      _ ~ r :: l.inFlight.erase r ++ l.done := List.perm_middle
      _ ~ l.inFlight ++ l.done := hflight.append_right _
  · rw [finish_of_not_mem h]

@[simp] theorem pending_finish : (l.finish r).2.pending = l.pending := by
  unfold finish
  split_ifs <;> rfl

theorem known_finish_perm : (l.finish r).2.known ~ l.known := by
  rw [known, pending_finish]
  exact started_finish_perm.append_left l.pending

theorem isSettled_iff : l.isSettled ↔ l.pending = [] ∧ l.inFlight = [] := by
  simp [isSettled]

end ArtifactIndex.Lifecycle
