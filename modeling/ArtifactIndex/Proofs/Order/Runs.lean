import ArtifactIndex.Proofs.Order.Merging
import ArtifactIndex.Sorting.Runs

/-!
# Sorting by runs

Every part of the sort is described in the same two respects (`Yields`): what it gives, if it gives
anything, holds the elements it was given, and where the comparison is a total preorder on them it
does give something, and that is ascending. The parts are followed in the order they are built from
each other: runs are cut off, merged along a stack whose elements stay the same (`pile`), and
unsorted ones are sorted around pivots, where an ancestor tells which elements can only tie
(`Precedes`).

Main statements: what `sort?` gives is a permutation (`perm_of_sort?`), and where the comparison is
an order it gives what `sortBy` gives (`sort?_eq_sortBy`).
-/

set_option autoImplicit false
set_option relaxedAutoImplicit false

namespace ArtifactIndex

namespace RunSort

variable {α : Type} {cmp : α → α → Ordering} {s : α → Prop} {xs : List α}

/-! ### Runs -/

/-- A run that counts as sorted is ascending, where the comparison is a total preorder. -/
def Run.Sound (cmp : α → α → Ordering) (s : α → Prop) (run : Run α) : Prop :=
  TotalPreorderOn cmp s → run.isSorted → Ascending cmp run.elements

/-- The front part that `stretch` measures is ascending, if that is what the relation says of
neighbours. -/
theorem ascending_take_stretch (horder : TotalPreorderOn cmp s) (hxs : ∀ x ∈ xs, s x)
    {relates : α → α → Bool} (hrelates : ∀ a b, s a → s b → relates a b → (cmp a b).isLE) :
    Ascending cmp (xs.take (stretch relates xs)) := by
  fun_induction stretch relates xs with
  | case1 a b rest hab ih =>
    obtain ⟨ha, hrest⟩ := List.forall_mem_cons.1 hxs
    have hb : s b := hrest b List.mem_cons_self
    have hle : (cmp a b).isLE := hrelates a b ha hb hab
    have htail := ih hrest
    refine htail.cons fun x hx ↦ ?_
    have hx' : x = b ∨ (cmp b x).isLE := by
      generalize stretch relates (b :: rest) = n at htail hx
      cases n with
      | zero => simp at hx
      | succ n =>
        rw [List.take_succ_cons] at htail hx
        exact (List.mem_cons.1 hx).imp_right (List.rel_of_pairwise_cons htail)
    rcases hx' with rfl | hbx
    · exact hle
    · exact horder.trans a b x ha hb (hrest x (List.mem_of_mem_take hx)) hle hbx
  | case2 a b rest hab => exact List.pairwise_singleton _ _
  | case3 xs hshort =>
    refine ascending_of_length_le_one ?_
    rcases xs with _ | ⟨a, _ | ⟨b, rest⟩⟩
    · simp
    · simp
    · exact absurd rfl (hshort a b rest)

theorem splitRun_append (xs : List α) :
    ((splitRun cmp xs).1 ++ (splitRun cmp xs).2).Perm xs := by
  unfold splitRun
  dsimp only
  split_ifs
  · exact ((List.reverse_perm _).append_right _).trans (.of_eq (List.take_append_drop _ _))
  · exact .of_eq (List.take_append_drop _ _)

theorem ascending_splitRun (horder : TotalPreorderOn cmp s) (hxs : ∀ x ∈ xs, s x) :
    Ascending cmp (splitRun cmp xs).1 := by
  unfold splitRun
  dsimp only
  split_ifs
  · refine List.pairwise_reverse.2 (ascending_take_stretch horder.flip hxs fun a b _ _ hab ↦ ?_)
    simp [eq_of_beq hab]
  · refine ascending_take_stretch horder hxs fun a b ha hb hab ↦ ?_
    exact horder.isLE_of_ne_lt hb ha (by simpa using hab)

theorem yields_nextRun? (hxs : ∀ x ∈ xs, s x) (good : ℕ) (eager : Bool) :
    Yields cmp s (nextRun? cmp good eager xs) fun found ↦
      (found.1.elements ++ found.2).Perm xs ∧ found.1.Sound cmp s := by
  unfold nextRun?
  dsimp only
  split_ifs
  · exact .some ⟨splitRun_append xs, fun horder _ ↦ ascending_splitRun horder hxs⟩
  · refine (yields_sortShort? fun x hx ↦ hxs x (List.mem_of_mem_take hx)).map fun ys hys ↦ ?_
    refine ⟨(hys.1.append_right _).trans (.of_eq (List.take_append_drop _ _)), fun horder _ ↦ ?_⟩
    exact hys.2 horder
  · exact .some ⟨.of_eq (List.take_append_drop _ _), fun _ hfalse ↦ by simp at hfalse⟩

theorem yields_runs? (hxs : ∀ x ∈ xs, s x) (good : ℕ) (eager : Bool) (n : ℕ) :
    Yields cmp s (runs? cmp good eager n xs) fun runs ↦
      (runs.flatMap Run.elements).Perm xs ∧ ∀ run ∈ runs, run.Sound cmp s := by
  induction n generalizing xs with
  | zero =>
    cases xs with
    | nil => exact .some ⟨.refl _, by simp⟩
    | cons x xs =>
      refine .some ⟨by simp, ?_⟩
      simp [Run.Sound]
  | succ n ih =>
    cases xs with
    | nil => exact .some ⟨.refl _, by simp⟩
    | cons x xs =>
      refine (yields_nextRun? hxs good eager).bind fun found hfound ↦ ?_
      have hrest : ∀ y ∈ found.2, s y := fun y hy ↦
        hxs y (hfound.1.mem_iff.1 (List.mem_append_right _ hy))
      refine (ih hrest).bind fun runs hruns ↦ .some ⟨?_, ?_⟩
      · exact (hruns.1.append_left _).trans hfound.1
      · exact List.forall_mem_cons.2 ⟨hfound.2, hruns.2⟩

/-! ### Merging runs -/

/-- Lists of the elements that the comparison is about are sorted. -/
def SortsAll (cmp : α → α → Ordering) (s : α → Prop) (settle : List α → Option (List α)) : Prop :=
  ∀ ys, (∀ y ∈ ys, s y) → Yields cmp s (settle ys) (Sorts cmp s ys)

/-- The elements of the runs on a stack. -/
def pile (stack : List (Run α × ℕ)) : List α :=
  stack.flatMap fun entry ↦ entry.1.elements

section Merging

variable {settle : List α → Option (List α)} {room n : ℕ} {run left right : Run α}
  {stack : List (Run α × ℕ)}

theorem yields_settled? (hsettle : SortsAll cmp s settle)
    (hmem : ∀ x ∈ run.elements, s x) (hrun : run.Sound cmp s) :
    Yields cmp s (run.settled? settle) (Sorts cmp s run.elements) := by
  unfold Run.settled?
  split_ifs with hsorted
  · exact .some ⟨.refl _, fun horder ↦ hrun horder hsorted⟩
  · exact hsettle _ hmem

theorem yields_join? (hsettle : SortsAll cmp s settle)
    (hmem : ∀ x ∈ left.elements ++ right.elements, s x) (hleft : left.Sound cmp s)
    (hright : right.Sound cmp s) :
    Yields cmp s (join? cmp settle room left right) fun joined ↦
      joined.elements.Perm (left.elements ++ right.elements) ∧ joined.Sound cmp s := by
  obtain ⟨hls, hrs⟩ := List.forall_mem_append.1 hmem
  unfold join?
  split_ifs
  · refine (yields_settled? hsettle hls hleft).bind fun ls hsortsLeft ↦ ?_
    refine (yields_settled? hsettle hrs hright).bind fun rs hsortsRight ↦ ?_
    refine .some ⟨?_, fun horder _ ↦ ?_⟩
    · exact (merge_perm ls rs).trans (hsortsLeft.1.append hsortsRight.1)
    · exact ascending_merge horder (fun x hx ↦ hls x (hsortsLeft.1.mem_iff.1 hx))
        (fun x hx ↦ hrs x (hsortsRight.1.mem_iff.1 hx)) (hsortsLeft.2 horder) (hsortsRight.2 horder)
  · exact .some ⟨.refl _, fun _ hfalse ↦ by simp at hfalse⟩

theorem yields_collapse? (hsettle : SortsAll cmp s settle)
    (depth : ℕ) (hmem : ∀ x ∈ run.elements ++ pile stack, s x) (hrun : run.Sound cmp s)
    (hstack : ∀ entry ∈ stack, entry.1.Sound cmp s) :
    Yields cmp s (collapse? cmp settle room depth stack run) fun found ↦
      (found.1.elements ++ pile found.2).Perm (run.elements ++ pile stack) ∧
        found.1.Sound cmp s ∧ (∀ entry ∈ found.2, entry.1.Sound cmp s) ∧
        (depth = 0 → found.2 = []) := by
  induction stack generalizing run with
  | nil => exact .some ⟨.refl _, hrun, by simp, fun _ ↦ rfl⟩
  | cons entry stack ih =>
    obtain ⟨top, below⟩ := entry
    obtain ⟨htop, hstack⟩ := List.forall_mem_cons.1 hstack
    have hpile : ((top.elements ++ run.elements) ++ pile stack).Perm
        (run.elements ++ pile ((top, below) :: stack)) := by
      simpa [pile] using List.perm_append_comm_assoc top.elements run.elements (pile stack)
    have hmem' : ∀ x ∈ (top.elements ++ run.elements) ++ pile stack, s x :=
      fun x hx ↦ hmem x (hpile.mem_iff.1 hx)
    unfold collapse?
    split_ifs with hdepth
    · refine (yields_join? hsettle (fun x hx ↦ hmem' x (List.mem_append_left _ hx)) htop hrun).bind
        fun joined ⟨hjoined, hsound⟩ ↦ ?_
      have hperm := (hjoined.append_right (pile stack)).trans hpile
      refine (ih (fun x hx ↦ hmem x (hperm.mem_iff.1 hx)) hsound hstack).imp ?_
      rintro found ⟨hfound, hrest⟩
      exact ⟨hfound.trans hperm, hrest⟩
    · refine .some ⟨.refl _, hrun, List.forall_mem_cons.2 ⟨htop, hstack⟩, fun hzero ↦ ?_⟩
      omega

/-- Every run behind is merged into the one in front, and so is the stack. -/
theorem yields_climb? (hsettle : SortsAll cmp s settle)
    (mid : ℕ) {rest : List (Run α)}
    (hmem : ∀ x ∈ run.elements ++ pile stack ++ rest.flatMap Run.elements, s x)
    (hrun : run.Sound cmp s) (hstack : ∀ entry ∈ stack, entry.1.Sound cmp s)
    (hrest : ∀ next ∈ rest, next.Sound cmp s) :
    Yields cmp s (climb? cmp settle room n stack run mid rest) fun whole ↦
      whole.elements.Perm (run.elements ++ pile stack ++ rest.flatMap Run.elements) ∧
        whole.Sound cmp s := by
  induction rest generalizing stack run mid with
  | nil =>
    rw [List.flatMap_nil, List.append_nil] at hmem ⊢
    refine (yields_collapse? hsettle 0 hmem hrun hstack).map ?_
    rintro found ⟨hfound, hsound, -, hnil⟩
    rw [hnil rfl] at hfound
    exact ⟨by simpa [pile] using hfound, hsound⟩
  | cons next rest ih =>
    obtain ⟨hnext, hrest⟩ := List.forall_mem_cons.1 hrest
    have hfront : ∀ x ∈ run.elements ++ pile stack, s x :=
      fun x hx ↦ hmem x (List.mem_append_left _ hx)
    refine (yields_collapse? hsettle _ hfront hrun hstack).bind ?_
    rintro found ⟨hfound, hsound, hfoundStack, -⟩
    have hperm : ∀ depth, (next.elements ++ pile ((found.1, depth) :: found.2) ++
        rest.flatMap Run.elements).Perm
          (run.elements ++ pile stack ++ (next :: rest).flatMap Run.elements) := by
      intro depth
      rw [List.flatMap_cons, ← List.append_assoc]
      exact (List.perm_append_comm.trans (hfound.append_right _)).append_right _
    refine (ih _ (fun x hx ↦ hmem x ((hperm _).mem_iff.1 hx)) hnext
      (List.forall_mem_cons.2 ⟨hsound, hfoundStack⟩) hrest).imp ?_
    rintro whole ⟨hwhole, hwholeSound⟩
    exact ⟨hwhole.trans (hperm _), hwholeSound⟩

theorem yields_sortRuns? (hsettle : SortsAll cmp s settle)
    (eager : Bool) (hxs : ∀ x ∈ xs, s x) :
    Yields cmp s (sortRuns? cmp settle room eager xs) (Sorts cmp s xs) := by
  unfold sortRuns?
  refine (yields_runs? hxs _ eager _).bind fun runs ⟨hruns, hsound⟩ ↦ ?_
  cases runs with
  | nil => exact .some ⟨hruns, fun _ ↦ .nil⟩
  | cons first rest =>
    obtain ⟨hfirst, hrest⟩ := List.forall_mem_cons.1 hsound
    have hmem : ∀ x ∈ first.elements ++ pile [] ++ rest.flatMap Run.elements, s x :=
      fun x hx ↦ hxs x (hruns.mem_iff.1 (by simpa [pile] using hx))
    refine (yields_climb? hsettle _ hmem hfirst (by simp) hrest).bind
      fun whole ⟨hwhole, hwholeSound⟩ ↦ ?_
    have hperm : whole.elements.Perm xs := hwhole.trans (by simpa [pile] using hruns)
    refine (yields_settled? hsettle (fun x hx ↦ hxs x (hperm.mem_iff.1 hx)) hwholeSound).imp ?_
    rintro ys ⟨hys, hascending⟩
    exact ⟨hys.trans hperm, hascending⟩

end Merging

/-! ### Pivots -/

theorem sample_mem {x : α} (hx : x ∈ xs) (n i : ℕ) : sample cmp xs x n i ∈ xs := by
  induction n using Nat.strongRecOn generalizing i with
  | ind n ih =>
    rw [sample]
    split_ifs with hshort
    · rw [List.getD_eq_getElem?_getD]
      cases hget : xs[i]? with
      | none => exact hx
      | some y => exact List.mem_of_getElem? hget
    · have hlt : n / 8 < n := Nat.div_lt_self (by omega) (by omega)
      unfold median
      dsimp only
      split_ifs
      all_goals exact ih _ hlt _

/-- The ancestor is one of the elements that the comparison is about and not greater than any of the
list. -/
def Precedes (cmp : α → α → Ordering) (s : α → Prop) (ancestor : Option α) (xs : List α) : Prop :=
  ∀ a ∈ ancestor, s a ∧ (TotalPreorderOn cmp s → ∀ x ∈ xs, (cmp a x).isLE)

/-- A list is sorted by sorting what comes before a pivot and what comes after it. -/
theorem sorts_append {pivot : α} (hpivot : s pivot) (hxs : ∀ x ∈ xs, s x) {p q : α → Bool}
    (hpq : ∀ y, q y = !p y) {front back : List α} (hfront : Sorts cmp s (xs.filter p) front)
    (hback : Sorts cmp s (xs.filter q) back)
    (hle : TotalPreorderOn cmp s → ∀ y ∈ xs, p y → (cmp y pivot).isLE)
    (hge : TotalPreorderOn cmp s → ∀ z ∈ xs, q z → (cmp pivot z).isLE) :
    Sorts cmp s xs (front ++ back) := by
  obtain rfl : q = fun y ↦ !p y := funext hpq
  refine ⟨(hfront.1.append hback.1).trans (List.filter_append_perm p xs), fun horder ↦ ?_⟩
  refine List.pairwise_append.2 ⟨hfront.2 horder, hback.2 horder, fun y hy z hz ↦ ?_⟩
  obtain ⟨hy, hyp⟩ := List.mem_filter.1 (hfront.1.mem_iff.1 hy)
  obtain ⟨hz, hzq⟩ := List.mem_filter.1 (hback.1.mem_iff.1 hz)
  exact horder.trans y pivot z (hxs y hy) hpivot (hxs z hz) (hle horder y hy hyp)
    (hge horder z hz hzq)

/-- A pivot that nothing is less than, or that the ancestor is not less than, is a least element. -/
theorem isLE_pivot (horder : TotalPreorderOn cmp s) (hxs : ∀ x ∈ xs, s x) {ancestor : Option α}
    (hancestor : Precedes cmp s ancestor xs) {pivot : α} (hpivot : pivot ∈ xs)
    (h : (xs.filter fun y ↦ cmp y pivot == .lt).isEmpty ||
      ancestor.any fun a ↦ cmp a pivot != .lt) :
    ∀ y ∈ xs, (cmp pivot y).isLE := by
  intro y hy
  rcases Bool.or_eq_true_iff.1 h with hempty | hties
  · have hnone := List.filter_eq_nil_iff.1 (List.isEmpty_iff.1 hempty) y hy
    exact horder.isLE_of_ne_lt (hxs y hy) (hxs pivot hpivot) (by simpa using hnone)
  · cases ancestor with
    | none => simp at hties
    | some a =>
      obtain ⟨ha, hbelow⟩ := hancestor a rfl
      have hle : (cmp pivot a).isLE :=
        horder.isLE_of_ne_lt ha (hxs pivot hpivot) (by simpa using hties)
      exact horder.trans pivot a y (hxs pivot hpivot) ha (hxs y hy) hle (hbelow horder y hy)

theorem yields_sortAround? (limit : ℕ) {ancestor : Option α} (hxs : ∀ x ∈ xs, s x)
    (hancestor : Precedes cmp s ancestor xs) :
    Yields cmp s (sortAround? cmp limit ancestor xs) (Sorts cmp s xs) := by
  fun_induction sortAround? cmp limit ancestor xs with
  | case1 => exact .some ⟨.refl _, fun _ ↦ .nil⟩
  | case2 ancestor x xs hshort => exact yields_sortShort? hxs
  | case3 ancestor x xs hlong =>
    exact yields_sortRuns? (fun ys hys ↦ .some ⟨sortBy_perm cmp ys, (pairwise_sortBy · hys)⟩)
      true hxs
  | case4 limit ancestor x xs hshort => exact yields_sortShort? hxs
  | case5 limit ancestor x xs hlong pivot isLess isGreater less hties ih =>
    have hpivot : s pivot := hxs pivot (sample_mem List.mem_cons_self _ _)
    have hle : TotalPreorderOn cmp s → ∀ y ∈ x :: xs, !isGreater y → (cmp y pivot).isLE :=
      fun horder y hy hnot ↦
        horder.isLE_of_ne_lt hpivot (hxs y hy) (by simpa [isGreater] using hnot)
    have hleast : TotalPreorderOn cmp s → ∀ y ∈ x :: xs, (cmp pivot y).isLE :=
      fun horder ↦ isLE_pivot horder hxs hancestor (sample_mem List.mem_cons_self _ _) hties
    refine (ih (fun y hy ↦ hxs y (List.mem_of_mem_filter hy)) (by simp [Precedes])).bind
      fun greater hgreater ↦ .some (sorts_append hpivot hxs (by simp) ⟨.refl _, fun horder ↦ ?_⟩
        hgreater hle fun horder z hz _ ↦ hleast horder z hz)
    -- what is not greater than a least element ties with it
    refine List.pairwise_of_forall_mem_list fun y hy z hz ↦ ?_
    obtain ⟨hy, hnot⟩ := List.mem_filter.1 hy
    have hz : z ∈ x :: xs := List.mem_of_mem_filter hz
    exact horder.trans y pivot z (hxs y hy) hpivot (hxs z hz) (hle horder y hy hnot)
      (hleast horder z hz)
  | case6 limit ancestor x xs hlong pivot isLess less hties ihRight ihLeft =>
    have hpivot : s pivot := hxs pivot (sample_mem List.mem_cons_self _ _)
    have hle : TotalPreorderOn cmp s → ∀ y ∈ x :: xs, isLess y → (cmp y pivot).isLE :=
      fun _ y _ hless ↦ by simp [eq_of_beq hless]
    have hge : TotalPreorderOn cmp s → ∀ z ∈ x :: xs, !isLess z → (cmp pivot z).isLE :=
      fun horder z hz hnot ↦
        horder.isLE_of_ne_lt (hxs z hz) hpivot (by simpa [isLess] using hnot)
    have hright : Precedes cmp s (some pivot) ((x :: xs).filter fun y ↦ !isLess y) := by
      rintro _ ⟨⟩
      refine ⟨hpivot, fun horder z hz ↦ ?_⟩
      obtain ⟨hz, hnot⟩ := List.mem_filter.1 hz
      exact hge horder z hz hnot
    have hleft : Precedes cmp s ancestor less := by
      intro a ha
      obtain ⟨hs, hbelow⟩ := hancestor a ha
      exact ⟨hs, fun horder y hy ↦ hbelow horder y (List.mem_of_mem_filter hy)⟩
    exact (ihRight (fun z hz ↦ hxs z (List.mem_of_mem_filter hz)) hright).bind fun right hsorted ↦
      (ihLeft (fun y hy ↦ hxs y (List.mem_of_mem_filter hy)) hleft).bind fun left hsorted' ↦
        .some (sorts_append hpivot hxs (fun _ ↦ rfl) hsorted' hsorted hle hge)

end RunSort

open RunSort in
theorem yields_sort? {α : Type} {cmp : α → α → Ordering} (xs : List α) :
    Yields cmp (· ∈ xs) (sort? cmp xs) (Sorts cmp (· ∈ xs) xs) := by
  unfold sort?
  dsimp only
  split_ifs
  · exact .some ⟨sortBy_perm cmp xs, fun horder ↦ pairwise_sortBy horder fun _ hx ↦ hx⟩
  · exact yields_sortRuns? (fun ys hys ↦ yields_sortAround? _ hys (by simp [Precedes])) _
      fun _ hx ↦ hx

section Sorted

variable {α : Type} {cmp : α → α → Ordering} {xs ys : List α}

theorem perm_of_sort? (h : sort? cmp xs = some ys) : ys.Perm xs :=
  ((yields_sort? xs).of_eq_some ys h).1

/-- Where the comparison is an order on the elements, the sort does not fail, and what it gives is
the one ascending list of them. -/
theorem sort?_eq_sortBy (horder : TotalPreorderOn cmp (· ∈ xs))
    (htie : ∀ x y, (cmp x y).isLE → (cmp y x).isLE → x = y) :
    sort? cmp xs = some (sortBy cmp xs) := by
  obtain ⟨ys, hys⟩ := (yields_sort? xs).exists_some horder
  obtain ⟨hperm, hascending⟩ := (yields_sort? xs).of_eq_some ys hys
  rw [hys, (hperm.trans (sortBy_perm cmp xs).symm).eq_of_pairwise (fun x y _ _ ↦ htie x y)
    (hascending horder) (pairwise_sortBy horder fun _ hx ↦ hx)]

end Sorted
end ArtifactIndex
