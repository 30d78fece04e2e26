import Mathlib.Data.List.Basic
import Mathlib.Data.List.TakeWhile
import ArtifactIndex.Text.Blank

/-!
# White space around a text

`Padded core cs` says that `cs` is `core` with white space in front and behind. Trimming takes such
white space away and nothing else: every text is its trimmed core, padded (`padded_trimChars`), and
where the core is trimmed itself, trimming gives it back from all paddings and from no other text
(`trimChars_eq_iff`).
-/

set_option autoImplicit false
set_option relaxedAutoImplicit false

namespace ArtifactIndex.Text

/-- White space and nothing else. -/
def IsBlankRun (cs : List Char) : Prop :=
  ∀ c ∈ cs, isBlank c

def Padded (core cs : List Char) : Prop :=
  ∃ before after, IsBlankRun before ∧ IsBlankRun after ∧ cs = before ++ (core ++ after)

variable {cs core before after : List Char} {c : Char}

theorem isBlankRun_nil : IsBlankRun [] :=
  List.forall_mem_nil _

theorem IsBlankRun.append (hbefore : IsBlankRun before) (hafter : IsBlankRun after) :
    IsBlankRun (before ++ after) :=
  List.forall_mem_append.2 ⟨hbefore, hafter⟩

theorem IsBlankRun.reverse (h : IsBlankRun cs) : IsBlankRun cs.reverse :=
  fun c hc ↦ h c (List.mem_reverse.1 hc)

theorem padded_self (cs : List Char) : Padded cs cs :=
  ⟨[], [], isBlankRun_nil, isBlankRun_nil, by simp⟩

theorem Padded.append_left (hbefore : IsBlankRun before) (h : Padded core cs) :
    Padded core (before ++ cs) := by
  obtain ⟨front, back, hfront, hback, rfl⟩ := h
  exact ⟨before ++ front, back, hbefore.append hfront, hback, (List.append_assoc _ _ _).symm⟩

theorem Padded.append_right (h : Padded core cs) (hafter : IsBlankRun after) :
    Padded core (cs ++ after) := by
  obtain ⟨front, back, hfront, hback, rfl⟩ := h
  exact ⟨front, back ++ after, hfront, hback.append hafter, by simp⟩

/-! ### The start -/

theorem trimStart_append (hbefore : IsBlankRun before) : trimStart (before ++ cs) = trimStart cs :=
  List.dropWhile_append_of_pos hbefore

theorem trimStart_of_isBlankRun (h : IsBlankRun cs) : trimStart cs = [] := by
  rw [← List.append_nil cs, trimStart_append h]
  rfl

theorem trimStart_eq_self (h : ∀ c ∈ cs.head?, ¬ isBlank c) : trimStart cs = cs := by
  cases cs with
  | nil => rfl
  | cons c cs => exact List.dropWhile_cons_of_neg (h c rfl)

theorem exists_trimStart (cs : List Char) :
    ∃ before, IsBlankRun before ∧ cs = before ++ trimStart cs :=
  ⟨cs.takeWhile isBlank, fun _ hc ↦ List.mem_takeWhile_imp hc,
    List.takeWhile_append_dropWhile.symm⟩

/-- A character that is no white space stops the trimming. -/
theorem trimStart_append_cons (hc : ¬ isBlank c) (front back : List Char) :
    trimStart (front ++ c :: back) = trimStart front ++ c :: back := by
  induction front with
  | nil => exact List.dropWhile_cons_of_neg hc
  | cons d front ih =>
    by_cases hd : isBlank d
    · simpa [trimStart, hd] using ih
    · simp [trimStart, hd]

theorem trimStart_append_of_ne_nil (h : trimStart cs ≠ []) :
    trimStart (cs ++ after) = trimStart cs ++ after := by
  rw [trimStart, List.dropWhile_append, ← trimStart]
  simp [h]

/-! ### The end -/

theorem trimEnd_append (hafter : IsBlankRun after) : trimEnd (cs ++ after) = trimEnd cs := by
  rw [trimEnd, List.reverse_append, trimStart_append hafter.reverse, ← trimEnd]

theorem trimEnd_eq_self (h : ∀ c ∈ cs.getLast?, ¬ isBlank c) : trimEnd cs = cs := by
  rw [trimEnd, trimStart_eq_self (by simpa using h), List.reverse_reverse]

theorem exists_trimEnd (cs : List Char) :
    ∃ after, IsBlankRun after ∧ cs = trimEnd cs ++ after := by
  obtain ⟨before, hbefore, hcs⟩ := exists_trimStart cs.reverse
  refine ⟨before.reverse, hbefore.reverse, ?_⟩
  rw [trimEnd, ← List.reverse_append, ← hcs, List.reverse_reverse]

theorem trimEnd_append_cons (hc : ¬ isBlank c) (front back : List Char) :
    trimEnd (front ++ c :: back) = front ++ c :: trimEnd back := by
  have hreverse : (front ++ c :: back).reverse = back.reverse ++ c :: front.reverse := by simp
  rw [trimEnd, hreverse, trimStart_append_cons hc, trimEnd]
  simp

/-! ### Both ends -/

theorem trimChars_append_left (hbefore : IsBlankRun before) :
    trimChars (before ++ cs) = trimChars cs := by
  rw [trimChars, trimStart_append hbefore, ← trimChars]

theorem trimChars_append_right (hafter : IsBlankRun after) :
    trimChars (cs ++ after) = trimChars cs := by
  by_cases hnil : trimStart cs = []
  · -- only white space is left to be trimmed
    obtain ⟨before, hbefore, hcs⟩ := exists_trimStart cs
    rw [hnil, List.append_nil] at hcs
    rw [trimChars, trimChars, hnil, hcs, trimStart_of_isBlankRun (hbefore.append hafter)]
  · rw [trimChars, trimStart_append_of_ne_nil hnil, trimEnd_append hafter, ← trimChars]

theorem trimChars_append_cons (hc : ¬ isBlank c) (front back : List Char) :
    trimChars (front ++ c :: back) = trimStart front ++ c :: trimEnd back := by
  rw [trimChars, trimStart_append_cons hc, trimEnd_append_cons hc]

theorem trimChars_eq_self (hhead : ∀ c ∈ cs.head?, ¬ isBlank c)
    (hlast : ∀ c ∈ cs.getLast?, ¬ isBlank c) : trimChars cs = cs := by
  rw [trimChars, trimStart_eq_self hhead, trimEnd_eq_self hlast]

theorem padded_trimChars (cs : List Char) : Padded (trimChars cs) cs := by
  obtain ⟨before, hbefore, hcs⟩ := exists_trimStart cs
  obtain ⟨after, hafter, hstart⟩ := exists_trimEnd (trimStart cs)
  exact ⟨before, after, hbefore, hafter, by rw [trimChars, ← hstart, ← hcs]⟩

theorem Padded.trimChars_eq (h : Padded core cs) : trimChars cs = trimChars core := by
  obtain ⟨before, after, hbefore, hafter, rfl⟩ := h
  rw [trimChars_append_left hbefore, trimChars_append_right hafter]

theorem trimChars_trimChars (cs : List Char) : trimChars (trimChars cs) = trimChars cs :=
  (padded_trimChars cs).trimChars_eq.symm

theorem trimChars_eq_iff (hcore : trimChars core = core) : trimChars cs = core ↔ Padded core cs :=
  ⟨fun h ↦ h ▸ padded_trimChars cs, fun h ↦ h.trimChars_eq.trans hcore⟩

theorem trimChars_trimStart (cs : List Char) : trimChars (trimStart cs) = trimChars cs := by
  obtain ⟨before, hbefore, hcs⟩ := exists_trimStart cs
  rw [← trimChars_append_left hbefore, ← hcs]

theorem trimChars_trimEnd (cs : List Char) : trimChars (trimEnd cs) = trimChars cs := by
  obtain ⟨after, hafter, hcs⟩ := exists_trimEnd cs
  rw [← trimChars_append_right hafter, ← hcs]

end ArtifactIndex.Text
