import ArtifactIndex.Proofs.Version.Entries

/-!
# Versions read with open lists

Components are read from the front to the back, each list finished before the components in front
of it are. Here the lists are read as they are opened: entries are added to the innermost open list,
a hyphen or a switch between digits and letters opens a list inside it, and behind the text the
lists are closed from the innermost outwards, each normalized from its end before it becomes an
entry of the list around it.

Both ways lead to the same lists (`OpenLists.read_eq_entries`). What has been finished of the
components is in the open lists, and the rest belongs into the innermost of them (`Nest.plug`). One
character more keeps this (`OpenLists.Tracks.step`), and so does a text. Closing then puts the lists
together and normalizes what it puts together (`OpenLists.close_eq`).
-/

set_option autoImplicit false
set_option relaxedAutoImplicit false

namespace ArtifactIndex

namespace Components

/-! ### Lists inside one another -/

/-- Open lists: the innermost, and those around it from the inside out. -/
structure Nest (α : Type) where
  inner : List α
  around : List (List α)

namespace Nest

variable {α β : Type}

def add (nest : Nest α) (a : α) : Nest α :=
  ⟨nest.inner ++ [a], nest.around⟩

def deepen (nest : Nest α) : Nest α :=
  ⟨[], nest.inner :: nest.around⟩

def map (f : α → β) (nest : Nest α) : Nest β :=
  ⟨nest.inner.map f, nest.around.map (List.map f)⟩

theorem map_add (f : α → β) (nest : Nest α) (a : α) :
    (nest.add a).map f = (nest.map f).add (f a) := by
  simp [add, map]

theorem map_deepen (f : α → β) (nest : Nest α) : nest.deepen.map f = (nest.map f).deepen :=
  rfl

/-- Components that end a list, put into the lists around it. -/
def enclose (around : List (List Component)) (xs : Components) : Components :=
  around.foldl (fun xs front ↦ .chain front (.sublist xs)) xs

/-- Components put into the innermost list, behind what it holds. -/
def plug (nest : Nest Component) (xs : Components) : Components :=
  enclose nest.around (.chain nest.inner xs)

theorem plug_add (nest : Nest Component) (c : Component) (xs : Components) :
    (nest.add c).plug xs = nest.plug (.item c xs) := by
  simp [plug, add, Components.chain]

theorem plug_deepen (nest : Nest Component) (xs : Components) :
    nest.deepen.plug xs = nest.plug (.sublist xs) :=
  rfl

end Nest

/-! ### Reading -/

/-- What has been read of a text: the lists that are open, the part behind the last entry, and
whether the last character other than a separator was a digit. -/
structure OpenLists where
  lists : Nest Entry
  part : List Char
  inDigits : Bool

namespace OpenLists

def start : OpenLists :=
  ⟨⟨[], []⟩, [], false⟩

/-- The part as an entry; `beforeDigit` tells whether a digit follows it directly. -/
def entry (s : OpenLists) (beforeDigit : Bool) : Entry :=
  if s.inDigits then .digits (Entry.stripZeros s.part)
  else .qualifier (.ofText (String.ofList s.part) beforeDigit)

/-- The entry in front of a separator. -/
def separated (s : OpenLists) : Entry :=
  if s.part = [] then .digits ['0'] else s.entry false

def step (s : OpenLists) (c : Char) : OpenLists :=
  if c = '.' then ⟨s.lists.add s.separated, [], s.inDigits⟩
  else if c = '-' then ⟨(s.lists.add s.separated).deepen, [], s.inDigits⟩
  else if s.part ≠ [] ∧ s.inDigits ≠ c.isDigit then
    ⟨(s.lists.add (s.entry c.isDigit)).deepen, [c], c.isDigit⟩
  else ⟨s.lists, s.part ++ [c], c.isDigit⟩

/-- Closes the lists from the innermost outwards. -/
def close (inner : List Entry) : List (List Entry) → List Entry
  | [] => Entry.normalizeList inner
  | outer :: around => close (outer ++ [.sublist (Entry.normalizeList inner)]) around

/-- The entries at the end of the text. -/
def finish (s : OpenLists) : List Entry :=
  let lists := if s.part = [] then s.lists else s.lists.add (s.entry false)
  close lists.inner lists.around

/-- The entries of a lower-case text. -/
def read (cs : List Char) : List Entry :=
  (cs.foldl step start).finish

/-! ### What has been read -/

/-- The part is what the component that is unfinished in `Components.scan` was read from. -/
def Unfinished (s : OpenLists) : Run → Prop
  | .none => s.part = []
  | .digits n => s.part ≠ [] ∧ (∀ c ∈ s.part, c.isDigit) ∧ decimal s.part = n ∧ s.inDigits = true
  | .letters reversed => reversed ≠ [] ∧ s.part = reversed.reverse ∧ s.inDigits = false

theorem entry_of_digits {s : OpenLists} {n : ℕ} (h : s.Unfinished (.digits n))
    (beforeDigit : Bool) : s.entry beforeDigit = (Component.number n).entry := by
  obtain ⟨-, hdigits, rfl, hin⟩ := h
  rw [entry, if_pos hin, Entry.stripZeros_eq hdigits]
  rfl

theorem entry_of_letters {s : OpenLists} {reversed : List Char}
    (h : s.Unfinished (.letters reversed)) (beforeDigit : Bool) :
    s.entry beforeDigit =
      (Component.qualifier (.ofText (String.ofList reversed.reverse) beforeDigit)).entry := by
  obtain ⟨-, hpart, hin⟩ := h
  rw [entry, hin, hpart]
  rfl

theorem part_ne_nil {s : OpenLists} {run : Run} (h : s.Unfinished run) (hrun : run ≠ .none) :
    s.part ≠ [] := by
  cases run with
  | none => exact absurd rfl hrun
  | digits n => exact h.1
  | letters reversed => simpa [h.2.1] using h.1

theorem separated_eq {s : OpenLists} {run : Run} (h : s.Unfinished run) :
    s.separated = run.close.entry := by
  cases run with
  | none => exact if_pos h
  | digits n => exact (if_neg (part_ne_nil h Run.noConfusion)).trans (entry_of_digits h false)
  | letters reversed =>
    exact (if_neg (part_ne_nil h Run.noConfusion)).trans (entry_of_letters h false)

/-- The open lists hold the components of `nest`, and the part is what `run` was read from. -/
structure Tracks (s : OpenLists) (nest : Nest Component) (run : Run) : Prop where
  lists : s.lists = nest.map Component.entry
  unfinished : s.Unfinished run

theorem tracks_start : Tracks start ⟨[], []⟩ .none :=
  ⟨rfl, rfl⟩

/-- A character of the same kind goes to the part. -/
theorem Tracks.continues {s : OpenLists} {nest : Nest Component} {run : Run}
    (h : s.Tracks nest run) {c : Char} (hc : c ≠ '.' ∧ c ≠ '-')
    (hsame : s.part = [] ∨ s.inDigits = c.isDigit) :
    (s.step c).Tracks nest (run.push c) ∧ ∀ xs, run.finish c xs = xs := by
  have hstep : s.step c = ⟨s.lists, s.part ++ [c], c.isDigit⟩ := by
    rw [OpenLists.step, if_neg hc.1, if_neg hc.2, if_neg]
    rintro ⟨hpart, hswitch⟩
    exact hsame.elim hpart hswitch
  rw [hstep]
  cases run with
  | none =>
    have hpart : s.part = [] := h.unfinished
    rw [hpart]
    by_cases hdigit : c.isDigit
    · have hpush : Run.none.push c = .digits (digitValue c) := by
        simp [Run.push, hc.1, hc.2, hdigit]
      rw [hpush]
      refine ⟨⟨h.lists, by simp, by simpa using hdigit, decimal_singleton c, hdigit⟩, fun xs ↦ ?_⟩
      simp [Run.finish, hc.1, hc.2, hdigit]
    · have hpush : Run.none.push c = .letters [c] := by
        simp [Run.push, hc.1, hc.2, hdigit]
      rw [hpush]
      refine ⟨⟨h.lists, by simp, rfl, by simpa using hdigit⟩, fun xs ↦ ?_⟩
      simp [Run.finish, hc.1, hc.2, hdigit]
  | digits n =>
    obtain ⟨hne, hdigits, hvalue, hin⟩ := h.unfinished
    have hdigit : c.isDigit := (hsame.resolve_left hne).symm.trans hin
    have hpush : (Run.digits n).push c = .digits (10 * n + digitValue c) := by
      simp [Run.push, hc.1, hc.2, hdigit]
    rw [hpush]
    refine ⟨⟨h.lists, by simp, ?_, ?_, hdigit⟩, fun xs ↦ ?_⟩
    · exact List.forall_mem_append.2 ⟨hdigits, by simpa using hdigit⟩
    · rw [decimal_append, hvalue, digitValue]
    · simp [Run.finish, hc.1, hc.2, hdigit]
  | letters reversed =>
    obtain ⟨hne, hpart, hin⟩ := h.unfinished
    have hdigit : c.isDigit = false :=
      (hsame.resolve_left (part_ne_nil h.unfinished Run.noConfusion)).symm.trans hin
    have hpush : (Run.letters reversed).push c = .letters (c :: reversed) := by
      simp [Run.push, hc.1, hc.2, hdigit]
    rw [hpush, hpart]
    refine ⟨⟨h.lists, by simp, by simp, hdigit⟩, fun xs ↦ ?_⟩
    simp [Run.finish, hc.1, hc.2, hdigit]

/-- A character of the other kind closes the part and opens a list. -/
theorem Tracks.switches {s : OpenLists} {nest : Nest Component} {run : Run}
    (h : s.Tracks nest run) {c : Char} (hc : c ≠ '.' ∧ c ≠ '-') (hpart : s.part ≠ [])
    (hswitch : s.inDigits ≠ c.isDigit) :
    ∃ d : Component, (s.step c).Tracks (nest.add d).deepen (run.push c) ∧
      ∀ xs, run.finish c xs = item d (sublist xs) := by
  have hstep : s.step c = ⟨(s.lists.add (s.entry c.isDigit)).deepen, [c], c.isDigit⟩ := by
    rw [OpenLists.step, if_neg hc.1, if_neg hc.2, if_pos ⟨hpart, hswitch⟩]
  have hlists : ∀ d : Component, s.entry c.isDigit = d.entry →
      (s.lists.add (s.entry c.isDigit)).deepen = ((nest.add d).deepen).map Component.entry := by
    intro d hd
    rw [h.lists, hd, Nest.map_deepen, Nest.map_add]
  rw [hstep]
  cases run with
  | none => exact absurd h.unfinished hpart
  | digits n =>
    obtain ⟨-, -, -, hin⟩ := h.unfinished
    have hdigit : c.isDigit = false := by
      simpa [hin] using hswitch
    have hpush : (Run.digits n).push c = .letters [c] := by
      simp [Run.push, hc.1, hc.2, hdigit]
    rw [hpush]
    refine ⟨.number n, ⟨hlists _ (entry_of_digits h.unfinished _), by simp, rfl, hdigit⟩,
      fun xs ↦ ?_⟩
    simp [Run.finish, hc.1, hc.2, hdigit]
  | letters reversed =>
    obtain ⟨-, -, hin⟩ := h.unfinished
    have hdigit : c.isDigit := by
      simpa [hin] using hswitch
    have hpush : (Run.letters reversed).push c = .digits (digitValue c) := by
      simp [Run.push, hc.1, hc.2, hdigit]
    rw [hpush]
    refine ⟨_, ⟨hlists _ (entry_of_letters h.unfinished _), by simp, by simpa using hdigit,
      decimal_singleton c, hdigit⟩, fun xs ↦ ?_⟩
    simp [Run.finish, hc.1, hc.2, hdigit]

/-- One character more: what it finishes has gone to the open lists. -/
theorem Tracks.step {s : OpenLists} {nest : Nest Component} {run : Run} (h : s.Tracks nest run)
    (c : Char) : ∃ nest', (s.step c).Tracks nest' (run.push c) ∧
      ∀ xs, nest'.plug xs = nest.plug (run.finish c xs) := by
  have hseparated : s.lists.add s.separated = (nest.add run.close).map Component.entry := by
    rw [h.lists, separated_eq h.unfinished, Nest.map_add]
  -- a separator finishes the part, and so does a switch; any other character leaves the lists alone
  by_cases hstop : c = '.'
  · subst hstop
    exact ⟨nest.add run.close, ⟨hseparated, rfl⟩, Nest.plug_add nest run.close⟩
  by_cases hhyphen : c = '-'
  · subst hhyphen
    refine ⟨(nest.add run.close).deepen, ⟨?_, rfl⟩, fun xs ↦ ?_⟩
    · exact congrArg Nest.deepen hseparated
    · rw [Nest.plug_deepen, Nest.plug_add]
      rfl
  by_cases hsame : s.part = [] ∨ s.inDigits = c.isDigit
  · obtain ⟨htracks, hfinish⟩ := h.continues ⟨hstop, hhyphen⟩ hsame
    exact ⟨nest, htracks, fun xs ↦ by rw [hfinish]⟩
  · rw [not_or] at hsame
    obtain ⟨d, htracks, hfinish⟩ := h.switches ⟨hstop, hhyphen⟩ hsame.1 hsame.2
    refine ⟨(nest.add d).deepen, htracks, fun xs ↦ ?_⟩
    rw [Nest.plug_deepen, Nest.plug_add, hfinish]

/-- Closing puts the lists together as `Nest.enclose` does and normalizes them. -/
theorem close_eq {inner : List Entry} {xs : Components}
    (h : Entry.normalizeList inner = xs.normalize.entries) (around : List (List Component)) :
    close inner (around.map (List.map Component.entry)) =
      (Nest.enclose around xs).normalize.entries := by
  induction around generalizing inner xs with
  | nil => exact h
  | cons outer around ih =>
    refine ih (normalizeList_chain ?_ outer)
    rw [h]
    exact normalizeList_sublist xs

theorem close_map_entry (nest : Nest Component) :
    close (nest.map Component.entry).inner (nest.map Component.entry).around =
      (nest.plug done).normalize.entries := by
  have hinner : Entry.normalizeList (nest.inner.map Component.entry ++ []) =
      (chain nest.inner done).normalize.entries := normalizeList_chain rfl nest.inner
  rw [List.append_nil] at hinner
  exact close_eq hinner nest.around

theorem Tracks.finish_eq {s : OpenLists} {nest : Nest Component} {run : Run}
    (h : s.Tracks nest run) : s.finish = (nest.plug (scan run [])).normalize.entries := by
  rw [finish]
  cases run with
  | none =>
    have hpart : s.part = [] := h.unfinished
    rw [if_pos hpart, h.lists, close_map_entry]
    rfl
  | digits n =>
    rw [if_neg (part_ne_nil h.unfinished Run.noConfusion), entry_of_digits h.unfinished, h.lists,
      ← Nest.map_add, close_map_entry, Nest.plug_add]
    rfl
  | letters reversed =>
    rw [if_neg (part_ne_nil h.unfinished Run.noConfusion), entry_of_letters h.unfinished, h.lists,
      ← Nest.map_add, close_map_entry, Nest.plug_add]
    rfl

/-- A text more, and the lists are closed. -/
theorem Tracks.finish_foldl {s : OpenLists} {nest : Nest Component} {run : Run}
    (h : s.Tracks nest run) (cs : List Char) :
    (cs.foldl OpenLists.step s).finish = (nest.plug (scan run cs)).normalize.entries := by
  induction cs generalizing s nest run with
  | nil => exact h.finish_eq
  | cons c cs ih =>
    obtain ⟨nest', hstep, hplug⟩ := h.step c
    rw [List.foldl_cons, ih hstep, hplug, scan_cons]

/-- Open lists lead to the entries of the components. -/
theorem read_eq_entries (cs : List Char) : read cs = (ofChars cs).entries :=
  tracks_start.finish_foldl cs

end OpenLists
end Components
end ArtifactIndex
