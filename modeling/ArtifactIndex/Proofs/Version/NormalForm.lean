import ArtifactIndex.Proofs.Version.OpenLists

/-!
# Normal form of versions

The lists of a version are in normal form at every level of nesting: at most one sub list, which
stands last and is not empty, no null behind the last number or qualifier that is not, and no zeros
in front of a number (`Components.levels_normal`). Normalizing changes no list of that kind
(`Components.IsNormalList.normalizeList_eq`).

`Components.IsNormal` says the same along the components. Normalizing brings them there, and every
list inside components in normal form holds such components again, so all that remains to be seen is
one level (`Components.isNormalList_entries`).
-/

set_option autoImplicit false
set_option relaxedAutoImplicit false

namespace ArtifactIndex
namespace Components

/-! ### Components in normal form -/

/-- No sub list is empty, and no null component stands in front of a sub list or the end. -/
def IsNormal : Components → Prop
  | done => True
  | item c rest => ¬ (c.isNull ∧ rest.startsClosed) ∧ rest.IsNormal
  | sublist inner => inner ≠ done ∧ inner.IsNormal

theorem isNormal_normalize (xs : Components) : xs.normalize.IsNormal := by
  induction xs with
  | done => trivial
  | item c rest ih =>
    rw [normalize]
    split
    · exact ih
    · next hkept => exact ⟨by simpa using hkept, ih⟩
  | sublist inner ih =>
    rw [normalize]
    split
    · trivial
    · next hne => exact ⟨hne, ih⟩

theorem normalize_eq_self {xs : Components} (h : xs.IsNormal) : xs.normalize = xs := by
  induction xs with
  | done => rfl
  | item c rest ih =>
    rw [normalize, ih h.2, if_neg (by simpa using h.1)]
  | sublist inner ih =>
    rw [normalize, ih h.2]
    split
    · next hdone => exact absurd rfl h.1
    · rfl

/-! ### Lists in normal form -/

/-- The digits of a number without zeros in front of it. -/
def IsNumeral (text : List Char) : Prop :=
  text = ['0'] ∨ text ≠ [] ∧ (∀ c ∈ text, c.isDigit) ∧ text.head? ≠ some '0'

/-- The last number or qualifier of a list. -/
def lastPlain? (entries : List Entry) : Option Entry :=
  (entries.filter (!·.isSublist)).getLast?

/-- A list in normal form, without regard to what its sub lists hold. -/
structure IsNormalList (entries : List Entry) : Prop where
  /-- Nothing follows a sub list, so there is one at most. -/
  sublist_last : ∀ {front inner back}, entries = front ++ .sublist inner :: back → back = []
  sublist_ne_nil : ∀ inner, .sublist inner ∈ entries → inner ≠ []
  last_not_null : ∀ e ∈ lastPlain? entries, ¬ e.isNull
  digits_isNumeral : ∀ text, .digits text ∈ entries → IsNumeral text

/-- The lists at all levels of nesting: a list itself and the sub lists of its lists. -/
inductive Level (entries : List Entry) : List Entry → Prop
  | whole : Level entries entries
  | inner {outer inner : List Entry} : Level entries outer → .sublist inner ∈ outer →
      Level entries inner

theorem lastPlain?_concat_of_plain (front : List Entry) {e : Entry} (h : ¬ e.isSublist) :
    lastPlain? (front ++ [e]) = some e := by
  rw [lastPlain?, List.filter_append, List.filter_cons_of_pos (by simpa using h), List.filter_nil,
    List.getLast?_concat]

theorem lastPlain?_concat_sublist (front inner : List Entry) :
    lastPlain? (front ++ [.sublist inner]) = lastPlain? front := by
  rw [lastPlain?, List.filter_append, List.filter_cons_of_neg (by simp [Entry.isSublist]),
    List.filter_nil, List.append_nil, lastPlain?]

theorem normalizeList_concat_of_plain (front : List Entry) {e : Entry} (h : ¬ e.isSublist)
    (hnull : ¬ e.isNull) : Entry.normalizeList (front ++ [e]) = front ++ [e] := by
  rw [Entry.normalizeList, List.reverse_concat, Entry.dropNulls, if_neg hnull, if_neg h,
    List.reverse_cons, List.reverse_reverse]

theorem normalizeList_concat_sublist (front : List Entry) {inner : List Entry} (h : inner ≠ []) :
    Entry.normalizeList (front ++ [.sublist inner]) =
      Entry.normalizeList front ++ [.sublist inner] := by
  have hnull : ¬ (Entry.sublist inner).isNull := by
    simpa [Entry.isNull] using h
  have hsublist : (Entry.sublist inner).isSublist := rfl
  rw [Entry.normalizeList, List.reverse_concat, Entry.dropNulls, if_neg hnull, if_pos hsublist,
    List.reverse_cons, Entry.normalizeList]

/-- Normalizing changes no list in normal form. -/
theorem IsNormalList.normalizeList_eq {entries : List Entry} (h : IsNormalList entries) :
    Entry.normalizeList entries = entries := by
  -- the walk from the end passes over a sub list at most, then meets what is not null
  have hplain : ∀ {front back : List Entry} {e : Entry}, entries = front ++ e :: back →
      back ≠ [] → ¬ e.isSublist := by
    intro front back e hentries hback hsublist
    cases e with
    | sublist inner => exact hback (h.sublist_last hentries)
    | _ => exact Bool.noConfusion hsublist
  rcases List.eq_nil_or_concat' entries with rfl | ⟨front, e, rfl⟩
  · rfl
  by_cases hlast : e.isSublist
  · cases e with
    | sublist inner =>
      rw [normalizeList_concat_sublist front (h.sublist_ne_nil inner (by simp))]
      rcases List.eq_nil_or_concat' front with rfl | ⟨front, e, rfl⟩
      · rfl
      · have he : ¬ e.isSublist := hplain (List.append_assoc front [e] _) (by simp)
        have hnull : ¬ e.isNull := h.last_not_null e
          ((lastPlain?_concat_sublist _ _).trans (lastPlain?_concat_of_plain front he))
        rw [normalizeList_concat_of_plain front he hnull]
    | _ => exact Bool.noConfusion hlast
  · exact normalizeList_concat_of_plain front hlast
      (h.last_not_null e (lastPlain?_concat_of_plain front hlast))

/-! ### One level -/

theorem head?_toDigits_ne_zero {n : ℕ} (h : 0 < n) : (Nat.toDigits 10 n).head? ≠ some '0' := by
  induction n using Nat.base_induction 10 (by decide) with
  | single m hm =>
    rw [Nat.toDigits_of_lt_base hm]
    simpa using h.ne'
  | digit m k hk hm ih =>
    rw [← Nat.toDigits_append_toDigits (by decide) hm hk,
      List.head?_append_of_ne_nil _ Nat.toDigits_ne_nil]
    exact ih hm

theorem isNumeral_toDigits (n : ℕ) : IsNumeral (Nat.toDigits 10 n) := by
  rcases Nat.eq_zero_or_pos n with rfl | hpos
  · exact .inl (Nat.toDigits_zero 10)
  · exact .inr ⟨Nat.toDigits_ne_nil,
      fun c hc ↦ Nat.isDigit_of_mem_toDigits (by decide) (by decide) hc,
      head?_toDigits_ne_zero hpos⟩

theorem exists_of_sublist_mem {xs : Components} (h : xs.IsNormal) {inner : List Entry}
    (hmem : .sublist inner ∈ xs.entries) :
    ∃ ys : Components, ys.IsNormal ∧ ys ≠ done ∧ inner = ys.entries := by
  induction xs with
  | done => exact absurd hmem List.not_mem_nil
  | item c rest ih =>
    rcases List.mem_cons.1 hmem with hentry | hrest
    · cases c <;> exact Entry.noConfusion hentry
    · exact ih h.2 hrest
  | sublist ys ih =>
    have hinner : inner = ys.entries := Entry.sublist.inj (List.mem_singleton.1 hmem)
    exact ⟨ys, h.2, h.1, hinner⟩

theorem back_eq_nil_of_entries_eq (xs : Components) {front back inner : List Entry}
    (h : xs.entries = front ++ .sublist inner :: back) : back = [] := by
  induction xs generalizing front with
  | done => simp [entries] at h
  | item c rest ih =>
    cases front with
    | nil => cases c <;> exact Entry.noConfusion (List.cons.inj h).1
    | cons e front => exact ih (List.cons.inj h).2
  | sublist ys ih =>
    cases front with
    | nil => exact (List.cons.inj h).2.symm
    | cons e front => simp [entries] at h

theorem lastPlain?_entry_cons (c : Component) (entries : List Entry) :
    lastPlain? (c.entry :: entries) = some ((lastPlain? entries).getD c.entry) := by
  rw [lastPlain?, List.filter_cons_of_pos (by simp [isSublist_entry]),
    List.getLast?_cons, lastPlain?]

theorem lastPlain?_eq_none_iff {xs : Components} :
    lastPlain? xs.entries = none ↔ xs.startsClosed := by
  cases xs with
  | done => simp [lastPlain?, entries, startsClosed]
  | item c rest => simp [entries, lastPlain?_entry_cons, startsClosed]
  | sublist inner => simp [lastPlain?, entries, startsClosed, Entry.isSublist]

theorem not_isNull_lastPlain? {xs : Components} (h : xs.IsNormal) :
    ∀ e ∈ lastPlain? xs.entries, ¬ e.isNull := by
  induction xs with
  | done => simp [lastPlain?, entries]
  | sublist ys ih => simp [lastPlain?, entries, Entry.isSublist]
  | item c rest ih =>
    rw [entries, lastPlain?_entry_cons]
    intro e he
    obtain rfl : (lastPlain? rest.entries).getD c.entry = e := Option.some.inj he
    cases hrest : lastPlain? rest.entries with
    | some e => exact ih h.2 e hrest
    | none =>
      rw [Option.getD_none, isNull_entry]
      exact fun hnull ↦ h.1 ⟨hnull, lastPlain?_eq_none_iff.1 hrest⟩

theorem isNumeral_of_mem_entries (xs : Components) {text : List Char}
    (h : .digits text ∈ xs.entries) : IsNumeral text := by
  induction xs with
  | done => exact absurd h List.not_mem_nil
  | item c rest ih =>
    rcases List.mem_cons.1 h with hentry | hrest
    · cases c with
      | number n => exact Entry.digits.inj hentry ▸ isNumeral_toDigits n
      | qualifier p => exact Entry.noConfusion hentry
    · exact ih hrest
  | sublist ys ih => exact Entry.noConfusion (List.mem_singleton.1 h)

theorem isNormalList_entries {xs : Components} (h : xs.IsNormal) : IsNormalList xs.entries where
  sublist_last := xs.back_eq_nil_of_entries_eq
  sublist_ne_nil inner hmem := by
    obtain ⟨ys, -, hne, rfl⟩ := exists_of_sublist_mem h hmem
    exact fun hnil ↦ hne (entries_eq_nil_iff.1 hnil)
  last_not_null := not_isNull_lastPlain? h
  digits_isNumeral _ := xs.isNumeral_of_mem_entries

/-! ### All levels -/

theorem Level.exists_isNormal {xs : Components} (h : xs.IsNormal) {level : List Entry}
    (hlevel : Level xs.entries level) : ∃ ys : Components, ys.IsNormal ∧ level = ys.entries := by
  induction hlevel with
  | whole => exact ⟨xs, h, rfl⟩
  | inner _ hmem ih =>
    obtain ⟨ys, hys, rfl⟩ := ih
    obtain ⟨zs, hzs, -, rfl⟩ := exists_of_sublist_mem hys hmem
    exact ⟨zs, hzs, rfl⟩

/-- Whatever the literal, the lists that are opened while it is read, closed and normalized from the
innermost outwards, are those of its components. Every one of them, at whatever level, is in normal
form and is left as it is when it is normalized once more, and so are the components. -/
theorem levels_normal (literal : String) :
    let components := ofChars (Text.lowerChars literal.toList)
    OpenLists.read (Text.lowerChars literal.toList) = components.entries ∧
      (∀ level, Level components.entries level →
        IsNormalList level ∧ Entry.normalizeList level = level) ∧
      components.normalize = components := by
  intro components
  have hnormal : components.IsNormal := isNormal_normalize _
  refine ⟨OpenLists.read_eq_entries _, fun level hlevel ↦ ?_, normalize_eq_self hnormal⟩
  obtain ⟨ys, hys, rfl⟩ := hlevel.exists_isNormal hnormal
  have hlist : IsNormalList ys.entries := isNormalList_entries hys
  exact ⟨hlist, hlist.normalizeList_eq⟩

/-- A literal with null components in front of every hyphen, zeros in front of a number and a hyphen
at the end; the innermost of the lists that are left is in normal form. -/
theorem levels_normal_nested :
    let components := ofChars (Text.lowerChars "1.0-RC.0-007.0-".toList)
    components.entries = [.digits ['1'], .sublist [.qualifier .rc, .sublist [.digits ['7']]]] ∧
      Level components.entries [.digits ['7']] ∧ IsNormalList [.digits ['7']] ∧
      Entry.normalizeList [.digits ['7']] = [.digits ['7']] := by
  intro components
  have hcomponents : components =
      item (.number 1) (sublist (item (.qualifier .rc) (sublist (item (.number 7) done)))) := by
    decide +kernel
  have hentries : components.entries =
      [.digits ['1'], .sublist [.qualifier .rc, .sublist [.digits ['7']]]] := by
    rw [hcomponents]
    rfl
  have hlevel : Level components.entries [.digits ['7']] :=
    .inner (.inner .whole (by rw [hentries]; exact .tail _ (.head _))) (.tail _ (.head _))
  obtain ⟨-, hlevels, -⟩ := levels_normal "1.0-RC.0-007.0-"
  exact ⟨hentries, hlevel, hlevels _ hlevel⟩

end Components
end ArtifactIndex
