import ArtifactIndex.Proofs.Text.Padding
import ArtifactIndex.Version.Basic

/-!
# Versions read from texts

No character of a version is white space. So trimming takes nothing away from a literal, and a text
is read as the version whose literal it is, with white space around it or without
(`Version.parse_eq_ok_iff`).
-/

set_option autoImplicit false
set_option relaxedAutoImplicit false

namespace ArtifactIndex.Version

open Text (Padded isBlank trimChars)

theorem not_isBlank_of_mem (v : Version) : ∀ c ∈ v.literal.toList, ¬ isBlank c := by
  intro c hc hblank
  have hadmits := (isLegal_iff.1 v.legal).2 c hc
  simp [admits, hblank] at hadmits

theorem toList_literal_ne_nil (v : Version) : v.literal.toList ≠ [] :=
  (isLegal_iff.1 v.legal).1

theorem trimChars_literal (v : Version) : trimChars v.literal.toList = v.literal.toList :=
  Text.trimChars_eq_self (fun c hc ↦ v.not_isBlank_of_mem c (List.mem_of_mem_head? hc))
    fun c hc ↦ v.not_isBlank_of_mem c (List.mem_of_getLast? hc)

theorem trim_eq_literal_iff {s : String} {v : Version} :
    Text.trim s = v.literal ↔ Padded v.literal.toList s.toList := by
  rw [← Text.trimChars_eq_iff v.trimChars_literal, ← Text.toList_trim, String.toList_inj]

theorem parse_eq_ok_iff {s : String} {v : Version} :
    parse s = .ok v ↔ Padded v.literal.toList s.toList := by
  rw [← trim_eq_literal_iff]
  unfold parse
  by_cases hlegal : isLegal (Text.trim s)
  · simp only [hlegal, dite_true, Except.ok.injEq]
    rw [Version.ext_iff]
  · simp only [hlegal, Bool.false_eq_true, dite_false, reduceCtorEq, false_iff]
    intro htrim
    exact hlegal (htrim ▸ v.legal)

theorem literal_of_parse {s : String} {v : Version} (h : parse s = .ok v) :
    v.literal = Text.trim s :=
  (trim_eq_literal_iff.2 (parse_eq_ok_iff.1 h)).symm

/-- A version is read back from its literal. -/
theorem parse_literal (v : Version) : parse v.literal = .ok v :=
  parse_eq_ok_iff.2 (Text.padded_self v.literal.toList)

end ArtifactIndex.Version
