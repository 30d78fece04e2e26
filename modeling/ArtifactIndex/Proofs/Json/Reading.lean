import ArtifactIndex.Json.Reader
import ArtifactIndex.Proofs.Json.Lexing

/-!
# Documents read back

The reader takes the tokens of a value from wherever a value may stand to the point behind that
value, with the open arrays and objects as they were (`Reading.foldlM_tokens`). So a document is
read back from its tokens (`ofTokens?_tokens`), and from its written form (`ofBytes?_pretty`).
-/

set_option autoImplicit false
set_option relaxedAutoImplicit false

namespace ArtifactIndex.Json

open Text (Bytes)

namespace Reading

/-- An item that comes first is read as any other value. -/
theorem foldlM_firstItem (frames : List Frame) (j : Json) (rest : List Token) :
    (tokens j ++ rest).foldlM step ⟨frames, .firstItem⟩ =
      (tokens j ++ rest).foldlM step ⟨frames, .value⟩ := by
  cases j with
  | array items => cases items <;> rfl
  | object members => cases members <;> rfl
  | _ => rfl

mutual

theorem foldlM_tokens (frames : List Frame) : ∀ (j : Json) (rest : List Token),
    (tokens j ++ rest).foldlM step ⟨frames, .value⟩ =
      rest.foldlM step ⟨frames, .separator j⟩
  | null, _ => rfl
  | bool _, _ => rfl
  | number _, _ => rfl
  | string _, _ => rfl
  | array [], _ => rfl
  | array (item :: items), rest => by
    rw [tokens, List.append_assoc, List.append_assoc]
    change (tokens item ++ (itemTokens items ++ rest)).foldlM step
      ⟨.array [] :: frames, .firstItem⟩ = _
    rw [foldlM_firstItem, foldlM_tokens, foldlM_itemTokens]
    rfl
  | object [], _ => rfl
  | object ((name, value) :: members), rest => by
    rw [tokens, List.append_assoc, List.append_assoc]
    change (tokens value ++ (memberTokens members ++ rest)).foldlM step
      ⟨.object [] name :: frames, .value⟩ = _
    rw [foldlM_tokens, foldlM_memberTokens]
    rfl

/-- The items behind a value in an open array. -/
theorem foldlM_itemTokens (frames : List Frame) : ∀ (items : List Json) (reversed : List Json)
    (value : Json) (rest : List Token),
    (itemTokens items ++ rest).foldlM step ⟨.array reversed :: frames, .separator value⟩ =
      rest.foldlM step ⟨frames, .separator (.array ((value :: reversed).reverse ++ items))⟩
  | [], reversed, value, rest => by
    rw [List.append_nil]
    rfl
  | item :: items, reversed, value, rest => by
    rw [itemTokens, List.append_assoc, List.append_assoc]
    change (tokens item ++ (itemTokens items ++ rest)).foldlM step
      ⟨.array (value :: reversed) :: frames, .value⟩ = _
    rw [foldlM_tokens, foldlM_itemTokens]
    simp

theorem foldlM_memberTokens (frames : List Frame) : ∀ (members : List (Bytes × Json))
    (reversed : List (Bytes × Json)) (name : Bytes) (value : Json) (rest : List Token),
    (memberTokens members ++ rest).foldlM step ⟨.object reversed name :: frames, .separator value⟩ =
      rest.foldlM step
        ⟨frames, .separator (.object (((name, value) :: reversed).reverse ++ members))⟩
  | [], reversed, name, value, rest => by
    rw [List.append_nil]
    rfl
  | (name', value') :: members, reversed, name, value, rest => by
    rw [memberTokens, List.append_assoc, List.append_assoc]
    change (tokens value' ++ (memberTokens members ++ rest)).foldlM step
      ⟨.object ((name, value) :: reversed) name' :: frames, .value⟩ = _
    rw [foldlM_tokens, foldlM_memberTokens]
    simp

end

end Reading

theorem ofTokens?_tokens (j : Json) : ofTokens? j.tokens = some j := by
  have hread := Reading.foldlM_tokens [] j []
  rw [List.append_nil] at hread
  rw [ofTokens?, Reading.start, hread]
  rfl

/-- A document is read back from its written form. -/
theorem ofBytes?_pretty {j : Json} (h : j.WellFormed) : ofBytes? j.pretty = some j := by
  rw [ofBytes?, tokens?_pretty h, Option.bind_some, ofTokens?_tokens]

end ArtifactIndex.Json
