import ArtifactIndex.Json.Basic
/-!
Records in documents. A record is an object with known member names or an array of its fields in
order. Other members are skipped whatever they hold, a known one must not be repeated, and a field
that is absent is left to the reader of the record.
-/

set_option autoImplicit false

namespace ArtifactIndex.Json

open Text (Bytes)

/-- Members under their names as texts, none when some name is no text. -/
def namedMembers? (members : List (Bytes × Json)) : Option (List (String × Json)) :=
  members.mapM fun (name, value) ↦ (Text.decode? name).map (·, value)

/-- The value of a member that occurs at most once: `none` when it is repeated. -/
def uniqueMember? (name : String) (members : List (String × Json)) : Option (Option Json) :=
  match members.filter (·.1 == name) with
  | [] => some none
  | [(_, value)] => some (some value)
  | _ => none

/-- The fields with these names, each present or absent. -/
def fields? (names : List String) : Json → Option (List (Option Json))
  | object members => do
    let members ← namedMembers? members
    names.mapM fun name ↦ uniqueMember? name members
  | array items =>
    if items.length ≤ names.length then
      some (items.map some ++ List.replicate (names.length - items.length) none)
    else
      none
  | _ => none

/-- The name of a choice that holds nothing more: its text, or an object with that name and null. -/
def choice? : Json → Option String
  | object [(name, null)] => Text.decode? name
  | string s => Text.decode? s
  | _ => none

def list? {α : Type} (item? : Json → Option α) : Json → Option (List α)
  | array items => items.mapM item?
  | _ => none

def bool? : Json → Option Bool
  | bool b => some b
  | _ => none

/-- An absent field stands for `default`; a present one has to be readable. -/
def orDefault {α : Type} (default : α) (value? : Json → Option α) : Option Json → Option α
  | none => some default
  | some j => value? j

end ArtifactIndex.Json
