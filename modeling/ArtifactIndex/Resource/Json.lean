import ArtifactIndex.Resource.Basic
/-!
Resources in documents. An attribute value is tagged with its type; where the tag has a name of its
own in front of it, it may be any written choice, and in an array it is a text. A long is an integer
of sixty-four bits written without fraction and exponent.
-/

set_option autoImplicit false

namespace ArtifactIndex

namespace AttributeValue

def long? (j : Json) : Option Int64 :=
  match j with
  | .number n =>
    n.int?.bind fun i ↦
      if Int64.minValue.toInt ≤ i ∧ i ≤ Int64.maxValue.toInt then some (Int64.ofInt i) else none
  | _ => none

def tag : AttributeValue → String
  | string _ => "string"
  | long _ => "long"
  | version _ => "version"
  | list _ => "list"

def valueJson : AttributeValue → Json
  | string s => .ofString s
  | long n => .ofInt n.toInt
  | version s => .ofString s
  | list items => .array (items.map Json.ofString)

def toJson (v : AttributeValue) : Json :=
  .ofMembers [("type", .ofString v.tag), ("value", v.valueJson)]

def ofTagged? (tag : String) (value : Json) : Option AttributeValue :=
  match tag with
  | "string" => value.text?.map string
  | "long" => (long? value).map long
  | "version" => value.text?.map version
  | "list" => (Json.list? Json.text? value).map list
  | _ => none

/-- The tag of a value that is written as `whole`. -/
def tagIn? (whole tag : Json) : Option String :=
  match whole with
  | .object _ => tag.choice?
  | _ => tag.text?

def ofJson? (j : Json) : Option AttributeValue :=
  match j.fields? ["type", "value"] with
  | some [some tag, some value] => (tagIn? j tag).bind fun tag ↦ ofTagged? tag value
  | _ => none

end AttributeValue

/-! ### Capabilities and requirements -/

def entryToJson (space : String) (attributes : KeyMap AttributeValue)
    (directives : KeyMap String) : Json :=
  .ofMembers [("namespace", .ofString space),
    ("attributes", attributes.toJson AttributeValue.toJson),
    ("directives", directives.toJson Json.ofString)]

def entryOfJson? (j : Json) : Option (String × KeyMap AttributeValue × KeyMap String) :=
  match j.fields? ["namespace", "attributes", "directives"] with
  | some [some space, attributes, directives] => do
    let space ← space.text?
    let attributes ← Json.orDefault .empty (KeyMap.ofJson? AttributeValue.ofJson?) attributes
    let directives ← Json.orDefault .empty (KeyMap.ofJson? Json.text?) directives
    return (space, attributes, directives)
  | _ => none

namespace Capability

def toJson (c : Capability) : Json :=
  entryToJson c.space c.attributes c.directives

def ofJson? (j : Json) : Option Capability :=
  (entryOfJson? j).map fun (space, attributes, directives) ↦ ⟨space, attributes, directives⟩

end Capability

namespace Requirement

def toJson (r : Requirement) : Json :=
  entryToJson r.space r.attributes r.directives

def ofJson? (j : Json) : Option Requirement :=
  (entryOfJson? j).map fun (space, attributes, directives) ↦ ⟨space, attributes, directives⟩

end Requirement

/-! ### Resources -/

namespace Resource

def toJson (r : Resource) : Json :=
  .ofMembers [("capabilities", .array (r.capabilities.map Capability.toJson)),
    ("requirements", .array (r.requirements.map Requirement.toJson))]

def ofJson? (j : Json) : Option Resource :=
  match j.fields? ["capabilities", "requirements"] with
  | some [some capabilities, requirements] => do
    let capabilities ← Json.list? Capability.ofJson? capabilities
    let requirements ← Json.orDefault [] (Json.list? Requirement.ofJson?) requirements
    return ⟨capabilities, requirements⟩
  | _ => none

end Resource
end ArtifactIndex
