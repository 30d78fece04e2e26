import ArtifactIndex.Proofs.Json.Reading
import ArtifactIndex.Proofs.Resource.Json

/-!
# Documents on one line

Scanning the compact form of a document gives its tokens too (`Json.tokens?_compact`), so a document
is read back from it and two documents with one compact form are the same (`Json.compact_inj`).
Resources are told apart by their compact forms (`Resource.compact_toJson_inj`), whatever their
attributes hold.
-/

set_option autoImplicit false
set_option relaxedAutoImplicit false

namespace ArtifactIndex

namespace Json

open Text (Bytes)

theorem reads_colon : Reads [0x3A] [.colon] :=
  fun _ _ ↦ rfl

/-- An opening mark or a comma, the name of a member and its value. -/
theorem ReadsBefore.member {b : UInt8} {t : Token} {value : Bytes} {ts : List Token}
    (hmark : Reads [b] [t]) (name : Bytes) (hvalue : ReadsBefore value ts) :
    ReadsBefore (b :: stringBytes name ++ 0x3A :: value) ([t, .string name, .colon] ++ ts) :=
  (hmark.append (reads_string name)).append_before (reads_colon.append_before hvalue)

theorem head?_compactItems (items : List Json) :
    ∃ b ∈ (compactItems items).head?, endsNumeral b := by
  cases items with
  | nil => exact ⟨0x5D, rfl, by decide⟩
  | cons item items => exact ⟨0x2C, rfl, by decide⟩

theorem head?_compactMembers (members : List (Bytes × Json)) :
    ∃ b ∈ (compactMembers members).head?, endsNumeral b := by
  cases members with
  | nil => exact ⟨0x7D, rfl, by decide⟩
  | cons m members => exact ⟨0x2C, rfl, by decide⟩

mutual

theorem readsBefore_compact : ∀ {j : Json}, j.WellFormed → ReadsBefore (compact j) (tokens j)
  | null, _ => reads_null.before
  | bool b, _ => (reads_bool b).before
  | number n, .number h => fun reversed _ hrest ↦ Lexing.run_numeral h reversed hrest
  | string s, _ => (reads_string s).before
  | array [], _ => Reads.before fun _ _ ↦ rfl
  | array (item :: items), .array h => by
    have hopen : Reads [0x5B] [.arrayOpen] := fun _ _ ↦ rfl
    have hitem := readsBefore_compact (h item List.mem_cons_self)
    have hitems := reads_compactItems fun i hi ↦ h i (List.mem_cons_of_mem _ hi)
    rw [compact, tokens]
    exact ((hopen.append_before hitem).append hitems (head?_compactItems items)).before
  | object [], _ => Reads.before fun _ _ ↦ rfl
  | object ((name, value) :: members), .object h => by
    have hopen : Reads [0x7B] [.objectOpen] := fun _ _ ↦ rfl
    have hvalue := readsBefore_compact (h _ List.mem_cons_self)
    have hmembers := reads_compactMembers fun m hm ↦ h m (List.mem_cons_of_mem _ hm)
    rw [compact, tokens]
    exact ((hvalue.member hopen name).append hmembers (head?_compactMembers members)).before

theorem reads_compactItems : ∀ {items : List Json}, (∀ item ∈ items, item.WellFormed) →
    Reads (compactItems items) (itemTokens items)
  | [], _ => fun _ _ ↦ rfl
  | item :: items, h => by
    have hitem := readsBefore_compact (h item List.mem_cons_self)
    have hitems := reads_compactItems fun i hi ↦ h i (List.mem_cons_of_mem _ hi)
    rw [compactItems, itemTokens]
    exact (reads_comma.append_before hitem).append hitems (head?_compactItems items)

theorem reads_compactMembers : ∀ {members : List (Bytes × Json)},
    (∀ m ∈ members, m.2.WellFormed) → Reads (compactMembers members) (memberTokens members)
  | [], _ => fun _ _ ↦ rfl
  | (name, value) :: members, h => by
    have hvalue := readsBefore_compact (h _ List.mem_cons_self)
    have hmembers := reads_compactMembers fun m hm ↦ h m (List.mem_cons_of_mem _ hm)
    rw [compactMembers, memberTokens]
    exact (hvalue.member reads_comma name).append hmembers (head?_compactMembers members)

end

theorem tokens?_compact {j : Json} (h : j.WellFormed) : tokens? j.compact = some j.tokens :=
  tokens?_of_readsBefore (readsBefore_compact h)

theorem ofBytes?_compact {j : Json} (h : j.WellFormed) : ofBytes? j.compact = some j := by
  rw [ofBytes?, tokens?_compact h, Option.bind_some, ofTokens?_tokens]

/-- Documents with one compact form are the same. -/
theorem compact_inj {j k : Json} (hj : j.WellFormed) (hk : k.WellFormed)
    (h : j.compact = k.compact) : j = k := by
  have hsame : some j = some k := by
    rw [← ofBytes?_compact hj, ← ofBytes?_compact hk, h]
  exact Option.some.inj hsame

end Json

theorem Resource.compact_toJson_inj {r s : Resource} (h : r.toJson.compact = s.toJson.compact) :
    r = s := by
  have hjson : r.toJson = s.toJson := Json.compact_inj r.wellFormed_toJson s.wellFormed_toJson h
  have hsame : some r = some s := by
    rw [← ofJson?_toJson r, ← ofJson?_toJson s, hjson]
  exact Option.some.inj hsame

end ArtifactIndex
