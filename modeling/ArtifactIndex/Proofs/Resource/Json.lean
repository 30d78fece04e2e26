import ArtifactIndex.Proofs.Json.Record
import ArtifactIndex.Resource.Json

/-!
# Resources read back

The written form of a resource is a well-formed document (`Resource.wellFormed_toJson`) that gives
the resource back (`Resource.ofJson?_toJson`): maps with all their entries, which they hold in the
order in which they are written, longs up to both ends of their range, and empty lists and maps.
-/

set_option autoImplicit false
set_option relaxedAutoImplicit false

namespace ArtifactIndex

namespace KeyMap

variable {α : Type}

theorem insertEntry_of_forall_lt {key : String} (value : α) {es : List (String × α)}
    (h : ∀ p ∈ es, p.1 < key) : insertEntry key value es = es ++ [(key, value)] := by
  induction es with
  | nil => rfl
  | cons e es ih =>
    have hlt : e.1 < key := h e List.mem_cons_self
    have hne : key ≠ e.1 := fun heq ↦ String.lt_irrefl key (heq ▸ hlt)
    rw [insertEntry, if_neg (String.lt_asymm hlt), if_neg hne,
      ih fun p hp ↦ h p (List.mem_cons_of_mem _ hp)]
    rfl

/-- Entries that come in order behind those of a map are added at its end. -/
theorem entries_foldl_insert {es : List (String × α)} (hes : es.Pairwise fun p q ↦ p.1 < q.1)
    (m : KeyMap α) (h : ∀ p ∈ m.entries, ∀ q ∈ es, p.1 < q.1) :
    (es.foldl (fun m (key, value) ↦ m.insert key value) m).entries = m.entries ++ es := by
  induction es generalizing m with
  | nil => simp
  | cons e es ih =>
    have hinsert : (m.insert e.1 e.2).entries = m.entries ++ [e] :=
      insertEntry_of_forall_lt e.2 fun p hp ↦ h p hp e List.mem_cons_self
    rw [List.foldl_cons, ih hes.of_cons (m.insert e.1 e.2), hinsert, List.append_assoc,
      List.singleton_append]
    rw [hinsert, List.forall_mem_append]
    refine ⟨fun p hp q hq ↦ h p hp q (List.mem_cons_of_mem _ hq), ?_⟩
    intro p hp q hq
    obtain rfl := List.mem_singleton.1 hp
    exact List.rel_of_pairwise_cons hes hq

theorem ofList_entries (m : KeyMap α) : ofList m.entries = m := by
  apply KeyMap.ext
  rw [ofList, entries_foldl_insert m.sorted empty (by simp [empty])]
  rfl

theorem ofJson?_toJson {value : α → Json} {value? : Json → Option α}
    (h : ∀ v, value? (value v) = some v) (m : KeyMap α) :
    ofJson? value? (m.toJson value) = some m := by
  let written := m.entries.map fun e ↦ (e.1, value e.2)
  have hnamed : Json.namedMembers? (written.map fun e ↦ (Text.encode e.1, e.2)) = some written :=
    Json.namedMembers?_encode written
  have hread : ∀ e ∈ m.entries, (value? (value e.2)).map (e.1, ·) = some (id e) :=
    fun e _ ↦ by rw [h]; rfl
  have hentries : written.mapM (fun e ↦ (value? e.2).map (e.1, ·)) = some m.entries := by
    rw [List.mapM_map]
    exact (Json.mapM_eq_some hread).trans (congrArg some (List.map_id m.entries))
  calc ofJson? value? (m.toJson value)
      = (Json.namedMembers? (written.map fun e ↦ (Text.encode e.1, e.2))).bind fun named ↦
          (named.mapM fun e ↦ (value? e.2).map (e.1, ·)).bind fun entries ↦
            some (ofList entries) := rfl
    _ = some m := by rw [hnamed, Option.bind_some, hentries, Option.bind_some, ofList_entries]

theorem wellFormed_toJson {value : α → Json} (h : ∀ v, (value v).WellFormed) (m : KeyMap α) :
    (m.toJson value).WellFormed := by
  refine Json.wellFormed_ofMembers fun e he ↦ ?_
  obtain ⟨n, -, rfl⟩ := List.mem_map.1 he
  exact h n.2

end KeyMap

/-! ### Attribute values -/

namespace AttributeValue

theorem long?_ofInt (n : Int64) : long? (.ofInt n.toInt) = some n := by
  have hbounds : Int64.minValue.toInt ≤ n.toInt ∧ n.toInt ≤ Int64.maxValue.toInt :=
    ⟨n.minValue_le_toInt, n.toInt_le⟩
  rw [Json.ofInt, long?, Json.Numeral.int?_ofInt, Option.bind_some, if_pos hbounds,
    Int64.ofInt_toInt]

theorem ofTagged?_tag (v : AttributeValue) : ofTagged? v.tag v.valueJson = some v := by
  cases v with
  | string s => simp [tag, valueJson, ofTagged?, Json.text?_ofString]
  | long n => simp [tag, valueJson, ofTagged?, long?_ofInt]
  | version s => simp [tag, valueJson, ofTagged?, Json.text?_ofString]
  | list items => simp [tag, valueJson, ofTagged?, Json.list?_map Json.text?_ofString]

theorem ofJson?_toJson (v : AttributeValue) : ofJson? v.toJson = some v := by
  have hfields : v.toJson.fields? ["type", "value"] =
      some [some (.ofString v.tag), some v.valueJson] := Json.fields?_ofMembers (by simp)
  have htag : tagIn? v.toJson (.ofString v.tag) = some v.tag := Text.decode?_encode v.tag
  rw [ofJson?, hfields]
  change (tagIn? v.toJson (.ofString v.tag)).bind _ = _
  rw [htag, Option.bind_some, ofTagged?_tag]

theorem wellFormed_toJson (v : AttributeValue) : v.toJson.WellFormed := by
  have hvalue : v.valueJson.WellFormed := by
    cases v with
    | string s => exact Json.wellFormed_ofString s
    | long n => exact Json.wellFormed_ofInt n.toInt
    | version s => exact Json.wellFormed_ofString s
    | list items => exact Json.wellFormed_map Json.wellFormed_ofString items
  refine Json.wellFormed_ofMembers ?_
  simpa using ⟨Json.wellFormed_ofString v.tag, hvalue⟩

end AttributeValue

/-! ### Capabilities and requirements -/

theorem entryOfJson?_entryToJson (space : String) (attributes : KeyMap AttributeValue)
    (directives : KeyMap String) :
    entryOfJson? (entryToJson space attributes directives) =
      some (space, attributes, directives) := by
  have hfields : (entryToJson space attributes directives).fields?
      ["namespace", "attributes", "directives"] = some [some (.ofString space),
        some (attributes.toJson AttributeValue.toJson), some (directives.toJson Json.ofString)] :=
    Json.fields?_ofMembers (by simp)
  rw [entryOfJson?, hfields]
  simp [Json.orDefault, Json.text?_ofString, KeyMap.ofJson?_toJson AttributeValue.ofJson?_toJson,
    KeyMap.ofJson?_toJson Json.text?_ofString]

theorem wellFormed_entryToJson (space : String) (attributes : KeyMap AttributeValue)
    (directives : KeyMap String) : (entryToJson space attributes directives).WellFormed := by
  refine Json.wellFormed_ofMembers ?_
  simpa using ⟨Json.wellFormed_ofString space,
    KeyMap.wellFormed_toJson AttributeValue.wellFormed_toJson attributes,
    KeyMap.wellFormed_toJson Json.wellFormed_ofString directives⟩

theorem Capability.ofJson?_toJson (c : Capability) : Capability.ofJson? c.toJson = some c := by
  rw [Capability.ofJson?, Capability.toJson, entryOfJson?_entryToJson]
  rfl

theorem Requirement.ofJson?_toJson (r : Requirement) : Requirement.ofJson? r.toJson = some r := by
  rw [Requirement.ofJson?, Requirement.toJson, entryOfJson?_entryToJson]
  rfl

/-! ### Resources -/

namespace Resource

theorem ofJson?_toJson (r : Resource) : ofJson? r.toJson = some r := by
  have hfields : r.toJson.fields? ["capabilities", "requirements"] =
      some [some (.array (r.capabilities.map Capability.toJson)),
        some (.array (r.requirements.map Requirement.toJson))] :=
    Json.fields?_ofMembers (by simp)
  rw [ofJson?, hfields]
  simp [Json.orDefault, Json.list?_map Capability.ofJson?_toJson,
    Json.list?_map Requirement.ofJson?_toJson]

theorem wellFormed_toJson (r : Resource) : r.toJson.WellFormed := by
  have hcapabilities : ∀ c : Capability, c.toJson.WellFormed :=
    fun c ↦ wellFormed_entryToJson c.space c.attributes c.directives
  have hrequirements : ∀ q : Requirement, q.toJson.WellFormed :=
    fun q ↦ wellFormed_entryToJson q.space q.attributes q.directives
  refine Json.wellFormed_ofMembers ?_
  simpa using ⟨Json.wellFormed_map hcapabilities r.capabilities,
    Json.wellFormed_map hrequirements r.requirements⟩

end Resource
end ArtifactIndex
