import ArtifactIndex.Json.Record
/-!
Maps from texts, in the order of the texts. Every key stands once, so two maps with the same entries
are equal; inserting replaces the entry that has the key.
-/

set_option autoImplicit false

namespace ArtifactIndex

structure KeyMap (α : Type) where
  entries : List (String × α)
  sorted : entries.Pairwise fun p q ↦ p.1 < q.1
  deriving DecidableEq

namespace KeyMap

variable {α : Type}

@[ext]
theorem ext {m n : KeyMap α} (h : m.entries = n.entries) : m = n := by
  cases m; cases n; simp_all

def empty : KeyMap α :=
  ⟨[], .nil⟩

instance : Inhabited (KeyMap α) := ⟨empty⟩

/-! ### Insertion -/

def insertEntry (key : String) (value : α) : List (String × α) → List (String × α)
  | [] => [(key, value)]
  | (k, v) :: rest =>
    if key < k then (key, value) :: (k, v) :: rest
    else if key = k then (key, value) :: rest
    else (k, v) :: insertEntry key value rest

theorem mem_insertEntry {key : String} {value : α} {p : String × α} {es : List (String × α)}
    (h : p ∈ insertEntry key value es) : p = (key, value) ∨ p ∈ es := by
  induction es with
  | nil => simpa [insertEntry] using h
  | cons e es ih =>
    obtain ⟨k, v⟩ := e
    rw [insertEntry] at h
    split at h
    · simpa using h
    split at h
    · rcases List.mem_cons.1 h with h | h
      · exact .inl h
      · exact .inr (List.mem_cons_of_mem _ h)
    · rcases List.mem_cons.1 h with h | h
      · exact .inr (by simp [h])
      · rcases ih h with h | h
        · exact .inl h
        · exact .inr (List.mem_cons_of_mem _ h)

theorem lt_of_not_lt_of_ne {a b : String} (h : ¬a < b) (hne : a ≠ b) : b < a :=
  String.not_le.1 fun hab ↦ hne (String.le_antisymm hab (String.not_lt.1 h))

theorem sorted_insertEntry (key : String) (value : α) {es : List (String × α)}
    (h : es.Pairwise fun p q ↦ p.1 < q.1) :
    (insertEntry key value es).Pairwise fun p q ↦ p.1 < q.1 := by
  induction es with
  | nil => simp [insertEntry]
  | cons e es ih =>
    obtain ⟨k, v⟩ := e
    have hk : ∀ p ∈ es, k < p.1 := fun _ hp ↦ List.rel_of_pairwise_cons h hp
    rw [insertEntry]
    split
    case isTrue hlt =>
      refine h.cons fun p hp ↦ ?_
      rcases List.mem_cons.1 hp with rfl | hp
      · exact hlt
      · exact String.lt_trans hlt (hk p hp)
    case isFalse hlt =>
      split
      case isTrue heq => exact h.of_cons.cons fun p hp ↦ heq ▸ hk p hp
      case isFalse hne =>
        refine (ih h.of_cons).cons fun p hp ↦ ?_
        rcases mem_insertEntry hp with rfl | hp
        · exact lt_of_not_lt_of_ne hlt hne
        · exact hk p hp

def insert (m : KeyMap α) (key : String) (value : α) : KeyMap α :=
  ⟨insertEntry key value m.entries, sorted_insertEntry key value m.sorted⟩

/-- The last of the values given for a key stays. -/
def ofList (es : List (String × α)) : KeyMap α :=
  es.foldl (fun m (key, value) ↦ m.insert key value) empty

def get? (m : KeyMap α) (key : String) : Option α :=
  m.entries.lookup key

/-! ### As objects of a document -/

def toJson (value : α → Json) (m : KeyMap α) : Json :=
  .ofMembers (m.entries.map fun (key, v) ↦ (key, value v))

def ofJson? (value? : Json → Option α) : Json → Option (KeyMap α)
  | .object members => do
    let named ← Json.namedMembers? members
    let entries ← named.mapM fun (key, j) ↦ (value? j).map (key, ·)
    return ofList entries
  | _ => none

end KeyMap
end ArtifactIndex
