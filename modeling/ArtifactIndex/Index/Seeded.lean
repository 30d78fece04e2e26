import ArtifactIndex.Index.Basic
/-!
An index of the closure of fixed coordinates. It is read from its file when there is one and
resolved otherwise.
-/

set_option autoImplicit false

namespace ArtifactIndex

structure SeededIndex where
  index : Index
  resolver : Resolver
  coordinates : List String
  /-- The counters of the last refresh. -/
  lastStats : Option Stats
  deriving DecidableEq

namespace SeededIndex

variable {ρ : Type}

/-- The revisions of the coordinates; the first that cannot be read is the error. -/
def seeds (coordinates : List String) : Except Error (List Revision) :=
  coordinates.mapM fun s ↦ ((Archive.parse s).map (·.revision)).mapError .coordinates

/-- Resolves the coordinates again; whether there were any. -/
def refresh (i : SeededIndex) (repository : Repository ρ) (builder : Builder ρ) (budget : Nat)
    (w : World ρ) : Except Error Bool × SeededIndex × World ρ :=
  if i.coordinates = [] then (.ok false, i, w)
  else
    match seeds i.coordinates with
    | .error e => (.error e, i, w)
    | .ok revisions =>
      match i.index.refresh i.resolver repository builder budget revisions w with
      | (.error e, index, resolver, w) =>
        (.error e, { i with index := index, resolver := resolver }, w)
      | (.ok stats, index, resolver, w) =>
        let i := { i with index := index, resolver := resolver, lastStats := some stats }
        (.ok true, i, w)

/-- Opens a given index; its name and its location need not be those of the settings. -/
def openWith (index : Index) (settings : Settings) (repository : Repository ρ)
    (builder : Builder ρ) (budget : Nat) (w : World ρ) : Except Error SeededIndex × World ρ :=
  match index.load w.files with
  | .error e => (.error e, w)
  | .ok (loaded, index) =>
    let i : SeededIndex := ⟨index, .new settings.maxParallel, settings.coordinates, none⟩
    if loaded then (.ok i, w)
    else
      match i.refresh repository builder budget w with
      | (.error e, _, w) => (.error e, w)
      | (.ok _, i, w) => (.ok i, w)

/-- Opens the index that the settings name, at its location there. -/
def openAt (settings : Settings) (repository : Repository ρ) (builder : Builder ρ) (budget : Nat)
    (w : World ρ) : Except Error SeededIndex × World ρ :=
  openWith (.new settings.name settings.indexLocation) settings repository builder budget w

def summary (i : SeededIndex) : String :=
  let coordinates := ", ".intercalate (i.coordinates.map Text.quote)
  s!"CoordinatesRepository \x7b store: {i.index.summary}, coordinates: [{coordinates}], .. \x7d"

end SeededIndex
end ArtifactIndex
