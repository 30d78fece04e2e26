import ArtifactIndex.FileSystem.Path
/-!
The settings of an index: its name, where it is kept, the local repository that caches artifacts,
the seed coordinates and how many revisions are resolved at a time. Every setting can come from a
named variable; a variable that holds only white space counts as unset.
-/

set_option autoImplicit false

namespace ArtifactIndex

structure Settings where
  name : String
  localRepo : String
  indexLocation : String
  coordinates : List String
  maxParallel : Nat
  deriving DecidableEq, Repr

namespace Settings

/-- The user's directories, which the defaults lie in. -/
structure Places where
  home : String
  cache : String

def defaultName : String := "mvnidx"

def defaultMaxParallel : Nat := 4

def defaultLocalRepo (places : Places) : String :=
  Path.join (Path.join places.home ".m2") "repository"

def defaultIndexLocation (places : Places) (name : String) : String :=
  Path.join (Path.join places.cache "mvnidx") (name ++ ".json")

/-! ### Variables -/

def nameVariable : String := "MVNIDX_NAME"

def localRepoVariable : String := "MVNIDX_LOCAL_REPO"

def indexVariable : String := "MVNIDX_INDEX"

def coordinatesVariable : String := "MVNIDX_COORDINATES"

def maxParallelVariable : String := "MVNIDX_MAX_PARALLEL"

/-! ### Counts -/

inductive CountFault where
  | invalidDigit
  | tooLarge
  deriving DecidableEq, Repr

namespace CountFault

def message : CountFault → String
  | invalidDigit => "invalid digit found in string"
  | tooLarge => "number too large to fit in target type"

end CountFault

inductive Error where
  | badCount (raw : String) (fault : CountFault)
  | zeroCount
  deriving DecidableEq, Repr

namespace Error

def message : Error → String
  | badCount raw fault =>
    s!"Configuration Error: Invalid {maxParallelVariable} '{raw}': {fault.message}"
  | zeroCount => s!"Configuration Error: {maxParallelVariable} must be at least 1"

end Error

/-- Counts are words of sixty-four bits. -/
def countBound : Nat := 1 <<< 64

/-- Reads further digits; the first that is no digit or makes the count too large decides. -/
def readDigits (count : Nat) : List Char → Except CountFault Nat
  | [] => .ok count
  | c :: cs =>
    if c.isDigit then
      let count := 10 * count + (c.toNat - 48)
      if count < countBound then readDigits count cs else .error .tooLarge
    else .error .invalidDigit

/-- A count is written in ASCII digits, with a plus sign in front if wanted. -/
def readCount : List Char → Except CountFault Nat
  | [] => .error .invalidDigit
  | ['+'] => .error .invalidDigit
  | '+' :: cs => readDigits 0 cs
  | cs => readDigits 0 cs

def readMaxParallel (raw : String) : Except Error Nat :=
  match readCount (Text.trimChars raw.toList) with
  | .ok 0 => .error .zeroCount
  | .ok n => .ok n
  | .error fault => .error (.badCount raw fault)

/-! ### Reading and building -/

/-- Coordinates are separated by commas and white space in any number. -/
def readCoordinates (raw : String) : List String :=
  ((Text.splitBy (fun c ↦ c == ',' || Text.isBlank c) raw.toList).filter (· ≠ [])).map String.ofList

def ofLookup (places : Places) (lookup : String → Option String) : Except Error Settings := do
  let get := fun key ↦ (lookup key).filter fun s ↦ !Text.isBlankText s
  let name := (get nameVariable).getD defaultName
  let maxParallel ←
    match get maxParallelVariable with
    | some raw => readMaxParallel raw
    | none => pure defaultMaxParallel
  return {
    name := name
    localRepo := (get localRepoVariable).getD (defaultLocalRepo places)
    indexLocation := (get indexVariable).getD (defaultIndexLocation places name)
    coordinates := ((get coordinatesVariable).map readCoordinates).getD []
    maxParallel := maxParallel }

def new (places : Places) (name indexLocation : String) : Settings :=
  ⟨name, defaultLocalRepo places, indexLocation, [], defaultMaxParallel⟩

/-- Resolution always works on at least one revision at a time. -/
def withMaxParallel (s : Settings) (n : Nat) : Settings :=
  { s with maxParallel := max n 1 }

end Settings
end ArtifactIndex
