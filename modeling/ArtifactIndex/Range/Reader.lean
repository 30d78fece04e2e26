import ArtifactIndex.Range.Basic
/-!
Reading ranges. A range is a row of intervals with at most one comma between two of them, each
interval starting after the end of the one before it. The reader walks the text once; `Phase` says
whether it stands inside an interval or behind one.
-/

set_option autoImplicit false

namespace ArtifactIndex.Range

/-- Why a text is not a range. -/
inductive Fault where
  | empty
  | notARange
  | unclosed
  | loneVersion
  | tooManyBounds
  | badVersion (e : Version.Error)
  | crossedBounds
  | sameBounds
  | overlap
  | missingInterval
  | trailing
  deriving DecidableEq, Repr

namespace Fault

def message : Fault → String
  | empty => "empty range"
  | notARange => "not a range"
  | unclosed => "unbounded range"
  | loneVersion => "single version must be surrounded by []"
  | tooManyBounds => "interval with more than two bounds"
  | badVersion e => e.message
  | crossedBounds => "range defies version ordering"
  | sameBounds => "range cannot have identical boundaries"
  | overlap => "ranges overlap"
  | missingInterval => "expected another interval after ','"
  | trailing => "only fully-qualified sets allowed in multiple set scenario"

end Fault

/-- A fault together with the whole text that was read. -/
structure Error where
  text : String
  fault : Fault
  deriving DecidableEq, Repr

namespace Error

def message (e : Error) : String :=
  s!"Invalid version range '{e.text}': {e.fault.message}"

end Error

/-! ### One interval -/

def readVersion (cs : List Char) : Except Fault Version :=
  (Version.parse (String.ofList cs)).mapError .badVersion

/-- An end that holds only white space is unbounded. -/
def readEnd (cs : List Char) : Except Fault (Option Version) :=
  match Text.trimChars cs with
  | [] => .ok none
  | cs => (readVersion cs).map some

def checkEnds (i : Interval) : Except Fault Interval :=
  match i.lower, i.upper with
  | some l, some u =>
    match u.cmp l with
    | .lt => .error .crossedBounds
    | .eq => if i.lowerIncluded && i.upperIncluded then .ok i else .error .sameBounds
    | .gt => .ok i
  | _, _ => .ok i

/-- Reads what stands between the brackets; the flags say which of them are square. -/
def readInterval (lowerIncluded upperIncluded : Bool) (body : List Char) :
    Except Fault Interval :=
  let body := Text.trimChars body
  match Text.splitOnce ',' body with
  | none =>
    if lowerIncluded && upperIncluded then
      (readVersion body).map fun v ↦ ⟨some v, true, some v, true⟩
    else
      .error .loneVersion
  | some (low, high) =>
    if high.contains ',' then .error .tooManyBounds
    else do
      let lower ← readEnd low
      let upper ← readEnd high
      checkEnds ⟨lower, lowerIncluded, upper, upperIncluded⟩

/-! ### A row of intervals -/

/-- Where the reader stands: inside an interval, with its opening bracket and the characters since
in reverse, or behind one, with or without a comma after it. -/
inductive Phase where
  | inside (previous : Option Interval) (lowerIncluded : Bool) (reversed : List Char)
  | behind (previous : Interval) (comma : Bool)

def isOpening (c : Char) : Bool :=
  c == '[' || c == '('

def isClosing (c : Char) : Bool :=
  c == ']' || c == ')'

def follows (previous : Option Interval) (i : Interval) : Bool :=
  match previous with
  | none => true
  | some p => p.precedes i

def readRow : Phase → List Char → Except Fault (List Interval)
  | .inside .., [] => .error .unclosed
  | .inside previous lowerIncluded reversed, c :: cs =>
    if isClosing c then
      match readInterval lowerIncluded (c == ']') reversed.reverse with
      | .error fault => .error fault
      | .ok i =>
        if follows previous i then (readRow (.behind i false) cs).map (i :: ·)
        else .error .overlap
    else
      readRow (.inside previous lowerIncluded (c :: reversed)) cs
  | .behind _ comma, [] => if comma then .error .missingInterval else .ok []
  | .behind previous comma, c :: cs =>
    if Text.isBlank c then readRow (.behind previous comma) cs
    else if isOpening c then readRow (.inside (some previous) (c == '[') []) cs
    else if comma then .error .missingInterval
    else if c == ',' then readRow (.behind previous true) cs
    else .error .trailing

/-- A text in range syntax rather than a plain version. -/
def isRangeText (s : String) : Bool :=
  match Text.trimStart s.toList with
  | [] => false
  | c :: _ => isOpening c

def readChars (cs : List Char) : Except Fault (List Interval) :=
  match Text.trimChars cs with
  | [] => .error .empty
  | c :: cs =>
    if isOpening c then readRow (.inside none (c == '[') []) cs else .error .notARange

def parse (s : String) : Except Error Range :=
  match readChars s.toList with
  | .ok intervals => .ok ⟨intervals⟩
  | .error fault => .error ⟨s, fault⟩

end ArtifactIndex.Range
