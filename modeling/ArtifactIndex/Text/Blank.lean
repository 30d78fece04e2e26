/-!
White space as the Unicode property `White_Space` has it. Versions, ranges and coordinates are
trimmed and split by this class, so a no-break space counts and a zero-width space does not.
-/

set_option autoImplicit false

namespace ArtifactIndex.Text

def isBlank (c : Char) : Bool :=
  let n := c.toNat
  (9 ≤ n && n ≤ 13) || n == 0x20 || n == 0x85 || n == 0xA0 || n == 0x1680 ||
    (0x2000 ≤ n && n ≤ 0x200A) || n == 0x2028 || n == 0x2029 || n == 0x202F || n == 0x205F ||
    n == 0x3000

/-! ### Trimming -/

def trimStart (cs : List Char) : List Char :=
  cs.dropWhile isBlank

def trimEnd (cs : List Char) : List Char :=
  (trimStart cs.reverse).reverse

def trimChars (cs : List Char) : List Char :=
  trimEnd (trimStart cs)

def trim (s : String) : String :=
  String.ofList (trimChars s.toList)

theorem toList_trim (s : String) : (trim s).toList = trimChars s.toList := by
  simp [trim]

def isBlankText (s : String) : Bool :=
  s.toList.all isBlank

/-! ### Splitting -/

/-- The pieces between the characters that `sep` accepts; there is always at least one piece. -/
def splitBy (sep : Char → Bool) : List Char → List (List Char)
  | [] => [[]]
  | c :: cs =>
    if sep c then [] :: splitBy sep cs
    else
      match splitBy sep cs with
      | [] => [[c]]
      | piece :: rest => (c :: piece) :: rest

theorem splitBy_ne_nil (sep : Char → Bool) (cs : List Char) : splitBy sep cs ≠ [] := by
  cases cs with
  | nil => simp [splitBy]
  | cons c cs =>
    rw [splitBy]
    split
    · simp
    · split <;> simp

/-- The text before the first `sep` and the text after it, if `sep` occurs. -/
def splitOnce (sep : Char) : List Char → Option (List Char × List Char)
  | [] => none
  | c :: cs =>
    if c = sep then some ([], cs)
    else (splitOnce sep cs).map fun (before, rest) ↦ (c :: before, rest)

end ArtifactIndex.Text
