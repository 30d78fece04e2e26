import ArtifactIndex.Text.Case.Lowercase
import ArtifactIndex.Text.Case.Context
/-!
Lower-casing of a whole text. Every character is mapped alone except the capital sigma, which has a
second small form at the end of a word: where a cased character stands before it and none after it,
characters that are ignorable for casing left out.
-/

set_option autoImplicit false

namespace ArtifactIndex.Text

/-- The nearest character that is not ignorable for casing is cased. -/
def reachesCased (cs : List Char) : Bool :=
  match cs.dropWhile isCaseIgnorable with
  | [] => false
  | c :: _ => isCased c

/-- Lower-cases `cs`, which stands after the characters `before`, nearest first. -/
def lowerAfter (before : List Char) : List Char → List Char
  | [] => []
  | c :: cs =>
    let lowered :=
      if c = 'Σ' then [if reachesCased before && !reachesCased cs then 'ς' else 'σ']
      else lowerChar c
    lowered ++ lowerAfter (c :: before) cs

def lowerChars (cs : List Char) : List Char :=
  lowerAfter [] cs

/-! ### ASCII letters only -/

def upperAscii (cs : List Char) : List Char :=
  cs.map Char.toUpper

def lowerAscii (s : String) : String :=
  String.ofList (s.toList.map Char.toLower)

end ArtifactIndex.Text
