import ArtifactIndex.Text.Blank
import ArtifactIndex.Text.Case
/-!
Scopes say what a dependency is needed for. A declaration without a scope means `compile`.
-/

set_option autoImplicit false

namespace ArtifactIndex

inductive Scope where
  | compile
  | provided
  | runtime
  | test
  | system
  | imported
  deriving DecidableEq, Repr

namespace Scope

/-- The scopes whose dependencies belong to a closure, a later one overruling an earlier one. -/
def followed : List Scope := [compile, runtime]

def all : List Scope := [compile, provided, runtime, test, system, imported]

def text : Scope → String
  | compile => "compile"
  | provided => "provided"
  | runtime => "runtime"
  | test => "test"
  | system => "system"
  | imported => "import"

/-- The scope with exactly this name. -/
def named? (s : String) : Option Scope :=
  all.find? fun scope ↦ scope.text == s

structure Unknown where
  name : String
  deriving DecidableEq, Repr

namespace Unknown

def message (u : Unknown) : String :=
  s!"Generic Error: Unknown dependency scope '{u.name}'"

end Unknown

/-- Reads a scope in any ASCII case; nothing stands for `compile`. -/
def parse (s : String) : Except Unknown Scope :=
  let name := Text.lowerAscii (Text.trim s)
  if name = "" then .ok compile
  else
    match named? name with
    | some scope => .ok scope
    | none => .error ⟨name⟩

end Scope
end ArtifactIndex
