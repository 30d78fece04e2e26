import ArtifactIndex.FileSystem.Basic
/-!
Calls to a collaborator. A call sees the files and the collaborator's own state, may change both,
and ends with a value or with a crash; what it changed before a crash stays changed.
-/

set_option autoImplicit false

namespace ArtifactIndex

structure World (ρ : Type) where
  files : FileSystem
  state : ρ

inductive Ending (α : Type) where
  | done (value : α)
  | crashed
  deriving DecidableEq, Repr

namespace Ending

variable {α β : Type}

def map (f : α → β) : Ending α → Ending β
  | done value => done (f value)
  | crashed => crashed

/-- A computation crashes where there is no result. -/
def ofOption : Option α → Ending α
  | some value => done value
  | none => crashed

end Ending

def Call (ρ α : Type) : Type :=
  World ρ → Ending α × World ρ

namespace Call

variable {ρ α β : Type}

def done (value : α) : Call ρ α :=
  fun w ↦ (.done value, w)

def crash : Call ρ α :=
  fun w ↦ (.crashed, w)

/-- Ends in the given way and changes nothing. -/
def ofEnding (ending : Ending α) : Call ρ α :=
  fun w ↦ (ending, w)

def andThen (call : Call ρ α) (next : α → Call ρ β) : Call ρ β :=
  fun w ↦
    match call w with
    | (.done value, w) => next value w
    | (.crashed, w) => (.crashed, w)

instance : Monad (Call ρ) where
  pure := done
  bind := andThen

/-- Reads the files. -/
def withFiles (f : FileSystem → α) : Call ρ α :=
  fun w ↦ (.done (f w.files), w)

/-- Changes the files. -/
def changeFiles (f : FileSystem → α × FileSystem) : Call ρ α :=
  fun w ↦
    let (value, files) := f w.files
    (.done value, { w with files := files })

end Call
end ArtifactIndex
