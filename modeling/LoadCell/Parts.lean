/-!
A program's state is one value that holds the states of its parts. `Holds σ α` finds the part of
type `α` in the whole; code for a part is written against it and so runs inside any whole, where
other code may change the same part between two of its steps.
-/

namespace LoadCell

/-- A whole state `σ` with one part of type `α`. -/
class Holds (σ α : Type) where
  part : σ → α
  withPart : α → σ → σ

variable {σ : Type}

def getPart (α : Type) [Holds σ α] : StateM σ α :=
  fun s => (Holds.part s, s)

/-- Replaces the part by a function of it. -/
def modifyPart {α : Type} [Holds σ α] (f : α → α) : StateM σ Unit :=
  fun s => ((), Holds.withPart (f (Holds.part s)) s)

def setPart {α : Type} [Holds σ α] (a : α) : StateM σ Unit :=
  modifyPart fun _ => a

end LoadCell
