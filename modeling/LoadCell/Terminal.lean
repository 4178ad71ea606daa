import LoadCell.Parts

/-!
The serial terminal as programs write to it. Lines end with carriage return and line feed.
-/

namespace LoadCell

/-- A state with a terminal to write to. -/
class Terminal (σ : Type) where
  write : String → StateM σ Unit

namespace Terminal

variable {σ : Type} [Terminal σ]

def line (text : String) : StateM σ Unit := write (text ++ "\r\n")

end Terminal

end LoadCell
