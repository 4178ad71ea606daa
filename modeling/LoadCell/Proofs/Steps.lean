import LoadCell.Log
import Mathlib

/-!
Following a program from one state: what its steps do one after the other.
-/
namespace LoadCell

variable {σ α β : Type}

@[simp] theorem bind_run (x : StateM σ α) (f : α → StateM σ β) (s : σ) :
    (x >>= f) s = f (x s).1 (x s).2 := rfl

@[simp] theorem pure_run (a : α) (s : σ) : (pure a : StateM σ α) s = (a, s) := rfl

@[simp] theorem map_run (f : α → β) (x : StateM σ α) (s : σ) :
    (f <$> x) s = (f (x s).1, (x s).2) := rfl

theorem getPart_run [Holds σ α] (s : σ) : getPart α s = (Holds.part s, s) := rfl

/-- From states with `P`, a program ends with an answer and a state for which `Q` holds. -/
def Ensures (P : σ → Prop) (x : StateM σ α) (Q : α → σ → Prop) : Prop :=
  ∀ s, P s → Q (x s).1 (x s).2

theorem Ensures.bind {P : σ → Prop} {x : StateM σ α} {Q : α → σ → Prop} {f : α → StateM σ β}
    {R : β → σ → Prop} (hx : Ensures P x Q) (hf : ∀ a, Ensures (Q a) (f a) R) :
    Ensures P (x >>= f) R :=
  fun s h => hf _ _ (hx s h)

/-- A state in which log text goes nowhere. -/
class Silent (σ : Type) [Logs σ] : Prop where
  write : ∀ (text : String) (s : σ), LogSink.write text s = ((), s)

section

variable [Logs σ] [Silent σ]

@[simp] theorem message_run (text : String) (s : σ) : Log.message text s = ((), s) :=
  Silent.write _ s

@[simp] theorem debug_run (topic : Topic) (text : String) (s : σ) :
    Log.debug topic text s = ((), s) := by
  unfold Log.debug Log.onTopic
  rw [bind_run]
  split
  next => exact message_run text s
  next => rfl

end

end LoadCell
