import LoadCell.Calibration.Engine
import LoadCell.Proofs.Steps

/-!
A rig: one calibration and its store on a flash, and nothing else. Log text goes nowhere. The
lemmas say what the steps of a program do to it, so that a program can be followed step by step.
-/
namespace LoadCell

structure Rig (φ : Type) where
  level : LogLevel := .default
  filter : MedianFilter := default
  calibration : Calibration := {}
  store : Store := {}
  flash : φ

namespace Rig

variable {φ : Type}

instance : Holds (Rig φ) LogLevel := ⟨(·.level), fun a r => { r with level := a }⟩
instance : Holds (Rig φ) MedianFilter := ⟨(·.filter), fun a r => { r with filter := a }⟩
instance : Holds (Rig φ) Calibration := ⟨(·.calibration), fun a r => { r with calibration := a }⟩
instance : Holds (Rig φ) Store := ⟨(·.store), fun a r => { r with store := a }⟩
instance : Holds (Rig φ) φ := ⟨(·.flash), fun a r => { r with flash := a }⟩

instance : Logs (Rig φ) where
  write _ := return ()

instance : Silent (Rig φ) := ⟨fun _ _ => rfl⟩

@[simp] theorem getPart_store (r : Rig φ) : getPart Store r = (r.store, r) := rfl

@[simp] theorem modifyPart_store (f : Store → Store) (r : Rig φ) :
    modifyPart f r = ((), { r with store := f r.store }) := rfl

@[simp] theorem getPart_calibration (r : Rig φ) : getPart Calibration r = (r.calibration, r) := rfl

@[simp] theorem modifyPart_calibration (f : Calibration → Calibration) (r : Rig φ) :
    modifyPart f r = ((), { r with calibration := f r.calibration }) := rfl

@[simp] theorem getPart_filter (r : Rig φ) : getPart MedianFilter r = (r.filter, r) := rfl

end Rig

end LoadCell
