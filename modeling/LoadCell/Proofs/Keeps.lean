import LoadCell.Proofs.Alike

/-!
What a program keeps. A program keeps a property of the whole state if each of its steps does. Two
runs of it from one state are alike then, so that what holds of runs that are alike can be used for
one.
-/
namespace LoadCell

variable {σ : Type} {P : σ → Prop} {α β : Type}

/-- A program that leads from states with a property to states with it. -/
def Keeps (P : σ → Prop) (x : StateM σ α) : Prop := ∀ s, P s → P (x s).2

/-- A property that does not see the part of type `α`. -/
def Ignores (P : σ → Prop) (α : Type) [Holds σ α] : Prop :=
  ∀ (a : α) s, P s → P (Holds.withPart a s)

/-- Calls of the handler keep the property. -/
structure Handler.Keeping (handler : Handler σ) (P : σ → Prop) : Prop where
  disconnected : Keeps P handler.disconnected
  receive : ∀ data, Keeps P (handler.receive data)
  reject : ∀ opcode (e : ProtocolError), Keeps P (handler.reject opcode e.code)
  pause : Keeps P handler.pause

/-- Calls of the medium keep the property. -/
structure Medium.Keeping (medium : Medium σ) (P : σ → Prop) : Prop where
  sectorCount : Keeps P medium.sectorCount
  read : ∀ offset length, Keeps P (medium.read offset length)
  erase : ∀ offset length, Keeps P (medium.erase offset length)
  write : ∀ offset bytes, Keeps P (medium.write offset bytes)

/-- A medium of one world in a larger one. -/
def Medium.within {ω σ : Type} (medium : Medium ω) (lift : {α : Type} → StateM ω α → StateM σ α) :
    Medium σ where
  sectorSize := medium.sectorSize
  sectorCount := lift medium.sectorCount
  read offset length := lift (medium.read offset length)
  erase offset length := lift (medium.erase offset length)
  write offset bytes := lift (medium.write offset bytes)

theorem Medium.keeping_within {ω : Type} (medium : Medium ω)
    {lift : {α : Type} → StateM ω α → StateM σ α}
    (hlift : ∀ {α : Type} (x : StateM ω α), Keeps P (lift x)) :
    (medium.within lift).Keeping P where
  sectorCount := hlift _
  read _ _ := hlift _
  erase _ _ := hlift _
  write _ _ := hlift _

theorem Medium.alike_within {ω σ τ : Type} {R : σ → τ → Prop} (medium : Medium ω)
    {left : {α : Type} → StateM ω α → StateM σ α} {right : {α : Type} → StateM ω α → StateM τ α}
    (hlift : ∀ {α : Type} (x : StateM ω α), LoadCell.Alike R (left x) (right x)) :
    (medium.within left).Alike (medium.within right) R where
  sectorSize := rfl
  sectorCount := hlift _
  read _ _ := hlift _
  erase _ _ := hlift _
  write _ _ := hlift _

namespace Keeps

theorem pure (a : α) : Keeps P (Pure.pure a) := fun _ h => h

theorem bind {x : StateM σ α} {f : α → StateM σ β} (hx : Keeps P x) (hf : ∀ a, Keeps P (f a)) :
    Keeps P (x >>= f) :=
  fun s h => hf _ _ (hx s h)

theorem getPart [Holds σ β] : Keeps P (LoadCell.getPart β : StateM σ β) := fun _ h => h

theorem forM {f : β → StateM σ Unit} (hf : ∀ b, Keeps P (f b)) (bs : List β) :
    Keeps P (bs.forM f) := by
  induction bs with
  | nil => exact pure _
  | cons b rest ih => exact bind (hf b) fun _ => ih

end Keeps

/-! A run beside itself: what holds of two runs of a program holds of each. -/

theorem Keeps.of_alike {x : StateM σ α} (h : Alike (fun s t => s = t ∧ P s) x x) : Keeps P x :=
  fun s hs => (h s s ⟨rfl, hs⟩).2.2

theorem Keeps.alike {x : StateM σ α} (h : Keeps P x) : Alike (fun s t => s = t ∧ P s) x x := by
  rintro s _ ⟨rfl, hs⟩
  exact ⟨rfl, rfl, h s hs⟩

theorem Ignores.shares [Holds σ α] (h : Ignores P α) : Shares (fun s t => s = t ∧ P s) α where
  same := by
    rintro s _ ⟨rfl, _⟩
    rfl
  replace := by
    rintro a s _ ⟨rfl, hs⟩
    exact ⟨rfl, h a s hs⟩

theorem Medium.Keeping.alike {medium : Medium σ} (h : medium.Keeping P) :
    medium.Alike medium (fun s t => s = t ∧ P s) where
  sectorSize := rfl
  sectorCount := h.sectorCount.alike
  read offset length := (h.read offset length).alike
  erase offset length := (h.erase offset length).alike
  write offset bytes := (h.write offset bytes).alike

theorem Handler.Keeping.alike {handler : Handler σ} (h : handler.Keeping P) :
    handler.Alike handler (fun s t => s = t ∧ P s) where
  disconnected := h.disconnected.alike
  receive data := (h.receive data).alike
  reject opcode e := (h.reject opcode e).alike
  pause := h.pause.alike

variable [Logs σ]

/-- Writing text keeps the property. -/
def LogKeeps (P : σ → Prop) : Prop := ∀ text, Keeps P (LogSink.write text : StateM σ Unit)

theorem LogKeeps.alike (hlog : LogKeeps P) : LogAlike (fun s t => s = t ∧ P s) where
  level := by
    rintro s _ ⟨rfl, _⟩
    rfl
  write text := (hlog text).alike

theorem LogKeeps.message (hlog : LogKeeps P) (text : String) :
    Keeps P (Log.message text : StateM σ Unit) :=
  hlog _

theorem LogKeeps.debug (hlog : LogKeeps P) (topic : Topic) (text : String) :
    Keeps P (Log.debug topic text : StateM σ Unit) :=
  .of_alike (hlog.alike.debug topic text)

theorem Inbox.keeps_handOver (hlog : LogKeeps P) {handler : Handler σ} {w : ControlWrite}
    (hreceive : Keeps P (handler.receive w.data))
    (hreject : Keeps P (handler.reject w.opcode ProtocolError.malformed.code)) :
    Keeps P (Inbox.handOver handler w) := by
  unfold Inbox.handOver
  split
  next => exact hreject
  next =>
    refine .bind hreceive fun outcome => ?_
    cases outcome with
    | ok => exact .pure _
    | error e => exact hlog.debug _ _

theorem Inbox.keeps_dispatch [Holds σ Inbox] (hlog : LogKeeps P) (hinbox : Ignores P Inbox)
    {handler : Handler σ} (h : handler.Keeping P) : Keeps P (Inbox.dispatch handler) :=
  .of_alike (Inbox.alike_turn hlog.alike hinbox.shares h.alike Inbox.drainLimit)

end LoadCell
