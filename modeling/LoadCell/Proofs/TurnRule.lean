import LoadCell.Proofs.Steps
import LoadCell.Protocol.Inbox

/-!
A rule for turns of the inbox. What is to hold at the points of a turn is stated once: before it,
when the next write is to be taken, when a write is in hand, and when its epoch has been compared.
Each step that leads from such a point to the next is proved by itself.
-/
namespace LoadCell

variable {σ α β : Type}

namespace Inbox

variable [Logs σ] [Holds σ Inbox]

/-- The steps of a turn lead from one of its points to the next. -/
structure TurnSteps (handler : Handler σ) (idle : σ → Prop) (ready : UInt32 → σ → Prop)
    (held judged : UInt32 → ControlWrite → σ → Prop) : Prop where
  begin : Ensures idle (passDisconnect handler) ready
  take : ∀ epoch, Ensures (ready epoch) (atomically handler take) fun
    | none => ready epoch
    | some w => held epoch w
  /-- A write of the epoch in mind is not compared with another one. -/
  same : ∀ w s, held w.epoch w s → judged w.epoch w s
  look : ∀ epoch w, w.epoch ≠ epoch → Ensures (held epoch w) (passDisconnect handler) (judged · w)
  handOver : ∀ w, Ensures (judged w.epoch w) (handOver handler w) fun _ => ready w.epoch
  discard : ∀ epoch w, w.epoch ≠ epoch → Ensures (judged epoch w) (discard w) fun _ => ready epoch
  report : ∀ epoch, Ensures (ready epoch) (reportRefused handler epoch) fun _ => idle

namespace TurnSteps

variable {handler : Handler σ} {idle : σ → Prop} {ready : UInt32 → σ → Prop}
  {held judged : UInt32 → ControlWrite → σ → Prop}

/-- The write in hand is handed over or dropped, and the rest of the queue is drained. -/
theorem judge (h : TurnSteps handler idle ready held judged) {rest : UInt32 → StateM σ UInt32}
    (hrest : ∀ epoch, Ensures (ready epoch) (rest epoch) ready) (epoch : UInt32)
    (w : ControlWrite) :
    Ensures (judged epoch w) (do
      if w.epoch = epoch then Inbox.handOver handler w else Inbox.discard w
      rest epoch) ready := by
  by_cases hepoch : w.epoch = epoch
  · subst hepoch
    simp only [↓reduceIte]
    exact (h.handOver w).bind fun _ => hrest w.epoch
  · simp only [hepoch, ↓reduceIte]
    exact (h.discard epoch w hepoch).bind fun _ => hrest epoch

theorem drain (h : TurnSteps handler idle ready held judged) (limit : Nat) (epoch : UInt32) :
    Ensures (ready epoch) (Inbox.drain handler limit epoch) ready := by
  induction limit generalizing epoch with
  | zero => exact fun _ hs => hs
  | succ limit ih =>
    rw [Inbox.drain]
    refine (h.take epoch).bind fun taken => ?_
    cases taken with
    | none => exact fun _ hs => hs
    | some w =>
      dsimp only
      by_cases hepoch : w.epoch = epoch
      · subst hepoch
        simp only [↓reduceIte]
        exact fun s hs => h.judge ih w.epoch w s (h.same w s hs)
      · simp only [hepoch, ↓reduceIte]
        exact (h.look epoch w hepoch).bind fun current => h.judge ih current w

theorem turn (h : TurnSteps handler idle ready held judged) (limit : Nat) :
    Ensures idle (Inbox.turn handler limit) fun _ => idle :=
  h.begin.bind fun epoch => (h.drain limit epoch).bind h.report

end TurnSteps

end Inbox

end LoadCell
