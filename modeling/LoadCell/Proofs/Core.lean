import LoadCell.Chain
import LoadCell.Proofs.AlikeProtocol

/-!
The whole measurement chain on a flash and a clock of any kind, with a link that answers from a
script and calls nobody back. The lemmas say what the steps of a program do to it.
-/
namespace LoadCell

/-- A frame that the link was given, and what the link said. -/
structure Offer where
  frame : Notification
  result : SendResult
  deriving DecidableEq

/-- The weight that the link took. -/
def Offer.weight? (o : Offer) : Option Notification :=
  if o.result = .ok ∧ o.frame.isWeight then some o.frame else none

/-- Flash and clock are in the world. The script has what the link says to the first offer, the
second and so on. -/
structure Core (ω : Type) where
  level : LogLevel := .default
  chain : Chain := {}
  world : ω
  script : ℕ → SendResult
  offers : List Offer := []
  /-- How often the link was asked to disconnect. -/
  hangUps : ℕ := 0
  /-- What the radio does to the inbox in the pauses of a dispatch. -/
  radio : List (Inbox → Inbox) := []
  /-- What `Protocol.receive` has returned to a dispatch. -/
  outcomes : List (Except ProtocolError Unit) := []

namespace Core

variable {ω : Type}

instance : Holds (Core ω) LogLevel := ⟨(·.level), fun a s => { s with level := a }⟩
instance : Holds (Core ω) Chain := ⟨(·.chain), fun a s => { s with chain := a }⟩

instance : Logs (Core ω) where
  write _ := return ()

instance : Silent (Core ω) := ⟨fun _ _ => rfl⟩

/-- Runs a program of the world. -/
def inWorld {α : Type} (x : StateM ω α) : StateM (Core ω) α :=
  fun s => ((x s.world).1, { s with world := (x s.world).2 })

def link : Link (Core ω) where
  send lent := do
    let frame ← lent
    modifyGet fun s =>
      let result := s.script s.offers.length
      (result, { s with offers := s.offers ++ [⟨frame, result⟩] })
  disconnect := modify fun s => { s with hangUps := s.hangUps + 1 }

def board (medium : Medium ω) (clock : StateM ω UInt32) : Board (Core ω) where
  medium :=
    { sectorSize := medium.sectorSize
      sectorCount := inWorld medium.sectorCount
      read := fun offset length => inWorld (medium.read offset length)
      erase := fun offset length => inWorld (medium.erase offset length)
      write := fun offset bytes => inWorld (medium.write offset bytes) }
  link := link
  clock := inWorld clock

/-- A medium without sectors. -/
def noFlash : Medium Unit where
  sectorSize := 0
  sectorCount := return 0
  read _ _ := return none
  erase _ _ := return false
  write _ _ := return false

/-- The radio does what it will do next. -/
def letIn (s : Core ω) : Core ω :=
  { s with
    chain := { s.chain with inbox := s.radio.headD id s.chain.inbox }
    radio := s.radio.tail }

/-- The engine as the receiver of control writes. -/
def handler (board : Board (Core ω)) : Handler (Core ω) :=
  { Protocol.handler board with
    receive := fun frame => do
      let outcome ← Protocol.receive board frame
      modify fun s => { s with outcomes := s.outcomes ++ [outcome] }
      return outcome
    pause := modify letIn }

def withProtocol (s : Core ω) (p : Protocol) : Core ω :=
  { s with chain := { s.chain with protocol := p } }

section Runs

variable (s : Core ω)

@[simp] theorem getPart_protocol : getPart Protocol s = (s.chain.protocol, s) := rfl

@[simp] theorem getPart_channel : getPart SampleChannel s = (s.chain.channel, s) := rfl

@[simp] theorem getPart_filter : getPart MedianFilter s = (s.chain.filter, s) := rfl

@[simp] theorem getPart_calibration : getPart Calibration s = (s.chain.calibration, s) := rfl

@[simp] theorem edit_run (f : Protocol → Protocol) :
    Protocol.edit f s = ((), s.withProtocol (f s.chain.protocol)) := rfl

@[simp] theorem modifyPart_filter (f : MedianFilter → MedianFilter) :
    modifyPart f s = ((), { s with chain := { s.chain with filter := f s.chain.filter } }) := rfl

@[simp] theorem modifyPart_calibration (f : Calibration → Calibration) :
    modifyPart f s =
      ((), { s with chain := { s.chain with calibration := f s.chain.calibration } }) := rfl

@[simp] theorem modifyPart_pipeline (f : Pipeline → Pipeline) :
    modifyPart f s =
      ((), { s with chain := { s.chain with pipeline := f s.chain.pipeline } }) := rfl

theorem applyTare_run (weight : Float32) :
    let tare := s.chain.calibration.tare.absorb weight
    Calibration.applyTare weight s = (tare.net weight, { s with
      chain := { s.chain with calibration := { s.chain.calibration with tare := tare } } }) := by
  rw [Calibration.applyTare, bind_run, getPart_calibration]
  dsimp only
  rw [bind_run, modifyPart_calibration]
  split
  next => rw [bind_run, debug_run, pure_run]
  next => rw [pure_run]

@[simp] theorem withProtocol_protocol (p : Protocol) : (s.withProtocol p).chain.protocol = p := rfl

def offer (s : Core ω) (frame : Notification) : Core ω :=
  { s with offers := s.offers ++ [⟨frame, s.script s.offers.length⟩] }

/-- What the link will say next. -/
def reply (s : Core ω) : SendResult := s.script s.offers.length

/-- Submitting offers the frame to the link, and a frame that the link took is counted. -/
theorem submit_run (lent : StateM (Core ω) Notification) (hlent : ∀ t, (lent t).2 = t) :
    Protocol.submit link lent s = (s.reply,
      if s.reply = .ok then
        (s.offer (lent s).1).withProtocol
          { s.chain.protocol with sent := s.chain.protocol.sent + 1 }
      else s.offer (lent s).1) := by
  have hsend : link.send lent s = (s.reply, s.offer (lent s).1) := by
    show ((lent s).2.reply, (lent s).2.offer (lent s).1) = _
    rw [hlent]
  rw [Protocol.submit, bind_run, hsend]
  by_cases hok : s.reply = .ok
  · simp [hok, hlent, offer]
  · simp [hok]

/-- A weight that waits is offered; it stays only if the link is busy. -/
theorem sendWeight_run (hpending : s.chain.protocol.weightPending = true) :
    let offered := s.offer s.chain.protocol.weight
    Protocol.sendWeight link s = ((),
      match s.reply with
      | .ok => offered.withProtocol
          { s.chain.protocol with sent := s.chain.protocol.sent + 1, weightPending := false }
      | .busy => offered
      | .notConnected => offered.withProtocol s.chain.protocol.discardPending) := by
  have hsubmit := submit_run s Protocol.lentWeight fun _ => rfl
  have hlent : (Protocol.lentWeight s).1 = s.chain.protocol.weight := rfl
  rw [hlent] at hsubmit
  rw [Protocol.sendWeight, bind_run, getPart_protocol]
  simp only [hpending, ↓reduceIte, bind_run, hsubmit]
  cases s.reply with
  | ok => rfl
  | busy => rfl
  | notConnected => rfl

theorem startStream_run (medium : Medium ω) (clock : StateM ω UInt32) :
    (Protocol.startStream (board medium clock).clock s).2 =
      if s.chain.protocol.stream = .idle then
        { s with world := (clock s.world).2 }.withProtocol
          { s.chain.protocol with
            stream := .streaming
            origin := ((board medium clock).clock s).1
            weightPending := false }
      else s := by
  rw [Protocol.startStream, bind_run, getPart_protocol]
  split
  next => simp only [bind_run, edit_run, debug_run]; rfl
  next => rfl

theorem stopStream_run :
    (Protocol.stopStream s).2 =
      s.withProtocol { s.chain.protocol with stream := .idle, weightPending := false } := by
  rw [Protocol.stopStream, bind_run, getPart_protocol]
  split
  next => simp only [bind_run, debug_run, edit_run]
  next => rfl

theorem disconnected_run :
    (Protocol.disconnected s).2 =
      s.withProtocol (Protocol.discardPending { s.chain.protocol with stream := .idle }) := by
  rw [Protocol.disconnected, bind_run, getPart_protocol]
  split
  next => simp only [bind_run, debug_run, edit_run]
  next => rfl

end Runs

end Core

end LoadCell
