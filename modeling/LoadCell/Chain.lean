import LoadCell.Pipeline
import LoadCell.Protocol.Inbox

/-!
The measurement chain as one value: everything between the sampler and the link.
-/

namespace LoadCell

structure Chain where
  channel : SampleChannel := .empty channelCapacity_pos
  filter : MedianFilter := .ofSize (.ofRequest 5)
  store : Store := {}
  calibration : Calibration := {}
  protocol : Protocol := {}
  inbox : Inbox := {}
  pipeline : Pipeline := {}

instance : Inhabited Chain := ⟨{}⟩

section

variable {σ : Type} [Holds σ Chain]

def Chain.of (s : σ) : Chain := Holds.part s

instance : Holds σ SampleChannel where
  part s := (Chain.of s).channel
  withPart a s := Holds.withPart { Chain.of s with channel := a } s

instance : Holds σ MedianFilter where
  part s := (Chain.of s).filter
  withPart a s := Holds.withPart { Chain.of s with filter := a } s

instance : Holds σ Store where
  part s := (Chain.of s).store
  withPart a s := Holds.withPart { Chain.of s with store := a } s

instance : Holds σ Calibration where
  part s := (Chain.of s).calibration
  withPart a s := Holds.withPart { Chain.of s with calibration := a } s

instance : Holds σ Protocol where
  part s := (Chain.of s).protocol
  withPart a s := Holds.withPart { Chain.of s with protocol := a } s

instance : Holds σ Inbox where
  part s := (Chain.of s).inbox
  withPart a s := Holds.withPart { Chain.of s with inbox := a } s

instance : Holds σ Pipeline where
  part s := (Chain.of s).pipeline
  withPart a s := Holds.withPart { Chain.of s with pipeline := a } s

end

/-- The protocol as the receiver of control writes. -/
def Protocol.handler {σ : Type} [Logs σ] [Holds σ Chain] (board : Board σ) : Handler σ where
  disconnected := Protocol.disconnected
  receive := Protocol.receive board
  reject := Protocol.reject board.link
  pause := return ()

namespace Chain

variable {σ : Type} [Logs σ] [Holds σ Chain] (board : Board σ)

/-- The main loop's turn on control writes. -/
def dispatch : StateM σ Unit := Inbox.dispatch (Protocol.handler board)

def sample (count : Int32) (time : UInt32) : StateM σ Unit :=
  modifyPart fun channel : SampleChannel => channel.pushOverwrite ⟨count, time⟩

end Chain

end LoadCell
