import LoadCell.Chain
import LoadCell.Device.Radio
import LoadCell.Proofs.AlikeProtocol
import LoadCell.Proofs.TurnRule

/-!
The chain on the air. A world of any kind has the flash, the clock and the clients; radio events
fall between the calls of the main loop. It is noted for everything that the engine holds back which
connection it belongs to, and for every notification who is connected when it goes out.
-/
namespace LoadCell

/-- A notification as the radio gets it. Connections are told by their epochs. -/
structure Delivery where
  value : Bytes
  /-- The connection of the write that it answers, or of the one that began its stream. -/
  owner : UInt32
  /-- The connection that is up. -/
  peer : UInt32
  /-- The engine has not heard of the last disconnect. -/
  latched : Bool
  deriving DecidableEq

/-- The connections that things of the engine belong to. -/
structure Owners where
  /-- That of the write at work: the one taken last, or the refused one that is reported. -/
  author : UInt32 := 0
  /-- Those of the waiting answers, oldest first. -/
  answers : List UInt32 := []
  stream : UInt32 := 0
  weight : UInt32 := 0
  deriving DecidableEq

/-- The write that has been taken out between two states of an inbox. -/
def Inbox.taken? (old new : Inbox) : Option ControlWrite :=
  if new.writes.size < old.writes.size then old.writes.peek?
  else if new.refused.isNone then old.refused else none

/-- An answer, a stream or a weight that is new belongs to the write at work or to its stream. -/
def Owners.after (o : Owners) (old new : Chain) : Owners where
  author := ((old.inbox.taken? new.inbox).map (·.epoch)).getD o.author
  answers := o.answers.drop (old.protocol.responses.size - new.protocol.responses.size) ++
    List.replicate (new.protocol.responses.size - old.protocol.responses.size) o.author
  stream := if !old.protocol.isStreaming && new.protocol.isStreaming then o.author else o.stream
  weight :=
    if new.protocol.pendingWeight.isSome &&
      new.protocol.pendingWeight ≠ old.protocol.pendingWeight then o.stream else o.weight

structure Air (ω : Type) where
  level : LogLevel := .default
  chain : Chain := {}
  radio : Radio := {}
  world : ω
  owners : Owners := {}
  deliveries : List Delivery := []

/-- The surroundings of a device: its hardware, its flash, and what the clients say to a
notification. -/
structure Surroundings (ω : Type) where
  hardware : Hardware ω
  medium : Medium ω
  hear : Bytes → StateM ω (List (NotifyStatus × Int))

namespace Air

variable {ω : Type}

instance : Holds (Air ω) LogLevel := ⟨(·.level), fun a s => { s with level := a }⟩
instance : Holds (Air ω) Radio := ⟨(·.radio), fun a s => { s with radio := a }⟩

instance : Holds (Air ω) Chain where
  part s := s.chain
  withPart chain s := { s with chain := chain, owners := s.owners.after s.chain chain }

instance : Logs (Air ω) where
  write _ := return ()

instance : Terminal (Air ω) where
  write _ := return ()

instance : Silent (Air ω) := ⟨fun _ _ => rfl⟩

/-- Runs a program of the world. -/
def inWorld {α : Type} (x : StateM ω α) : StateM (Air ω) α :=
  fun s => ((x s.world).1, { s with world := (x s.world).2 })

/-- A weight belongs to its stream, anything else is the oldest answer. -/
def ownerOf (s : Air ω) (value : Bytes) : UInt32 :=
  if value.head? = some 0x01 then s.owners.weight else s.owners.answers.headD s.owners.author

def note (s : Air ω) (value : Bytes) : Air ω :=
  { s with deliveries := s.deliveries ++
      [⟨value, s.ownerOf value, s.chain.inbox.epoch, s.chain.inbox.disconnectPending⟩] }

def hardware (around : Surroundings ω) : Hardware (Air ω) where
  call c := inWorld (around.hardware.call c)
  settingsInit := inWorld around.hardware.settingsInit
  settingsErase := inWorld around.hardware.settingsErase
  notify value report := do
    modify (note · value)
    (← inWorld (around.hear value)).forM fun (status, code) => report status code
  dropPeer handle := inWorld (around.hardware.dropPeer handle)
  delay millis := inWorld (around.hardware.delay millis)
  micros := inWorld around.hardware.micros
  millis := inWorld around.hardware.millis
  converterReady := inWorld around.hardware.converterReady
  converterRead := inWorld around.hardware.converterRead
  setLed on := inWorld (around.hardware.setLed on)
  batteryPin := inWorld around.hardware.batteryPin
  address := around.hardware.address

def board (around : Surroundings ω) : Board (Air ω) where
  medium := around.medium.within inWorld
  link := Radio.link (hardware around)
  clock := (hardware around).micros

/-- A radio event, a call of the main loop, or anything that happens to the rest of the chain. -/
inductive Step (ω : Type)
  | connect (handle : UInt16)
  | disconnect
  | write (bytes : Bytes)
  | dispatch
  | pollPipeline (limit : Nat)
  | pollProtocol
  | setBattery (millivolts : UInt32) (low : Bool)
  | recordError (text : String)
  | setOrder (order : ByteOrder)
  | elsewhere (level : LogLevel) (chain : Chain) (world : ω)

def Step.isDisconnect : Step ω → Bool
  | .disconnect => true
  | _ => false

def after (around : Surroundings ω) (s : Air ω) : Step ω → Air ω
  | .connect handle => (Radio.onConnect handle s).2
  | .disconnect => (Radio.onDisconnect (hardware around) s).2
  | .write bytes => (Radio.onWrite bytes s).2
  | .dispatch => (Chain.dispatch (board around) s).2
  | .pollPipeline limit => (Pipeline.poll (board around).link limit s).2
  | .pollProtocol => (Protocol.poll (board around).link s).2
  | .setBattery millivolts low => (Protocol.setBattery millivolts low s).2
  | .recordError text => (Protocol.recordError text s).2
  | .setOrder order => (Protocol.setOrder order s).2
  | .elsewhere level chain world =>
    { s with
      level := level
      chain := { chain with inbox := s.chain.inbox, protocol := s.chain.protocol }
      world := world }

def run (around : Surroundings ω) (steps : List (Step ω)) (s : Air ω) : Air ω :=
  steps.foldl (after around) s

end Air

end LoadCell
