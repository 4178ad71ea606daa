import LoadCell.Proofs.AlikeProtocol

/-!
A protocol engine whose link and queue are written down. The trace shows which answers the queue
took in or refused, what was offered to the link and what the link said.
-/
namespace LoadCell

inductive Occurrence
  | accepted (frame : Notification)
  | refused
  | offered (frame : Notification) (result : SendResult)
  /-- The peer is gone. -/
  | hungUp
  deriving DecidableEq

/-- What happened, and which answers waited just before. -/
structure TraceEntry where
  waiting : List Notification
  what : Occurrence
  deriving DecidableEq

/-- What a change does to the queue: answers at its end are new ones, and one more dropped is one
refused. -/
def Protocol.changes (old new : Protocol) : List TraceEntry :=
  let accepted := (new.responses.toList.drop old.responses.size).map Occurrence.accepted
  let refused := if new.dropped = old.dropped then [] else [Occurrence.refused]
  (accepted ++ refused).map (TraceEntry.mk old.responses.toList)

/-- An engine with its trace. Medium and clock work on a world of their own. -/
structure Desk (ω : Type) where
  level : LogLevel := .default
  filter : MedianFilter := default
  calibration : Calibration := {}
  store : Store := {}
  world : ω
  protocol : Protocol := {}
  trace : List TraceEntry := []

namespace Desk

variable {ω : Type}

instance : Holds (Desk ω) LogLevel := ⟨(·.level), fun a s => { s with level := a }⟩
instance : Holds (Desk ω) MedianFilter := ⟨(·.filter), fun a s => { s with filter := a }⟩
instance : Holds (Desk ω) Calibration := ⟨(·.calibration), fun a s => { s with calibration := a }⟩
instance : Holds (Desk ω) Store := ⟨(·.store), fun a s => { s with store := a }⟩

instance : Holds (Desk ω) Protocol where
  part s := s.protocol
  withPart p s := { s with protocol := p, trace := s.trace ++ s.protocol.changes p }

instance : Logs (Desk ω) where
  write _ := return ()

instance : Silent (Desk ω) := ⟨fun _ _ => rfl⟩

def note (s : Desk ω) (what : Occurrence) : Desk ω :=
  { s with trace := s.trace ++ [⟨s.protocol.responses.toList, what⟩] }

/-- Runs a program of the world. -/
def inWorld {α : Type} (x : StateM ω α) : StateM (Desk ω) α :=
  fun s => ((x s.world).1, { s with world := (x s.world).2 })

/-- A link that answers as it likes and calls nobody back. -/
def link (answer : List TraceEntry → SendResult) : Link (Desk ω) where
  send lent := do
    let frame ← lent
    let result := answer (← get).trace
    modify (note · (.offered frame result))
    return result
  disconnect := return ()

def board (answer : List TraceEntry → SendResult) (medium : Medium ω) (clock : StateM ω UInt32) :
    Board (Desk ω) where
  medium :=
    { sectorSize := medium.sectorSize
      sectorCount := inWorld medium.sectorCount
      read := fun offset length => inWorld (medium.read offset length)
      erase := fun offset length => inWorld (medium.erase offset length)
      write := fun offset bytes => inWorld (medium.write offset bytes) }
  link := link answer
  clock := inWorld clock

/-- A call of the engine, or anything that other modules do in between. -/
inductive Call (ω : Type)
  | receive (frame : Bytes)
  | reject (opcode code : UInt8)
  | publishWeight (weight : Float32) (time : UInt32)
  | poll
  | disconnected
  | setBattery (millivolts : UInt32) (low : Bool)
  | recordError (text : String)
  | elsewhere (level : LogLevel) (filter : MedianFilter) (calibration : Calibration)
      (store : Store) (world : ω)

def after (board : Board (Desk ω)) (s : Desk ω) : Call ω → Desk ω
  | .receive frame => (Protocol.receive board frame s).2
  | .reject opcode code => (Protocol.reject board.link opcode code s).2
  | .publishWeight weight time => (Protocol.publishWeight board.link weight time s).2
  | .poll => (Protocol.poll board.link s).2
  | .disconnected => (Protocol.disconnected (s.note .hungUp)).2
  | .setBattery millivolts low => (Protocol.setBattery millivolts low s).2
  | .recordError text => (Protocol.recordError text s).2
  | .elsewhere level filter calibration store world =>
    { s with
      level := level, filter := filter, calibration := calibration, store := store, world := world }

def run (board : Board (Desk ω)) (calls : List (Call ω)) (s : Desk ω) : Desk ω :=
  calls.foldl (after board) s

end Desk

end LoadCell
