import LoadCell.Calibration.Engine
import LoadCell.Protocol.Command
import LoadCell.Protocol.Link
import LoadCell.BoundedQueue

/-!
The conversation with the peer. Answers wait in a short queue and go out in order; of the streamed
weights only the newest waits, and only while no answer does. What the link cannot take now stays
for the next poll; when nobody is connected, everything that waits is discarded.
-/

namespace LoadCell

inductive StreamState
  | idle | streaming
  deriving DecidableEq

/-- How many answers can wait. -/
def responseCapacity : Nat := 4

theorem responseCapacity_pos : 0 < responseCapacity := Nat.succ_pos _

structure ProtocolConfig where
  /-- Empty if there is none. -/
  appVersion : String := ""
  deviceId : UInt64 := 0
  order : ByteOrder := .default
  /-- The capacity of the cell in kilograms: 200. -/
  capacity : Float32 := Float32.ofBits 0x43480000

structure Protocol where
  config : ProtocolConfig := {}
  stream : StreamState := .idle
  /-- The time that a stream counts from. -/
  origin : UInt32 := 0
  responses : BoundedQueue Notification responseCapacity := .empty responseCapacity_pos
  /-- The last streamed weight, and whether it still has to go out. -/
  weight : Notification := .weight 0 0
  weightPending : Bool := false
  batteryMillivolts : UInt32 := 0
  batteryLow : Bool := false
  errorInfo : String := ""
  dropped : UInt32 := 0
  sent : UInt32 := 0

instance : Inhabited Protocol := ⟨{}⟩

/-- What the board gives to the program: the medium of the calibration store, the link to the peer
and the microsecond clock. -/
structure Board (σ : Type) where
  medium : Medium σ
  link : Link σ
  clock : StateM σ UInt32

namespace Protocol

/-- A sample taken up to this many microseconds before its stream began moves the beginning. -/
def reorderWindow : UInt32 := 1000000

/-- No call drains more than this many items of a queue, however fast others fill it. -/
def drainLimit : Nat := 4294967296

def isStreaming (p : Protocol) : Bool := p.stream = .streaming

def discardPending (p : Protocol) : Protocol :=
  { p with responses := p.responses.clear, weightPending := false }

variable {σ : Type} [Logs σ] [Holds σ Protocol]

def edit (f : Protocol → Protocol) : StateM σ Unit := modifyPart f

/-- Hands one notification to the link. -/
def submit (link : Link σ) (lent : StateM σ Notification) : StateM σ SendResult := do
  let result ← link.send lent
  if result = .ok then
    edit fun p => { p with sent := p.sent + 1 }
    let frame ← lent
    Log.debug .protocol ("Protocol: sent code " ++ Text.hexByte frame.code ++ " ("
      ++ toString frame.value.length ++ " bytes)\n")
  return result

def dropOldestResponse (p : Protocol) : Protocol :=
  match p.responses.pop? with
  | none => p
  | some (_, rest) => { p with responses := rest }

/-- Without its oldest answer, nothing else of the protocol changes. -/
theorem dropOldestResponse_eq (p : Protocol) : ∃ responses,
    p.dropOldestResponse = { p with responses := responses } ∧
      responses.toList = p.responses.toList.tail := by
  unfold dropOldestResponse
  cases hpop : p.responses.pop? with
  | none => exact ⟨p.responses, rfl, by rw [BoundedQueue.toList_of_pop?_none hpop]; rfl⟩
  | some popped => exact ⟨popped.2, rfl, by rw [BoundedQueue.toList_of_pop? hpop]; rfl⟩

/-- Sends waiting answers, oldest first, while the link takes them; whether none is left. -/
def drainResponses (link : Link σ) : (limit : Nat) → StateM σ Bool
  | 0 => return false
  | limit + 1 => do
    match (← getPart Protocol).responses.peek? with
    | none => return true
    | some frame =>
      match ← submit link (pure frame) with
      | .busy => return false
      | .notConnected =>
        edit discardPending
        return false
      | .ok =>
        edit dropOldestResponse
        drainResponses link limit

/-- The weight that waits, or the last one that did. -/
def lentWeight : StateM σ Notification := return (← getPart Protocol).weight

def sendWeight (link : Link σ) : StateM σ Unit := do
  if (← getPart Protocol).weightPending then
    match ← submit link lentWeight with
    | .busy => return ()
    | .notConnected => edit discardPending
    | .ok => edit fun p => { p with weightPending := false }

/-- Sends what waits, answers first. -/
def poll (link : Link σ) : StateM σ Unit := do
  if ← drainResponses link drainLimit then sendWeight link

/-- Puts an answer into the queue; a full queue refuses it. -/
def queueResponse (frame : Notification) : StateM σ Unit := do
  match (← getPart Protocol).responses.push? frame with
  | some responses => edit fun p => { p with responses := responses }
  | none =>
    edit fun p => { p with dropped := p.dropped + 1 }
    Log.message ("Protocol: response queue full - dropped code " ++ Text.hexByte frame.code ++ "\n")

/-- Remembers a text as the error info, cut to the length of a value. -/
def recordError (text : String) : StateM σ Unit :=
  edit fun p => { p with errorInfo := Text.cut Notification.maxValue (Text.upToZero text) }

/-- Answers with an error and remembers its name. -/
def queueError (opcode code : UInt8) : StateM σ Unit := do
  recordError (ProtocolError.codeName code.toNat)
  queueResponse (.error opcode code)

def startStream (clock : StateM σ UInt32) : StateM σ Unit := do
  if (← getPart Protocol).stream = .idle then
    edit fun p => { p with stream := .streaming }
    let now ← clock
    edit fun p => { p with origin := now, weightPending := false }
    Log.debug .protocol "Protocol: streaming started\n"

def stopStream : StateM σ Unit := do
  if (← getPart Protocol).isStreaming then
    Log.debug .protocol "Protocol: streaming stopped\n"
  edit fun p => { p with stream := .idle, weightPending := false }

/-- The stored form of a mapping in an answer: the count at zero, then the gradient. -/
def curveValue (m : Mapping) : Bytes :=
  Bytes.ofNat 4 m.zeroRaw.toUInt32.toNat ++ Bytes.ofNat 8 m.gradient.toBits.toNat

def ofCalibration (outcome : Except CalibrationError Unit) : Except ProtocolError Unit :=
  outcome.mapError .calibration

def respond (value : Bytes) : StateM σ (Except ProtocolError Unit) := do
  queueResponse (.response value)
  return .ok ()

variable [Holds σ Calibration] [Holds σ Store] [Holds σ MedianFilter]

/-- Carries a command out. A failure is still to be answered. -/
def execute (board : Board σ) : Command → StateM σ (Except ProtocolError Unit)
  | .tare => do
    if ← Calibration.beginTare Calibration.tareWarmup Calibration.tareAverage then return .ok ()
    return .error .uncalibrated
  | .startMeasurement => do
    startStream board.clock
    return .ok ()
  | .stopMeasurement => do
    stopStream
    return .ok ()
  | .startPeakRfd | .startPeakRfdSeries => return .error .unsupported
  | .addCalibrationPoint reference => return ofCalibration (← Calibration.addPoint reference)
  | .saveCalibration => return ofCalibration (← Calibration.save board.medium)
  | .getAppVersion => do respond (Text.toBytes (← getPart Protocol).config.appVersion)
  | .getErrorInfo => do respond (Text.toBytes (← getPart Protocol).errorInfo)
  | .clearErrorInfo => do
    edit fun p => { p with errorInfo := "" }
    return .ok ()
  | .shutdown => do
    Log.debug .protocol "Protocol: shutdown requested (ignored)\n"
    return .ok ()
  | .sampleBattery => do respond (Bytes.ofNat 4 (← getPart Protocol).batteryMillivolts.toNat)
  | .getDeviceId => do respond (Notification.deviceIdValue (← getPart Protocol).config.deviceId)
  | .getCalibrationCurve => do
    match (← getPart Calibration).mapping with
    | some mapping => respond (curveValue mapping)
    | none => return .error .uncalibrated

/-- Carries a command out and answers a failure. -/
def dispatch (board : Board σ) (command : Command) : StateM σ (Except ProtocolError Unit) := do
  match ← execute board command with
  | .ok () => return .ok ()
  | .error e =>
    queueError command.opcode e.code
    return .error e

/-- With a low battery every frame is met with a warning and the end of the connection. -/
def warnLowBattery (link : Link σ) : StateM σ Unit := do
  let p ← getPart Protocol
  if p.batteryLow then
    Log.message ("Protocol: battery low (" ++ toString p.batteryMillivolts
      ++ " mV) - warning peer and disconnecting\n")
    queueResponse .lowPower
    poll link
    link.disconnect

/-- Decodes a control frame and carries its command out; the error is the one reported. -/
def handle (board : Board σ) (frame : Bytes) : StateM σ (Except ProtocolError Unit) := do
  let config := (← getPart Protocol).config
  match Command.decode config.order config.capacity frame with
  | .error e =>
    let opcode := frame.headD 0
    Log.debug .protocol ("Protocol: rejected frame " ++ Text.hexByte opcode ++ " ("
      ++ toString frame.length ++ " bytes): " ++ e.name ++ "\n")
    queueError opcode e.code
    poll board.link
    return .error e
  | .ok command =>
    Log.debug .protocol ("Protocol: command " ++ Text.hexByte command.opcode ++ "\n")
    let outcome ← dispatch board command
    poll board.link
    return outcome

/-- Takes a control frame of the peer. -/
def receive (board : Board σ) (frame : Bytes) : StateM σ (Except ProtocolError Unit) := do
  warnLowBattery board.link
  handle board frame

omit [Holds σ Calibration] [Holds σ Store] [Holds σ MedianFilter]

/-- Answers a control write that never reached decoding. -/
def reject (link : Link σ) (opcode code : UInt8) : StateM σ Unit := do
  Log.debug .protocol ("Protocol: frame " ++ Text.hexByte opcode ++ " not decoded: "
    ++ ProtocolError.codeName code.toNat ++ "\n")
  queueError opcode code
  poll link

/-- The link dropped: ends the stream and discards what waits. -/
def disconnected : StateM σ Unit := do
  if (← getPart Protocol).isStreaming then
    Log.debug .protocol "Protocol: peer disconnected - streaming stopped\n"
  edit fun p => discardPending { p with stream := .idle }

/-- Stamps a weight with the time since the stream began. A sample from just before the beginning
becomes the beginning. -/
def stamp (p : Protocol) (weight : Float32) (time : UInt32) : Protocol :=
  let lead := p.origin - time
  let early := lead ≠ 0 && lead ≤ reorderWindow
  { p with
    origin := if early then time else p.origin
    weight := .weight weight (if early then 0 else time - p.origin)
    weightPending := true }

/-- Streams a weight in the place of one that still waits. -/
def publishWeight (link : Link σ) (weight : Float32) (time : UInt32) : StateM σ Unit := do
  if (← getPart Protocol).isStreaming then
    edit fun p => p.stamp weight time
    poll link

def setBattery (millivolts : UInt32) (low : Bool) : StateM σ Unit := do
  if low && !(← getPart Protocol).batteryLow then
    Log.message ("Protocol: battery low (" ++ toString millivolts ++ " mV)\n")
  edit fun p => { p with batteryMillivolts := millivolts, batteryLow := low }

def setOrder (order : ByteOrder) : StateM σ Unit :=
  edit fun p => { p with config := { p.config with order := order } }

/-- The weight that still has to go out. -/
def pendingWeight (p : Protocol) : Option Notification :=
  if p.weightPending then some p.weight else none

end Protocol

end LoadCell
