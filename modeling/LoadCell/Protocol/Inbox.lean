import LoadCell.Log
import LoadCell.Protocol.Error
import LoadCell.BoundedQueue

/-!
Control writes on their way from the radio to the main loop. Each write carries the number of its
connection, the epoch; a disconnect begins the next epoch. The main loop takes the writes out in
order, hands those of the current connection over, and drops those of a closed one. Radio events
may fall between any two steps of `dispatch` that touch the shared state; `Handler.pause` stands
where they can.
-/

namespace LoadCell

/-- The longest control write that is kept whole. -/
def controlWriteSize : Nat := 20

def inboxCapacity : Nat := 8

theorem inboxCapacity_pos : 0 < inboxCapacity := Nat.succ_pos _

/-- A control write as it arrived; of a longer one the beginning. -/
structure ControlWrite where
  data : Bytes
  oversize : Bool
  epoch : UInt32
  deriving DecidableEq

instance : Inhabited ControlWrite := ⟨⟨[], false, 0⟩⟩

/-- The opcode, or zero for an empty write. -/
def ControlWrite.opcode (w : ControlWrite) : UInt8 := w.data.headD 0

structure Inbox where
  writes : BoundedQueue ControlWrite inboxCapacity := .empty inboxCapacity_pos
  epoch : UInt32 := 0
  /-- A disconnect that the main loop has not seen yet. -/
  disconnectPending : Bool := false
  /-- The first write refused by the full queue since the last report. -/
  refused : Option ControlWrite := none
  dropped : UInt32 := 0
  stale : UInt32 := 0

instance : Inhabited Inbox := ⟨{}⟩

/-- Who receives the writes. -/
structure Handler (σ : Type) where
  disconnected : StateM σ Unit
  receive : Bytes → StateM σ (Except ProtocolError Unit)
  /-- Answers a write that is not decoded with an error code. -/
  reject : (opcode code : UInt8) → StateM σ Unit
  /-- Lets the radio in between two steps. -/
  pause : StateM σ Unit

namespace Inbox

/-- A write of the current connection. -/
def tagged (box : Inbox) (data : Bytes) : ControlWrite where
  data := data.take controlWriteSize
  oversize := controlWriteSize < data.length
  epoch := box.epoch

/-- Queues a tagged write if there is room. -/
def enqueue (box : Inbox) (w : ControlWrite) : Option Inbox :=
  (box.writes.push? w).map fun writes => { box with writes := writes }

/-- Counts a write that found no room; the first one is kept for the report. -/
def refuse (box : Inbox) (w : ControlWrite) : Inbox :=
  { box with dropped := box.dropped + 1, refused := box.refused <|> some w }

/-- Takes a write in; whether there was room. -/
def write (box : Inbox) (data : Bytes) : Bool × Inbox :=
  let w := box.tagged data
  match box.enqueue w with
  | some box => (true, box)
  | none => (false, box.refuse w)

/-- The connection is closed; what comes next belongs to another one. -/
def disconnect (box : Inbox) : Inbox :=
  { box with epoch := box.epoch + 1, disconnectPending := true }

def take (box : Inbox) : Option ControlWrite × Inbox :=
  match box.writes.pop? with
  | none => (none, box)
  | some (w, rest) => (some w, { box with writes := rest })

/-- Takes a latched disconnect; whether there was one, and the current epoch. -/
def acknowledge (box : Inbox) : (Bool × UInt32) × Inbox :=
  ((box.disconnectPending, box.epoch), { box with disconnectPending := false })

def takeRefused (box : Inbox) : Option ControlWrite × Inbox :=
  (box.refused, { box with refused := none })

variable {σ : Type} [Logs σ] [Holds σ Inbox] (handler : Handler σ)

/-- One step on the shared state, after a pause. -/
def atomically {α : Type} (step : Inbox → α × Inbox) : StateM σ α := do
  handler.pause
  let (answer, box) := step (← getPart Inbox)
  setPart box
  return answer

/-- Passes a latched disconnect on; the epoch as of then. -/
def passDisconnect : StateM σ UInt32 := do
  let (pending, epoch) ← atomically handler acknowledge
  if pending then handler.disconnected
  return epoch

/-- Counts a write of a closed connection. -/
def discard (w : ControlWrite) : StateM σ Unit := do
  modifyPart fun box : Inbox => { box with stale := box.stale + 1 }
  Log.debug .ble ("[BLE] Discarded write from closed connection (opcode "
    ++ Text.hexByte w.opcode ++ ")\n")

/-- Hands a write over; one that was too long is rejected by its opcode. -/
def handOver (w : ControlWrite) : StateM σ Unit := do
  if w.oversize then handler.reject w.opcode ProtocolError.malformed.code
  else
    match ← handler.receive w.data with
    | .ok () => return ()
    | .error e => Log.debug .ble ("[BLE] Frame rejected: " ++ e.name ++ "\n")

/-- Takes writes out until none is left. A write of another epoch makes it look for a disconnect
first; if it still is of another one, its connection is closed. -/
def drain : (limit : Nat) → (epoch : UInt32) → StateM σ UInt32
  | 0, epoch => return epoch
  | limit + 1, epoch => do
    match ← atomically handler take with
    | none => return epoch
    | some w =>
      let current ← if w.epoch = epoch then pure epoch else passDisconnect handler
      if w.epoch = current then handOver handler w else discard w
      drain limit current

/-- Answers the first refused write if it is of the current connection. -/
def reportRefused (epoch : UInt32) : StateM σ Unit := do
  let (refused, dropped) ← atomically handler fun box =>
    ((box.takeRefused.1, box.dropped), box.takeRefused.2)
  match refused with
  | none => return ()
  | some w =>
    if w.epoch = epoch then
      Log.message ("BLE: control queue full - dropped write(s), first opcode "
        ++ Text.hexByte w.opcode ++ " (" ++ toString dropped ++ " total)\n")
      handler.reject w.opcode ProtocolError.queueFull.code

/-- A latched disconnect, the waiting writes up to a limit, then the refused ones. -/
def turn (limit : Nat) : StateM σ Unit := do
  let epoch ← passDisconnect handler
  let epoch ← drain handler limit epoch
  reportRefused handler epoch

/-- No call takes more than this many writes, however fast the radio brings them. -/
def drainLimit : Nat := 4294967296

def dispatch : StateM σ Unit := turn handler drainLimit

end Inbox

end LoadCell
