import LoadCell.Device.Hardware
import LoadCell.Protocol.Inbox
import LoadCell.Protocol.Link
import LoadCell.Terminal

/-!
The radio service. The peer writes control frames to one characteristic and gets notifications
from another. A notification goes to whoever is connected when it is sent.
-/

namespace LoadCell

structure Radio where
  serving : Bool := false
  connected : Bool := false
  handle : UInt16 := 0
  /-- The result of the notification under way. -/
  outcome : SendResult := .ok

instance : Inhabited Radio := ⟨{}⟩

namespace Radio

def serviceUuid : String := "7e4e1701-1ea6-40c9-9dcc-13d34ffead57"

def dataUuid : String := "7e4e1702-1ea6-40c9-9dcc-13d34ffead57"

def controlUuid : String := "7e4e1703-1ea6-40c9-9dcc-13d34ffead57"

/-- Peers look for names that begin so. -/
def nameStart : String := "Progressor_"

/-- The data characteristic is for reading (2) and notifying (16). -/
def dataProperties : Nat := 2 + 16

/-- The control characteristic is for writing, with (8) and without (4) an answer. -/
def controlProperties : Nat := 8 + 4

def mtu : Nat := 64

/-- A tenth of a second in units of 0.625 ms. -/
def advertisingInterval : Nat := 100 * 1000 / 625

variable {σ : Type} [Logs σ] [Terminal σ] [Holds σ Radio] (hw : Hardware σ)

def debug (text : String) : StateM σ Unit := Log.debug .ble ("[BLE] " ++ text ++ "\n")

def edit (f : Radio → Radio) : StateM σ Unit := modifyPart f

/-- Starts the service and its advertising; whether both work. -/
def start : StateM σ Bool := do
  debug "Initializing BLE service..."
  let name := nameStart ++ hw.nameSuffix
  debug ("Device name: " ++ name)
  hw.issue (.radioInit name)
  hw.issue .radioPower
  hw.issue (.radioMtu mtu)
  if !(← hw.call .createServer) then
    Terminal.line "BLE: ERROR - server creation failed"
    return false
  hw.issue (.createService serviceUuid)
  hw.issue (.createCharacteristic dataUuid dataProperties)
  hw.issue (.createCharacteristic controlUuid controlProperties)
  edit fun r => { r with serving := true }
  hw.issue .startService
  hw.issue (.advertiseService serviceUuid)
  hw.issue .scanResponse
  hw.issue (.minInterval advertisingInterval)
  hw.issue (.maxInterval advertisingInterval)
  if !(← hw.call .advertise) then
    Terminal.line "BLE: ERROR - advertising failed to start"
    return false
  Terminal.write ("BLE: advertising as " ++ name ++ "\n")
  return true

/-- Takes in one client's status of the notification under way. A client that is busy outweighs
one that is not there. -/
def noteStatus (status : NotifyStatus) (code : Int) : StateM σ Unit :=
  match status with
  | .success => return ()
  | .gattError => edit fun r => { r with outcome := .busy }
  | .noClient | .disabled =>
    edit fun r => { r with outcome := if r.outcome = .ok then .notConnected else r.outcome }
  | other => debug ("Notify status " ++ toString other.code ++ " (rc=" ++ toString code ++ ")")

/-- The link over the data characteristic. The notification is copied before the radio has it. -/
def link : Link σ where
  send lent := do
    let r ← getPart Radio
    if !(r.connected && r.serving) then return .notConnected
    edit fun r => { r with outcome := .ok }
    let frame ← lent
    hw.notify frame.encode noteStatus
    return (← getPart Radio).outcome
  disconnect := do
    let r ← getPart Radio
    if r.connected then
      debug "Disconnect requested"
      let code ← hw.dropPeer r.handle
      if code ≠ 0 then
        Terminal.write ("BLE: disconnect failed (rc=" ++ toString code ++ ")\n")

def onConnect (handle : UInt16) : StateM σ Unit := do
  debug "Client connected"
  edit fun r => { r with connected := true, handle := handle }

/-- The peer is gone; the next one may come. -/
def onDisconnect [Holds σ Inbox] : StateM σ Unit := do
  debug "Client disconnected"
  edit fun r => { r with connected := false }
  modifyPart Inbox.disconnect
  hw.issue .advertise

def onWrite [Holds σ Inbox] (bytes : Bytes) : StateM σ Unit := do
  if controlWriteSize < bytes.length then
    debug ("Control write too long: " ++ toString bytes.length ++ " bytes")
  let (taken, box) := (← getPart Inbox).write bytes
  setPart box
  if taken then
    debug ("Control write: " ++ toString bytes.length ++ " bytes, opcode "
      ++ Text.hexByte (bytes.headD 0))
  else debug "Control queue full - write dropped"

def onSubscribe (value : Nat) : StateM σ Unit :=
  debug ("Data subscription: " ++ toString value)

end Radio

end LoadCell
