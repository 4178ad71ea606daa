import LoadCell.Chain
import LoadCell.Flash.Faults

/-!
What can be seen of a running program from outside, in groups, and which groups have changed since
an earlier look.
-/

namespace LoadCell

structure CalibrationView where
  mapping : Option Mapping
  points : List CalibrationPoint
  taring : Bool
  tare : Float32
  deriving DecidableEq

structure FilterView where
  size : Nat
  latest : Option Int32
  deriving DecidableEq

structure ProtocolView where
  stream : StreamState
  pending : Nat
  weight : Option Notification
  dropped : UInt32
  sent : UInt32
  errorInfo : String
  order : ByteOrder
  batteryLow : Bool
  deriving DecidableEq

structure InboxView where
  pending : Nat
  dropped : UInt32
  stale : UInt32
  deriving DecidableEq

structure PipelineView where
  weight : Float32
  filtered : Int32
  samples : UInt32
  deriving DecidableEq

structure ChannelView where
  size : Nat
  overruns : UInt32
  deriving DecidableEq

structure FlashView where
  spent : Nat
  erases : Nat
  writes : Nat
  lost : Bool
  deriving DecidableEq

/-- What only a whole device has. -/
structure PanelView where
  led : Bool
  connected : Bool
  samplesRead : UInt32
  timeouts : UInt32
  level : LogLevel
  deriving DecidableEq

structure Snapshot where
  calibration : CalibrationView
  filter : FilterView
  protocol : ProtocolView
  inbox : InboxView
  pipeline : PipelineView
  channel : ChannelView
  flash : FlashView
  panel : Option PanelView

/-- Looks at a chain, its flash, and a device's panel if there is one. -/
def Snapshot.take (chain : Chain) (flash : NorFlash) (panel : Option PanelView) : Snapshot where
  calibration :=
    { mapping := chain.calibration.mapping
      points := chain.calibration.session.toList
      taring := chain.calibration.tare.isRunning
      tare := chain.calibration.tare.offset }
  filter := { size := chain.filter.size.val, latest := chain.filter.latest }
  protocol :=
    { stream := chain.protocol.stream
      pending := chain.protocol.responses.size
      weight := chain.protocol.pendingWeight
      dropped := chain.protocol.dropped
      sent := chain.protocol.sent
      errorInfo := chain.protocol.errorInfo
      order := chain.protocol.config.order
      batteryLow := chain.protocol.batteryLow }
  inbox :=
    { pending := chain.inbox.writes.size
      dropped := chain.inbox.dropped
      stale := chain.inbox.stale }
  pipeline :=
    { weight := chain.pipeline.lastWeight
      filtered := chain.pipeline.lastFiltered
      samples := chain.pipeline.samples }
  channel := { size := chain.channel.size, overruns := chain.channel.overruns }
  flash :=
    { spent := flash.spent, erases := flash.erases, writes := flash.writes
      lost := flash.powerLost }
  panel := panel

/-- Groups of a snapshot, each there or not. -/
structure SnapshotGroups where
  calibration : Option CalibrationView
  filter : Option FilterView
  protocol : Option ProtocolView
  inbox : Option InboxView
  pipeline : Option PipelineView
  channel : Option ChannelView
  flash : Option FlashView
  panel : Option PanelView
  deriving DecidableEq

namespace Snapshot

def groups (s : Snapshot) : SnapshotGroups :=
  ⟨some s.calibration, some s.filter, some s.protocol, some s.inbox, some s.pipeline,
    some s.channel, some s.flash, s.panel⟩

/-- The new value if it differs from the old one. -/
def changed {α : Type} [DecidableEq α] (old new : α) : Option α :=
  if old = new then none else some new

/-- The groups that differ from an earlier look. -/
def changes (old new : Snapshot) : SnapshotGroups where
  calibration := changed old.calibration new.calibration
  filter := changed old.filter new.filter
  protocol := changed old.protocol new.protocol
  inbox := changed old.inbox new.inbox
  pipeline := changed old.pipeline new.pipeline
  channel := changed old.channel new.channel
  flash := changed old.flash new.flash
  panel := if old.panel = new.panel then none else new.panel

end Snapshot

end LoadCell
