import LoadCell.Protocol.Notification

/-!
The link to the peer, as the protocol sees it.
-/

namespace LoadCell

inductive SendResult
  | ok
  /-- Nobody is there to deliver to. -/
  | notConnected
  /-- The peer or the radio is not ready; try again later. -/
  | busy
  deriving DecidableEq

/-- The sending side of the link. A notification is lent, not given: a link that lets other code
run before it copies the notification delivers what it has become by then. -/
structure Link (σ : Type) where
  send : StateM σ Notification → StateM σ SendResult
  disconnect : StateM σ Unit

end LoadCell
