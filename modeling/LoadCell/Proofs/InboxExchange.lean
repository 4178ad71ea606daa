import LoadCell.Proofs.Steps
import LoadCell.Protocol.Inbox

/-!
An inbox between a radio and an engine that write down what they do. Radio events come in wherever
a turn lets them, also while the engine is at work; an engine call notes which write it is about.
-/
namespace LoadCell

/-- A write that was taken in, and how many connections had been closed before. -/
structure Arrival where
  connection : Nat
  write : ControlWrite
  deriving DecidableEq

/-- A call of the engine. The place is that of the write in hand among the arrivals. -/
inductive EngineCall
  | disconnected
  | received (place : Nat) (data : Bytes)
  | rejected (place : Nat) (opcode code : UInt8)
  deriving DecidableEq

/-- The place of the write that a call hands over; the report of a full queue hands none over. -/
def EngineCall.place? : EngineCall → Option Nat
  | .disconnected => none
  | .received place _ => some place
  | .rejected place _ code => if code = ProtocolError.malformed.code then some place else none

def ControlWrite.handedAt (w : ControlWrite) (place : Nat) : EngineCall :=
  if w.oversize then .rejected place w.opcode ProtocolError.malformed.code
  else .received place w.data

@[simp] theorem ControlWrite.place?_handedAt (w : ControlWrite) (place : Nat) :
    (w.handedAt place).place? = some place := by
  unfold handedAt
  split <;> rfl

/-- How far the radio has got with a write. It is tagged, then queued, and counted if there is no
room; a turn may come in between. -/
inductive Intake
  | idle
  | tagged (w : ControlWrite)
  | refused (w : ControlWrite)

/-- An inbox and its history. -/
structure Moment where
  inbox : Inbox := {}
  intake : Intake := .idle
  arrivals : List Arrival := []
  closes : Nat := 0
  calls : List EngineCall := []

/-- The places of the writes that were handed over, in the order of the calls. -/
def Moment.handed (m : Moment) : List Nat := m.calls.filterMap (·.place?)

/-- The place of the write that the `i`-th call hands over, if it hands one over. -/
def Moment.placeAt (m : Moment) (i : Nat) : Option Nat := m.calls[i]?.bind EngineCall.place?

def Moment.record (m : Moment) (call : EngineCall) : Moment := { m with calls := m.calls ++ [call] }

/-- A latched disconnect is taken and told to the engine. -/
def Moment.acknowledged (m : Moment) : Moment :=
  let taken := { m with inbox := { m.inbox with disconnectPending := false } }
  if m.inbox.disconnectPending then taken.record .disconnected else taken

/-- A step of the radio. It does one thing after the other, so what would begin while a write is
being taken in does not happen. -/
inductive RadioEvent
  | write (data : Bytes)
  /-- The next step with the write that is being taken in. -/
  | proceed
  | disconnect

def RadioEvent.isDisconnect : RadioEvent → Bool
  | .disconnect => true
  | _ => false

/-- A write finds room in the queue or does not. -/
def Moment.queue (m : Moment) (w : ControlWrite) : Moment :=
  match m.inbox.enqueue w with
  | some box =>
    { m with inbox := box, intake := .idle, arrivals := m.arrivals ++ [⟨m.closes, w⟩] }
  | none => { m with intake := .refused w }

def Moment.after (m : Moment) (event : RadioEvent) : Moment :=
  match m.intake, event with
  | .idle, .write data => { m with intake := .tagged (m.inbox.tagged data) }
  | .idle, .disconnect => { m with inbox := m.inbox.disconnect, closes := m.closes + 1 }
  | .tagged w, .proceed => m.queue w
  | .refused w, .proceed => { m with inbox := m.inbox.refuse w, intake := .idle }
  | _, _ => m

/-- The steps of a write, one after the other, are `Inbox.write`. -/
theorem Moment.after_write (m : Moment) (h : m.intake = .idle) (data : Bytes) :
    let done := ((m.after (.write data)).after .proceed).after .proceed
    done = { m with
      inbox := (m.inbox.write data).2
      arrivals := if (m.inbox.write data).1 then
        m.arrivals ++ [⟨m.closes, m.inbox.tagged data⟩] else m.arrivals } := by
  have hbegun : m.after (.write data) = { m with intake := .tagged (m.inbox.tagged data) } := by
    simp [after, h]
  rw [hbegun, Inbox.write]
  cases hroom : m.inbox.enqueue (m.inbox.tagged data) <;> simp [after, queue, hroom, h]

/-- The inbox in use, with what the radio will do in the coming pauses and all moments so far. -/
structure Exchange where
  level : LogLevel := .default
  now : Moment := {}
  coming : List (List RadioEvent) := []
  past : List Moment := []

namespace Exchange

instance : Holds Exchange LogLevel := ⟨(·.level), fun a x => { x with level := a }⟩

instance : Holds Exchange Inbox :=
  ⟨(·.now.inbox), fun box x => { x with now := { x.now with inbox := box } }⟩

instance : Logs Exchange where
  write _ := return ()

instance : Silent Exchange := ⟨fun _ _ => rfl⟩

def note (x : Exchange) : Exchange := { x with past := x.past ++ [x.now] }

def after (x : Exchange) (event : RadioEvent) : Exchange :=
  { x.note with now := x.now.after event }

/-- The radio does what it will do next. -/
def letIn (x : Exchange) : Exchange :=
  match x.coming with
  | [] => x.note
  | events :: rest => (events.foldl after { x with coming := rest }).note

/-- Writes a call down that is about the write taken last. -/
def record (call : Nat → EngineCall) (x : Exchange) : Exchange :=
  { x with now := x.now.record (call (x.now.arrivals.length - x.now.inbox.writes.size - 1)) }

/-- An engine that gives any answers and lets the radio in while it is at work. -/
def engine (answer : Moment → Except ProtocolError Unit) : Handler Exchange where
  disconnected := modify fun x => (x.record fun _ => .disconnected).letIn
  receive data := do
    modify fun x => (x.record (.received · data)).letIn
    return answer (← get).now
  reject opcode code := modify fun x => (x.record (.rejected · opcode code)).letIn
  pause := modify letIn

inductive Event
  | radio (event : RadioEvent)
  /-- A turn, and what the radio does in its pauses. -/
  | turn (limit : Nat) (during : List (List RadioEvent))

def next (answer : Moment → Except ProtocolError Unit) (x : Exchange) : Event → Exchange
  | .radio event => x.after event
  | .turn limit during => (Inbox.turn (engine answer) limit { x with coming := during }).2

def run (answer : Moment → Except ProtocolError Unit) (events : List Event) (x : Exchange) :
    Exchange :=
  events.foldl (next answer) x

def Event.disconnects : Event → Nat
  | .radio event => [event].countP RadioEvent.isDisconnect
  | .turn _ during => during.flatten.countP RadioEvent.isDisconnect

end Exchange

end LoadCell
