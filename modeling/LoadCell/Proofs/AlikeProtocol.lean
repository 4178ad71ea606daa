import LoadCell.Proofs.Keeps

/-!
Two runs of the protocol engine. They are alike if the worlds show the engine alike up to what the
link has done to it, and if submitting an answer and sending what waits are.
-/
namespace LoadCell

/-- Whether a frame is a streamed weight and not an answer. -/
def Notification.isWeight : Notification → Bool
  | .weight _ _ => true
  | _ => false

/-- What the engine answers with: no weight, and no error without a cause. -/
def Notification.IsAnswer : Notification → Prop
  | .weight _ _ => False
  | .error _ code => ∃ e : ProtocolError, code = e.code
  | _ => True

theorem Notification.IsAnswer.isWeight {frame : Notification} (h : frame.IsAnswer) :
    frame.isWeight = false := by
  cases frame with
  | weight => exact h.elim
  | _ => rfl

namespace Protocol

/-- The engine without what the link does to it: the waiting answers, whether a weight waits, and
the counters. -/
def unlinked (p : Protocol) : Protocol :=
  { p with
    responses := .empty responseCapacity_pos
    weightPending := false
    dropped := 0
    sent := 0 }

variable {σ τ : Type} {R : σ → τ → Prop} [Logs σ] [Logs τ] [Holds σ Protocol] [Holds τ Protocol]

/-- The engine with only what commands ask it for. -/
def asked (p : Protocol) : Protocol where
  config := p.config
  batteryMillivolts := p.batteryMillivolts
  errorInfo := p.errorInfo

/-- Related states show commands the same of the engine, and submitting an answer or noting an error
text keeps them related. -/
structure Replies (R : σ → τ → Prop) : Prop where
  log : LogAlike R
  asked : ∀ s t, R s t → (Holds.part s : Protocol).asked = (Holds.part t : Protocol).asked
  submit : ∀ frame : Notification, frame.IsAnswer →
    Alike R (queueResponse frame : StateM σ Unit) (queueResponse frame : StateM τ Unit)
  note : ∀ text : String, text.length ≤ Notification.maxValue →
    Alike R (edit fun p => { p with errorInfo := text } : StateM σ Unit)
      (edit fun p => { p with errorInfo := text } : StateM τ Unit)

/-- Related states show the same engine, up to what the link does to it. -/
structure Answers (R : σ → τ → Prop) : Prop extends Replies R where
  view : ∀ s t, R s t → (Holds.part s : Protocol).unlinked = (Holds.part t : Protocol).unlinked
  asked := fun s t h => (congrArg Protocol.asked (view s t h) :)

/-- A program that looks at the engine only up to what the link does to it. -/
theorem Answers.bind (h : Answers R) {α : Type} {f : Protocol → StateM σ α}
    {g : Protocol → StateM τ α}
    (hf : ∀ p q : Protocol, p.unlinked = q.unlinked → Alike R (f p) (g q)) :
    Alike R (getPart Protocol >>= f) (getPart Protocol >>= g) :=
  fun s t hst => hf _ _ (h.view s t hst) s t hst

namespace Replies

variable (h : Replies R)
include h

/-- A program that looks only at what commands look at. -/
theorem bind {α : Type} {f : Protocol → StateM σ α} {g : Protocol → StateM τ α}
    (hf : ∀ p q : Protocol, p.asked = q.asked → Alike R (f p) (g q)) :
    Alike R (getPart Protocol >>= f) (getPart Protocol >>= g) :=
  fun s t hst => hf _ _ (h.asked s t hst) s t hst

theorem respond (value : Bytes) :
    Alike R (Protocol.respond value : StateM σ (Except ProtocolError Unit))
      (Protocol.respond value) :=
  .bind (h.submit _ trivial) fun _ => .pure _

/-- An answer about the engine. -/
theorem report (value : Protocol → Bytes) (hvalue : ∀ p : Protocol, value p = value p.asked) :
    Alike R (getPart Protocol >>= fun p => Protocol.respond (value p) :
        StateM σ (Except ProtocolError Unit))
      (getPart Protocol >>= fun p => Protocol.respond (value p)) := by
  apply h.bind
  intro p q hasked
  rw [hvalue p, hvalue q, hasked]
  exact h.respond _

theorem recordError (text : String) :
    Alike R (Protocol.recordError text : StateM σ Unit) (Protocol.recordError text) :=
  h.note _ (Text.length_cut_le _ _)

theorem queueError (opcode : UInt8) (e : ProtocolError) :
    Alike R (Protocol.queueError opcode e.code : StateM σ Unit)
      (Protocol.queueError opcode e.code) :=
  .bind (h.recordError _) fun _ => h.submit _ ⟨e, rfl⟩

theorem reject {left : Link σ} {right : Link τ}
    (hpoll : Alike R (poll left) (poll right)) {opcode code : UInt8}
    (hsubmit : Alike R (queueResponse (.error opcode code) : StateM σ Unit)
      (queueResponse (.error opcode code) : StateM τ Unit)) :
    Alike R (Protocol.reject left opcode code) (Protocol.reject right opcode code) :=
  .bind (h.log.debug _ _) fun _ =>
    .bind (.bind (h.recordError _) fun _ => hsubmit) fun _ => hpoll

end Replies

theorem Answers.warnLowBattery (h : Answers R) {left : Link σ} {right : Link τ}
    (hpoll : Alike R (poll left) (poll right))
    (hdisconnect : Alike R left.disconnect right.disconnect) :
    Alike R (Protocol.warnLowBattery left) (Protocol.warnLowBattery right) := by
  apply h.bind
  intro p q hview
  have hlow : p.batteryLow = q.batteryLow := congrArg (·.batteryLow) hview
  have hbattery : p.batteryMillivolts = q.batteryMillivolts :=
    congrArg (·.batteryMillivolts) hview
  rw [hlow, hbattery]
  apply Alike.ite _ (.pure _)
  exact .bind (h.log.message _) fun _ => .bind (h.submit _ trivial) fun _ =>
    .bind hpoll fun _ => hdisconnect

section Engine

variable [Holds σ Calibration] [Holds τ Calibration] [Holds σ Store] [Holds τ Store]
  [Holds σ MedianFilter] [Holds τ MedianFilter]

/-- Related states show a command the same calibration, and a medium that runs alike. -/
structure Obeys (left : Board σ) (right : Board τ) (R : σ → τ → Prop) : Prop extends
    Replies R where
  calibration : Shares R Calibration
  store : Shares R Store
  filter : ∀ s t, R s t → (Holds.part s : MedianFilter) = Holds.part t
  medium : left.medium.Alike right.medium R

structure Serves (left : Board σ) (right : Board τ) (R : σ → τ → Prop) : Prop extends
    Answers R, Obeys left right R

variable {left : Board σ} {right : Board τ}

/-- Only start and stop touch the stream. -/
theorem Obeys.execute (h : Obeys left right R) (command : Command)
    (hstart : command = .startMeasurement →
      Alike R (startStream left.clock) (startStream right.clock))
    (hstop : command = .stopMeasurement →
      Alike R (stopStream : StateM σ Unit) (stopStream : StateM τ Unit)) :
    Alike R (Protocol.execute left command) (Protocol.execute right command) := by
  cases command with
  | tare =>
    apply Alike.bind (Calibration.alike_beginTare h.log.texts h.calibration _ _)
    intro accepted
    exact .ite (.pure _) (.pure _)
  | startMeasurement => exact .bind (hstart rfl) fun _ => .pure _
  | stopMeasurement => exact .bind (hstop rfl) fun _ => .pure _
  | startPeakRfd => exact .pure _
  | startPeakRfdSeries => exact .pure _
  | addCalibrationPoint reference =>
    exact .bind (Calibration.alike_addPoint h.log.texts h.calibration h.filter _) fun _ => .pure _
  | saveCalibration =>
    exact .bind (Calibration.alike_save h.log.texts h.calibration h.medium h.store) fun _ => .pure _
  | getAppVersion => exact h.report (fun p => Text.toBytes p.config.appVersion) fun _ => rfl
  | getErrorInfo => exact h.report (fun p => Text.toBytes p.errorInfo) fun _ => rfl
  | clearErrorInfo => exact .bind (h.note _ (Nat.zero_le _)) fun _ => .pure _
  | shutdown => exact .bind (h.log.debug _ _) fun _ => .pure _
  | sampleBattery => exact h.report (fun p => Bytes.ofNat 4 p.batteryMillivolts.toNat) fun _ => rfl
  | getDeviceId =>
    exact h.report (fun p => Notification.deviceIdValue p.config.deviceId) fun _ => rfl
  | getCalibrationCurve =>
    apply Alike.bind (.getPart h.calibration)
    intro c
    cases c.mapping with
    | some mapping => exact h.respond _
    | none => exact .pure _

theorem Obeys.dispatch (h : Obeys left right R) (command : Command)
    (hstart : command = .startMeasurement →
      Alike R (startStream left.clock) (startStream right.clock))
    (hstop : command = .stopMeasurement →
      Alike R (stopStream : StateM σ Unit) (stopStream : StateM τ Unit)) :
    Alike R (Protocol.dispatch left command) (Protocol.dispatch right command) := by
  apply Alike.bind (h.execute command hstart hstop)
  intro outcome
  cases outcome with
  | ok => exact .pure _
  | error e => exact .bind (h.queueError _ _) fun _ => .pure _

theorem Obeys.handle (h : Obeys left right R) (hpoll : Alike R (poll left.link) (poll right.link))
    (frame : Bytes)
    (hstart : Alike R (startStream left.clock) (startStream right.clock))
    (hstop : Alike R (stopStream : StateM σ Unit) (stopStream : StateM τ Unit)) :
    Alike R (Protocol.handle left frame) (Protocol.handle right frame) := by
  apply h.toReplies.bind
  intro p q hasked
  have hconfig : p.config = q.config := congrArg (·.config) hasked
  rw [hconfig]
  dsimp only
  cases Command.decode q.config.order q.config.capacity frame with
  | error e =>
    exact .bind (h.log.debug _ _) fun _ => .bind (h.queueError _ _) fun _ =>
      .bind hpoll fun _ => .pure _
  | ok command =>
    exact .bind (h.log.debug _ _) fun _ =>
      .bind (h.dispatch command (fun _ => hstart) fun _ => hstop) fun _ =>
        .bind hpoll fun _ => .pure _

theorem Serves.receive (h : Serves left right R)
    (hpoll : Alike R (poll left.link) (poll right.link))
    (hdisconnect : Alike R left.link.disconnect right.link.disconnect) (frame : Bytes)
    (hstart : Alike R (startStream left.clock) (startStream right.clock))
    (hstop : Alike R (stopStream : StateM σ Unit) (stopStream : StateM τ Unit)) :
    Alike R (Protocol.receive left frame) (Protocol.receive right frame) :=
  .bind (h.toAnswers.warnLowBattery hpoll hdisconnect) fun _ =>
    h.toObeys.handle hpoll frame hstart hstop

end Engine

/-! What a run beside itself gives for each. -/

section Keeping

variable {P : σ → Prop}

theorem Answers.of_keeps (hlog : LogKeeps P)
    (hsubmit : ∀ frame : Notification, frame.IsAnswer → Keeps P (queueResponse frame))
    (hnote : ∀ text : String, text.length ≤ Notification.maxValue →
      Keeps P (edit fun p => { p with errorInfo := text } : StateM σ Unit)) :
    Answers fun s t : σ => s = t ∧ P s where
  log := hlog.alike
  view := by
    rintro s _ ⟨rfl, _⟩
    rfl
  submit frame hframe := (hsubmit frame hframe).alike
  note text htext := (hnote text htext).alike

/-- Submitting an answer, if putting it into the queue keeps the property and so does counting it as
refused. -/
theorem keeps_queueResponse (hlog : LogKeeps P) {frame : Notification}
    (hqueue : ∀ s, P s → ∀ responses,
      (Holds.part s : Protocol).responses.push? frame = some responses →
        P (edit (fun p => { p with responses := responses }) s).2)
    (hrefuse : Keeps P (edit fun p => { p with dropped := p.dropped + 1 } : StateM σ Unit)) :
    Keeps P (queueResponse frame) := by
  intro s h
  rw [queueResponse, bind_run, LoadCell.getPart]
  dsimp only
  cases hpush : (Holds.part s : Protocol).responses.push? frame with
  | none => exact Keeps.bind hrefuse (fun _ => hlog.message _) s h
  | some responses => exact hqueue s h responses hpush

/-- Sending the answers in order, if sending the oldest keeps the property and so does dropping
what was sent. -/
theorem keeps_drainResponses {link : Link σ}
    (hsubmit : ∀ s, P s → ∀ frame, (Holds.part s : Protocol).responses.peek? = some frame →
      P (submit link (pure frame) s).2)
    (hdiscard : Keeps P (edit discardPending : StateM σ Unit))
    (hdrop : Keeps P (edit dropOldestResponse : StateM σ Unit)) (limit : Nat) :
    Keeps P (drainResponses link limit) := by
  induction limit with
  | zero => exact .pure _
  | succ limit ih =>
    intro s h
    rw [drainResponses, bind_run, LoadCell.getPart]
    dsimp only
    cases hpeek : (Holds.part s : Protocol).responses.peek? with
    | none => exact h
    | some frame =>
      have hsent := hsubmit s h frame hpeek
      simp only [bind_run]
      generalize submit link (pure frame) s = sent at hsent ⊢
      obtain ⟨result, t⟩ := sent
      cases result with
      | busy => exact hsent
      | notConnected => exact hdiscard t hsent
      | ok => exact ih _ (hdrop t hsent)

theorem keeps_sendWeight {link : Link σ}
    (hsubmit : ∀ s, P s → (Holds.part s : Protocol).weightPending = true →
      P (submit link lentWeight s).2)
    (hdiscard : Keeps P (edit discardPending : StateM σ Unit))
    (hdone : Keeps P (edit fun p => { p with weightPending := false } : StateM σ Unit)) :
    Keeps P (sendWeight link) := by
  intro s h
  rw [sendWeight, bind_run, LoadCell.getPart]
  dsimp only
  cases hpending : (Holds.part s : Protocol).weightPending with
  | false => exact h
  | true =>
    have hsent := hsubmit s h hpending
    simp only [↓reduceIte, bind_run]
    generalize submit link lentWeight s = sent at hsent ⊢
    obtain ⟨result, t⟩ := sent
    cases result with
    | busy => exact hsent
    | notConnected => exact hdiscard t hsent
    | ok => exact hdone t hsent

theorem keeps_poll {link : Link σ} (hdrain : Keeps P (drainResponses link drainLimit))
    (hweight : Keeps P (sendWeight link)) : Keeps P (poll link) := by
  refine .bind hdrain fun empty => ?_
  cases empty with
  | true => exact hweight
  | false => exact .pure _

theorem keeps_startStream (hlog : LogKeeps P) {clock : StateM σ UInt32} (hclock : Keeps P clock)
    (hopen : Keeps P (edit fun p => { p with stream := .streaming } : StateM σ Unit))
    (hbegin : ∀ now, Keeps P
      (edit fun p => { p with origin := now, weightPending := false } : StateM σ Unit)) :
    Keeps P (startStream clock) := by
  refine Keeps.bind .getPart fun p => ?_
  split
  next =>
    exact .bind hopen fun _ => .bind hclock fun now => .bind (hbegin now) fun _ => hlog.debug _ _
  next => exact .pure _

theorem keeps_stopStream (hlog : LogKeeps P) (hclose : Keeps P
      (edit fun p => { p with stream := .idle, weightPending := false } : StateM σ Unit)) :
    Keeps P (stopStream : StateM σ Unit) := by
  refine Keeps.bind .getPart fun p => ?_
  split
  next => exact .bind (hlog.debug _ _) fun _ => hclose
  next => exact hclose

theorem keeps_disconnected (hlog : LogKeeps P) (hclose : Keeps P
      (edit fun p => discardPending { p with stream := .idle } : StateM σ Unit)) :
    Keeps P (disconnected : StateM σ Unit) := by
  refine Keeps.bind .getPart fun p => ?_
  split
  next => exact .bind (hlog.debug _ _) fun _ => hclose
  next => exact hclose

theorem keeps_setBattery (hlog : LogKeeps P) {millivolts : UInt32} {low : Bool}
    (hset : Keeps P (edit fun p => { p with batteryMillivolts := millivolts, batteryLow := low } :
      StateM σ Unit)) :
    Keeps P (setBattery millivolts low : StateM σ Unit) := by
  refine Keeps.bind .getPart fun p => ?_
  split
  next => exact .bind (hlog.message _) fun _ => hset
  next => exact hset

variable [Holds σ Calibration] [Holds σ Store] [Holds σ MedianFilter]

theorem Serves.of_keeps {board : Board σ} (h : Answers fun s t : σ => s = t ∧ P s)
    (hcalibration : Ignores P Calibration) (hstore : Ignores P Store)
    (hmedium : board.medium.Keeping P) : Serves board board fun s t => s = t ∧ P s where
  toAnswers := h
  calibration := hcalibration.shares
  store := hstore.shares
  filter := by
    rintro s _ ⟨rfl, _⟩
    rfl
  medium := hmedium.alike

end Keeping

end Protocol

end LoadCell
