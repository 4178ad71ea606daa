import LoadCell.Proofs.AnswerQueue
import LoadCell.Proofs.CommandGrammar
import LoadCell.Proofs.EngineUses
import LoadCell.Proofs.LinkIndependence

/-!
Every control frame is answered as it is reported, and a failure does no harm. Taking a frame in is
a warning if the battery is low, then carrying the frame out, which neither submits nor sends, then
submitting the answers, which go to the end of the queue as far as it has room, then sending. The
answers follow from what is reported; a reported error leaves all but its own name as it was, and the
store too unless it is the store that failed.
-/
namespace LoadCell

namespace ProtocolError

/-- The name of every error fits into the error info. -/
theorem cut_name (e : ProtocolError) :
    Text.cut Notification.maxValue (Text.upToZero e.name) = e.name := by
  cases e with
  | calibration cause => cases cause <;> decide
  | _ => decide

/-- Different errors have different codes. -/
theorem code_injective {e e' : ProtocolError} (h : e.code = e'.code) : e = e' := by
  rcases e with _ | _ | _ | _ | _ | (_ | _ | _ | _ | _) <;>
    rcases e' with _ | _ | _ | _ | _ | (_ | _ | _ | _ | _) <;>
    first | rfl | exact absurd h (by decide)

end ProtocolError

def Notification.isError : Notification → Bool
  | .error _ _ => true
  | _ => false

/-- The opcodes that ask for a value. -/
def queryOpcodes : List UInt8 := [0x6B, 0x6C, 0x6F, 0x70, 0x72]

namespace Core

variable {ω : Type}

/-- Submits answers one after the other. -/
def submitAll (answers : List Notification) : StateM (Core ω) Unit :=
  answers.forM Protocol.queueResponse

/-- The state after the warning that a low battery gives rise to. -/
def warned (s : Core ω) : Core ω :=
  if s.chain.protocol.batteryLow then
    let sent := (Protocol.poll link (submitAll [.lowPower] s).2).2
    { sent with hangUps := sent.hangUps + 1 }
  else s

/-- The value that answers a query. -/
def queryValue (s : Core ω) (opcode : UInt8) : Option Bytes :=
  if opcode = 0x6B then some (Text.toBytes s.chain.protocol.config.appVersion)
  else if opcode = 0x6C then some (Text.toBytes s.chain.protocol.errorInfo)
  else if opcode = 0x6F then some (Bytes.ofNat 4 s.chain.protocol.batteryMillivolts.toNat)
  else if opcode = 0x70 then some (Notification.deviceIdValue s.chain.protocol.config.deviceId)
  else if opcode = 0x72 then s.chain.calibration.mapping.map Protocol.curveValue
  else none

/-- What a frame is answered with if an outcome is reported for it. -/
def answersTo (s : Core ω) (frame : Bytes) : Except ProtocolError Unit → List Notification
  | .error e => [.error (frame.headD 0) e.code]
  | .ok () => ((s.queryValue (frame.headD 0)).map .response).toList

/-- Nothing was submitted or sent in between. -/
structure Unanswered (s t : Core ω) : Prop where
  responses : t.chain.protocol.responses = s.chain.protocol.responses
  dropped : t.chain.protocol.dropped = s.chain.protocol.dropped
  sent : t.chain.protocol.sent = s.chain.protocol.sent
  offers : t.offers = s.offers
  hangUps : t.hangUps = s.hangUps

/-- Answers were put into the queue of a state, and then what waits was sent. What waits afterwards
were the last in the queue, and every answer that found no room is counted. -/
structure Answered (t : Core ω) (answers : List Notification) (after : Core ω) : Prop where
  queued : ∃ q, t.chain.protocol.Enqueued answers q ∧ (submitAll answers t).2 = t.withProtocol q
  sent : after = (Protocol.poll link (submitAll answers t).2).2
  left : after.chain.protocol.responses.toList <:+
    (t.chain.protocol.responses.toList ++ answers).take responseCapacity
  dropped : after.chain.protocol.dropped = t.chain.protocol.dropped +
    UInt32.ofNat ((t.chain.protocol.responses.toList ++ answers).drop responseCapacity).length

/-- What a failure leaves as it was. -/
structure Unharmed (s t : Core ω) : Prop where
  stream : t.chain.protocol.stream = s.chain.protocol.stream
  origin : t.chain.protocol.origin = s.chain.protocol.origin
  batteryMillivolts : t.chain.protocol.batteryMillivolts = s.chain.protocol.batteryMillivolts
  batteryLow : t.chain.protocol.batteryLow = s.chain.protocol.batteryLow
  config : t.chain.protocol.config = s.chain.protocol.config
  filter : t.chain.filter = s.chain.filter
  calibration : t.chain.calibration = s.chain.calibration

/-- Remembers the name of an error. -/
def noting (s : Core ω) (e : ProtocolError) : Core ω :=
  s.withProtocol { s.chain.protocol with errorInfo := e.name }

/-- What carrying a frame out can come to. The answers are not submitted yet. -/
inductive Handled (s : Core ω) (opcode : UInt8) :
    Except ProtocolError Unit → List Notification → Core ω → Prop
  | refused {e} (he : e ≠ .calibration .storageFault) :
      Handled s opcode (.error e) [.error opcode e.code] (s.noting e)
  | unstored (store : Store) (world : ω) :
      Handled s opcode (.error (.calibration .storageFault))
        [.error opcode (ProtocolError.calibration .storageFault).code]
        ((s.restored store world).noting (.calibration .storageFault))
  | queried {value} (hvalue : s.queryValue opcode = some value) :
      Handled s opcode (.ok ()) [.response value] s
  | done {t} (hopcode : opcode ∉ queryOpcodes) (hsame : Unanswered s t)
      (hinfo : t.chain.protocol.errorInfo =
        if opcode = 0x6D then "" else s.chain.protocol.errorInfo) :
      Handled s opcode (.ok ()) [] t

section Queue

theorem submitAll_run (answers : List Notification) (t : Core ω) : ∃ q,
    t.chain.protocol.Enqueued answers q ∧ submitAll answers t = ((), t.withProtocol q) := by
  induction answers generalizing t with
  | nil => exact ⟨t.chain.protocol, .nil _, rfl⟩
  | cons answer rest ih =>
    obtain ⟨p, hfirst, hqueued⟩ := Protocol.queueResponse_run answer t
    obtain ⟨q, hrest, hqueuedRest⟩ := ih (t.withProtocol p)
    refine ⟨q, hfirst.append hrest, ?_⟩
    show submitAll rest (Protocol.queueResponse answer t).2 = _
    rw [hqueued]
    exact hqueuedRest

/-- What is left of a queue, with the number of refused answers. -/
def Leaves (queue : List Notification) (dropped : UInt32) (t : Core ω) : Prop :=
  t.chain.protocol.responses.toList <:+ queue ∧ t.chain.protocol.dropped = dropped

variable {queue : List Notification} {dropped : UInt32}

theorem keeps_submit_leaves (lent : StateM (Core ω) Notification) (hlent : ∀ t, (lent t).2 = t) :
    Keeps (Leaves queue dropped) (Protocol.submit link lent) := by
  intro t h
  rw [submit_run t lent hlent]
  dsimp only
  split
  next => exact h
  next => exact h

/-- Sending takes answers only from the front, and refuses none. -/
theorem keeps_poll_leaves :
    Keeps (Leaves queue dropped : Core ω → Prop) (Protocol.poll link) := by
  have hdiscard : Keeps (Leaves queue dropped : Core ω → Prop)
      (Protocol.edit Protocol.discardPending) := fun _ h => ⟨List.nil_suffix, h.2⟩
  have hdrop : Keeps (Leaves queue dropped : Core ω → Prop)
      (Protocol.edit Protocol.dropOldestResponse) := by
    intro t h
    obtain ⟨responses, hdropped, htail⟩ := t.chain.protocol.dropOldestResponse_eq
    rw [edit_run, hdropped]
    refine ⟨?_, h.2⟩
    show responses.toList <:+ queue
    rw [htail]
    exact (List.tail_suffix _).trans h.1
  refine Protocol.keeps_poll (Protocol.keeps_drainResponses (fun t h _ _ => ?_) hdiscard hdrop _)
    (Protocol.keeps_sendWeight (fun t h _ => ?_) hdiscard fun _ h => h)
  · exact keeps_submit_leaves _ (fun _ => rfl) t h
  · exact keeps_submit_leaves _ (fun _ => rfl) t h

theorem answered_poll (answers : List Notification) (t : Core ω) :
    t.Answered answers (Protocol.poll link (submitAll answers t).2).2 := by
  obtain ⟨q, hqueued, hrun⟩ := submitAll_run answers t
  have hsubmitted : (submitAll answers t).2 = t.withProtocol q := congrArg Prod.snd hrun
  have hleaves : Leaves ((t.chain.protocol.responses.toList ++ answers).take responseCapacity)
      q.dropped (Protocol.poll link (t.withProtocol q)).2 :=
    keeps_poll_leaves _ ⟨hqueued.responses ▸ List.suffix_rfl, rfl⟩
  rw [← hsubmitted] at hleaves
  exact ⟨⟨q, hqueued, hsubmitted⟩, rfl, hleaves.1, hleaves.2.trans hqueued.dropped⟩

end Queue

section Runs

variable (medium : Medium ω) (clock : StateM ω UInt32) (s : Core ω)

theorem queueError_run (opcode : UInt8) (e : ProtocolError) :
    Protocol.queueError opcode e.code s =
      ((), (submitAll [.error opcode e.code] (s.noting e)).2) := by
  have hinfo : Text.cut Notification.maxValue
      (Text.upToZero (ProtocolError.codeName e.code.toNat)) = e.name := e.cut_name
  rw [Protocol.queueError, bind_run, Protocol.recordError, hinfo]
  rfl

theorem warnLowBattery_run : (Protocol.warnLowBattery link s).2 = s.warned := by
  rw [Protocol.warnLowBattery, bind_run, getPart_protocol, warned]
  split
  next => rw [bind_run, message_run]; rfl
  next => rfl

/-- A program that ends with an outcome and submits answers last, as a frame with an opcode may. -/
def Concludes (x : StateM (Core ω) (Except ProtocolError Unit)) (opcode : UInt8) : Prop :=
  ∃ outcome answers t, x s = (outcome, (submitAll answers t).2) ∧ Handled s opcode outcome answers t

variable {medium clock s} {command : Command}

theorem dispatch_failed {e : ProtocolError} {t : Core ω}
    (h : Protocol.execute (board medium clock) command s = (.error e, t))
    (hhandled : Handled s command.opcode (.error e) [.error command.opcode e.code] (t.noting e)) :
    s.Concludes (Protocol.dispatch (board medium clock) command) command.opcode := by
  refine ⟨_, _, _, ?_, hhandled⟩
  rw [Protocol.dispatch, bind_run, h]
  dsimp only
  rw [bind_run, queueError_run, pure_run]

theorem dispatch_refused {e : ProtocolError}
    (h : Protocol.execute (board medium clock) command s = (.error e, s))
    (he : e ≠ .calibration .storageFault) :
    s.Concludes (Protocol.dispatch (board medium clock) command) command.opcode :=
  dispatch_failed h (.refused he)

theorem dispatch_done {t : Core ω}
    (h : Protocol.execute (board medium clock) command s = (.ok (), t))
    (hhandled : Handled s command.opcode (.ok ()) [] t) :
    s.Concludes (Protocol.dispatch (board medium clock) command) command.opcode := by
  refine ⟨_, _, _, ?_, hhandled⟩
  rw [Protocol.dispatch, bind_run, h]
  rfl

theorem dispatch_queried {value : Bytes}
    (h : Protocol.execute (board medium clock) command s = Protocol.respond value s)
    (hvalue : s.queryValue command.opcode = some value) :
    s.Concludes (Protocol.dispatch (board medium clock) command) command.opcode := by
  refine ⟨_, _, _, ?_, .queried hvalue⟩
  rw [Protocol.dispatch, bind_run, h]
  rfl

variable (medium clock s) (command)

/-- Every command is answered as it is reported. -/
theorem dispatch_concludes :
    s.Concludes (Protocol.dispatch (board medium clock) command) command.opcode := by
  cases command with
  | tare =>
    cases hmapping : s.chain.calibration.mapping with
    | none =>
      apply dispatch_refused (e := .uncalibrated) _ (by decide)
      simp [Protocol.execute, Calibration.beginTare, Calibration.isCalibrated, hmapping]
    | some mapping =>
      apply dispatch_done
      · simp [Protocol.execute, Calibration.beginTare, Calibration.isCalibrated, hmapping]
        rfl
      · exact .done (by decide) ⟨rfl, rfl, rfl, rfl, rfl⟩ rfl
  | startMeasurement =>
    apply dispatch_done (t := (Protocol.startStream (board medium clock).clock s).2) rfl
    rw [startStream_run]
    split
    next => exact .done (by decide) ⟨rfl, rfl, rfl, rfl, rfl⟩ rfl
    next => exact .done (by decide) ⟨rfl, rfl, rfl, rfl, rfl⟩ rfl
  | stopMeasurement =>
    apply dispatch_done (t := (Protocol.stopStream s).2) rfl
    rw [stopStream_run]
    exact .done (by decide) ⟨rfl, rfl, rfl, rfl, rfl⟩ rfl
  | startPeakRfd => exact dispatch_refused (e := .unsupported) rfl (by decide)
  | startPeakRfdSeries => exact dispatch_refused (e := .unsupported) rfl (by decide)
  | addCalibrationPoint reference =>
    cases hlatest : s.chain.filter.latest with
    | none =>
      apply dispatch_refused (e := .calibration .noSample) _ (by decide)
      simp [Protocol.execute, Calibration.addPoint, hlatest, Protocol.ofCalibration,
        Except.mapError]
    | some raw =>
      apply dispatch_done
      · simp [Protocol.execute, Calibration.addPoint, hlatest, Protocol.ofCalibration,
          Except.mapError]
        rfl
      · exact .done (show (0x69 : UInt8) ∉ queryOpcodes by decide) ⟨rfl, rfl, rfl, rfl, rfl⟩ rfl
  | saveCalibration =>
    have hrun : Protocol.execute (board medium clock) .saveCalibration s =
        (Protocol.ofCalibration (Calibration.save (board medium clock).medium s).1,
          (Calibration.save (board medium clock).medium s).2) := rfl
    obtain ⟨e, hsave, he⟩ | ⟨hidle, mapping, hsave⟩ :=
      Calibration.save_cases (board medium clock).medium s
    · rw [hsave] at hrun
      exact dispatch_refused hrun fun h => he (ProtocolError.calibration.inj h)
    · obtain ⟨store, world, hactive | hfailed⟩ := activate_run medium clock s hidle mapping
      · rw [hsave, hactive] at hrun
        exact dispatch_done hrun (.done (by decide) ⟨rfl, rfl, rfl, rfl, rfl⟩ rfl)
      · rw [hsave, hfailed] at hrun
        exact dispatch_failed hrun (.unstored store world)
  | getAppVersion => exact dispatch_queried rfl rfl
  | getErrorInfo => exact dispatch_queried rfl rfl
  | clearErrorInfo =>
    exact dispatch_done rfl (.done (by decide) ⟨rfl, rfl, rfl, rfl, rfl⟩ rfl)
  | shutdown =>
    apply dispatch_done (t := s)
    · simp [Protocol.execute]
    · exact .done (by decide) ⟨rfl, rfl, rfl, rfl, rfl⟩ rfl
  | sampleBattery => exact dispatch_queried rfl rfl
  | getDeviceId => exact dispatch_queried rfl rfl
  | getCalibrationCurve =>
    cases hmapping : s.chain.calibration.mapping with
    | none =>
      apply dispatch_refused (e := .uncalibrated) _ (by decide)
      simp [Protocol.execute, hmapping]
    | some mapping =>
      have hvalue : s.queryValue 0x72 = some (Protocol.curveValue mapping) := by
        rw [queryValue, hmapping]
        rfl
      exact dispatch_queried (by simp [Protocol.execute, hmapping]) hvalue

theorem handle_run (frame : Bytes) : ∃ outcome answers t,
    Protocol.handle (board medium clock) frame s =
      (outcome, (Protocol.poll link (submitAll answers t).2).2) ∧
      Handled s (frame.headD 0) outcome answers t := by
  rw [Protocol.handle, bind_run, getPart_protocol]
  dsimp only
  cases hdecode : Command.decode s.chain.protocol.config.order s.chain.protocol.config.capacity
    frame with
  | error e =>
    have he : e ≠ .calibration .storageFault := by
      rcases Command.decode_error hdecode with ⟨-, rfl⟩ | ⟨-, rfl⟩ <;> decide
    refine ⟨_, _, _, ?_, .refused he⟩
    simp only [bind_run, debug_run, queueError_run, pure_run]
    rfl
  | ok command =>
    have hopcode : frame.headD 0 = command.opcode := by
      rw [List.headD_eq_head?_getD, (Command.controlFrame_of_decode hdecode).head?.1]
      rfl
    obtain ⟨outcome, answers, t, hrun, hhandled⟩ := dispatch_concludes medium clock s command
    refine ⟨outcome, answers, t, ?_, hopcode ▸ hhandled⟩
    simp only [bind_run, debug_run, hrun, pure_run]
    rfl

theorem receive_run (frame : Bytes) : ∃ outcome answers t,
    Protocol.receive (board medium clock) frame s =
      (outcome, (Protocol.poll link (submitAll answers t).2).2) ∧
      Handled s.warned (frame.headD 0) outcome answers t := by
  rw [Protocol.receive, bind_run, show (board medium clock).link = link from rfl,
    warnLowBattery_run]
  exact handle_run medium clock s.warned frame

end Runs

/-- All that submitting, sending and disconnecting have no say in. -/
def apart (s : Core ω) : Core ω := { s.withoutLink with hangUps := 0 }

theorem apart_poll (s : Core ω) : (Protocol.poll link s).2.apart = s.apart := by
  rw [apart, unseen_poll s, apart]

theorem apart_submitAll (answers : List Notification) (s : Core ω) :
    (submitAll answers s).2.apart = s.apart := by
  obtain ⟨q, hqueued, hrun⟩ := submitAll_run answers s
  rw [hrun, hqueued.rest]
  rfl

theorem apart_warned (s : Core ω) : s.warned.apart = s.apart := by
  unfold warned
  split
  next => exact (apart_poll _).trans (apart_submitAll _ s)
  next => rfl

theorem answersTo_congr {s t : Core ω} (h : t.apart = s.apart) (frame : Bytes)
    (outcome : Except ProtocolError Unit) :
    t.answersTo frame outcome = s.answersTo frame outcome := by
  show t.apart.answersTo frame outcome = _
  rw [h]
  rfl

/-- Only a failure is answered with an error. -/
theorem errors_answersTo (s : Core ω) (frame : Bytes) (outcome : Except ProtocolError Unit) :
    (s.answersTo frame outcome).filter (·.isError) =
      match outcome with
      | .ok () => []
      | .error e => [.error (frame.headD 0) e.code] := by
  cases outcome with
  | error e => rfl
  | ok =>
    rw [answersTo]
    cases s.queryValue (frame.headD 0) <;> rfl

theorem queryValue_eq_none {s : Core ω} {opcode : UInt8} (h : opcode ∉ queryOpcodes) :
    s.queryValue opcode = none := by
  simp only [queryOpcodes, List.mem_cons, List.not_mem_nil, or_false, not_or] at h
  simp [queryValue, h]

theorem Unharmed.of_apart {s t : Core ω} (h : t.apart = s.apart) : s.Unharmed t where
  stream := congrArg (·.chain.protocol.stream) h
  origin := congrArg (·.chain.protocol.origin) h
  batteryMillivolts := congrArg (·.chain.protocol.batteryMillivolts) h
  batteryLow := congrArg (·.chain.protocol.batteryLow) h
  config := congrArg (·.chain.protocol.config) h
  filter := congrArg (·.chain.filter) h
  calibration := congrArg (·.chain.calibration) h

theorem Unharmed.trans {s t u : Core ω} (h : s.Unharmed t) (h' : t.Unharmed u) :
    s.Unharmed u where
  stream := h'.stream.trans h.stream
  origin := h'.origin.trans h.origin
  batteryMillivolts := h'.batteryMillivolts.trans h.batteryMillivolts
  batteryLow := h'.batteryLow.trans h.batteryLow
  config := h'.config.trans h.config
  filter := h'.filter.trans h.filter
  calibration := h'.calibration.trans h.calibration

namespace Handled

variable {s t : Core ω} {frame : Bytes} {outcome : Except ProtocolError Unit}
  {answers : List Notification}

theorem unanswered {opcode : UInt8} (h : Handled s opcode outcome answers t) :
    Unanswered s t := by
  cases h with
  | refused _ => exact ⟨rfl, rfl, rfl, rfl, rfl⟩
  | unstored _ _ => exact ⟨rfl, rfl, rfl, rfl, rfl⟩
  | queried _ => exact ⟨rfl, rfl, rfl, rfl, rfl⟩
  | done _ hsame _ => exact hsame

/-- The outcome tells what the answers are. -/
theorem answers_eq (h : Handled s (frame.headD 0) outcome answers t) :
    answers = s.answersTo frame outcome := by
  cases h with
  | refused _ => rfl
  | unstored _ _ => rfl
  | queried hvalue => rw [answersTo, hvalue]; rfl
  | done hopcode _ _ => rw [answersTo, queryValue_eq_none hopcode]; rfl

/-- A success is answered with a value if one was asked for. -/
theorem answers_of_ok {opcode : UInt8} (h : Handled s opcode (.ok ()) answers t) :
    (if opcode ∈ queryOpcodes then ∃ value, answers = [.response value] else answers = []) ∧
      t.chain.protocol.errorInfo = if opcode = 0x6D then "" else s.chain.protocol.errorInfo := by
  cases h with
  | @queried value hvalue =>
    have hopcode : opcode ∈ queryOpcodes := by
      by_contra hother
      rw [queryValue_eq_none hother] at hvalue
      cases hvalue
    have hkept : opcode ≠ 0x6D := by
      rintro rfl
      exact absurd hopcode (by decide)
    rw [if_pos hopcode, if_neg hkept]
    exact ⟨⟨value, rfl⟩, rfl⟩
  | done hopcode _ hinfo =>
    rw [if_neg hopcode]
    exact ⟨rfl, hinfo⟩

/-- A failure leaves its name in the error info and all else as it was. -/
theorem of_error {opcode : UInt8} {e : ProtocolError} (h : Handled s opcode (.error e) answers t) :
    t.chain.protocol.errorInfo = e.name ∧ Unharmed s t ∧
      (e ≠ .calibration .storageFault →
        t.world = s.world ∧ t.chain.store = s.chain.store) := by
  cases h with
  | refused _ => exact ⟨rfl, ⟨rfl, rfl, rfl, rfl, rfl, rfl, rfl⟩, fun _ => ⟨rfl, rfl⟩⟩
  | unstored _ _ =>
    exact ⟨rfl, ⟨rfl, rfl, rfl, rfl, rfl, rfl, rfl⟩, fun hother => absurd rfl hother⟩

end Handled

/-- After the warning, a frame submits just the answers that its outcome calls for: they go to the end
of the queue as far as it has room, each other one is counted as dropped, and then what waits is sent.
The outcome is an error exactly if that error is the one it is answered with and the one the error
info names, and a success exactly if it is answered with no error. A success answers the opcodes that
ask for a value, and only those, with one; opcode 0x6D alone clears the error info. A failure does no
harm, and to the store only if it is the store that failed. -/
theorem answered_as_reported (medium : Medium ω) (clock : StateM ω UInt32) (s : Core ω)
    (frame : Bytes) :
    let done := Protocol.receive (board medium clock) frame s
    let answers := s.answersTo frame done.1
    let info := done.2.chain.protocol.errorInfo
    (∃ t, s.warned.Unanswered t ∧ t.Answered answers done.2) ∧
      (∀ e, done.1 = .error e ↔
        answers.filter (·.isError) = [.error (frame.headD 0) e.code] ∧ info = e.name) ∧
      (done.1 = .ok () ↔ answers.filter (·.isError) = []) ∧
      (done.1 = .ok () →
        (if frame.headD 0 ∈ queryOpcodes then ∃ value, answers = [.response value]
          else answers = []) ∧
        info = if frame.headD 0 = 0x6D then "" else s.chain.protocol.errorInfo) ∧
      ∀ e, done.1 = .error e → s.Unharmed done.2 ∧
        (e ≠ .calibration .storageFault →
          done.2.world = s.world ∧ done.2.chain.store = s.chain.store) := by
  obtain ⟨outcome, answers, t, hrun, hhandled⟩ := receive_run medium clock s frame
  have hwarned := s.apart_warned
  have hafter : (Protocol.poll link (submitAll answers t).2).2.apart = t.apart :=
    (apart_poll _).trans (apart_submitAll answers t)
  have hinfo : (Protocol.poll link (submitAll answers t).2).2.chain.protocol.errorInfo =
      t.chain.protocol.errorInfo := congrArg (·.chain.protocol.errorInfo) hafter
  have hanswers : answers = s.answersTo frame outcome :=
    hhandled.answers_eq.trans (answersTo_congr hwarned frame outcome)
  dsimp only
  rw [hrun]
  dsimp only
  rw [errors_answersTo, ← hanswers, hinfo]
  refine ⟨⟨t, hhandled.unanswered, answered_poll answers t⟩, ?_⟩
  cases outcome with
  | ok =>
    obtain ⟨hvalues, hcleared⟩ := hhandled.answers_of_ok
    rw [show s.warned.chain.protocol.errorInfo = _ from
      congrArg (·.chain.protocol.errorInfo) hwarned] at hcleared
    exact ⟨by simp, by simp, fun _ => ⟨hvalues, hcleared⟩, by simp⟩
  | error e =>
    obtain ⟨hname, hunharmed, hkept⟩ := hhandled.of_error
    refine ⟨fun e' => ⟨?_, ?_⟩, by simp, by simp, ?_⟩
    · rintro ⟨⟩
      exact ⟨rfl, hname⟩
    · rintro ⟨hcodes, -⟩
      obtain rfl : e = e' := ProtocolError.code_injective (by simpa using hcodes)
      rfl
    · rintro _ ⟨⟩
      refine ⟨((Unharmed.of_apart hwarned).trans hunharmed).trans (.of_apart hafter), ?_⟩
      intro hother
      obtain ⟨hworld, hstore⟩ := hkept hother
      have hbefore : s.warned.world = s.world := congrArg (·.world) hwarned
      have hbeforeStore : s.warned.chain.store = s.chain.store := congrArg (·.chain.store) hwarned
      exact ⟨(congrArg (·.world) hafter).trans (hworld.trans hbefore),
        (congrArg (·.chain.store) hafter).trans (hstore.trans hbeforeStore)⟩

end Core

end LoadCell
