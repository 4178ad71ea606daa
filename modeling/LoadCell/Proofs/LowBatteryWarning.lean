import LoadCell.Proofs.FrameAnswers

/-!
The warning of a low battery. Every write that is decoded is met with the warning, ahead of its
answer, and with the end of the connection; a write that is too long is answered without either.
Apart from what is submitted and sent, the flag makes no difference to what a write does.
-/
namespace LoadCell

namespace Core

variable {ω : Type}

/-- The same state with the battery well. -/
def charged (s : Core ω) : Core ω :=
  s.withProtocol { s.chain.protocol with batteryLow := false }

/-- All that neither submitting, sending and disconnecting nor the battery flag have a say in. -/
def beneath (s : Core ω) : Core ω :=
  { s with
    chain := { s.chain with protocol := { s.chain.protocol.unlinked with batteryLow := false } }
    script := fun _ => .ok
    offers := []
    hangUps := 0 }

def SameBeneath (s t : Core ω) : Prop := s.beneath = t.beneath

namespace SameBeneath

variable {s t : Core ω}

theorem of_withoutLink (h : t.withoutLink = s.withoutLink) : t.beneath = s.beneath :=
  (congrArg beneath h :)

theorem of_apart (h : t.apart = s.apart) : t.beneath = s.beneath :=
  (congrArg beneath h :)

/-- A change that goes by what is beneath keeps states the same there. -/
theorem map (h : s.SameBeneath t) {f : Core ω → Core ω}
    (hf : ∀ u, (f u).beneath = (f u.beneath).beneath) : (f s).SameBeneath (f t) :=
  map_under h hf

theorem stream_eq (h : s.SameBeneath t) :
    s.chain.protocol.stream = t.chain.protocol.stream :=
  (congrArg (·.chain.protocol.stream) h :)

end SameBeneath

section Alike

theorem alike_of_beneath {x : StateM (Core ω) Unit} (hx : ∀ s, (x s).2.beneath = s.beneath) :
    Alike SameBeneath x x :=
  fun s t h => ⟨rfl, (hx s).trans (Eq.trans h (hx t).symm)⟩

theorem poll_beneath : Alike (SameBeneath : Core ω → Core ω → Prop) (Protocol.poll link)
    (Protocol.poll link) :=
  alike_of_beneath fun s => SameBeneath.of_withoutLink (unseen_poll s)

theorem queueResponse_beneath (frame : Notification) :
    Alike (SameBeneath : Core ω → Core ω → Prop) (Protocol.queueResponse frame)
      (Protocol.queueResponse frame) :=
  alike_of_beneath fun s => SameBeneath.of_withoutLink (unseen_queueResponse frame s)

theorem inWorld_beneath {α : Type} (x : StateM ω α) :
    Alike (SameBeneath : Core ω → Core ω → Prop) (inWorld x) (inWorld x) :=
  inWorld_under beneath (fun _ => rfl) (fun _ _ => rfl) x

variable (medium : Medium ω) (clock : StateM ω UInt32)

theorem obeys_beneath : Protocol.Obeys (board medium clock) (board medium clock) SameBeneath where
  log :=
    { level := fun _ _ h => (congrArg (·.level) h :)
      write := fun _ => .pure _ }
  asked _ _ h := (congrArg (·.chain.protocol.asked) h :)
  submit frame _ := queueResponse_beneath frame
  note text _ := fun _ _ h => ⟨rfl, h.map
    (f := fun u => u.withProtocol { u.chain.protocol with errorInfo := text }) fun _ => rfl⟩
  calibration := shares_under (fun _ => rfl) fun _ _ => rfl
  store := shares_under (fun _ => rfl) fun _ _ => rfl
  filter _ _ h := (congrArg (·.chain.filter) h :)
  medium := medium.alike_within inWorld_beneath

theorem startStream_beneath : Alike SameBeneath (Protocol.startStream (board medium clock).clock)
    (Protocol.startStream (board medium clock).clock) := by
  intro s t h
  refine ⟨rfl, ?_⟩
  rw [startStream_run, startStream_run, h.stream_eq]
  split
  next => exact h.map (f := fun u => { u with world := (clock u.world).2 }.withProtocol
      { u.chain.protocol with
        stream := .streaming
        origin := (clock u.world).1
        weightPending := false }) fun _ => rfl
  next => exact h

theorem stopStream_beneath : Alike (SameBeneath : Core ω → Core ω → Prop) Protocol.stopStream
    Protocol.stopStream := by
  intro s t h
  refine ⟨rfl, ?_⟩
  rw [stopStream_run, stopStream_run]
  exact h.map (f := fun u => u.withProtocol
    { u.chain.protocol with stream := .idle, weightPending := false }) fun _ => rfl

theorem disconnected_beneath : Alike (SameBeneath : Core ω → Core ω → Prop) Protocol.disconnected
    Protocol.disconnected := by
  intro s t h
  refine ⟨rfl, ?_⟩
  rw [disconnected_run, disconnected_run]
  exact h.map (f := fun u => u.withProtocol
    (Protocol.discardPending { u.chain.protocol with stream := .idle })) fun _ => rfl

theorem handle_beneath (frame : Bytes) : Alike SameBeneath
    (Protocol.handle (board medium clock) frame) (Protocol.handle (board medium clock) frame) :=
  (obeys_beneath medium clock).handle poll_beneath frame (startStream_beneath medium clock)
    stopStream_beneath

theorem receive_beneath (frame : Bytes) : Alike SameBeneath
    (Protocol.receive (board medium clock) frame)
    (Protocol.receive (board medium clock) frame) := by
  refine .bind (alike_of_beneath fun s => ?_) fun _ => handle_beneath medium clock frame
  show (Protocol.warnLowBattery link s).2.beneath = _
  rw [warnLowBattery_run]
  exact SameBeneath.of_apart s.apart_warned

theorem reject_beneath (opcode code : UInt8) : Alike SameBeneath
    (Protocol.reject (board medium clock).link opcode code)
    (Protocol.reject (board medium clock).link opcode code) :=
  (obeys_beneath medium clock).reject poll_beneath (queueResponse_beneath _)

theorem engine_beneath : (Protocol.handler (board medium clock)).Alike
    (Protocol.handler (board medium clock)) SameBeneath where
  disconnected := disconnected_beneath
  receive := receive_beneath medium clock
  reject opcode e := reject_beneath medium clock opcode e.code
  pause := .pure _

theorem handler_beneath :
    (handler (board medium clock)).Alike (handler (board medium clock)) SameBeneath where
  disconnected := disconnected_beneath
  receive frame := by
    apply Alike.bind (receive_beneath medium clock frame)
    intro outcome
    refine .bind (fun s t h => ⟨rfl, ?_⟩) fun _ => .pure _
    exact h.map (f := fun u => { u with outcomes := u.outcomes ++ [outcome] }) fun _ => rfl
  reject opcode e := reject_beneath medium clock opcode e.code
  pause s t h := ⟨rfl, h.map (f := letIn) fun _ => rfl⟩

end Alike

/-- What a low battery is told by: the flag, the requests to disconnect, and the frames received. -/
structure Warnings where
  low : Bool
  hangUps : ℕ
  outcomes : List (Except ProtocolError Unit)

def warnings (s : Core ω) : Warnings where
  low := s.chain.protocol.batteryLow
  hangUps := s.hangUps
  outcomes := s.outcomes

/-- The flag is set, and every frame since then was met with a request to disconnect. -/
structure Warnings.Met (before now : Warnings) : Prop where
  low : now.low = true
  hangUps : now.hangUps + before.outcomes.length = before.hangUps + now.outcomes.length

section Warned

variable {a before : Warnings}

theorem Unseen.warnings {α : Type} {x : StateM (Core ω) α} (hx : Unseen x) (s : Core ω) :
    (x s).2.warnings = s.warnings :=
  (congrArg Core.warnings (hx s) :)

theorem Unseen.keeps {α : Type} {x : StateM (Core ω) α} (hx : Unseen x) :
    Keeps (·.warnings = a) x :=
  fun s h => (hx.warnings s).trans h

variable (medium : Medium ω) (clock : StateM ω UInt32)

theorem serves_warnings : Protocol.Serves (board medium clock) (board medium clock)
    fun s t => s = t ∧ s.warnings = a := by
  have hlog : LogKeeps fun s : Core ω => s.warnings = a := fun _ => .pure _
  have hworld {α : Type} (x : StateM ω α) : Keeps (·.warnings = a) (inWorld x) := fun _ h => h
  have hanswers : Protocol.Answers fun s t : Core ω => s = t ∧ s.warnings = a :=
    .of_keeps hlog (fun frame _ => (unseen_queueResponse frame).keeps) fun _ _ _ h => h
  exact .of_keeps hanswers (fun _ _ h => h) (fun _ _ h => h) (medium.keeping_within hworld)

/-- Carrying a frame out neither touches the flag nor asks to disconnect. -/
theorem warnings_handle (frame : Bytes) (s : Core ω) :
    (Protocol.handle (board medium clock) frame s).2.warnings = s.warnings := by
  have hstart : Keeps (·.warnings = s.warnings)
      (Protocol.startStream (board medium clock).clock) := by
    intro t h
    rw [startStream_run]
    split
    next => exact h
    next => exact h
  have hstop : Keeps (·.warnings = s.warnings) (Protocol.stopStream : StateM (Core ω) Unit) := by
    intro t h
    rw [stopStream_run]
    exact h
  exact Keeps.of_alike ((serves_warnings medium clock).toObeys.handle unseen_poll.keeps.alike frame
    hstart.alike hstop.alike) s rfl

/-- A low battery asks to disconnect once for a frame. -/
theorem warnings_warned (s : Core ω) (hlow : s.chain.protocol.batteryLow = true) :
    s.warned.warnings = { s.warnings with hangUps := s.hangUps + 1 } := by
  have hsent : (Protocol.poll link (submitAll [.lowPower] s).2).2.warnings = s.warnings :=
    (unseen_poll.warnings _).trans ((unseen_queueResponse _).warnings s)
  rw [warned, if_pos hlow]
  exact congrArg (fun u : Warnings => { u with hangUps := u.hangUps + 1 }) hsent

theorem reject_run (opcode : UInt8) (e : ProtocolError) (s : Core ω) :
    (Protocol.reject (board medium clock).link opcode e.code s).2 =
      (Protocol.poll link (submitAll [.error opcode e.code] (s.noting e)).2).2 := by
  rw [Protocol.reject, bind_run, debug_run, bind_run, queueError_run]
  rfl

theorem warnings_reject (opcode : UInt8) (e : ProtocolError) (s : Core ω) :
    (Protocol.reject (board medium clock).link opcode e.code s).2.warnings = s.warnings := by
  rw [reject_run]
  exact (unseen_poll.warnings _).trans ((unseen_queueResponse _).warnings _)

theorem warnings_receive (frame : Bytes) (s : Core ω) :
    (Protocol.receive (board medium clock) frame s).2.warnings = s.warned.warnings := by
  rw [Protocol.receive, bind_run, show (board medium clock).link = link from rfl,
    warnLowBattery_run]
  exact warnings_handle medium clock frame _

/-- A frame that is received is met with one request to disconnect. -/
theorem keeps_receive_met (frame : Bytes) : Keeps (fun s : Core ω => before.Met s.warnings)
    ((handler (board medium clock)).receive frame) := by
  intro s h
  have hafter := (warnings_receive medium clock frame s).trans (warnings_warned s h.low)
  have hlow : (Protocol.receive (board medium clock) frame s).2.warnings.low = true :=
    (congrArg Warnings.low hafter).trans h.low
  have hhangUps : (Protocol.receive (board medium clock) frame s).2.hangUps = s.hangUps + 1 :=
    congrArg Warnings.hangUps hafter
  have houtcomes : (Protocol.receive (board medium clock) frame s).2.outcomes = s.outcomes :=
    congrArg Warnings.outcomes hafter
  have hcount : s.hangUps + before.outcomes.length = before.hangUps + s.outcomes.length := h.hangUps
  refine ⟨hlow, ?_⟩
  show (Protocol.receive (board medium clock) frame s).2.hangUps + _ =
    _ + ((Protocol.receive (board medium clock) frame s).2.outcomes ++ [_]).length
  rw [hhangUps, houtcomes, List.length_append, List.length_singleton]
  omega

/-- Every frame that a dispatch receives is met with one request to disconnect. -/
theorem keeps_dispatch_met :
    Keeps (fun s : Core ω => before.Met s.warnings)
      (Inbox.dispatch (handler (board medium clock))) := by
  have hlog : LogKeeps fun s : Core ω => before.Met s.warnings := fun _ => .pure _
  have hinbox : Ignores (fun s : Core ω => before.Met s.warnings) Inbox := fun _ _ h => h
  have hdisconnected : Keeps (fun s : Core ω => before.Met s.warnings) Protocol.disconnected := by
    intro s h
    rw [disconnected_run]
    exact h
  have hreject (opcode : UInt8) (e : ProtocolError) :
      Keeps (fun s : Core ω => before.Met s.warnings)
        (Protocol.reject (board medium clock).link opcode e.code) := by
    intro s h
    rwa [warnings_reject]
  have hpause : Keeps (fun s : Core ω => before.Met s.warnings) (modify letIn) := fun _ h => h
  exact Inbox.keeps_dispatch hlog hinbox
    { disconnected := hdisconnected
      receive := keeps_receive_met medium clock
      reject := hreject
      pause := hpause }

end Warned

section Writes

variable (medium : Medium ω) (clock : StateM ω UInt32) (s : Core ω)

/-- The state in which a write is answered: only one that is decoded meets with a warning. -/
def metWith (w : ControlWrite) : Core ω := if w.oversize then s else s.warned

/-- What a write is answered with, from what is reported for its frame. -/
def answersToWrite (w : ControlWrite) : List Notification :=
  if w.oversize then [.error w.opcode ProtocolError.malformed.code]
  else s.answersTo w.data (Protocol.receive (board medium clock) w.data s).1

/-- A write reaches the engine by one of two ways. -/
theorem handOver_eq (w : ControlWrite) :
    (Inbox.handOver (Protocol.handler (board medium clock)) w s).2 =
      if w.oversize then
        (Protocol.reject (board medium clock).link w.opcode ProtocolError.malformed.code s).2
      else (Protocol.receive (board medium clock) w.data s).2 := by
  unfold Inbox.handOver
  split
  next => rfl
  next =>
    rw [bind_run, show (Protocol.handler (board medium clock)).receive w.data =
      Protocol.receive (board medium clock) w.data from rfl]
    generalize Protocol.receive (board medium clock) w.data s = done
    cases done.1 with
    | ok => rfl
    | error e => exact congrArg Prod.snd (debug_run _ _ done.2)

/-- The warning of a low battery: put into the queue and sent, and then a request to disconnect. -/
theorem warned_eq (hlow : s.chain.protocol.batteryLow = true) : ∃ sent,
    s.Answered [.lowPower] sent ∧ s.warned = { sent with hangUps := sent.hangUps + 1 } :=
  ⟨_, answered_poll [.lowPower] s, if_pos hlow⟩

/-- A write is met with the warning that is due, then answered, then what waits is sent. -/
theorem handOver_run (w : ControlWrite) : ∃ t, (s.metWith w).Unanswered t ∧
    t.Answered (s.answersToWrite medium clock w)
      (Inbox.handOver (Protocol.handler (board medium clock)) w s).2 := by
  rw [handOver_eq]
  unfold metWith answersToWrite
  split
  next =>
    rw [reject_run]
    exact ⟨s.noting .malformed, ⟨rfl, rfl, rfl, rfl, rfl⟩, answered_poll _ _⟩
  next =>
    obtain ⟨outcome, answers, t, hrun, hhandled⟩ := receive_run medium clock s w.data
    have hanswers : answers = s.answersTo w.data outcome :=
      hhandled.answers_eq.trans (answersTo_congr s.apart_warned w.data outcome)
    rw [hrun, ← hanswers]
    exact ⟨t, hhandled.unanswered, answered_poll _ _⟩

theorem metWith_charged (w : ControlWrite) : s.charged.metWith w = s.charged := by
  have hwell : s.charged.warned = s.charged := rfl
  rw [metWith, hwell, ite_self]

theorem sameBeneath_charged : s.SameBeneath s.charged := rfl

theorem answersToWrite_charged (w : ControlWrite) :
    s.charged.answersToWrite medium clock w = s.answersToWrite medium clock w := by
  obtain ⟨houtcome, -⟩ := receive_beneath medium clock w.data s s.charged s.sameBeneath_charged
  unfold answersToWrite
  rw [← houtcome]
  rfl

theorem warnings_handOver (w : ControlWrite) :
    (Inbox.handOver (Protocol.handler (board medium clock)) w s).2.warnings =
      (s.metWith w).warnings := by
  rw [handOver_eq]
  unfold metWith
  split
  next => exact warnings_reject medium clock _ .malformed s
  next => exact warnings_receive medium clock w.data s

/-- With a low battery, the warning goes to the end of the queue, if there is room, and ends with a
request to disconnect. A write that is decoded is met with it ahead of its answers; a write that is
too long is only answered. Either is answered as it would be with the battery well, the answers going
to the end of the queue as far as it has room, and comes to the same but for what is submitted, sent
and hung up. So does a whole dispatch, which asks to disconnect once for every frame received. -/
theorem low_battery_announced (hlow : s.chain.protocol.batteryLow = true) :
    (∃ sent, s.Answered [.lowPower] sent ∧
      s.warned = { sent with hangUps := sent.hangUps + 1 }) ∧
    (∀ w : ControlWrite,
      let after := (Inbox.handOver (Protocol.handler (board medium clock)) w s).2
      let plain := (Inbox.handOver (Protocol.handler (board medium clock)) w s.charged).2
      let answers := s.answersToWrite medium clock w
      (∃ t, (if w.oversize then s else s.warned).Unanswered t ∧ t.Answered answers after) ∧
      (∃ t, s.charged.Unanswered t ∧ t.Answered answers plain) ∧
      after.SameBeneath plain ∧
      after.hangUps = s.hangUps + if w.oversize then 0 else 1) ∧
    ∀ radio,
      let dispatched (s : Core ω) :=
        (Inbox.dispatch (handler (board medium clock)) { s with radio := radio }).2
      (dispatched s).SameBeneath (dispatched s.charged) ∧
      (dispatched s).hangUps + s.outcomes.length =
        s.hangUps + (dispatched s).outcomes.length := by
  refine ⟨warned_eq s hlow, ?_, ?_⟩
  · intro w
    have hplain := handOver_run medium clock s.charged w
    rw [metWith_charged, answersToWrite_charged] at hplain
    have hlog := (obeys_beneath medium clock).log
    have halike := Inbox.alike_handOver hlog (engine_beneath medium clock) w
    refine ⟨handOver_run medium clock s w, hplain, (halike s _ s.sameBeneath_charged).2, ?_⟩
    have hwarnings := warnings_handOver medium clock s w
    rw [metWith] at hwarnings
    refine (congrArg Warnings.hangUps hwarnings).trans ?_
    split
    next => rfl
    next => exact congrArg Warnings.hangUps (warnings_warned s hlow)
  · intro radio
    have hlog := (obeys_beneath medium clock).log
    have hinbox : Shares (SameBeneath : Core ω → Core ω → Prop) Inbox :=
      shares_under (fun _ => rfl) fun _ _ => rfl
    have hstart : SameBeneath { s with radio := radio } { s.charged with radio := radio } := rfl
    have hmet : s.warnings.Met { s with radio := radio }.warnings := ⟨hlow, rfl⟩
    exact ⟨(Inbox.alike_turn hlog hinbox (handler_beneath medium clock) _ _ _ hstart).2,
      (keeps_dispatch_met medium clock _ hmet).hangUps⟩

end Writes

/-- A chain at rest with a low battery and a link that takes all it is offered. -/
def lowState : Core Unit where
  world := ()
  script := fun _ => .ok
  chain := { protocol := { batteryMillivolts := 3300, batteryLow := true } }

theorem low_battery_announced_query :
    let after := (Inbox.handOver (Protocol.handler (board noFlash (return 0)))
      ⟨[0x6F], false, 0⟩ lowState).2
    lowState.chain.protocol.batteryLow = true ∧ after.hangUps = 1 ∧
      after.offers = [⟨.lowPower, .ok⟩, ⟨.response [0xE4, 0x0C, 0, 0], .ok⟩] := by
  obtain ⟨-, -, -, hhangUps⟩ :=
    (low_battery_announced noFlash (return 0) lowState rfl).2.1 ⟨[0x6F], false, 0⟩
  exact ⟨rfl, hhangUps, by decide +kernel⟩

/-- A write of more than twenty bytes is answered, but met with no warning and no request to
disconnect. -/
theorem long_write_unannounced :
    let write : Bytes := 0x6B :: List.replicate 20 0
    let inbox := (lowState.chain.inbox.write write).2
    let queued : Core Unit := { lowState with chain := { lowState.chain with inbox := inbox } }
    let after := (Chain.dispatch (board noFlash (return 0)) queued).2
    queued.chain.protocol.batteryLow = true ∧
      after.offers = [⟨.error 0x6B ProtocolError.malformed.code, .ok⟩] ∧ after.hangUps = 0 := by
  decide +kernel

end Core

end LoadCell
