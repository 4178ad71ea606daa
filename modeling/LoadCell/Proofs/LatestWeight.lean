import LoadCell.Proofs.StreamHistory

/-!
Only the latest weight of an open stream goes out. Whatever calls come and whatever the link says,
an engine follows the history of its stream.
-/
namespace LoadCell

namespace Core

variable {ω : Type}

/-- A call of the engine, or anything that the rest of the chain does in between. -/
inductive Call (ω : Type)
  | receive (frame : Bytes)
  | reject (opcode code : UInt8)
  | publishWeight (weight : Float32) (time : UInt32)
  | poll
  | disconnected
  | setBattery (millivolts : UInt32) (low : Bool)
  | recordError (text : String)
  | setOrder (order : ByteOrder)
  | elsewhere (level : LogLevel) (chain : Chain) (world : ω)

def called (board : Board (Core ω)) (s : Core ω) : Call ω → Core ω
  | .receive frame => (Protocol.receive board frame s).2
  | .reject opcode code => (Protocol.reject board.link opcode code s).2
  | .publishWeight weight time => (Protocol.publishWeight board.link weight time s).2
  | .poll => (Protocol.poll board.link s).2
  | .disconnected => (Protocol.disconnected s).2
  | .setBattery millivolts low => (Protocol.setBattery millivolts low s).2
  | .recordError text => (Protocol.recordError text s).2
  | .setOrder order => (Protocol.setOrder order s).2
  | .elsewhere level chain world =>
    { s with
      level := level
      chain := { chain with protocol := s.chain.protocol }
      world := world }

def calledAll (board : Board (Core ω)) (calls : List (Call ω)) (s : Core ω) : Core ω :=
  calls.foldl (called board) s

/-- What the link was offered between two states. -/
def offersSince (s t : Core ω) : List Happening :=
  (t.offers.drop s.offers.length).map .offered

/-- What a frame means for the stream. -/
def commandIn (board : Board (Core ω)) (frame : Bytes) (s : Core ω) : List Happening :=
  let config := s.chain.protocol.config
  match Command.decode config.order config.capacity frame with
  | .ok .startMeasurement => [.started (board.clock s).1]
  | .ok .stopMeasurement => [.stopped]
  | _ => []

/-- What happens to the stream in a call. A frame that meets a low battery is handled only after
the warning was sent. -/
def happenings (board : Board (Core ω)) (s : Core ω) : Call ω → List Happening
  | .receive frame =>
    let warned := (Protocol.warnLowBattery board.link s).2
    let handled := (Protocol.handle board frame warned).2
    s.offersSince warned ++ (commandIn board frame warned ++ warned.offersSince handled)
  | .publishWeight weight time =>
    .published weight time :: s.offersSince (s.called board (.publishWeight weight time))
  | .disconnected => .hungUp :: s.offersSince (s.called board .disconnected)
  | call => s.offersSince (s.called board call)

def history (board : Board (Core ω)) : List (Call ω) → Core ω → List Happening
  | [], _ => []
  | call :: rest, s => s.happenings board call ++ history board rest (s.called board call)

/-- The engine of a state is current, given what happened before it had made some of its offers. -/
def Heard (past : List Happening) (before : List Offer) (s : Core ω) : Prop :=
  ∃ new, s.offers = before ++ new ∧ Current s.chain.protocol (past ++ new.map .offered)

/-- What happened from one state to another, told in full: the engine is current, and the offers
that the link got are those told. -/
structure Told (past : List Happening) (s : Core ω) (new : List Happening) (t : Core ω) : Prop where
  current : Current t.chain.protocol (past ++ new)
  offers : t.offers = s.offers ++ new.filterMap (·.offer?)

section Heard

variable {past : List Happening} {before : List Offer}

theorem Told.trans {new further : List Happening} {s t u : Core ω} (h : Told past s new t)
    (h' : Told (past ++ new) t further u) : Told past s (new ++ further) u where
  current := by
    rw [← List.append_assoc]
    exact h'.current
  offers := by rw [h'.offers, h.offers, List.filterMap_append, List.append_assoc]

theorem Heard.told {marks : List Happening} {s t : Core ω}
    (h : t.Heard (past ++ marks) s.offers) (hmarks : marks.filterMap (·.offer?) = []) :
    Told past s (marks ++ s.offersSince t) t := by
  obtain ⟨new, hnew, hcurrent⟩ := h
  have hsince : s.offersSince t = new.map .offered := by rw [offersSince, hnew, List.drop_left]
  have hall : (new.map Happening.offered).filterMap (·.offer?) = new := by
    simp [List.filterMap_map, Happening.offer?]
  constructor
  · rw [hsince, ← List.append_assoc]
    exact hcurrent
  · rw [List.filterMap_append, hmarks, hsince, hall, List.nil_append, hnew]

theorem heard_self {s : Core ω} (h : Current s.chain.protocol past) : s.Heard past s.offers :=
  ⟨[], by simp, by simpa using h⟩

theorem Heard.congr {s t : Core ω} (h : s.Heard past before)
    (hprotocol : t.chain.protocol = s.chain.protocol) (hoffers : t.offers = s.offers) :
    t.Heard past before := by
  obtain ⟨new, hnew, hcurrent⟩ := h
  exact ⟨new, hoffers.trans hnew, hprotocol ▸ hcurrent⟩

theorem Heard.answers {s : Core ω} (h : s.Heard past before) :
    ∀ frame ∈ s.chain.protocol.responses.toList, frame.isWeight = false := by
  obtain ⟨_, _, hcurrent⟩ := h
  exact hcurrent.inStep.answers

/-- A change of the engine that the stream does not see. -/
theorem Heard.withProtocol {s : Core ω} (h : s.Heard past before) {p : Protocol}
    (hp : ∀ t, InStep s.chain.protocol t → InStep p t) : (s.withProtocol p).Heard past before := by
  obtain ⟨new, hnew, hcurrent⟩ := h
  exact ⟨new, hnew, hcurrent.offered, hp _ hcurrent.inStep⟩

/-- A frame is offered. A weight must be the one that waits. -/
theorem Heard.offer {s : Core ω} (h : s.Heard past before) {frame : Notification}
    (hframe : frame.isWeight = true → s.chain.protocol.weightPending = true ∧
      frame = s.chain.protocol.weight) {p : Protocol}
    (hp : ∀ t, InStep s.chain.protocol t → InStep p (t.add (.offered ⟨frame, s.reply⟩))) :
    ((s.offer frame).withProtocol p).Heard past before := by
  obtain ⟨new, hnew, hcurrent⟩ := h
  refine ⟨new ++ [⟨frame, s.reply⟩], ?_, ?_⟩
  · rw [← List.append_assoc, ← hnew]
    rfl
  · rw [List.map_append, ← List.append_assoc]
    apply hcurrent.concat _ (hp _ hcurrent.inStep)
    rintro _ ⟨rfl⟩ hweight
    obtain ⟨hpending, heq⟩ := hframe hweight
    rw [hcurrent.inStep.latest hpending, ← heq]

theorem Heard.offerAnswer {s : Core ω} (h : s.Heard past before) {frame : Notification}
    (hframe : frame.isWeight = false) : (s.offer frame).Heard past before := by
  have hnone : Offer.weight? ⟨frame, s.reply⟩ = none := by simp [Offer.weight?, hframe]
  exact h.offer (by simp [hframe]) (p := s.chain.protocol) fun t ht => ht.offered hnone

theorem keeps_edit {f : Protocol → Protocol}
    (hf : ∀ p t, InStep p t → InStep (f p) t) :
    Keeps (Heard past before : Core ω → Prop) (Protocol.edit f) :=
  fun _ h => h.withProtocol (hf _)

theorem keeps_queueResponse {frame : Notification} (hframe : frame.isWeight = false) :
    Keeps (Heard past before : Core ω → Prop) (Protocol.queueResponse frame) := by
  refine Protocol.keeps_queueResponse (fun _ _ h => h) (fun s h responses hpush => ?_)
    (keeps_edit fun _ _ ht => ht.congr rfl rfl (⟨·, rfl⟩) ht.answers)
  refine h.withProtocol (p := { s.chain.protocol with responses := responses }) fun t ht => ?_
  refine ht.congr rfl rfl (⟨·, rfl⟩) ?_
  rw [(BoundedQueue.toList_of_push? hpush).2]
  exact List.forall_mem_append.2 ⟨ht.answers, List.forall_mem_singleton.2 hframe⟩

theorem Heard.submitAnswer {s : Core ω} (h : s.Heard past before) {frame : Notification}
    (hpeek : s.chain.protocol.responses.peek? = some frame) :
    (Protocol.submit link (pure frame) s).2.Heard past before := by
  rw [BoundedQueue.peek?_eq_head?] at hpeek
  have hoffered := h.offerAnswer (h.answers frame (List.mem_of_head? hpeek))
  rw [submit_run s (pure frame) fun _ => rfl, pure_run]
  dsimp only
  split
  next => exact hoffered.withProtocol fun t ht => ht.congr rfl rfl (⟨·, rfl⟩) ht.answers
  next => exact hoffered

theorem keeps_dropOldest :
    Keeps (Heard past before : Core ω → Prop) (Protocol.edit Protocol.dropOldestResponse) := by
  apply keeps_edit
  intro p t ht
  obtain ⟨responses, hdrop, htail⟩ := p.dropOldestResponse_eq
  rw [hdrop]
  refine ht.congr rfl rfl (⟨·, rfl⟩) fun frame hframe => ?_
  exact ht.answers frame (List.mem_of_mem_tail (htail ▸ hframe))

theorem keeps_sendWeight :
    Keeps (Heard past before : Core ω → Prop) (Protocol.sendWeight link) := by
  intro s h
  cases hpending : s.chain.protocol.weightPending with
  | false =>
    rw [Protocol.sendWeight, bind_run, getPart_protocol]
    simp only [hpending]
    exact h
  | true =>
    rw [sendWeight_run s hpending]
    have hframe : s.chain.protocol.weight.isWeight = true →
        s.chain.protocol.weightPending = true ∧ s.chain.protocol.weight = s.chain.protocol.weight :=
      fun _ => ⟨hpending, rfl⟩
    cases hreply : s.reply with
    | busy =>
      apply h.offer hframe (p := s.chain.protocol)
      intro t ht
      exact ht.offered (by simp [Offer.weight?, hreply])
    | notConnected =>
      apply h.offer hframe
      intro t ht
      exact ht.gone hpending _ rfl rfl rfl ht.discardPending.answers
    | ok =>
      apply h.offer hframe
      intro t ht
      exact ht.gone hpending _ rfl rfl rfl ht.answers

theorem keeps_poll : Keeps (Heard past before : Core ω → Prop) (Protocol.poll link) := by
  refine Protocol.keeps_poll (Protocol.keeps_drainResponses ?_ ?_ keeps_dropOldest _)
    keeps_sendWeight
  · exact fun s h frame hpeek => h.submitAnswer hpeek
  · exact keeps_edit fun p t ht => ht.discardPending

end Heard

section Engine

variable {past : List Happening} {before : List Offer} (medium : Medium ω) (clock : StateM ω UInt32)

theorem keeps_of_same {α : Type} {x : StateM (Core ω) α}
    (hprotocol : ∀ s, (x s).2.chain.protocol = s.chain.protocol)
    (hoffers : ∀ s, (x s).2.offers = s.offers) :
    Keeps (Heard past before : Core ω → Prop) x :=
  fun s h => h.congr (hprotocol s) (hoffers s)

theorem logKeeps_heard : LogKeeps (Heard past before : Core ω → Prop) := fun _ _ h => h

/-- An answer or an error text is nothing that the stream sees. -/
theorem answers_heard : Protocol.Answers fun s t : Core ω => s = t ∧ s.Heard past before := by
  apply Protocol.Answers.of_keeps logKeeps_heard fun _ h => keeps_queueResponse h.isWeight
  intro text _
  apply keeps_edit
  intro p t ht
  exact ht.congr rfl rfl (⟨·, rfl⟩) ht.answers

theorem serves_heard : Protocol.Serves (board medium clock) (board medium clock)
    fun s t => s = t ∧ s.Heard past before := by
  have hworld {α : Type} (x : StateM ω α) : Keeps (Heard past before) (inWorld x) :=
    keeps_of_same (fun _ => rfl) fun _ => rfl
  exact .of_keeps answers_heard (fun _ _ h => h.congr rfl rfl) (fun _ _ h => h.congr rfl rfl)
    (medium.keeping_within hworld)

/-- A start command opens a stream or leaves the open one. -/
theorem current_startStream {s : Core ω} (h : Current s.chain.protocol past) :
    Current (Protocol.startStream (board medium clock).clock s).2.chain.protocol
        (past ++ [.started ((board medium clock).clock s).1]) ∧
      (Protocol.startStream (board medium clock).clock s).2.offers = s.offers := by
  rw [startStream_run]
  split
  next hidle => exact ⟨h.mark rfl (h.inStep.started hidle _), rfl⟩
  next hbusy =>
    have hopen : s.chain.protocol.stream = .streaming := by
      cases hstream : s.chain.protocol.stream with
      | idle => exact absurd hstream hbusy
      | streaming => rfl
    exact ⟨h.mark rfl (h.inStep.restarted hopen _), rfl⟩

theorem current_stopStream {s : Core ω} (h : Current s.chain.protocol past) :
    Current (Protocol.stopStream s).2.chain.protocol (past ++ [.stopped]) ∧
      (Protocol.stopStream s).2.offers = s.offers := by
  rw [stopStream_run]
  exact ⟨h.mark rfl (h.inStep.closed rfl rfl h.inStep.answers), rfl⟩

theorem heard_of_current {s : Core ω} (h : Current s.chain.protocol past ∧ s.offers = before) :
    s.Heard past before :=
  h.2 ▸ heard_self h.1

/-- A frame that is handled keeps the engine current, with what its command means for the stream. -/
theorem heard_handle (frame : Bytes) {s : Core ω} (h : Current s.chain.protocol past) :
    (Protocol.handle (board medium clock) frame s).2.Heard
      (past ++ commandIn (board medium clock) frame s) s.offers := by
  have hserves : Protocol.Serves (board medium clock) (board medium clock)
      fun t u => t = u ∧ t.Heard past s.offers := serves_heard medium clock
  have hother (command : Command) (hstart : command ≠ .startMeasurement)
      (hstop : command ≠ .stopMeasurement) :
      (Protocol.dispatch (board medium clock) command s).2.Heard past s.offers :=
    Keeps.of_alike (hserves.dispatch command (absurd · hstart) (absurd · hstop)) s (heard_self h)
  rw [Protocol.handle, bind_run, getPart_protocol, commandIn]
  dsimp only
  cases Command.decode s.chain.protocol.config.order s.chain.protocol.config.capacity frame with
  | error e =>
    rw [List.append_nil]
    refine Keeps.bind (logKeeps_heard.debug _ _) (fun _ => ?_) s (heard_self h)
    exact .bind (.of_alike (hserves.queueError _ _)) fun _ => .bind keeps_poll fun _ => .pure _
  | ok command =>
    simp only [bind_run, debug_run, pure_run]
    apply keeps_poll
    cases command with
    | startMeasurement => exact heard_of_current (current_startStream medium clock h)
    | stopMeasurement => exact heard_of_current (current_stopStream h)
    | _ =>
      rw [List.append_nil]
      exact hother _ (by simp) (by simp)

theorem keeps_warnLowBattery :
    Keeps (Heard past before : Core ω → Prop) (Protocol.warnLowBattery link) := by
  apply Keeps.of_alike
  apply answers_heard.warnLowBattery keeps_poll.alike
  exact (keeps_of_same (fun _ => rfl) fun _ => rfl).alike

/-- A weight that is published becomes the latest one of an open stream, and is ignored without. -/
theorem heard_publishWeight (weight : Float32) (time : UInt32) {s : Core ω}
    (h : Current s.chain.protocol past) :
    (Protocol.publishWeight link weight time s).2.Heard (past ++ [.published weight time])
      s.offers := by
  rw [Protocol.publishWeight, bind_run, getPart_protocol]
  split
  next hopen =>
    rw [bind_run, edit_run]
    apply keeps_poll
    apply heard_of_current
    exact ⟨h.mark rfl (h.inStep.published (of_decide_eq_true hopen) weight time), rfl⟩
  next hclosed =>
    apply heard_of_current
    have hidle : s.chain.protocol.stream ≠ .streaming := fun h => hclosed (decide_eq_true h)
    exact ⟨h.mark rfl (h.inStep.ignored hidle weight time), rfl⟩

theorem heard_disconnected {s : Core ω} (h : Current s.chain.protocol past) :
    (Protocol.disconnected s).2.Heard (past ++ [.hungUp]) s.offers := by
  apply heard_of_current
  rw [disconnected_run]
  exact ⟨h.mark rfl (h.inStep.closed rfl rfl (by simp [Protocol.discardPending])), rfl⟩

theorem keeps_setBattery (millivolts : UInt32) (low : Bool) :
    Keeps (Heard past before : Core ω → Prop) (Protocol.setBattery millivolts low) :=
  Protocol.keeps_setBattery logKeeps_heard
    (keeps_edit fun _ _ ht => ht.congr rfl rfl (⟨·, rfl⟩) ht.answers)

theorem offers_commandIn (frame : Bytes) (s : Core ω) :
    (commandIn (board medium clock) frame s).filterMap (·.offer?) = [] := by
  unfold commandIn
  dsimp only
  split
  next => rfl
  next => rfl
  next => rfl

theorem told_called {s : Core ω} (h : Current s.chain.protocol past) (call : Call ω) :
    Told past s (s.happenings (board medium clock) call) (s.called (board medium clock) call) := by
  have hkept {x : StateM (Core ω) Unit} (hx : Keeps (Heard past s.offers) x) :
      Told past s (s.offersSince (x s).2) (x s).2 := by
    have hheard := hx s (heard_self h)
    rw [← List.append_nil past] at hheard
    exact hheard.told rfl
  cases call with
  | receive frame =>
    have hwarned := hkept keeps_warnLowBattery
    exact hwarned.trans ((heard_handle medium clock frame hwarned.current).told
      (offers_commandIn medium clock frame _))
  | reject opcode code =>
    exact hkept (.of_alike (answers_heard.reject keeps_poll.alike (keeps_queueResponse rfl).alike))
  | publishWeight weight time => exact (heard_publishWeight weight time h).told rfl
  | poll => exact hkept keeps_poll
  | disconnected => exact (heard_disconnected h).told rfl
  | setBattery millivolts low => exact hkept (keeps_setBattery millivolts low)
  | recordError text => exact hkept (.of_alike (answers_heard.recordError text))
  | setOrder order =>
    exact hkept (keeps_edit fun p t ht => ht.congr rfl rfl (⟨·, rfl⟩) ht.answers)
  | elsewhere level chain world =>
    exact hkept (x := modify fun s => s.called (board medium clock) (.elsewhere level chain world))
      (keeps_of_same (fun _ => rfl) fun _ => rfl)

theorem told_calledAll (calls : List (Call ω)) {s : Core ω} (h : Current s.chain.protocol past) :
    Told past s (history (board medium clock) calls s)
      (calledAll (board medium clock) calls s) := by
  induction calls generalizing s past with
  | nil => exact ⟨(List.append_nil past).symm ▸ h, (List.append_nil _).symm⟩
  | cons call rest ih =>
    have hfirst := told_called medium clock h call
    exact hfirst.trans (ih hfirst.current)

/-- After any calls and whatever the link said, the history has all that the link was offered, and
the engine follows it: only the latest weight of the stream that was open has been offered, none
delivered twice or out of order. -/
theorem follows_of_calls (s : Core ω) (config : ProtocolConfig) (calls : List (Call ω)) :
    let new := s.withProtocol { config := config }
    let past := history (board medium clock) calls new
    let t := calledAll (board medium clock) calls new
    Follows t.chain.protocol past ∧ t.offers = s.offers ++ past.filterMap (·.offer?) := by
  have hnew : Current (s.withProtocol { config := config }).chain.protocol [] := current_nil config
  have htold := told_calledAll medium clock calls hnew
  exact ⟨htold.current.follows, htold.offers⟩

end Engine

end Core

end LoadCell
