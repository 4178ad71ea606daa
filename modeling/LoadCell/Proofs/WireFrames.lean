import LoadCell.Proofs.AlikeProtocol
import LoadCell.Chain

/-!
What goes over the wire. Frames are built in many places and sent much later, so it is kept of
everything that waits that it is sound: then what is sent is well formed, whoever calls the engine
while it waits for its flash, its clock or its transport.
-/
namespace LoadCell

namespace Notification

/-- The codes of the errors that there are. -/
def errorCodes : List UInt8 := [1, 2, 3, 4, 5, 0x11, 0x12, 0x13, 0x14, 0x15]

/-- A value that may follow a code. -/
def Admissible (code : UInt8) (value : Bytes) : Prop :=
  code = 0x00 ∨ (code = 0x01 ∧ value.length = 8) ∨ (code = 0x04 ∧ value = []) ∨
    (code = 0x0F ∧ ∃ opcode, ∃ error ∈ errorCodes, value = [opcode, error])

/-- A code, the length of a value, and an admissible value of that length. -/
def WellFormed (bytes : Bytes) : Prop :=
  ∃ code length value, bytes = code :: length :: value ∧ length.toNat = value.length ∧
    value.length ≤ 12 ∧ Admissible code value

theorem length_value_le (n : Notification) : n.value.length ≤ maxValue := by
  cases n with
  | response value => exact List.length_take_le _ _
  | weight kilograms time => simp [value, maxValue, Bytes.length_ofNat]
  | lowPower => exact Nat.zero_le _
  | error opcode code => simp [value, maxValue]

theorem errorCode_mem (e : ProtocolError) : e.code ∈ errorCodes := by
  cases e with
  | calibration cause => cases cause <;> decide
  | _ => decide

theorem admissible_of_isAnswer {n : Notification} (h : n.IsAnswer) : Admissible n.code n.value := by
  cases n with
  | response value => exact .inl rfl
  | weight => exact h.elim
  | lowPower => exact .inr (.inr (.inl ⟨rfl, rfl⟩))
  | error opcode code =>
    obtain ⟨e, rfl⟩ := h
    exact .inr (.inr (.inr ⟨rfl, opcode, e.code, errorCode_mem e, rfl⟩))

theorem admissible_of_isWeight {n : Notification} (h : n.isWeight = true) :
    Admissible n.code n.value := by
  cases n with
  | weight kilograms time => exact .inr (.inl ⟨rfl, by simp [value, Bytes.length_ofNat]⟩)
  | response => cases h
  | lowPower => cases h
  | error => cases h

/-- The length byte holds the length, since no value is longer than twelve bytes. -/
theorem wellFormed_encode {n : Notification} (h : Admissible n.code n.value) :
    WellFormed n.encode := by
  refine ⟨n.code, UInt8.ofNat n.value.length, n.value, rfl, ?_, n.length_value_le, h⟩
  have hshort : n.value.length ≤ 12 := n.length_value_le
  rw [UInt8.toNat_ofNat', Nat.mod_eq_of_lt (by omega)]

end Notification

/-- A call of the engine or the inbox, or anything that happens to the rest of the chain. -/
inductive Act
  | write (bytes : Bytes)
  | closeConnection
  | dispatch
  | receive (frame : Bytes)
  | disconnected
  | pollPipeline (limit : Nat)
  | publish (weight : Float32) (time : UInt32)
  | poll
  | setBattery (millivolts : UInt32) (low : Bool)
  | recordError (text : String)
  | setOrder (order : ByteOrder)
  | elsewhere (level : LogLevel) (chain : Chain)

/-- What the engine calls, in a world of any kind. -/
structure Outside (ω : Type) where
  medium : Medium ω
  clock : StateM ω UInt32
  answer : Bytes → StateM ω SendResult
  hangUp : StateM ω Unit
  /-- What other code does before the next call returns. -/
  meanwhile : StateM ω (List Act)

/-- The chain, watched from outside. -/
structure Wire (ω : Type) where
  level : LogLevel := .default
  chain : Chain := {}
  world : ω
  /-- What the transport was given. -/
  passed : List Bytes := []
  /-- The error info as it was whenever other code could look at it. -/
  infos : List String := []

namespace Wire

variable {ω : Type} {α : Type}

instance : Holds (Wire ω) LogLevel := ⟨(·.level), fun a s => { s with level := a }⟩
instance : Holds (Wire ω) Chain := ⟨(·.chain), fun a s => { s with chain := a }⟩

instance : Logs (Wire ω) where
  write _ := return ()

/-- How acts of other code are done. -/
abbrev Fire (ω : Type) := List Act → StateM (Wire ω) Unit

def inWorld (x : StateM ω α) : StateM (Wire ω) α :=
  fun s => ((x s.world).1, { s with world := (x s.world).2 })

def look : StateM (Wire ω) Unit :=
  modify fun s => { s with infos := s.infos ++ [s.chain.protocol.errorInfo] }

/-- The transport gets hold of a notification. -/
def pass (lent : StateM (Wire ω) Notification) : StateM (Wire ω) Bytes := do
  let bytes := (← lent).encode
  modify fun s => { s with passed := s.passed ++ [bytes] }
  return bytes

section

variable (outside : Outside ω) (fire : Fire ω)

/-- A call out of the engine. Other code runs before it returns. -/
def callOut (x : StateM ω α) : StateM (Wire ω) α := do
  let answer ← inWorld x
  look
  fire (← inWorld outside.meanwhile)
  return answer

/-- The transport may read the notification when it is called and again before it returns. -/
def link : Link (Wire ω) where
  send lent := do
    let bytes ← pass lent
    let result ← callOut outside fire (outside.answer bytes)
    let _ ← pass lent
    return result
  disconnect := callOut outside fire outside.hangUp

def board : Board (Wire ω) where
  medium := outside.medium.within (callOut outside fire)
  link := link outside fire
  clock := callOut outside fire outside.clock

def handler : Handler (Wire ω) :=
  { Protocol.handler (board outside fire) with pause := callOut outside fire (return ()) }

def perform : Act → StateM (Wire ω) Unit
  | .write bytes => modifyPart fun box : Inbox => (box.write bytes).2
  | .closeConnection => modifyPart Inbox.disconnect
  | .dispatch => Inbox.dispatch (handler outside fire)
  | .receive frame => do
    let _ ← Protocol.receive (board outside fire) frame
  | .disconnected => Protocol.disconnected
  | .pollPipeline limit => do
    let _ ← Pipeline.poll (link outside fire) limit
  | .publish weight time => Protocol.publishWeight (link outside fire) weight time
  | .poll => Protocol.poll (link outside fire)
  | .setBattery millivolts low => Protocol.setBattery millivolts low
  | .recordError text => Protocol.recordError text
  | .setOrder order => Protocol.setOrder order
  | .elsewhere level chain => modify fun s =>
    { s with level := level, chain := { chain with protocol := s.chain.protocol } }

end

/-- Does acts one after the other; calls nest in each other to a depth. -/
def fireTo (outside : Outside ω) : (depth : Nat) → Fire ω
  | 0 => fun _ => return ()
  | depth + 1 => fun acts => acts.forM fun act => do
    perform outside (fireTo outside depth) act
    look

def run (outside : Outside ω) (depth : Nat) (acts : List Act) (s : Wire ω) : Wire ω :=
  (fireTo outside depth acts s).2

end Wire

/-- What the engine holds back can be sent as it is. -/
structure Protocol.Sound (p : Protocol) : Prop where
  responses : ∀ frame ∈ p.responses.toList, frame.IsAnswer
  weight : p.weight.isWeight = true
  errorInfo : p.errorInfo.length ≤ Notification.maxValue

theorem Protocol.Sound.discardPending {p : Protocol} (h : p.Sound) : p.discardPending.Sound :=
  { h with responses := by simp [Protocol.discardPending] }

theorem Protocol.Sound.dropOldestResponse {p : Protocol} (h : p.Sound) :
    p.dropOldestResponse.Sound := by
  obtain ⟨responses, hdrop, htail⟩ := p.dropOldestResponse_eq
  rw [hdrop]
  refine { h with responses := ?_ }
  intro frame hframe
  exact h.responses frame (List.mem_of_mem_tail (htail ▸ hframe))

namespace Wire

/-- Nothing ill-formed waits, and none has been passed on. -/
structure Clean {ω : Type} (s : Wire ω) : Prop where
  engine : s.chain.protocol.Sound
  passed : ∀ bytes ∈ s.passed, Notification.WellFormed bytes
  infos : ∀ text ∈ s.infos, text.length ≤ Notification.maxValue

variable {ω α : Type}

theorem logKeeps_clean : LogKeeps (Clean (ω := ω)) := fun _ _ h => h

theorem keeps_edit {f : Protocol → Protocol} (hf : ∀ p : Protocol, p.Sound → (f p).Sound) :
    Keeps (Clean (ω := ω)) (Protocol.edit f) :=
  fun s h => { h with engine := hf s.chain.protocol h.engine }

theorem keeps_inWorld (x : StateM ω α) : Keeps Clean (inWorld x) := fun _ h => { h with }

theorem keeps_look : Keeps (Clean (ω := ω)) look := by
  intro s h
  refine { h with infos := fun text htext => ?_ }
  rcases List.mem_append.1 htext with hold | hnew
  · exact h.infos text hold
  · exact List.mem_singleton.1 hnew ▸ h.engine.errorInfo

/-- A program that gives a notification that can be sent. -/
def Lends (lent : StateM (Wire ω) Notification) : Prop :=
  Ensures Clean lent fun frame s => Notification.WellFormed frame.encode ∧ s.Clean

theorem Lends.keeps {lent : StateM (Wire ω) Notification} (hlent : Lends lent) :
    Keeps Clean lent :=
  fun s h => (hlent s h).2

theorem keeps_pass {lent : StateM (Wire ω) Notification} (hlent : Lends lent) :
    Keeps Clean (pass lent) := by
  intro s h
  obtain ⟨hframe, hafter⟩ := hlent s h
  refine { hafter with passed := fun bytes hbytes => ?_ }
  rcases List.mem_append.1 hbytes with hold | hnew
  · exact hafter.passed bytes hold
  · exact List.mem_singleton.1 hnew ▸ hframe

theorem lends_answer {frame : Notification} (h : frame.IsAnswer) :
    Lends (pure frame : StateM (Wire ω) Notification) :=
  fun _ hs => ⟨Notification.wellFormed_encode (Notification.admissible_of_isAnswer h), hs⟩

theorem lends_weight : Lends (Protocol.lentWeight : StateM (Wire ω) Notification) :=
  fun _ hs =>
    ⟨Notification.wellFormed_encode (Notification.admissible_of_isWeight hs.engine.weight), hs⟩

/-- A program that goes on with a sound engine. -/
theorem keeps_bind {f : Protocol → StateM (Wire ω) α}
    (hf : ∀ p : Protocol, p.Sound → Keeps Clean (f p)) : Keeps Clean (getPart Protocol >>= f) :=
  fun s h => hf s.chain.protocol h.engine s h

theorem keeps_queueResponse {frame : Notification} (hframe : frame.IsAnswer) :
    Keeps (Clean (ω := ω)) (Protocol.queueResponse frame) := by
  refine Protocol.keeps_queueResponse logKeeps_clean (fun s h responses hpush => ?_)
    (keeps_edit fun _ h => { h with })
  have hanswers : ∀ other ∈ responses.toList, other.IsAnswer := by
    rw [(BoundedQueue.toList_of_push? hpush).2]
    exact List.forall_mem_append.2 ⟨h.engine.responses, List.forall_mem_singleton.2 hframe⟩
  exact { h with engine := { h.engine with responses := hanswers } }

theorem answers_clean : Protocol.Answers fun s t : Wire ω => s = t ∧ s.Clean :=
  .of_keeps logKeeps_clean (fun _ => keeps_queueResponse) fun _ htext =>
    keeps_edit fun _ h => { h with errorInfo := htext }

section Calls

variable {outside : Outside ω} {fire : Fire ω} (hfire : ∀ acts, Keeps Clean (fire acts))
include hfire

theorem keeps_callOut (x : StateM ω α) : Keeps Clean (callOut outside fire x) :=
  .bind (keeps_inWorld x) fun _ => .bind keeps_look fun _ =>
    .bind (keeps_inWorld _) fun acts => .bind (hfire acts) fun _ => .pure _

theorem keeps_send {lent : StateM (Wire ω) Notification} (hlent : Lends lent) :
    Keeps Clean ((link outside fire).send lent) :=
  .bind (keeps_pass hlent) fun _ => .bind (keeps_callOut hfire _) fun _ =>
    .bind (keeps_pass hlent) fun _ => .pure _

theorem keeps_submit {lent : StateM (Wire ω) Notification} (hlent : Lends lent) :
    Keeps Clean (Protocol.submit (link outside fire) lent) := by
  refine .bind (keeps_send hfire hlent) fun result => ?_
  cases result with
  | ok =>
    exact .bind (keeps_edit fun _ h => { h with }) fun _ => .bind hlent.keeps fun _ =>
      .bind (logKeeps_clean.debug _ _) fun _ => .pure _
  | notConnected => exact .pure _
  | busy => exact .pure _

theorem keeps_poll : Keeps Clean (Protocol.poll (link outside fire)) := by
  have hdiscard : Keeps (Clean (ω := ω)) (Protocol.edit Protocol.discardPending) :=
    keeps_edit fun _ h => h.discardPending
  apply Protocol.keeps_poll
  · refine Protocol.keeps_drainResponses (fun s h frame hpeek => ?_) hdiscard
      (keeps_edit fun _ h => h.dropOldestResponse) _
    rw [BoundedQueue.peek?_eq_head?] at hpeek
    have hframe := h.engine.responses frame (List.mem_of_head? hpeek)
    exact keeps_submit hfire (lends_answer hframe) s h
  · exact Protocol.keeps_sendWeight (fun s h _ => keeps_submit hfire lends_weight s h) hdiscard
      (keeps_edit fun _ h => { h with })

theorem keeps_publishWeight (weight : Float32) (time : UInt32) :
    Keeps Clean (Protocol.publishWeight (link outside fire) weight time) := by
  refine keeps_bind fun p _ => ?_
  split
  next => exact .bind (keeps_edit fun _ h => { h with weight := rfl }) fun _ => keeps_poll hfire
  next => exact .pure _

theorem keeps_pollPipeline (limit : Nat) :
    Keeps Clean (Pipeline.poll (link outside fire) limit) := by
  have hfilter : Ignores (Clean (ω := ω)) MedianFilter := fun _ _ h => { h with }
  have hcalibration : Ignores (Clean (ω := ω)) Calibration := fun _ _ h => { h with }
  have hpipeline : Ignores (Clean (ω := ω)) Pipeline := fun _ _ h => { h with }
  have hchannel : Ignores (Clean (ω := ω)) SampleChannel := fun _ _ h => { h with }
  exact .of_alike (Pipeline.alike_poll logKeeps_clean.alike hfilter.shares hcalibration.shares
    hpipeline.shares (fun weight time => (keeps_publishWeight hfire weight time).alike)
    hchannel.shares limit)

theorem serves_clean : Protocol.Serves (board outside fire) (board outside fire)
    fun s t => s = t ∧ s.Clean :=
  .of_keeps answers_clean (fun _ _ h => { h with }) (fun _ _ h => { h with })
    (outside.medium.keeping_within (keeps_callOut hfire))

theorem keeps_receive (frame : Bytes) :
    Keeps Clean (Protocol.receive (board outside fire) frame) := by
  have hstart : Keeps Clean (Protocol.startStream (board outside fire).clock) :=
    Protocol.keeps_startStream logKeeps_clean (keeps_callOut hfire _)
      (keeps_edit fun _ h => { h with }) fun _ => keeps_edit fun _ h => { h with }
  have hstop : Keeps (Clean (ω := ω)) Protocol.stopStream :=
    Protocol.keeps_stopStream logKeeps_clean (keeps_edit fun _ h => { h with })
  exact .of_alike ((serves_clean hfire).receive (keeps_poll hfire).alike
    (keeps_callOut hfire outside.hangUp).alike frame hstart.alike hstop.alike)

omit hfire in
theorem keeps_disconnected : Keeps (Clean (ω := ω)) Protocol.disconnected :=
  Protocol.keeps_disconnected logKeeps_clean
    (keeps_edit fun _ h => Protocol.Sound.discardPending { h with })

/-- The inbox rejects with the codes of two errors and with no others. -/
theorem keeps_dispatch : Keeps Clean (Inbox.dispatch (handler outside fire)) := by
  have hinbox : Ignores (Clean (ω := ω)) Inbox := fun _ _ h => { h with }
  refine Inbox.keeps_dispatch logKeeps_clean hinbox ?_
  exact
    { disconnected := keeps_disconnected
      receive := keeps_receive hfire
      reject := fun opcode e => .of_alike (answers_clean.reject (keeps_poll hfire).alike
        (answers_clean.submit (.error opcode e.code) ⟨e, rfl⟩))
      pause := keeps_callOut hfire _ }

theorem keeps_perform (act : Act) : Keeps Clean (perform outside fire act) := by
  cases act with
  | write bytes => exact fun _ h => { h with }
  | closeConnection => exact fun _ h => { h with }
  | dispatch => exact keeps_dispatch hfire
  | receive frame => exact .bind (keeps_receive hfire frame) fun _ => .pure _
  | disconnected => exact keeps_disconnected
  | pollPipeline limit => exact .bind (keeps_pollPipeline hfire limit) fun _ => .pure _
  | publish weight time => exact keeps_publishWeight hfire weight time
  | poll => exact keeps_poll hfire
  | setBattery millivolts low =>
    exact Protocol.keeps_setBattery logKeeps_clean (keeps_edit fun _ h => { h with })
  | recordError text => exact .of_alike (answers_clean.recordError text)
  | setOrder order => exact keeps_edit fun _ h => { h with }
  | elsewhere level chain => exact fun _ h => { h with }

end Calls

theorem keeps_fireTo (outside : Outside ω) (depth : Nat) (acts : List Act) :
    Keeps Clean (fireTo outside depth acts) := by
  -- What the calls inside a call keep is what is known of `fire` there.
  induction depth generalizing acts with
  | zero => exact .pure _
  | succ depth ih => exact .forM (fun act => .bind (keeps_perform ih act) fun _ => keeps_look) acts

/-- Whatever is configured, received, recorded and measured, and however calls nest, the transport
gets well-formed notifications only, and the error info never is longer than twelve bytes. -/
theorem wellFormed_of_passed (outside : Outside ω) (depth : Nat) (acts : List Act)
    (level : LogLevel) (config : ProtocolConfig) (chain : Chain) (world : ω) :
    let last := run outside depth acts
      { level := level, chain := { chain with protocol := { config := config } }, world := world }
    (∀ bytes ∈ last.passed, Notification.WellFormed bytes) ∧
      ∀ text ∈ last.infos, text.length ≤ 12 := by
  have hfirst : Clean (ω := ω)
      { level := level, chain := { chain with protocol := { config := config } },
        world := world } :=
    { engine := { responses := by simp, weight := rfl, errorInfo := Nat.zero_le _ }
      passed := by simp
      infos := by simp }
  have hlast := keeps_fireTo outside depth acts _ hfirst
  exact ⟨hlast.passed, hlast.infos⟩

/-- A transport that takes everything. The world has what other code does during the calls. -/
def ready : Outside (List (List Act)) where
  medium :=
    { sectorSize := 4096
      sectorCount := return 0
      read := fun _ _ => return none
      erase := fun _ _ => return false
      write := fun _ _ => return false }
  clock := return 0
  answer _ := return .ok
  hangUp := return ()
  meanwhile := modifyGet fun script => (script.headD [], script.tail)

/-- A version longer than a value, an unknown opcode that is written while the inbox is drained, a
stream, and a warning. -/
def chat : List Act :=
  [.write [0x6b], .dispatch, .receive [0x65], .publish 0 5, .recordError "more than twelve bytes",
    .setBattery 3000 true, .receive [0x6c]]

def chatEnd : Wire (List (List Act)) :=
  run ready 2 chat { level := .off, chain := { protocol := { config :=
    { appVersion := "release candidate" } } }, world := [[], [], [.write [0x00]]] }

theorem wellFormed_of_chat :
    chatEnd.passed.map (·.take 2) =
        [[0x00, 12], [0x00, 12], [0x0F, 2], [0x0F, 2], [0x01, 8], [0x01, 8], [0x04, 0], [0x04, 0],
          [0x00, 12], [0x00, 12]] ∧
      chatEnd.infos.getLast? = some "more than tw" ∧
      (∀ bytes ∈ chatEnd.passed, Notification.WellFormed bytes) ∧
      ∀ text ∈ chatEnd.infos, text.length ≤ 12 :=
  ⟨by decide +kernel, by decide +kernel, wellFormed_of_passed ready 2 chat .off
    { appVersion := "release candidate" } {} [[], [], [.write [0x00]]]⟩

end Wire

end LoadCell
