import LoadCell.Proofs.Core

/-!
The link cannot influence the measurement. Two runs with the same inputs, whose links say what they
like, agree after every step on everything but the waiting answers, whether a weight waits, the
counters of sent and dropped answers, and what was offered.
-/
namespace LoadCell

namespace Core

variable {ω : Type}

/-- All that the link has no say in. -/
def withoutLink (s : Core ω) : Core ω :=
  { s with
    chain := { s.chain with protocol := s.chain.protocol.unlinked }
    script := fun _ => .ok
    offers := [] }

/-- The states agree on all that the link has no say in. -/
def Agree (s t : Core ω) : Prop := s.withoutLink = t.withoutLink

/-- A program of which only the link's part of the state tells that it ran. -/
def Unseen {α : Type} (x : StateM (Core ω) α) : Prop := ∀ s, (x s).2.withoutLink = s.withoutLink

namespace Unseen

variable {α β : Type}

theorem pure (a : α) : Unseen (Pure.pure a : StateM (Core ω) α) := fun _ => rfl

theorem bind {x : StateM (Core ω) α} {f : α → StateM (Core ω) β} (hx : Unseen x)
    (hf : ∀ a, Unseen (f a)) : Unseen (x >>= f) :=
  fun s => (hf _ _).trans (hx s)

theorem getPart [Holds (Core ω) α] : Unseen (LoadCell.getPart α : StateM (Core ω) α) := fun _ => rfl

theorem edit {f : Protocol → Protocol} (hf : ∀ p : Protocol, (f p).unlinked = p.unlinked) :
    Unseen (Protocol.edit f : StateM (Core ω) Unit) := by
  intro s
  simp [withoutLink, withProtocol, hf]

theorem alike {x : StateM (Core ω) Unit} (hx : Unseen x) : Alike Agree x x :=
  fun s t h => ⟨rfl, (hx s).trans (h.trans (hx t).symm)⟩

end Unseen

theorem unseen_submit (lent : StateM (Core ω) Notification) (hlent : ∀ t, (lent t).2 = t) :
    Unseen (Protocol.submit link lent) := by
  intro s
  rw [submit_run s lent hlent]
  dsimp only
  split <;> rfl

theorem unlinked_dropOldestResponse (p : Protocol) :
    p.dropOldestResponse.unlinked = p.unlinked := by
  obtain ⟨responses, hdrop, _⟩ := p.dropOldestResponse_eq
  rw [hdrop]
  rfl

theorem unseen_drainResponses (limit : Nat) :
    Unseen (Protocol.drainResponses link limit : StateM (Core ω) Bool) := by
  induction limit with
  | zero => exact .pure _
  | succ limit ih =>
    apply Unseen.bind .getPart
    intro p
    cases p.responses.peek? with
    | none => exact .pure _
    | some frame =>
      apply Unseen.bind (unseen_submit _ fun _ => rfl)
      intro result
      cases result with
      | busy => exact .pure _
      | notConnected => exact .bind (.edit fun _ => rfl) fun _ => .pure _
      | ok => exact .bind (.edit unlinked_dropOldestResponse) fun _ => ih

theorem unseen_sendWeight : Unseen (Protocol.sendWeight link : StateM (Core ω) Unit) := by
  apply Unseen.bind .getPart
  intro p
  split
  next =>
    apply Unseen.bind (unseen_submit _ fun _ => rfl)
    intro result
    cases result with
    | busy => exact .pure _
    | notConnected => exact .edit fun _ => rfl
    | ok => exact .edit fun _ => rfl
  next => exact .pure _

/-- Whatever the link says, sending what waits changes only what the link has a say in. -/
theorem unseen_poll : Unseen (Protocol.poll link : StateM (Core ω) Unit) := by
  apply Unseen.bind (unseen_drainResponses _)
  intro emptied
  split
  next => exact unseen_sendWeight
  next => exact .pure _

theorem unseen_queueResponse (frame : Notification) :
    Unseen (Protocol.queueResponse frame : StateM (Core ω) Unit) := by
  apply Unseen.bind .getPart
  intro p
  cases p.responses.push? frame with
  | some responses => exact .edit fun _ => rfl
  | none => exact .bind (.edit fun _ => rfl) fun _ => fun s => by rw [message_run]

/-- States that look the same under a view share a part that the view leaves as it is. -/
theorem shares_under {view : Core ω → Core ω} {α : Type} [Holds (Core ω) α]
    (hget : ∀ s : Core ω, (Holds.part (view s) : α) = Holds.part s)
    (hset : ∀ (a : α) (s : Core ω), view (Holds.withPart a s) = Holds.withPart a (view s)) :
    Shares (fun s t : Core ω => view s = view t) α where
  same s t h := by
    have hpart : (Holds.part (view s) : α) = Holds.part (view t) := congrArg Holds.part h
    rwa [hget, hget] at hpart
  replace a s t h := by
    have hwhole := congrArg (Holds.withPart a) h
    rwa [← hset, ← hset] at hwhole

/-- A change that goes by what a view shows keeps states the same under it. -/
theorem map_under {view : Core ω → Core ω} {s t : Core ω} (h : view s = view t)
    {g : Core ω → Core ω} (hg : ∀ u, view (g u) = view (g (view u))) :
    view (g s) = view (g t) := by
  rw [hg s, hg t, h]

theorem inWorld_under (view : Core ω → Core ω) (hworld : ∀ s, (view s).world = s.world)
    (hview : ∀ world s, view { s with world := world } = view { view s with world := world })
    {α : Type} (x : StateM ω α) :
    Alike (fun s t : Core ω => view s = view t) (inWorld x) (inWorld x) := by
  intro s t h
  have hsame : x s.world = x t.world := by rw [← hworld s, ← hworld t, h]
  refine ⟨congrArg (fun r : α × ω => r.1) hsame, ?_⟩
  show view { s with world := (x s.world).2 } = view { t with world := (x t.world).2 }
  rw [hsame]
  exact map_under h (hview _)

theorem shares_of {α : Type} [Holds (Core ω) α]
    (hget : ∀ s : Core ω, (Holds.part s.withoutLink : α) = Holds.part s)
    (hset : ∀ (a : α) (s : Core ω),
      (Holds.withPart a s).withoutLink = Holds.withPart a s.withoutLink) :
    Shares (Agree : Core ω → Core ω → Prop) α :=
  shares_under hget hset

/-- A change that the link's part of the state has no say in keeps the agreement. -/
theorem Agree.map {s t : Core ω} (h : s.Agree t) {g : Core ω → Core ω}
    (hg : ∀ u, (g u).withoutLink = (g u.withoutLink).withoutLink) : (g s).Agree (g t) :=
  map_under h hg

theorem alike_edit {f : Protocol → Protocol}
    (hf : ∀ p : Protocol, (f p).unlinked = (f p.unlinked).unlinked) :
    Alike (Agree : Core ω → Core ω → Prop) (Protocol.edit f) (Protocol.edit f) := by
  intro s t h
  refine ⟨rfl, h.map (g := fun u => u.withProtocol (f u.chain.protocol)) ?_⟩
  intro u
  simp only [withoutLink, withProtocol, hf u.chain.protocol]

theorem alike_inWorld {α : Type} (x : StateM ω α) :
    Alike (Agree : Core ω → Core ω → Prop) (inWorld x) (inWorld x) :=
  inWorld_under withoutLink (fun _ => rfl) (fun _ _ => rfl) x

theorem answers_agree : Protocol.Answers (Agree : Core ω → Core ω → Prop) where
  log :=
    { level := fun _ _ h => congrArg (·.level) h
      write := fun _ => .pure _ }
  view _ _ h := congrArg (·.chain.protocol) h
  submit frame _ := (unseen_queueResponse frame).alike
  note _ _ := alike_edit fun _ => rfl

variable (medium : Medium ω) (clock : StateM ω UInt32)

theorem serves_agree : Protocol.Serves (board medium clock) (board medium clock) Agree where
  toAnswers := answers_agree
  calibration := shares_of (fun _ => rfl) fun _ _ => rfl
  store := shares_of (fun _ => rfl) fun _ _ => rfl
  filter _ _ h := congrArg (·.chain.filter) h
  medium := medium.alike_within alike_inWorld

theorem alike_hangUp :
    Alike (Agree : Core ω → Core ω → Prop) link.disconnect link.disconnect := by
  intro s t h
  exact ⟨rfl, h.map (g := fun u => { u with hangUps := u.hangUps + 1 }) fun _ => rfl⟩

theorem alike_startStream :
    Alike Agree (Protocol.startStream (board medium clock).clock)
      (Protocol.startStream (board medium clock).clock) := by
  apply answers_agree.bind
  intro p q hview
  have hstream : p.stream = q.stream := congrArg (·.stream) hview
  rw [hstream]
  refine .ite ?_ (.pure _)
  exact .bind (alike_edit fun _ => rfl) fun _ => .bind (alike_inWorld _) fun now =>
    .bind (alike_edit fun _ => rfl) fun _ => answers_agree.log.debug _ _

theorem alike_stopStream :
    Alike (Agree : Core ω → Core ω → Prop) Protocol.stopStream Protocol.stopStream := by
  apply answers_agree.bind
  intro p q hview
  have hstream : p.isStreaming = q.isStreaming := congrArg (·.isStreaming) hview
  rw [hstream]
  exact .ite (.bind (answers_agree.log.debug _ _) fun _ => alike_edit fun _ => rfl)
    (alike_edit fun _ => rfl)

theorem alike_disconnected :
    Alike (Agree : Core ω → Core ω → Prop) Protocol.disconnected Protocol.disconnected := by
  apply answers_agree.bind
  intro p q hview
  have hstream : p.isStreaming = q.isStreaming := congrArg (·.isStreaming) hview
  rw [hstream]
  exact .ite (.bind (answers_agree.log.debug _ _) fun _ => alike_edit fun _ => rfl)
    (alike_edit fun _ => rfl)

theorem alike_publishWeight (weight : Float32) (time : UInt32) :
    Alike (Agree : Core ω → Core ω → Prop) (Protocol.publishWeight link weight time)
      (Protocol.publishWeight link weight time) := by
  apply answers_agree.bind
  intro p q hview
  have hstream : p.isStreaming = q.isStreaming := congrArg (·.isStreaming) hview
  rw [hstream]
  exact .ite (.bind (alike_edit fun _ => rfl) fun _ => unseen_poll.alike) (.pure _)

theorem alike_setBattery (millivolts : UInt32) (low : Bool) :
    Alike (Agree : Core ω → Core ω → Prop) (Protocol.setBattery millivolts low)
      (Protocol.setBattery millivolts low) := by
  apply answers_agree.bind
  intro p q hview
  have hlow : p.batteryLow = q.batteryLow := congrArg (·.batteryLow) hview
  rw [hlow]
  exact .ite (.bind (answers_agree.log.message _) fun _ => alike_edit fun _ => rfl)
    (alike_edit fun _ => rfl)

theorem alike_receive (frame : Bytes) :
    Alike Agree (Protocol.receive (board medium clock) frame)
      (Protocol.receive (board medium clock) frame) :=
  (serves_agree medium clock).receive unseen_poll.alike alike_hangUp frame
    (alike_startStream medium clock) alike_stopStream

theorem handler_alike :
    (handler (board medium clock)).Alike (handler (board medium clock)) Agree where
  disconnected := alike_disconnected
  receive frame := by
    apply Alike.bind (alike_receive medium clock frame)
    intro outcome
    refine .bind ?_ fun _ => .pure _
    intro s t h
    exact ⟨rfl, h.map (g := fun u => { u with outcomes := u.outcomes ++ [outcome] }) fun _ => rfl⟩
  reject _ _ := answers_agree.reject unseen_poll.alike (unseen_queueResponse _).alike
  pause := by
    intro s t h
    exact ⟨rfl, h.map (g := letIn) fun _ => rfl⟩

/-- What comes to the chain from outside, but for what the link says. -/
inductive Input (ω : Type)
  | sample (count : Int32) (time : UInt32)
  | write (data : Bytes)
  | closeConnection
  /-- The control writes are handled, and the radio does more to the inbox meanwhile. -/
  | dispatch (radio : List (Inbox → Inbox))
  | pollPipeline (limit : Nat)
  | pollLink
  | receive (frame : Bytes)
  | battery (millivolts : UInt32) (low : Bool)
  | recordError (text : String)
  | setOrder (order : ByteOrder)
  /-- The clock moves on, or the flash comes to behave otherwise. -/
  | world (change : ω → ω)

def after (board : Board (Core ω)) (s : Core ω) : Input ω → Core ω
  | .sample count time => (Chain.sample count time s).2
  | .write data => { s with chain := { s.chain with inbox := (s.chain.inbox.write data).2 } }
  | .closeConnection => { s with chain := { s.chain with inbox := s.chain.inbox.disconnect } }
  | .dispatch radio => (Inbox.dispatch (handler board) { s with radio := radio }).2
  | .pollPipeline limit => (Pipeline.poll board.link limit s).2
  | .pollLink => (Protocol.poll board.link s).2
  | .receive frame => ((handler board).receive frame s).2
  | .battery millivolts low => (Protocol.setBattery millivolts low s).2
  | .recordError text => (Protocol.recordError text s).2
  | .setOrder order => (Protocol.setOrder order s).2
  | .world change => { s with world := change s.world }

def run (board : Board (Core ω)) (inputs : List (Input ω)) (s : Core ω) : Core ω :=
  inputs.foldl (after board) s

theorem agree_after {s t : Core ω} (h : s.Agree t) (input : Input ω) :
    (s.after (board medium clock) input).Agree (t.after (board medium clock) input) := by
  have hserves := serves_agree medium clock
  have hchannel : Shares (Agree : Core ω → Core ω → Prop) SampleChannel :=
    shares_of (fun _ => rfl) fun _ _ => rfl
  have hinbox : Shares (Agree : Core ω → Core ω → Prop) Inbox :=
    shares_of (fun _ => rfl) fun _ _ => rfl
  cases input with
  | sample count time => exact (Alike.modifyPart hchannel _ s t h).2
  | write data => exact h.map (g := fun u =>
      { u with chain := { u.chain with inbox := (u.chain.inbox.write data).2 } }) fun _ => rfl
  | closeConnection => exact h.map (g := fun u =>
      { u with chain := { u.chain with inbox := u.chain.inbox.disconnect } }) fun _ => rfl
  | dispatch radio =>
    have hbegun := h.map (g := fun u => { u with radio := radio }) fun _ => rfl
    exact (Inbox.alike_turn hserves.log hinbox (handler_alike medium clock) _ _ _ hbegun).2
  | pollPipeline limit =>
    have hfilter : Shares (Agree : Core ω → Core ω → Prop) MedianFilter :=
      shares_of (fun _ => rfl) fun _ _ => rfl
    have hpipeline : Shares (Agree : Core ω → Core ω → Prop) Pipeline :=
      shares_of (fun _ => rfl) fun _ _ => rfl
    exact (Pipeline.alike_poll hserves.log hfilter hserves.calibration hpipeline
      alike_publishWeight hchannel limit s t h).2
  | pollLink => exact (unseen_poll.alike s t h).2
  | receive frame => exact ((handler_alike medium clock).receive frame s t h).2
  | battery millivolts low => exact (alike_setBattery millivolts low s t h).2
  | recordError text => exact (hserves.recordError text s t h).2
  | setOrder order => exact (alike_edit (fun _ => rfl) s t h).2
  | world change => exact h.map (g := fun u => { u with world := change u.world }) fun _ => rfl

theorem agree_run (inputs : List (Input ω)) {s t : Core ω} (h : s.Agree t) :
    (run (board medium clock) inputs s).Agree (run (board medium clock) inputs t) := by
  induction inputs generalizing s t with
  | nil => exact h
  | cons input rest ih => exact ih (agree_after medium clock h input)

/-- Two runs with the same inputs, whatever the link says in each, agree after every step. -/
theorem agree_of_scripts (s : Core ω) (script script' : ℕ → SendResult) (inputs : List (Input ω)) :
    (run (board medium clock) inputs { s with script := script }).withoutLink =
      (run (board medium clock) inputs { s with script := script' }).withoutLink :=
  agree_run medium clock inputs rfl

end Core

end LoadCell
