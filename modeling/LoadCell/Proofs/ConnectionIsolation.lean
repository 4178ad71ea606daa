import LoadCell.Proofs.InboxInvariant
import LoadCell.Proofs.TurnRule

/-!
Connections are isolated in every run. A turn keeps the invariant of the inbox at each of its
pauses, whatever the radio does there, and so does any sequence of turns and radio events.
-/
namespace LoadCell

open RadioEvent

/-- At every moment up to now the writes are accounted for, and few disconnects are to come. -/
structure Exchange.Tracked (x : Exchange) (later seen : Nat) (judged : List Arrival) (stale : Nat)
    (held : Option Arrival) : Prop where
  now : x.now.Consistent seen judged stale held
  past : ∀ m ∈ x.past, ∃ judged stale held, m.Isolated judged stale held
  few : x.now.closes + x.coming.flatten.countP isDisconnect + later < 2 ^ 32

namespace Exchange

variable {x : Exchange} {later seen : Nat} {judged : List Arrival} {stale : Nat}
  {held : Option Arrival} (answer : Moment → Except ProtocolError Unit)

section Runs

@[simp] theorem receive_run (x : Exchange) (data : Bytes) :
    (engine answer).receive data x = (answer (x.record (.received · data)).letIn.now,
      (x.record (.received · data)).letIn) := rfl

@[simp] theorem reject_run (x : Exchange) (opcode code : UInt8) :
    (engine answer).reject opcode code x = ((), (x.record (.rejected · opcode code)).letIn) := rfl

@[simp] theorem modifyPart_inbox (f : Inbox → Inbox) (x : Exchange) :
    modifyPart f x = ((), { x with now := { x.now with inbox := f x.now.inbox } }) := rfl

@[simp] theorem atomically_run {α : Type} (step : Inbox → α × Inbox) (x : Exchange) :
    Inbox.atomically (engine answer) step x = ((step x.letIn.now.inbox).1,
      { x.letIn with now := { x.letIn.now with inbox := (step x.letIn.now.inbox).2 } }) := rfl

theorem passDisconnect_run (x : Exchange) :
    let told := { x.letIn with now := x.letIn.now.acknowledged }
    Inbox.passDisconnect (engine answer) x = (x.letIn.now.inbox.epoch,
      if x.letIn.now.inbox.disconnectPending then told.letIn else told) := by
  by_cases hpending : x.letIn.now.inbox.disconnectPending
  · simp [Inbox.passDisconnect, Inbox.acknowledge, Moment.acknowledged, hpending]
    rfl
  · simp [Inbox.passDisconnect, Inbox.acknowledge, Moment.acknowledged, hpending]

theorem handOver_run (w : ControlWrite) (x : Exchange) :
    (Inbox.handOver (engine answer) w x).2 =
      (x.record fun place => w.handedAt place).letIn := by
  by_cases hsize : w.oversize
  · simp [Inbox.handOver, ControlWrite.handedAt, hsize]
  · simp only [Inbox.handOver, ControlWrite.handedAt, hsize, Bool.false_eq_true, ↓reduceIte,
      bind_run, receive_run]
    cases answer (x.record (.received · w.data)).letIn.now with
    | ok => rfl
    | error e => simp only [debug_run]

end Runs

namespace Tracked

/-- What changes only the present keeps the past. -/
theorem with_now (h : x.Tracked later seen judged stale held) {m : Moment} {seen' stale' : Nat}
    {judged' : List Arrival} {held' : Option Arrival}
    (hm : m.Consistent seen' judged' stale' held') (hcloses : m.closes = x.now.closes) :
    { x with now := m }.Tracked later seen' judged' stale' held' :=
  ⟨hm, h.past, hcloses ▸ h.few⟩

theorem note (h : x.Tracked later seen judged stale held) :
    x.note.Tracked later seen judged stale held := by
  refine ⟨h.now, ?_, h.few⟩
  intro m hm
  rcases List.mem_append.1 hm with hold | hnew
  · exact h.past m hold
  · cases List.mem_singleton.1 hnew
    exact ⟨judged, stale, held, h.now.toIsolated⟩

theorem after {event : RadioEvent}
    (h : x.Tracked (later + [event].countP isDisconnect) seen judged stale held) :
    (x.after event).Tracked later seen judged stale held := by
  refine ⟨h.now.after event, h.note.past, ?_⟩
  have hfew := h.few
  have hcloses := x.now.closes_after_le event
  show (x.now.after event).closes + x.coming.flatten.countP isDisconnect + later < 2 ^ 32
  omega

theorem foldl_after (events : List RadioEvent)
    (h : x.Tracked (later + events.countP isDisconnect) seen judged stale held) :
    (events.foldl Exchange.after x).Tracked later seen judged stale held := by
  induction events generalizing x with
  | nil => exact h
  | cons event rest ih =>
    refine ih (after ?_)
    rw [List.countP_cons] at h
    rw [List.countP_singleton, Nat.add_assoc]
    exact h

theorem letIn (h : x.Tracked later seen judged stale held) :
    x.letIn.Tracked later seen judged stale held := by
  unfold Exchange.letIn
  split
  next => exact h.note
  next events rest hcoming =>
    have hfew := h.few
    rw [hcoming, List.flatten_cons, List.countP_append] at hfew
    have hnext : { x with coming := rest }.Tracked (later + events.countP isDisconnect)
        seen judged stale held := by
      refine ⟨h.now, h.past, ?_⟩
      dsimp only
      omega
    exact (foldl_after events hnext).note

theorem acknowledge (h : x.Tracked later seen judged stale held) :
    { x with now := x.now.acknowledged }.Tracked later x.now.closes judged stale held := by
  refine h.with_now h.now.acknowledged ?_
  unfold Moment.acknowledged
  split <;> rfl

/-- A latched disconnect is passed on; then the engine has heard of all. -/
theorem passDisconnect (h : x.Tracked later seen judged stale held) :
    (Inbox.passDisconnect (engine answer) x).1 = UInt32.ofNat x.letIn.now.closes ∧
      (Inbox.passDisconnect (engine answer) x).2.Tracked later x.letIn.now.closes judged stale
        held := by
  have hpause := h.letIn
  rw [passDisconnect_run]
  refine ⟨hpause.now.epoch, ?_⟩
  dsimp only
  split
  next => exact hpause.acknowledge.letIn
  next => exact hpause.acknowledge

/-- No write comes from a connection that has not begun. -/
theorem connection_le {a : Arrival} (h : x.Tracked later seen judged stale (some a)) :
    a.connection ≤ x.now.closes := by
  obtain ⟨waiting, hsplit, -⟩ := h.now.arrivals
  exact (h.now.tagged a (by simp [hsplit])).1

theorem take (h : x.Tracked later seen judged stale none) :
    let taken := Inbox.atomically (engine answer) Inbox.take x
    (taken.1 = none ∧ taken.2.Tracked later seen judged stale none) ∨
      ∃ a, taken.1 = some a.write ∧ taken.2.Tracked later seen judged stale (some a) := by
  have hpause := h.letIn
  rw [atomically_run]
  rcases hpause.now.take with hnone | ⟨a, writes, hsome, hheld⟩
  · rw [hnone]
    exact .inl ⟨rfl, hpause⟩
  · rw [hsome]
    exact .inr ⟨a, rfl, hpause.with_now hheld rfl⟩

/-- The place of the write in hand is the number of the judged ones. -/
theorem place_eq {a : Arrival} (h : x.Tracked later seen judged stale (some a)) :
    x.now.arrivals.length - x.now.inbox.writes.size - 1 = judged.length := by
  obtain ⟨waiting, hsplit, hwaiting⟩ := h.now.arrivals
  have hsize := congrArg List.length hwaiting
  rw [List.length_map, BoundedQueue.length_toList] at hsize
  rw [hsplit, ← hsize]
  simp only [Option.toList_some, List.length_append, List.length_singleton]
  omega

theorem handOver {a : Arrival} (h : x.Tracked later seen judged stale (some a))
    (hseen : a.connection = seen) :
    (Inbox.handOver (engine answer) a.write x).2.Tracked later seen (judged ++ [a]) stale none := by
  have hdone := (h.with_now (h.now.handOver hseen) rfl).letIn
  rw [← h.place_eq] at hdone
  rw [handOver_run]
  exact hdone

theorem discard {a : Arrival} (h : x.Tracked later seen judged stale (some a))
    (hclosed : a.connection < x.now.closes) :
    (Inbox.discard a.write x).2.Tracked later seen (judged ++ [a]) (stale + 1) none := by
  simpa [Inbox.discard] using h.with_now (h.now.discard hclosed) rfl

/-- The connections of the write in hand and of the last disconnect are told apart by their
epochs. -/
theorem epoch_eq_iff {a : Arrival} (h : x.Tracked later seen judged stale (some a)) :
    a.write.epoch = UInt32.ofNat seen ↔ a.connection = seen := by
  obtain ⟨waiting, hsplit, -⟩ := h.now.arrivals
  obtain ⟨hle, htag⟩ := h.now.tagged a (by simp [hsplit])
  rw [htag]
  refine ⟨fun hepoch => ?_, fun heq => by rw [heq]⟩
  have hseen := h.now.seen_le
  have hfew := h.few
  have hnat := congrArg UInt32.toNat hepoch
  rw [UInt32.toNat_ofNat', UInt32.toNat_ofNat', Nat.mod_eq_of_lt (by omega),
    Nat.mod_eq_of_lt (by omega)] at hnat
  exact hnat

/-- The report of a full queue concerns no write of the queue. -/
theorem reportRefused (h : x.Tracked later seen judged stale none) (epoch : UInt32) :
    (Inbox.reportRefused (engine answer) epoch x).2.Tracked later seen judged stale none := by
  have hpause := h.letIn
  have htaken : { x.letIn with now := { x.letIn.now with
      inbox := { x.letIn.now.inbox with refused := none } } }.Tracked later seen judged stale
      none :=
    hpause.with_now { hpause.now with arrivals := hpause.now.arrivals } rfl
  rw [Inbox.reportRefused, bind_run, atomically_run]
  cases hrefused : x.letIn.now.inbox.refused with
  | none => simpa [Inbox.takeRefused, hrefused] using htaken
  | some w =>
    by_cases hepoch : w.epoch = epoch
    · simp only [Inbox.takeRefused, hrefused, hepoch, ↓reduceIte, bind_run, message_run, reject_run]
      exact (htaken.with_now (htaken.now.reported rfl) rfl).letIn
    · simpa [Inbox.takeRefused, hrefused, hepoch] using htaken

end Tracked

/-- The writes are accounted for, and a turn has none in hand. -/
def Idle (later : Nat) (x : Exchange) : Prop :=
  ∃ seen judged stale, x.Tracked later seen judged stale none

/-- A turn has an epoch in mind, that of the last disconnect that the engine has heard of. -/
def Ready (later : Nat) (epoch : UInt32) (x : Exchange) : Prop :=
  ∃ seen judged stale, epoch = UInt32.ofNat seen ∧ x.Tracked later seen judged stale none

def Held (later : Nat) (epoch : UInt32) (w : ControlWrite) (x : Exchange) : Prop :=
  ∃ seen judged stale a, epoch = UInt32.ofNat seen ∧ w = a.write ∧
    x.Tracked later seen judged stale (some a)

/-- The write in hand is of the epoch in mind, or its connection is closed. -/
def Judged (later : Nat) (epoch : UInt32) (w : ControlWrite) (x : Exchange) : Prop :=
  ∃ seen judged stale a, epoch = UInt32.ofNat seen ∧ w = a.write ∧
    x.Tracked later seen judged stale (some a) ∧ a.connection ≤ seen

theorem turnSteps (later : Nat) : Inbox.TurnSteps (engine answer) (Idle later) (Ready later)
    (Held later) (Judged later) where
  begin := by
    rintro x ⟨seen, judged, stale, h⟩
    exact ⟨_, judged, stale, h.passDisconnect answer⟩
  take := by
    rintro _ x ⟨seen, judged, stale, rfl, h⟩
    rcases h.take answer with ⟨hnone, htaken⟩ | ⟨a, hsome, htaken⟩
    · rw [hnone]
      exact ⟨seen, judged, stale, rfl, htaken⟩
    · rw [hsome]
      exact ⟨seen, judged, stale, a, rfl, rfl, htaken⟩
  same := by
    rintro w x ⟨seen, judged, stale, a, hepoch, rfl, h⟩
    exact ⟨seen, judged, stale, a, hepoch, rfl, h, (h.epoch_eq_iff.1 hepoch).le⟩
  look := by
    rintro _ _ - x ⟨seen, judged, stale, a, rfl, rfl, h⟩
    obtain ⟨hepoch, hpassed⟩ := h.passDisconnect answer
    exact ⟨_, judged, stale, a, hepoch, rfl, hpassed, h.letIn.connection_le⟩
  handOver := by
    rintro _ x ⟨seen, judged, stale, a, hepoch, rfl, h, -⟩
    exact ⟨seen, _, stale, hepoch, h.handOver answer (h.epoch_eq_iff.1 hepoch)⟩
  discard := by
    rintro _ _ hepoch x ⟨seen, judged, stale, a, rfl, rfl, h, hle⟩
    have hne : a.connection ≠ seen := mt h.epoch_eq_iff.2 hepoch
    have hclosed := h.now.seen_le
    exact ⟨seen, _, _, rfl, h.discard (by omega)⟩
  report := by
    rintro epoch x ⟨seen, judged, stale, -, h⟩
    exact ⟨seen, judged, stale, h.reportRefused answer epoch⟩

theorem next_tracked {event : Event}
    (h : x.Tracked (event.disconnects + later) seen judged stale none) :
    ∃ seen' judged' stale', (x.next answer event).Tracked later seen' judged' stale' none := by
  have hfew := h.few
  cases event with
  | radio event =>
    refine ⟨seen, judged, stale, Tracked.after ⟨h.now, h.past, ?_⟩⟩
    rw [Nat.add_comm later]
    exact hfew
  | turn limit during =>
    have hstart : { x with coming := during }.Tracked later seen judged stale none := by
      refine ⟨h.now, h.past, ?_⟩
      simp only [Event.disconnects] at hfew
      dsimp only
      omega
    exact (turnSteps answer later).turn limit _ ⟨seen, judged, stale, hstart⟩

theorem run_tracked {events : List Event}
    (h : x.Tracked (events.map (·.disconnects)).sum seen judged stale none) :
    ∃ seen' judged' stale', (run answer events x).Tracked 0 seen' judged' stale' none := by
  induction events generalizing x seen judged stale with
  | nil => exact ⟨seen, judged, stale, h⟩
  | cons event rest ih =>
    obtain ⟨seen₁, judged₁, stale₁, hnext⟩ := next_tracked answer h
    exact ih hnext

/-- At every moment of every run the writes are accounted for. -/
theorem isolated_of_run (level : LogLevel) {events : List Event}
    (hfew : (events.map (·.disconnects)).sum < 2 ^ 32) :
    let x := run answer events { level := level }
    ∀ m ∈ x.now :: x.past, ∃ judged stale held, m.Isolated judged stale held := by
  have hstart : Tracked { level := level } (events.map (·.disconnects)).sum 0 [] 0 none :=
    ⟨Moment.consistent_new, by simp, by simpa using hfew⟩
  obtain ⟨seen, judged, stale, hend⟩ := run_tracked answer hstart
  intro x m hm
  rcases List.mem_cons.1 hm with rfl | hpast
  · exact ⟨judged, stale, none, hend.now.toIsolated⟩
  · exact hend.past m hpast

/-- A write whose connection closes before the turn, one whose connection closes in the turn, and
one that is queued while the engine works. -/
def crossing : List Event :=
  [.radio (.write [1]), .radio .proceed, .radio .disconnect, .radio (.write [2]), .radio .proceed,
    .turn 10 [[], [], [], [], [.write [3], .proceed, .disconnect, .write [4]], [.proceed]]]

theorem isolated_of_crossing :
    let x := run (fun _ => .ok ()) crossing { level := .off }
    x.now.calls = [.disconnected, .received 1 [2], .received 2 [3], .disconnected,
        .received 3 [4]] ∧
      x.now.inbox.stale = 1 ∧ ∃ judged stale held, x.now.Isolated judged stale held :=
  ⟨by decide +kernel, by decide +kernel,
    isolated_of_run (fun _ => .ok ()) .off (by decide) _ (List.mem_cons_self ..)⟩

end Exchange

end LoadCell
