import LoadCell.Proofs.ConnectionIsolation

/-!
What becomes of the writes that found no room. The inbox keeps the first of them up to the next
dispatch, whichever connection it is of. So a dispatch answers the first lost write of the current
connection, unless a write of an earlier connection was lost before.
-/
namespace LoadCell

/-- The answer to a write that found no room. -/
def EngineCall.isReport : EngineCall → Bool
  | .rejected _ _ code => code = ProtocolError.queueFull.code
  | _ => false

@[simp] theorem ControlWrite.isReport_handedAt (w : ControlWrite) (place : Nat) :
    (w.handedAt place).isReport = false := by
  unfold handedAt
  split <;> rfl

/-- A write changes only the queue, or else only what is kept of the refused writes. -/
theorem Inbox.write_cases (box : Inbox) (data : Bytes) :
    (∃ writes, box.write data = (true, { box with writes := writes })) ∨
      box.write data = (false, box.refuse (box.tagged data)) := by
  unfold write
  dsimp only
  cases hroom : box.enqueue (box.tagged data) with
  | none => exact .inr rfl
  | some box' =>
    obtain ⟨writes, rfl, -⟩ := enqueue_eq_some hroom
    exact .inl ⟨writes, rfl⟩

namespace Exchange

/-- A pause in which nothing comes. -/
theorem letIn_of_quiet {x : Exchange} (h : x.coming = []) : x.letIn = x.note := by
  unfold letIn
  rw [h]

/-- What the main loop does in a turn while the radio is silent: it takes some writes out, and
answers no lost one. -/
structure WorkedOff (taken : Nat) (x y : Exchange) : Prop where
  coming : y.coming = []
  intake : y.now.intake = x.now.intake
  arrivals : y.now.arrivals = x.now.arrivals
  closes : y.now.closes = x.now.closes
  epoch : y.now.inbox.epoch = x.now.inbox.epoch
  refused : y.now.inbox.refused = x.now.inbox.refused
  writes : y.now.inbox.writes.toList = x.now.inbox.writes.toList.drop taken
  calls : ∃ calls, y.now.calls = x.now.calls ++ calls ∧ ∀ call ∈ calls, call.isReport = false

namespace WorkedOff

variable {x y z : Exchange} {taken taken' : Nat} (answer : Moment → Except ProtocolError Unit)

theorem refl (h : x.coming = []) : WorkedOff 0 x x :=
  ⟨h, rfl, rfl, rfl, rfl, rfl, rfl, [], by simp⟩

theorem trans (h : WorkedOff taken x y) (h' : WorkedOff taken' y z) :
    WorkedOff (taken + taken') x z := by
  obtain ⟨calls, hcalls, hnone⟩ := h.calls
  obtain ⟨calls', hcalls', hnone'⟩ := h'.calls
  refine ⟨h'.coming, h'.intake.trans h.intake, h'.arrivals.trans h.arrivals,
    h'.closes.trans h.closes, h'.epoch.trans h.epoch, h'.refused.trans h.refused, ?_,
    calls ++ calls', ?_, ?_⟩
  · rw [h'.writes, h.writes, List.drop_drop]
  · rw [hcalls', hcalls, List.append_assoc]
  · intro call hcall
    rcases List.mem_append.1 hcall with hold | hnew
    · exact hnone call hold
    · exact hnone' call hnew

theorem letIn (h : WorkedOff taken x y) : WorkedOff taken x y.letIn := by
  rw [letIn_of_quiet h.coming]
  exact ⟨h.coming, h.intake, h.arrivals, h.closes, h.epoch, h.refused, h.writes, h.calls⟩

theorem record (h : WorkedOff taken x y) {call : EngineCall} (hcall : call.isReport = false) :
    WorkedOff taken x { y with now := y.now.record call } := by
  obtain ⟨calls, hcalls, hnone⟩ := h.calls
  refine ⟨h.coming, h.intake, h.arrivals, h.closes, h.epoch, h.refused, h.writes,
    calls ++ [call], ?_, ?_⟩
  · rw [← List.append_assoc, ← hcalls]
    rfl
  · intro c hc
    rcases List.mem_append.1 hc with hold | hnew
    · exact hnone c hold
    · rw [List.mem_singleton.1 hnew]
      exact hcall

theorem passDisconnect (h : x.coming = []) :
    (Inbox.passDisconnect (engine answer) x).1 = x.now.inbox.epoch ∧
      WorkedOff 0 x (Inbox.passDisconnect (engine answer) x).2 := by
  have hpause := (refl h).letIn
  rw [passDisconnect_run]
  refine ⟨hpause.epoch, ?_⟩
  unfold Moment.acknowledged
  split
  next hpending =>
    have htaken : WorkedOff 0 x { x.letIn with now := { x.letIn.now with
        inbox := { x.letIn.now.inbox with disconnectPending := false } } } := { hpause with }
    have htold := htaken.record (show EngineCall.disconnected.isReport = false from rfl)
    exact htold.letIn
  next => exact { hpause with }

theorem take (h : x.coming = []) :
    let taken := Inbox.atomically (engine answer) Inbox.take x
    WorkedOff 1 x taken.2 ∧ (taken.1 = none → x.now.inbox.writes.toList = []) := by
  have hpause := (refl h).letIn
  have hwrites : x.letIn.now.inbox.writes.toList = x.now.inbox.writes.toList := hpause.writes
  rw [atomically_run, Inbox.take]
  cases hpop : x.letIn.now.inbox.writes.pop? with
  | none =>
    have hempty := hwrites.symm.trans (BoundedQueue.toList_of_pop?_none hpop)
    refine ⟨{ hpause with writes := ?_ }, fun _ => hempty⟩
    rw [hempty]
    exact hwrites.trans hempty
  | some popped =>
    refine ⟨{ hpause with writes := ?_ }, fun hnone => ?_⟩
    · rw [← hwrites, BoundedQueue.toList_of_pop? hpop]
      rfl
    · cases hnone

theorem handOver (h : x.coming = []) (w : ControlWrite) :
    WorkedOff 0 x (Inbox.handOver (engine answer) w x).2 := by
  unfold Inbox.handOver
  split
  next => exact ((refl h).record (by rfl)).letIn
  next =>
    have hdone : WorkedOff 0 x (x.record (.received · w.data)).letIn :=
      ((refl h).record (by rfl)).letIn
    rw [bind_run, receive_run]
    cases answer (x.record (.received · w.data)).letIn.now with
    | ok => exact hdone
    | error e =>
      simp only [debug_run]
      exact hdone

theorem discard (h : x.coming = []) (w : ControlWrite) :
    WorkedOff 0 x (Inbox.discard w x).2 := by
  simpa [Inbox.discard] using { refl h with }

/-- Without the radio all writes are judged by the epoch that the turn began with. -/
theorem drain (limit : Nat) {epoch : UInt32} (h : x.coming = [])
    (hepoch : x.now.inbox.epoch = epoch) :
    let done := Inbox.drain (engine answer) limit epoch x
    done.1 = epoch ∧ WorkedOff limit x done.2 := by
  induction limit generalizing x with
  | zero => exact ⟨rfl, refl h⟩
  | succ limit ih =>
    rcases htake : Inbox.atomically (engine answer) Inbox.take x with ⟨taken, y⟩
    have hcases := take answer h
    rw [htake] at hcases
    obtain ⟨htaken, hempty⟩ := hcases
    rw [Inbox.drain, bind_run, htake]
    cases taken with
    | none =>
      have hnone : y.now.inbox.writes.toList = [] := by
        rw [htaken.writes, hempty rfl]
        rfl
      refine ⟨rfl, { htaken with writes := ?_ }⟩
      rw [hempty rfl, List.drop_nil]
      exact hnone
    | some w =>
      rw [Nat.add_comm limit]
      by_cases hw : w.epoch = epoch
      · have hjudged := htaken.trans (handOver answer htaken.coming w)
        obtain ⟨hlast, hrest⟩ := ih hjudged.coming (hjudged.epoch.trans hepoch)
        simp only [hw, ↓reduceIte, bind_run, pure_run]
        exact ⟨hlast, hjudged.trans hrest⟩
      · rcases hpass : Inbox.passDisconnect (engine answer) y with ⟨current, z⟩
        have hpassed := passDisconnect answer htaken.coming
        rw [hpass] at hpassed
        obtain rfl : current = epoch := hpassed.1.trans (htaken.epoch.trans hepoch)
        have hjudged := (htaken.trans hpassed.2).trans (discard hpassed.2.coming w)
        obtain ⟨hlast, hrest⟩ := ih hjudged.coming (hjudged.epoch.trans hepoch)
        simp only [hw, ↓reduceIte, bind_run, hpass]
        exact ⟨hlast, hjudged.trans hrest⟩

end WorkedOff

/-- The refused write that is kept is answered if it is of the current epoch, and then forgotten. -/
theorem reportRefused_run (answer : Moment → Except ProtocolError Unit) {x : Exchange}
    (h : x.coming = []) (epoch : UInt32) :
    let m := { x.now with inbox := { x.now.inbox with refused := none } }
    let place := x.now.arrivals.length - x.now.inbox.writes.size - 1
    let y := (Inbox.reportRefused (engine answer) epoch x).2
    y.coming = [] ∧ y.now = match x.now.inbox.refused with
      | none => m
      | some w =>
        if w.epoch = epoch then m.record (.rejected place w.opcode ProtocolError.queueFull.code)
        else m := by
  dsimp only
  rw [Inbox.reportRefused, bind_run, atomically_run, letIn_of_quiet h]
  have hkept : x.note.now.inbox.refused = x.now.inbox.refused := rfl
  cases hrefused : x.now.inbox.refused with
  | none =>
    simp only [Inbox.takeRefused, hkept, hrefused, pure_run]
    exact ⟨h, rfl⟩
  | some w =>
    simp only [Inbox.takeRefused, hkept, hrefused]
    split
    next =>
      simp only [bind_run, message_run, reject_run]
      rw [letIn_of_quiet (by exact h)]
      exact ⟨h, rfl⟩
    next => exact ⟨h, rfl⟩

/-- Without the radio a dispatch empties the queue before it answers the refused write. -/
theorem dispatch_run (answer : Moment → Except ProtocolError Unit) {x : Exchange}
    (h : x.coming = []) : ∃ z, WorkedOff Inbox.drainLimit x z ∧ z.now.inbox.writes.toList = [] ∧
      Inbox.dispatch (engine answer) x =
        Inbox.reportRefused (engine answer) x.now.inbox.epoch z := by
  rcases hpass : Inbox.passDisconnect (engine answer) x with ⟨epoch, y⟩
  have hpassed := WorkedOff.passDisconnect answer h
  rw [hpass] at hpassed
  obtain ⟨rfl, hy⟩ := hpassed
  rcases hdrain : Inbox.drain (engine answer) Inbox.drainLimit x.now.inbox.epoch y with ⟨epoch, z⟩
  have hdrained := WorkedOff.drain answer Inbox.drainLimit hy.coming hy.epoch
  rw [hdrain] at hdrained
  obtain ⟨rfl, hz⟩ := hdrained
  replace hz := hy.trans hz
  rw [Nat.zero_add] at hz
  refine ⟨z, hz, ?_, ?_⟩
  · rw [hz.writes, List.drop_eq_nil_iff, BoundedQueue.length_toList]
    exact Nat.le_trans x.now.inbox.writes.size_le (by decide)
  · rw [Inbox.dispatch, Inbox.turn, bind_run, hpass, bind_run, hdrain]

end Exchange

/-- A call from outside. Between the steps of a write there is no turn. -/
inductive HostCall
  | write (data : Bytes)
  | disconnect
  | dispatch

def HostCall.events : HostCall → List Exchange.Event
  | .write data => [.radio (.write data), .radio .proceed, .radio .proceed]
  | .disconnect => [.radio .disconnect]
  | .dispatch => [.turn Inbox.drainLimit []]

/-- An exchange, and the writes that found no room since the last dispatch. -/
structure Ledger where
  exchange : Exchange := {}
  lost : List Arrival := []

namespace Ledger

def lostAfter (l : Ledger) : HostCall → List Arrival
  | .write data =>
    let m := l.exchange.now
    if (m.inbox.write data).1 then l.lost else l.lost ++ [⟨m.closes, m.inbox.tagged data⟩]
  | .disconnect => l.lost
  | .dispatch => []

def serve (answer : Moment → Except ProtocolError Unit) (l : Ledger) (call : HostCall) : Ledger where
  exchange := Exchange.run answer call.events l.exchange
  lost := l.lostAfter call

def serveAll (answer : Moment → Except ProtocolError Unit) (calls : List HostCall) (l : Ledger) :
    Ledger :=
  calls.foldl (serve answer) l

/-- A write of the current connection; the numbers of connections wrap. -/
def isCurrent (l : Ledger) (a : Arrival) : Bool :=
  a.connection % 2 ^ 32 = l.exchange.now.closes % 2 ^ 32

/-- The first lost write of the current connection. -/
def owed (l : Ledger) : Option Arrival := l.lost.find? l.isCurrent

/-- The first lost write of all is of another connection. -/
def forgets (l : Ledger) : Bool := l.lost.head?.any (!l.isCurrent ·)

/-- The answer to a lost write. -/
def report (l : Ledger) (a : Arrival) : EngineCall :=
  .rejected (l.exchange.now.arrivals.length - 1) a.write.opcode ProtocolError.queueFull.code

/-- The inbox keeps the first lost write. -/
structure Settled (l : Ledger) : Prop where
  coming : l.exchange.coming = []
  intake : l.exchange.now.intake = .idle
  epoch : l.exchange.now.inbox.epoch = UInt32.ofNat l.exchange.now.closes
  refused : l.exchange.now.inbox.refused = l.lost.head?.map (·.write)
  tagged : ∀ a ∈ l.lost, a.write.epoch = UInt32.ofNat a.connection

variable {l : Ledger} (answer : Moment → Except ProtocolError Unit)

theorem settled_new (level : LogLevel) : Settled { exchange := { level := level } } where
  coming := rfl
  intake := rfl
  epoch := rfl
  refused := rfl
  tagged := by simp

theorem Settled.write (h : l.Settled) (data : Bytes) : (l.serve answer (.write data)).Settled := by
  have hnow : (l.serve answer (.write data)).exchange.now = _ :=
    l.exchange.now.after_write h.intake data
  have hlost : (l.serve answer (.write data)).lost = l.lostAfter (.write data) := rfl
  unfold lostAfter at hlost
  rcases l.exchange.now.inbox.write_cases data with ⟨writes, hwrite⟩ | hwrite
  · simp only [hwrite, ↓reduceIte] at hnow hlost
    refine ⟨h.coming, ?_, ?_, ?_, ?_⟩
    · exact hnow ▸ h.intake
    · exact hnow ▸ h.epoch
    · exact hnow ▸ hlost ▸ h.refused
    · exact hlost ▸ h.tagged
  · simp only [hwrite, Bool.false_eq_true, ↓reduceIte] at hnow hlost
    refine ⟨h.coming, ?_, ?_, ?_, ?_⟩
    · exact hnow ▸ h.intake
    · exact hnow ▸ h.epoch
    · rw [hnow, hlost, List.head?_append, Option.map_or, ← h.refused]
      show (l.exchange.now.inbox.refused <|> some _) = _
      cases l.exchange.now.inbox.refused <;> rfl
    · intro a ha
      rw [hlost] at ha
      rcases List.mem_append.1 ha with hold | hnew
      · exact h.tagged a hold
      · cases List.mem_singleton.1 hnew
        exact h.epoch

theorem Settled.disconnect (h : l.Settled) : (l.serve answer .disconnect).Settled := by
  have hnow : (l.serve answer .disconnect).exchange.now = { l.exchange.now with
      inbox := l.exchange.now.inbox.disconnect
      closes := l.exchange.now.closes + 1 } := by
    show l.exchange.now.after .disconnect = _
    simp only [Moment.after, h.intake]
  refine ⟨h.coming, ?_, ?_, ?_, h.tagged⟩
  · exact hnow ▸ h.intake
  · rw [hnow]
    simp only [Inbox.disconnect, h.epoch, UInt32.ofNat_add]
    rfl
  · exact hnow ▸ h.refused

/-- Epochs tell the connections apart up to the wrap. -/
theorem isCurrent_iff (l : Ledger) (a : Arrival) :
    l.isCurrent a ↔ UInt32.ofNat a.connection = UInt32.ofNat l.exchange.now.closes := by
  rw [isCurrent, decide_eq_true_iff, ← UInt32.toNat_inj, UInt32.toNat_ofNat', UInt32.toNat_ofNat']

/-- The write that the inbox has kept is answered unless the ledger forgets. -/
theorem Settled.answers (h : l.Settled) (m : Moment) :
    (match l.lost.head?.map (·.write) with
      | none => m
      | some w =>
        if w.epoch = l.exchange.now.inbox.epoch then m.record (.rejected
          (l.exchange.now.arrivals.length - 1) w.opcode ProtocolError.queueFull.code)
        else m) =
      { m with calls := m.calls ++ if l.forgets then [] else l.owed.toList.map l.report } := by
  cases hlost : l.lost with
  | nil => simp [forgets, owed, hlost]
  | cons a rest =>
    have htag : a.write.epoch = l.exchange.now.inbox.epoch ↔ l.isCurrent a := by
      rw [isCurrent_iff, h.epoch, h.tagged a (by simp [hlost])]
    by_cases hcurrent : l.isCurrent a
    · simp [forgets, owed, hlost, hcurrent, htag.2 hcurrent, report, Moment.record]
    · simp [forgets, hlost, hcurrent, mt htag.1 hcurrent]

/-- A dispatch empties the queue, and then answers the write that the inbox has kept. -/
theorem Settled.dispatch (h : l.Settled) :
    let m := l.exchange.now
    let m' := (l.serve answer .dispatch).exchange.now
    (l.serve answer .dispatch).Settled ∧ m'.inbox.writes.toList = [] ∧
      ∃ drained, m'.calls = m.calls ++ drained ++
          (if l.forgets then [] else l.owed.toList.map l.report) ∧
        ∀ call ∈ drained, call.isReport = false := by
  have hquiet : { l.exchange with coming := [] } = l.exchange := by rw [← h.coming]
  obtain ⟨z, hz, hempty, hrun⟩ := Exchange.dispatch_run answer h.coming
  obtain ⟨hcoming, hnow⟩ := Exchange.reportRefused_run answer hz.coming l.exchange.now.inbox.epoch
  have hend : (l.serve answer .dispatch).exchange =
      (Inbox.reportRefused (Exchange.engine answer) l.exchange.now.inbox.epoch z).2 := by
    show (Inbox.dispatch (Exchange.engine answer) { l.exchange with coming := [] }).2 = _
    rw [hquiet, hrun]
  have hplace : z.now.arrivals.length - z.now.inbox.writes.size - 1 =
      l.exchange.now.arrivals.length - 1 := by
    rw [← BoundedQueue.length_toList, hempty, show z.now.arrivals = _ from hz.arrivals]
    rfl
  obtain ⟨drained, hcalls, hnone⟩ := hz.calls
  rw [← hend] at hcoming hnow
  rw [show z.now.inbox.refused = _ from hz.refused.trans h.refused, hplace] at hnow
  rw [h.answers] at hnow
  refine ⟨⟨hcoming, ?_, ?_, ?_, by simp [serve, lostAfter]⟩, ?_, drained, ?_, hnone⟩
  · rw [hnow]
    exact hz.intake.trans h.intake
  · rw [hnow, show z.now.closes = _ from hz.closes]
    exact hz.epoch.trans h.epoch
  · rw [hnow]
    rfl
  · rw [hnow]
    exact hempty
  · rw [hnow, ← hcalls]

theorem Settled.serve (h : l.Settled) (call : HostCall) : (l.serve answer call).Settled := by
  cases call with
  | write data => exact h.write answer data
  | disconnect => exact h.disconnect answer
  | dispatch => exact (h.dispatch answer).1

theorem serveAll_settled {calls : List HostCall} (h : l.Settled) :
    (serveAll answer calls l).Settled := by
  induction calls generalizing l with
  | nil => exact h
  | cons call rest ih => exact ih (h.serve answer call)

/-- After any calls, a dispatch empties the queue and then answers the first write of the current
connection that was lost since the dispatch before, once and with its opcode, or it answers none if
there is no such write. Only if the first lost write of all was of another connection, there is no
answer at all. -/
theorem dispatch_answers_lost (level : LogLevel) (calls : List HostCall) :
    let l := serveAll answer calls { exchange := { level := level } }
    let m := l.exchange.now
    let m' := (l.serve answer .dispatch).exchange.now
    m'.inbox.writes.toList = [] ∧ ∃ drained, m'.calls = m.calls ++ drained ++
        (if l.forgets then [] else l.owed.toList.map l.report) ∧
      ∀ call ∈ drained, call.isReport = false :=
  ((serveAll_settled answer (settled_new level)).dispatch answer).2

/-- Eight writes fill the queue and the ninth is lost; the next connection loses its first write, and
no dispatch answers it. -/
theorem lost_write_unanswered :
    let l := serveAll (fun _ => .ok ()) (List.replicate 8 (.write [0x6d]) ++
      [.write [0x6a], .disconnect, .write [0x64]]) {}
    let m' := (l.serve (fun _ => .ok ()) .dispatch).exchange.now
    l.owed.map (·.write.opcode) = some 0x64 ∧ l.forgets ∧
      m'.calls.filter (·.isReport) = [] := by
  decide +kernel

end Ledger

end LoadCell
