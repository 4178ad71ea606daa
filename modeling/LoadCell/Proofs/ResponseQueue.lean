import LoadCell.Proofs.ResponseBooks

/-!
Answers are delivered as by a bounded queue. Whatever the link says and whatever calls come, the
trace of an engine is one of `Books`, and the answers that wait are the ones in the engine.
-/
namespace LoadCell

/-- A change of the protocol that the queue, the counters and the weight do not see. -/
structure Protocol.Aside (p q : Protocol) : Prop where
  responses : q.responses = p.responses
  sent : q.sent = p.sent
  dropped : q.dropped = p.dropped
  weight : p.weight.isWeight = true → q.weight.isWeight = true

namespace Desk

variable {ω : Type}

section Runs

variable (s : Desk ω)

@[simp] theorem getPart_protocol : getPart Protocol s = (s.protocol, s) := rfl

theorem edit_run (f : Protocol → Protocol) : Protocol.edit f s = ((), { s with
    protocol := f s.protocol
    trace := s.trace ++ s.protocol.changes (f s.protocol) }) := rfl

end Runs

/-- A change that appends nothing and drops nothing leaves no trace. -/
theorem changes_eq_nil {old new : Protocol}
    (hqueue : new.responses.toList.length ≤ old.responses.size)
    (hdropped : new.dropped = old.dropped) :
    old.changes new = [] := by
  simp [Protocol.changes, hdropped, List.drop_eq_nil_of_le hqueue]

/-- The books of an engine: its trace is theirs, and so are its queue and its counters. -/
structure Kept (s : Desk ω) (b : Books) : Prop where
  replay : Books.Replay s.trace b
  waiting : b.waiting = s.protocol.responses.toList
  sent : s.protocol.sent = UInt32.ofNat (deliveredIn s.trace).length
  dropped : s.protocol.dropped = UInt32.ofNat (refusalsIn s.trace)
  weight : s.protocol.weight.isWeight = true

def Booked (s : Desk ω) : Prop := ∃ b, s.Kept b

theorem Booked.congr {s t : Desk ω} (h : s.Booked) (hprotocol : t.protocol = s.protocol)
    (htrace : t.trace = s.trace) : t.Booked := by
  obtain ⟨b, hb⟩ := h
  exact ⟨b, htrace ▸ hb.replay, hprotocol ▸ hb.waiting, hprotocol ▸ htrace ▸ hb.sent,
    hprotocol ▸ htrace ▸ hb.dropped, hprotocol ▸ hb.weight⟩

theorem keeps_edit {f : Protocol → Protocol} (hf : ∀ p : Protocol, p.Aside (f p)) :
    Keeps (Booked : Desk ω → Prop) (Protocol.edit f) := by
  rintro s ⟨b, hb⟩
  obtain ⟨hresponses, hsent, hdropped, hweight⟩ := hf s.protocol
  rw [edit_run, changes_eq_nil (by simp [hresponses]) hdropped, List.append_nil]
  exact ⟨b, hb.replay, hresponses ▸ hb.waiting, hsent ▸ hb.sent, hdropped ▸ hb.dropped,
    hweight hb.weight⟩

/-- A submitted answer is taken in if there is room, and refused and counted if there is none. -/
theorem queueResponse_run (s : Desk ω) (frame : Notification) :
    let done := (Protocol.queueResponse frame s).2
    if s.protocol.responses.size < responseCapacity then
      done.trace = s.trace ++ [⟨s.protocol.responses.toList, .accepted frame⟩] ∧
        done.protocol.responses.toList = s.protocol.responses.toList ++ [frame] ∧
        done.protocol = { s.protocol with responses := done.protocol.responses }
    else
      done.trace = s.trace ++ [⟨s.protocol.responses.toList, .refused⟩] ∧
        done.protocol = { s.protocol with dropped := s.protocol.dropped + 1 } := by
  rw [Protocol.queueResponse, bind_run, getPart_protocol]
  cases hpush : s.protocol.responses.push? frame with
  | some responses =>
    obtain ⟨hroom, hlist⟩ := BoundedQueue.toList_of_push? hpush
    simp only [hroom, ↓reduceIte, edit_run]
    refine ⟨?_, hlist, trivial⟩
    simp [Protocol.changes, hlist]
  | none =>
    have hfull := (BoundedQueue.push?_eq_none_iff s.protocol.responses frame).1 hpush
    simp [hfull, edit_run, Protocol.changes, List.drop_eq_nil_of_le]

theorem keeps_queueResponse {frame : Notification} (hframe : frame.isWeight = false) :
    Keeps (Booked : Desk ω → Prop) (Protocol.queueResponse frame) := by
  rintro s ⟨b, hb⟩
  have hrun := queueResponse_run s frame
  have hsize : b.waiting.length = s.protocol.responses.size := by
    rw [hb.waiting, BoundedQueue.length_toList]
  generalize Protocol.queueResponse frame s = done at hrun ⊢
  split at hrun
  next hroom =>
    obtain ⟨htrace, hqueue, hrest⟩ := hrun
    refine ⟨⟨b.settled, b.waiting ++ [frame]⟩, ?_, ?_, ?_, ?_, ?_⟩
    · rw [htrace, ← hb.waiting]
      exact hb.replay.snoc (.accept (hsize ▸ hroom) hframe)
    · rw [hqueue, hb.waiting]
    · rw [hrest, htrace]
      simpa [TraceEntry.delivered?] using hb.sent
    · rw [hrest, htrace]
      simpa [TraceEntry.isRefusal] using hb.dropped
    · rw [hrest]
      exact hb.weight
  next hfull =>
    obtain ⟨htrace, hrest⟩ := hrun
    have := s.protocol.responses.size_le
    refine ⟨b, ?_, ?_, ?_, ?_, ?_⟩
    · rw [htrace, ← hb.waiting]
      exact hb.replay.snoc (.refuse (by omega))
    · rw [hrest]
      exact hb.waiting
    · rw [hrest, htrace]
      simpa [TraceEntry.delivered?] using hb.sent
    · rw [hrest, htrace]
      simp [TraceEntry.isRefusal, hb.dropped, UInt32.ofNat_add]
    · rw [hrest]
      exact hb.weight

section Sending

variable (answer : List TraceEntry → SendResult)

def counted (s : Desk ω) : Desk ω :=
  { s with protocol := { s.protocol with sent := s.protocol.sent + 1 } }

/-- Sending notes the offer, and counts it if the link took it. -/
theorem submit_run (s : Desk ω) (lent : StateM (Desk ω) Notification)
    (hlent : ∀ t, (lent t).2 = t) :
    let result := answer s.trace
    let noted := s.note (.offered (lent s).1 result)
    Protocol.submit (link answer) lent s =
      (result, if result = .ok then noted.counted else noted) := by
  have hsend : (link answer).send lent s =
      (answer s.trace, s.note (.offered (lent s).1 (answer s.trace))) := by
    simp only [link, bind_run, hlent]
    rfl
  rw [Protocol.submit, bind_run, hsend]
  by_cases hok : answer s.trace = .ok
  · have hquiet : s.protocol.changes { s.protocol with sent := s.protocol.sent + 1 } = [] :=
      changes_eq_nil (by simp) rfl
    simp [hok, hlent, edit_run, note, counted, hquiet]
  · simp [hok]

/-- A change that appends nothing and drops nothing changes the protocol only. -/
theorem edit_quiet {s : Desk ω} {f : Protocol → Protocol}
    (hqueue : (f s.protocol).responses.toList.length ≤ s.protocol.responses.size)
    (hdropped : (f s.protocol).dropped = s.protocol.dropped) :
    Protocol.edit f s = ((), { s with protocol := f s.protocol }) := by
  rw [edit_run, changes_eq_nil hqueue hdropped, List.append_nil]

@[simp] theorem discardPending_run (s : Desk ω) :
    Protocol.edit Protocol.discardPending s = ((), { s with
      protocol := s.protocol.discardPending }) :=
  edit_quiet (by simp [Protocol.discardPending]) rfl

@[simp] theorem dropOldestResponse_run (s : Desk ω) :
    Protocol.edit Protocol.dropOldestResponse s = ((), { s with
      protocol := s.protocol.dropOldestResponse }) := by
  obtain ⟨responses, hdrop, htail⟩ := s.protocol.dropOldestResponse_eq
  refine edit_quiet ?_ (by rw [hdrop])
  rw [hdrop, htail, List.length_tail, BoundedQueue.length_toList]
  exact Nat.sub_le _ _

section Offers

variable {s : Desk ω} {b b' : Books} {p : Protocol}

/-- What is neither a refusal nor a delivery leaves the counters as they are. -/
theorem Kept.noted (h : s.Kept b) {what : Occurrence} (hstep : Books.Step b ⟨b.waiting, what⟩ b')
    (hrefused : what ≠ .refused) (hok : ∀ frame, what ≠ .offered frame .ok)
    (hwaiting : b'.waiting = p.responses.toList) (hsent : p.sent = s.protocol.sent)
    (hdropped : p.dropped = s.protocol.dropped) (hweight : p.weight = s.protocol.weight) :
    { s.note what with protocol := p }.Kept b' := by
  have hdelivered : TraceEntry.delivered? ⟨b.waiting, what⟩ = none := by
    unfold TraceEntry.delivered?
    split
    next frame heq => exact absurd heq (hok frame)
    next => rfl
  have hrefusal : TraceEntry.isRefusal ⟨b.waiting, what⟩ = false := decide_eq_false hrefused
  have htrace : (s.note what).trace = s.trace ++ [⟨b.waiting, what⟩] := by rw [note, h.waiting]
  refine ⟨?_, hwaiting, ?_, ?_, hweight ▸ h.weight⟩
  · show Books.Replay (s.note what).trace b'
    rw [htrace]
    exact h.replay.snoc hstep
  · show p.sent = UInt32.ofNat (deliveredIn (s.note what).trace).length
    rw [htrace, deliveredIn_snoc, hdelivered, hsent, h.sent]
    simp
  · show p.dropped = UInt32.ofNat (refusalsIn (s.note what).trace)
    rw [htrace, refusalsIn_snoc, hrefusal, hdropped, h.dropped]
    simp

/-- A delivery is counted. -/
theorem Kept.delivered (h : s.Kept b) {frame : Notification}
    (hstep : Books.Step b ⟨b.waiting, .offered frame .ok⟩ b')
    (hwaiting : b'.waiting = p.responses.toList) (hsent : p.sent = s.protocol.sent + 1)
    (hdropped : p.dropped = s.protocol.dropped) (hweight : p.weight = s.protocol.weight) :
    { s.note (.offered frame .ok) with protocol := p }.Kept b' := by
  have htrace : (s.note (.offered frame .ok)).trace =
      s.trace ++ [⟨b.waiting, .offered frame .ok⟩] := by rw [note, h.waiting]
  refine ⟨?_, hwaiting, ?_, ?_, hweight ▸ h.weight⟩
  · show Books.Replay (s.note _).trace b'
    rw [htrace]
    exact h.replay.snoc hstep
  · show p.sent = UInt32.ofNat (deliveredIn (s.note _).trace).length
    rw [htrace, deliveredIn_snoc, hsent, h.sent]
    simp [TraceEntry.delivered?, UInt32.ofNat_add]
  · show p.dropped = UInt32.ofNat (refusalsIn (s.note _).trace)
    rw [htrace, refusalsIn_snoc, hdropped, h.dropped]
    simp [TraceEntry.isRefusal]

end Offers

/-- Draining keeps the books, and reports success only over an empty queue. -/
theorem kept_drain (limit : Nat) {s : Desk ω} {b : Books} (h : s.Kept b) : ∃ b',
    (Protocol.drainResponses (link answer) limit s).2.Kept b' ∧
      ((Protocol.drainResponses (link answer) limit s).1 = true → b'.waiting = []) := by
  induction limit generalizing s b with
  | zero => exact ⟨b, h, by simp [Protocol.drainResponses]⟩
  | succ limit ih =>
    obtain ⟨settled, waiting⟩ := b
    have hwaiting : waiting = s.protocol.responses.toList := h.waiting
    rw [Protocol.drainResponses, bind_run, getPart_protocol, BoundedQueue.peek?_eq_head?,
      ← hwaiting]
    cases waiting with
    | nil => exact ⟨_, h, fun _ => rfl⟩
    | cons frame rest =>
      have hsubmit := submit_run answer s (pure frame) fun _ => rfl
      rw [pure_run] at hsubmit
      simp only [List.head?_cons, bind_run, hsubmit]
      cases answer s.trace with
      | busy => exact ⟨_, h.noted .busy (by simp) (by simp) hwaiting rfl rfl rfl, by simp⟩
      | notConnected =>
        simp only [reduceCtorEq, ↓reduceIte, bind_run, discardPending_run, pure_run]
        exact ⟨_, h.noted .notConnected (by simp) (by simp) rfl rfl rfl rfl, by simp⟩
      | ok =>
        simp only [↓reduceIte, bind_run, dropOldestResponse_run]
        obtain ⟨responses, hdrop, htail⟩ :=
          (s.note (.offered frame .ok)).counted.protocol.dropOldestResponse_eq
        rw [hdrop]
        exact ih (h.delivered .deliver (htail.trans (congrArg List.tail hwaiting.symm)).symm
          rfl rfl rfl)

/-- The waiting weight is offered only over an empty queue. -/
theorem kept_sendWeight {s : Desk ω} {b : Books} (h : s.Kept b) (hempty : b.waiting = []) :
    (Protocol.sendWeight (link answer) s).2.Kept b := by
  obtain ⟨settled, waiting⟩ := b
  obtain rfl : waiting = [] := hempty
  rw [Protocol.sendWeight, bind_run, getPart_protocol]
  cases hpending : s.protocol.weightPending with
  | false => exact h
  | true =>
    have hsubmit := submit_run answer s Protocol.lentWeight fun _ => rfl
    have hlent : (Protocol.lentWeight s).1 = s.protocol.weight := rfl
    rw [hlent] at hsubmit
    simp only [↓reduceIte, bind_run, hsubmit]
    cases answer s.trace with
    | busy => exact h.noted (.weight .busy h.weight) (by simp) (by simp) h.waiting rfl rfl rfl
    | notConnected =>
      simp only [reduceCtorEq, ↓reduceIte, discardPending_run]
      exact h.noted (.weight .notConnected h.weight) (by simp) (by simp) rfl rfl rfl rfl
    | ok =>
      simp only [↓reduceIte]
      rw [edit_quiet (by simp [counted]) rfl]
      exact h.delivered (.weight .ok h.weight) h.waiting rfl rfl rfl

theorem keeps_poll : Keeps (Booked : Desk ω → Prop) (Protocol.poll (link answer)) := by
  rintro s ⟨b, hb⟩
  obtain ⟨b', hdrained, hempty⟩ := kept_drain answer Protocol.drainLimit hb
  rw [Protocol.poll, bind_run]
  cases hall : (Protocol.drainResponses (link answer) Protocol.drainLimit s).1 with
  | false => exact ⟨b', hdrained⟩
  | true => exact ⟨b', kept_sendWeight answer hdrained (hempty hall)⟩

end Sending

theorem keeps_of_same {α : Type} {x : StateM (Desk ω) α}
    (hprotocol : ∀ s, (x s).2.protocol = s.protocol) (htrace : ∀ s, (x s).2.trace = s.trace) :
    Keeps (Booked : Desk ω → Prop) x :=
  fun s h => h.congr (hprotocol s) (htrace s)

section Engine

variable (answer : List TraceEntry → SendResult) (medium : Medium ω) (clock : StateM ω UInt32)

theorem logKeeps_booked : LogKeeps (Booked : Desk ω → Prop) := fun _ _ h => h

theorem keeping_booked : (board answer medium clock).medium.Keeping Booked := by
  have hworld {α : Type} (x : StateM ω α) : Keeps Booked (inWorld x) :=
    keeps_of_same (fun _ => rfl) fun _ => rfl
  exact medium.keeping_within hworld

theorem answers_booked : Protocol.Answers fun s t : Desk ω => s = t ∧ s.Booked :=
  .of_keeps logKeeps_booked (fun _ h => keeps_queueResponse h.isWeight) fun _ _ =>
    keeps_edit fun _ => ⟨rfl, rfl, rfl, id⟩

/-- No command touches the queue but by submitting an answer. -/
theorem serves_booked : Protocol.Serves (board answer medium clock) (board answer medium clock)
    fun s t => s = t ∧ s.Booked :=
  .of_keeps answers_booked (fun _ _ h => h.congr rfl rfl) (fun _ _ h => h.congr rfl rfl)
    (keeping_booked answer medium clock)

theorem keeps_startStream :
    Keeps Booked (Protocol.startStream (board answer medium clock).clock) :=
  Protocol.keeps_startStream logKeeps_booked (keeps_of_same (fun _ => rfl) fun _ => rfl)
    (keeps_edit fun _ => ⟨rfl, rfl, rfl, id⟩) fun _ => keeps_edit fun _ => ⟨rfl, rfl, rfl, id⟩

theorem keeps_stopStream : Keeps (Booked : Desk ω → Prop) Protocol.stopStream :=
  Protocol.keeps_stopStream logKeeps_booked (keeps_edit fun _ => ⟨rfl, rfl, rfl, id⟩)

theorem keeps_receive (frame : Bytes) :
    Keeps Booked (Protocol.receive (board answer medium clock) frame) := by
  apply Keeps.of_alike
  apply (serves_booked answer medium clock).receive (keeps_poll answer).alike
  · exact (keeps_of_same (fun _ => rfl) fun _ => rfl).alike
  · exact (keeps_startStream answer medium clock).alike
  · exact keeps_stopStream.alike

theorem keeps_reject (opcode code : UInt8) :
    Keeps (Booked : Desk ω → Prop) (Protocol.reject (link answer) opcode code) :=
  .of_alike (answers_booked.reject (keeps_poll answer).alike (keeps_queueResponse rfl).alike)

theorem keeps_recordError (text : String) :
    Keeps (Booked : Desk ω → Prop) (Protocol.recordError text) :=
  .of_alike (answers_booked.recordError text)

theorem keeps_publishWeight (weight : Float32) (time : UInt32) :
    Keeps (Booked : Desk ω → Prop) (Protocol.publishWeight (link answer) weight time) := by
  refine Keeps.bind .getPart ?_
  intro p
  split
  next =>
    exact .bind (keeps_edit fun _ => ⟨rfl, rfl, rfl, fun _ => rfl⟩) fun _ => keeps_poll answer
  next => exact .pure _

theorem keeps_setBattery (millivolts : UInt32) (low : Bool) :
    Keeps (Booked : Desk ω → Prop) (Protocol.setBattery millivolts low) :=
  Protocol.keeps_setBattery logKeeps_booked (keeps_edit fun _ => ⟨rfl, rfl, rfl, id⟩)

/-- When the peer is gone, everything that waits is discarded. -/
theorem booked_disconnected {s : Desk ω} (h : s.Booked) :
    (Protocol.disconnected (s.note .hungUp)).2.Booked := by
  obtain ⟨b, hb⟩ := h
  have hquiet : Protocol.edit (fun p => Protocol.discardPending { p with stream := .idle })
      (s.note .hungUp) = ((), { s.note .hungUp with
        protocol := Protocol.discardPending { s.protocol with stream := .idle } }) :=
    edit_quiet (by simp [Protocol.discardPending]) rfl
  have hend : (Protocol.disconnected (s.note .hungUp)).2 = { s.note .hungUp with
      protocol := Protocol.discardPending { s.protocol with stream := .idle } } := by
    rw [Protocol.disconnected, bind_run, getPart_protocol]
    dsimp only
    split
    next => rw [bind_run, debug_run, hquiet]
    next => rw [hquiet]
  rw [hend]
  exact ⟨b.discard, hb.noted .hangUp (by simp) (by simp) rfl rfl rfl rfl⟩

theorem booked_after {s : Desk ω} (h : s.Booked) (call : Call ω) :
    (s.after (board answer medium clock) call).Booked := by
  cases call with
  | receive frame => exact keeps_receive answer medium clock frame s h
  | reject opcode code => exact keeps_reject answer opcode code s h
  | publishWeight weight time => exact keeps_publishWeight answer weight time s h
  | poll => exact keeps_poll answer s h
  | disconnected => exact booked_disconnected h
  | setBattery millivolts low => exact keeps_setBattery millivolts low s h
  | recordError text => exact keeps_recordError text s h
  | elsewhere level filter calibration store world => exact h.congr rfl rfl

theorem booked_run (calls : List (Call ω)) {s : Desk ω} (h : s.Booked) :
    (run (board answer medium clock) calls s).Booked := by
  induction calls generalizing s with
  | nil => exact h
  | cons call rest ih => exact ih (booked_after answer medium clock h call)

/-- After any calls and whatever the link said, the trace is that of a bounded queue whose waiting
answers are those of the engine; the counters count deliveries and refusals. A submitted answer is
refused and counted exactly if the queue is full. -/
theorem responses_of_run (s : Desk ω) (config : ProtocolConfig) (calls : List (Call ω)) :
    let t := run (board answer medium clock) calls
      { s with protocol := { config := config }, trace := [] }
    ∃ b, Books.Replay t.trace b ∧ b.waiting = t.protocol.responses.toList ∧ b.Fair t.trace ∧
      t.protocol.sent = UInt32.ofNat (deliveredIn t.trace).length ∧
      t.protocol.dropped = UInt32.ofNat (refusalsIn t.trace) ∧
      ∀ frame, (Protocol.queueResponse frame t).2.trace = t.trace ++
        [⟨b.waiting,
          if b.waiting.length < responseCapacity then .accepted frame else .refused⟩] := by
  have hstart : Booked { s with protocol := { config := config }, trace := [] } :=
    ⟨{}, .nil, rfl, rfl, rfl, rfl⟩
  obtain ⟨b, hb⟩ := booked_run answer medium clock calls hstart
  refine ⟨b, hb.replay, hb.waiting, hb.replay.fair, hb.sent, hb.dropped, ?_⟩
  intro frame
  rw [hb.waiting, BoundedQueue.length_toList]
  have hrun := queueResponse_run (run (board answer medium clock) calls
    { s with protocol := { config := config }, trace := [] }) frame
  split at hrun
  next hroom => rw [if_pos hroom, hrun.1]
  next hfull => rw [if_neg hfull, hrun.1]

end Engine

end Desk

end LoadCell
