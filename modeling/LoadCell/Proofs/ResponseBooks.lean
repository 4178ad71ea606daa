import LoadCell.Proofs.ResponseTrace

/-!
The bounded queue that a trace of answers is read against. Every answer that was taken in waits or
has met one fate: it was delivered, or discarded because nobody was there.
-/
namespace LoadCell

/-- The answer that the queue took in. -/
def TraceEntry.accepted? (entry : TraceEntry) : Option Notification :=
  match entry.what with
  | .accepted frame => some frame
  | _ => none

/-- The frame that the link took. -/
def TraceEntry.delivered? (entry : TraceEntry) : Option Notification :=
  match entry.what with
  | .offered frame .ok => some frame
  | _ => none

def TraceEntry.isRefusal (entry : TraceEntry) : Bool := entry.what = .refused

/-- Answers that the queue took in, oldest first. -/
def acceptedIn (trace : List TraceEntry) : List Notification := trace.filterMap (·.accepted?)

/-- Frames that the link took, oldest first. -/
def deliveredIn (trace : List TraceEntry) : List Notification := trace.filterMap (·.delivered?)

def refusalsIn (trace : List TraceEntry) : Nat := trace.countP (·.isRefusal)

/-- Answers that have left the queue, each with whether it was delivered, and those that wait. -/
structure Books where
  settled : List (Notification × Bool) := []
  waiting : List Notification := []

namespace Books

def discard (b : Books) : Books := ⟨b.settled ++ b.waiting.map (·, false), []⟩

/-- The bounded queue. It takes an answer in while it has room and refuses one when it has none;
the oldest answer is offered before any other, a weight only when none waits. -/
inductive Step : Books → TraceEntry → Books → Prop
  | accept {settled waiting frame} (hroom : waiting.length < responseCapacity)
      (hframe : frame.isWeight = false) :
      Step ⟨settled, waiting⟩ ⟨waiting, .accepted frame⟩ ⟨settled, waiting ++ [frame]⟩
  | refuse {settled waiting} (hfull : waiting.length = responseCapacity) :
      Step ⟨settled, waiting⟩ ⟨waiting, .refused⟩ ⟨settled, waiting⟩
  | deliver {settled frame rest} :
      Step ⟨settled, frame :: rest⟩ ⟨frame :: rest, .offered frame .ok⟩
        ⟨settled ++ [(frame, true)], rest⟩
  | busy {settled frame rest} :
      Step ⟨settled, frame :: rest⟩ ⟨frame :: rest, .offered frame .busy⟩ ⟨settled, frame :: rest⟩
  | notConnected {settled frame rest} :
      Step ⟨settled, frame :: rest⟩ ⟨frame :: rest, .offered frame .notConnected⟩
        (discard ⟨settled, frame :: rest⟩)
  | weight {settled frame} (result : SendResult) (hframe : frame.isWeight = true) :
      Step ⟨settled, []⟩ ⟨[], .offered frame result⟩ ⟨settled, []⟩
  | hangUp {settled waiting} :
      Step ⟨settled, waiting⟩ ⟨waiting, .hungUp⟩ (discard ⟨settled, waiting⟩)

/-- A trace is what a bounded queue does. -/
inductive Replay : List TraceEntry → Books → Prop
  | nil : Replay [] {}
  | snoc {trace b entry b'} (h : Replay trace b) (hstep : Step b entry b') :
      Replay (trace ++ [entry]) b'

end Books

@[simp] theorem acceptedIn_snoc (trace : List TraceEntry) (entry : TraceEntry) :
    acceptedIn (trace ++ [entry]) = acceptedIn trace ++ entry.accepted?.toList := by
  rw [acceptedIn, List.filterMap_append, acceptedIn]
  cases h : entry.accepted? <;> simp [h]

@[simp] theorem deliveredIn_snoc (trace : List TraceEntry) (entry : TraceEntry) :
    deliveredIn (trace ++ [entry]) = deliveredIn trace ++ entry.delivered?.toList := by
  rw [deliveredIn, List.filterMap_append, deliveredIn]
  cases h : entry.delivered? <;> simp [h]

@[simp] theorem refusalsIn_snoc (trace : List TraceEntry) (entry : TraceEntry) :
    refusalsIn (trace ++ [entry]) = refusalsIn trace + entry.isRefusal.toNat := by
  rw [refusalsIn, List.countP_append, refusalsIn, List.countP_singleton]
  cases entry.isRefusal <;> rfl

@[simp] theorem Books.discard_waiting (b : Books) : b.discard.waiting = [] := rfl

/-- What waited is settled by a discarding, and nothing of it delivered. -/
theorem Books.discard_fates (b : Books) :
    b.discard.settled.map (·.1) = b.settled.map (·.1) ++ b.waiting ∧
      (b.discard.settled.filter (·.2)).map (·.1) = (b.settled.filter (·.2)).map (·.1) := by
  have hnone : (b.waiting.map (·, false)).filter (·.2) = [] := by simp
  constructor
  · simp [discard, Function.comp_def]
  · rw [discard, List.filter_append, hnone, List.append_nil]

/-- What the books tell of a trace. -/
structure Books.Fair (b : Books) (trace : List TraceEntry) : Prop where
  bounded : b.waiting.length ≤ responseCapacity
  accepted : acceptedIn trace = b.settled.map (·.1) ++ b.waiting
  /-- Without the weights, what was delivered are the accepted answers with that fate. -/
  delivered : (deliveredIn trace).filter (!·.isWeight) = (b.settled.filter (·.2)).map (·.1)
  answers : ∀ frame ∈ b.waiting, frame.isWeight = false
  weights : ∀ entry ∈ trace, ∀ frame result, entry.what = .offered frame result →
    frame.isWeight → entry.waiting = []

theorem Books.fair_nil : ({} : Books).Fair [] :=
  ⟨Nat.zero_le _, rfl, rfl, by simp, by simp⟩

namespace Books.Step

variable {b b' : Books} {entry : TraceEntry}

theorem length_le (h : Step b entry b') (hle : b.waiting.length ≤ responseCapacity) :
    b'.waiting.length ≤ responseCapacity := by
  cases h with
  | accept hroom _ =>
    rw [List.length_append]
    exact hroom
  | refuse _ => exact hle
  | deliver => exact Nat.le_of_succ_le hle
  | busy => exact hle
  | notConnected => exact Nat.zero_le _
  | weight _ _ => exact hle
  | hangUp => exact Nat.zero_le _

/-- What has left and what waits is what was taken in. -/
theorem accepted (h : Step b entry b') : b'.settled.map (·.1) ++ b'.waiting =
    b.settled.map (·.1) ++ b.waiting ++ entry.accepted?.toList := by
  cases h with
  | accept _ _ => simp [TraceEntry.accepted?]
  | refuse _ => simp [TraceEntry.accepted?]
  | deliver => simp [TraceEntry.accepted?]
  | busy => simp [TraceEntry.accepted?]
  | @notConnected settled frame rest =>
    simp [(discard_fates ⟨settled, frame :: rest⟩).1, TraceEntry.accepted?]
  | weight _ _ => simp [TraceEntry.accepted?]
  | @hangUp settled waiting =>
    simp [(discard_fates ⟨settled, waiting⟩).1, TraceEntry.accepted?]

theorem answers (h : Step b entry b') (hanswers : ∀ frame ∈ b.waiting, frame.isWeight = false) :
    ∀ frame ∈ b'.waiting, frame.isWeight = false := by
  cases h with
  | accept _ hframe =>
    intro frame hf
    rcases List.mem_append.1 hf with hold | hnew
    · exact hanswers frame hold
    · exact List.mem_singleton.1 hnew ▸ hframe
  | refuse _ => exact hanswers
  | deliver => exact fun frame hf => hanswers frame (List.mem_cons_of_mem _ hf)
  | busy => exact hanswers
  | notConnected => simp
  | weight _ _ => exact hanswers
  | hangUp => simp

/-- An answer is settled as delivered exactly when the link takes it. -/
theorem delivered (h : Step b entry b')
    (hanswers : ∀ frame ∈ b.waiting, frame.isWeight = false) :
    (b'.settled.filter (·.2)).map (·.1) = (b.settled.filter (·.2)).map (·.1) ++
      entry.delivered?.toList.filter (!·.isWeight) := by
  cases h with
  | accept _ _ => simp [TraceEntry.delivered?]
  | refuse _ => simp [TraceEntry.delivered?]
  | deliver => simp [TraceEntry.delivered?, hanswers _ (List.mem_cons_self ..)]
  | busy => simp [TraceEntry.delivered?]
  | @notConnected settled frame rest =>
    simp [(discard_fates ⟨settled, frame :: rest⟩).2, TraceEntry.delivered?]
  | weight result hframe => cases result <;> simp [TraceEntry.delivered?, hframe]
  | @hangUp settled waiting =>
    simp [(discard_fates ⟨settled, waiting⟩).2, TraceEntry.delivered?]

/-- Only an answer is offered while answers wait. -/
theorem isWeight_eq_false (h : Step b entry b')
    (hanswers : ∀ frame ∈ b.waiting, frame.isWeight = false) {frame : Notification}
    {result : SendResult} (hoffer : entry.what = .offered frame result)
    (hwaiting : entry.waiting ≠ []) : frame.isWeight = false := by
  cases h with
  | accept _ _ => cases hoffer
  | refuse _ => cases hoffer
  | deliver =>
    cases hoffer
    exact hanswers frame (List.mem_cons_self ..)
  | busy =>
    cases hoffer
    exact hanswers frame (List.mem_cons_self ..)
  | notConnected =>
    cases hoffer
    exact hanswers frame (List.mem_cons_self ..)
  | weight _ _ => exact absurd rfl hwaiting
  | hangUp => cases hoffer

theorem fair {trace : List TraceEntry} (hstep : Step b entry b') (h : b.Fair trace) :
    b'.Fair (trace ++ [entry]) where
  bounded := hstep.length_le h.bounded
  accepted := by rw [acceptedIn_snoc, h.accepted, hstep.accepted]
  delivered := by
    rw [deliveredIn_snoc, List.filter_append, h.delivered, hstep.delivered h.answers]
  answers := hstep.answers h.answers
  weights := by
    intro e he frame result hoffer hweight
    rcases List.mem_append.1 he with hold | hnew
    · exact h.weights e hold frame result hoffer hweight
    · cases List.mem_singleton.1 hnew
      by_contra hwaiting
      rw [hstep.isWeight_eq_false h.answers hoffer hwaiting] at hweight
      cases hweight

end Books.Step

theorem Books.Replay.fair {trace : List TraceEntry} {b : Books} (h : Books.Replay trace b) :
    b.Fair trace := by
  induction h with
  | nil => exact Books.fair_nil
  | snoc _ hstep ih => exact hstep.fair ih

end LoadCell
