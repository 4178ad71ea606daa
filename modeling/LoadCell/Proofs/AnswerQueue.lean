import LoadCell.Proofs.AlikeProtocol

/-!
What submitting does to the queue of answers. An answer goes to its end if there is room and is
refused and counted if there is none, so that of many answers the first ones get in.
-/
namespace LoadCell

namespace Protocol

/-- Answers went to the end of the queue as far as there was room, and each other one was counted.
Nothing else changed. -/
structure Enqueued (p : Protocol) (answers : List Notification) (q : Protocol) : Prop where
  responses : q.responses.toList = (p.responses.toList ++ answers).take responseCapacity
  dropped : q.dropped =
    p.dropped + UInt32.ofNat ((p.responses.toList ++ answers).drop responseCapacity).length
  rest : q = { p with responses := q.responses, dropped := q.dropped }

theorem length_responses_le (p : Protocol) : p.responses.toList.length ≤ responseCapacity :=
  (BoundedQueue.length_toList _).trans_le p.responses.size_le

namespace Enqueued

variable {p q r : Protocol} {answers more : List Notification}

theorem nil (p : Protocol) : p.Enqueued [] p where
  responses := by rw [List.append_nil, List.take_of_length_le p.length_responses_le]
  dropped := by
    rw [List.append_nil, List.drop_eq_nil_of_le p.length_responses_le]
    exact (UInt32.add_zero _).symm
  rest := rfl

/-- Answers one after the other are all of them at once. -/
theorem append (h : p.Enqueued answers q) (h' : q.Enqueued more r) :
    p.Enqueued (answers ++ more) r where
  responses := by
    generalize hall : p.responses.toList ++ answers = all
    have hroom : responseCapacity - (all.take responseCapacity).length =
        responseCapacity - all.length := by
      rw [List.length_take]
      omega
    rw [h'.responses, h.responses, ← List.append_assoc, hall, List.take_append, List.take_take,
      Nat.min_self, hroom, List.take_append]
  dropped := by
    rw [h'.dropped, h.dropped, h.responses, UInt32.add_assoc, ← UInt32.ofNat_add]
    congr 2
    simp only [List.length_drop, List.length_append, List.length_take]
    omega
  rest := by
    calc r = { q with responses := r.responses, dropped := r.dropped } := h'.rest
      _ = { p with responses := r.responses, dropped := r.dropped } := by rw [h.rest]

end Enqueued

variable {σ : Type} [Logs σ] [Silent σ] [Holds σ Protocol]

theorem queueResponse_run (frame : Notification) (s : σ) : ∃ q,
    (Holds.part s : Protocol).Enqueued [frame] q ∧
      queueResponse frame s = ((), Holds.withPart q s) := by
  generalize hp : (Holds.part s : Protocol) = p
  have hrun (f : Protocol → Protocol) : edit f s = ((), Holds.withPart (f p) s) := by
    rw [← hp]
    rfl
  have hlength := BoundedQueue.length_toList p.responses
  rw [queueResponse, bind_run, getPart_run, hp]
  dsimp only
  cases hpush : p.responses.push? frame with
  | some responses =>
    obtain ⟨hroom, hlist⟩ := BoundedQueue.toList_of_push? hpush
    have hfits : (p.responses.toList ++ [frame]).length ≤ responseCapacity := by
      rw [List.length_append, hlength]
      exact hroom
    refine ⟨{ p with responses := responses }, ⟨?_, ?_, rfl⟩, hrun _⟩
    · rw [hlist, List.take_of_length_le hfits]
    · rw [List.drop_eq_nil_of_le hfits]
      exact (UInt32.add_zero _).symm
  | none =>
    have hfull : p.responses.toList.length = responseCapacity :=
      hlength.trans ((BoundedQueue.push?_eq_none_iff _ _).1 hpush)
    refine ⟨{ p with dropped := p.dropped + 1 }, ⟨?_, ?_, rfl⟩, ?_⟩
    · rw [List.take_left' hfull]
    · rw [List.drop_left' hfull]
      rfl
    · dsimp only
      rw [bind_run, hrun, message_run]

end Protocol

end LoadCell
