import LoadCell.Proofs.InboxExchange

/-!
Writes do not cross connections. Every write that leaves the queue is handed over or, if its
connection is closed, counted; the engine hears of a disconnect before the next connection's first
write. The invariant ties the epoch that the turn works with to the disconnects it has taken.
-/
namespace LoadCell

/-- The writes of a moment are accounted for. The judged ones have left the queue in the order of
their arrival and were handed over or counted stale, one more may be in hand, the rest waits. -/
structure Moment.Isolated (m : Moment) (judged : List Arrival) (stale : Nat)
    (held : Option Arrival) : Prop where
  arrivals : ∃ waiting, m.arrivals = judged ++ held.toList ++ waiting ∧
    waiting.map (·.write) = m.inbox.writes.toList
  counted : judged.length = m.handed.length + stale
  stale_eq : m.inbox.stale = UInt32.ofNat stale
  ordered : m.handed.Pairwise (· < ·)
  handedOver : ∀ call ∈ m.calls, ∀ place, call.place? = some place →
    ∃ a, judged[place]? = some a ∧ call = a.write.handedAt place
  /-- A write is handed over after one of an earlier connection only with a disconnect between. -/
  separated : ∀ i j, i < j → ∀ place place', m.placeAt i = some place →
    m.placeAt j = some place' → ∀ a a', judged[place]? = some a → judged[place']? = some a' →
    a.connection < a'.connection → ∃ k, i < k ∧ k < j ∧ m.calls[k]? = some .disconnected
  /-- A write that is counted stale belongs to a closed connection. -/
  closed : ∀ place a, judged[place]? = some a → place ∉ m.handed → a.connection < m.closes

/-- The inbox tells how many disconnects the engine has heard of, and whether there are more. -/
structure Moment.Consistent (m : Moment) (seen : Nat) (judged : List Arrival) (stale : Nat)
    (held : Option Arrival) : Prop extends Moment.Isolated m judged stale held where
  epoch : m.inbox.epoch = UInt32.ofNat m.closes
  pending : m.inbox.disconnectPending = decide (seen < m.closes)
  seen_le : seen ≤ m.closes
  tagged : ∀ a ∈ m.arrivals, a.connection ≤ m.closes ∧ a.write.epoch = UInt32.ofNat a.connection
  /-- No disconnect comes between the tag of a write and its place in the queue. -/
  intake : ∀ w, m.intake = .tagged w → w.epoch = UInt32.ofNat m.closes
  /-- What was handed over since the last call about a disconnect is of the connection seen. -/
  current : ∀ i place, m.placeAt i = some place → ∀ a, judged[place]? = some a →
    a.connection = seen ∨ ∃ k, i < k ∧ m.calls[k]? = some .disconnected

theorem Moment.consistent_new : ({} : Moment).Consistent 0 [] 0 none where
  arrivals := ⟨[], rfl, rfl⟩
  counted := rfl
  stale_eq := rfl
  ordered := .nil
  handedOver := by simp
  separated := by simp [placeAt]
  closed := by simp
  epoch := rfl
  pending := rfl
  seen_le := Nat.le_refl _
  tagged := by simp
  intake := by simp
  current := by simp [placeAt]

/-- A write that finds room goes to the end of the queue. -/
theorem Inbox.enqueue_eq_some {box box' : Inbox} {w : ControlWrite}
    (h : box.enqueue w = some box') : ∃ writes, box' = { box with writes := writes } ∧
      writes.toList = box.writes.toList ++ [w] := by
  obtain ⟨writes, hpush, rfl⟩ := Option.map_eq_some_iff.1 h
  exact ⟨writes, rfl, (BoundedQueue.toList_of_push? hpush).2⟩

theorem Inbox.take_cases (box : Inbox) :
    (box.take = (none, box)) ∨ ∃ w writes, box.take = (some w, { box with writes := writes }) ∧
      box.writes.toList = w :: writes.toList := by
  unfold take
  cases hpop : box.writes.pop? with
  | none => exact .inl (by simp)
  | some popped =>
    exact .inr ⟨popped.1, popped.2, by simp, BoundedQueue.toList_of_pop? hpop⟩

/-- An item of a list with one more at its end is an old one or the new one. -/
theorem getElem?_concat {α : Type} {l : List α} {a b : α} {i : Nat}
    (h : (l ++ [a])[i]? = some b) : l[i]? = some b ∨ i = l.length ∧ a = b := by
  rw [List.getElem?_append] at h
  split at h
  next => exact .inl h
  next hle =>
    obtain ⟨hlt, hab⟩ := List.getElem?_eq_some_iff.1 h
    simp only [List.length_singleton, Nat.lt_one_iff] at hlt
    exact .inr ⟨by omega, by simpa [hlt] using hab⟩

private theorem getElem?_concat_of_some {α : Type} {l : List α} {b : α} {i : Nat}
    (h : l[i]? = some b) (a : α) : (l ++ [a])[i]? = some b := by
  rw [List.getElem?_append_left (List.getElem?_eq_some_iff.1 h).1]
  exact h

namespace Moment

variable {m : Moment} {call : EngineCall} {i place : Nat}

theorem calls_of_placeAt (h : m.placeAt i = some place) :
    ∃ call, m.calls[i]? = some call ∧ call.place? = some place :=
  Option.bind_eq_some_iff.1 h

theorem placeAt_record (h : (m.record call).placeAt i = some place) :
    m.placeAt i = some place ∨ i = m.calls.length ∧ call.place? = some place := by
  obtain ⟨c, hc, hplace⟩ := calls_of_placeAt h
  rcases getElem?_concat hc with hold | ⟨hi, rfl⟩
  · exact .inl (Option.bind_eq_some_iff.2 ⟨c, hold, hplace⟩)
  · exact .inr ⟨hi, hplace⟩

theorem lt_of_placeAt (h : m.placeAt i = some place) : i < m.calls.length := by
  obtain ⟨c, hc, -⟩ := calls_of_placeAt h
  exact (List.getElem?_eq_some_iff.1 hc).1

theorem handed_record (m : Moment) (call : EngineCall) :
    (m.record call).handed = m.handed ++ call.place?.toList := by
  simp only [handed, record, List.filterMap_append]
  cases hplace : call.place? <;> simp [hplace]

theorem handed_record_of_none (m : Moment) (h : call.place? = none) :
    (m.record call).handed = m.handed := by
  rw [handed_record, h]
  exact List.append_nil _

@[simp] theorem closes_queue (m : Moment) (w : ControlWrite) : (m.queue w).closes = m.closes := by
  unfold queue
  split <;> rfl

/-- Only a disconnect closes a connection. -/
theorem closes_after_le (m : Moment) (event : RadioEvent) :
    (m.after event).closes ≤ m.closes + [event].countP RadioEvent.isDisconnect := by
  unfold after
  split
  next => exact Nat.le_add_right _ _
  next => exact Nat.le_refl _
  next => simp
  next => exact Nat.le_add_right _ _
  next => exact Nat.le_add_right _ _

end Moment

namespace Moment.Isolated

variable {m : Moment} {judged : List Arrival} {stale : Nat} {held : Option Arrival}

theorem lt_of_handed (h : m.Isolated judged stale held) {place : Nat} (hp : place ∈ m.handed) :
    place < judged.length := by
  obtain ⟨call, hcall, hplace⟩ := List.mem_filterMap.1 hp
  obtain ⟨a, ha, -⟩ := h.handedOver call hcall place hplace
  exact (List.getElem?_eq_some_iff.1 ha).1

theorem mem_handed {i place : Nat} (h : m.placeAt i = some place) : place ∈ m.handed := by
  obtain ⟨call, hcall, hplace⟩ := calls_of_placeAt h
  exact List.mem_filterMap.2 ⟨call, List.mem_of_getElem? hcall, hplace⟩

/-- One more judged write does not change which writes were handed over. -/
theorem getElem?_old (h : m.Isolated judged stale held) {i place : Nat} {a b : Arrival}
    (hp : m.placeAt i = some place) (hb : (judged ++ [a])[place]? = some b) :
    judged[place]? = some b := by
  rcases getElem?_concat hb with hold | ⟨hnew, -⟩
  · exact hold
  · have := h.lt_of_handed (mem_handed hp)
    omega

/-- A call that hands nothing over leaves the writes alone. -/
theorem record (h : m.Isolated judged stale held) {call : EngineCall}
    (hcall : call.place? = none) :
    (m.record call).Isolated judged stale held := by
  have hhanded := m.handed_record_of_none hcall
  have hold {i place : Nat} (hp : (m.record call).placeAt i = some place) :
      m.placeAt i = some place := by
    rcases placeAt_record hp with hp | ⟨-, hp⟩
    · exact hp
    · simp [hcall] at hp
  refine { h with
    counted := hhanded ▸ h.counted
    ordered := hhanded ▸ h.ordered
    handedOver := ?_
    separated := ?_
    closed := hhanded ▸ h.closed }
  · intro c hc place hplace
    rcases List.mem_append.1 hc with hc | hc
    · exact h.handedOver c hc place hplace
    · cases List.mem_singleton.1 hc
      simp [hcall] at hplace
  · intro i j hij place place' hp hp' a a' ha ha' hlt
    obtain ⟨k, hik, hkj, hk⟩ :=
      h.separated i j hij place place' (hold hp) (hold hp') a a' ha ha' hlt
    exact ⟨k, hik, hkj, getElem?_concat_of_some hk call⟩

end Moment.Isolated

namespace Moment.Consistent

variable {m : Moment} {seen : Nat} {judged : List Arrival} {stale : Nat} {held : Option Arrival}

theorem disconnect (h : m.Consistent seen judged stale held) (hidle : m.intake = .idle) :
    { m with inbox := m.inbox.disconnect, closes := m.closes + 1 }.Consistent seen judged stale
      held := by
  refine { h with
    closed := fun place a hp hn => Nat.lt_succ_of_lt (h.closed place a hp hn)
    epoch := ?_
    pending := ?_
    seen_le := Nat.le_succ_of_le h.seen_le
    tagged := fun a ha => ⟨Nat.le_succ_of_le (h.tagged a ha).1, (h.tagged a ha).2⟩
    intake := by simp [hidle] }
  · show m.inbox.epoch + 1 = _
    rw [h.epoch]
    exact (UInt32.ofNat_add m.closes 1).symm
  · exact (decide_eq_true (Nat.lt_succ_of_le h.seen_le)).symm

/-- A write arrives when it is queued. -/
theorem queue (h : m.Consistent seen judged stale held) {w : ControlWrite}
    (hw : m.intake = .tagged w) : (m.queue w).Consistent seen judged stale held := by
  obtain ⟨waiting, hsplit, hwaiting⟩ := h.arrivals
  unfold Moment.queue
  split
  next box hroom =>
    obtain ⟨writes, rfl, hlist⟩ := Inbox.enqueue_eq_some hroom
    refine { h with
      arrivals := ⟨waiting ++ [⟨m.closes, w⟩], ?_, ?_⟩
      tagged := ?_
      intake := by simp }
    · simp [hsplit]
    · simp [hwaiting, hlist]
    · intro a ha
      rcases List.mem_append.1 ha with hold | hnew
      · exact h.tagged a hold
      · cases List.mem_singleton.1 hnew
        exact ⟨Nat.le_refl _, h.intake w hw⟩
  next => exact { h with intake := by simp }

/-- The radio changes nothing about the writes that have left the queue. -/
theorem after (h : m.Consistent seen judged stale held) (event : RadioEvent) :
    (m.after event).Consistent seen judged stale held := by
  unfold Moment.after
  split
  next data _ =>
    refine { h with intake := ?_ }
    intro w hw
    cases hw
    exact h.epoch
  next hidle => exact h.disconnect hidle
  next w hw => exact h.queue hw
  next => exact { h with intake := by simp }
  next => exact h

theorem take (h : m.Consistent seen judged stale none) :
    (m.inbox.take = (none, m.inbox)) ∨ ∃ a writes,
      m.inbox.take = (some a.write, { m.inbox with writes := writes }) ∧
      { m with inbox := { m.inbox with writes := writes } }.Consistent seen judged stale
        (some a) := by
  obtain ⟨waiting, hsplit, hwaiting⟩ := h.arrivals
  rcases m.inbox.take_cases with hnone | ⟨w, writes, htake, hlist⟩
  · exact .inl hnone
  rw [hlist] at hwaiting
  obtain ⟨a, rest, rfl, rfl, hrest⟩ := List.map_eq_cons_iff.1 hwaiting
  exact .inr ⟨a, writes, htake, { h with arrivals := ⟨rest, by simp [hsplit], hrest⟩ }⟩

/-- Then the engine has heard of every disconnect. -/
theorem acknowledged (h : m.Consistent seen judged stale held) :
    m.acknowledged.Consistent m.closes judged stale held := by
  have hquiet : { m with inbox := { m.inbox with disconnectPending := false } }.Isolated
      judged stale held := { h with }
  unfold Moment.acknowledged
  by_cases hpending : m.inbox.disconnectPending
  · rw [if_pos hpending]
    refine { hquiet.record rfl, h with
      pending := by simp [Moment.record]
      seen_le := Nat.le_refl _
      current := fun i place hp a _ => .inr ⟨m.calls.length, ?_, by simp [Moment.record]⟩ }
    rcases placeAt_record hp with hp | ⟨-, hp⟩
    · exact lt_of_placeAt hp
    · simp [EngineCall.place?] at hp
  · have hseen : seen = m.closes := by
      have := h.pending
      have := h.seen_le
      simp_all
      omega
    rw [if_neg hpending]
    exact { hquiet, h with
      pending := by simp
      seen_le := Nat.le_refl _
      current := hseen ▸ h.current }

/-- A report of a full queue concerns no write of the queue. -/
theorem reported (h : m.Consistent seen judged stale held) {call : EngineCall}
    (hcall : call.place? = none) : (m.record call).Consistent seen judged stale held := by
  refine { h.toIsolated.record hcall, h with current := ?_ }
  intro i place hp a ha
  rcases placeAt_record hp with hp | ⟨-, hp⟩
  · rcases h.current i place hp a ha with hseen | ⟨k, hik, hk⟩
    · exact .inl hseen
    · exact .inr ⟨k, hik, getElem?_concat_of_some hk call⟩
  · simp [hcall] at hp

section HandOver

variable {a : Arrival}

/-- The write that is handed over now is of the connection seen, and so are those handed over since
the last call about a disconnect. -/
theorem separated_handOver (h : m.Consistent seen judged stale (some a))
    (hseen : a.connection = seen) {i j place place' : Nat} (hij : i < j) {b b' : Arrival}
    (hp : (m.record (a.write.handedAt judged.length)).placeAt i = some place)
    (hp' : (m.record (a.write.handedAt judged.length)).placeAt j = some place')
    (hb : (judged ++ [a])[place]? = some b) (hb' : (judged ++ [a])[place']? = some b')
    (hlt : b.connection < b'.connection) : ∃ k, i < k ∧ k < j ∧
      (m.record (a.write.handedAt judged.length)).calls[k]? = some .disconnected := by
  have hi : m.placeAt i = some place := by
    rcases placeAt_record hp with hi | ⟨rfl, -⟩
    · exact hi
    rcases placeAt_record hp' with hj | ⟨rfl, -⟩
    · exact absurd (lt_of_placeAt hj) (by omega)
    · exact absurd hij (Nat.lt_irrefl _)
  have hold := h.getElem?_old hi hb
  rcases placeAt_record hp' with hj | ⟨rfl, hnew⟩
  · obtain ⟨k, hik, hkj, hk⟩ :=
      h.separated i j hij place place' hi hj b b' hold (h.getElem?_old hj hb') hlt
    exact ⟨k, hik, hkj, getElem?_concat_of_some hk _⟩
  · rw [ControlWrite.place?_handedAt] at hnew
    cases hnew
    have hb' : b' = a := by simpa using hb'.symm
    rcases h.current i place hi b hold with heq | ⟨k, hik, hk⟩
    · rw [hb', hseen, heq] at hlt
      exact absurd hlt (Nat.lt_irrefl _)
    · exact ⟨k, hik, (List.getElem?_eq_some_iff.1 hk).1, getElem?_concat_of_some hk _⟩

theorem current_handOver (h : m.Consistent seen judged stale (some a))
    (hseen : a.connection = seen) {i place : Nat} {b : Arrival}
    (hp : (m.record (a.write.handedAt judged.length)).placeAt i = some place)
    (hb : (judged ++ [a])[place]? = some b) : b.connection = seen ∨ ∃ k, i < k ∧
      (m.record (a.write.handedAt judged.length)).calls[k]? = some .disconnected := by
  rcases placeAt_record hp with hi | ⟨rfl, hnew⟩
  · rcases h.current i place hi b (h.getElem?_old hi hb) with heq | ⟨k, hik, hk⟩
    · exact .inl heq
    · exact .inr ⟨k, hik, getElem?_concat_of_some hk _⟩
  · rw [ControlWrite.place?_handedAt] at hnew
    cases hnew
    have hb : b = a := by simpa using hb.symm
    exact .inl (hb ▸ hseen)

/-- A write of the connection seen is handed over. -/
theorem handOver (h : m.Consistent seen judged stale (some a)) (hseen : a.connection = seen) :
    (m.record (a.write.handedAt judged.length)).Consistent seen (judged ++ [a]) stale none := by
  obtain ⟨waiting, hsplit, hwaiting⟩ := h.arrivals
  have hhanded : (m.record (a.write.handedAt judged.length)).handed =
      m.handed ++ [judged.length] := by
    rw [handed_record, ControlWrite.place?_handedAt]
    rfl
  have hordered : (m.handed ++ [judged.length]).Pairwise (· < ·) := by
    rw [List.pairwise_append]
    refine ⟨h.ordered, List.pairwise_singleton _ _, ?_⟩
    intro p hp q hq
    cases List.mem_singleton.1 hq
    exact h.lt_of_handed hp
  refine { h with
    arrivals := ⟨waiting, by simpa [Moment.record] using hsplit, hwaiting⟩
    counted := ?_
    ordered := hhanded ▸ hordered
    handedOver := ?_
    separated := fun _ _ hij _ _ hp hp' _ _ hb hb' =>
      h.separated_handOver hseen hij hp hp' hb hb'
    closed := ?_
    current := fun _ _ hp _ hb => h.current_handOver hseen hp hb }
  · rw [hhanded, List.length_append, List.length_append, h.counted]
    simp only [List.length_singleton]
    omega
  · intro call hcall place hplace
    rcases List.mem_append.1 hcall with hold | hnew
    · obtain ⟨b, hb, hshape⟩ := h.handedOver call hold place hplace
      exact ⟨b, getElem?_concat_of_some hb a, hshape⟩
    · cases List.mem_singleton.1 hnew
      rw [ControlWrite.place?_handedAt] at hplace
      cases hplace
      exact ⟨a, by simp, rfl⟩
  · intro place b hb hnot
    rw [hhanded, List.mem_append, not_or] at hnot
    rcases getElem?_concat hb with hold | ⟨rfl, -⟩
    · exact h.closed place b hold hnot.1
    · exact absurd (List.mem_singleton.2 rfl) hnot.2

end HandOver

/-- A write of a closed connection is counted. -/
theorem discard {a : Arrival} (h : m.Consistent seen judged stale (some a))
    (hclosed : a.connection < m.closes) :
    { m with inbox := { m.inbox with stale := m.inbox.stale + 1 } }.Consistent seen
      (judged ++ [a]) (stale + 1) none := by
  obtain ⟨waiting, hsplit, hwaiting⟩ := h.arrivals
  refine { h with
    arrivals := ⟨waiting, by simpa using hsplit, hwaiting⟩
    counted := ?_
    stale_eq := ?_
    handedOver := ?_
    separated := fun i j hij place place' hp hp' b b' hb hb' hlt =>
      h.separated i j hij place place' hp hp' b b' (h.getElem?_old hp hb)
        (h.getElem?_old hp' hb') hlt
    closed := ?_
    current := fun i place hp b hb => h.current i place hp b (h.getElem?_old hp hb) }
  · rw [List.length_append, h.counted]
    exact Nat.add_assoc _ _ _
  · show m.inbox.stale + 1 = _
    rw [h.stale_eq]
    exact (UInt32.ofNat_add stale 1).symm
  · intro call hcall place hplace
    obtain ⟨b, hb, hshape⟩ := h.handedOver call hcall place hplace
    exact ⟨b, getElem?_concat_of_some hb a, hshape⟩
  · intro place b hb hnot
    rcases getElem?_concat hb with hold | ⟨-, rfl⟩
    · exact h.closed place b hold hnot
    · exact hclosed

end Moment.Consistent

end LoadCell
