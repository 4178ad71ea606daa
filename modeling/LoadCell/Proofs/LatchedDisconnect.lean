import LoadCell.Proofs.ConnectionIsolation

/-!
Writes whose connection closes while they wait. A turn compares the epoch of a write with the one it
has in mind and looks for a disconnect only if they differ. So a write that had been closed before
it was taken is dropped and counted, unless the engine had heard just of the disconnects before its
connection: then it is still handed over.
-/
namespace LoadCell

/-- How many writes have left the queue. -/
def Moment.left (m : Moment) : Nat := m.arrivals.length - m.inbox.writes.size

/-- A later moment that no write has left the queue since; without a latched disconnect there has
been none since. -/
structure Moment.Waits (m later : Moment) : Prop where
  left : later.left = m.left
  closes : m.closes ≤ later.closes
  quiet : later.inbox.disconnectPending = false →
    m.inbox.disconnectPending = false ∧ later.closes = m.closes

namespace Moment.Waits

theorem refl (m : Moment) : m.Waits m := ⟨rfl, Nat.le_refl _, fun h => ⟨h, rfl⟩⟩

theorem trans {m m' m'' : Moment} (h : m.Waits m') (h' : m'.Waits m'') : m.Waits m'' where
  left := h'.left.trans h.left
  closes := h.closes.trans h'.closes
  quiet hquiet :=
    have hmiddle := h'.quiet hquiet
    have hfirst := h.quiet hmiddle.1
    ⟨hfirst.1, hmiddle.2.trans hfirst.2⟩

theorem queue (m : Moment) (w : ControlWrite) : m.Waits (m.queue w) := by
  unfold Moment.queue
  split
  next box hroom =>
    obtain ⟨writes, rfl, hlist⟩ := Inbox.enqueue_eq_some hroom
    have hsize := congrArg List.length hlist
    rw [List.length_append, BoundedQueue.length_toList, BoundedQueue.length_toList] at hsize
    refine ⟨?_, Nat.le_refl _, fun h => ⟨h, rfl⟩⟩
    show (m.arrivals ++ [_]).length - writes.size = m.arrivals.length - m.inbox.writes.size
    rw [hsize, List.length_append]
    exact Nat.add_sub_add_right _ 1 _
  next => exact ⟨rfl, Nat.le_refl _, fun h => ⟨h, rfl⟩⟩

theorem after (m : Moment) (event : RadioEvent) : m.Waits (m.after event) := by
  unfold Moment.after
  split
  next => exact ⟨rfl, Nat.le_refl _, fun h => ⟨h, rfl⟩⟩
  next => exact ⟨rfl, Nat.le_succ _, by simp [Inbox.disconnect]⟩
  next w _ => exact queue m w
  next => exact ⟨rfl, Nat.le_refl _, fun h => ⟨h, rfl⟩⟩
  next => exact refl m

end Moment.Waits

namespace Exchange

/-- The radio has done something, and no write has left the queue. -/
structure Advances (x y : Exchange) : Prop where
  now : x.now.Waits y.now
  calls : y.now.calls = x.now.calls
  past : ∃ added, y.past = x.past ++ added ∧ ∀ m ∈ added, x.now.Waits m ∧ m.Waits y.now
  kept : y.now = x.now ∨ x.now ∈ y.past

namespace Advances

variable {x y z : Exchange}

theorem trans (h : x.Advances y) (h' : y.Advances z) : x.Advances z := by
  obtain ⟨added, hpast, hadded⟩ := h.past
  obtain ⟨added', hpast', hadded'⟩ := h'.past
  refine ⟨h.now.trans h'.now, h'.calls.trans h.calls, ⟨added ++ added', ?_, ?_⟩, ?_⟩
  · rw [hpast', hpast, List.append_assoc]
  · intro m hm
    rcases List.mem_append.1 hm with hm | hm
    · exact ⟨(hadded m hm).1, (hadded m hm).2.trans h'.now⟩
    · exact ⟨h.now.trans (hadded' m hm).1, (hadded' m hm).2⟩
  · rcases h.kept with hsame | hkept
    · rw [← hsame]
      exact h'.kept
    · rw [hpast']
      exact .inr (List.mem_append_left _ hkept)

theorem note (x : Exchange) : x.Advances x.note := by
  refine ⟨.refl _, rfl, ⟨[x.now], rfl, ?_⟩, .inl rfl⟩
  simp only [List.mem_singleton]
  rintro m rfl
  exact ⟨.refl _, .refl _⟩

theorem after (x : Exchange) (event : RadioEvent) : x.Advances (x.after event) := by
  have hcalls : (x.now.after event).calls = x.now.calls := by
    unfold Moment.after
    split
    next => rfl
    next => rfl
    next =>
      unfold Moment.queue
      split <;> rfl
    next => rfl
    next => rfl
  refine ⟨.after _ _, hcalls, ⟨[x.now], rfl, ?_⟩, .inr (List.mem_append_right _ (by simp))⟩
  simp only [List.mem_singleton]
  rintro m rfl
  exact ⟨.refl _, .after _ _⟩

theorem foldl_after (events : List RadioEvent) (x : Exchange) :
    x.Advances (events.foldl Exchange.after x) := by
  induction events generalizing x with
  | nil => exact ⟨.refl _, rfl, ⟨[], (List.append_nil _).symm, by simp⟩, .inl rfl⟩
  | cons event rest ih => exact (after x event).trans (ih _)

/-- After a pause the present has been noted. -/
theorem letIn (x : Exchange) : x.Advances x.letIn ∧ x.letIn.now ∈ x.letIn.past := by
  have hnoted (y : Exchange) : y.note.now ∈ y.note.past := by simp [Exchange.note]
  unfold Exchange.letIn
  split
  next => exact ⟨note x, hnoted x⟩
  next events rest hcoming =>
    have hevents := foldl_after events { x with coming := rest }
    have hdone : x.Advances (events.foldl Exchange.after { x with coming := rest }) :=
      ⟨hevents.now, hevents.calls, hevents.past, hevents.kept⟩
    exact ⟨hdone.trans (note _), hnoted _⟩

end Advances

/-- The moments when the write at a place had not left the queue. -/
def before (x : Exchange) (place : Nat) : List Moment := x.past.filter (·.left ≤ place)

/-- How many disconnects the engine had heard of when the write at a place was taken: all those up
to the last moment without a latched one. -/
def heard (x : Exchange) (place : Nat) : Option Nat :=
  (((x.before place).filter (!·.inbox.disconnectPending)).map (·.closes)).max?

/-- What becomes of a write whose connection is closed before it is taken. -/
def ClosedFate (x : Exchange) (place : Nat) (a : Arrival) (handed : Prop) : Prop :=
  (∃ m ∈ x.before place, a.connection < m.closes) → (handed ↔ x.heard place = some a.connection)

/-- What happens after a write has left the queue has no part in its fate. -/
theorem Advances.before_eq {x y : Exchange} (h : x.Advances y) {place : Nat}
    (hplace : place < x.now.left) : y.before place = x.before place := by
  obtain ⟨added, hpast, hadded⟩ := h.past
  have hnone : added.filter (·.left ≤ place) = [] := by
    rw [List.filter_eq_nil_iff]
    intro m hm
    simp only [(hadded m hm).1.left, decide_eq_true_eq]
    omega
  rw [before, before, hpast, List.filter_append, hnone, List.append_nil]

theorem Advances.closedFate_iff {x y : Exchange} (h : x.Advances y) {place : Nat}
    (hplace : place < x.now.left) {a : Arrival} {handed : Prop} :
    y.ClosedFate place a handed ↔ x.ClosedFate place a handed := by
  rw [ClosedFate, ClosedFate, heard, heard, h.before_eq hplace]

/-- The past of an exchange tells what the engine has heard of, and the fates of the writes that
have left the queue agree with it. -/
structure Followed (x : Exchange) (later seen : Nat) (judged : List Arrival) (stale : Nat)
    (held : Option Arrival) : Prop extends x.Tracked later seen judged stale held where
  noted : ∀ m ∈ x.past, m.left ≤ x.now.left ∧ m.closes ≤ x.now.closes ∧
    (m.inbox.disconnectPending = false → m.closes ≤ seen)
  quiet : x.now.inbox.disconnectPending = false ∨
    ∃ m ∈ x.past, m.inbox.disconnectPending = false ∧ m.closes = seen
  fates : ∀ place a, judged[place]? = some a → x.ClosedFate place a (place ∈ x.now.handed)

variable {x : Exchange} {later seen : Nat} {judged : List Arrival} {stale : Nat}
  {held : Option Arrival} (answer : Moment → Except ProtocolError Unit)

/-- Judged writes have left the queue, and the one in hand has. -/
theorem Tracked.left_eq (h : x.Tracked later seen judged stale held) :
    x.now.left = judged.length + held.toList.length := by
  obtain ⟨waiting, hsplit, hwaiting⟩ := h.now.arrivals
  have hsize := congrArg List.length hwaiting
  rw [List.length_map, BoundedQueue.length_toList] at hsize
  rw [Moment.left, hsplit, ← hsize, List.length_append, Nat.add_sub_cancel, List.length_append]

theorem Tracked.closes_eq (h : x.Tracked later seen judged stale held)
    (hquiet : x.now.inbox.disconnectPending = false) : x.now.closes = seen := by
  have hle := h.now.seen_le
  have hnone := h.now.pending.symm.trans hquiet
  have := of_decide_eq_false hnone
  omega

namespace Followed

theorem advance {y : Exchange} {later' : Nat} (h : x.Followed later seen judged stale held)
    (hy : y.Tracked later' seen judged stale held) (hadvances : x.Advances y) :
    y.Followed later' seen judged stale held := by
  obtain ⟨added, hpast, hadded⟩ := hadvances.past
  refine { hy with noted := ?_, quiet := ?_, fates := ?_ }
  · intro m hm
    rw [hpast] at hm
    rw [hadvances.now.left]
    rcases List.mem_append.1 hm with hold | hnew
    · obtain ⟨hleft, hcloses, hquiet⟩ := h.noted m hold
      exact ⟨hleft, hcloses.trans hadvances.now.closes, hquiet⟩
    · obtain ⟨hsince, huntil⟩ := hadded m hnew
      refine ⟨hsince.left.le, huntil.closes, fun hm => ?_⟩
      obtain ⟨hquiet, hcloses⟩ := hsince.quiet hm
      exact (hcloses.trans (h.closes_eq hquiet)).le
  · rcases h.quiet with hquiet | ⟨m, hm, hquiet⟩
    · rcases hadvances.kept with hsame | hkept
      · exact .inl (hsame ▸ hquiet)
      · exact .inr ⟨x.now, hkept, hquiet, h.closes_eq hquiet⟩
    · rw [hpast]
      exact .inr ⟨m, List.mem_append_left _ hm, hquiet⟩
  · intro place a ha
    have hplace := (List.getElem?_eq_some_iff.1 ha).1
    have hhanded : y.now.handed = x.now.handed := by rw [Moment.handed, hadvances.calls]; rfl
    rw [hhanded, hadvances.closedFate_iff (by rw [h.left_eq]; omega)]
    exact h.fates place a ha

/-- The present changes in one step. -/
theorem replace {m : Moment} {judged' : List Arrival} {stale' : Nat} {held' : Option Arrival}
    (h : x.Followed later seen judged stale held)
    (hm : { x with now := m }.Tracked later seen judged' stale' held')
    (hleft : x.now.left ≤ m.left) (hcloses : m.closes = x.now.closes)
    (hquiet : m.inbox.disconnectPending = x.now.inbox.disconnectPending)
    (hfates : ∀ place a, judged'[place]? = some a → x.ClosedFate place a (place ∈ m.handed)) :
    { x with now := m }.Followed later seen judged' stale' held' := by
  refine { hm with noted := ?_, quiet := ?_, fates := hfates }
  · intro m' hm'
    obtain ⟨hleft', hcloses', hquiet'⟩ := h.noted m' hm'
    exact ⟨hleft'.trans hleft, hcloses ▸ hcloses', hquiet'⟩
  · exact hquiet ▸ h.quiet

theorem letIn (h : x.Followed later seen judged stale held) :
    x.letIn.Followed later seen judged stale held :=
  h.advance h.toTracked.letIn (Advances.letIn x).1

theorem acknowledge (h : x.Followed later seen judged stale held) :
    { x with now := x.now.acknowledged }.Followed later x.now.closes judged stale held := by
  have hhanded : x.now.acknowledged.handed = x.now.handed := by
    unfold Moment.acknowledged
    split
    next => exact Moment.handed_record_of_none _ rfl
    next => rfl
  have hleft : x.now.acknowledged.left = x.now.left := by
    unfold Moment.acknowledged
    split <;> rfl
  have hcloses : x.now.acknowledged.closes = x.now.closes := by
    unfold Moment.acknowledged
    split <;> rfl
  have hquiet : x.now.acknowledged.inbox.disconnectPending = false := by
    unfold Moment.acknowledged
    split <;> rfl
  refine { h.toTracked.acknowledge with noted := ?_, quiet := .inl hquiet, fates := ?_ }
  · intro m hm
    obtain ⟨hm, hmcloses, -⟩ := h.noted m hm
    exact ⟨hleft ▸ hm, hcloses ▸ hmcloses, fun _ => hmcloses⟩
  · intro place a ha
    rw [hhanded]
    exact h.fates place a ha

/-- A latched disconnect is passed on; the fates of writes that have left do not depend on it. -/
theorem passDisconnect (h : x.Followed later seen judged stale held) :
    let passed := Inbox.passDisconnect (engine answer) x
    passed.1 = UInt32.ofNat x.letIn.now.closes ∧
      passed.2.Followed later x.letIn.now.closes judged stale held ∧
      ∀ place < x.now.left, passed.2.before place = x.before place := by
  have hpause := h.letIn
  have hadvances := (Advances.letIn x).1
  have hleft : x.letIn.now.acknowledged.left = x.now.left := by
    rw [← hadvances.now.left]
    unfold Moment.acknowledged
    split <;> rfl
  intro passed
  refine ⟨(h.toTracked.passDisconnect answer).1, ?_⟩
  simp only [passed, passDisconnect_run]
  split
  next =>
    refine ⟨hpause.acknowledge.letIn, fun place hplace => ?_⟩
    rw [(Advances.letIn _).1.before_eq (hleft.symm ▸ hplace)]
    exact hadvances.before_eq hplace
  next => exact ⟨hpause.acknowledge, fun place hplace => hadvances.before_eq hplace⟩

/-- When a write is taken, its past ends. -/
theorem heard_next (h : x.Followed later seen judged stale none) (hnow : x.now ∈ x.past) :
    x.heard judged.length = some seen := by
  have hleft := h.left_eq
  have hall : x.before judged.length = x.past := by
    rw [before, List.filter_eq_self]
    intro m hm
    have := (h.noted m hm).1
    simp only [Option.toList_none, List.length_nil, Nat.add_zero] at hleft
    exact decide_eq_true (by omega)
  rw [heard, hall, List.max?_eq_some_iff]
  constructor
  · rcases h.quiet with hquiet | ⟨m, hm, hquiet, hcloses⟩
    · exact List.mem_map.2 ⟨x.now, by simp [hnow, hquiet], h.closes_eq hquiet⟩
    · exact List.mem_map.2 ⟨m, by simp [hm, hquiet], hcloses⟩
  · intro closes hcloses
    obtain ⟨m, hm, rfl⟩ := List.mem_map.1 hcloses
    obtain ⟨hm, hquiet⟩ := List.mem_filter.1 hm
    exact (h.noted m hm).2.2 (by simpa using hquiet)

theorem take (h : x.Followed later seen judged stale none) :
    let taken := Inbox.atomically (engine answer) Inbox.take x
    (taken.1 = none ∧ taken.2.Followed later seen judged stale none) ∨
      ∃ a, taken.1 = some a.write ∧ taken.2.Followed later seen judged stale (some a) ∧
        taken.2.heard judged.length = some seen := by
  have hpause := h.letIn
  have hnoted := (Advances.letIn x).2
  rw [atomically_run]
  rcases hpause.now.take with hnone | ⟨a, writes, hsome, hheld⟩
  · rw [hnone]
    exact .inl ⟨rfl, hpause⟩
  · have htaken := hpause.with_now hheld rfl
    have hleft := htaken.left_eq
    have hbefore := hpause.left_eq
    rw [hsome]
    refine .inr ⟨a, rfl, hpause.replace htaken ?_ rfl rfl hpause.fates, ?_⟩
    · rw [hbefore, hleft]
      exact Nat.le_succ _
    · exact hpause.heard_next hnoted

section Judge

variable {a : Arrival}

theorem handOver (h : x.Followed later seen judged stale (some a)) (hseen : a.connection = seen)
    (hfate : x.ClosedFate judged.length a True) :
    (Inbox.handOver (engine answer) a.write x).2.Followed later seen (judged ++ [a]) stale
      none := by
  have hhanded : (x.now.record (a.write.handedAt judged.length)).handed =
      x.now.handed ++ [judged.length] := by
    rw [Moment.handed_record, ControlWrite.place?_handedAt]
    rfl
  have hdone : { x with now := x.now.record (a.write.handedAt judged.length) }.Followed later seen
      (judged ++ [a]) stale none := by
    refine h.replace (h.with_now (h.now.handOver hseen) rfl) (Nat.le_refl _) rfl rfl ?_
    intro place b hb
    rw [hhanded, List.mem_append, List.mem_singleton]
    rcases getElem?_concat hb with hold | ⟨rfl, rfl⟩
    · have hne := (List.getElem?_eq_some_iff.1 hold).1.ne
      simpa [hne] using h.fates place b hold
    · simpa using hfate
  rw [handOver_run, Exchange.record, h.place_eq]
  exact hdone.letIn

theorem discard (h : x.Followed later seen judged stale (some a))
    (hclosed : a.connection < x.now.closes) (hfate : x.ClosedFate judged.length a False) :
    (Inbox.discard a.write x).2.Followed later seen (judged ++ [a]) (stale + 1) none := by
  have hnot : judged.length ∉ x.now.handed := fun hmem =>
    absurd (h.now.lt_of_handed hmem) (Nat.lt_irrefl _)
  have hdone : { x with now := { x.now with
      inbox := { x.now.inbox with stale := x.now.inbox.stale + 1 } } }.Followed later seen
      (judged ++ [a]) (stale + 1) none := by
    refine h.replace (h.with_now (h.now.discard hclosed) rfl) (Nat.le_refl _) rfl rfl ?_
    intro place b hb
    rcases getElem?_concat hb with hold | ⟨rfl, rfl⟩
    · exact h.fates place b hold
    · exact (congrArg (x.ClosedFate _ a) (eq_false hnot)).mpr hfate
  simpa [Inbox.discard] using hdone

end Judge

/-- The report of a full queue concerns no write of the queue. -/
theorem reportRefused (h : x.Followed later seen judged stale none) (epoch : UInt32) :
    (Inbox.reportRefused (engine answer) epoch x).2.Followed later seen judged stale none := by
  have hpause := h.letIn
  have htaken : { x.letIn with now := { x.letIn.now with
      inbox := { x.letIn.now.inbox with refused := none } } }.Followed later seen judged stale
      none :=
    hpause.replace (hpause.with_now { hpause.now with arrivals := hpause.now.arrivals } rfl)
      (Nat.le_refl _) rfl rfl hpause.fates
  rw [Inbox.reportRefused, bind_run, atomically_run]
  cases hrefused : x.letIn.now.inbox.refused with
  | none => simpa [Inbox.takeRefused, hrefused] using htaken
  | some w =>
    by_cases hepoch : w.epoch = epoch
    · simp only [Inbox.takeRefused, hrefused, hepoch, ↓reduceIte, bind_run, message_run, reject_run]
      refine (htaken.replace (htaken.with_now (htaken.now.reported rfl) rfl) (Nat.le_refl _) rfl
        rfl ?_).letIn
      intro place a ha
      rw [Moment.handed_record_of_none _ rfl]
      exact htaken.fates place a ha
    · simpa [Inbox.takeRefused, hrefused, hepoch] using htaken

end Followed

/-- Between two turns every write that has left the queue has met its fate. -/
def Settled (later : Nat) (x : Exchange) : Prop :=
  ∃ seen judged stale, x.Followed later seen judged stale none

def NextDue (later : Nat) (epoch : UInt32) (x : Exchange) : Prop :=
  ∃ seen judged stale, epoch = UInt32.ofNat seen ∧ x.Followed later seen judged stale none

/-- The write in hand left the queue when the engine had heard of all up to the epoch in mind. -/
def InHand (later : Nat) (epoch : UInt32) (w : ControlWrite) (x : Exchange) : Prop :=
  ∃ seen judged stale a, epoch = UInt32.ofNat seen ∧ w = a.write ∧
    x.Followed later seen judged stale (some a) ∧ x.heard judged.length = some seen

/-- It meets its fate if it is handed over just in the epoch in mind. -/
def Compared (later : Nat) (epoch : UInt32) (w : ControlWrite) (x : Exchange) : Prop :=
  ∃ seen judged stale a, epoch = UInt32.ofNat seen ∧ w = a.write ∧
    x.Followed later seen judged stale (some a) ∧ a.connection ≤ seen ∧
    x.ClosedFate judged.length a (a.connection = seen)

theorem fateSteps (later : Nat) : Inbox.TurnSteps (engine answer) (Settled later) (NextDue later)
    (InHand later) (Compared later) where
  begin := by
    rintro x ⟨seen, judged, stale, h⟩
    obtain ⟨hepoch, hpassed, -⟩ := h.passDisconnect answer
    exact ⟨_, judged, stale, hepoch, hpassed⟩
  take := by
    rintro _ x ⟨seen, judged, stale, rfl, h⟩
    rcases h.take answer with ⟨hnone, htaken⟩ | ⟨a, hsome, htaken, hheard⟩
    · rw [hnone]
      exact ⟨seen, judged, stale, rfl, htaken⟩
    · rw [hsome]
      exact ⟨seen, judged, stale, a, rfl, rfl, htaken, hheard⟩
  same := by
    rintro w x ⟨seen, judged, stale, a, hepoch, rfl, h, hheard⟩
    have hsame := h.epoch_eq_iff.1 hepoch
    refine ⟨seen, judged, stale, a, hepoch, rfl, h, hsame.le, fun _ => ?_⟩
    rw [hheard, hsame]
    simp
  look := by
    rintro _ _ hepoch x ⟨seen, judged, stale, a, rfl, rfl, h, hheard⟩
    obtain ⟨hnow, hpassed, hbefore⟩ := h.passDisconnect answer
    have hplace := hbefore judged.length (by rw [h.left_eq]; exact Nat.lt_succ_self _)
    refine ⟨_, judged, stale, a, hnow, rfl, hpassed, h.toTracked.letIn.connection_le, ?_⟩
    have hheard' : (Inbox.passDisconnect (engine answer) x).2.heard judged.length = some seen := by
      rw [heard, hplace]
      exact hheard
    have hne : a.connection ≠ seen := mt h.epoch_eq_iff.2 hepoch
    rintro ⟨m, hm, hclosed⟩
    have hpast : m ∈ x.past := List.mem_of_mem_filter (hplace ▸ hm)
    have hlate := (h.noted m hpast).2.1.trans (Advances.letIn x).1.now.closes
    rw [hheard', Option.some.injEq]
    omega
  handOver := by
    rintro _ x ⟨seen, judged, stale, a, hepoch, rfl, h, -, hfate⟩
    have hsame := h.epoch_eq_iff.1 hepoch
    rw [eq_true hsame] at hfate
    exact ⟨seen, _, stale, hepoch, h.handOver answer hsame hfate⟩
  discard := by
    rintro _ _ hepoch x ⟨seen, judged, stale, a, rfl, rfl, h, hle, hfate⟩
    have hne : a.connection ≠ seen := mt h.epoch_eq_iff.2 hepoch
    have hclosed := h.now.seen_le
    rw [eq_false hne] at hfate
    exact ⟨seen, _, _, rfl, h.discard (by omega) hfate⟩
  report := by
    rintro epoch x ⟨seen, judged, stale, -, h⟩
    exact ⟨seen, judged, stale, h.reportRefused answer epoch⟩

theorem next_settled {event : Event} (h : x.Settled (event.disconnects + later)) :
    (x.next answer event).Settled later := by
  obtain ⟨seen, judged, stale, h⟩ := h
  have hfew := h.few
  cases event with
  | radio event =>
    have hstart : x.Tracked (later + [event].countP RadioEvent.isDisconnect) seen judged stale
        none := by
      refine ⟨h.now, h.past, ?_⟩
      rw [Nat.add_comm later]
      exact hfew
    exact ⟨seen, judged, stale, h.advance hstart.after (.after x event)⟩
  | turn limit during =>
    have hstart : { x with coming := during }.Tracked later seen judged stale none := by
      refine ⟨h.now, h.past, ?_⟩
      simp only [Event.disconnects] at hfew
      dsimp only
      omega
    have hfollowed : { x with coming := during }.Followed later seen judged stale none :=
      { hstart with noted := h.noted, quiet := h.quiet, fates := h.fates }
    exact (fateSteps answer later).turn limit _ ⟨seen, judged, stale, hfollowed⟩

theorem run_settled {events : List Event}
    (h : x.Settled (events.map (·.disconnects)).sum) : (run answer events x).Settled 0 := by
  induction events generalizing x with
  | nil => exact h
  | cons event rest ih => exact ih (next_settled answer h)

/-- A write whose connection was closed before it was taken is handed over if and only if the engine
had then heard just of the disconnects before that connection; every other one is dropped. All
writes that were taken and not handed over are counted. -/
theorem fate_of_closed_write (level : LogLevel) {events : List Event}
    (hfew : (events.map (·.disconnects)).sum < 2 ^ 32) :
    let x := run answer events { level := level }
    (∀ place < x.now.left, ∀ a, x.now.arrivals[place]? = some a →
      (∃ m ∈ x.before place, a.connection < m.closes) →
      (place ∈ x.now.handed ↔ x.heard place = some a.connection)) ∧
    x.now.inbox.stale = UInt32.ofNat (x.now.left - x.now.handed.length) := by
  have hstart : Tracked { level := level } (events.map (·.disconnects)).sum 0 [] 0 none :=
    ⟨Moment.consistent_new, by simp, by simpa using hfew⟩
  have hfollowed : Followed { level := level } (events.map (·.disconnects)).sum 0 [] 0 none :=
    { hstart with noted := by simp, quiet := .inl rfl, fates := by simp }
  obtain ⟨seen, judged, stale, hend⟩ := run_settled answer ⟨0, [], 0, hfollowed⟩
  have hleft := hend.left_eq
  simp only [Option.toList_none, List.length_nil, Nat.add_zero] at hleft
  intro x
  refine ⟨?_, ?_⟩
  · intro place hplace a ha
    obtain ⟨waiting, hsplit, -⟩ := hend.now.arrivals
    refine hend.fates place a ?_
    rw [hsplit, Option.toList_none, List.append_nil,
      List.getElem?_append_left (hleft ▸ hplace)] at ha
    exact ha
  · have hcounted := hend.now.counted
    rw [hend.now.stale_eq, hleft, hcounted, Nat.add_sub_cancel_left]

/-- Of the writes of `crossing`, the first is dropped: the engine has heard of its disconnect. -/
theorem fate_of_crossing :
    let x := run (fun _ => .ok ()) crossing { level := .off }
    (∃ m ∈ x.before 0, 0 < m.closes) ∧ x.heard 0 = some 1 ∧ 0 ∉ x.now.handed ∧
      x.now.inbox.stale = 1 := by
  have hfew : (crossing.map (·.disconnects)).sum < 2 ^ 32 := by decide
  have hfate := (fate_of_closed_write (fun _ => .ok ()) .off hfew).1
  have hclosed : ∃ m ∈ (run (fun _ => .ok ()) crossing { level := .off }).before 0,
      0 < m.closes := by decide +kernel
  have hheard : (run (fun _ => .ok ()) crossing { level := .off }).heard 0 = some 1 := by
    decide +kernel
  have hgone := hfate 0 (by decide +kernel) ⟨0, [1], false, 0⟩ (by decide +kernel) hclosed
  refine ⟨hclosed, hheard, fun hhanded => ?_, by decide +kernel⟩
  have hzero := hheard.symm.trans (hgone.1 hhanded)
  cases hzero

/-- Two writes, and a disconnect while the engine is at work on the first. -/
def lateClose : List Event :=
  [.radio (.write [0x6f]), .radio .proceed, .radio (.write [0x6b]), .radio .proceed,
    .turn 10 [[], [], [.disconnect]]]

/-- The second write is executed although its connection was closed before it was taken. -/
theorem closed_write_handed :
    let x := run (fun _ => .ok ()) lateClose { level := .off }
    x.now.arrivals.map (·.connection) = [0, 0] ∧ (∃ m ∈ x.before 1, 0 < m.closes) ∧
      x.now.calls = [.received 0 [0x6f], .received 1 [0x6b]] ∧ x.now.inbox.stale = 0 := by
  decide +kernel

end Exchange

end LoadCell
