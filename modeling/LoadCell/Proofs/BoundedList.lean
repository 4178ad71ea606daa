import LoadCell.Proofs.Alike

/-!
A bounded queue is a list of bounded length. Whatever is called, the queue answers like the list, and
its count of overruns is the number of items that the list has lost, modulo 2^32. What leaves the list
leaves it at the front, so that without a clear nothing is lost or doubled but what is counted.
-/
namespace LoadCell

variable {α σ : Type} {n : ℕ}

inductive QueueCall (α : Type)
  | push (item : α)
  | pushOverwrite (item : α)
  | pop
  | peek
  | clear
  | size
  deriving DecidableEq

inductive QueueAnswer (α : Type)
  | done
  | taken (fits : Bool)
  | item (oldest : Option α)
  | number (size : ℕ)
  deriving DecidableEq

/-- Calls one after the other, each with its answer. -/
def serveCalls (serve : QueueCall α → StateM σ (QueueAnswer α)) :
    List (QueueCall α) → StateM σ (List (QueueCall α × QueueAnswer α))
  | [] => return []
  | call :: rest => do
    let answer ← serve call
    return (call, answer) :: (← serveCalls serve rest)

def BoundedQueue.serve (call : QueueCall α) : StateM (BoundedQueue α n) (QueueAnswer α) :=
  fun q => match call with
    | .push item => match q.push? item with
      | some pushed => (.taken true, pushed)
      | none => (.taken false, q)
    | .pushOverwrite item => (.done, q.pushOverwrite item)
    | .pop => match q.pop? with
      | some (item, rest) => (.item (some item), rest)
      | none => (.item none, q)
    | .peek => (.item q.peek?, q)
    | .clear => (.done, q.clear)
    | .size => (.number q.size, q)

/-- The items of a queue, oldest first, and how many were evicted from it. -/
structure BoundedList (α : Type) where
  items : List α := []
  evicted : ℕ := 0

namespace BoundedList

def append (l : BoundedList α) (item : α) : BoundedList α :=
  { l with items := l.items ++ [item] }

def evict (l : BoundedList α) : BoundedList α :=
  { items := l.items.tail, evicted := l.evicted + 1 }

/-- What a list of at most `n` items does. -/
def serve (n : ℕ) (call : QueueCall α) : StateM (BoundedList α) (QueueAnswer α) :=
  fun l => match call with
    | .push item =>
      if l.items.length < n then (.taken true, l.append item) else (.taken false, l)
    | .pushOverwrite item =>
      (.done, if l.items.length < n then l.append item else l.evict.append item)
    | .pop => (.item l.items.head?, { l with items := l.items.tail })
    | .peek => (.item l.items.head?, l)
    | .clear => (.done, { l with items := [] })
    | .size => (.number l.items.length, l)

end BoundedList

/-- A queue that stands for a list. -/
structure BoundedQueue.Represents (q : BoundedQueue α n) (l : BoundedList α) : Prop where
  items : q.toList = l.items
  overruns : q.overruns = UInt32.ofNat l.evicted

namespace BoundedQueue.Represents

variable {q : BoundedQueue α n} {l : BoundedList α} (h : q.Represents l)
include h

theorem size_eq : q.size = l.items.length := by rw [← h.items, length_toList]

theorem length_lt_iff : l.items.length < n ↔ q.size ≠ n := by
  have := h.size_eq
  have := q.size_le
  omega

theorem append {pushed : BoundedQueue α n} {item : α} (hlist : pushed.toList = q.toList ++ [item])
    (hoverruns : pushed.overruns = q.overruns) : pushed.Represents (l.append item) :=
  ⟨hlist.trans (by rw [h.items]; rfl), hoverruns.trans h.overruns⟩

theorem evict {pushed : BoundedQueue α n} {item : α}
    (hlist : pushed.toList = q.toList.tail ++ [item])
    (hoverruns : pushed.overruns = q.overruns + 1) : pushed.Represents (l.evict.append item) := by
  refine ⟨hlist.trans (by rw [h.items]; rfl), hoverruns.trans ?_⟩
  rw [h.overruns]
  exact (UInt32.ofNat_add _ 1).symm

theorem push (item : α) : let answer := BoundedQueue.serve (.push item) q
    let ideal := BoundedList.serve n (.push item) l
    answer.1 = ideal.1 ∧ answer.2.Represents ideal.2 := by
  dsimp only [BoundedQueue.serve, BoundedList.serve]
  cases hpush : q.push? item with
  | none =>
    have hfull := (push?_eq_none_iff q item).1 hpush
    rw [if_neg (mt h.length_lt_iff.1 (not_not.2 hfull))]
    exact ⟨rfl, h⟩
  | some pushed =>
    obtain ⟨hroom, hlist⟩ := toList_of_push? hpush
    rw [if_pos (h.length_lt_iff.2 hroom.ne)]
    exact ⟨rfl, h.append hlist (overruns_of_push? hpush)⟩

theorem pushOverwrite (item : α) :
    (q.pushOverwrite item).Represents
      (if l.items.length < n then l.append item else l.evict.append item) := by
  have hlist := toList_pushOverwrite q item
  have hoverruns := overruns_pushOverwrite q item
  by_cases hfull : q.size = n
  · rw [if_pos hfull] at hlist hoverruns
    rw [if_neg (mt h.length_lt_iff.1 (not_not.2 hfull))]
    exact h.evict hlist hoverruns
  · rw [if_neg hfull] at hlist hoverruns
    rw [if_pos (h.length_lt_iff.2 hfull)]
    exact h.append hlist hoverruns

theorem pop : let answer := BoundedQueue.serve .pop q
    let ideal := BoundedList.serve n .pop l
    answer.1 = ideal.1 ∧ answer.2.Represents ideal.2 := by
  dsimp only [BoundedQueue.serve, BoundedList.serve]
  rw [← h.items]
  cases hpop : q.pop? with
  | none =>
    rw [toList_of_pop?_none hpop]
    exact ⟨rfl, toList_of_pop?_none hpop, h.overruns⟩
  | some popped =>
    obtain ⟨item, rest⟩ := popped
    rw [toList_of_pop? hpop]
    exact ⟨rfl, rfl, (overruns_of_pop? hpop).trans h.overruns⟩

end BoundedQueue.Represents

/-- The queue answers a call like the list, and still stands for it. -/
theorem BoundedQueue.alike_serve (call : QueueCall α) :
    Alike (Represents (n := n)) (BoundedQueue.serve call) (BoundedList.serve n call) := by
  intro q l h
  cases call with
  | push item => exact h.push item
  | pushOverwrite item => exact ⟨rfl, h.pushOverwrite item⟩
  | pop => exact h.pop
  | peek => exact ⟨congrArg QueueAnswer.item (q.peek?_eq_head?.trans (by rw [h.items])), h⟩
  | clear => exact ⟨rfl, q.toList_clear, h.overruns⟩
  | size => exact ⟨congrArg QueueAnswer.number h.size_eq, h⟩

theorem BoundedQueue.alike_serveCalls (calls : List (QueueCall α)) :
    Alike (Represents (n := n)) (serveCalls BoundedQueue.serve calls)
      (serveCalls (BoundedList.serve n) calls) := by
  induction calls with
  | nil => exact .pure _
  | cons call rest ih => exact .bind (alike_serve call) fun _ => .bind ih fun _ => .pure _

/-- The items that calls brought in, in order. -/
def accepted (trace : List (QueueCall α × QueueAnswer α)) : List α :=
  trace.filterMap fun served => match served with
    | (.push item, .taken true) => some item
    | (.pushOverwrite item, _) => some item
    | _ => none

/-- The items that calls took out, in order. -/
def popped (trace : List (QueueCall α × QueueAnswer α)) : List α :=
  trace.filterMap fun served => match served with
    | (.pop, .item oldest) => oldest
    | _ => none

theorem accepted_cons (served : QueueCall α × QueueAnswer α)
    (rest : List (QueueCall α × QueueAnswer α)) :
    accepted (served :: rest) = accepted [served] ++ accepted rest :=
  List.filterMap_append (l := [served])

theorem popped_cons (served : QueueCall α × QueueAnswer α)
    (rest : List (QueueCall α × QueueAnswer α)) :
    popped (served :: rest) = popped [served] ++ popped rest :=
  List.filterMap_append (l := [served])

namespace BoundedList

/-- What becomes of the items of a list while calls are served: those that are gone were in front of
those that are left, and were popped or evicted. -/
def Flows (l : BoundedList α) (trace : List (QueueCall α × QueueAnswer α)) (l' : BoundedList α) :
    Prop :=
  ∃ gone, l.items ++ accepted trace = gone ++ l'.items ∧ (popped trace).Sublist gone ∧
    gone.length + l.evicted = (popped trace).length + l'.evicted

theorem Flows.cons {l l' l'' : BoundedList α} {served : QueueCall α × QueueAnswer α}
    {rest : List (QueueCall α × QueueAnswer α)} (h : l.Flows [served] l')
    (hrest : l'.Flows rest l'') : l.Flows (served :: rest) l'' := by
  obtain ⟨gone, hitems, hpopped, hcount⟩ := h
  obtain ⟨later, hitems', hpopped', hcount'⟩ := hrest
  refine ⟨gone ++ later, ?_, ?_, ?_⟩
  · rw [accepted_cons, ← List.append_assoc, hitems, List.append_assoc, hitems', List.append_assoc]
  · rw [popped_cons]
    exact hpopped.append hpopped'
  · rw [popped_cons, List.length_append, List.length_append]
    omega

/-- A call that takes no item away. -/
theorem flows_of_eq {l l' : BoundedList α} {served : QueueCall α × QueueAnswer α}
    (hitems : l'.items = l.items ++ accepted [served]) (hpopped : popped [served] = [])
    (hcount : l'.evicted = l.evicted) : l.Flows [served] l' :=
  ⟨[], hitems.symm, by rw [hpopped], by rw [hpopped, hcount]⟩

theorem flows_append (l : BoundedList α) (item : α) {served : QueueCall α × QueueAnswer α}
    (haccepted : accepted [served] = [item]) (hpopped : popped [served] = []) :
    l.Flows [served] (l.append item) :=
  flows_of_eq (by rw [haccepted]; rfl) hpopped rfl

/-- A served call keeps the flow, unless it is a clear. -/
theorem flows_serve (pos : 0 < n) (l : BoundedList α) {call : QueueCall α}
    (hcall : call ≠ .clear) :
    l.Flows [(call, (serve n call l).1)] (serve n call l).2 := by
  cases call with
  | push item =>
    dsimp only [serve]
    split
    next => exact flows_append l item rfl rfl
    next => exact flows_of_eq (List.append_nil _).symm rfl rfl
  | pushOverwrite item =>
    dsimp only [serve]
    split
    next => exact flows_append l item rfl rfl
    next hfull =>
      obtain ⟨oldest, rest, hitems⟩ := List.exists_cons_of_length_pos (l := l.items) (by omega)
      refine ⟨[oldest], ?_, List.nil_sublist _, ?_⟩
      · simp only [evict, append, hitems]
        rfl
      · show 1 + l.evicted = 0 + (l.evicted + 1)
        omega
  | pop =>
    dsimp only [serve]
    cases hitems : l.items with
    | nil => exact flows_of_eq (by rw [hitems]; rfl) rfl rfl
    | cons oldest rest =>
      refine ⟨[oldest], ?_, List.Sublist.refl _, rfl⟩
      rw [hitems]
      exact List.append_nil _
  | peek => exact flows_of_eq (List.append_nil _).symm rfl rfl
  | clear => exact absurd rfl hcall
  | size => exact flows_of_eq (List.append_nil _).symm rfl rfl

theorem flows_serveCalls (pos : 0 < n) (calls : List (QueueCall α)) (hcalls : .clear ∉ calls)
    (l : BoundedList α) :
    l.Flows (serveCalls (serve n) calls l).1 (serveCalls (serve n) calls l).2 := by
  induction calls generalizing l with
  | nil => exact ⟨[], List.append_nil _, List.Sublist.refl _, rfl⟩
  | cons call rest ih =>
    rw [List.mem_cons, not_or] at hcalls
    exact (flows_serve pos l (Ne.symm hcalls.1)).cons (ih hcalls.2 _)

end BoundedList

/-- The queue is a list of at most `n` items. Without a clear, the items popped are some of those
accepted, in the order in which they were accepted, and each item accepted was popped, is counted as an
overrun or is still there, unless the count has wrapped. -/
theorem BoundedQueue.refines_list [Inhabited α] (pos : 0 < n) (calls : List (QueueCall α)) :
    let served := serveCalls BoundedQueue.serve calls (empty pos : BoundedQueue α n)
    let ideal := serveCalls (BoundedList.serve n) calls {}
    served.1 = ideal.1 ∧ served.2.toList = ideal.2.items ∧ ideal.2.items.length ≤ n ∧
      served.2.overruns = UInt32.ofNat ideal.2.evicted ∧
      (.clear ∉ calls → (popped served.1).Sublist (accepted served.1) ∧
        (ideal.2.evicted < 2 ^ 32 → (accepted served.1).length =
          (popped served.1).length + served.2.overruns.toNat + served.2.size)) := by
  intro served ideal
  have hempty : (empty pos : BoundedQueue α n).Represents {} := ⟨rfl, rfl⟩
  obtain ⟨htrace, hq⟩ : served.1 = ideal.1 ∧ served.2.Represents ideal.2 :=
    alike_serveCalls calls _ _ hempty
  refine ⟨htrace, hq.items, ?_, hq.overruns, fun hcalls => ?_⟩
  · rw [← hq.size_eq]
    exact served.2.size_le
  obtain ⟨gone, hitems, hpopped, hcount⟩ : BoundedList.Flows {} ideal.1 ideal.2 :=
    BoundedList.flows_serveCalls pos calls hcalls {}
  rw [List.nil_append] at hitems
  change gone.length + 0 = _ at hcount
  rw [htrace, hitems]
  refine ⟨hpopped.trans (List.sublist_append_left _ _), fun hsmall => ?_⟩
  rw [hq.overruns, hq.size_eq, UInt32.toNat_ofNat_of_lt' hsmall, List.length_append]
  omega

theorem BoundedQueue.refines_list_evicting :
    let calls : List (QueueCall ℕ) := [.pushOverwrite 1, .pushOverwrite 2, .pushOverwrite 3,
      .push 4, .pop, .push 5, .peek, .pop, .size]
    let served := serveCalls BoundedQueue.serve calls (empty (by decide) : BoundedQueue ℕ 2)
    served.2.overruns = 1 ∧ popped served.1 = [2, 3] ∧ accepted served.1 = [1, 2, 3, 5] ∧
      (popped served.1).Sublist (accepted served.1) ∧ (accepted served.1).length =
        (popped served.1).length + served.2.overruns.toNat + served.2.size := by
  intro calls served
  obtain ⟨-, -, -, -, hflows⟩ := refines_list (n := 2) (by decide) calls
  obtain ⟨hpopped, hcount⟩ := hflows (by decide)
  exact ⟨rfl, rfl, rfl, hpopped, hcount (by decide)⟩

end LoadCell
