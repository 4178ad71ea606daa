import LoadCell.Proofs.PipelineLaw
import LoadCell.Proofs.StreamOrigin

/-!
A link that takes everything. A weight that is published on an open stream goes out before anything
else happens, so none is ever replaced by a later one.
-/
namespace LoadCell

/-- The weights that the link took. -/
def delivered (history : List Happening) : List Notification :=
  (history.filterMap (·.offer?)).filterMap (·.weight?)

@[simp] theorem delivered_append (history history' : List Happening) :
    delivered (history ++ history') = delivered history ++ delivered history' := by
  rw [delivered, List.filterMap_append, List.filterMap_append]
  rfl

/-- The frame of a weight that is published on an open stream. -/
def Tally.due (t : Tally) (happening : Happening) : Option Notification :=
  happening.sample?.bind fun _ => (t.add happening).latest?

/-- The frames of all weights published on open streams from a tally on. -/
def due (t : Tally) : List Happening → List Notification
  | [] => []
  | happening :: rest => (t.due happening).toList ++ due (t.add happening) rest

theorem due_append (t : Tally) (history history' : List Happening) :
    due t (history ++ history') = due t history ++ due (history.foldl .add t) history' := by
  induction history generalizing t with
  | nil => rfl
  | cons happening rest ih => rw [List.cons_append, due, ih, due, List.append_assoc]; rfl

theorem due_of_quiet {history : List Happening} (h : ∀ happening ∈ history, happening.sample? = none)
    (t : Tally) : due t history = [] := by
  induction history generalizing t with
  | nil => rfl
  | cons happening rest ih =>
    obtain ⟨hfirst, hrest⟩ := List.forall_mem_cons.1 h
    rw [due, ih hrest, Tally.due, hfirst]
    rfl

/-- Whenever something other than an offer happened, every weight due had gone out. -/
def Caught (past : List Happening) : Prop :=
  ∀ before happening, before ++ [happening] <+: past → happening.offer? = none →
    delivered before = due {} before

/-- Nor is any weight due at the end. -/
structure Prompt (past : List Happening) : Prop where
  caught : Caught past
  all : delivered past = due {} past

theorem Caught.concat {past : List Happening} (h : Caught past) {happening : Happening}
    (hall : happening.offer? = none → delivered past = due {} past) :
    Caught (past ++ [happening]) := by
  intro before last hprefix hmark
  rcases List.prefix_concat_iff.1 hprefix with heq | hold
  · obtain ⟨rfl, hlast⟩ := List.append_inj' heq rfl
    exact hall (List.singleton_inj.1 hlast ▸ hmark)
  · exact h before last hold hmark

theorem Caught.offers {past : List Happening} (h : Caught past) (offers : List Offer) :
    Caught (past ++ offers.map .offered) := by
  induction offers using List.reverseRecOn with
  | nil => simpa using h
  | append_singleton offers offer ih =>
    rw [List.map_append, List.map_singleton, ← List.append_assoc]
    exact ih.concat nofun

theorem prompt_nil : Prompt [] where
  caught := by simp [Caught]
  all := rfl

namespace Prompt

variable {past : List Happening} (h : Prompt past)
include h

/-- Nothing is published and no weight goes out. -/
theorem quiet {new : List Happening} (hnew : ∀ happening ∈ new, happening.sample? = none)
    (hnone : delivered new = []) : Prompt (past ++ new) := by
  induction new using List.reverseRecOn with
  | nil => simpa using h
  | append_singleton new happening ih =>
    rw [delivered_append] at hnone
    obtain ⟨hold, hlast⟩ := List.append_eq_nil_iff.1 hnone
    obtain ⟨hearlier, hquiet⟩ := List.forall_mem_append.1 hnew
    have hprompt := ih hearlier hold
    rw [← List.append_assoc]
    refine ⟨hprompt.caught.concat fun _ => hprompt.all, ?_⟩
    rw [delivered_append, hlast, due_append, due_of_quiet hquiet, hprompt.all]

/-- A weight is published, and what is due goes out. -/
theorem published {happening : Happening} (hmark : happening.offer? = none) {offers : List Offer}
    (hsent : delivered (offers.map .offered) = ((tally past).due happening).toList) :
    Prompt (past ++ happening :: offers.map .offered) := by
  rw [List.append_cons]
  refine ⟨(h.caught.concat fun _ => h.all).offers offers, ?_⟩
  have hnone : delivered [happening] = [] := by simp [delivered, hmark]
  have hquiet : ∀ g ∈ offers.map Happening.offered, g.sample? = none := by
    simp [Happening.sample?]
  rw [delivered_append, delivered_append, hnone, hsent, due_append, due_append,
    due_of_quiet hquiet, ← h.all]
  simp [due, tally]

/-- What went out after a stream was started is what was due since then. -/
theorem delivered_since {before during : List Happening} {now : UInt32}
    (hpast : past = before ++ .started now :: during) :
    delivered during = due (tally (before ++ [.started now])) during := by
  have hall := h.all
  have hbefore : delivered before = due {} before :=
    h.caught before (.started now) (by simp [hpast]) rfl
  rw [hpast, List.append_cons, delivered_append, delivered_append, due_append, due_append,
    ← hbefore, List.append_assoc, List.append_assoc] at hall
  exact List.append_cancel_left hall

end Prompt

namespace Core

variable {ω : Type}

/-- The link takes everything, only answers wait, and these are the weights that the link took. -/
structure Calm (taken : List Notification) (s : Core ω) : Prop where
  accepting : ∀ n, s.script n = .ok
  sent : s.chain.protocol.weightPending = false
  answers : ∀ frame ∈ s.chain.protocol.responses.toList, frame.isWeight = false
  taken : s.offers.filterMap (·.weight?) = taken

namespace Calm

variable {taken : List Notification}

theorem withProtocol {s : Core ω} (h : s.Calm taken) {p : Protocol}
    (hsent : p.weightPending = false)
    (hanswers : ∀ frame ∈ p.responses.toList, frame.isWeight = false) :
    (s.withProtocol p).Calm taken :=
  ⟨h.accepting, hsent, hanswers, h.taken⟩

theorem keeps_of_same {α : Type} {x : StateM (Core ω) α}
    (hprotocol : ∀ s, (x s).2.chain.protocol = s.chain.protocol)
    (hscript : ∀ s, (x s).2.script = s.script) (hoffers : ∀ s, (x s).2.offers = s.offers) :
    Keeps (Calm taken) x := by
  intro s h
  constructor
  · exact hscript s ▸ h.accepting
  · exact hprotocol s ▸ h.sent
  · exact hprotocol s ▸ h.answers
  · exact (congrArg _ (hoffers s)).trans h.taken

theorem keeps_edit {f : Protocol → Protocol}
    (hsent : ∀ p : Protocol, p.weightPending = false → (f p).weightPending = false)
    (hanswers : ∀ p : Protocol, (f p).responses.toList ⊆ p.responses.toList) :
    Keeps (Calm taken : Core ω → Prop) (Protocol.edit f) :=
  fun s h => h.withProtocol (hsent _ h.sent) fun frame hframe =>
    h.answers frame (hanswers s.chain.protocol hframe)

theorem keeps_queueResponse {frame : Notification} (hframe : frame.isWeight = false) :
    Keeps (Calm taken : Core ω → Prop) (Protocol.queueResponse frame) := by
  refine Protocol.keeps_queueResponse (fun _ _ h => h) (fun s h responses hpush => ?_)
    (keeps_edit (fun _ h => h) fun _ => List.Subset.refl _)
  refine h.withProtocol (p := { s.chain.protocol with responses := responses }) h.sent ?_
  rw [(BoundedQueue.toList_of_push? hpush).2]
  exact List.forall_mem_append.2 ⟨h.answers, List.forall_mem_singleton.2 hframe⟩

theorem submitAnswer {s : Core ω} (h : s.Calm taken) {frame : Notification}
    (hpeek : s.chain.protocol.responses.peek? = some frame) :
    (Protocol.submit link (pure frame) s).2.Calm taken := by
  have hreply : s.reply = .ok := h.accepting _
  have hframe : frame.isWeight = false := by
    rw [BoundedQueue.peek?_eq_head?] at hpeek
    exact h.answers frame (List.mem_of_head? hpeek)
  have hnone : Offer.weight? ⟨frame, s.reply⟩ = none := by simp [Offer.weight?, hframe]
  rw [submit_run s (pure frame) fun _ => rfl, if_pos hreply, pure_run]
  refine ⟨h.accepting, h.sent, h.answers, ?_⟩
  show (s.offers ++ [(⟨frame, s.reply⟩ : Offer)]).filterMap (·.weight?) = taken
  rw [List.filterMap_append, h.taken, List.filterMap_cons_none hnone, List.filterMap_nil,
    List.append_nil]

theorem keeps_discard :
    Keeps (Calm taken : Core ω → Prop) (Protocol.edit Protocol.discardPending) :=
  keeps_edit (fun _ _ => rfl) fun p => by simp [Protocol.discardPending]

theorem keeps_poll : Keeps (Calm taken : Core ω → Prop) (Protocol.poll link) := by
  refine Protocol.keeps_poll (Protocol.keeps_drainResponses ?_ keeps_discard ?_ _)
    (Protocol.keeps_sendWeight ?_ keeps_discard ?_)
  · exact fun s h frame hpeek => h.submitAnswer hpeek
  · apply keeps_edit
    · intro p hp
      obtain ⟨responses, hdrop, -⟩ := p.dropOldestResponse_eq
      rwa [hdrop]
    · intro p
      obtain ⟨responses, hdrop, htail⟩ := p.dropOldestResponse_eq
      rw [hdrop, htail]
      exact List.tail_subset _
  · intro s h hpending
    rw [show Holds.part s = s.chain.protocol from rfl, h.sent] at hpending
    cases hpending
  · exact keeps_edit (fun _ _ => rfl) fun p => List.Subset.refl _

theorem logKeeps : LogKeeps (Calm taken : Core ω → Prop) := fun _ _ h => h

theorem answers_calm : Protocol.Answers fun s t : Core ω => s = t ∧ s.Calm taken :=
  .of_keeps logKeeps (fun _ h => keeps_queueResponse h.isWeight) fun _ _ =>
    keeps_edit (fun _ h => h) fun _ => List.Subset.refl _

section Engine

variable (medium : Medium ω) (clock : StateM ω UInt32)

theorem serves_calm : Protocol.Serves (board medium clock) (board medium clock)
    fun s t => s = t ∧ s.Calm taken := by
  have hworld {α : Type} (x : StateM ω α) : Keeps (Calm taken) (inWorld x) :=
    keeps_of_same (fun _ => rfl) (fun _ => rfl) fun _ => rfl
  refine .of_keeps answers_calm (fun _ _ h => ?_) (fun _ _ h => ?_)
    (medium.keeping_within hworld)
  · exact ⟨h.accepting, h.sent, h.answers, h.taken⟩
  · exact ⟨h.accepting, h.sent, h.answers, h.taken⟩

theorem keeps_receive (frame : Bytes) :
    Keeps (Calm taken) (Protocol.receive (board medium clock) frame) := by
  apply Keeps.of_alike
  apply (serves_calm medium clock).receive
  · exact keeps_poll.alike
  · exact (keeps_of_same (fun _ => rfl) (fun _ => rfl) fun _ => rfl).alike
  · apply Keeps.alike
    apply Protocol.keeps_startStream logKeeps
    · exact keeps_of_same (fun _ => rfl) (fun _ => rfl) fun _ => rfl
    · exact keeps_edit (fun _ h => h) fun _ => List.Subset.refl _
    · exact fun _ => keeps_edit (fun _ _ => rfl) fun _ => List.Subset.refl _
  · apply Keeps.alike
    exact Protocol.keeps_stopStream logKeeps
      (keeps_edit (fun _ _ => rfl) fun _ => List.Subset.refl _)

/-- Calls that publish nothing. -/
theorem called_quiet {s : Core ω} (h : s.Calm taken) {call : Call ω}
    (hcall : ∀ weight time, call ≠ .publishWeight weight time) :
    (s.called (board medium clock) call).Calm taken := by
  cases call with
  | receive frame => exact keeps_receive medium clock frame s h
  | reject opcode code =>
    have hkeeps : Keeps (Calm taken : Core ω → Prop) (Protocol.reject link opcode code) :=
      .of_alike (answers_calm.reject keeps_poll.alike (keeps_queueResponse rfl).alike)
    exact hkeeps s h
  | publishWeight weight time => exact absurd rfl (hcall weight time)
  | poll => exact keeps_poll s h
  | disconnected =>
    refine Protocol.keeps_disconnected logKeeps (keeps_edit (fun _ _ => rfl) fun _ => ?_) s h
    simp [Protocol.discardPending]
  | setBattery millivolts low =>
    exact Protocol.keeps_setBattery logKeeps
      (keeps_edit (fun _ h => h) fun _ => List.Subset.refl _) s h
  | recordError text => exact Keeps.of_alike (answers_calm.recordError text) s h
  | setOrder order =>
    have hkeeps : Keeps (Calm taken : Core ω → Prop) (Protocol.setOrder order) :=
      keeps_edit (fun _ h => h) fun _ => List.Subset.refl _
    exact hkeeps s h
  | elsewhere level chain world => exact ⟨h.accepting, h.sent, h.answers, h.taken⟩

/-- A weight that is published on an open stream is taken at once. -/
theorem publishWeight {s : Core ω} {past : List Happening} (h : s.Calm taken)
    (hcurrent : Current s.chain.protocol past) (weight : Float32) (time : UInt32) :
    (Protocol.publishWeight link weight time s).2.Calm
      (taken ++ ((tally past).due (.published weight time)).toList) := by
  by_cases hopen : s.chain.protocol.stream = .streaming
  · obtain ⟨stream, hstream⟩ := Option.isSome_iff_exists.1 (hcurrent.inStep.stream.1 hopen)
    have horigin := hcurrent.inStep.origin stream hstream
    have hdue : (tally past).due (.published weight time) =
        some (.weight weight (Protocol.elapsed s.chain.protocol.origin time)) := by
      simp [Tally.due, Happening.sample?, Tally.add, hstream, Tally.latest?, OpenStream.publish,
        horigin]
    obtain ⟨responses, sent, hrun, hnone⟩ := publishWeight_run h.accepting hopen weight time
    rw [hrun, hdue]
    refine ⟨h.accepting, rfl, ?_, ?_⟩
    · rw [withProtocol_protocol, hnone]
      simp
    · have hweights := weights_deliver s h.answers weight
        (Protocol.elapsed s.chain.protocol.origin time)
      rw [h.taken] at hweights
      exact hweights
  · have hnone : (tally past).stream = none := by
      rw [← Option.not_isSome_iff_eq_none, ← hcurrent.inStep.stream]
      exact hopen
    have hdue : (tally past).due (.published weight time) = none := by
      simp [Tally.due, Happening.sample?, Tally.add, hnone, Tally.latest?]
    have hstays : (Protocol.publishWeight link weight time s).2 = s := by
      have hidle : s.chain.protocol.isStreaming = false := decide_eq_false hopen
      rw [Protocol.publishWeight, bind_run, getPart_protocol]
      simp only [hidle, Bool.false_eq_true, ↓reduceIte, pure_run]
    rw [hstays, hdue, Option.toList_none, List.append_nil]
    exact h

end Engine

end Calm

section Run

variable (medium : Medium ω) (clock : StateM ω UInt32)

/-- Only publishing brings samples into a history. -/
theorem sample_happenings (s : Core ω) {call : Call ω}
    (hcall : ∀ weight time, call ≠ .publishWeight weight time) :
    ∀ happening ∈ s.happenings (board medium clock) call, happening.sample? = none := by
  have hoffers (s t : Core ω) : ∀ happening ∈ s.offersSince t, happening.sample? = none := by
    intro happening hmem
    obtain ⟨offer, -, rfl⟩ := List.mem_map.1 hmem
    rfl
  cases call with
  | receive frame =>
    refine List.forall_mem_append.2 ⟨hoffers _ _, List.forall_mem_append.2 ⟨?_, hoffers _ _⟩⟩
    unfold commandIn
    dsimp only
    split
    next => simp [Happening.sample?]
    next => simp [Happening.sample?]
    next => simp
  | publishWeight weight time => exact absurd rfl (hcall weight time)
  | disconnected => exact List.forall_mem_cons.2 ⟨rfl, hoffers _ _⟩
  | reject | poll | setBattery | recordError | setOrder | elsewhere => exact hoffers _ _

theorem prompt_called {s : Core ω} {past : List Happening} {taken : List Notification}
    (hcalm : s.Calm taken) (hcurrent : Current s.chain.protocol past) (hprompt : Prompt past)
    (call : Call ω) :
    Prompt (past ++ s.happenings (board medium clock) call) ∧
      ∃ taken', (s.called (board medium clock) call).Calm taken' := by
  have htold := told_called medium clock hcurrent call
  -- what the link took in the call is what the offers have gained
  have hgained {taken'} (h : (s.called (board medium clock) call).Calm taken') :
      taken' = taken ++ delivered (s.happenings (board medium clock) call) := by
    rw [← h.taken, htold.offers, List.filterMap_append, hcalm.taken]
    rfl
  by_cases hcall : ∃ weight time, call = .publishWeight weight time
  · obtain ⟨weight, time, rfl⟩ := hcall
    have hafter := hcalm.publishWeight hcurrent weight time
    have hsent := List.append_cancel_left (hgained hafter)
    exact ⟨hprompt.published rfl hsent.symm, _, hafter⟩
  · push Not at hcall
    have hafter := hcalm.called_quiet medium clock hcall
    have hnone := List.self_eq_append_right.1 (hgained hafter)
    exact ⟨hprompt.quiet (sample_happenings medium clock s hcall) hnone, _, hafter⟩

/-- Over a link that takes everything, nothing else happens before a published weight is out. -/
theorem prompt_calledAll (calls : List (Call ω)) {s : Core ω} {past : List Happening}
    {taken : List Notification} (hcalm : s.Calm taken) (hcurrent : Current s.chain.protocol past)
    (hprompt : Prompt past) : Prompt (past ++ history (board medium clock) calls s) := by
  induction calls generalizing s past taken with
  | nil => simpa [history] using hprompt
  | cons call rest ih =>
    obtain ⟨hfirst, taken', hafter⟩ := prompt_called medium clock hcalm hcurrent hprompt call
    rw [history, ← List.append_assoc]
    exact ih hafter (told_called medium clock hcurrent call).current hfirst

end Run

end Core

end LoadCell
