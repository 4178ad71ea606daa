import LoadCell.Proofs.Air
import LoadCell.Proofs.InboxInvariant

/-!
Which notifications reach the peer of a later connection. What the engine holds back belongs to the
connection that it was told of last. So a notification goes to its own connection unless the engine
has yet to hear of a disconnect; then it goes to a later one.
-/
namespace LoadCell

/-- A notification is for the connection that is up, unless a disconnect is latched: then it is of
an earlier one. -/
def Delivery.Proper (d : Delivery) : Prop :=
  (d.latched = false → d.owner = d.peer) ∧ (d.latched = true → d.owner < d.peer)

/-- A change of the engine by which nothing comes in but from the write at work. -/
structure Protocol.Derives (p q : Protocol) (mine : Prop) : Prop where
  answers : q.responses.size ≤ p.responses.size ∨ mine
  replies : ∀ frame ∈ q.responses.toList, frame ∈ p.responses.toList ∨ frame.isWeight = false
  stream : q.isStreaming = true → p.isStreaming = true ∨ mine
  weight : q.weightPending = true → q.pendingWeight = p.pendingWeight ∨ p.isStreaming = true
  isWeight : p.weight.isWeight = true → q.weight.isWeight = true

/-- What the queue, the stream and the weight have no part in. -/
theorem Protocol.Derives.aside {p q : Protocol} {mine : Prop}
    (hresponses : q.responses = p.responses) (hstream : q.stream = p.stream)
    (hweight : q.weight = p.weight) (hpending : q.weightPending = p.weightPending) :
    p.Derives q mine where
  answers := .inl (hresponses ▸ Nat.le_refl _)
  replies frame hframe := .inl (hresponses ▸ hframe)
  stream h := .inl (by rwa [Protocol.isStreaming, hstream] at h)
  weight _ := .inl (by rw [Protocol.pendingWeight, Protocol.pendingWeight, hweight, hpending])
  isWeight h := hweight ▸ h

theorem Protocol.Derives.refl (p : Protocol) (mine : Prop) : p.Derives p mine :=
  .aside rfl rfl rfl rfl

theorem Protocol.isSome_pendingWeight (p : Protocol) :
    p.pendingWeight.isSome = p.weightPending := by
  unfold pendingWeight
  split
  next h => exact h.symm
  next h => exact (Bool.eq_false_of_not_eq_true h).symm

theorem Inbox.taken?_eq_none {old new : Inbox} (hwrites : old.writes.size ≤ new.writes.size)
    (hrefused : new.refused = none → old.refused = none) : old.taken? new = none := by
  rw [taken?, if_neg (Nat.not_lt.2 hwrites)]
  split
  next hnone => exact hrefused (Option.isNone_iff_eq_none.1 hnone)
  next => rfl

/-- Queued or refused, a write takes nothing out. -/
theorem Inbox.write_eq (box : Inbox) (data : Bytes) : ∃ writes refused dropped,
    (box.write data).2 = { box with writes := writes, refused := refused, dropped := dropped } ∧
      box.writes.size ≤ writes.size ∧ (refused = none → box.refused = none) := by
  unfold write
  dsimp only
  cases hroom : box.enqueue (box.tagged data) with
  | some queued =>
    obtain ⟨writes, rfl, hlist⟩ := enqueue_eq_some hroom
    have hsize := congrArg List.length hlist
    rw [List.length_append, BoundedQueue.length_toList, BoundedQueue.length_toList] at hsize
    exact ⟨writes, box.refused, box.dropped, rfl, by omega, id⟩
  | none =>
    refine ⟨box.writes, box.refused <|> some (box.tagged data), box.dropped + 1, rfl,
      Nat.le_refl _, ?_⟩
    cases box.refused <;> simp

theorem Owners.after_of_same (o : Owners) {old new : Chain}
    (hprotocol : new.protocol = old.protocol) (hnone : old.inbox.taken? new.inbox = none) :
    o.after old new = o := by
  simp [after, hprotocol, hnone]

namespace Air

variable {ω : Type} {s : Air ω}

def withChain (s : Air ω) (chain : Chain) : Air ω :=
  { s with chain := chain, owners := s.owners.after s.chain chain }

def withProtocol (s : Air ω) (p : Protocol) : Air ω :=
  s.withChain { s.chain with protocol := p }

def withInbox (s : Air ω) (box : Inbox) : Air ω := s.withChain { s.chain with inbox := box }

theorem withInbox_eq {box : Inbox} (hnone : s.chain.inbox.taken? box = none) :
    s.withInbox box = { s with chain := { s.chain with inbox := box } } := by
  have howners : s.owners.after s.chain { s.chain with inbox := box } = s.owners :=
    s.owners.after_of_same rfl hnone
  rw [withInbox, withChain, howners]

section Runs

variable (s : Air ω)

@[simp] theorem getPart_protocol : getPart Protocol s = (s.chain.protocol, s) := rfl

@[simp] theorem getPart_inbox : getPart Inbox s = (s.chain.inbox, s) := rfl

@[simp] theorem getPart_radio : getPart Radio s = (s.radio, s) := rfl

@[simp] theorem setPart_inbox (box : Inbox) : setPart box s = ((), s.withInbox box) := rfl

@[simp] theorem edit_run (f : Protocol → Protocol) :
    Protocol.edit f s = ((), s.withProtocol (f s.chain.protocol)) := rfl

@[simp] theorem radioEdit_run (f : Radio → Radio) :
    Radio.edit f s = ((), { s with radio := f s.radio }) := rfl

end Runs

/-- All that the engine holds back belongs to the connection that it was told of. -/
structure Working (later : Nat) (told author : UInt32) (pending : Bool) (s : Air ω) : Prop where
  author_eq : s.owners.author = author
  pending_eq : s.chain.inbox.disconnectPending = pending
  answers : s.owners.answers = List.replicate s.chain.protocol.responses.size told
  replies : ∀ frame ∈ s.chain.protocol.responses.toList, frame.isWeight = false
  stream : s.chain.protocol.isStreaming = true → s.owners.stream = told
  weight : s.chain.protocol.weightPending = true → s.owners.weight = told
  isWeight : s.chain.protocol.weight.isWeight = true
  quiet : pending = false → s.chain.inbox.epoch = told
  latched : pending = true → told < s.chain.inbox.epoch
  /-- The epochs do not come round again. -/
  few : s.chain.inbox.epoch.toNat + later < 2 ^ 32
  proper : ∀ d ∈ s.deliveries, d.Proper

variable {later : Nat} {told author : UInt32} {pending : Bool}

/-- Changes of the engine keep all that is held back with its connection; what leaves the inbox
becomes the write at work. -/
theorem Working.withChain (h : s.Working later told author pending) {chain : Chain}
    {author' : UInt32} (hepoch : chain.inbox.epoch = s.chain.inbox.epoch)
    (hpending : chain.inbox.disconnectPending = s.chain.inbox.disconnectPending)
    (hauthor : ((s.chain.inbox.taken? chain.inbox).map (·.epoch)).getD author = author')
    (hp : s.chain.protocol.Derives chain.protocol (author = told)) :
    (s.withChain chain).Working later told author' pending where
  author_eq := by
    rw [← hauthor, ← h.author_eq]
    rfl
  pending_eq := hpending.trans h.pending_eq
  answers := by
    show s.owners.answers.drop _ ++ List.replicate _ s.owners.author = _
    rw [h.answers, h.author_eq, List.drop_replicate]
    dsimp only [Air.withChain]
    rcases hp.answers with hle | rfl
    · have hnone : chain.protocol.responses.size - s.chain.protocol.responses.size = 0 := by omega
      rw [hnone, List.replicate_zero, List.append_nil]
      congr 1
      omega
    · rw [List.replicate_append_replicate]
      congr 1
      omega
  replies := by
    intro frame hframe
    rcases hp.replies frame hframe with hold | hnew
    · exact h.replies frame hold
    · exact hnew
  stream := by
    intro hstream
    change chain.protocol.isStreaming = true at hstream
    show (if _ then s.owners.author else s.owners.stream) = told
    cases hold : s.chain.protocol.isStreaming with
    | true => simpa using h.stream hold
    | false =>
      have hmine := (hp.stream hstream).resolve_left (by simp [hold])
      simp [hstream, h.author_eq, hmine]
  weight := by
    intro hweight
    have hsome := chain.protocol.isSome_pendingWeight.trans hweight
    show (if chain.protocol.pendingWeight.isSome &&
        decide (chain.protocol.pendingWeight ≠ s.chain.protocol.pendingWeight)
      then s.owners.stream else s.owners.weight) = told
    by_cases hsame : chain.protocol.pendingWeight = s.chain.protocol.pendingWeight
    · have hold : s.chain.protocol.weightPending = true := by
        rw [← Protocol.isSome_pendingWeight, ← hsame]
        exact hsome
      simpa [hsame] using h.weight hold
    · have hstream := (hp.weight hweight).resolve_left hsame
      simpa [hsome, hsame] using h.stream hstream
  isWeight := hp.isWeight h.isWeight
  quiet := hepoch ▸ h.quiet
  latched := hepoch ▸ h.latched
  few := hepoch ▸ h.few
  proper := h.proper

theorem Working.withProtocol (h : s.Working later told author pending) {p : Protocol}
    (hp : s.chain.protocol.Derives p (author = told)) :
    (s.withProtocol p).Working later told author pending :=
  h.withChain rfl rfl (by simp [Inbox.taken?_eq_none]) hp

theorem Working.elsewhere (h : s.Working later told author pending) {chain : Chain}
    (hinbox : chain.inbox = s.chain.inbox) (hprotocol : chain.protocol = s.chain.protocol) :
    (s.withChain chain).Working later told author pending :=
  h.withChain (by rw [hinbox]) (by rw [hinbox]) (by simp [hinbox, Inbox.taken?_eq_none])
    (hprotocol ▸ .refl _ _)

theorem Working.withInbox (h : s.Working later told author pending) {box : Inbox}
    {author' : UInt32} (hepoch : box.epoch = s.chain.inbox.epoch)
    (hpending : box.disconnectPending = s.chain.inbox.disconnectPending)
    (hauthor : ((s.chain.inbox.taken? box).map (·.epoch)).getD author = author') :
    (s.withInbox box).Working later told author' pending :=
  h.withChain hepoch hpending hauthor (.refl _ _)

theorem Working.editInbox (h : s.Working later told author pending) {box : Inbox}
    (hepoch : box.epoch = s.chain.inbox.epoch)
    (hpending : box.disconnectPending = s.chain.inbox.disconnectPending)
    (hnone : s.chain.inbox.taken? box = none) :
    (s.withInbox box).Working later told author pending :=
  h.withInbox hepoch hpending (by rw [hnone]; rfl)

theorem keeps_edit {f : Protocol → Protocol}
    (hf : ∀ p : Protocol, p.Derives (f p) (author = told)) :
    Keeps (Working (ω := ω) later told author pending) (Protocol.edit f) :=
  fun s h => h.withProtocol (hf s.chain.protocol)

section Sending

variable (around : Surroundings ω)

theorem logKeeps_working : LogKeeps (Working (ω := ω) later told author pending) := fun _ _ h => h

theorem keeps_inWorld {α : Type} (x : StateM ω α) :
    Keeps (Working later told author pending) (inWorld x) :=
  fun _ h => { h with }

theorem keeps_radioEdit (f : Radio → Radio) :
    Keeps (Working (ω := ω) later told author pending) (Radio.edit f) :=
  fun _ h => { h with }

theorem keeps_noteStatus (status : NotifyStatus) (code : Int) :
    Keeps (Working (ω := ω) later told author pending) (Radio.noteStatus status code) := by
  unfold Radio.noteStatus
  cases status with
  | success => exact .pure _
  | gattError => exact keeps_radioEdit _
  | noClient => exact keeps_radioEdit _
  | disabled => exact keeps_radioEdit _
  | indicationDone => exact logKeeps_working.debug _ _
  | indicationTimeout => exact logKeeps_working.debug _ _
  | indicationFailure => exact logKeeps_working.debug _ _

/-- A notification that belongs to the connection that the engine was told of goes out properly. -/
theorem Working.note (h : s.Working later told author pending) {value : Bytes}
    (howner : s.ownerOf value = told) :
    (s.note value).Working later told author pending := by
  refine { h with proper := ?_ }
  intro d hd
  rcases List.mem_append.1 hd with hold | hnew
  · exact h.proper d hold
  · cases List.mem_singleton.1 hnew
    refine ⟨fun hnone => ?_, fun hlatched => ?_⟩
    · exact howner.trans (h.quiet (h.pending_eq.symm.trans hnone)).symm
    · exact howner ▸ h.latched (h.pending_eq.symm.trans hlatched)

theorem Working.send (h : s.Working later told author pending)
    (lent : StateM (Air ω) Notification) (hlent : ∀ t, (lent t).2 = t)
    (howner : ∀ radio, ({ s with radio := radio } : Air ω).ownerOf
      (lent { s with radio := radio }).1.encode = told) :
    ((Radio.link (hardware around)).send lent s).2.Working later told author pending := by
  have hreport : ∀ (t : Air ω) value, t.Working later told author pending →
      t.ownerOf value = told →
      ((hardware around).notify value Radio.noteStatus t).2.Working later told author pending := by
    intro t value ht hvalue
    have hheard : Keeps (Working later told author pending) (do
        (← inWorld (around.hear value)).forM fun status =>
          Radio.noteStatus status.1 status.2) :=
      .bind (keeps_inWorld _) fun heard => .forM (fun _ => keeps_noteStatus _ _) heard
    exact hheard _ (ht.note hvalue)
  simp only [Radio.link, bind_run, getPart_radio]
  by_cases hup : s.radio.connected && s.radio.serving
  · simp only [hup, Bool.not_true, Bool.false_eq_true, ↓reduceIte, bind_run, radioEdit_run, hlent]
    exact hreport _ _ { h with } (howner _)
  · simp only [hup, Bool.not_false, ↓reduceIte]
    exact h

theorem Working.submit (h : s.Working later told author pending)
    (lent : StateM (Air ω) Notification) (hlent : ∀ t, (lent t).2 = t)
    (howner : ∀ radio, ({ s with radio := radio } : Air ω).ownerOf
      (lent { s with radio := radio }).1.encode = told) :
    (Protocol.submit (Radio.link (hardware around)) lent s).2.Working later told author
      pending := by
  have hsent := h.send around lent hlent howner
  rw [Protocol.submit, bind_run]
  generalize (Radio.link (hardware around)).send lent s = sent at hsent ⊢
  obtain ⟨result, t⟩ := sent
  have hcounted : Keeps (Working later told author pending) (do
      Protocol.edit fun p => { p with sent := p.sent + 1 }
      let frame ← lent
      Log.debug .protocol ("Protocol: sent code " ++ Text.hexByte frame.code ++ " ("
        ++ toString frame.value.length ++ " bytes)\n")) := by
    refine .bind (keeps_edit fun _ => .aside rfl rfl rfl rfl) fun _ => ?_
    exact .bind (fun t ht => (hlent t).symm ▸ ht) fun _ => logKeeps_working.debug _ _
  cases result with
  | ok => exact hcounted t hsent
  | notConnected => exact hsent
  | busy => exact hsent

/-- The oldest answer belongs to the connection that the engine was told of. -/
theorem Working.ownerOf_answer (h : s.Working later told author pending) {frame : Notification}
    (hpeek : s.chain.protocol.responses.peek? = some frame) (radio : Radio) :
    ({ s with radio := radio } : Air ω).ownerOf frame.encode = told := by
  rw [BoundedQueue.peek?_eq_head?] at hpeek
  have hmem := List.mem_of_head? hpeek
  have hcode : frame.encode.head? ≠ some 0x01 := by
    have hanswer := h.replies frame hmem
    cases frame <;> simp_all [Notification.encode, Notification.code, Notification.isWeight]
  have hpos : 0 < s.chain.protocol.responses.size := by
    rw [← BoundedQueue.length_toList]
    exact List.length_pos_of_mem hmem
  obtain ⟨n, hn⟩ := Nat.exists_eq_succ_of_ne_zero hpos.ne'
  rw [ownerOf, if_neg hcode]
  show s.owners.answers.headD s.owners.author = told
  rw [h.answers, hn]
  rfl

theorem Working.ownerOf_weight (h : s.Working later told author pending)
    (hpending : s.chain.protocol.weightPending = true) (radio : Radio) :
    ({ s with radio := radio } : Air ω).ownerOf s.chain.protocol.weight.encode = told := by
  have hcode : s.chain.protocol.weight.encode.head? = some 0x01 := by
    have hweight := h.isWeight
    cases hframe : s.chain.protocol.weight <;>
      simp_all [Notification.encode, Notification.code, Notification.isWeight]
  rw [ownerOf, if_pos hcode]
  exact h.weight hpending

theorem keeps_discardPending :
    Keeps (Working (ω := ω) later told author pending) (Protocol.edit Protocol.discardPending) :=
  keeps_edit fun _ => ⟨.inl (Nat.zero_le _), by simp [Protocol.discardPending], .inl,
    by simp [Protocol.discardPending], id⟩

theorem keeps_dropOldest :
    Keeps (Working (ω := ω) later told author pending)
      (Protocol.edit Protocol.dropOldestResponse) := by
  refine keeps_edit fun p => ?_
  obtain ⟨responses, hdrop, htail⟩ := p.dropOldestResponse_eq
  have hsize := congrArg List.length htail
  simp only [BoundedQueue.length_toList, List.length_tail] at hsize
  rw [hdrop]
  refine ⟨.inl (by dsimp only; omega), fun frame hframe => .inl ?_, .inl, fun _ => .inl rfl, id⟩
  exact List.mem_of_mem_tail (htail ▸ hframe)

theorem keeps_poll : Keeps (Working later told author pending)
    (Protocol.poll (Radio.link (hardware around))) := by
  apply Protocol.keeps_poll
  · refine Protocol.keeps_drainResponses (fun s h frame hpeek => ?_) keeps_discardPending
      keeps_dropOldest _
    exact h.submit around (pure frame) (fun _ => rfl) (h.ownerOf_answer hpeek)
  · refine Protocol.keeps_sendWeight (fun s h hpending => ?_) keeps_discardPending ?_
    · exact h.submit around Protocol.lentWeight (fun _ => rfl) (h.ownerOf_weight hpending)
    · exact keeps_edit fun _ => ⟨.inl (Nat.le_refl _), fun _ h => .inl h, .inl, by simp, id⟩

end Sending

section Commands

variable (around : Surroundings ω)

/-- An answer belongs to the write at work. -/
theorem keeps_queueResponse {frame : Notification} (hframe : frame.isWeight = false) :
    Keeps (Working (ω := ω) later told told pending) (Protocol.queueResponse frame) := by
  refine Protocol.keeps_queueResponse logKeeps_working (fun s h responses hpush => ?_)
    (keeps_edit fun _ => .aside rfl rfl rfl rfl)
  refine h.withProtocol ⟨.inr rfl, fun other hother => ?_, .inl, fun _ => .inl rfl, id⟩
  dsimp only at hother
  rw [(BoundedQueue.toList_of_push? hpush).2] at hother
  rcases List.mem_append.1 hother with hold | hnew
  · exact .inl hold
  · exact .inr (List.mem_singleton.1 hnew ▸ hframe)

theorem answers_working :
    Protocol.Answers fun s t : Air ω => s = t ∧ s.Working later told told pending :=
  .of_keeps logKeeps_working (fun _ h => keeps_queueResponse h.isWeight) fun _ _ =>
    keeps_edit fun _ => .aside rfl rfl rfl rfl

theorem serves_working : Protocol.Serves (board around) (board around)
    fun s t => s = t ∧ s.Working later told told pending :=
  .of_keeps answers_working (fun _ _ h => h.elsewhere rfl rfl) (fun _ _ h => h.elsewhere rfl rfl)
    (around.medium.keeping_within keeps_inWorld)

/-- A stream belongs to the write that begins it. -/
theorem keeps_startStream :
    Keeps (Working later told told pending) (Protocol.startStream (board around).clock) := by
  apply Protocol.keeps_startStream logKeeps_working (keeps_inWorld _)
  · refine keeps_edit fun _ => ?_
    exact ⟨.inl (Nat.le_refl _), fun _ h => .inl h, fun _ => .inr rfl, fun _ => .inl rfl, id⟩
  · intro now
    refine keeps_edit fun _ => ?_
    exact ⟨.inl (Nat.le_refl _), fun _ h => .inl h, .inl, by simp, id⟩

theorem keeps_stopStream :
    Keeps (Working (ω := ω) later told author pending) Protocol.stopStream :=
  Protocol.keeps_stopStream logKeeps_working (keeps_edit fun _ =>
    ⟨.inl (Nat.le_refl _), fun _ h => .inl h, by simp [Protocol.isStreaming], by simp, id⟩)

theorem keeps_disconnect :
    Keeps (Working later told author pending) (board around).link.disconnect := by
  refine Keeps.bind .getPart fun r => ?_
  split
  next =>
    refine .bind (logKeeps_working.debug _ _) fun _ => .bind (keeps_inWorld _) fun code => ?_
    split
    next => exact .pure _
    next => exact .pure _
  next => exact .pure _

theorem keeps_receive (frame : Bytes) :
    Keeps (Working later told told pending) (Protocol.receive (board around) frame) :=
  .of_alike ((serves_working around).receive (keeps_poll around).alike
    (keeps_disconnect around).alike frame (keeps_startStream around).alike keeps_stopStream.alike)

theorem keeps_reject (opcode code : UInt8) :
    Keeps (Working later told told pending) (Protocol.reject (board around).link opcode code) :=
  .of_alike (answers_working.reject (keeps_poll around).alike (keeps_queueResponse rfl).alike)

/-- A weight belongs to the stream that is open. -/
theorem keeps_publishWeight (weight : Float32) (time : UInt32) :
    Keeps (Working later told author pending)
      (Protocol.publishWeight (board around).link weight time) := by
  intro s h
  rw [Protocol.publishWeight, bind_run, getPart_protocol]
  by_cases hstream : s.chain.protocol.isStreaming = true
  · simp only [hstream, ↓reduceIte, bind_run, edit_run]
    exact keeps_poll around _ (h.withProtocol
      ⟨.inl (Nat.le_refl _), fun _ h => .inl h, .inl, fun _ => .inr hstream, fun _ => rfl⟩)
  · simp only [hstream, Bool.false_eq_true, ↓reduceIte]
    exact h

theorem keeps_pollPipeline (limit : Nat) :
    Keeps (Working later told author pending) (Pipeline.poll (board around).link limit) := by
  have hfilter : Ignores (Working (ω := ω) later told author pending) MedianFilter :=
    fun _ _ h => h.elsewhere rfl rfl
  have hcalibration : Ignores (Working (ω := ω) later told author pending) Calibration :=
    fun _ _ h => h.elsewhere rfl rfl
  have hpipeline : Ignores (Working (ω := ω) later told author pending) Pipeline :=
    fun _ _ h => h.elsewhere rfl rfl
  have hchannel : Ignores (Working (ω := ω) later told author pending) SampleChannel :=
    fun _ _ h => h.elsewhere rfl rfl
  exact .of_alike (Pipeline.alike_poll logKeeps_working.alike hfilter.shares hcalibration.shares
    hpipeline.shares (fun weight time => (keeps_publishWeight around weight time).alike)
    hchannel.shares limit)

end Commands

/-! A dispatch. -/

section Dispatch

variable (around : Surroundings ω)

@[simp] theorem atomically_run {α : Type} (step : Inbox → α × Inbox) (s : Air ω) :
    Inbox.atomically (Protocol.handler (board around)) step s =
      ((step s.chain.inbox).1, s.withInbox (step s.chain.inbox).2) := rfl

theorem disconnected_run (s : Air ω) : (Protocol.disconnected s).2 =
    s.withProtocol (Protocol.discardPending { s.chain.protocol with stream := .idle }) := by
  rw [Protocol.disconnected, bind_run, getPart_protocol]
  split
  next => simp only [bind_run, debug_run, edit_run]
  next => rfl

/-- When the engine hears of a disconnect, nothing is left that belongs to a connection. -/
theorem Working.hungUp (h : s.Working later told author pending) :
    (Protocol.disconnected (s.withInbox { s.chain.inbox with
      disconnectPending := false })).2.Working later s.chain.inbox.epoch author false := by
  have hnone : s.chain.inbox.taken? { s.chain.inbox with disconnectPending := false } = none :=
    Inbox.taken?_eq_none (Nat.le_refl _) id
  rw [disconnected_run]
  refine
    { author_eq := ?_
      pending_eq := rfl
      answers := ?_
      replies := by simp [Air.withProtocol, Air.withChain, Protocol.discardPending]
      stream := by
        simp [Air.withProtocol, Air.withChain, Protocol.discardPending, Protocol.isStreaming]
      weight := by simp [Air.withProtocol, Air.withChain, Protocol.discardPending]
      isWeight := h.isWeight
      quiet := fun _ => rfl
      latched := by simp
      few := h.few
      proper := h.proper }
  · simpa [Air.withProtocol, Air.withInbox, Air.withChain, Owners.after, hnone,
      Inbox.taken?_eq_none] using h.author_eq
  · simp [Air.withProtocol, Air.withInbox, Air.withChain, Owners.after, h.answers,
      Protocol.discardPending, BoundedQueue.clear]

/-- After a look for a disconnect the engine has been told of all. -/
theorem Working.passDisconnect (h : s.Working later told author pending) :
    let passed := Inbox.passDisconnect (Protocol.handler (board around)) s
    passed.1 = s.chain.inbox.epoch ∧
      passed.2.Working later s.chain.inbox.epoch author false := by
  rw [Inbox.passDisconnect, bind_run, atomically_run]
  cases hpending : s.chain.inbox.disconnectPending with
  | true =>
    simp only [Inbox.acknowledge, hpending, ↓reduceIte, bind_run, pure_run, true_and]
    exact h.hungUp
  | false =>
    obtain rfl := h.pending_eq.symm.trans hpending
    obtain rfl := h.quiet rfl
    simp only [Inbox.acknowledge, hpending, Bool.false_eq_true, ↓reduceIte, pure_run, true_and]
    exact h.editInbox rfl hpending.symm (Inbox.taken?_eq_none (Nat.le_refl _) id)

/-- Between two steps of the main loop. -/
def Resting (later : Nat) (s : Air ω) : Prop :=
  ∃ told author pending, s.Working later told author pending

/-- The write in hand is the one at work. -/
def AtWork (later : Nat) (epoch : UInt32) (w : ControlWrite) (s : Air ω) : Prop :=
  s.Working later epoch w.epoch false

theorem dispatchSteps (later : Nat) : Inbox.TurnSteps (Protocol.handler (board around))
    (Resting later) (fun epoch s => ∃ author, s.Working later epoch author false) (AtWork later)
    (AtWork later) where
  begin := by
    rintro s ⟨told, author, pending, h⟩
    obtain ⟨hepoch, hpassed⟩ := h.passDisconnect around
    rw [hepoch]
    exact ⟨author, hpassed⟩
  take := by
    rintro epoch s ⟨author, h⟩
    rw [atomically_run]
    rcases s.chain.inbox.take_cases with hnone | ⟨w, writes, hsome, hlist⟩
    · rw [hnone]
      exact ⟨author, h.editInbox rfl rfl (Inbox.taken?_eq_none (Nat.le_refl _) id)⟩
    · rw [hsome]
      refine h.withInbox rfl rfl ?_
      have hsize := congrArg List.length hlist
      simp only [BoundedQueue.length_toList, List.length_cons] at hsize
      have hlt : writes.size < s.chain.inbox.writes.size := by omega
      simp [Inbox.taken?, hlt, BoundedQueue.peek?_eq_head?, hlist]
  same _ _ h := h
  look := by
    intro epoch w _ s h
    obtain ⟨hepoch, hpassed⟩ := h.passDisconnect around
    rw [hepoch]
    exact hpassed
  handOver := by
    intro w s h
    exact ⟨w.epoch, Inbox.keeps_handOver logKeeps_working (keeps_receive around w.data)
      (keeps_reject around _ _) s h⟩
  discard := by
    intro epoch w _ s h
    refine ⟨w.epoch, ?_⟩
    rw [Inbox.discard, bind_run, debug_run]
    exact h.editInbox rfl rfl (Inbox.taken?_eq_none (Nat.le_refl _) id)
  report := by
    rintro epoch s ⟨author, h⟩
    rw [Inbox.reportRefused, bind_run, atomically_run]
    cases hrefused : s.chain.inbox.refused with
    | none =>
      refine ⟨epoch, author, false, ?_⟩
      simp only [Inbox.takeRefused, hrefused, pure_run]
      exact h.editInbox rfl rfl (Inbox.taken?_eq_none (Nat.le_refl _) fun _ => hrefused)
    | some w =>
      have htaken : (s.withInbox { s.chain.inbox with refused := none }).Working later epoch
          w.epoch false :=
        h.withInbox rfl rfl (by simp [Inbox.taken?, hrefused])
      refine ⟨epoch, w.epoch, false, ?_⟩
      simp only [Inbox.takeRefused, hrefused]
      by_cases hepoch : w.epoch = epoch
      · subst hepoch
        simp only [↓reduceIte, bind_run, message_run]
        exact keeps_reject around _ _ _ htaken
      · simp only [hepoch, ↓reduceIte]
        exact htaken

end Dispatch

/-! Radio events and runs. -/

section Runs

variable (around : Surroundings ω)

theorem Working.onConnect (h : s.Working later told author pending) (handle : UInt16) :
    (Radio.onConnect handle s).2.Working later told author pending :=
  Keeps.bind (logKeeps_working.debug _ _) (fun _ => keeps_radioEdit _) s h

/-- The disconnect is latched, and the next connection is a later one. -/
theorem Working.closed (h : s.Working (later + 1) told author pending) :
    (s.withInbox s.chain.inbox.disconnect).Working later told author true := by
  have hfew := h.few
  have hnext : (s.chain.inbox.epoch + 1).toNat = s.chain.inbox.epoch.toNat + 1 := by
    rw [UInt32.toNat_add, UInt32.toNat_one, Nat.mod_eq_of_lt (by omega)]
  have hle : told ≤ s.chain.inbox.epoch := by
    cases pending with
    | true => exact UInt32.le_of_lt (h.latched rfl)
    | false => exact UInt32.le_of_eq (h.quiet rfl).symm
  have hlater : told < s.chain.inbox.epoch + 1 := by
    rw [UInt32.lt_iff_toNat_lt, hnext]
    exact Nat.lt_succ_of_le (UInt32.le_iff_toNat_le.1 hle)
  have hfew' : (s.chain.inbox.epoch + 1).toNat + later < 2 ^ 32 := by
    rw [hnext]
    omega
  have hnone : s.chain.inbox.taken? s.chain.inbox.disconnect = none :=
    Inbox.taken?_eq_none (Nat.le_refl _) id
  rw [withInbox_eq hnone]
  exact { h with
    pending_eq := rfl
    quiet := by simp
    latched := fun _ => hlater
    few := hfew' }

theorem Working.onDisconnect (h : s.Working (later + 1) told author pending) :
    (Radio.onDisconnect (hardware around) s).2.Working later told author true := by
  have hradio : ({ s with radio := { s.radio with connected := false } } : Air ω).Working
      (later + 1) told author pending := { h with }
  rw [Radio.onDisconnect, bind_run, Radio.debug, debug_run]
  exact keeps_inWorld _ _ hradio.closed

theorem Working.onWrite (h : s.Working later told author pending) (bytes : Bytes) :
    (Radio.onWrite bytes s).2.Working later told author pending := by
  obtain ⟨writes, refused, dropped, hwrite, hsize, hrefused⟩ := s.chain.inbox.write_eq bytes
  have hqueued : (s.withInbox (s.chain.inbox.write bytes).2).Working later told author pending := by
    rw [hwrite]
    exact h.editInbox rfl rfl (Inbox.taken?_eq_none hsize hrefused)
  have hdone : (Radio.onWrite bytes s).2 = s.withInbox (s.chain.inbox.write bytes).2 := by
    by_cases hlong : controlWriteSize < bytes.length <;>
      cases htaken : (s.chain.inbox.write bytes).1 <;>
      simp [Radio.onWrite, Radio.debug, hlong, htaken]
  rw [hdone]
  exact hqueued

theorem keeps_setBattery (millivolts : UInt32) (low : Bool) :
    Keeps (Working (ω := ω) later told author pending) (Protocol.setBattery millivolts low) :=
  Protocol.keeps_setBattery logKeeps_working (keeps_edit fun _ => .aside rfl rfl rfl rfl)

theorem resting_other {step : Step ω} (h : s.Resting later) (hstep : step.isDisconnect = false) :
    (s.after around step).Resting later := by
  obtain ⟨told, author, pending, h⟩ := h
  cases step with
  | disconnect => cases hstep
  | connect handle => exact ⟨told, author, pending, h.onConnect handle⟩
  | write bytes => exact ⟨told, author, pending, h.onWrite bytes⟩
  | dispatch =>
    exact (dispatchSteps around later).turn Inbox.drainLimit s ⟨told, author, pending, h⟩
  | pollPipeline limit => exact ⟨told, author, pending, keeps_pollPipeline around limit s h⟩
  | pollProtocol => exact ⟨told, author, pending, keeps_poll around s h⟩
  | setBattery millivolts low => exact ⟨told, author, pending, keeps_setBattery millivolts low s h⟩
  | recordError text =>
    exact ⟨told, author, pending, h.withProtocol (.aside rfl rfl rfl rfl)⟩
  | setOrder order => exact ⟨told, author, pending, h.withProtocol (.aside rfl rfl rfl rfl)⟩
  | elsewhere level chain world => exact ⟨told, author, pending, { h with }⟩

theorem resting_run {steps : List (Step ω)} (h : s.Resting (steps.countP Step.isDisconnect)) :
    (run around steps s).Resting 0 := by
  induction steps generalizing s with
  | nil => exact h
  | cons step rest ih =>
    refine ih ?_
    cases hstep : step.isDisconnect with
    | false =>
      rw [List.countP_cons_of_neg (by simp [hstep])] at h
      exact resting_other around h hstep
    | true =>
      obtain ⟨told, author, pending, h⟩ := h
      rw [List.countP_cons_of_pos hstep] at h
      cases step with
      | disconnect => exact ⟨told, author, true, h.onDisconnect around⟩
      | _ => cases hstep

/-- A notification is for the connection that is up, unless the engine has yet to hear of a
disconnect: then it belongs to an earlier connection, whose peer is gone. -/
theorem owner_of_delivered (level : LogLevel) (config : ProtocolConfig) (radio : Radio) (world : ω)
    {steps : List (Step ω)} (hfew : steps.countP Step.isDisconnect < 2 ^ 32) :
    ∀ d ∈ (run around steps
        { level := level, chain := { protocol := { config := config } }, radio := radio,
          world := world }).deliveries,
      (d.latched = false → d.owner = d.peer) ∧ (d.latched = true → d.owner < d.peer) := by
  have hstart : Working (steps.countP Step.isDisconnect) 0 0 false
      ({ level := level, chain := { protocol := { config := config } }, radio := radio,
         world := world } : Air ω) :=
    { author_eq := rfl
      pending_eq := rfl
      answers := rfl
      replies := by simp
      stream := fun _ => rfl
      weight := fun _ => rfl
      isWeight := rfl
      quiet := fun _ => rfl
      latched := by simp
      few := by simpa using hfew
      proper := by simp }
  obtain ⟨told, author, pending, hend⟩ := resting_run around ⟨0, 0, false, hstart⟩
  exact hend.proper

end Runs

/-- Surroundings in which nothing works but the radio, whose clients answer from a script. -/
def scripted : Surroundings (List NotifyStatus) where
  hardware :=
    { call := fun _ => return true
      settingsInit := return .ok
      settingsErase := return .ok
      notify := fun _ _ => return ()
      dropPeer := fun _ => return 0
      delay := fun _ => return ()
      micros := return 0
      millis := return 0
      converterReady := return false
      converterRead := return 0
      setLed := fun _ => return ()
      batteryPin := return 0
      address := [] }
  medium :=
    { sectorSize := 4096
      sectorCount := return 0
      read := fun _ _ => return none
      erase := fun _ _ => return false
      write := fun _ _ => return false }
  hear _ := modifyGet fun script => ((script.take 1).map (·, 0), script.tail)

/-- A peer asks for the battery voltage while the radio is busy, and leaves. The next one connects
before the main loop looks for a disconnect. -/
def handedOn : List (Step (List NotifyStatus)) :=
  [.connect 1, .write [0x6f], .dispatch, .disconnect, .connect 2, .pollProtocol]

def handedOnEnd : Air (List NotifyStatus) :=
  run scripted handedOn
    { level := .off, chain := {}, radio := { serving := true }, world := [.gattError, .success] }

theorem owner_of_handedOn : handedOnEnd.deliveries.length = 2 ∧ ∀ d ∈ handedOnEnd.deliveries,
    (d.latched = false → d.owner = d.peer) ∧ (d.latched = true → d.owner < d.peer) := by
  have hfew : handedOn.countP Step.isDisconnect < 2 ^ 32 := by decide
  exact ⟨by decide +kernel,
    owner_of_delivered scripted .off {} { serving := true } [.gattError, .success] hfew⟩

/-- The second peer gets the answer to the first one's command. -/
theorem answer_crosses :
    handedOnEnd.deliveries =
        [⟨[0x00, 0x04, 0, 0, 0, 0], 0, 0, false⟩, ⟨[0x00, 0x04, 0, 0, 0, 0], 0, 1, true⟩] ∧
      handedOnEnd.radio.handle = 2 ∧ handedOnEnd.radio.outcome = .ok ∧
      handedOnEnd.owners.answers = [] := by
  decide +kernel

end Air

end LoadCell
