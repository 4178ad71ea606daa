import LoadCell.Pipeline
import LoadCell.Protocol.Inbox
import LoadCell.Proofs.Steps

/-!
Two runs of one program, in two worlds. Runs are alike if from related states they give the same
answer and lead to related states. The store, the engine of the calibration, the inbox and the
pipeline run alike whenever the worlds show them the same parts, the same log level, and a medium,
a handler and a publisher that run alike.
-/
namespace LoadCell

variable {σ τ α β : Type} {R R' R'' : σ → τ → Prop}

/-- Runs that give the same answer and lead from states in one relation to states in another. -/
def AlikeTo (R R' : σ → τ → Prop) (x : StateM σ α) (y : StateM τ α) : Prop :=
  ∀ s t, R s t → (x s).1 = (y t).1 ∧ R' (x s).2 (y t).2

theorem AlikeTo.bind {x : StateM σ α} {y : StateM τ α} {f : α → StateM σ β} {g : α → StateM τ β}
    (hx : AlikeTo R R' x y) (hf : ∀ a, AlikeTo R' R'' (f a) (g a)) :
    AlikeTo R R'' (x >>= f) (y >>= g) := by
  intro s t h
  obtain ⟨hanswer, hafter⟩ := hx s t h
  rw [bind_run, bind_run, hanswer]
  exact hf _ _ _ hafter

def Alike (R : σ → τ → Prop) (x : StateM σ α) (y : StateM τ α) : Prop :=
  ∀ s t, R s t → (x s).1 = (y t).1 ∧ R (x s).2 (y t).2

/-- Related states have the same part, and stay related if it is replaced in both. -/
structure Shares (R : σ → τ → Prop) (α : Type) [Holds σ α] [Holds τ α] : Prop where
  same : ∀ s t, R s t → (Holds.part s : α) = Holds.part t
  replace : ∀ (a : α) s t, R s t → R (Holds.withPart a s) (Holds.withPart a t)

structure Medium.Alike (left : Medium σ) (right : Medium τ) (R : σ → τ → Prop) : Prop where
  sectorSize : left.sectorSize = right.sectorSize
  sectorCount : LoadCell.Alike R left.sectorCount right.sectorCount
  read : ∀ offset length, LoadCell.Alike R (left.read offset length) (right.read offset length)
  erase : ∀ offset length, LoadCell.Alike R (left.erase offset length) (right.erase offset length)
  write : ∀ offset bytes, LoadCell.Alike R (left.write offset bytes) (right.write offset bytes)

namespace Alike

theorem pure (a : α) : Alike R (Pure.pure a) (Pure.pure a) := fun _ _ h => ⟨rfl, h⟩

theorem bind {x : StateM σ α} {y : StateM τ α} {f : α → StateM σ β} {g : α → StateM τ β}
    (hx : Alike R x y) (hf : ∀ a, Alike R (f a) (g a)) : Alike R (x >>= f) (y >>= g) :=
  AlikeTo.bind hx hf

theorem ite {c : Prop} [Decidable c] {x x' : StateM σ α} {y y' : StateM τ α} (hx : Alike R x y)
    (hx' : Alike R x' y') : Alike R (if c then x else x') (if c then y else y') := by
  split
  next => exact hx
  next => exact hx'

variable [Holds σ β] [Holds τ β]

theorem getPart (hpart : Shares R β) :
    Alike R (LoadCell.getPart β : StateM σ β) (LoadCell.getPart β : StateM τ β) :=
  fun s t h => ⟨hpart.same s t h, h⟩

theorem modifyPart (hpart : Shares R β) (f : β → β) :
    Alike R (LoadCell.modifyPart f : StateM σ Unit) (LoadCell.modifyPart f : StateM τ Unit) := by
  intro s t h
  have hafter := hpart.replace (f (Holds.part s)) s t h
  have hright : f (Holds.part s) = f (Holds.part t) := congrArg f (hpart.same s t h)
  refine ⟨rfl, ?_⟩
  show R (Holds.withPart (f (Holds.part s)) s) (Holds.withPart (f (Holds.part t)) t)
  rw [← hright]
  exact hafter

end Alike

variable [Logs σ] [Logs τ]

/-- Related states have the same log level, and writing text keeps them related. -/
structure LogAlike (R : σ → τ → Prop) : Prop where
  level : ∀ s t, R s t → (Holds.part s : LogLevel) = Holds.part t
  write : ∀ text, Alike R (LogSink.write text : StateM σ Unit) (LogSink.write text : StateM τ Unit)

theorem LogAlike.message (hlog : LogAlike R) (text : String) :
    Alike R (Log.message text : StateM σ Unit) (Log.message text : StateM τ Unit) :=
  hlog.write _

theorem LogAlike.debug (hlog : LogAlike R) (topic : Topic) (text : String) :
    Alike R (Log.debug topic text : StateM σ Unit) (Log.debug topic text : StateM τ Unit) := by
  apply Alike.bind (fun s t h => ⟨hlog.level s t h, h⟩)
  intro level
  exact .ite (hlog.message text) (.pure _)

/-- Whatever is logged keeps related states related, also if it shows in only one of them. -/
structure TextAlike (R : σ → τ → Prop) : Prop where
  message : ∀ text, Alike R (Log.message text : StateM σ Unit) (Log.message text : StateM τ Unit)
  debug : ∀ topic text,
    Alike R (Log.debug topic text : StateM σ Unit) (Log.debug topic text : StateM τ Unit)

theorem LogAlike.texts (hlog : LogAlike R) : TextAlike R := ⟨hlog.message, hlog.debug⟩

namespace Store

theorem alike_reportFault (hlog : TextAlike R) (what : String) (slot : Slot) :
    Alike R (reportFault what slot : StateM σ StoreError) (reportFault what slot) :=
  .bind (hlog.message _) fun _ => .pure _

variable {left : Medium σ} {right : Medium τ}

omit [Logs σ] [Logs τ] in
theorem offset_alike (hmedium : left.Alike right R) (slot : Slot) :
    offset left slot = offset right slot := by
  rw [offset, hmedium.sectorSize, offset]

variable (hlog : TextAlike R) (hmedium : left.Alike right R)

section

include hlog hmedium

theorem alike_readSlot (slot : Slot) : Alike R (readSlot left slot) (readSlot right slot) := by
  unfold readSlot
  rw [offset_alike hmedium]
  apply Alike.bind (hmedium.read _ _)
  intro bytes
  cases bytes with
  | none => exact .bind (hlog.debug _ _) fun _ => .pure _
  | some bytes => exact .pure _

theorem alike_eraseSlot (slot : Slot) : Alike R (eraseSlot left slot) (eraseSlot right slot) := by
  unfold eraseSlot
  rw [offset_alike hmedium, hmedium.sectorSize]
  apply Alike.bind (hmedium.erase _ _)
  intro erased
  exact .ite (.pure _) (.bind (alike_reportFault hlog _ slot) fun _ => .pure _)

theorem alike_writeRecord (record : Record) (slot : Slot) :
    Alike R (writeRecord left record slot) (writeRecord right record slot) := by
  have hfault (what : String) : Alike R
      (do return .error (← reportFault what slot) : StateM σ (Except StoreError Unit))
      (do return .error (← reportFault what slot) : StateM τ (Except StoreError Unit)) :=
    .bind (alike_reportFault hlog what slot) fun _ => .pure _
  unfold writeRecord
  rw [offset_alike hmedium, hmedium.sectorSize]
  apply Alike.bind (hmedium.erase _ _)
  intro erased
  apply Alike.ite (hfault _)
  apply Alike.bind (hmedium.write _ _)
  intro programmed
  apply Alike.ite (hfault _)
  apply Alike.bind (hmedium.read _ _)
  intro bytes
  apply Alike.ite (hfault _)
  apply Alike.bind (hmedium.write _ _)
  intro committed
  apply Alike.ite (hfault _)
  apply Alike.bind (alike_readSlot hlog hmedium slot)
  intro found
  exact .ite (hfault _) (.pure _)

end

section

variable [Holds σ Store] [Holds τ Store] (hstore : Shares R Store)
include hlog hmedium hstore

theorem alike_examine (slot : Slot) : Alike R (examine left slot) (examine right slot) := by
  apply Alike.bind (alike_readSlot hlog hmedium slot)
  intro found
  cases found with
  | none => exact hlog.debug _ _
  | some record => exact .bind (hlog.debug _ _) fun _ => .modifyPart hstore _

theorem alike_scan : Alike R (scan left) (scan right) := by
  apply Alike.bind (.modifyPart hstore _)
  intro _
  apply Alike.bind hmedium.sectorCount
  intro sectors
  apply Alike.ite (hlog.message _)
  exact .bind (alike_examine hlog hmedium hstore 0) fun _ => alike_examine hlog hmedium hstore 1

theorem alike_ensureScanned : Alike R (ensureScanned left) (ensureScanned right) := by
  apply Alike.bind (.getPart hstore)
  intro store
  exact .ite (alike_scan hlog hmedium hstore) (.pure _)

theorem alike_load : Alike R (load left) (load right) := by
  apply Alike.bind (alike_scan hlog hmedium hstore)
  intro _
  apply Alike.bind (.getPart hstore)
  intro store
  cases store.active with
  | none => exact .pure _
  | some slot =>
    apply Alike.bind (alike_readSlot hlog hmedium slot)
    intro found
    cases found with
    | none => exact .bind (.modifyPart hstore _) fun _ => .pure _
    | some record =>
      exact .bind (.getPart hstore) fun _ => .bind (hlog.debug _ _) fun _ => .pure _

theorem alike_commit (mapping : Mapping) :
    Alike R (commit left mapping) (commit right mapping) := by
  apply Alike.ite (.pure _)
  apply Alike.bind (alike_ensureScanned hlog hmedium hstore)
  intro _
  apply Alike.bind hmedium.sectorCount
  intro sectors
  apply Alike.ite (.pure _)
  apply Alike.bind (.getPart hstore)
  intro store
  apply Alike.bind (hlog.debug _ _)
  intro _
  apply Alike.bind (alike_writeRecord hlog hmedium _ _)
  intro outcome
  cases outcome with
  | error e => exact .pure _
  | ok => exact .bind (.modifyPart hstore _) fun _ => .bind (hlog.debug _ _) fun _ => .pure _

theorem alike_clear : Alike R (clear left) (clear right) := by
  apply Alike.bind hmedium.sectorCount
  intro sectors
  apply Alike.ite (.pure _)
  apply Alike.bind (alike_eraseSlot hlog hmedium 0)
  intro first
  apply Alike.bind (alike_eraseSlot hlog hmedium 1)
  intro second
  exact .bind (alike_scan hlog hmedium hstore) fun _ => .bind (hlog.debug _ _) fun _ => .pure _

end

end Store

namespace Calibration

variable [Holds σ Calibration] [Holds τ Calibration] (hlog : TextAlike R)
  (hcalibration : Shares R Calibration)
include hlog hcalibration

theorem alike_addPoint [Holds σ MedianFilter] [Holds τ MedianFilter]
    (hfilter : ∀ s t, R s t → (Holds.part s : MedianFilter) = Holds.part t) (reference : Float32) :
    Alike R (addPoint reference : StateM σ (Except CalibrationError Unit))
      (addPoint reference) := by
  apply Alike.bind (fun s t h => ⟨hfilter s t h, h⟩)
  intro filter
  cases filter.latest with
  | none => exact .bind (hlog.debug _ _) fun _ => .pure _
  | some raw =>
    exact .bind (.modifyPart hcalibration _) fun _ => .bind (.getPart hcalibration) fun _ =>
      .bind (hlog.debug _ _) fun _ => .pure _

theorem alike_beginTare (warmup average : UInt16) :
    Alike R (beginTare warmup average : StateM σ Bool) (beginTare warmup average) := by
  apply Alike.bind (.getPart hcalibration)
  intro c
  apply Alike.ite (.bind (hlog.debug _ _) fun _ => .pure _)
  exact .bind (.modifyPart hcalibration _) fun _ => .bind (hlog.debug _ _) fun _ => .pure _

theorem alike_applyTare (weight : Float32) :
    Alike R (applyTare weight : StateM σ Float32) (applyTare weight) := by
  apply Alike.bind (.getPart hcalibration)
  intro c
  apply Alike.bind (.modifyPart hcalibration _)
  intro _
  exact .ite (.bind (hlog.debug _ _) fun _ => .pure _) (.pure _)

variable [Holds σ Store] [Holds τ Store] {left : Medium σ} {right : Medium τ}
  (hmedium : left.Alike right R) (hstore : Shares R Store)
include hmedium hstore

theorem alike_activate (mapping : Mapping) :
    Alike R (activate left mapping) (activate right mapping) := by
  apply Alike.bind (.modifyPart hcalibration _)
  intro _
  apply Alike.bind (Store.alike_commit hlog hmedium hstore mapping)
  intro outcome
  apply Alike.bind (.modifyPart hcalibration _)
  intro _
  cases outcome with
  | error e => exact .bind (hlog.message _) fun _ => .pure _
  | ok => exact .bind (.modifyPart hcalibration _) fun _ => .bind (hlog.message _) fun _ => .pure _

theorem alike_save : Alike R (save left) (save right) := by
  apply Alike.bind (.getPart hcalibration)
  intro c
  apply Alike.ite (.bind (hlog.message _) fun _ => .pure _)
  apply Alike.ite (.bind (hlog.debug _ _) fun _ => .pure _)
  dsimp only
  cases Mapping.fit (c.session.point 0) (c.session.point 1) with
  | none => exact .bind (hlog.message _) fun _ => .pure _
  | some mapping => exact alike_activate hlog hcalibration hmedium hstore mapping

theorem alike_reset : Alike R (reset left) (reset right) := by
  apply Alike.bind (.getPart hcalibration)
  intro c
  apply Alike.ite (.bind (hlog.message _) fun _ => .pure _)
  apply Alike.bind (.modifyPart hcalibration _)
  intro _
  apply Alike.bind (Store.alike_clear hlog hmedium hstore)
  intro outcome
  apply Alike.bind (.modifyPart hcalibration _)
  intro _
  apply Alike.bind (.modifyPart hcalibration _)
  intro _
  cases outcome with
  | error e => exact .bind (hlog.message _) fun _ => .pure _
  | ok => exact .bind (hlog.message _) fun _ => .pure _

end Calibration

structure Handler.Alike (left : Handler σ) (right : Handler τ) (R : σ → τ → Prop) : Prop where
  disconnected : LoadCell.Alike R left.disconnected right.disconnected
  receive : ∀ data, LoadCell.Alike R (left.receive data) (right.receive data)
  reject : ∀ opcode (e : ProtocolError),
    LoadCell.Alike R (left.reject opcode e.code) (right.reject opcode e.code)
  pause : LoadCell.Alike R left.pause right.pause

namespace Inbox

variable [Holds σ Inbox] [Holds τ Inbox] {left : Handler σ} {right : Handler τ}
  (hlog : LogAlike R) (hinbox : Shares R Inbox) (hhandler : left.Alike right R)

section

omit [Logs σ] [Logs τ]
include hinbox hhandler

theorem alike_atomically (step : Inbox → α × Inbox) :
    Alike R (atomically left step) (atomically right step) := by
  apply Alike.bind hhandler.pause
  intro _
  apply Alike.bind (.getPart hinbox)
  intro box
  exact .bind (.modifyPart hinbox _) fun _ => .pure _

theorem alike_passDisconnect : Alike R (passDisconnect left) (passDisconnect right) := by
  apply Alike.bind (alike_atomically hinbox hhandler _)
  rintro ⟨pending, epoch⟩
  exact .ite (.bind hhandler.disconnected fun _ => .pure _) (.pure _)

end

omit [Holds σ Inbox] [Holds τ Inbox] in
include hlog in
theorem alike_handOver (hhandler : left.Alike right R) (w : ControlWrite) :
    Alike R (handOver left w) (handOver right w) := by
  apply Alike.ite (hhandler.reject _ .malformed)
  apply Alike.bind (hhandler.receive _)
  intro outcome
  cases outcome with
  | ok => exact .pure _
  | error e => exact hlog.debug _ _

include hlog hinbox in
theorem alike_discard (w : ControlWrite) :
    Alike R (discard w : StateM σ Unit) (discard w : StateM τ Unit) :=
  .bind (.modifyPart hinbox _) fun _ => hlog.debug _ _

include hlog hinbox hhandler

theorem alike_drain (limit : Nat) (epoch : UInt32) :
    Alike R (drain left limit epoch) (drain right limit epoch) := by
  induction limit generalizing epoch with
  | zero => exact .pure _
  | succ limit ih =>
    apply Alike.bind (alike_atomically hinbox hhandler _)
    intro taken
    cases taken with
    | none => exact .pure _
    | some w =>
      have hjudged (current : UInt32) : Alike R
          (if w.epoch = current then handOver left w >>= fun _ => drain left limit current
            else discard w >>= fun _ => drain left limit current)
          (if w.epoch = current then handOver right w >>= fun _ => drain right limit current
            else discard w >>= fun _ => drain right limit current) :=
        .ite (.bind (alike_handOver hlog hhandler w) fun _ => ih current)
          (.bind (alike_discard hlog hinbox w) fun _ => ih current)
      exact .ite (.bind (.pure _) hjudged) (.bind (alike_passDisconnect hinbox hhandler) hjudged)

theorem alike_reportRefused (epoch : UInt32) :
    Alike R (reportRefused left epoch) (reportRefused right epoch) := by
  apply Alike.bind (alike_atomically hinbox hhandler _)
  rintro ⟨refused, dropped⟩
  cases refused with
  | none => exact .pure _
  | some w =>
    exact .ite (.bind (hlog.message _) fun _ => hhandler.reject _ .queueFull) (.pure _)

theorem alike_turn (limit : Nat) : Alike R (turn left limit) (turn right limit) := by
  apply Alike.bind (alike_passDisconnect hinbox hhandler)
  intro epoch
  apply Alike.bind (alike_drain hlog hinbox hhandler limit epoch)
  intro current
  exact alike_reportRefused hlog hinbox hhandler current

end Inbox

namespace Pipeline

omit [Logs σ] [Logs τ] in
theorem alike_takeSample [Holds σ SampleChannel] [Holds τ SampleChannel]
    (hchannel : Shares R SampleChannel) :
    Alike R (takeSample : StateM σ (Option Sample)) takeSample := by
  apply Alike.bind (.getPart hchannel)
  intro channel
  cases channel.pop? with
  | none => exact .pure _
  | some popped => exact .bind (.modifyPart hchannel _) fun _ => .pure _

variable [Holds σ MedianFilter] [Holds τ MedianFilter]

omit [Logs σ] [Logs τ] in
theorem alike_filterCount (hfilter : Shares R MedianFilter) (count : Int32) :
    Alike R (filterCount count : StateM σ (Option Int32)) (filterCount count) :=
  .bind (.modifyPart hfilter _) fun _ => .bind (.getPart hfilter) fun _ => .pure _

variable [Holds σ Calibration] [Holds τ Calibration] [Holds σ Protocol] [Holds τ Protocol]
  [Holds σ Pipeline] [Holds τ Pipeline] {left : Link σ} {right : Link τ} (hlog : LogAlike R)
  (hfilter : Shares R MedianFilter) (hcalibration : Shares R Calibration)
  (hpipeline : Shares R Pipeline)
  (hpublish : ∀ weight time, Alike R (Protocol.publishWeight left weight time)
    (Protocol.publishWeight right weight time))
include hlog hfilter hcalibration hpipeline hpublish

theorem alike_process (sample : Sample) : Alike R (process left sample) (process right sample) := by
  apply Alike.bind (.modifyPart hpipeline _)
  intro _
  apply Alike.bind (alike_filterCount hfilter _)
  intro filtered
  cases filtered with
  | none => exact .pure _
  | some filtered =>
    apply Alike.bind (.modifyPart hpipeline _)
    intro _
    apply Alike.bind (.getPart hcalibration)
    intro c
    apply Alike.bind (Calibration.alike_applyTare hlog.texts hcalibration _)
    intro weight
    exact .bind (.modifyPart hpipeline _) fun _ => .bind (hlog.debug _ _) fun _ =>
      hpublish weight sample.time

theorem alike_poll [Holds σ SampleChannel] [Holds τ SampleChannel]
    (hchannel : Shares R SampleChannel) (limit : Nat) :
    Alike R (poll left limit) (poll right limit) := by
  induction limit with
  | zero => exact .pure _
  | succ limit ih =>
    apply Alike.bind (alike_takeSample hchannel)
    intro taken
    cases taken with
    | none => exact .pure _
    | some sample =>
      exact .bind (alike_process hlog hfilter hcalibration hpipeline hpublish sample) fun _ =>
        .bind ih fun _ => .pure _

end Pipeline

end LoadCell
