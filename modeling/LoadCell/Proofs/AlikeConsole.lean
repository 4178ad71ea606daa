import LoadCell.Console
import LoadCell.Proofs.Alike

/-!
Two runs of the console's commands. They are alike if the worlds show the console the same parts, a
medium and a terminal that run alike, and the same telemetry. No command looks at the console itself.
-/
namespace LoadCell

variable {σ τ : Type} {R : σ → τ → Prop} [Logs σ] [Logs τ] [Terminal σ] [Terminal τ]

/-- Related states stay related when both terminals are written to. -/
def TerminalAlike (R : σ → τ → Prop) : Prop :=
  ∀ text, Alike R (Terminal.write text : StateM σ Unit) (Terminal.write text : StateM τ Unit)

namespace Settings

variable [Holds σ Settings] [Holds τ Settings] (hlog : LogAlike R) (hterminal : TerminalAlike R)
  (hsettings : Shares R Settings)
include hlog hterminal hsettings

theorem alike_save (key : String) (value : UInt8) (shown : String) :
    Alike R (save key value shown : StateM σ Bool) (save key value shown) := by
  apply Alike.bind (.getPart hsettings)
  intro settings
  apply Alike.ite (.bind (hterminal _) fun _ => .pure _)
  apply Alike.ite (.bind (hterminal _) fun _ => .pure _)
  exact .bind (.modifyPart hsettings _) fun _ => .bind (hlog.debug _ _) fun _ => .pure _

end Settings

namespace Console

variable [Holds σ Settings] [Holds τ Settings] [Holds σ SampleChannel] [Holds τ SampleChannel]
  [Holds σ Store] [Holds τ Store] [Holds σ Calibration] [Holds τ Calibration]
  [Holds σ Protocol] [Holds τ Protocol] [Holds σ Pipeline] [Holds τ Pipeline]

/-- Related states look the same on the terminal. -/
structure Shows (R : σ → τ → Prop) : Prop where
  terminal : TerminalAlike R
  level : ∀ s t, R s t → (Holds.part s : LogLevel) = Holds.part t
  channel : ∀ s t, R s t → (Holds.part s : SampleChannel) = Holds.part t
  calibration : ∀ s t, R s t → (Holds.part s : Calibration) = Holds.part t
  protocol : ∀ s t, R s t → (Holds.part s : Protocol) = Holds.part t
  pipeline : ∀ s t, R s t → (Holds.part s : Pipeline) = Holds.part t

namespace Shows

omit [Holds σ Settings] [Holds τ Settings] [Holds σ Store] [Holds τ Store]

variable (h : Shows R)
include h

/-- Text comes first. -/
theorem writing {text : String} {x : StateM σ Unit} {y : StateM τ Unit} (hrest : Alike R x y) :
    Alike R (Terminal.write text >>= fun _ => x) (Terminal.write text >>= fun _ => y) :=
  .bind (h.terminal _) fun _ => hrest

theorem printHelp : Alike R (Console.printHelp : StateM σ Unit) Console.printHelp :=
  h.writing (h.writing (h.writing (h.writing (h.writing (h.terminal _)))))

theorem printStatus {telemetry : StateM σ Telemetry} {telemetry' : StateM τ Telemetry}
    (htelemetry : Alike R telemetry telemetry') :
    Alike R (Console.printStatus telemetry) (Console.printStatus telemetry') := by
  apply Alike.bind htelemetry
  intro seen
  apply Alike.bind fun s t hst => ⟨h.calibration s t hst, hst⟩
  intro c
  apply Alike.bind fun s t hst => ⟨h.protocol s t hst, hst⟩
  intro p
  apply Alike.bind fun s t hst => ⟨h.pipeline s t hst, hst⟩
  intro pipe
  apply Alike.bind fun s t hst => ⟨h.channel s t hst, hst⟩
  intro channel
  refine h.writing (h.writing ?_)
  rcases c.mapping with _ | mapping
  all_goals
    iterate 11 refine h.writing ?_
    exact .bind (fun s t hst => ⟨h.level s t hst, hst⟩) fun level => h.writing (h.terminal _)

end Shows

/-- Related states show a command the same parts, and a medium and a terminal that run alike. -/
structure Serves (left : Medium σ) (right : Medium τ) (R : σ → τ → Prop) : Prop where
  log : LogAlike R
  terminal : TerminalAlike R
  medium : left.Alike right R
  level : Shares R LogLevel
  settings : Shares R Settings
  channel : Shares R SampleChannel
  store : Shares R Store
  calibration : Shares R Calibration
  protocol : Shares R Protocol
  pipeline : Shares R Pipeline

namespace Serves

variable {left : Medium σ} {right : Medium τ} (h : Serves left right R)
include h

theorem shows : Shows R where
  terminal := h.terminal
  level := h.level.same
  channel := h.channel.same
  calibration := h.calibration.same
  protocol := h.protocol.same
  pipeline := h.pipeline.same

theorem chooseLevel (level : LogLevel) :
    Alike R (Console.chooseLevel level : StateM σ Unit) (Console.chooseLevel level) := by
  apply Alike.bind (.modifyPart h.level _)
  intro _
  apply Alike.bind (h.terminal _)
  intro _
  apply Alike.bind (Settings.alike_save h.log h.terminal h.settings _ _ _)
  intro saved
  exact .ite (h.terminal _) (.pure _)

theorem stepOrder : Alike R (Console.stepOrder : StateM σ Unit) Console.stepOrder := by
  have hset (order : ByteOrder) :
      Alike R (Protocol.setOrder order : StateM σ Unit) (Protocol.setOrder order) :=
    .modifyPart h.protocol _
  apply Alike.bind (.getPart h.protocol)
  intro p
  apply Alike.bind (hset _)
  intro _
  apply Alike.bind (h.terminal _)
  intro _
  apply Alike.bind (Settings.alike_save h.log h.terminal h.settings _ _ _)
  intro saved
  exact .ite (h.terminal _) (.pure _)

theorem resetCalibration :
    Alike R (Console.resetCalibration left) (Console.resetCalibration right) := by
  apply Alike.bind (Calibration.alike_reset h.log.texts h.calibration h.medium h.store)
  intro outcome
  cases outcome with
  | ok => exact h.terminal _
  | error e => exact .bind (h.terminal _) fun _ => .modifyPart h.protocol _

theorem perform {telemetry : StateM σ Telemetry} {telemetry' : StateM τ Telemetry}
    (htelemetry : Alike R telemetry telemetry') (command : ConsoleCommand) :
    Alike R (Console.perform left telemetry command)
      (Console.perform right telemetry' command) := by
  cases command with
  | setLevel level => exact h.chooseLevel level
  | showStatus => exact h.shows.printStatus htelemetry
  | cycleOrder => exact h.stepOrder
  | resetCalibration => exact h.resetCalibration
  | help => exact h.shows.printHelp

theorem runLine {telemetry : StateM σ Telemetry} {telemetry' : StateM τ Telemetry}
    (htelemetry : Alike R telemetry telemetry') (line : Bytes) :
    Alike R (Console.runLine left telemetry line) (Console.runLine right telemetry' line) := by
  unfold Console.runLine
  split
  next => exact .pure _
  next b hb =>
    cases ConsoleCommand.ofByte? b with
    | some command => exact h.perform htelemetry command
    | none => exact h.terminal _
  next => exact h.terminal _

end Serves

end Console

end LoadCell
