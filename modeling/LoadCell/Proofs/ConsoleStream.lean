import LoadCell.Proofs.ConsoleLines

/-!
A whole stream of the serial console. While no line fills the buffer, the console runs the lines
that a terminator has ended, one after the other, and nothing else: it resets the calibration once
for each line that asks for it, and steps the byte order once for each that asks for that.
-/
namespace LoadCell

namespace Console

/-- The lines that a terminator has ended, without the empty ones. -/
def endedLines (stream : Bytes) : List Bytes :=
  (stream.splitOnP isTerminator).dropLast.filter fun line => !line.isEmpty

/-- What stands behind the last terminator. -/
def openLine (stream : Bytes) : Bytes :=
  (stream.splitOnP isTerminator).getLastD []

/-- Whether the text of a line is one of these characters. -/
def isOneOf (letters : String) (line : Bytes) : Bool :=
  match lineText line with
  | [b] => b ∈ Text.toBytes letters
  | _ => false

/-- What is written about a line that is no command. -/
def refusal (line : Bytes) : List String :=
  match lineText line with
  | [] => []
  | text => ["ERROR: Unknown command '" ++ Text.ofBytes text ++ "' (? for help)\n"]

section Splitting

variable {line rest : Bytes} (hline : ∀ b ∈ line, isTerminator b = false)
include hline

theorem endedLines_of_open : endedLines line = [] := by
  rw [endedLines, List.splitOnP_eq_singleton hline]
  rfl

theorem openLine_of_open : openLine line = line := by
  rw [openLine, List.splitOnP_eq_singleton hline]
  rfl

theorem endedLines_append_cons {b : UInt8} (hb : isTerminator b) :
    endedLines (line ++ b :: rest) =
      if line.isEmpty then endedLines rest else line :: endedLines rest := by
  rw [endedLines, List.splitOnP_append_cons_of_forall_mem hline b hb,
    List.dropLast_cons_of_ne_nil (List.splitOnP_ne_nil _ _), List.filter_cons]
  cases line <;> rfl

theorem openLine_append_cons {b : UInt8} (hb : isTerminator b) :
    openLine (line ++ b :: rest) = openLine rest := by
  rw [openLine, List.splitOnP_append_cons_of_forall_mem hline b hb, openLine, List.getLastD_cons,
    List.getLastD_eq_getLast?, List.getLastD_eq_getLast?,
    List.getLast?_eq_some_getLast (List.splitOnP_ne_nil _ _)]
  rfl

end Splitting

section Short

variable {line : Bytes} (hshort : line.length ≤ lineLimit)
include hshort

theorem lastPart_of_short : lastPart line = line := by
  rw [lastPart, Nat.div_eq_of_lt (Nat.lt_succ_of_le hshort), Nat.zero_mul, List.drop_zero]

theorem complaints_of_short : complaints line = [] := by
  rw [complaints, Nat.div_eq_of_lt (Nat.lt_succ_of_le hshort), List.replicate_zero]

end Short

/-- A question about commands is one about the characters for which the answer is yes. -/
theorem isOneOf_of_ofByte? {letters : String} (asks : Option ConsoleCommand → Bool)
    (hnone : asks none = false)
    (hbytes : ∀ b, asks (ConsoleCommand.ofByte? b) = decide (b ∈ Text.toBytes letters))
    (line : Bytes) : asks (command? line) = isOneOf letters line := by
  unfold command? isOneOf
  rcases lineText line with _ | ⟨b, _ | ⟨c, rest⟩⟩
  · exact hnone
  · exact hbytes b
  · exact hnone

theorem isSome_command? (line : Bytes) :
    (command? line).isSome = isOneOf "01239SsEeRr?Hh" line :=
  isOneOf_of_ofByte? Option.isSome rfl (by decide +kernel) line

theorem command?_eq_resetCalibration (line : Bytes) :
    (command? line == some .resetCalibration) = isOneOf "Rr" line :=
  isOneOf_of_ofByte? (· == some .resetCalibration) rfl (by decide +kernel) line

theorem command?_eq_cycleOrder (line : Bytes) :
    (command? line == some .cycleOrder) = isOneOf "Ee" line :=
  isOneOf_of_ofByte? (· == some .cycleOrder) rfl (by decide +kernel) line

end Console

namespace Workbench

variable {ω : Type} (medium : Medium ω) (telemetry : ω → Telemetry)

def perform (command : ConsoleCommand) (s : Workbench ω) : Workbench ω :=
  (Console.perform (onWorld medium) (look telemetry) command s).2

/-- Runs lines one after the other. -/
def runLines (lines : List Bytes) (s : Workbench ω) : Workbench ω :=
  lines.foldl (fun t line => runLine medium telemetry line t) s

/-- The workbench with a line that is not ended, and the complaints about it. -/
def pending (line : Bytes) (s : Workbench ω) : Workbench ω :=
  { s.say (Console.complaints line) with
    console := { s.console with line := Console.lastPart line } }

/-- A line is its command, or is refused. -/
theorem runLine_eq (line : Bytes) (s : Workbench ω) :
    runLine medium telemetry line s = match Console.command? line with
      | some command => perform medium telemetry command s
      | none => s.say (Console.refusal line) := by
  unfold runLine Console.runLine Console.command? Console.refusal
  rcases Console.lineText line with _ | ⟨b, _ | ⟨c, rest⟩⟩
  · exact s.say_nil.symm
  · dsimp only
    cases ConsoleCommand.ofByte? b <;> rfl
  · rfl

/-- Bytes from the start of a line on: the lines that end are run, the last one waits. -/
theorem foldl_stream (stream : Bytes)
    (hshort : ∀ line ∈ Console.endedLines stream, line.length ≤ Console.lineLimit)
    {s : Workbench ω} (hs : s.console.line = []) :
    stream.foldl (accept medium telemetry) s =
      (runLines medium telemetry (Console.endedLines stream) s).pending
        (Console.openLine stream) := by
  -- induction on the number of bytes; the first terminator splits off the first line
  induction hn : stream.length using Nat.strong_induction_on generalizing stream s with
  | _ n ih =>
    cases hfirst : stream.find? Console.isTerminator with
    | none =>
      have hline : ∀ b ∈ stream, Console.isTerminator b = false := by
        simpa using List.find?_eq_none.1 hfirst
      rw [Console.endedLines_of_open hline, Console.openLine_of_open hline]
      exact foldl_line medium telemetry hline hs
    | some b =>
      obtain ⟨hb, line, rest, rfl, hfront⟩ := List.find?_eq_some_iff_append.1 hfirst
      have hline : ∀ c ∈ line, Console.isTerminator c = false := by simpa using hfront
      have hfewer : rest.length < n := by
        rw [← hn, List.length_append, List.length_cons]
        omega
      have hsplit : line ++ b :: rest = (line ++ [b]) ++ rest := by simp
      have hended : Console.endedLines (line ++ b :: rest) =
          if line.isEmpty then Console.endedLines rest else line :: Console.endedLines rest :=
        Console.endedLines_append_cons hline hb
      have hrest : ∀ part ∈ Console.endedLines rest, part.length ≤ Console.lineLimit := by
        intro part hpart
        apply hshort part
        rw [hended]
        split
        next => exact hpart
        next => exact List.mem_cons_of_mem _ hpart
      have hlength : line.length ≤ Console.lineLimit := by
        cases line with
        | nil => exact Nat.zero_le _
        | cons c cs =>
          apply hshort
          rw [hended]
          exact List.mem_cons_self
      have hrun : runLines medium telemetry (Console.endedLines (line ++ b :: rest)) s =
          runLines medium telemetry (Console.endedLines rest)
            (runLine medium telemetry line s) := by
        rw [hended]
        cases line with
        | nil => rfl
        | cons c cs => rfl
      have hempty : (runLine medium telemetry line s).console.line = [] := by
        rw [console_runLine, hs]
      rw [hrun, Console.openLine_append_cons hline hb, hsplit, List.foldl_append,
        foldl_ended_line medium telemetry hline hb hs, Console.lastPart_of_short hlength,
        Console.complaints_of_short hlength, say_nil]
      exact ih _ hfewer rest hrest hempty rfl

section Effects

/-- The calibration engine, the store and the world with the flash. -/
def kept (s : Workbench ω) : Calibration × Store × ω :=
  (s.chain.calibration, s.chain.store, s.world)

def order (s : Workbench ω) : ByteOrder := s.chain.protocol.config.order

/-- The calibration is reset once. -/
def cleared (s : Workbench ω) : Workbench ω := (Calibration.reset (onWorld medium) s).2

/-- Writes text and takes the settings, which leaves a property of the workbench alone. -/
structure Unseen (P : Workbench ω → Prop) : Prop where
  text : ∀ s texts, P s → P (s.say texts)
  level : Ignores P LogLevel
  settings : Ignores P Settings

namespace Unseen

variable {P : Workbench ω → Prop} (h : Unseen P)
include h

theorem logKeeps : LogKeeps P := fun text s hs => h.text s [text] hs

theorem terminal (text : String) :
    Keeps P (Terminal.write text : StateM (Workbench ω) Unit) :=
  fun s hs => h.text s [text] hs

theorem save (key : String) (value : UInt8) (shown : String) :
    Keeps P (Settings.save key value shown : StateM (Workbench ω) Bool) :=
  .of_alike (Settings.alike_save h.logKeeps.alike (fun text => (h.terminal text).alike)
    h.settings.shares key value shown)

theorem chooseLevel (level : LogLevel) :
    Keeps P (Console.chooseLevel level : StateM (Workbench ω) Unit) := by
  refine .bind (fun s hs => h.level level s hs) fun _ => .bind (h.terminal _) fun _ => ?_
  refine .bind (h.save _ _ _) fun saved => ?_
  cases saved with
  | true => exact .pure _
  | false => exact h.terminal _

theorem shows : Console.Shows fun s t : Workbench ω => s = t ∧ P s where
  terminal text := (h.terminal text).alike
  level := by rintro s _ ⟨rfl, -⟩; rfl
  channel := by rintro s _ ⟨rfl, -⟩; rfl
  calibration := by rintro s _ ⟨rfl, -⟩; rfl
  protocol := by rintro s _ ⟨rfl, -⟩; rfl
  pipeline := by rintro s _ ⟨rfl, -⟩; rfl

theorem printStatus : Keeps P (Console.printStatus (look telemetry)) := by
  have htelemetry : Keeps P (look telemetry) := fun _ hs => hs
  exact .of_alike (h.shows.printStatus htelemetry.alike)

theorem printHelp : Keeps P (Console.printHelp : StateM (Workbench ω) Unit) :=
  .of_alike h.shows.printHelp

/-- A step of the byte order does no more than to choose it. -/
theorem stepOrder (s : Workbench ω)
    (hs : P (Holds.withPart
      { s.chain.protocol with config.order := s.order.next } s)) :
    P (Console.stepOrder s).2 := by
  have hrest (next : ByteOrder) : Keeps P (do
      Terminal.write ("Float byte order: " ++ next.name ++ "\n")
      if !(← Settings.saveOrder next) then
        Terminal.line "WARNING: Byte order not persisted" : StateM (Workbench ω) Unit) := by
    refine .bind (h.terminal _) fun _ => .bind (h.save _ _ _) fun saved => ?_
    cases saved with
    | true => exact .pure _
    | false => exact h.terminal _
  exact hrest s.order.next _ hs

end Unseen

theorem unseen_kept (k : Calibration × Store × ω) :
    Unseen fun s : Workbench ω => s.kept = k where
  text _ _ hs := hs
  level _ _ hs := hs
  settings _ _ hs := hs

theorem unseen_order (order : ByteOrder) : Unseen fun s : Workbench ω => s.order = order where
  text _ _ hs := hs
  level _ _ hs := hs
  settings _ _ hs := hs

/-- What follows a reset is text and the name of an error. -/
theorem resetCalibration_run (s : Workbench ω) :
    ∃ texts errorInfo, perform medium telemetry .resetCalibration s =
      (Holds.withPart { (cleared medium s).chain.protocol with errorInfo := errorInfo }
        (cleared medium s)).say texts := by
  show ∃ texts errorInfo, (Console.resetCalibration (onWorld medium) s).2 = _
  rw [Console.resetCalibration, bind_run, ← cleared]
  cases (Calibration.reset (onWorld medium) s).1 with
  | ok => exact ⟨[_], _, rfl⟩
  | error e => exact ⟨[_], _, rfl⟩

theorem order_cleared (s : Workbench ω) : (cleared medium s).order = s.order := by
  have hworld {α : Type} (x : StateM ω α) :
      Keeps (fun t : Workbench ω => t.order = s.order) (inWorld x) := fun _ ht => ht
  have hcalibration : Ignores (fun t : Workbench ω => t.order = s.order) Calibration :=
    fun _ _ ht => ht
  have hstore : Ignores (fun t : Workbench ω => t.order = s.order) Store := fun _ _ ht => ht
  have hmedium : (onWorld medium).Keeping fun t : Workbench ω => t.order = s.order :=
    medium.keeping_within hworld
  exact Keeps.of_alike (Calibration.alike_reset (unseen_order s.order).logKeeps.alike.texts
    hcalibration.shares hmedium.alike hstore.shares) s rfl

theorem kept_perform (command : ConsoleCommand) (s : Workbench ω) :
    (perform medium telemetry command s).kept =
      if command = .resetCalibration then (cleared medium s).kept else s.kept := by
  have h : Unseen fun t : Workbench ω => t.kept = s.kept := unseen_kept s.kept
  cases command with
  | setLevel level => exact h.chooseLevel level s rfl
  | showStatus => exact h.printStatus telemetry s rfl
  | cycleOrder => exact h.stepOrder s rfl
  | resetCalibration =>
    obtain ⟨texts, errorInfo, hrun⟩ := resetCalibration_run medium telemetry s
    rw [hrun]
    rfl
  | help => exact h.printHelp s rfl

theorem order_perform (command : ConsoleCommand) (s : Workbench ω) :
    (perform medium telemetry command s).order =
      if command = .cycleOrder then s.order.next else s.order := by
  have h : Unseen fun t : Workbench ω => t.order = s.order := unseen_order s.order
  cases command with
  | setLevel level => exact h.chooseLevel level s rfl
  | showStatus => exact h.printStatus telemetry s rfl
  | cycleOrder => exact (unseen_order s.order.next).stepOrder s rfl
  | resetCalibration =>
    obtain ⟨texts, errorInfo, hrun⟩ := resetCalibration_run medium telemetry s
    rw [hrun]
    exact order_cleared medium s
  | help => exact h.printHelp s rfl

def SameKept (s t : Workbench ω) : Prop := s.kept = t.kept

namespace SameKept

variable {s t : Workbench ω} (h : s.SameKept t)
include h

theorem calibration_eq : s.chain.calibration = t.chain.calibration := congrArg (·.1) h

theorem store_eq : s.chain.store = t.chain.store := congrArg (·.2.1) h

theorem world_eq : s.world = t.world := congrArg (·.2.2) h

end SameKept

theorem alike_inWorld_sameKept {α : Type} (x : StateM ω α) :
    Alike SameKept (inWorld x) (inWorld x) := by
  intro s t h
  have hsame : x s.world = x t.world := congrArg x h.world_eq
  refine ⟨congrArg (fun r : α × ω => r.1) hsame, ?_⟩
  show (s.chain.calibration, s.chain.store, (x s.world).2) =
    (t.chain.calibration, t.chain.store, (x t.world).2)
  rw [hsame, h.calibration_eq, h.store_eq]

theorem textAlike_sameKept : TextAlike (SameKept : Workbench ω → Workbench ω → Prop) := by
  have hdebug (topic : Topic) (text : String) (s : Workbench ω) :
      (Log.debug topic text s).2.kept = s.kept :=
    (unseen_kept s.kept).logKeeps.debug topic text s rfl
  refine ⟨fun text s t h => ⟨rfl, h⟩, fun topic text s t h => ⟨rfl, ?_⟩⟩
  exact (hdebug topic text s).trans (h.trans (hdebug topic text t).symm)

/-- What a reset does to the engine, the store and the flash depends on them alone, not on the debug
level. -/
theorem kept_cleared_congr {s t : Workbench ω} (h : s.kept = t.kept) :
    (cleared medium s).kept = (cleared medium t).kept := by
  have hmedium : (onWorld medium).Alike (onWorld medium) SameKept :=
    medium.alike_within alike_inWorld_sameKept
  have hcalibration : Shares (SameKept : Workbench ω → Workbench ω → Prop) Calibration := by
    refine ⟨fun s t h => h.calibration_eq, fun c s t h => ?_⟩
    show (c, s.chain.store, s.world) = (c, t.chain.store, t.world)
    rw [h.store_eq, h.world_eq]
  have hstore : Shares (SameKept : Workbench ω → Workbench ω → Prop) Store := by
    refine ⟨fun s t h => h.store_eq, fun store s t h => ?_⟩
    show (s.chain.calibration, store, s.world) = (t.chain.calibration, store, t.world)
    rw [h.calibration_eq, h.world_eq]
  exact (Calibration.alike_reset textAlike_sameKept hcalibration hmedium hstore s t h).2

theorem kept_runLine (line : Bytes) (s : Workbench ω) :
    (runLine medium telemetry line s).kept =
      if Console.isOneOf "Rr" line then (cleared medium s).kept else s.kept := by
  rw [runLine_eq, ← Console.command?_eq_resetCalibration]
  cases Console.command? line with
  | none => rfl
  | some command => simpa using kept_perform medium telemetry command s

theorem order_runLine (line : Bytes) (s : Workbench ω) :
    (runLine medium telemetry line s).order =
      if Console.isOneOf "Ee" line then s.order.next else s.order := by
  rw [runLine_eq, ← Console.command?_eq_cycleOrder]
  cases Console.command? line with
  | none => rfl
  | some command => simpa using order_perform medium telemetry command s

theorem runLines_concat (lines : List Bytes) (line : Bytes) (s : Workbench ω) :
    runLines medium telemetry (lines ++ [line]) s =
      runLine medium telemetry line (runLines medium telemetry lines s) :=
  List.foldl_concat ..

/-- Lines reset the calibration as often as they ask for it. -/
theorem kept_runLines (lines : List Bytes) (s : Workbench ω) :
    (runLines medium telemetry lines s).kept =
      ((cleared medium)^[lines.countP (Console.isOneOf "Rr")] s).kept := by
  induction lines using List.reverseRecOn with
  | nil => rfl
  | append_singleton lines line ih =>
    rw [runLines_concat, kept_runLine, List.countP_append, List.countP_singleton]
    split
    next => rw [Function.iterate_succ_apply', kept_cleared_congr medium ih]
    next => exact ih

theorem order_runLines (lines : List Bytes) (s : Workbench ω) :
    (runLines medium telemetry lines s).order =
      ByteOrder.next^[lines.countP (Console.isOneOf "Ee")] s.order := by
  induction lines using List.reverseRecOn with
  | nil => rfl
  | append_singleton lines line ih =>
    rw [runLines_concat, order_runLine, List.countP_append, List.countP_singleton]
    split
    next => rw [Function.iterate_succ_apply', ih]
    next => exact ih

end Effects

/-- A blank and the reset with a zero byte behind it in pieces, two steps of the byte order, a line of
two letters, and a reset that is not ended. -/
def mixed : List Bytes :=
  [[10, 32], [82, 0], [120, 13, 13, 69, 10, 101], [13, 82, 82, 10, 82]]

end Workbench

end LoadCell
