import LoadCell.Chain
import LoadCell.Proofs.AlikeConsole
import LoadCell.Proofs.Keeps
import LoadCell.Proofs.StoreLink

/-!
Lines of the serial console. How the bytes are cut into arrivals does not matter. A line that fills
the buffer is thrown away together with the byte that did not fit, but only up to there: the rest of
it is gathered anew and run as if it were the whole line.
-/
namespace LoadCell

namespace Console

/-- What is left of a line after it has filled the buffer as often as it does. -/
def lastPart (line : Bytes) : Bytes :=
  line.drop (line.length / (lineLimit + 1) * (lineLimit + 1))

/-- What is written for a line, once for each time that it fills the buffer. -/
def complaints (line : Bytes) : List String :=
  List.replicate (line.length / (lineLimit + 1)) "ERROR: Command too long\r\n"

/-- The command that a line is, if it is one. -/
def command? (line : Bytes) : Option ConsoleCommand :=
  match lineText line with
  | [b] => ConsoleCommand.ofByte? b
  | _ => none

theorem length_lastPart (line : Bytes) :
    (lastPart line).length = line.length % (lineLimit + 1) := by
  rw [lastPart, List.length_drop, Nat.mod_eq_sub_div_mul]

/-- A byte that does not end the line is added to what is left of it, or throws that away. -/
theorem extend_lastPart (line : Bytes) {b : UInt8} (hb : isTerminator b = false) :
    extend b (lastPart line) = .growing (lastPart (line ++ [b])) ∧
        complaints (line ++ [b]) = complaints line ∨
      extend b (lastPart line) = .tooLong ∧ lastPart (line ++ [b]) = [] ∧
        complaints (line ++ [b]) = complaints line ++ ["ERROR: Command too long\r\n"] := by
  have hlimit : lineLimit = 31 := rfl
  have hlength : (line ++ [b]).length = line.length + 1 := by simp
  unfold extend
  rw [if_neg (by simp [hb]), length_lastPart]
  split
  next hroom =>
    left
    have hsame : (line ++ [b]).length / (lineLimit + 1) = line.length / (lineLimit + 1) := by
      rw [hlimit] at hroom ⊢
      omega
    refine ⟨?_, by rw [complaints, hsame, complaints]⟩
    rw [lastPart, lastPart, hsame, List.drop_append_of_le_length (Nat.div_mul_le_self ..)]
  next hfull =>
    right
    have hnext : (line ++ [b]).length / (lineLimit + 1) = line.length / (lineLimit + 1) + 1 := by
      rw [hlimit] at hfull ⊢
      omega
    refine ⟨rfl, ?_, by rw [complaints, hnext, List.replicate_succ', complaints]⟩
    rw [lastPart, List.drop_eq_nil_iff, hnext]
    rw [hlimit] at hfull ⊢
    omega

theorem extend_terminator {b : UInt8} (hb : isTerminator b) (line : Bytes) :
    extend b line = if line.isEmpty then .growing line else .complete line :=
  if_pos hb

end Console

/-- Whether a command only shows something. -/
def ConsoleCommand.isQuery : ConsoleCommand → Bool
  | .showStatus | .help => true
  | .setLevel _ | .cycleOrder | .resetCalibration => false

/-- The parts that the console's commands act on, a world with the flash and the counters, and the
text that was written so far. -/
structure Workbench (ω : Type) where
  level : LogLevel := .default
  chain : Chain := {}
  settings : Settings := {}
  console : Console := {}
  text : List String := []
  world : ω

namespace Workbench

variable {ω : Type}

instance : Holds (Workbench ω) LogLevel := ⟨(·.level), fun a s => { s with level := a }⟩
instance : Holds (Workbench ω) Chain := ⟨(·.chain), fun a s => { s with chain := a }⟩
instance : Holds (Workbench ω) Settings := ⟨(·.settings), fun a s => { s with settings := a }⟩
instance : Holds (Workbench ω) Console := ⟨(·.console), fun a s => { s with console := a }⟩

def say (texts : List String) (s : Workbench ω) : Workbench ω := { s with text := s.text ++ texts }

theorem say_nil (s : Workbench ω) : s.say [] = s := by rw [say, List.append_nil]

theorem say_say (texts texts' : List String) (s : Workbench ω) :
    (s.say texts).say texts' = s.say (texts ++ texts') := by
  simp [say]

instance : Logs (Workbench ω) where
  write text := modify (say [text])

instance : Terminal (Workbench ω) where
  write text := modify (say [text])

/-- Runs a program of the world. -/
def inWorld {α : Type} (x : StateM ω α) : StateM (Workbench ω) α :=
  fun s => ((x s.world).1, { s with world := (x s.world).2 })

def onWorld (medium : Medium ω) : Medium (Workbench ω) where
  sectorSize := medium.sectorSize
  sectorCount := inWorld medium.sectorCount
  read offset length := inWorld (medium.read offset length)
  erase offset length := inWorld (medium.erase offset length)
  write offset bytes := inWorld (medium.write offset bytes)

variable (medium : Medium ω) (telemetry : ω → Telemetry)

def look : StateM (Workbench ω) Telemetry := fun s => (telemetry s.world, s)

def runLine (line : Bytes) (s : Workbench ω) : Workbench ω :=
  (Console.runLine (onWorld medium) (look telemetry) line s).2

def accept (s : Workbench ω) (b : UInt8) : Workbench ω :=
  (Console.accept (onWorld medium) (look telemetry) b s).2

/-- Bytes arrive, and the console takes in what has arrived. -/
def feed (s : Workbench ω) (chunk : Bytes) : Workbench ω :=
  (Console.update (onWorld medium) (look telemetry)
    { s with console := s.console.arrive chunk }).2

def feedAll (chunks : List Bytes) (s : Workbench ω) : Workbench ω :=
  chunks.foldl (feed medium telemetry) s

/-- The same workbench with another console. -/
def Beside (c : Console) (s t : Workbench ω) : Prop := t = { s with console := c }

section Beside

variable {c : Console} {α : Type}

theorem shares_beside [Holds (Workbench ω) α]
    (hpart : ∀ s : Workbench ω, (Holds.part s : α) = Holds.part { s with console := c })
    (hreplace : ∀ (a : α) (s : Workbench ω), Holds.withPart a { s with console := c } =
      { (Holds.withPart a s : Workbench ω) with console := c }) :
    Shares (Beside c : Workbench ω → Workbench ω → Prop) α where
  same := by
    rintro s _ rfl
    exact hpart s
  replace := by
    rintro a s _ rfl
    exact hreplace a s

theorem alike_inWorld (x : StateM ω α) : Alike (Beside c) (inWorld x) (inWorld x) := by
  rintro s _ rfl
  exact ⟨rfl, rfl⟩

theorem alike_say (text : String) : Alike (Beside c)
    (modify (say [text]) : StateM (Workbench ω) Unit) (modify (say [text])) := by
  rintro s _ rfl
  exact ⟨rfl, rfl⟩

theorem serves_beside :
    Console.Serves (onWorld medium) (onWorld medium) (Beside c) where
  log := ⟨by rintro s _ rfl; rfl, fun text => alike_say text⟩
  terminal := fun text => alike_say text
  medium := medium.alike_within alike_inWorld
  level := shares_beside (fun _ => rfl) fun _ _ => rfl
  settings := shares_beside (fun _ => rfl) fun _ _ => rfl
  channel := shares_beside (fun _ => rfl) fun _ _ => rfl
  store := shares_beside (fun _ => rfl) fun _ _ => rfl
  calibration := shares_beside (fun _ => rfl) fun _ _ => rfl
  protocol := shares_beside (fun _ => rfl) fun _ _ => rfl
  pipeline := shares_beside (fun _ => rfl) fun _ _ => rfl

/-- Commands neither see nor change the console. -/
theorem runLine_withConsole (line : Bytes) (c : Console) (s : Workbench ω) :
    runLine medium telemetry line { s with console := c } =
      { runLine medium telemetry line s with console := c } := by
  have htelemetry : Alike (Beside c) (look telemetry) (look telemetry) := by
    rintro s _ rfl
    exact ⟨rfl, rfl⟩
  exact ((serves_beside medium).runLine htelemetry line s _ rfl).2

@[simp] theorem console_runLine (line : Bytes) (s : Workbench ω) :
    (runLine medium telemetry line s).console = s.console :=
  (congrArg console (runLine_withConsole medium telemetry line s.console s) :)

end Beside

section Bytes

theorem accept_run (b : UInt8) (s : Workbench ω) :
    accept medium telemetry s b = match Console.extend b s.console.line with
      | .growing line => { s with console := { s.console with line := line } }
      | .complete line =>
        { runLine medium telemetry line s with console := { s.console with line := [] } }
      | .tooLong =>
        { s.say ["ERROR: Command too long\r\n"] with console := { s.console with line := [] } } := by
  rw [accept, Console.accept, bind_run]
  show ((match Console.extend b s.console.line with
    | .growing line => Console.setLine line
    | .complete line => do
      Console.runLine (onWorld medium) (look telemetry) line
      Console.setLine []
    | .tooLong => do
      Terminal.line "ERROR: Command too long"
      Console.setLine [] : StateM (Workbench ω) Unit) s).2 = _
  cases Console.extend b s.console.line with
  | growing line => rfl
  | complete line =>
    show ({ runLine medium telemetry line s with
      console := { (runLine medium telemetry line s).console with line := [] } } : Workbench ω) = _
    rw [console_runLine]
  | tooLong => rfl

/-- The workbench with bytes that have arrived. -/
def awaiting (unread : Bytes) (s : Workbench ω) : Workbench ω :=
  { s with console := { s.console with unread := unread } }

/-- What is still unread makes no difference to a byte. -/
theorem accept_awaiting (b : UInt8) (unread : Bytes) (s : Workbench ω) :
    accept medium telemetry (s.awaiting unread) b =
      (accept medium telemetry s b).awaiting unread := by
  rw [accept_run, accept_run]
  dsimp only [awaiting]
  cases Console.extend b s.console.line with
  | growing line => rfl
  | complete line =>
    dsimp only
    rw [runLine_withConsole]
  | tooLong => rfl

theorem acceptBytes_run (bytes : Bytes) (s : Workbench ω) :
    (Console.acceptBytes (onWorld medium) (look telemetry) bytes.length (s.awaiting bytes)).2 =
      (bytes.foldl (accept medium telemetry) s).awaiting [] := by
  induction bytes generalizing s with
  | nil => rfl
  | cons b rest ih =>
    rw [List.length_cons, Console.acceptBytes, bind_run]
    show (Console.acceptBytes (onWorld medium) (look telemetry) rest.length
      (accept medium telemetry (s.awaiting rest) b)).2 = _
    rw [accept_awaiting, ih, List.foldl_cons]

theorem unread_accept (s : Workbench ω) (b : UInt8) :
    (accept medium telemetry s b).console.unread = s.console.unread := by
  rw [accept_run]
  cases Console.extend b s.console.line <;> rfl

theorem unread_foldl (bytes : Bytes) (s : Workbench ω) :
    (bytes.foldl (accept medium telemetry) s).console.unread = s.console.unread := by
  induction bytes generalizing s with
  | nil => rfl
  | cons b rest ih => rw [List.foldl_cons, ih, unread_accept]

theorem feed_run {s : Workbench ω} (hs : s.console.unread = []) (chunk : Bytes) :
    feed medium telemetry s chunk = chunk.foldl (accept medium telemetry) s := by
  have hunread := (unread_foldl medium telemetry chunk s).trans hs
  have hrun := acceptBytes_run medium telemetry chunk s
  have harrive : s.console.arrive chunk = { s.console with unread := chunk } := by
    rw [Console.arrive, hs, List.nil_append]
  rw [feed, harrive]
  refine hrun.trans ?_
  rw [awaiting, ← hunread]

/-- However the bytes are cut into arrivals, they are taken in one after the other. -/
theorem feedAll_run {s : Workbench ω} (hs : s.console.unread = []) (chunks : List Bytes) :
    feedAll medium telemetry chunks s = chunks.flatten.foldl (accept medium telemetry) s := by
  induction chunks generalizing s with
  | nil => rfl
  | cons chunk rest ih =>
    rw [List.flatten_cons, List.foldl_append, ← feed_run medium telemetry hs chunk]
    refine ih ?_
    rw [feed_run medium telemetry hs, unread_foldl, hs]

end Bytes

section Lines

/-- After bytes that end no line, what is left of them is in the buffer. -/
theorem foldl_line {line : Bytes} (hline : ∀ b ∈ line, Console.isTerminator b = false)
    {s : Workbench ω} (hs : s.console.line = []) :
    line.foldl (accept medium telemetry) s = { s.say (Console.complaints line) with
      console := { s.console with line := Console.lastPart line } } := by
  induction line using List.reverseRecOn with
  | nil =>
    have hnone : Console.complaints [] = [] := rfl
    rw [List.foldl_nil, hnone, say_nil]
    show s = { s with console := { s.console with line := [] } }
    rw [← hs]
  | append_singleton line b ih =>
    rw [List.foldl_append, ih fun c hc => hline c (List.mem_append_left _ hc)]
    rw [List.foldl_cons, List.foldl_nil, accept_run]
    dsimp only
    rcases Console.extend_lastPart line (hline b (by simp)) with ⟨hgrow, hsame⟩ | ⟨hfull, hnil, hnext⟩
    · rw [hgrow, hsame]
    · rw [hfull, hnil, hnext, ← say_say]
      rfl

/-- A terminator runs the line in the buffer, which is empty then. -/
theorem accept_terminator {b : UInt8} (hb : Console.isTerminator b) (s : Workbench ω) :
    accept medium telemetry s b = { runLine medium telemetry s.console.line s with
      console := { s.console with line := [] } } := by
  rw [accept_run, Console.extend_terminator hb]
  cases hline : s.console.line with
  | nil => rfl
  | cons c rest => rfl

/-- A line is run by its last part, after the complaints about it. -/
theorem foldl_ended_line {line : Bytes} (hline : ∀ c ∈ line, Console.isTerminator c = false)
    {b : UInt8} (hb : Console.isTerminator b) {s : Workbench ω} (hs : s.console.line = []) :
    (line ++ [b]).foldl (accept medium telemetry) s =
      runLine medium telemetry (Console.lastPart line) (s.say (Console.complaints line)) := by
  rw [List.foldl_append, foldl_line medium telemetry hline hs, List.foldl_cons, List.foldl_nil,
    accept_terminator medium telemetry hb]
  dsimp only
  rw [runLine_withConsole, ← hs]
  exact (runLine_withConsole medium telemetry _ s.console _).symm

/-- Behind a terminator the line is empty. -/
theorem line_foldl {front : Bytes} (hfront : ∀ b ∈ front.getLast?, Console.isTerminator b)
    {s : Workbench ω} (hs : s.console.line = []) :
    (front.foldl (accept medium telemetry) s).console.line = [] := by
  rcases List.eq_nil_or_concat front with rfl | ⟨rest, b, rfl⟩
  · exact hs
  · rw [List.concat_eq_append, List.foldl_append, List.foldl_cons, List.foldl_nil,
      accept_terminator medium telemetry (hfront b (by simp))]

theorem keeps_say (s : Workbench ω) (text : String) :
    Keeps (fun t => ∃ texts, t = s.say texts)
      (modify (say [text]) : StateM (Workbench ω) Unit) := by
  rintro _ ⟨texts, rfl⟩
  exact ⟨texts ++ [text], say_say ..⟩

theorem shows_say (s : Workbench ω) :
    Console.Shows fun t u : Workbench ω => t = u ∧ ∃ texts, t = s.say texts where
  terminal text := (keeps_say s text).alike
  level := by rintro t _ ⟨rfl, -⟩; rfl
  channel := by rintro t _ ⟨rfl, -⟩; rfl
  calibration := by rintro t _ ⟨rfl, -⟩; rfl
  protocol := by rintro t _ ⟨rfl, -⟩; rfl
  pipeline := by rintro t _ ⟨rfl, -⟩; rfl

/-- A line that is no command, or one that only shows something, just writes text. -/
theorem runLine_of_query {line : Bytes}
    (hquery : ∀ command, Console.command? line = some command → command.isQuery)
    (s : Workbench ω) : ∃ texts, runLine medium telemetry line s = s.say texts := by
  have hstart : ∃ texts, s = s.say texts := ⟨[], s.say_nil.symm⟩
  unfold Console.command? at hquery
  unfold runLine Console.runLine
  rcases htext : Console.lineText line with _ | ⟨b, _ | ⟨c, rest⟩⟩
  · exact hstart
  · simp only [htext] at hquery
    dsimp only
    cases hcommand : ConsoleCommand.ofByte? b with
    | none => exact ⟨[_], rfl⟩
    | some command =>
      have hshow := hquery command hcommand
      cases command with
      | showStatus =>
        have htelemetry : Keeps (fun t => ∃ texts, t = s.say texts) (look telemetry) :=
          fun _ ht => ht
        exact Keeps.of_alike ((shows_say s).printStatus htelemetry.alike) s hstart
      | help => exact Keeps.of_alike (shows_say s).printHelp s hstart
      | setLevel level => cases hshow
      | cycleOrder => cases hshow
      | resetCalibration => cases hshow
  · exact ⟨[_], rfl⟩

/-- However a stream is cut into arrivals, a line of it is run by its last part alone: the rest of it
was thrown away, with a complaint for each full buffer. So the line changes nothing if its last part
is no command or one that only shows something, and else it does what that command does. -/
theorem lastPart_of_line_runs {s : Workbench ω} (hs : s.console = {}) {front line : Bytes}
    {b : UInt8} (hfront : ∀ c ∈ front.getLast?, Console.isTerminator c)
    (hline : ∀ c ∈ line, Console.isTerminator c = false) (hb : Console.isTerminator b)
    {chunks : List Bytes} (hchunks : chunks.flatten = front ++ line ++ [b]) :
    let before := feedAll medium telemetry [front] s
    let after := feedAll medium telemetry chunks s
    let part := Console.lastPart line
    after = runLine medium telemetry part (before.say (Console.complaints line)) ∧
      ((∀ command, Console.command? part = some command → command.isQuery) →
        ∃ texts, after = before.say texts) := by
  have hunread : s.console.unread = [] := by rw [hs]
  have hbegin := line_foldl medium telemetry hfront (s := s) (by rw [hs])
  dsimp only
  rw [feedAll_run medium telemetry hunread, feedAll_run medium telemetry hunread, hchunks,
    List.flatten_singleton, List.append_assoc, List.foldl_append,
    foldl_ended_line medium telemetry hline hb hbegin]
  refine ⟨rfl, ?_⟩
  intro hquery
  obtain ⟨texts, htexts⟩ := runLine_of_query medium telemetry hquery
    ((front.foldl (accept medium telemetry) s).say (Console.complaints line))
  rw [htexts]
  exact ⟨_, say_say ..⟩

end Lines

/-- A calibrated device that has stored its mapping. -/
def calibrated : Workbench (Rig FaultyFlash) where
  chain := { calibration := { mapping := some ⟨1000, 0.001⟩ } }
  world := (Store.commit (quiet 32) ⟨1000, 0.001⟩ blankRig).2

/-- A call for help, and a line of 40 bytes in two pieces. -/
def scattered : List Bytes :=
  [[63], 10 :: List.replicate 17 120, List.replicate 23 120 ++ [13]]

theorem lastPart_of_scattered : ∃ texts,
    feedAll (quiet 32) (fun _ => {}) scattered calibrated =
      (feedAll (quiet 32) (fun _ => {}) [[63, 10]] calibrated).say texts := by
  have hline : ∀ c ∈ List.replicate 40 120, Console.isTerminator c = false := by
    intro c hc
    rw [List.eq_of_mem_replicate hc]
    rfl
  have hend : Console.isTerminator 13 = true := rfl
  have hchunks : scattered.flatten = [63, 10] ++ List.replicate 40 120 ++ [13] := rfl
  have hunknown : Console.command? (Console.lastPart (List.replicate 40 120)) = none := by
    decide +kernel
  have hfront : ∀ c ∈ ([63, 10] : Bytes).getLast?, Console.isTerminator c := by
    rintro _ ⟨⟩
    rfl
  obtain ⟨-, hwrites⟩ := lastPart_of_line_runs (quiet 32) (fun _ => {}) (s := calibrated) rfl
    hfront hline hend hchunks
  apply hwrites
  intro command hcommand
  rw [hunknown] at hcommand
  cases hcommand

/-- Of 32 bytes and the letter of the reset the letter is the last part: the mapping is gone, also
from the flash. -/
theorem long_line_resets :
    let line : Bytes := List.replicate 32 120 ++ [82]
    let after := feedAll (quiet 32) (fun _ => {}) [line ++ [10]] calibrated
    Console.lineLimit < line.length ∧
      calibrated.chain.calibration.mapping = some ⟨1000, 0.001⟩ ∧
      (Store.load (quiet 32) calibrated.world).1 = some ⟨1000, 0.001⟩ ∧
      after.chain.calibration.mapping = none ∧
      (Store.load (quiet 32) after.world).1 = none := by
  decide +kernel

end Workbench

end LoadCell
