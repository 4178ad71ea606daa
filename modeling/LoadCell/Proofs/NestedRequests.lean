import LoadCell.Proofs.CalibrationInForce
import LoadCell.Proofs.Keeps

/-!
Saves and resets that start inside another. A flash of any kind may call the engine back from inside
each of its own calls, and a call that it makes so may reach the flash again. While a commit or an
erase runs, the engine is busy, so that all of these calls are refused and the one that runs is as it
is without them.
-/
namespace LoadCell

namespace Reentry

inductive Request
  | save
  | reset
  deriving DecidableEq

abbrev Outcome := Except CalibrationError Unit

/-- What a flash does in one call, up to its answer: it changes its world and looks at it, and it
requests saves and resets and learns what came of them. -/
inductive Handling (ω α : Type)
  | answer (a : α)
  | work (change : ω → ω) (rest : ω → Handling ω α)
  | request (request : Request) (rest : Outcome → Handling ω α)

structure Flash (ω : Type) where
  sectorSize : UInt32
  sectorCount : ω → UInt32
  read : (offset : UInt32) → (length : ℕ) → Handling ω (Option Bytes)
  erase : (offset : UInt32) → (length : ℕ) → Handling ω Bool
  write : (offset : UInt32) → Bytes → Handling ω Bool

inductive FlashOperation
  | read (offset : UInt32) (length : ℕ)
  | erase (offset : UInt32) (length : ℕ)
  | write (offset : UInt32) (bytes : Bytes)
  deriving DecidableEq

/-- The engine, its store and the flash, with the calls that have reached the flash. -/
structure Scene (ω : Type) where
  level : LogLevel := .default
  calibration : Calibration := {}
  store : Store := {}
  world : ω
  operations : List FlashOperation := []

/-- A request from inside a flash call, with the scene at its start and at its end. -/
structure Attempt (ω : Type) where
  request : Request
  outcome : Outcome
  before : Scene ω
  after : Scene ω

/-- A request that was turned away and did nothing at all. -/
def Attempt.Refused {ω : Type} (attempt : Attempt ω) : Prop :=
  attempt.outcome = .error .busy ∧ attempt.after = attempt.before

end Reentry

open Reentry

structure Reentry (ω : Type) where
  scene : Scene ω
  attempts : List (Attempt ω) := []

namespace Reentry

variable {ω α : Type}

def edit (f : Scene ω → Scene ω) (s : Reentry ω) : Reentry ω := { s with scene := f s.scene }

instance : Holds (Reentry ω) LogLevel := ⟨(·.scene.level), fun a => edit fun c => { c with level := a }⟩
instance : Holds (Reentry ω) Calibration :=
  ⟨(·.scene.calibration), fun a => edit fun c => { c with calibration := a }⟩
instance : Holds (Reentry ω) Store := ⟨(·.scene.store), fun a => edit fun c => { c with store := a }⟩

instance : Logs (Reentry ω) where
  write _ := return ()

instance : Silent (Reentry ω) := ⟨fun _ _ => rfl⟩

def note (operation : FlashOperation) : StateM (Reentry ω) Unit :=
  fun s => ((), s.edit fun c => { c with operations := c.operations ++ [operation] })

def advance (change : ω → ω) : StateM (Reentry ω) ω :=
  fun s => (change s.scene.world, s.edit fun c => { c with world := change c.world })

/-- A way to answer the requests of a flash. -/
abbrev Answering (ω : Type) := Request → StateM (Reentry ω) Outcome

def handle (answering : Answering ω) : Handling ω α → StateM (Reentry ω) α
  | .answer a => return a
  | .work change rest => do handle answering (rest (← advance change))
  | .request request rest => do handle answering (rest (← answering request))

def Flash.medium (flash : Flash ω) (answering : Answering ω) : Medium (Reentry ω) where
  sectorSize := flash.sectorSize
  sectorCount := fun s => (flash.sectorCount s.scene.world, s)
  read offset length := do
    note (.read offset length)
    handle answering (flash.read offset length)
  erase offset length := do
    note (.erase offset length)
    handle answering (flash.erase offset length)
  write offset bytes := do
    note (.write offset bytes)
    handle answering (flash.write offset bytes)

def perform (medium : Medium (Reentry ω)) : Answering ω
  | .save => Calibration.save medium
  | .reset => Calibration.reset medium

def performAll (medium : Medium (Reentry ω)) : List Request → StateM (Reentry ω) (List Outcome)
  | [] => return []
  | request :: rest => do
    let outcome ← perform medium request
    return outcome :: (← performAll medium rest)

/-- Puts a request on record. -/
def recorded (answering : Answering ω) : Answering ω := fun request s =>
  let (outcome, t) := answering request s
  (outcome, { t with attempts := t.attempts ++ [⟨request, outcome, s.scene, t.scene⟩] })

/-- No request is made, and the flash goes on as after one that was refused. -/
def unmade : Answering ω := fun _ => return .error .busy

/-- Every request is made, and so are the requests of the flash calls that it makes, and so on to a
depth; what is deeper is answered in some other way. -/
def made (flash : Flash ω) (deeper : Answering ω) : (depth : ℕ) → Answering ω
  | 0 => deeper
  | depth + 1 => recorded (perform (flash.medium (made flash deeper depth)))

/-- Both runs show the same scene, in which the engine is busy or is not, and all that the flash has
requested since some moment was refused. -/
structure Agree (past : List (Attempt ω)) (busy : Bool) (s t : Reentry ω) : Prop where
  scene : s.scene = t.scene
  busy_eq : s.scene.calibration.busy = busy
  attempts : ∃ new, s.attempts = past ++ new ∧ ∀ attempt ∈ new, attempt.Refused

section Agreement

variable {past : List (Attempt ω)} {busy busy' : Bool}

theorem Agree.edit {s t : Reentry ω} (h : Agree past busy s t) {f : Scene ω → Scene ω}
    (hf : (f s.scene).calibration.busy = busy') : Agree past busy' (s.edit f) (t.edit f) where
  scene := congrArg f h.scene
  busy_eq := hf
  attempts := h.attempts

theorem logAlike_agree : LogAlike (Agree past busy) where
  level _ _ h := congrArg Scene.level h.scene
  write _ := .pure _

theorem shares_store : Shares (Agree past busy) Store where
  same _ _ h := congrArg Scene.store h.scene
  replace _ _ _ h := h.edit h.busy_eq

theorem alike_getCalibration :
    Alike (Agree (ω := ω) past busy) (getPart Calibration) (getPart Calibration) :=
  fun _ _ h => ⟨congrArg Scene.calibration h.scene, h⟩

theorem alike_modifyCalibration {f : Calibration → Calibration} (hf : ∀ c, (f c).busy = c.busy) :
    Alike (Agree (ω := ω) past busy) (modifyPart f) (modifyPart f) :=
  fun _ _ h => ⟨rfl, h.edit (f := fun c => { c with calibration := f c.calibration })
    ((hf _).trans h.busy_eq)⟩

theorem alikeTo_setBusy :
    AlikeTo (Agree (ω := ω) past busy) (Agree past busy') (Calibration.setBusy busy')
      (Calibration.setBusy busy') :=
  fun _ _ h => ⟨rfl, h.edit
    (f := fun c => { c with calibration := { c.calibration with busy := busy' } }) rfl⟩

theorem alike_note (operation : FlashOperation) :
    Alike (Agree (ω := ω) past busy) (note operation) (note operation) :=
  fun _ _ h => ⟨rfl, h.edit (f := fun c => { c with operations := c.operations ++ [operation] })
    h.busy_eq⟩

theorem alike_advance (change : ω → ω) :
    Alike (Agree past busy) (advance change) (advance change) :=
  fun _ _ h => ⟨congrArg (fun c : Scene ω => change c.world) h.scene,
    h.edit (f := fun c => { c with world := change c.world }) h.busy_eq⟩

end Agreement

/-- A request to a busy engine returns before it has done anything. -/
theorem perform_busy (medium : Medium (Reentry ω)) (request : Request) {s : Reentry ω}
    (hbusy : s.scene.calibration.busy = true) : perform medium request s = (.error .busy, s) := by
  cases request with
  | save => exact (Calibration.save_run medium s).trans (if_pos hbusy)
  | reset => exact Calibration.reset_of_busy medium hbusy

section Inside

variable (flash : Flash ω) (deeper : Answering ω) (depth : ℕ) {past : List (Attempt ω)}

theorem alike_request (request : Request) :
    Alike (Agree past true) (made flash deeper (depth + 1) request) (unmade request) := by
  intro s t h
  have hrefused := perform_busy (flash.medium (made flash deeper depth)) request h.busy_eq
  have hmade : made flash deeper (depth + 1) request s = (.error .busy, { s with
      attempts := s.attempts ++ [⟨request, .error .busy, s.scene, s.scene⟩] }) := by
    rw [made, recorded, hrefused]
  obtain ⟨new, hattempts, hnew⟩ := h.attempts
  rw [hmade, hattempts, List.append_assoc]
  refine ⟨rfl, h.scene, h.busy_eq, _, rfl, ?_⟩
  intro attempt hattempt
  rcases List.mem_append.1 hattempt with hold | hlast
  · exact hnew attempt hold
  · rw [List.mem_singleton.1 hlast]
    exact ⟨rfl, rfl⟩

theorem alike_handle (handling : Handling ω α) :
    Alike (Agree past true) (handle (made flash deeper (depth + 1)) handling)
      (handle unmade handling) := by
  induction handling with
  | answer a => exact .pure a
  | work change rest ih => exact .bind (alike_advance change) ih
  | request request rest ih => exact .bind (alike_request flash deeper depth request) ih

theorem medium_alike : (flash.medium (made flash deeper (depth + 1))).Alike (flash.medium unmade)
    (Agree past true) where
  sectorSize := rfl
  sectorCount _ _ h := ⟨congrArg (fun c : Scene ω => flash.sectorCount c.world) h.scene, h⟩
  read _ _ := .bind (alike_note _) fun _ => alike_handle flash deeper depth _
  erase _ _ := .bind (alike_note _) fun _ => alike_handle flash deeper depth _
  write _ _ := .bind (alike_note _) fun _ => alike_handle flash deeper depth _

theorem alike_activate (mapping : Mapping) :
    Alike (Agree past false)
      (Calibration.activate (flash.medium (made flash deeper (depth + 1))) mapping)
      (Calibration.activate (flash.medium unmade) mapping) := by
  apply AlikeTo.bind alikeTo_setBusy
  intro _
  apply AlikeTo.bind
    (Store.alike_commit logAlike_agree.texts (medium_alike flash deeper depth) shares_store mapping)
  intro outcome
  apply AlikeTo.bind alikeTo_setBusy
  intro _
  cases outcome with
  | error e => exact Alike.bind (logAlike_agree.message _) fun _ => .pure _
  | ok =>
    refine Alike.bind (alike_modifyCalibration ?_) fun _ => ?_
    · exact fun _ => rfl
    exact Alike.bind (logAlike_agree.message _) fun _ => .pure _

theorem alike_save : Alike (Agree past false)
    (Calibration.save (flash.medium (made flash deeper (depth + 1))))
    (Calibration.save (flash.medium unmade)) := by
  apply Alike.bind alike_getCalibration
  intro c
  apply Alike.ite (.bind (logAlike_agree.message _) fun _ => .pure _)
  apply Alike.ite (.bind (logAlike_agree.debug _ _) fun _ => .pure _)
  dsimp only
  cases Mapping.fit (c.session.point 0) (c.session.point 1) with
  | none => exact .bind (logAlike_agree.message _) fun _ => .pure _
  | some mapping => exact alike_activate flash deeper depth mapping

theorem alike_reset : Alike (Agree past false)
    (Calibration.reset (flash.medium (made flash deeper (depth + 1))))
    (Calibration.reset (flash.medium unmade)) := by
  apply Alike.bind alike_getCalibration
  intro c
  apply Alike.ite (.bind (logAlike_agree.message _) fun _ => .pure _)
  apply AlikeTo.bind alikeTo_setBusy
  intro _
  apply AlikeTo.bind
    (Store.alike_clear logAlike_agree.texts (medium_alike flash deeper depth) shares_store)
  intro outcome
  apply AlikeTo.bind alikeTo_setBusy
  intro _
  refine Alike.bind (alike_modifyCalibration ?_) fun _ => ?_
  · exact fun _ => rfl
  cases outcome with
  | error e => exact Alike.bind (logAlike_agree.message _) fun _ => .pure _
  | ok => exact Alike.bind (logAlike_agree.message _) fun _ => .pure _

theorem alike_perform (request : Request) : Alike (Agree past false)
    (perform (flash.medium (made flash deeper (depth + 1))) request)
    (perform (flash.medium unmade) request) := by
  cases request with
  | save => exact alike_save flash deeper depth
  | reset => exact alike_reset flash deeper depth

theorem alike_performAll (requests : List Request) : Alike (Agree past false)
    (performAll (flash.medium (made flash deeper (depth + 1))) requests)
    (performAll (flash.medium unmade) requests) := by
  induction requests with
  | nil => exact .pure _
  | cons request rest ih =>
    exact .bind (alike_perform flash deeper depth request) fun _ => .bind ih fun _ => .pure _

end Inside

/-! An idle engine rejects nothing as busy. -/

def Idle (s : Reentry ω) : Prop := s.scene.calibration.busy = false

section Idle

variable (medium : Medium (Reentry ω)) (s : Reentry ω)

theorem activate_ne_busy (mapping : Mapping) :
    (Calibration.activate medium mapping s).1 ≠ .error .busy := by
  simp only [Calibration.activate, bind_run]
  cases (Store.commit medium mapping (Calibration.setBusy true s).2).1 with
  | error e => simp
  | ok => simp

theorem perform_ne_busy (request : Request) (hidle : s.Idle) :
    (perform medium request s).1 ≠ .error .busy := by
  have hnot : ¬ (Holds.part s : Calibration).busy = true := by
    show ¬ s.scene.calibration.busy = true
    rw [show s.scene.calibration.busy = false from hidle]
    exact Bool.false_ne_true
  cases request with
  | save =>
    rw [perform, Calibration.save_run, if_neg hnot]
    split
    next => simp
    next =>
      split
      next => simp
      next mapping _ => exact activate_ne_busy medium s mapping
  | reset =>
    rw [perform, Calibration.reset, bind_run, getPart_run]
    dsimp only
    rw [if_neg hnot]
    simp only [bind_run]
    cases (Store.clear medium (Calibration.setBusy true s).2).1 with
    | error e => simp
    | ok => simp

theorem performAll_ne_busy {medium : Medium (Reentry ω)}
    (hkeeps : ∀ request, Keeps Idle (perform medium request)) (requests : List Request)
    (hidle : s.Idle) : ∀ outcome ∈ (performAll medium requests s).1, outcome ≠ .error .busy := by
  induction requests generalizing s with
  | nil => exact List.forall_mem_nil _
  | cons request rest ih =>
    intro outcome houtcome
    rcases List.mem_cons.1 houtcome with rfl | hlater
    · exact perform_ne_busy medium s request hidle
    · exact ih _ (hkeeps request s hidle) outcome hlater

end Idle

/-- Whatever a flash does in its calls, and however deep the requests that it makes there nest, each of
them is refused as busy and leaves the scene as it is, its record of flash calls included. The requests
from outside end as they do if the flash makes none, with the same flash calls, and none of them is
refused as busy, whatever came of those before it. -/
theorem nested_refused (flash : Flash ω) (deeper : Answering ω) (depth : ℕ)
    (requests : List Request) (s : Reentry ω) (hidle : s.Idle) :
    let alone := performAll (flash.medium unmade) requests s
    let nested := performAll (flash.medium (made flash deeper (depth + 1))) requests s
    nested.1 = alone.1 ∧ nested.2.scene = alone.2.scene ∧
      (∃ new, nested.2.attempts = s.attempts ++ new ∧ ∀ attempt ∈ new, attempt.Refused) ∧
      (∀ outcome ∈ nested.1, outcome ≠ .error .busy) ∧ nested.2.Idle := by
  intro alone nested
  have hstart (t : Reentry ω) (ht : t.Idle) : Agree t.attempts false t t :=
    ⟨rfl, ht, [], (List.append_nil _).symm, List.forall_mem_nil _⟩
  have hkeeps (request : Request) :
      Keeps Idle (perform (flash.medium (made flash deeper (depth + 1))) request) :=
    fun t ht => (alike_perform flash deeper depth request t t (hstart t ht)).2.busy_eq
  obtain ⟨houtcomes, hend⟩ : nested.1 = alone.1 ∧ Agree s.attempts false nested.2 alone.2 :=
    alike_performAll flash deeper depth requests s s (hstart s hidle)
  exact ⟨houtcomes, hend.scene, hend.attempts, performAll_ne_busy s hkeeps requests hidle,
    hend.busy_eq⟩

/-- An erased flash that makes requests in all of its calls, and forgets what is written. It counts
its calls. -/
def eager : Flash ℕ where
  sectorSize := 4096
  sectorCount _ := 2
  read _ length := .request .save fun _ => .work Nat.succ fun _ =>
    .answer (some (List.replicate length 0xff))
  erase _ _ := .work Nat.succ fun _ => .request .reset fun _ => .request .save fun outcome =>
    .answer (outcome = .error .busy)
  write _ _ := .work Nat.succ fun _ => .request .reset fun _ => .answer true

def fitted : Reentry ℕ where
  scene :=
    { calibration := { session := (CalibrationSession.empty.add ⟨1000, 0⟩).add ⟨5000, 50⟩ }
      world := 0 }

theorem nested_refused_eager :
    let requests : List Request := [.save, .reset, .save]
    let nested := performAll (eager.medium (made eager unmade 2)) requests fitted
    nested.1 = [.error .storageFault, .ok (), .error .insufficientPoints] ∧
      nested.2.attempts.map (·.request) = [.save, .save, .reset, .save, .reset, .save, .reset, .save,
        .reset, .save, .save, .save] ∧
      (∀ attempt ∈ nested.2.attempts, attempt.Refused) ∧ nested.2.Idle := by
  intro requests nested
  obtain ⟨-, -, ⟨new, hattempts, hrefused⟩, -, hidle⟩ :=
    nested_refused eager unmade 1 requests fitted rfl
  have hnone : fitted.attempts = [] := rfl
  rw [hnone, List.nil_append] at hattempts
  refine ⟨by decide +kernel, by decide +kernel, ?_, hidle⟩
  rw [hattempts]
  exact hrefused

end Reentry

end LoadCell
