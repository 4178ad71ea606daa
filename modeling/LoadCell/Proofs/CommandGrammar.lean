import LoadCell.Protocol.Command
import Mathlib

/-!
The grammar of control frames. A frame is decoded exactly if the grammar has it, whatever bytes the
peer sends, and the fault of any other frame is told by its first byte.
-/
namespace LoadCell

/-- The opcodes that stand alone in their frame. -/
def bareOpcodes : List UInt8 :=
  [0x64, 0x65, 0x66, 0x67, 0x68, 0x6A, 0x6B, 0x6C, 0x6D, 0x6E, 0x6F, 0x70, 0x72]

def knownOpcodes : List UInt8 := 0x69 :: bareOpcodes

/-- The frame has a first byte, and it is no opcode. -/
def StartsUnknown (frame : Bytes) : Prop := ∃ code ∈ frame.head?, code ∉ knownOpcodes

theorem startsUnknown_cons {code : UInt8} {payload : Bytes} :
    StartsUnknown (code :: payload) ↔ code ∉ knownOpcodes := by
  simp [StartsUnknown]

/-- The number in four bytes, of which `d` has the sign. -/
def singleOf (a b c d : UInt8) : Float32 :=
  Float32.ofBits
    (UInt32.ofNat (a.toNat + 2 ^ 8 * b.toNat + 2 ^ 16 * c.toNat + 2 ^ 24 * d.toNat))

/-- A number of kilograms, within the capacity, and zero or at least one gram. -/
def Plausible (capacity weight : Float32) : Prop :=
  weight.isFinite ∧ ¬capacity < weight.abs ∧ (weight.abs == 0 ∨ referenceResolution ≤ weight.abs)

theorem isPlausible_iff {capacity weight : Float32} :
    isPlausible capacity weight = true ↔ Plausible capacity weight := by
  simp [isPlausible, Plausible, and_assoc]

instance (capacity weight : Float32) : Decidable (Plausible capacity weight) :=
  decidable_of_iff _ isPlausible_iff

section

variable (order : ByteOrder) (capacity : Float32)

/-- Four bytes hold an acceptable reference weight. -/
inductive HoldsReference : ByteOrder → Bytes → Float32 → Prop
  | little {a b c d : UInt8} (h : (singleOf a b c d).isFinite) :
      HoldsReference .little [a, b, c, d] (singleOf a b c d)
  | big {a b c d : UInt8} (h : (singleOf d c b a).isFinite) :
      HoldsReference .big [a, b, c, d] (singleOf d c b a)
  | autoLittle {a b c d : UInt8} (h : Plausible capacity (singleOf a b c d)) :
      HoldsReference .auto [a, b, c, d] (singleOf a b c d)
  | autoBig {a b c d : UInt8} (hlittle : ¬Plausible capacity (singleOf a b c d))
      (h : Plausible capacity (singleOf d c b a)) :
      HoldsReference .auto [a, b, c, d] (singleOf d c b a)

/-- A control frame and the command that it stands for. -/
inductive ControlFrame : Bytes → HeldCommand → Prop
  | bare {code : UInt8} (h : code ∈ bareOpcodes) : ControlFrame [code] ⟨code, 0⟩
  | point {bytes : Bytes} {weight : Float32} (h : HoldsReference capacity order bytes weight) :
      ControlFrame (0x69 :: bytes) ⟨0x69, weight⟩
  /-- The byte 4 may precede the weight as its length. -/
  | counted {bytes : Bytes} {weight : Float32} (h : HoldsReference capacity order bytes weight) :
      ControlFrame (0x69 :: 0x04 :: bytes) ⟨0x69, weight⟩

end

theorem littleEndianSingle_eq (a b c d : UInt8) :
    littleEndianSingle [a, b, c, d] = singleOf a b c d := by
  have hvalue : Bytes.value [a, b, c, d] =
      a.toNat + 2 ^ 8 * b.toNat + 2 ^ 16 * c.toNat + 2 ^ 24 * d.toNat := by
    simp only [Bytes.value]
    ring
  rw [littleEndianSingle, hvalue, singleOf]

theorem bigEndianSingle_eq (a b c d : UInt8) :
    bigEndianSingle [a, b, c, d] = singleOf d c b a :=
  littleEndianSingle_eq d c b a

theorem HoldsReference.length {capacity weight : Float32} {order : ByteOrder} {bytes : Bytes}
    (h : HoldsReference capacity order bytes weight) : bytes.length = 4 := by
  cases h <;> rfl

/-- The weight read from four bytes is the one that they hold. -/
theorem reference?_eq_some_iff {order : ByteOrder} {capacity weight : Float32} {bytes : Bytes}
    (hlength : bytes.length = 4) :
    order.reference? capacity bytes = some weight ↔ HoldsReference capacity order bytes weight := by
  obtain ⟨a, b, c, d, rfl⟩ := List.length_eq_four.1 hlength
  simp only [ByteOrder.reference?, littleEndianSingle_eq, bigEndianSingle_eq]
  constructor
  · intro h
    cases order with
    | little =>
      obtain ⟨hread, hfinite⟩ := Option.filter_eq_some_iff.1 h
      cases hread
      exact .little hfinite
    | big =>
      obtain ⟨hread, hfinite⟩ := Option.filter_eq_some_iff.1 h
      cases hread
      exact .big hfinite
    | auto =>
      by_cases hlittle : isPlausible capacity (singleOf a b c d)
      · simp only [Option.filter_some, hlittle, ↓reduceIte] at h
        cases h
        exact .autoLittle (isPlausible_iff.1 hlittle)
      · have hnone : (some (singleOf a b c d)).filter (isPlausible capacity) = none := by
          simp [hlittle]
        have hfallback : (some (singleOf d c b a)).filter (isPlausible capacity) = some weight := by
          simp only [hnone] at h
          exact h
        obtain ⟨hread, hbig⟩ := Option.filter_eq_some_iff.1 hfallback
        cases hread
        exact .autoBig (mt isPlausible_iff.2 hlittle) (isPlausible_iff.1 hbig)
    | unassigned code => cases h
  · intro h
    cases h with
    | little h => simp [h]
    | big h => simp [h]
    | autoLittle h => simp [isPlausible_iff.2 h]
    | autoBig hlittle h => simp [mt isPlausible_iff.1 hlittle, isPlausible_iff.2 h]

namespace Command

/-- The payload is four bytes, or their number and then they. -/
theorem referenceBytes?_eq_some_iff {payload bytes : Bytes} :
    referenceBytes? payload = some bytes ↔
      bytes.length = 4 ∧ (payload = bytes ∨ payload = 0x04 :: bytes) := by
  constructor
  · intro h
    unfold referenceBytes? at h
    split at h
    next a b c d =>
      cases h
      exact ⟨rfl, .inl rfl⟩
    next count a b c d =>
      split at h
      next hcount =>
        cases h
        have hfour : count = 0x04 := UInt8.toNat_inj.1 hcount
        exact ⟨rfl, .inr (by rw [hfour])⟩
      next => cases h
    next => cases h
  · rintro ⟨hlength, hpayload⟩
    obtain ⟨a, b, c, d, rfl⟩ := List.length_eq_four.1 hlength
    cases hpayload with
    | inl hplain =>
      subst hplain
      rfl
    | inr hcounted =>
      subst hcounted
      rfl

theorem reference_of_bare {command : Command} (h : command ∈ bare) : command.reference = 0 := by
  revert h
  cases command <;> simp [bare, reference]

theorem ofOpcode?_eq_some {code : UInt8} {command : Command} (h : ofOpcode? code = some command) :
    command.opcode = code ∧ command.reference = 0 := by
  have hcode := List.find?_some h
  exact ⟨beq_iff_eq.1 hcode, reference_of_bare (List.mem_of_find?_eq_some h)⟩

theorem ofOpcode?_isSome_iff {code : UInt8} :
    (ofOpcode? code).isSome ↔ code ∈ bareOpcodes := by
  have hopcodes : bareOpcodes = bare.map opcode := rfl
  rw [ofOpcode?, List.find?_isSome, hopcodes, List.mem_map]
  simp

variable {order : ByteOrder} {capacity : Float32} {frame : Bytes} {command : Command}

/-- Every decoded frame is one of the grammar. -/
theorem controlFrame_of_decode (h : decode order capacity frame = .ok command) :
    ControlFrame order capacity frame ⟨command.opcode, command.reference⟩ := by
  unfold decode at h
  split at h
  next => cases h
  next code payload =>
    split at h
    next bare hbare =>
      split at h
      next hempty =>
        cases h
        obtain ⟨hcode, hreference⟩ := ofOpcode?_eq_some hbare
        have hknown := ofOpcode?_isSome_iff.1 (Option.isSome_of_eq_some hbare)
        rw [List.isEmpty_iff.1 hempty, hcode, hreference]
        exact .bare hknown
      next => cases h
    next =>
      split at h
      next hpoint =>
        split at h
        next weight hweight =>
          cases h
          obtain ⟨bytes, hbytes, hread⟩ := Option.bind_eq_some_iff.1 hweight
          obtain ⟨hlength, hpayload⟩ := referenceBytes?_eq_some_iff.1 hbytes
          have hholds := (reference?_eq_some_iff hlength).1 hread
          subst hpoint
          rcases hpayload with rfl | rfl
          · exact .point hholds
          · exact .counted hholds
        next => cases h
      next => cases h

/-- Every frame of the grammar is decoded as the grammar says. -/
theorem decode_of_controlFrame {held : HeldCommand} (h : ControlFrame order capacity frame held) :
    ∃ command, decode order capacity frame = .ok command ∧
      (⟨command.opcode, command.reference⟩ : HeldCommand) = held := by
  have hpoint : ofOpcode? 0x69 = none := rfl
  have hdecode (payload bytes : Bytes) (weight : Float32)
      (hpayload : payload = bytes ∨ payload = 0x04 :: bytes)
      (hholds : HoldsReference capacity order bytes weight) :
      decode order capacity (0x69 :: payload) = .ok (.addCalibrationPoint weight) := by
    have hbytes := referenceBytes?_eq_some_iff.2 ⟨hholds.length, hpayload⟩
    have hread := (reference?_eq_some_iff hholds.length).2 hholds
    simp only [decode, hpoint, hbytes, Option.bind_some, hread]
    rfl
  cases h with
  | @bare code hcode =>
    obtain ⟨command, hcommand⟩ := Option.isSome_iff_exists.1 (ofOpcode?_isSome_iff.2 hcode)
    obtain ⟨hopcode, hreference⟩ := ofOpcode?_eq_some hcommand
    refine ⟨command, ?_, ?_⟩
    · simp only [decode, hcommand]
      rfl
    · rw [hopcode, hreference]
  | @point bytes weight hholds =>
    exact ⟨_, hdecode bytes bytes weight (.inl rfl) hholds, rfl⟩
  | @counted bytes weight hholds =>
    exact ⟨_, hdecode _ bytes weight (.inr rfl) hholds, rfl⟩

/-- A refused frame starts with no opcode, or it is malformed. -/
theorem decode_error {e : ProtocolError} (h : decode order capacity frame = .error e) :
    StartsUnknown frame ∧ e = .unknownOpcode ∨ ¬StartsUnknown frame ∧ e = .malformed := by
  unfold decode at h
  split at h
  next =>
    cases h
    exact .inr ⟨by simp [StartsUnknown], rfl⟩
  next code payload =>
    have hbare := @ofOpcode?_isSome_iff code
    rw [startsUnknown_cons]
    split at h
    next known hknown =>
      split at h
      next => cases h
      next =>
        cases h
        have hmem := hbare.1 (Option.isSome_of_eq_some hknown)
        exact .inr ⟨not_not_intro (List.mem_cons_of_mem _ hmem), rfl⟩
    next hnone =>
      split at h
      next hpoint =>
        split at h
        next => cases h
        next =>
          cases h
          subst hpoint
          exact .inr ⟨not_not_intro (List.mem_cons_self ..), rfl⟩
      next hpoint =>
        cases h
        refine .inl ⟨?_, rfl⟩
        intro hcode
        rcases List.mem_cons.1 hcode with heq | hrest
        · exact hpoint heq
        · have hsome := hbare.2 hrest
          rw [hnone] at hsome
          cases hsome

end Command

theorem ControlFrame.head? {order : ByteOrder} {capacity : Float32} {frame : Bytes}
    {command : HeldCommand} (h : ControlFrame order capacity frame command) :
    frame.head? = some command.opcode ∧ ¬StartsUnknown frame := by
  cases h with
  | bare hcode =>
    exact ⟨rfl, mt startsUnknown_cons.1 (not_not_intro (List.mem_cons_of_mem _ hcode))⟩
  | point _ => exact ⟨rfl, mt startsUnknown_cons.1 (by decide)⟩
  | counted _ => exact ⟨rfl, mt startsUnknown_cons.1 (by decide)⟩

namespace HeldCommand

/-- A frame is accepted exactly if the grammar has it, and then the command is the one that the
grammar says. A frame whose first byte is no opcode is refused for that, any other as malformed,
and a refused frame leaves the command as it was. -/
theorem decode_iff_grammar (held : HeldCommand) (order : ByteOrder) (capacity : Float32)
    (frame : Bytes) :
    ((decode held order capacity frame).1 = .ok () ↔
      ∃ command, ControlFrame order capacity frame command) ∧
    (∀ command, ControlFrame order capacity frame command →
      (decode held order capacity frame).2 = command ∧ frame.head? = some command.opcode) ∧
    ((decode held order capacity frame).1 = .error .unknownOpcode ↔ StartsUnknown frame) ∧
    ((decode held order capacity frame).1 = .error .malformed ↔
      (¬∃ command, ControlFrame order capacity frame command) ∧ ¬StartsUnknown frame) ∧
    ((decode held order capacity frame).1 ≠ .ok () →
      (decode held order capacity frame).2 = held) := by
  unfold HeldCommand.decode
  cases hdecode : Command.decode order capacity frame with
  | ok command =>
    have hframe := Command.controlFrame_of_decode hdecode
    have haccepted : ∃ command, ControlFrame order capacity frame command := ⟨_, hframe⟩
    refine ⟨by simp [haccepted], ?_, by simp [hframe.head?.2], by simp [haccepted], by simp⟩
    intro other hother
    obtain ⟨again, hagain, heq⟩ := Command.decode_of_controlFrame hother
    rw [hdecode, Except.ok.injEq] at hagain
    subst hagain
    exact ⟨heq, hother.head?.1⟩
  | error e =>
    have hnone : ¬∃ command, ControlFrame order capacity frame command := by
      rintro ⟨command, hframe⟩
      obtain ⟨decoded, hok, _⟩ := Command.decode_of_controlFrame hframe
      rw [hdecode] at hok
      cases hok
    refine ⟨by simp [hnone], fun command hframe => absurd ⟨command, hframe⟩ hnone, ?_, ?_, by simp⟩
    · rcases Command.decode_error hdecode with ⟨hunknown, rfl⟩ | ⟨hknown, rfl⟩
      · simp [hunknown]
      · simp [hknown]
    · rcases Command.decode_error hdecode with ⟨hunknown, rfl⟩ | ⟨hknown, rfl⟩
      · simp [hunknown]
      · simp [hknown, hnone]

end HeldCommand

end LoadCell
