import LoadCell.Proofs.StoredRecord
import LoadCell.Proofs.WireFrames

/-!
What a peer reads in the frames that it gets. A frame falls apart into its code and its value again,
and the value of each answer, and of a weight, gives back the number that was put in, to the bit. A
device number is written in as few bytes as there can be.
-/
namespace LoadCell

namespace Bytes

theorem value_append (bs cs : Bytes) : value (bs ++ cs) = value bs + 256 ^ bs.length * value cs := by
  induction bs with
  | nil => simp [value]
  | cons b bs ih =>
    rw [List.cons_append, value, value, ih, List.length_cons, Nat.pow_succ]
    ring

theorem value_lt (bs : Bytes) : value bs < 256 ^ bs.length := by
  induction bs with
  | nil => exact Nat.one_pos
  | cons b bs ih =>
    have hb := b.toNat_lt
    rw [value, List.length_cons, Nat.pow_succ]
    omega

theorem value_of_zeros {bs : Bytes} (h : ∀ b ∈ bs, b = 0) : value bs = 0 := by
  induction bs with
  | nil => rfl
  | cons b bs ih =>
    rw [List.forall_mem_cons] at h
    rw [value, ih h.2, h.1]
    rfl

/-- The value of bytes of which the last is not zero needs all of them. -/
theorem pow_le_value {front : Bytes} {last : UInt8} (h : last ≠ 0) :
    256 ^ front.length ≤ value (front ++ [last]) := by
  have hpos : 0 < last.toNat := Nat.pos_of_ne_zero fun hzero => h (UInt8.toNat_inj.1 hzero)
  have hlast : value [last] = last.toNat := rfl
  rw [value_append, hlast]
  exact (Nat.le_mul_of_pos_right _ hpos).trans (Nat.le_add_left _ _)

/-- Zeros at the end are cut off one by one, as long as a byte is left. -/
theorem trimHigh_concat_zero {bs : Bytes} (h : bs ≠ []) : trimHigh (bs ++ [0]) = trimHigh bs := by
  have hcut : ((bs ++ [0]).reverse.dropWhile (· == 0)).reverse =
      (bs.reverse.dropWhile (· == 0)).reverse := List.rdropWhile_concat_pos _ _ _ rfl
  have htake : (bs ++ [0]).take 1 = bs.take 1 :=
    List.take_append_of_le_length (List.length_pos_iff.2 h)
  rw [trimHigh, hcut, htake, trimHigh]

theorem trimHigh_concat {last : UInt8} (front : Bytes) (h : last ≠ 0) :
    trimHigh (front ++ [last]) = front ++ [last] := by
  have hcut : ((front ++ [last]).reverse.dropWhile (· == 0)).reverse = front ++ [last] :=
    List.rdropWhile_concat_neg _ _ _ (by simpa using h)
  rw [trimHigh, hcut]
  cases front with
  | nil => rfl
  | cons first rest => rfl

/-- Nothing but zeros is cut off, and the byte that is last then is not zero unless it is alone. -/
theorem trimHigh_cases {bs : Bytes} (h : bs ≠ []) :
    ∃ zeros, bs = trimHigh bs ++ zeros ∧ (∀ b ∈ zeros, b = 0) ∧
      ∃ front last, trimHigh bs = front ++ [last] ∧ (last = 0 → front = []) := by
  induction bs using List.reverseRecOn with
  | nil => exact absurd rfl h
  | append_singleton front last ih =>
    by_cases hlast : last = 0
    · subst hlast
      by_cases hfront : front = []
      · subst hfront
        exact ⟨[], rfl, List.forall_mem_nil _, [], 0, rfl, fun _ => rfl⟩
      · obtain ⟨zeros, hsplit, hzeros, hend⟩ := ih hfront
        rw [trimHigh_concat_zero hfront]
        refine ⟨zeros ++ [0], ?_, ?_, hend⟩
        · rw [← List.append_assoc, ← hsplit]
        · simpa [or_imp, forall_and] using hzeros
    · rw [trimHigh_concat front hlast]
      exact ⟨[], (List.append_nil _).symm, List.forall_mem_nil _, front, last, rfl,
        fun hzero => absurd hzero hlast⟩

/-- Bytes that spell a number, and of which none can be spared. -/
structure Shortest (bs : Bytes) (n : ℕ) : Prop where
  value_eq : value bs = n
  length_pos : 1 ≤ bs.length
  last_ne_zero : bs.getLast? = some 0 → bs.length = 1
  least : ∀ other, other ≠ [] → value other = n → bs.length ≤ other.length

theorem shortest_trimHigh {bs : Bytes} (h : bs ≠ []) : (trimHigh bs).Shortest (value bs) := by
  obtain ⟨zeros, hsplit, hzeros, front, last, htrim, hlast⟩ := trimHigh_cases h
  have hvalue : value (trimHigh bs) = value bs := by
    conv_rhs => rw [hsplit, value_append, value_of_zeros hzeros, Nat.mul_zero, Nat.add_zero]
  refine ⟨hvalue, ?_, ?_, fun other hother hsame => ?_⟩
  · simp [htrim]
  · rw [htrim, List.getLast?_concat, List.length_append]
    intro hzero
    rw [hlast (Option.some.inj hzero)]
    rfl
  · by_cases hzero : last = 0
    · rw [htrim, hlast hzero]
      exact List.length_pos_iff.2 hother
    · have hneeds : 256 ^ front.length < 256 ^ other.length :=
        calc 256 ^ front.length ≤ value (trimHigh bs) := htrim ▸ pow_le_value hzero
          _ = value other := hvalue.trans hsame.symm
          _ < 256 ^ other.length := value_lt other
      rw [htrim, List.length_append]
      exact (Nat.pow_lt_pow_iff_right (by decide)).1 hneeds

theorem length_trimHigh_le (bs : Bytes) : (trimHigh bs).length ≤ bs.length := by
  by_cases h : bs = []
  · subst h
    rfl
  · obtain ⟨zeros, hsplit, -⟩ := trimHigh_cases h
    conv_rhs => rw [hsplit, List.length_append]
    exact Nat.le_add_right _ _

end Bytes

namespace Notification

/-- The code and the value of a frame, if its length byte tells how many bytes follow. -/
def parse? : Bytes → Option (UInt8 × Bytes)
  | code :: length :: value => if length.toNat = value.length then some (code, value) else none
  | _ => none

theorem parse?_encode (n : Notification) : parse? n.encode = some (n.code, n.value) := by
  have hshort : n.value.length ≤ 12 := n.length_value_le
  have hlength : (UInt8.ofNat n.value.length).toNat = n.value.length := by
    rw [UInt8.toNat_ofNat', Nat.mod_eq_of_lt (by omega)]
  exact if_pos hlength

/-- An answer that is not too long is read as it was given. -/
theorem parse?_response {value : Bytes} (h : value.length ≤ maxValue) :
    parse? (response value).encode = some (0x00, value) := by
  rw [parse?_encode, show (response value).value = value from List.take_of_length_le h]
  rfl

theorem length_weightValue (bits time : UInt32) : (weightValue bits time).length = 8 := by
  rw [weightValue, List.length_append, Bytes.length_ofNat, Bytes.length_ofNat]

/-- The frame of a weight depends on the bits of the weight and its time alone. -/
theorem encode_weight (kilograms : Float32) (time : UInt32) :
    (weight kilograms time).encode = 0x01 :: 8 :: weightValue kilograms.toBits time := by
  rw [encode, code, value, length_weightValue]
  rfl

/-- Over the bits and not over `Float32`, in which all that is not a number is one value. -/
theorem parse?_weightValue (bits time : UInt32) :
    parse? (0x01 :: 8 :: weightValue bits time) = some (0x01, weightValue bits time) := by
  have hlength : (8 : UInt8).toNat = (weightValue bits time).length :=
    (length_weightValue bits time).symm
  rw [parse?, if_pos hlength]

/-- The bits of a weight and its time, from the value of its frame. -/
def readWeight (value : Bytes) : UInt32 × UInt32 := (Record.wordAt value 0, Record.wordAt value 4)

theorem readWeight_weightValue (bits time : UInt32) :
    readWeight (weightValue bits time) = (bits, time) := by
  rw [readWeight, Record.wordAt_ofNat bits rfl, Record.wordAt_ofNat time rfl]

theorem length_deviceIdValue_le (id : UInt64) : (deviceIdValue id).length ≤ 8 :=
  (Bytes.length_trimHigh_le _).trans_eq (Bytes.length_ofNat 8 _)

theorem shortest_deviceIdValue (id : UInt64) : (deviceIdValue id).Shortest id.toNat := by
  have hlt : id.toNat < 256 ^ 8 := id.toNat_lt
  have hvalue : Bytes.value (Bytes.ofNat 8 id.toNat) = id.toNat := by
    rw [Bytes.value_ofNat, Nat.mod_eq_of_lt hlt]
  have hshortest : (deviceIdValue id).Shortest (Bytes.value (Bytes.ofNat 8 id.toNat)) :=
    Bytes.shortest_trimHigh (List.cons_ne_nil _ _)
  rwa [hvalue] at hshortest

/-- The bytes in the middle stay, whatever they are. -/
example : deviceIdValue 0x0A000C = [0x0C, 0x00, 0x0A] ∧ deviceIdValue 0 = [0x00] := by decide

theorem parse?_deviceId (id : UInt64) :
    parse? (response (deviceIdValue id)).encode = some (0x00, deviceIdValue id) :=
  parse?_response ((length_deviceIdValue_le id).trans (by decide))

/-- Different devices are reported in different frames. -/
theorem deviceId_injective {id id' : UInt64}
    (h : (response (deviceIdValue id)).encode = (response (deviceIdValue id')).encode) :
    id = id' := by
  have hparse : some ((0x00 : UInt8), deviceIdValue id) = some (0x00, deviceIdValue id') := by
    rw [← parse?_deviceId, h, parse?_deviceId]
  have hvalue : deviceIdValue id = deviceIdValue id' := congrArg Prod.snd (Option.some.inj hparse)
  apply UInt64.toNat_inj.1
  rw [← (shortest_deviceIdValue id).value_eq, hvalue, (shortest_deviceIdValue id').value_eq]

end Notification

namespace Protocol

open Notification

/-- The count at zero and the bits of the gradient, from the value that reports a mapping. -/
def readCurve (value : Bytes) : Int32 × UInt64 :=
  ((Record.wordAt value 0).toInt32, UInt64.ofNat (Bytes.value (value.slice 4 8)))

theorem readCurve_curveValue (m : Mapping) :
    readCurve (curveValue m) = (m.zeroRaw, m.gradient.toBits) := by
  have hlt : m.gradient.toBits.toNat < 256 ^ 8 := m.gradient.toBits.toNat_lt
  have hgradient : (curveValue m).slice 4 8 = Bytes.ofNat 8 m.gradient.toBits.toNat := rfl
  rw [readCurve, Record.wordAt_ofNat m.zeroRaw.toUInt32 rfl, hgradient, Bytes.value_ofNat,
    Nat.mod_eq_of_lt hlt, UInt64.ofNat_toNat, Int32.toInt32_toUInt32]

theorem length_curveValue (m : Mapping) : (curveValue m).length = 12 := by
  rw [curveValue, List.length_append, Bytes.length_ofNat, Bytes.length_ofNat]

variable {σ : Type} [Logs σ] [Holds σ Protocol] [Holds σ Calibration] [Holds σ Store]
  [Holds σ MedianFilter] {board : Board σ} {s : σ} {command : Command} {value : Bytes}

/-- A command succeeds and submits just this value, and that is what is read in its frame. -/
structure AnswersWith (board : Board σ) (s : σ) (command : Command) (value : Bytes) : Prop where
  submits : dispatch board command s = (.ok (), (queueResponse (.response value) s).2)
  framed : parse? (response value).encode = some (0x00, value)

theorem AnswersWith.of_execute (h : execute board command s = respond value s)
    (hlength : value.length ≤ maxValue) : AnswersWith board s command value where
  submits := by
    rw [dispatch, bind_run, h]
    rfl
  framed := parse?_response hlength

/-- The answer with the device number is the shortest that spells it, and no two devices share one. The
answer with the mapping in force gives back its count at zero and all bits of its gradient, and the one
with the battery its millivolts. The frame of a weight is laid out from the bits of the weight and its
time, and any bits at all laid out so are read back with their time. -/
theorem values_read_back (board : Board σ) (s : σ) :
    let p : Protocol := Holds.part s
    let c : Calibration := Holds.part s
    (∃ value, AnswersWith board s .getDeviceId value ∧ value.length ≤ 8 ∧
      value.Shortest p.config.deviceId.toNat) ∧
    (∀ id id', (response (deviceIdValue id)).encode = (response (deviceIdValue id')).encode →
      id = id') ∧
    (∀ mapping, c.mapping = some mapping → ∃ value,
      AnswersWith board s .getCalibrationCurve value ∧ value.length = 12 ∧
        readCurve value = (mapping.zeroRaw, mapping.gradient.toBits)) ∧
    (∃ value, AnswersWith board s .sampleBattery value ∧ value.length = 4 ∧
      Record.wordAt value 0 = p.batteryMillivolts) ∧
    (∀ kilograms time, parse? (Notification.weight kilograms time).encode =
      some (0x01, weightValue kilograms.toBits time)) ∧
    (∀ kilograms time, (Notification.weight kilograms time).encode =
      0x01 :: 8 :: weightValue kilograms.toBits time) ∧
    (∀ bits time, parse? (0x01 :: 8 :: weightValue bits time) =
      some (0x01, weightValue bits time)) ∧
    ∀ bits time, readWeight (weightValue bits time) = (bits, time) := by
  intro p c
  have hbattery := Bytes.length_ofNat 4 p.batteryMillivolts.toNat
  refine ⟨⟨deviceIdValue p.config.deviceId, ?_, length_deviceIdValue_le _,
    shortest_deviceIdValue _⟩, fun _ _ => deviceId_injective, fun mapping hmapping => ?_,
    ⟨_, ?_, hbattery, Record.wordAt_ofNat _ rfl⟩, fun _ _ => parse?_encode _,
    encode_weight, parse?_weightValue, readWeight_weightValue⟩
  · exact .of_execute rfl ((length_deviceIdValue_le _).trans (by decide))
  · have hlength := length_curveValue mapping
    refine ⟨curveValue mapping, .of_execute ?_ hlength.le, hlength, readCurve_curveValue mapping⟩
    have hactive : (Holds.part s : Calibration).mapping = some mapping := hmapping
    rw [execute, bind_run, getPart_run]
    dsimp only
    rw [hactive]
  · exact .of_execute rfl (hbattery.trans_le (by decide))

end Protocol

end LoadCell
