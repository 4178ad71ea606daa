import LoadCell.Flash.Faults
import LoadCell.Proofs.StoreScan
import LoadCell.Proofs.StoredRecord

/-!
What a cut leaves in the cells. Erasing and programming go byte by byte from one end of their
range; wherever they stop, the bytes up to there are done and all others are as before.
-/
namespace LoadCell

namespace NorFlash

/-- The first `k` bytes from a place on are changed by `g`, all others are kept. -/
structure Patched (f f' : NorFlash) (place k : Nat) (g : Nat → UInt8 → UInt8) : Prop where
  sectorSize : f'.sectorSize = f.sectorSize
  size : f'.cells.size = f.cells.size
  cell : ∀ i, f'.cells[i]? =
    if place ≤ i ∧ i < place + k then f.cells[i]?.map (g (i - place)) else f.cells[i]?

variable {f f' : NorFlash} {place k : Nat} {g : Nat → UInt8 → UInt8}

theorem Patched.of_cells (hcells : f'.cells = f.cells) (hsector : f'.sectorSize = f.sectorSize)
    (place : Nat) (g : Nat → UInt8 → UInt8) : Patched f f' place 0 g := by
  refine ⟨hsector, by rw [hcells], ?_⟩
  intro i
  rw [hcells, if_neg (by omega)]

theorem Patched.cons {paid : NorFlash} (hcells : paid.cells = f.cells)
    (hsector : paid.sectorSize = f.sectorSize)
    (h : Patched (paid.change place (g 0)) f' (place + 1) k fun i => g (i + 1)) :
    Patched f f' place (k + 1) g := by
  refine ⟨h.sectorSize.trans hsector, ?_, ?_⟩
  · rw [h.size, change, Array.size_modify, hcells]
  · intro i
    rw [h.cell, change, Array.getElem?_modify, hcells]
    by_cases hi : place = i
    · subst hi
      rw [if_neg (by omega), if_pos rfl, if_pos (by omega), Nat.sub_self]
    · by_cases hrange : place + 1 ≤ i ∧ i < place + 1 + k
      · rw [if_pos hrange, if_neg hi, if_pos (by omega), show i - (place + 1) + 1 = i - place by
          omega]
      · rw [if_neg hrange, if_neg hi, if_neg (by omega)]

/-- How far a call got through its range: to the end if and only if it reports success. -/
structure Reached (ok : Bool) (k length : Nat) : Prop where
  le : k ≤ length
  all : ok = true → k = length
  cut : ok = false → 0 < length → k < length

theorem Reached.refused (length : Nat) : Reached false 0 length :=
  ⟨Nat.zero_le _, by simp, fun _ h => h⟩

theorem Reached.of_iff {ok : Bool} {length : Nat} (hle : k ≤ length)
    (h : ok = true ↔ k = length) : Reached ok k length :=
  ⟨hle, h.1, fun hok _ => Nat.lt_of_le_of_ne hle fun hk => by simp [hok, hk] at h⟩

theorem spend_keeps (f : NorFlash) :
    f.spend.2.cells = f.cells ∧ f.spend.2.sectorSize = f.sectorSize := by
  unfold spend
  split <;> exact ⟨rfl, rfl⟩

/-- Erasing ends after some byte, and after the last one exactly if it reports success. -/
theorem eraseBytes_patched (f : NorFlash) (place count : Nat) :
    ∃ k, k ≤ count ∧ ((f.eraseBytes place count).1 = true ↔ k = count) ∧
      Patched f (f.eraseBytes place count).2 place k fun _ _ => 0xff := by
  induction count generalizing f place with
  | zero => exact ⟨0, Nat.le_refl _, by simp [eraseBytes], .of_cells rfl rfl place _⟩
  | succ count ih =>
    obtain ⟨hcells, hsector⟩ := f.spend_keeps
    unfold eraseBytes
    split
    next paid hpaid =>
      rw [hpaid] at hcells hsector
      obtain ⟨k, hle, hok, hpatch⟩ := ih (paid.change place fun _ => 0xff) (place + 1)
      exact ⟨k + 1, by omega, by rw [hok]; omega, hpatch.cons hcells hsector⟩
    next dead hdead =>
      rw [hdead] at hcells hsector
      exact ⟨0, by omega, by simp, .of_cells hcells hsector place _⟩

/-- Programming ends after some byte, and after the last one exactly if it reports success. -/
theorem programBytes_patched (f : NorFlash) (place : Nat) (bytes : Bytes) :
    ∃ k, k ≤ bytes.length ∧ ((f.programBytes place bytes).1 = true ↔ k = bytes.length) ∧
      Patched f (f.programBytes place bytes).2 place k fun i b => b &&& bytes.getD i 0 := by
  induction bytes generalizing f place with
  | nil => exact ⟨0, Nat.le_refl _, by simp [programBytes], .of_cells rfl rfl place _⟩
  | cons byte rest ih =>
    obtain ⟨hcells, hsector⟩ := f.spend_keeps
    unfold programBytes
    split
    next paid hpaid =>
      rw [hpaid] at hcells hsector
      obtain ⟨k, hle, hok, hpatch⟩ := ih (paid.change place (· &&& byte)) (place + 1)
      exact ⟨k + 1, by simpa using hle, by simp [hok], hpatch.cons hcells hsector⟩
    next dead hdead =>
      rw [hdead] at hcells hsector
      exact ⟨0, by omega, by simp, .of_cells hcells hsector place _⟩

def slotStart (f : NorFlash) (s : Slot) : Nat := s.val * f.sectorSize.toNat

/-- The bytes where a slot has its record. -/
def slotBytes (f : NorFlash) (s : Slot) : Bytes :=
  Bytes.slice f.cells.toList (f.slotStart s) Record.size

/-- The record in a slot, if it is valid. -/
def record (f : NorFlash) : Slot → Option Record := recordsOf f.slotBytes

/-- A flash with at least two sectors that hold a record each. Its offsets are 32-bit numbers. -/
structure TwoSlots (f : NorFlash) : Prop where
  sector : Record.size ≤ f.sectorSize.toNat
  sectors : 2 * f.sectorSize.toNat ≤ f.cells.size
  addressed : f.cells.size < 2 ^ 32

theorem TwoSlots.slot_le (h : f.TwoSlots) (s : Slot) :
    f.slotStart s + f.sectorSize.toNat ≤ f.cells.size :=
  Nat.le_trans (slot_end_le _ s) h.sectors

theorem TwoSlots.length_slotBytes (h : f.TwoSlots) (s : Slot) :
    (f.slotBytes s).length = Record.size := by
  have := h.slot_le s
  have := h.sector
  exact Bytes.length_slice (by simp only [Array.length_toList]; omega)

theorem slotStart_apart (f : NorFlash) {s t : Slot} (h : s ≠ t) :
    f.slotStart s + f.sectorSize.toNat ≤ f.slotStart t ∨
      f.slotStart t + f.sectorSize.toNat ≤ f.slotStart s :=
  slots_apart _ h

namespace Patched

theorem twoSlots (h : Patched f f' place k g) (hf : f.TwoSlots) : f'.TwoSlots :=
  ⟨h.sectorSize ▸ hf.sector, h.sectorSize ▸ h.size ▸ hf.sectors, h.size ▸ hf.addressed⟩

theorem slotStart (h : Patched f f' place k g) (s : Slot) : f'.slotStart s = f.slotStart s := by
  rw [NorFlash.slotStart, NorFlash.slotStart, h.sectorSize]

theorem getElem?_slotBytes (h : Patched f f' place k g) (s : Slot) (i : Nat) :
    (f'.slotBytes s)[i]? =
      if place ≤ f.slotStart s + i ∧ f.slotStart s + i < place + k then
        (f.slotBytes s)[i]?.map (g (f.slotStart s + i - place))
      else (f.slotBytes s)[i]? := by
  simp only [slotBytes, Bytes.getElem?_slice, h.slotStart, Array.getElem?_toList, h.cell]
  split_ifs <;> rfl

/-- What stays inside one sector leaves the other slot alone. -/
theorem slotBytes_other (h : Patched f f' place k g) (hf : f.TwoSlots) {s t : Slot} (hne : s ≠ t)
    (hstart : f.slotStart t ≤ place) (hend : place + k ≤ f.slotStart t + f.sectorSize.toNat) :
    f'.slotBytes s = f.slotBytes s := by
  apply List.ext_getElem?
  intro i
  rw [h.getElem?_slotBytes]
  by_cases hi : i < Record.size
  · have := hf.sector
    have := f.slotStart_apart hne
    rw [if_neg (by omega)]
  · have hout : (f.slotBytes s)[i]? = .none := by
      rw [List.getElem?_eq_none_iff, hf.length_slotBytes]
      omega
    simp [hout]

end Patched

theorem erase_patched (f : NorFlash) (offset length : Nat) :
    ∃ k, Reached (f.erase offset length).1 k length ∧
      Patched f (f.erase offset length).2 offset k fun _ _ => 0xff := by
  unfold erase
  split
  · exact ⟨0, .refused _, .of_cells rfl rfl offset _⟩
  · obtain ⟨k, hle, hok, h⟩ := eraseBytes_patched { f with erases := f.erases + 1 } offset length
    exact ⟨k, .of_iff hle hok, h.sectorSize, h.size, h.cell⟩

theorem write_patched (f : NorFlash) (offset : Nat) (bytes : Bytes) :
    ∃ k, Reached (f.write offset bytes).1 k bytes.length ∧
      Patched f (f.write offset bytes).2 offset k fun i b => b &&& bytes.getD i 0 := by
  unfold write
  split
  · exact ⟨0, .refused _, .of_cells rfl rfl offset _⟩
  · obtain ⟨k, hle, hok, h⟩ := programBytes_patched { f with writes := f.writes + 1 } offset bytes
    exact ⟨k, .of_iff hle hok, h.sectorSize, h.size, h.cell⟩

/-- A slot that begins with some bytes and is erased from there on. -/
def Filled (f : NorFlash) (s : Slot) (front : Bytes) : Prop :=
  f.slotBytes s = front ++ List.replicate (Record.size - front.length) 0xff

theorem Filled.getElem? {s : Slot} {front : Bytes} (h : f.Filled s front) (i : Nat) :
    (f.slotBytes s)[i]? =
      if i < front.length then front[i]? else if i < Record.size then some 0xff else none := by
  rw [h]
  by_cases hi : i < front.length
  · rw [List.getElem?_append_left hi, if_pos hi]
  · rw [List.getElem?_append_right (by omega), if_neg hi, List.getElem?_replicate]
    simp only [show i - front.length < Record.size - front.length ↔ i < Record.size by omega]

/-- Before the last byte is programmed there is no record. -/
theorem Filled.record_none {s : Slot} {front : Bytes} (h : f.Filled s front)
    (hlen : front.length < Record.size) : f.record s = none := by
  apply Record.parse?_erased_end
  rw [h.getElem?, if_neg (by omega), if_pos (by decide)]

/-- An erase of a slot that stops early leaves the slot as it was or without its first byte. -/
theorem Patched.slotBytes_erased {s : Slot} (h : Patched f f' (f.slotStart s) k fun _ _ => 0xff)
    (hf : f.TwoSlots) :
    (k = 0 → f'.slotBytes s = f.slotBytes s) ∧ (0 < k → (f'.slotBytes s)[0]? = some 0xff) ∧
      (Record.size ≤ k → f'.Filled s []) := by
  have hlen := hf.length_slotBytes s
  have hlen' := (h.twoSlots hf).length_slotBytes s
  refine ⟨?_, ?_, ?_⟩
  · intro hk
    apply List.ext_getElem?
    intro i
    rw [h.getElem?_slotBytes, if_neg (by omega)]
  · intro hk
    have hfirst : (f.slotBytes s)[0]?.isSome := by simp [hlen, Record.size]
    obtain ⟨b, hb⟩ := Option.isSome_iff_exists.1 hfirst
    rw [h.getElem?_slotBytes, if_pos (by omega), hb]
    rfl
  · intro hk
    apply List.ext_getElem (by simp [hlen'])
    intro i hi hi'
    have hold : i < (f.slotBytes s).length := by omega
    have hcell := h.getElem?_slotBytes s i
    rw [if_pos (by omega), List.getElem?_eq_getElem hi, List.getElem?_eq_getElem hold] at hcell
    simpa using hcell

/-- Programming the erased rest of a slot puts the new bytes there one after the other. -/
theorem Patched.filled {s : Slot} {front bytes : Bytes}
    (h : Patched f f' (f.slotStart s + front.length) k fun i b => b &&& bytes.getD i 0)
    (hk : k ≤ bytes.length) (hfit : front.length + bytes.length ≤ Record.size)
    (hslot : f.Filled s front) : f'.Filled s (front ++ bytes.take k) := by
  have htake : (bytes.take k).length = k := by rw [List.length_take, Nat.min_eq_left hk]
  apply List.ext_getElem?
  intro i
  rw [h.getElem?_slotBytes, hslot.getElem?, List.append_assoc]
  by_cases hfront : i < front.length
  · rw [if_neg (by omega), if_pos hfront, List.getElem?_append_left hfront]
  rw [if_neg hfront, List.getElem?_append_right (by omega)]
  by_cases hdone : i < front.length + k
  · have hi : i - front.length < bytes.length := by omega
    rw [if_pos (by omega), if_pos (by omega), List.getElem?_append_left (by omega),
      List.getElem?_take_of_lt (by omega), Option.map_some,
      show f.slotStart s + i - (f.slotStart s + front.length) = i - front.length by omega,
      List.getD_eq_getElem?_getD, List.getElem?_eq_getElem hi, Option.getD_some]
    exact congrArg some UInt8.neg_one_and
  · rw [if_neg (by omega), List.getElem?_append_right (by omega), htake, List.getElem?_replicate,
      List.length_append, htake]
    simp only [show i - front.length - k < Record.size - (front.length + k) ↔ i < Record.size by
      omega]

end NorFlash

/-- The plan after some more calls. -/
def FailurePlan.after (plan : FailurePlan) (calls : Nat) : FailurePlan :=
  { plan with next := plan.next + calls }

namespace FaultyFlash

open NorFlash

/-- Two slots, no stuck byte, and reads that succeed. Erases and writes may fail or be cut. -/
structure Sound (f : FaultyFlash) : Prop where
  twoSlots : f.nor.TwoSlots
  unstuck : f.stuck = []
  reads : f.readPlan.failing = []

variable {f f' : FaultyFlash}

/-- A call reaches the cells or has no effect. -/
private theorem changing_patched (hf : f.Sound) (call : FlashCall) (hcall : call ≠ .read)
    (act : NorFlash → Bool × NorFlash) {place bound : Nat} {g : Nat → UInt8 → UInt8}
    (hact : ∃ k, Reached (act f.nor).1 k bound ∧ Patched f.nor (act f.nor).2 place k g) :
    (f.changing call act).2.Sound ∧ ∃ k, Reached (f.changing call act).1 k bound ∧
      Patched f.nor (f.changing call act).2.nor place k g := by
  have hplan (plan : FailurePlan) : (f.setPlan call plan).nor = f.nor ∧
      (f.setPlan call plan).stuck = [] ∧ (f.setPlan call plan).readPlan.failing = [] := by
    cases call with
    | read => exact absurd rfl hcall
    | write => exact ⟨rfl, hf.unstuck, hf.reads⟩
    | erase => exact ⟨rfl, hf.unstuck, hf.reads⟩
  obtain ⟨hnor, hstuck, hreads⟩ := hplan { f.plan call with next := (f.plan call).next + 1 }
  obtain ⟨k, hreached, hpatch⟩ := hact
  unfold changing permit
  dsimp only
  cases (f.plan call).failing.contains (f.plan call).next with
  | true =>
    refine ⟨⟨?_, hstuck, hreads⟩, 0, .refused _, ?_⟩
    · simpa [hnor] using hf.twoSlots
    · exact .of_cells (congrArg cells hnor) (congrArg NorFlash.sectorSize hnor) place g
  | false =>
    simp only [settle, hnor, hstuck, Bool.not_false, List.foldl_nil]
    exact ⟨⟨hpatch.twoSlots hf.twoSlots, rfl, hreads⟩, k, hreached, hpatch⟩

/-- A step that stays inside one slot. -/
structure WithinSlot (f f' : FaultyFlash) (t : Slot) : Prop where
  sound : f'.Sound
  sectorSize : f'.nor.sectorSize = f.nor.sectorSize
  others : ∀ s, s ≠ t → f'.nor.slotBytes s = f.nor.slotBytes s

theorem WithinSlot.of_slots (hf' : f'.Sound) (hsector : f'.nor.sectorSize = f.nor.sectorSize)
    (h : f'.nor.slotBytes = f.nor.slotBytes) (t : Slot) : WithinSlot f f' t :=
  ⟨hf', hsector, fun s _ => congrFun h s⟩

theorem WithinSlot.trans {f'' : FaultyFlash} {t : Slot} (h : WithinSlot f f' t)
    (h' : WithinSlot f' f'' t) : WithinSlot f f'' t :=
  ⟨h'.sound, h'.sectorSize.trans h.sectorSize, fun s hs => (h'.others s hs).trans (h.others s hs)⟩

theorem WithinSlot.record_other {s t : Slot} (h : WithinSlot f f' t) (hs : s ≠ t) :
    f'.nor.record s = f.nor.record s :=
  congrArg Record.parse? (h.others s hs)

theorem WithinSlot.slotStart {t : Slot} (h : WithinSlot f f' t) (s : Slot) :
    f'.nor.slotStart s = f.nor.slotStart s := by
  rw [NorFlash.slotStart, NorFlash.slotStart, h.sectorSize]

/-- An erased slot is blank, a slot whose erase failed holds its old record or none. -/
theorem erase_slot (hf : f.Sound) (t : Slot) :
    let r := f.erase (f.nor.slotStart t) f.nor.sectorSize.toNat
    WithinSlot f r.2 t ∧ (r.1 = true → r.2.nor.Filled t []) ∧
      (r.2.nor.record t = none ∨ r.2.nor.record t = f.nor.record t) := by
  obtain ⟨hsound, k, hreached, hpatch⟩ := changing_patched hf .erase (by decide)
    (·.erase (f.nor.slotStart t) f.nor.sectorSize.toNat)
    (f.nor.erase_patched (f.nor.slotStart t) f.nor.sectorSize.toNat)
  obtain ⟨hkeep, hfirst, hblank⟩ := hpatch.slotBytes_erased hf.twoSlots
  refine ⟨⟨hsound, hpatch.sectorSize, ?_⟩, ?_, ?_⟩
  · intro s hs
    exact hpatch.slotBytes_other hf.twoSlots hs (Nat.le_refl _)
      (Nat.add_le_add_left hreached.le _)
  · intro h
    exact hblank (hreached.all h ▸ hf.twoSlots.sector)
  · rcases Nat.eq_zero_or_pos k with hk | hk
    · exact .inr (congrArg Record.parse? (hkeep hk))
    · exact .inl (Record.parse?_erased_front (hfirst hk))

/-- Programming the erased rest of a slot gets some of the bytes there, all if it succeeds. -/
theorem write_slot (hf : f.Sound) (t : Slot) (front bytes : Bytes)
    (hfit : front.length + bytes.length ≤ Record.size) (hslot : f.nor.Filled t front) :
    let r := f.write (f.nor.slotStart t + front.length) bytes
    WithinSlot f r.2 t ∧ ∃ k, Reached r.1 k bytes.length ∧
      r.2.nor.Filled t (front ++ bytes.take k) := by
  obtain ⟨hsound, k, hreached, hpatch⟩ := changing_patched hf .write (by decide)
    (·.write (f.nor.slotStart t + front.length) bytes)
    (f.nor.write_patched (f.nor.slotStart t + front.length) bytes)
  have hsector := hf.twoSlots.sector
  have hle := hreached.le
  refine ⟨⟨hsound, hpatch.sectorSize, ?_⟩, k, hreached, hpatch.filled hle hfit hslot⟩
  intro s hs
  exact hpatch.slotBytes_other hf.twoSlots hs (by omega) (by omega)

/-- The flash with other reads that are going to be refused. -/
def losing (f : FaultyFlash) (reads : FailurePlan) : FaultyFlash := { f with readPlan := reads }

@[simp] theorem losing_nor (f : FaultyFlash) (reads : FailurePlan) : (f.losing reads).nor = f.nor :=
  rfl

theorem Sound.of_losing {reads : FailurePlan} (h : (f.losing reads).Sound)
    (hreads : f.readPlan.failing = []) : f.Sound :=
  ⟨h.twoSlots, h.unstuck, hreads⟩

theorem Sound.losing (h : f.Sound) : (f.losing {}).Sound := ⟨h.twoSlots, h.unstuck, rfl⟩

/-- Erasing and writing do not look at the reads. -/
private theorem changing_losing (f : FaultyFlash) (reads : FailurePlan) (call : FlashCall)
    (hcall : call ≠ .read) (act : NorFlash → Bool × NorFlash) :
    (f.losing reads).changing call act =
        ((f.changing call act).1, (f.changing call act).2.losing reads) ∧
      (f.changing call act).2.readPlan = f.readPlan := by
  unfold changing permit
  cases call with
  | read => exact absurd rfl hcall
  | write =>
    dsimp only [plan, losing]
    cases f.writePlan.failing.contains f.writePlan.next <;> exact ⟨rfl, rfl⟩
  | erase =>
    dsimp only [plan, losing]
    cases f.erasePlan.failing.contains f.erasePlan.next <;> exact ⟨rfl, rfl⟩

/-- A step that stays inside one slot and reads some times, with or without success. -/
structure ReadingWithin (f f' : FaultyFlash) (t : Slot) (reads : Nat) : Prop where
  within : WithinSlot (f.losing {}) (f'.losing {}) t
  plan : f'.readPlan = f.readPlan.after reads

theorem ReadingWithin.trans {f'' : FaultyFlash} {t : Slot} {m n : Nat}
    (h : ReadingWithin f f' t m) (h' : ReadingWithin f' f'' t n) :
    ReadingWithin f f'' t (m + n) :=
  ⟨h.within.trans h'.within, by rw [h'.plan, h.plan]; simp [FailurePlan.after, Nat.add_assoc]⟩

theorem ReadingWithin.slotStart {t : Slot} {n : Nat} (h : ReadingWithin f f' t n) (s : Slot) :
    f'.nor.slotStart s = f.nor.slotStart s :=
  h.within.slotStart s

/-- Where no read is going to be refused, the flash stays sound. -/
theorem ReadingWithin.withinSlot {t : Slot} {n : Nat} (h : ReadingWithin f f' t n)
    (hf : f.Sound) : WithinSlot f f' t :=
  ⟨.of_losing h.within.sound (h.plan ▸ hf.reads), h.within.sectorSize, h.within.others⟩

/-- An erase of a slot is the same whatever reads are going to be refused. -/
theorem erase_slot_losing (hf : (f.losing {}).Sound) (t : Slot) :
    let r := f.erase (f.nor.slotStart t) f.nor.sectorSize.toNat
    ReadingWithin f r.2 t 0 ∧ (r.1 = true → r.2.nor.Filled t []) ∧
      (r.2.nor.record t = none ∨ r.2.nor.record t = f.nor.record t) := by
  obtain ⟨hsame, hplan⟩ := changing_losing f {} .erase (by decide)
    (·.erase (f.nor.slotStart t) f.nor.sectorSize.toNat)
  have hrun := erase_slot hf t
  rw [losing_nor, show (f.losing {}).erase _ _ = _ from hsame] at hrun
  exact ⟨⟨hrun.1, hplan⟩, hrun.2⟩

/-- So is a write into one. -/
theorem write_slot_losing (hf : (f.losing {}).Sound) (t : Slot) (front bytes : Bytes)
    (hfit : front.length + bytes.length ≤ Record.size) (hslot : f.nor.Filled t front) :
    let r := f.write (f.nor.slotStart t + front.length) bytes
    ReadingWithin f r.2 t 0 ∧ ∃ k, Reached r.1 k bytes.length ∧
      r.2.nor.Filled t (front ++ bytes.take k) := by
  obtain ⟨hsame, hplan⟩ := changing_losing f {} .write (by decide)
    (·.write (f.nor.slotStart t + front.length) bytes)
  have hrun := write_slot hf t front bytes hfit hslot
  rw [losing_nor, show (f.losing {}).write _ _ = _ from hsame] at hrun
  exact ⟨⟨hrun.1, hplan⟩, hrun.2⟩

/-- A read of a slot is refused, or it shows the slot. -/
theorem read_slot_losing (hf : (f.losing {}).Sound) (t : Slot) : ∃ answer f',
    f.read (f.nor.slotStart t) Record.size = (answer, f') ∧ f'.losing {} = f.losing {} ∧
      f'.readPlan = f.readPlan.after 1 ∧
      (answer = some (f.nor.slotBytes t) ∨
        answer = none ∧ f.readPlan.next ∈ f.readPlan.failing) := by
  have hrange : f.nor.inRange (f.nor.slotStart t) Record.size := by
    have := hf.twoSlots.slot_le t
    have := hf.twoSlots.sector
    simp only [losing_nor, inRange, decide_eq_true_eq] at *
    omega
  refine ⟨_, _, rfl, ?_⟩
  by_cases hfail : f.readPlan.next ∈ f.readPlan.failing
  · simp [permit, FaultyFlash.plan, setPlan, hfail, losing, FailurePlan.after]
  · simp [permit, FaultyFlash.plan, setPlan, hfail, losing, FailurePlan.after, NorFlash.read,
      hrange, slotBytes, Bytes.slice]

theorem ReadingWithin.of_read (hf : (f.losing {}).Sound) (hsame : f'.losing {} = f.losing {})
    (hplan : f'.readPlan = f.readPlan.after 1) (t : Slot) : ReadingWithin f f' t 1 :=
  ⟨hsame ▸ WithinSlot.of_slots hf rfl rfl t, hplan⟩

theorem read_slot (hf : f.Sound) (t : Slot) :
    ∃ f', f.read (f.nor.slotStart t) Record.size = (some (f.nor.slotBytes t), f') ∧
      f'.Sound ∧ f'.nor = f.nor := by
  obtain ⟨answer, f', hread, hsame, hplan, hanswer⟩ := read_slot_losing hf.losing t
  have hnor : (f'.losing {}).nor = (f.losing {}).nor := congrArg _ hsame
  obtain rfl | ⟨-, hrefused⟩ := hanswer
  · exact ⟨f', hread, .of_losing (hsame ▸ hf.losing) (hplan ▸ hf.reads), hnor⟩
  · simp [hf.reads] at hrefused

end FaultyFlash

end LoadCell
