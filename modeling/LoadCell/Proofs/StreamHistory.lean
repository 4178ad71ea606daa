import LoadCell.Proofs.Core
import LoadCell.Proofs.StreamTime

/-!
The history of a stream. It tells when start and stop commands came and when the peer was gone,
which weights were published, and what the link was offered; from it follows which stream is open
and which weight is its latest. An engine keeps to its history if only that weight can wait.
-/
namespace LoadCell

inductive Happening
  /-- A start command, and what the clock showed. -/
  | started (now : UInt32)
  | stopped
  /-- The peer is gone. -/
  | hungUp
  | published (weight : Float32) (time : UInt32)
  | offered (offer : Offer)

/-- Whether a stream is to be open from now on. -/
def Happening.opens? : Happening → Option Bool
  | .started _ => some true
  | .stopped | .hungUp => some false
  | .published _ _ | .offered _ => none

def Happening.offer? : Happening → Option Offer
  | .offered offer => some offer
  | _ => none

/-- An open stream: the time that it counts from, and the last weight published on it. -/
structure OpenStream where
  origin : UInt32
  latest : Option Notification := none

def OpenStream.publish (stream : OpenStream) (weight : Float32) (time : UInt32) : OpenStream where
  origin := Protocol.originAfter stream.origin time
  latest := some (.weight weight (Protocol.elapsed stream.origin time))

/-- What a history comes to. -/
structure Tally where
  stream : Option OpenStream := none
  /-- How many weights were published on open streams. -/
  published : ℕ := 0
  /-- For each weight that the link took, how many were published until then. -/
  delivered : List ℕ := []

/-- A start on an open stream changes nothing; without an open stream, weights are ignored. -/
def Tally.add (t : Tally) : Happening → Tally
  | .started now => { t with stream := t.stream.getD { origin := now } }
  | .stopped | .hungUp => { t with stream := none }
  | .published weight time =>
    match t.stream with
    | none => t
    | some stream =>
      { t with stream := stream.publish weight time, published := t.published + 1 }
  | .offered offer =>
    if offer.weight?.isSome then { t with delivered := t.delivered ++ [t.published] } else t

def tally (history : List Happening) : Tally := history.foldl .add {}

@[simp] theorem tally_concat (history : List Happening) (happening : Happening) :
    tally (history ++ [happening]) = (tally history).add happening := by
  rw [tally, List.foldl_append]
  rfl

/-- A stream is open exactly if the last that opened or closed one opened it. -/
theorem isSome_stream_tally (history : List Happening) :
    (tally history).stream.isSome ↔ (history.filterMap (·.opens?)).getLast? = some true := by
  induction history using List.reverseRecOn with
  | nil => simp [tally]
  | append_singleton history happening ih =>
    rw [tally_concat, List.filterMap_append]
    cases happening with
    | started now => simp [Tally.add, Happening.opens?]
    | stopped => simp [Tally.add, Happening.opens?]
    | hungUp => simp [Tally.add, Happening.opens?]
    | published weight time =>
      cases hstream : (tally history).stream with
      | none => simpa [Tally.add, Happening.opens?, hstream] using ih
      | some stream => simpa [Tally.add, Happening.opens?, hstream] using ih
    | offered offer =>
      have hadd : ((tally history).add (.offered offer)).stream = (tally history).stream := by
        unfold Tally.add
        dsimp only
        split
        next => rfl
        next => rfl
      rw [hadd]
      simpa [Happening.opens?] using ih

/-- The weight that may be offered. -/
def Tally.latest? (t : Tally) : Option Notification := t.stream.bind (·.latest)

/-- Every weight that was offered was the latest one of the stream that was open then, and none was
delivered twice or after a later one. -/
structure LatestOnly (history : List Happening) : Prop where
  offered : ∀ before offer, before ++ [.offered offer] <+: history →
    offer.frame.isWeight = true → (tally before).latest? = some offer.frame
  delivered : (tally history).delivered.Pairwise (· < ·)

/-- The engine streams exactly if the last command or disconnection opened a stream, and a weight
waits only then. -/
structure Follows (p : Protocol) (history : List Happening) : Prop where
  latestOnly : LatestOnly history
  pending : p.weightPending = true → p.stream = .streaming
  streaming : p.stream = .streaming ↔ (history.filterMap (·.opens?)).getLast? = some true

/-- The stream of the engine is that of the tally, and a weight that waits is its latest one and not
yet delivered. -/
structure InStep (p : Protocol) (t : Tally) : Prop where
  stream : p.stream = .streaming ↔ t.stream.isSome
  origin : ∀ stream, t.stream = some stream → p.origin = stream.origin
  latest : p.weightPending = true → t.latest? = some p.weight
  fresh : p.weightPending = true → ∀ n ∈ t.delivered, n < t.published
  delivered_le : ∀ n ∈ t.delivered, n ≤ t.published
  ordered : t.delivered.Pairwise (· < ·)
  answers : ∀ frame ∈ p.responses.toList, frame.isWeight = false

namespace InStep

variable {p q : Protocol} {t : Tally}

/-- A change that the stream does not see; the weight may cease to wait. -/
theorem congr (h : InStep p t) (hstream : q.stream = p.stream) (horigin : q.origin = p.origin)
    (hpending : q.weightPending = true → p.weightPending = true ∧ q.weight = p.weight)
    (hanswers : ∀ frame ∈ q.responses.toList, frame.isWeight = false) : InStep q t where
  stream := hstream ▸ h.stream
  origin := horigin ▸ h.origin
  latest := by
    intro hq
    rw [(hpending hq).2]
    exact h.latest (hpending hq).1
  fresh hq := h.fresh (hpending hq).1
  delivered_le := h.delivered_le
  ordered := h.ordered
  answers := hanswers

theorem pending (h : InStep p t) (hpending : p.weightPending = true) : p.stream = .streaming := by
  have hlatest := h.latest hpending
  rw [h.stream]
  unfold Tally.latest? at hlatest
  cases hstream : t.stream with
  | none => simp [hstream] at hlatest
  | some stream => rfl

/-- Nothing is delivered. -/
theorem offered (h : InStep p t) {offer : Offer} (hnone : offer.weight? = none) :
    InStep p (t.add (.offered offer)) := by
  have hadd : t.add (.offered offer) = t := by simp [Tally.add, hnone]
  rw [hadd]
  exact h

theorem discardPending (h : InStep p t) : InStep p.discardPending t := by
  refine h.congr rfl rfl ?_ ?_
  · simp [Protocol.discardPending]
  · simp [Protocol.discardPending]

/-- The weight that waited was offered, and waits no more. -/
theorem gone (h : InStep p t) (hpending : p.weightPending = true) (offer : Offer)
    (hstream : q.stream = p.stream) (horigin : q.origin = p.origin)
    (hnone : q.weightPending = false)
    (hanswers : ∀ frame ∈ q.responses.toList, frame.isWeight = false) :
    InStep q (t.add (.offered offer)) := by
  have hq : InStep q t := h.congr hstream horigin (by simp [hnone]) hanswers
  cases hweight : offer.weight? with
  | none => exact hq.offered hweight
  | some weight =>
    have hadd : t.add (.offered offer) = { t with delivered := t.delivered ++ [t.published] } := by
      simp [Tally.add, hweight]
    rw [hadd]
    refine { hq with latest := ?_, fresh := ?_, delivered_le := ?_, ordered := ?_ }
    · simp [hnone]
    · simp [hnone]
    · intro n hn
      rcases List.mem_append.1 hn with hold | hnew
      · exact h.delivered_le n hold
      · exact (List.mem_singleton.1 hnew).le
    · apply List.pairwise_append.2
      refine ⟨h.ordered, List.pairwise_singleton _ _, ?_⟩
      intro n hn m hm
      rw [List.mem_singleton.1 hm]
      exact h.fresh hpending n hn

/-- A start command on an open stream changes nothing. -/
theorem restarted (h : InStep p t) (hopen : p.stream = .streaming) (now : UInt32) :
    InStep p (t.add (.started now)) := by
  obtain ⟨stream, hstream⟩ := Option.isSome_iff_exists.1 (h.stream.1 hopen)
  have hadd : t.add (.started now) = t := by
    cases t
    simp_all [Tally.add]
  rw [hadd]
  exact h

/-- A start command opens a stream, on which nothing is published yet. -/
theorem started (h : InStep p t) (hidle : p.stream = .idle) (now : UInt32) :
    InStep { p with stream := .streaming, origin := now, weightPending := false }
      (t.add (.started now)) := by
  have hnone : t.stream = none := by
    rw [← Option.not_isSome_iff_eq_none, ← h.stream, hidle]
    nofun
  refine { h with stream := ?_, origin := ?_, latest := nofun, fresh := nofun }
  · simp [Tally.add]
  · simp [Tally.add, hnone]

/-- A stop command or a disconnection closes the stream. -/
theorem closed (h : InStep p t) (hstream : q.stream = .idle) (hpending : q.weightPending = false)
    (hanswers : ∀ frame ∈ q.responses.toList, frame.isWeight = false) :
    InStep q { t with stream := none } where
  stream := by simp [hstream]
  origin := nofun
  latest := by simp [hpending]
  fresh := by simp [hpending]
  delivered_le := h.delivered_le
  ordered := h.ordered
  answers := hanswers

/-- A weight published on an open stream is its latest one. -/
theorem published (h : InStep p t) (hopen : p.stream = .streaming) (weight : Float32)
    (time : UInt32) : InStep (p.stamp weight time) (t.add (.published weight time)) := by
  obtain ⟨stream, hstream⟩ := Option.isSome_iff_exists.1 (h.stream.1 hopen)
  have horigin := h.origin stream hstream
  have hadd : t.add (.published weight time) =
      { t with stream := stream.publish weight time, published := t.published + 1 } := by
    simp [Tally.add, hstream]
  rw [Protocol.stamp_eq, hadd, horigin]
  refine { h with stream := ?_, origin := ?_, latest := ?_, fresh := ?_, delivered_le := ?_ }
  · simp [hopen]
  · rintro _ ⟨rfl⟩
    rfl
  · intro _
    rfl
  · intro _ n hn
    exact Nat.lt_succ_of_le (h.delivered_le n hn)
  · intro n hn
    exact (h.delivered_le n hn).trans (Nat.le_succ _)

/-- Without an open stream a weight is ignored. -/
theorem ignored (h : InStep p t) (hclosed : p.stream ≠ .streaming) (weight : Float32)
    (time : UInt32) : InStep p (t.add (.published weight time)) := by
  have hnone : t.stream = none := by
    rw [← Option.not_isSome_iff_eq_none, ← h.stream]
    exact hclosed
  have hadd : t.add (.published weight time) = t := by simp [Tally.add, hnone]
  rw [hadd]
  exact h

end InStep

/-- What carries the promise through a run. -/
structure Current (p : Protocol) (history : List Happening) : Prop where
  offered : ∀ before offer, before ++ [.offered offer] <+: history →
    offer.frame.isWeight = true → (tally before).latest? = some offer.frame
  inStep : InStep p (tally history)

theorem current_nil (config : ProtocolConfig) : Current { config := config } [] where
  offered := by simp
  inStep := by constructor <;> simp [tally]

namespace Current

variable {p q : Protocol} {history : List Happening}

theorem follows (h : Current p history) : Follows p history where
  latestOnly := ⟨h.offered, h.inStep.ordered⟩
  pending := h.inStep.pending
  streaming := h.inStep.stream.trans (isSome_stream_tally history)

theorem concat (h : Current p history) {happening : Happening}
    (hoffered : ∀ offer, happening = .offered offer → offer.frame.isWeight = true →
      (tally history).latest? = some offer.frame)
    (hafter : InStep q ((tally history).add happening)) : Current q (history ++ [happening]) where
  offered := by
    intro before offer hprefix hweight
    rcases List.prefix_concat_iff.1 hprefix with heq | hold
    · obtain ⟨rfl, hlast⟩ := List.append_inj' heq rfl
      exact hoffered offer (List.singleton_inj.1 hlast).symm hweight
    · exact h.offered before offer hold hweight
  inStep := by
    rw [tally_concat]
    exact hafter

/-- What happens to the stream without an offer. -/
theorem mark (h : Current p history) {happening : Happening} (hmark : happening.offer? = none)
    (hafter : InStep q ((tally history).add happening)) : Current q (history ++ [happening]) := by
  apply h.concat _ hafter
  intro offer hoffer
  rw [hoffer] at hmark
  cases hmark

end Current

end LoadCell
