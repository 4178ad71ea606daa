import LoadCell.Proofs.LatestWeight

/-!
The times that a stream is sent with, when time is unbounded and the clock shows its low 32 bits. A
sample is told from one before the origin only by its place in the round of the clock. So the times
are those since the start as long as no sample falls into the last second of a round, counted from
the start; one that does is sent with time zero and becomes the origin.
-/
namespace LoadCell

/-- A time in the last second before the clock comes round to the origin again. -/
def ComesRound (origin time : ℕ) : Prop :=
  2 ^ 32 - Protocol.reorderWindow.toNat ≤ (time - origin) % 2 ^ 32

instance (origin time : ℕ) : Decidable (ComesRound origin time) :=
  inferInstanceAs (Decidable (_ ≤ _))

/-- What a stream counts from after samples of these times. -/
def originAt (start : ℕ) (times : List ℕ) : ℕ :=
  times.foldl (fun origin time => if ComesRound origin time then time else origin) start

@[simp] theorem originAt_concat (start : ℕ) (times : List ℕ) (time : ℕ) :
    originAt start (times ++ [time]) =
      if ComesRound (originAt start times) time then time else originAt start times := by
  rw [originAt, List.foldl_append]
  rfl

theorem originAt_of_stays {start : ℕ} {times : List ℕ} (h : ∀ time ∈ times, ¬ ComesRound start time) :
    originAt start times = start := by
  induction times using List.reverseRecOn with
  | nil => rfl
  | append_singleton times time ih =>
    rw [originAt_concat, ih fun t ht => h t (List.mem_append_left _ ht), if_neg]
    exact h time (by simp)

theorem originAt_mem (start : ℕ) (times : List ℕ) : originAt start times ∈ start :: times := by
  induction times using List.reverseRecOn with
  | nil => simp [originAt]
  | append_singleton times time ih =>
    rw [originAt_concat]
    split
    next => simp
    next => exact List.mem_append_left [time] ih

/-- The origin is never later than the samples to come. -/
theorem originAt_le {start : ℕ} {times : List ℕ} {time : ℕ}
    (h : (start :: (times ++ [time])).Pairwise (· ≤ ·)) : originAt start times ≤ time := by
  rw [← List.cons_append] at h
  exact (List.pairwise_append.1 h).2.2 _ (originAt_mem start times) time (by simp)

namespace Protocol

variable {origin time : ℕ}

theorem isEarly_iff (h : origin ≤ time) :
    isEarly (UInt32.ofNat origin) (UInt32.ofNat time) ↔ ComesRound origin time := by
  have hlead : (UInt32.ofNat origin - UInt32.ofNat time).toNat =
      (2 ^ 32 - time % 2 ^ 32 + origin % 2 ^ 32) % 2 ^ 32 := by
    rw [UInt32.toNat_sub, UInt32.toNat_ofNat', UInt32.toNat_ofNat']
  have hwindow : reorderWindow.toNat = 1000000 := rfl
  simp only [isEarly, ComesRound, Bool.and_eq_true, decide_eq_true_eq, ne_eq, ← UInt32.toNat_inj,
    UInt32.le_iff_toNat_le, hlead, hwindow]
  rw [show (0 : UInt32).toNat = 0 from rfl]
  omega

theorem originAfter_ofNat (h : origin ≤ time) :
    originAfter (UInt32.ofNat origin) (UInt32.ofNat time) =
      UInt32.ofNat (if ComesRound origin time then time else origin) := by
  unfold originAfter
  rw [apply_ite UInt32.ofNat]
  exact if_congr (isEarly_iff h) rfl rfl

theorem elapsed_ofNat (h : origin ≤ time) :
    elapsed (UInt32.ofNat origin) (UInt32.ofNat time) =
      UInt32.ofNat (time - if ComesRound origin time then time else origin) := by
  unfold elapsed
  rw [if_congr (isEarly_iff h) rfl rfl]
  split
  next => rw [Nat.sub_self]; rfl
  next => exact (UInt32.ofNat_sub h).symm

end Protocol

/-- A weight that was published, and when. -/
def Happening.sample? : Happening → Option (Float32 × UInt32)
  | .published weight time => some (weight, time)
  | _ => none

/-- Publishes samples one after the other. -/
def OpenStream.publishAll (stream : OpenStream) (samples : List (Float32 × UInt32)) : OpenStream :=
  samples.foldl (fun stream sample => stream.publish sample.1 sample.2) stream

@[simp] theorem OpenStream.publishAll_concat (stream : OpenStream)
    (samples : List (Float32 × UInt32)) (sample : Float32 × UInt32) :
    stream.publishAll (samples ++ [sample]) =
      (stream.publishAll samples).publish sample.1 sample.2 := by
  rw [publishAll, List.foldl_append]
  rfl

/-- A stream that has stayed open since its start has all the samples since then. -/
theorem stream_during {before during : List Happening} {now : UInt32}
    (hidle : (tally before).stream = none)
    (hkept : ∀ happening ∈ during, happening.opens? ≠ some false) :
    (tally (before ++ .started now :: during)).stream =
      some (OpenStream.publishAll { origin := now } (during.filterMap (·.sample?))) := by
  induction during using List.reverseRecOn with
  | nil =>
    rw [tally_concat]
    simp [Tally.add, hidle, OpenStream.publishAll]
  | append_singleton during happening ih =>
    have hstream := ih fun g hg => hkept g (List.mem_append_left _ hg)
    rw [← List.cons_append, ← List.append_assoc, tally_concat, List.filterMap_append]
    cases happening with
    | started now =>
      rw [Tally.add, hstream]
      simp [Happening.sample?]
    | stopped => exact absurd rfl (hkept .stopped (by simp))
    | hungUp => exact absurd rfl (hkept .hungUp (by simp))
    | published weight time =>
      have hone : [Happening.published weight time].filterMap (·.sample?) = [(weight, time)] := rfl
      rw [hone, OpenStream.publishAll_concat, Tally.add, hstream]
    | offered offer =>
      have hnone : [Happening.offered offer].filterMap (·.sample?) = [] := rfl
      rw [hnone, List.append_nil]
      unfold Tally.add
      dsimp only
      split
      next => exact hstream
      next => exact hstream

/-- A sample as the clock shows it. -/
def shown (sample : Float32 × ℕ) : Float32 × UInt32 := (sample.1, UInt32.ofNat sample.2)

/-- A stream in a history: it was started at a time and has stayed open, and these samples were
published on it. -/
structure Opened (past before during : List Happening) (start : ℕ)
    (samples : List (Float32 × ℕ)) : Prop where
  started : before ++ .started (UInt32.ofNat start) :: during <+: past
  idle : (tally before).stream = none
  kept : ∀ happening ∈ during, happening.opens? ≠ some false
  published : during.filterMap (·.sample?) = samples.map shown

namespace Opened

variable {past before during : List Happening} {start : ℕ} {samples : List (Float32 × ℕ)}
  (h : Opened past before during start samples)
include h

/-- A beginning of a stream is a stream, with the samples up to there. -/
theorem take {mid : List Happening} (hmid : mid <+: during) :
    ∃ earlier, earlier <+: samples ∧ Opened past before mid start earlier := by
  obtain ⟨rest, rfl⟩ := hmid
  have hpublished := h.published
  rw [List.filterMap_append] at hpublished
  obtain ⟨earlier, later, rfl, hmap, -⟩ := List.map_eq_append_iff.1 hpublished.symm
  refine ⟨earlier, List.prefix_append .., ?_, h.idle, ?_, hmap.symm⟩
  · refine List.IsPrefix.trans ?_ h.started
    simp
  · exact fun happening hmem => h.kept happening (List.mem_append_left _ hmem)

theorem stream_tally : (tally (before ++ .started (UInt32.ofNat start) :: during)).stream =
    some (OpenStream.publishAll { origin := UInt32.ofNat start } (samples.map shown)) := by
  rw [stream_during h.idle h.kept, h.published]

end Opened

/-- A stream in a history: it was started at a time, has stayed open, and samples were published on
it in the order of their times. -/
structure Streamed (past before during : List Happening) (start : ℕ)
    (samples : List (Float32 × ℕ)) : Prop where
  started : before ++ .started (UInt32.ofNat start) :: during <+: past
  idle : (tally before).stream = none
  kept : ∀ happening ∈ during, happening.opens? ≠ some false
  published : during.filterMap (·.sample?) = samples.map shown
  ordered : (start :: samples.map (·.2)).Pairwise (· ≤ ·)

/-- The stream after its samples: the last one is to be sent with the time since the origin. -/
def streamAfter (start : ℕ) (samples : List (Float32 × ℕ)) : OpenStream where
  origin := UInt32.ofNat (originAt start (samples.map (·.2)))
  latest := samples.getLast?.map fun sample =>
    .weight sample.1 (UInt32.ofNat (sample.2 - originAt start (samples.map (·.2))))

theorem publish_streamAfter {start : ℕ} {samples : List (Float32 × ℕ)} {sample : Float32 × ℕ}
    (h : (start :: (samples ++ [sample]).map (·.2)).Pairwise (· ≤ ·)) :
    (streamAfter start samples).publish sample.1 (UInt32.ofNat sample.2) =
      streamAfter start (samples ++ [sample]) := by
  rw [List.map_append] at h
  have hle := originAt_le h
  simp only [streamAfter, OpenStream.publish, Protocol.originAfter_ofNat hle,
    Protocol.elapsed_ofNat hle, List.map_append, List.map_cons, List.map_nil, originAt_concat,
    List.getLast?_concat, Option.map_some]

theorem publishAll_shown {start : ℕ} {samples : List (Float32 × ℕ)}
    (h : (start :: samples.map (·.2)).Pairwise (· ≤ ·)) :
    OpenStream.publishAll { origin := UInt32.ofNat start } (samples.map shown) =
      streamAfter start samples := by
  induction samples using List.reverseRecOn with
  | nil => rfl
  | append_singleton samples sample ih =>
    have hearlier : (start :: samples.map (·.2)).Pairwise (· ≤ ·) := .sublist (by simp) h
    rw [List.map_append, List.map_singleton, OpenStream.publishAll_concat, ih hearlier]
    exact publish_streamAfter h

namespace Streamed

variable {past before during : List Happening} {start : ℕ} {samples : List (Float32 × ℕ)}

theorem opened (h : Streamed past before during start samples) :
    Opened past before during start samples :=
  ⟨h.started, h.idle, h.kept, h.published⟩

theorem stream_tally (h : Streamed past before during start samples) :
    (tally (before ++ .started (UInt32.ofNat start) :: during)).stream =
      some (streamAfter start samples) := by
  rw [h.opened.stream_tally, publishAll_shown h.ordered]

theorem take (h : Streamed past before during start samples) {mid : List Happening}
    (hmid : mid <+: during) :
    ∃ earlier, earlier <+: samples ∧ Streamed past before mid start earlier := by
  obtain ⟨earlier, ⟨later, rfl⟩, hopened⟩ := h.opened.take hmid
  refine ⟨earlier, List.prefix_append .., ?_⟩
  exact ⟨hopened.started, hopened.idle, hopened.kept, hopened.published,
    .sublist (by simp) h.ordered⟩

/-- The weight that may be offered on a stream is its last sample. -/
theorem latest_tally (h : Streamed past before during start samples) {frame : Notification}
    (hlatest : (tally (before ++ .started (UInt32.ofNat start) :: during)).latest? = some frame) :
    ∃ earlier weight time, samples = earlier ++ [(weight, time)] ∧
      frame = .weight weight (UInt32.ofNat (time - originAt start (samples.map (·.2)))) := by
  rw [Tally.latest?, h.stream_tally] at hlatest
  obtain ⟨⟨weight, time⟩, hlast, rfl⟩ := Option.map_eq_some_iff.1 hlatest
  obtain ⟨earlier, hsamples⟩ := List.getLast?_eq_some_iff.1 hlast
  exact ⟨earlier, weight, time, hsamples, rfl⟩

end Streamed

/-- While no earlier sample has come round, the time is the one since the start, or zero. -/
theorem sub_originAt {start time : ℕ} {times : List ℕ} (h : ∀ t ∈ times, ¬ ComesRound start t) :
    time - originAt start (times ++ [time]) = if ComesRound start time then 0 else time - start := by
  rw [originAt_concat, originAt_of_stays h]
  split
  next => exact Nat.sub_self time
  next => rfl

namespace Core

variable {ω : Type} (medium : Medium ω) (clock : StateM ω UInt32)

/-- A weight that is offered on a stream is the last sample published on it, and is sent with the time
since the origin. As long as no sample has come round, that is the time since the start; the first
one that does is sent with time zero. -/
theorem time_of_streamed (s : Core ω) (config : ProtocolConfig) (calls : List (Call ω))
    {before during : List Happening} {start : ℕ} {samples : List (Float32 × ℕ)}
    (h : Streamed (history (board medium clock) calls (s.withProtocol { config := config }))
      before during start samples) {mid : List Happening} {offer : Offer}
    (hoffer : mid ++ [.offered offer] <+: during) (hweight : offer.frame.isWeight = true) :
    ∃ earlier weight time, earlier ++ [(weight, time)] <+: samples ∧
      mid.filterMap (·.sample?) = (earlier ++ [(weight, time)]).map shown ∧
      offer.frame = .weight weight (UInt32.ofNat
        (time - originAt start (earlier.map (·.2) ++ [time]))) ∧
      ((∀ t ∈ earlier.map (·.2), ¬ ComesRound start t) →
        offer.frame = .weight weight
          (UInt32.ofNat (if ComesRound start time then 0 else time - start))) := by
  have hnew : Current (s.withProtocol { config := config }).chain.protocol [] := current_nil config
  have hcurrent := (told_calledAll medium clock calls hnew).current
  obtain ⟨published, hprefix, hmid⟩ := h.take ((List.prefix_append ..).trans hoffer)
  have hlatest : (tally (before ++ .started (UInt32.ofNat start) :: mid)).latest? =
      some offer.frame := by
    refine hcurrent.offered _ offer (List.IsPrefix.trans ?_ h.started) hweight
    simpa using hoffer
  obtain ⟨earlier, weight, time, rfl, hframe⟩ := hmid.latest_tally hlatest
  rw [List.map_append] at hframe
  refine ⟨earlier, weight, time, hprefix, hmid.published, hframe, fun hstays => ?_⟩
  rw [hframe]
  exact congrArg (Notification.weight weight) (congrArg UInt32.ofNat (sub_originAt hstays))

deriving instance DecidableEq for Happening

/-- What happens on a new stream with these samples and a link that takes everything. -/
def streaming (start : ℕ) (samples : List (Float32 × ℕ)) : List Happening :=
  history (board noFlash (return UInt32.ofNat start))
    (.receive [0x65] :: samples.map fun sample => .publishWeight sample.1 (UInt32.ofNat sample.2))
    (withProtocol { world := (), script := fun _ => .ok } { config := {} })

/-- A sample just after the clock has wrapped, and one two rounds later. -/
def twoRounds : List (Float32 × ℕ) := [(1, 4294963200 + 7936), (1, 4294963200 + 2 ^ 33 + 5)]

theorem time_of_twoRounds :
    (streaming 4294963200 twoRounds).getLast? = some (.offered ⟨.weight 1 5, .ok⟩) ∧
      ∃ earlier weight time, earlier ++ [(weight, time)] <+: twoRounds ∧
        Notification.weight 1 5 = .weight weight (UInt32.ofNat
          (if ComesRound 4294963200 time then 0 else time - 4294963200)) := by
  have hhistory : streaming 4294963200 twoRounds = [.started 4294963200, .published 1 3840,
      .offered ⟨.weight 1 7936, .ok⟩, .published 1 4294963205, .offered ⟨.weight 1 5, .ok⟩] := by
    decide +kernel
  have hstreamed : Streamed (streaming 4294963200 twoRounds) [] [.published 1 3840,
      .offered ⟨.weight 1 7936, .ok⟩, .published 1 4294963205, .offered ⟨.weight 1 5, .ok⟩]
      4294963200 twoRounds := by
    refine ⟨?_, rfl, ?_, ?_, ?_⟩
    · rw [hhistory]
      exact List.prefix_rfl
    · decide
    · decide +kernel
    · decide
  have hoffer : [.published 1 3840, .offered ⟨.weight 1 7936, .ok⟩, .published 1 4294963205] ++
      [.offered ⟨.weight 1 5, .ok⟩] <+: [Happening.published 1 3840,
      .offered ⟨.weight 1 7936, .ok⟩, .published 1 4294963205, .offered ⟨.weight 1 5, .ok⟩] :=
    List.prefix_rfl
  obtain ⟨earlier, weight, time, hprefix, -, -, hexact⟩ :=
    time_of_streamed noFlash _ _ {} _ hstreamed hoffer rfl
  refine ⟨by rw [hhistory]; rfl, earlier, weight, time, hprefix, hexact ?_⟩
  have hstays : ∀ t ∈ twoRounds.map (·.2), ¬ ComesRound 4294963200 t := by decide
  intro t ht
  have hearlier := ((List.prefix_append earlier _).trans hprefix).subset
  exact hstays t (List.map_subset _ hearlier ht)

/-- A sample just before the clock comes round is sent with time zero, and one a second later with
that second, though both came more than an hour after the start. -/
theorem time_lost_at_round :
    (streaming 0 [(1, 2 ^ 32 - 1), (1, 2 ^ 32 + 999999)]).filterMap (·.offer?) =
        [⟨.weight 1 0, .ok⟩, ⟨.weight 1 1000000, .ok⟩] ∧
      UInt32.ofNat (2 ^ 32 - 1 - 0) = 4294967295 ∧ UInt32.ofNat (2 ^ 32 + 999999 - 0) = 999999 := by
  decide +kernel

end Core

end LoadCell
