import LoadCell.Proofs.PromptWeights

/-!
Streams that are sent with their true times. The first sample may be taken up to a second before the
start, and then the stream counts from it. If it ends a second before the clock has come round, every
time that is sent is the one since that moment, wherever the clock wraps.
-/
namespace LoadCell

/-- The moment that a stream counts from: its start, or its first sample if that came before. -/
def begun (start : ℕ) : List (Float32 × ℕ) → ℕ
  | [] => start
  | first :: _ => min start first.2

/-- Samples come in the order of their times, none more than a second before the start, and the last
one a second before the clock has come round. -/
structure Punctual (start : ℕ) (samples : List (Float32 × ℕ)) : Prop where
  ordered : (samples.map (·.2)).Pairwise (· ≤ ·)
  first : ∀ sample ∈ samples.head?, start ≤ sample.2 + 10 ^ 6
  last : ∀ sample ∈ samples.getLast?, sample.2 - begun start samples < 2 ^ 32 - 10 ^ 6

def timeSince (moment : ℕ) (sample : Float32 × ℕ) : UInt32 := UInt32.ofNat (sample.2 - moment)

def sentSince (moment : ℕ) (sample : Float32 × ℕ) : Notification :=
  .weight sample.1 (timeSince moment sample)

/-- The frames of samples, each with the time that it has when it is published. -/
def OpenStream.frames (stream : OpenStream) : List (Float32 × UInt32) → List Notification
  | [] => []
  | sample :: rest =>
    let after := stream.publish sample.1 sample.2
    after.latest.toList ++ after.frames rest

theorem OpenStream.frames_concat (stream : OpenStream) (samples : List (Float32 × UInt32))
    (sample : Float32 × UInt32) :
    stream.frames (samples ++ [sample]) =
      stream.frames samples ++ (stream.publishAll (samples ++ [sample])).latest.toList := by
  induction samples generalizing stream with
  | nil => simp [frames, publishAll]
  | cons first rest ih =>
    rw [List.cons_append, frames, frames, ih, List.append_assoc]
    rfl

/-- What is due on a stream that stays open are the frames of its samples. -/
theorem due_of_open {during : List Happening} (hkept : ∀ happening ∈ during,
    happening.opens? ≠ some false) {t : Tally} {stream : OpenStream} (hopen : t.stream = some stream) :
    due t during = stream.frames (during.filterMap (·.sample?)) := by
  induction during generalizing t stream with
  | nil => rfl
  | cons happening rest ih =>
    obtain ⟨hfirst, hrest⟩ := List.forall_mem_cons.1 hkept
    have hquiet (hsample : happening.sample? = none)
        (hsame : (t.add happening).stream = some stream) :
        due t (happening :: rest) =
          stream.frames ((happening :: rest).filterMap (·.sample?)) := by
      rw [due, ih hrest hsame, List.filterMap_cons_none hsample, Tally.due, hsample]
      rfl
    cases happening with
    | started now => exact hquiet rfl (by simp [Tally.add, hopen])
    | stopped => exact absurd rfl hfirst
    | hungUp => exact absurd rfl hfirst
    | offered offer =>
      apply hquiet rfl
      unfold Tally.add
      dsimp only
      split
      next => exact hopen
      next => exact hopen
    | published weight time =>
      have hadd : (t.add (.published weight time)).stream = some (stream.publish weight time) := by
        simp [Tally.add, hopen]
      have hdue : t.due (.published weight time) = (stream.publish weight time).latest := by
        rw [Tally.due, Tally.latest?, hadd]
        rfl
      rw [due, ih hrest hadd, hdue]
      rfl

namespace Protocol

/-- A sample up to a second before the origin is early, wherever the clock wraps. -/
theorem isEarly_of_lt {origin time : ℕ} (hlt : time < origin) (hle : origin ≤ time + 10 ^ 6) :
    isEarly (UInt32.ofNat origin) (UInt32.ofNat time) = true := by
  have hlead : (UInt32.ofNat origin - UInt32.ofNat time).toNat = origin - time := by
    rw [← UInt32.ofNat_sub hlt.le, UInt32.toNat_ofNat']
    omega
  have hwindow : reorderWindow.toNat = 1000000 := rfl
  simp only [isEarly, Bool.and_eq_true, decide_eq_true_eq, ne_eq, ← UInt32.toNat_inj,
    UInt32.le_iff_toNat_le, hlead, hwindow]
  rw [show (0 : UInt32).toNat = 0 from rfl]
  omega

theorem not_isEarly_self (time : UInt32) : isEarly time time = false := by
  rw [isEarly, UInt32.sub_self]
  rfl

end Protocol

/-- A stream whose first sample is early is the one that started with it. -/
theorem publish_of_early {origin time : UInt32} (h : Protocol.isEarly origin time = true)
    (weight : Float32) : OpenStream.publish { origin := origin } weight time =
      OpenStream.publish { origin := time } weight time := by
  have hself := Protocol.not_isEarly_self time
  simp only [OpenStream.publish, Protocol.originAfter, Protocol.elapsed, h, hself, ↓reduceIte,
    Bool.false_eq_true, UInt32.sub_self]

/-- Over true times, the frames count from one moment. -/
theorem frames_shown {moment : ℕ} {samples : List (Float32 × ℕ)}
    (hordered : (moment :: samples.map (·.2)).Pairwise (· ≤ ·))
    (hstays : ∀ time ∈ samples.map (·.2), ¬ ComesRound moment time) :
    OpenStream.frames { origin := UInt32.ofNat moment } (samples.map shown) =
      samples.map (sentSince moment) := by
  induction samples using List.reverseRecOn with
  | nil => rfl
  | append_singleton samples sample ih =>
    have hearlier : (moment :: samples.map (·.2)).Pairwise (· ≤ ·) := .sublist (by simp) hordered
    have hbefore := ih hearlier fun time htime => hstays time (by simp_all)
    have hall := publishAll_shown hordered
    rw [List.map_append, List.map_singleton] at hall ⊢
    rw [OpenStream.frames_concat, hbefore, hall, streamAfter, originAt_of_stays hstays,
      List.getLast?_concat, List.map_append]
    rfl

namespace Punctual

variable {start : ℕ} {samples : List (Float32 × ℕ)} (h : Punctual start samples)
include h

theorem begun_le : ∀ sample ∈ samples, begun start samples ≤ sample.2 := by
  cases samples with
  | nil => simp
  | cons first rest =>
    intro sample hsample
    refine (min_le_right _ _).trans ?_
    rcases List.mem_cons.1 hsample with rfl | hrest
    · exact le_rfl
    · exact (List.pairwise_cons.1 h.ordered).1 _ (List.mem_map_of_mem hrest)

/-- All samples are as near to the beginning as the last one. -/
theorem sub_begun_lt : ∀ sample ∈ samples,
    sample.2 - begun start samples < 2 ^ 32 - 10 ^ 6 := by
  intro sample hsample
  have hne : samples ≠ [] := List.ne_nil_of_mem hsample
  have hlast := h.last _ (List.getLast?_eq_getLast_of_ne_nil hne)
  have hle : sample.2 ≤ (samples.getLast hne).2 := by
    have hordered := List.pairwise_map.1 h.ordered
    rw [← List.dropLast_append_getLast hne] at hsample hordered
    rcases List.mem_append.1 hsample with hold | hnew
    · exact (List.pairwise_append.1 hordered).2.2 sample hold _ (by simp)
    · rw [List.mem_singleton.1 hnew]
  omega

theorem ordered_begun : (begun start samples :: samples.map (·.2)).Pairwise (· ≤ ·) := by
  refine List.pairwise_cons.2 ⟨?_, h.ordered⟩
  exact List.forall_mem_map.2 h.begun_le

theorem stays : ∀ time ∈ samples.map (·.2), ¬ ComesRound (begun start samples) time := by
  refine List.forall_mem_map.2 fun sample hsample => ?_
  have hlt := h.sub_begun_lt sample hsample
  have hwindow : Protocol.reorderWindow.toNat = 1000000 := rfl
  rw [ComesRound, hwindow]
  omega

/-- The first sample settles that the stream counts from its beginning. -/
theorem publish_first {first : Float32 × ℕ} {rest : List (Float32 × ℕ)}
    (hsamples : samples = first :: rest) :
    OpenStream.publish { origin := UInt32.ofNat start } first.1 (UInt32.ofNat first.2) =
      OpenStream.publish { origin := UInt32.ofNat (begun start samples) } first.1
        (UInt32.ofNat first.2) := by
  subst hsamples
  rw [begun]
  rcases le_or_gt start first.2 with hle | hlt
  · rw [min_eq_left hle]
  · rw [min_eq_right hlt.le]
    exact publish_of_early (Protocol.isEarly_of_lt hlt (h.first first rfl)) _

theorem publishAll_begun : OpenStream.publishAll { origin := UInt32.ofNat start }
      (samples.map shown) =
    OpenStream.publishAll { origin := UInt32.ofNat (begun start samples) } (samples.map shown) := by
  cases hsamples : samples with
  | nil => rfl
  | cons first rest =>
    have hfirst := h.publish_first hsamples
    rw [hsamples] at hfirst
    exact congrArg (OpenStream.publishAll · (rest.map shown)) hfirst

/-- Every sample goes out with the time since the beginning. -/
theorem frames_eq : OpenStream.frames { origin := UInt32.ofNat start } (samples.map shown) =
    samples.map (sentSince (begun start samples)) := by
  rw [← frames_shown h.ordered_begun h.stays]
  cases hsamples : samples with
  | nil => rfl
  | cons first rest =>
    have hfirst := h.publish_first hsamples
    rw [hsamples] at hfirst
    exact congrArg (fun after => after.latest.toList ++ after.frames (rest.map shown)) hfirst

/-- A stream has the frame of its last sample, with the time since the beginning. -/
theorem latest_eq : (OpenStream.publishAll { origin := UInt32.ofNat start }
    (samples.map shown)).latest = samples.getLast?.map (sentSince (begun start samples)) := by
  rw [h.publishAll_begun, publishAll_shown h.ordered_begun, streamAfter, originAt_of_stays h.stays]
  rfl

/-- A beginning of a stream counts from the same moment. -/
theorem take {first : Float32 × ℕ} {earlier : List (Float32 × ℕ)}
    (hearlier : first :: earlier <+: samples) :
    begun start (first :: earlier) = begun start samples ∧ Punctual start (first :: earlier) := by
  obtain ⟨later, rfl⟩ := hearlier
  have hbegun : begun start (first :: earlier) = begun start (first :: earlier ++ later) := rfl
  refine ⟨hbegun, .sublist (by simp) h.ordered, h.first, ?_⟩
  intro sample hlast
  rw [hbegun]
  exact h.sub_begun_lt sample (List.mem_append_left _ (List.mem_of_getLast? hlast))

/-- The clock does not wrap in the time of a sample since the beginning. -/
theorem toNat_timeSince {sample : Float32 × ℕ} (hsample : sample ∈ samples) :
    (timeSince (begun start samples) sample).toNat = sample.2 - begun start samples := by
  have hlt := h.sub_begun_lt sample hsample
  rw [timeSince, UInt32.toNat_ofNat']
  exact Nat.mod_eq_of_lt (by omega)

/-- Times that are sent never go back, and differ as the samples do. -/
theorem pairwise_timeSince : samples.Pairwise fun sample later =>
    timeSince (begun start samples) sample ≤ timeSince (begun start samples) later ∧
      (timeSince (begun start samples) later - timeSince (begun start samples) sample).toNat =
        later.2 - sample.2 := by
  refine (List.pairwise_map.1 h.ordered).imp_of_mem ?_
  intro sample later hsample hlater hle
  have hbegun := h.begun_le sample hsample
  have htime := h.toNat_timeSince hsample
  have htime' := h.toNat_timeSince hlater
  have hordered : timeSince (begun start samples) sample ≤
      timeSince (begun start samples) later := by
    rw [UInt32.le_iff_toNat_le, htime, htime']
    exact Nat.sub_le_sub_right hle _
  refine ⟨hordered, ?_⟩
  rw [UInt32.toNat_sub_of_le _ _ hordered, htime, htime']
  omega

end Punctual

namespace Opened

variable {past before during : List Happening} {start : ℕ} {samples : List (Float32 × ℕ)}
  (h : Opened past before during start samples) (hpunctual : Punctual start samples)
include h hpunctual

/-- A weight that is offered is the last sample, with its true time. -/
theorem offered {p : Protocol} (hcurrent : Current p past) {mid : List Happening} {offer : Offer}
    (hoffer : mid ++ [.offered offer] <+: during) (hweight : offer.frame.isWeight = true) :
    ∃ earlier sample, earlier ++ [sample] <+: samples ∧
      mid.filterMap (·.sample?) = (earlier ++ [sample]).map shown ∧
      offer.frame = sentSince (begun start samples) sample := by
  obtain ⟨published, hprefix, hmid⟩ := h.take ((List.prefix_append ..).trans hoffer)
  have hlatest : (tally (before ++ .started (UInt32.ofNat start) :: mid)).latest? =
      some offer.frame := by
    refine hcurrent.offered _ offer (List.IsPrefix.trans ?_ h.started) hweight
    simpa using hoffer
  rw [Tally.latest?, hmid.stream_tally] at hlatest
  cases published with
  | nil => cases hlatest
  | cons first rest =>
    obtain ⟨hbegun, htaken⟩ := hpunctual.take hprefix
    have hframe := htaken.latest_eq.symm.trans hlatest
    rw [hbegun] at hframe
    obtain ⟨sample, hlast, hsent⟩ := Option.map_eq_some_iff.1 hframe
    obtain ⟨earlier, hpublished⟩ := List.getLast?_eq_some_iff.1 hlast
    rw [hpublished] at hprefix hmid
    exact ⟨earlier, sample, hprefix, hmid.published, hsent.symm⟩

/-- A link that takes everything gets each sample once, with its true time. -/
theorem delivered_eq (hprompt : Prompt past)
    (hpast : past = before ++ .started (UInt32.ofNat start) :: during) :
    delivered during = samples.map (sentSince (begun start samples)) := by
  have hopen : (tally (before ++ [.started (UInt32.ofNat start)])).stream =
      some { origin := UInt32.ofNat start } := stream_during h.idle (List.forall_mem_nil _)
  rw [hprompt.delivered_since hpast, due_of_open h.kept hopen, h.published]
  exact hpunctual.frames_eq

end Opened

namespace Core

variable {ω : Type} (medium : Medium ω) (clock : StateM ω UInt32)

/-- On a stream with punctual samples, a weight that is offered is the last sample published, with its
true time since the stream began, and a link that takes everything gets one such frame for each
sample. Those times do not wrap, never go back and differ as the samples do. -/
theorem times_of_punctual (s : Core ω) (config : ProtocolConfig) (calls : List (Call ω))
    {before during : List Happening} {start : ℕ} {samples : List (Float32 × ℕ)}
    (h : Opened (history (board medium clock) calls (s.withProtocol { config := config }))
      before during start samples) (hpunctual : Punctual start samples) :
    (∀ mid offer, mid ++ [.offered offer] <+: during → offer.frame.isWeight = true →
      ∃ earlier sample, earlier ++ [sample] <+: samples ∧
        mid.filterMap (·.sample?) = (earlier ++ [sample]).map shown ∧
        offer.frame = sentSince (begun start samples) sample) ∧
    ((∀ n, s.script n = .ok) →
      history (board medium clock) calls (s.withProtocol { config := config }) =
        before ++ .started (UInt32.ofNat start) :: during →
      delivered during = samples.map (sentSince (begun start samples))) ∧
    (∀ sample ∈ samples, begun start samples ≤ sample.2 ∧
      (timeSince (begun start samples) sample).toNat = sample.2 - begun start samples) ∧
    samples.Pairwise fun sample later =>
      timeSince (begun start samples) sample ≤ timeSince (begun start samples) later ∧
        (timeSince (begun start samples) later - timeSince (begun start samples) sample).toNat =
          later.2 - sample.2 := by
  have hnew : Current (s.withProtocol { config := config }).chain.protocol [] := current_nil config
  refine ⟨?_, ?_, ?_, hpunctual.pairwise_timeSince⟩
  · intro mid offer hoffer hweight
    have hcurrent := (told_calledAll medium clock calls hnew).current
    exact h.offered hpunctual hcurrent hoffer hweight
  · intro haccepting hpast
    have hcalm : (s.withProtocol { config := config }).Calm (s.offers.filterMap (·.weight?)) :=
      ⟨haccepting, rfl, by simp, rfl⟩
    have hprompt := prompt_calledAll medium clock calls hcalm hnew prompt_nil
    exact h.delivered_eq hpunctual hprompt hpast
  · intro sample hsample
    exact ⟨hpunctual.begun_le sample hsample, hpunctual.toNat_timeSince hsample⟩

/-- A stream started after the clock has wrapped, with a first sample from before that, and a last one
that the clock shows before both. -/
def acrossWrap : List (Float32 × ℕ) :=
  [(1, 4294767296), (2, 4295967296), (3, 4294767296 + 4293967295)]

theorem times_acrossWrap :
    begun 4295367296 acrossWrap = 4294767296 ∧
      delivered (streaming 4295367296 acrossWrap) =
        [.weight 1 0, .weight 2 1200000, .weight 3 4293967295] := by
  have hhistory : streaming 4295367296 acrossWrap = [.started 400000, .published 1 4294767296,
      .offered ⟨.weight 1 0, .ok⟩, .published 2 1000000, .offered ⟨.weight 2 1200000, .ok⟩,
      .published 3 4293767295, .offered ⟨.weight 3 4293967295, .ok⟩] := by
    decide +kernel
  have hopened : Opened (streaming 4295367296 acrossWrap) [] [.published 1 4294767296,
      .offered ⟨.weight 1 0, .ok⟩, .published 2 1000000, .offered ⟨.weight 2 1200000, .ok⟩,
      .published 3 4293767295, .offered ⟨.weight 3 4293967295, .ok⟩] 4295367296 acrossWrap := by
    refine ⟨?_, rfl, ?_, ?_⟩
    · rw [hhistory]
      exact List.prefix_rfl
    · decide
    · decide +kernel
  have hpunctual : Punctual 4295367296 acrossWrap := by
    constructor <;> decide
  obtain ⟨-, hdelivered, -, -⟩ := times_of_punctual noFlash _ _ {} _ hopened hpunctual
  have hsent := hdelivered (fun _ => rfl) hhistory
  refine ⟨rfl, ?_⟩
  rw [hhistory]
  exact hsent.trans (by decide +kernel)

end Core

end LoadCell
