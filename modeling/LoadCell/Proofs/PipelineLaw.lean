import LoadCell.Proofs.Core
import LoadCell.Proofs.SlidingMedian
import LoadCell.Proofs.StreamTime

/-!
From samples to weights. With a stream open and a link that takes everything, one weight goes out
for each sample from the moment the filter is full, and neither the weights nor what the chain
remembers depend on how the work was split into turns.
-/
namespace LoadCell

/-- The middle one of the last counts, as many as the window has places. -/
def windowMedian (size : WindowSize) (samples : List Sample) : Int32 :=
  middle (MedianFilter.lastCounts size (samples.map (·.count)))

/-- What the filter makes of a sample. -/
structure Reading where
  median : Int32
  time : UInt32

/-- The reading that sample `k` completes: the median of the samples up to it, at its own time. -/
def readingAt (size : WindowSize) (samples : List Sample) (k : ℕ) : Reading where
  median := windowMedian size (samples.take (k + 1))
  time := (samples.getD k default).time

/-- One reading for each sample from the moment the window is full. -/
def readings (size : WindowSize) (samples : List Sample) : List Reading :=
  (List.range' (size.val - 1) (samples.length - (size.val - 1))).map (readingAt size samples)

theorem readings_concat (size : WindowSize) (samples : List Sample) (sample : Sample) :
    readings size (samples ++ [sample]) = readings size samples ++
      if samples.length + 1 < size.val then []
      else [⟨windowMedian size (samples ++ [sample]), sample.time⟩] := by
  have hpos := size.pos
  have hold : (List.range' (size.val - 1) (samples.length - (size.val - 1))).map
      (readingAt size (samples ++ [sample])) = readings size samples := by
    apply List.map_congr_left
    intro k hk
    have hlt : k < samples.length := by
      have := List.mem_range'_1.1 hk
      omega
    rw [readingAt, readingAt, List.take_append_of_le_length hlt,
      List.getD_append _ _ _ _ hlt]
  have hnew : readingAt size (samples ++ [sample]) samples.length =
      ⟨windowMedian size (samples ++ [sample]), sample.time⟩ := by
    rw [readingAt, List.take_of_length_le (by simp), List.getD_append_right _ _ _ _ le_rfl,
      Nat.sub_self]
    rfl
  rw [readings, List.length_append, List.length_singleton]
  split
  next hshort =>
    have hnone : samples.length + 1 - (size.val - 1) = 0 := by omega
    have hnone' : samples.length - (size.val - 1) = 0 := by omega
    rw [readings, hnone, hnone']
    rfl
  next hfull =>
    have hone : samples.length + 1 - (size.val - 1) = samples.length - (size.val - 1) + 1 := by
      omega
    have hlast : size.val - 1 + (samples.length - (size.val - 1)) = samples.length := by omega
    rw [hone, List.range'_1_concat, hlast, List.map_append, hold, List.map_singleton, hnew]

/-- What has come of the readings so far. -/
structure Weighing where
  tare : Tare
  origin : UInt32
  /-- The weights that the link took. -/
  frames : List Notification
  lastFiltered : Int32
  lastWeight : Float32

/-- A reading is converted, the tare taken off it, and the weight sent with the reading's time. -/
def Weighing.read (convert : Int32 → Float32) (w : Weighing) (r : Reading) : Weighing :=
  let weight := convert r.median
  let tare := w.tare.absorb weight
  { tare := tare
    origin := Protocol.originAfter w.origin r.time
    frames := w.frames ++ [.weight (tare.net weight) (Protocol.elapsed w.origin r.time)]
    lastFiltered := r.median
    lastWeight := tare.net weight }

namespace Core

variable {ω : Type}

def weighing (s : Core ω) : Weighing where
  tare := s.chain.calibration.tare
  origin := s.chain.protocol.origin
  frames := s.offers.filterMap (·.weight?)
  lastFiltered := s.chain.pipeline.lastFiltered
  lastWeight := s.chain.pipeline.lastWeight

/-- A stream is open, the link takes everything, and what waits in the queue are answers. -/
structure Flowing (s : Core ω) : Prop where
  streaming : s.chain.protocol.stream = .streaming
  accepting : ∀ n, s.script n = .ok
  answers : ∀ frame ∈ s.chain.protocol.responses.toList, frame.isWeight = false

def deliver (s : Core ω) (frames : List Notification) : Core ω :=
  { s with offers := s.offers ++ frames.map (⟨·, .ok⟩) }

section Sending

variable {s : Core ω} (haccepting : ∀ n, s.script n = .ok)

@[simp] theorem deliver_nil (s : Core ω) : s.deliver [] = s := by simp [deliver]

theorem deliver_append (s : Core ω) (frames frames' : List Notification) :
    (s.deliver frames).deliver frames' = s.deliver (frames ++ frames') := by
  simp [deliver]

include haccepting

theorem offer_eq_deliver (frame : Notification) : s.offer frame = s.deliver [frame] := by
  rw [offer, deliver, haccepting, List.map_singleton]

/-- A link that takes everything empties the queue. -/
theorem drainResponses_run (limit : ℕ) (hlimit : s.chain.protocol.responses.size < limit) :
    ∃ responses sent,
    Protocol.drainResponses link limit s = (true,
      (s.deliver s.chain.protocol.responses.toList).withProtocol
        { s.chain.protocol with responses := responses, sent := sent }) ∧
    responses.toList = [] := by
  induction limit generalizing s with
  | zero => omega
  | succ limit ih =>
    rw [Protocol.drainResponses, bind_run, getPart_protocol, BoundedQueue.peek?_eq_head?]
    cases hwaiting : s.chain.protocol.responses.toList with
    | nil =>
      rw [deliver_nil]
      exact ⟨s.chain.protocol.responses, s.chain.protocol.sent, rfl, hwaiting⟩
    | cons frame rest =>
      have hreply : s.reply = .ok := haccepting _
      have hsubmit := submit_run s (pure frame) fun _ => rfl
      rw [hreply, if_pos rfl, pure_run, offer_eq_deliver haccepting] at hsubmit
      obtain ⟨queue, hdrop, htail⟩ :=
        { s.chain.protocol with sent := s.chain.protocol.sent + 1 }.dropOldestResponse_eq
      have hrest : queue.toList = rest := htail.trans (congrArg List.tail hwaiting)
      have hsize : queue.size < limit := by
        rw [← BoundedQueue.length_toList, hrest]
        rw [← BoundedQueue.length_toList, hwaiting, List.length_cons] at hlimit
        omega
      obtain ⟨responses, sent, hdrained, hempty⟩ := ih
        (s := (s.deliver [frame]).withProtocol
          { s.chain.protocol with sent := s.chain.protocol.sent + 1, responses := queue })
        haccepting hsize
      refine ⟨responses, sent, ?_, hempty⟩
      simp only [List.head?_cons, bind_run, hsubmit, edit_run, withProtocol_protocol, hdrop]
      apply hdrained.trans
      have hdelivered := deliver_append s [frame] rest
      rw [List.singleton_append] at hdelivered
      rw [← hdelivered, withProtocol_protocol, hrest]
      rfl

theorem sendWeight_accepted (hpending : s.chain.protocol.weightPending = true) :
    Protocol.sendWeight link s = ((), (s.deliver [s.chain.protocol.weight]).withProtocol
      { s.chain.protocol with sent := s.chain.protocol.sent + 1, weightPending := false }) := by
  have hreply : s.reply = .ok := haccepting _
  rw [sendWeight_run s hpending, hreply, offer_eq_deliver haccepting]

/-- The answers that wait go out, and then the weight that waits. -/
theorem poll_run (hpending : s.chain.protocol.weightPending = true) : ∃ responses sent,
    (Protocol.poll link s).2 =
      (s.deliver (s.chain.protocol.responses.toList ++ [s.chain.protocol.weight])).withProtocol
        { s.chain.protocol with responses := responses, sent := sent, weightPending := false } ∧
    responses.toList = [] := by
  have hlimit : s.chain.protocol.responses.size < Protocol.drainLimit :=
    lt_of_le_of_lt s.chain.protocol.responses.size_le (by decide)
  obtain ⟨responses, sent, hdrained, hempty⟩ :=
    drainResponses_run haccepting Protocol.drainLimit hlimit
  have hsent := sendWeight_accepted
    (s := (s.deliver s.chain.protocol.responses.toList).withProtocol
      { s.chain.protocol with responses := responses, sent := sent }) haccepting hpending
  refine ⟨responses, sent + 1, ?_, hempty⟩
  rw [Protocol.poll, bind_run, hdrained, ← deliver_append]
  exact congrArg Prod.snd hsent

theorem publishWeight_run (hstreaming : s.chain.protocol.stream = .streaming) (weight : Float32)
    (time : UInt32) : ∃ responses sent,
    (Protocol.publishWeight link weight time s).2 =
      (s.deliver (s.chain.protocol.responses.toList ++
        [.weight weight (Protocol.elapsed s.chain.protocol.origin time)])).withProtocol
          { s.chain.protocol.stamp weight time with
            responses := responses, sent := sent, weightPending := false } ∧
    responses.toList = [] := by
  have hopen : s.chain.protocol.isStreaming = true := decide_eq_true hstreaming
  rw [Protocol.publishWeight, bind_run, getPart_protocol]
  simp only [hopen, ↓reduceIte, bind_run, edit_run]
  exact poll_run (s := s.withProtocol (s.chain.protocol.stamp weight time)) haccepting rfl

end Sending

/-- What has come of the samples that were taken out of the channel since a state `s`. -/
structure Weighed (s : Core ω) (taken : List Sample) (t : Core ω) : Prop where
  filter : t.chain.filter = s.chain.filter.pushAll (taken.map (·.count))
  weighing : t.weighing = (readings s.chain.filter.size taken).foldl
    (.read s.chain.calibration.convert) s.weighing
  samples : t.chain.pipeline.samples = s.chain.pipeline.samples + UInt32.ofNat taken.length

/-- With it, the stream goes on and the mapping stays. -/
structure Carried (s : Core ω) (taken : List Sample) (t : Core ω) : Prop extends
    Weighed s taken t where
  flowing : t.Flowing
  mapping : t.chain.calibration.mapping = s.chain.calibration.mapping

section Processing

variable (s : Core ω) (sample : Sample)

def counted : Core ω :=
  { s with chain := { s.chain with
    filter := s.chain.filter.push sample.count
    pipeline := { s.chain.pipeline with samples := s.chain.pipeline.samples + 1 } } }

theorem process_none (h : (s.chain.filter.push sample.count).latest = none) :
    (Pipeline.process link sample s).2 = s.counted sample := by
  simp only [Pipeline.process, Pipeline.filterCount, bind_run, modifyPart_pipeline,
    modifyPart_filter, getPart_filter, pure_run, h]
  rfl

/-- The tare after a filtered count. -/
def tareAfter (filtered : Int32) : Tare :=
  s.chain.calibration.tare.absorb (s.chain.calibration.convert filtered)

def netWeight (filtered : Int32) : Float32 :=
  (s.tareAfter filtered).net (s.chain.calibration.convert filtered)

/-- A sample was filtered and weighed, but nothing has been sent yet. -/
def weighed (filtered : Int32) : Core ω :=
  { s with chain := { s.chain with
    filter := s.chain.filter.push sample.count
    calibration := { s.chain.calibration with tare := s.tareAfter filtered }
    pipeline :=
      { samples := s.chain.pipeline.samples + 1
        lastFiltered := filtered
        lastWeight := s.netWeight filtered } } }

theorem process_some {filtered : Int32}
    (h : (s.chain.filter.push sample.count).latest = some filtered) :
    (Pipeline.process link sample s).2 =
      (Protocol.publishWeight link (s.netWeight filtered) sample.time (s.weighed sample filtered)).2
    := by
  simp only [Pipeline.process, Pipeline.filterCount, bind_run, modifyPart_pipeline,
    modifyPart_filter, getPart_filter, pure_run, h, getPart_calibration, applyTare_run, debug_run]
  rfl

theorem poll_run_of_pop {rest : SampleChannel} (h : s.chain.channel.pop? = some (sample, rest))
    (limit : ℕ) : (Pipeline.poll link (limit + 1) s).2 =
      (Pipeline.poll link limit (Pipeline.process link sample
        { s with chain := { s.chain with channel := rest } }).2).2 := by
  simp only [Pipeline.poll, Pipeline.takeSample, bind_run, getPart_channel, h]
  rfl

end Processing

theorem weights_deliver (s : Core ω) {answers : List Notification}
    (hanswers : ∀ frame ∈ answers, frame.isWeight = false) (weight : Float32) (time : UInt32) :
    (s.deliver (answers ++ [.weight weight time])).offers.filterMap (·.weight?) =
      s.offers.filterMap (·.weight?) ++ [.weight weight time] := by
  have hnone : (answers.map (⟨·, .ok⟩ : Notification → Offer)).filterMap (·.weight?) = [] := by
    simpa [Offer.weight?] using hanswers
  have hone : Offer.weight? ⟨.weight weight time, .ok⟩ = some (.weight weight time) := rfl
  simp only [deliver, List.map_append, List.filterMap_append, hnone, List.nil_append,
    List.map_singleton, List.filterMap_cons, hone, List.filterMap_nil]

/-- A stream is open over an empty channel and an empty filter. -/
structure Ready (s : Core ω) : Prop extends Flowing s where
  filled : s.chain.filter.filled = 0
  latest : s.chain.filter.latest = none
  channel : s.chain.channel.toList = []

section Law

variable {s t : Core ω} {taken : List Sample}

theorem Ready.carried (h : s.Ready) : s.Carried [] s where
  filter := rfl
  weighing := by rw [readings, List.length_nil, Nat.zero_sub]; rfl
  samples := (UInt32.add_zero _).symm
  flowing := h.toFlowing
  mapping := rfl

theorem Carried.withChannel (h : s.Carried taken t) (channel : SampleChannel) :
    s.Carried taken { t with chain := { t.chain with channel := channel } } where
  filter := h.filter
  weighing := h.weighing
  samples := h.samples
  flowing := ⟨h.flowing.streaming, h.flowing.accepting, h.flowing.answers⟩
  mapping := h.mapping

/-- While the window fills, a sample is only counted. -/
theorem Carried.counted (h : s.Carried taken t) {sample : Sample}
    (hshort : taken.length + 1 < s.chain.filter.size.val) :
    s.Carried (taken ++ [sample]) (t.counted sample) where
  filter := by
    rw [List.map_append, List.map_singleton, MedianFilter.pushAll_concat, ← h.filter]
    rfl
  weighing := by
    rw [readings_concat, if_pos hshort, List.append_nil, ← h.weighing]
    rfl
  samples := by
    rw [List.length_append, UInt32.ofNat_add, ← UInt32.add_assoc, ← h.samples]
    rfl
  flowing := ⟨h.flowing.streaming, h.flowing.accepting, h.flowing.answers⟩
  mapping := h.mapping

/-- Over a full window, a sample is weighed and its weight delivered. -/
theorem Carried.measured (h : s.Carried taken t) {sample : Sample}
    (hfull : ¬taken.length + 1 < s.chain.filter.size.val)
    (hyield : (t.chain.filter.push sample.count).latest = some
      (windowMedian s.chain.filter.size (taken ++ [sample]))) :
    s.Carried (taken ++ [sample]) (Pipeline.process link sample t).2 ∧
      (Pipeline.process link sample t).2.chain.channel = t.chain.channel := by
  generalize hfiltered : windowMedian _ _ = filtered at hyield
  obtain ⟨responses, sent, hpublish, hnone⟩ := publishWeight_run (s := t.weighed sample filtered)
    h.flowing.accepting h.flowing.streaming (t.netWeight filtered) sample.time
  have hconvert : t.chain.calibration.convert = s.chain.calibration.convert := by
    unfold Calibration.convert
    rw [h.mapping]
  rw [process_some t sample hyield, hpublish]
  refine ⟨?_, rfl⟩
  constructor
  · constructor
    · rw [List.map_append, List.map_singleton, MedianFilter.pushAll_concat, ← h.filter]
      rfl
    · have hframes := weights_deliver t h.flowing.answers (t.netWeight filtered)
        (Protocol.elapsed t.chain.protocol.origin sample.time)
      rw [readings_concat, if_neg hfull, List.foldl_append, ← h.weighing, hfiltered, ← hconvert]
      exact congrArg (fun frames => Weighing.mk _ _ frames _ _) hframes
    · rw [List.length_append, UInt32.ofNat_add, ← UInt32.add_assoc, ← h.samples]
      rfl
  · refine ⟨h.flowing.streaming, h.flowing.accepting, ?_⟩
    rw [withProtocol_protocol, hnone]
    simp
  · exact h.mapping

theorem Carried.process (hs : s.Ready) (h : s.Carried taken t) (sample : Sample) :
    s.Carried (taken ++ [sample]) (Pipeline.process link sample t).2 ∧
      (Pipeline.process link sample t).2.chain.channel = t.chain.channel := by
  have hyield := MedianFilter.latest_pushAll hs.filled hs.latest
    ((taken ++ [sample]).map (·.count))
  rw [List.map_append, List.map_singleton, MedianFilter.pushAll_concat, ← h.filter,
    List.length_append, List.length_map, List.length_singleton] at hyield
  by_cases hshort : taken.length + 1 < s.chain.filter.size.val
  · rw [if_pos hshort] at hyield
    rw [process_none t sample hyield]
    exact ⟨h.counted hshort, rfl⟩
  · rw [if_neg hshort] at hyield
    apply h.measured hshort
    rw [hyield, windowMedian, List.map_append, List.map_singleton]

/-- A turn takes samples out of the channel, oldest first, and all of them are weighed. -/
theorem Carried.poll (hs : s.Ready) (h : s.Carried taken t) (limit : ℕ) : ∃ more,
    t.chain.channel.toList = more ++ (Pipeline.poll link limit t).2.chain.channel.toList ∧
      s.Carried (taken ++ more) (Pipeline.poll link limit t).2 := by
  induction limit generalizing taken t with
  | zero => exact ⟨[], rfl, (List.append_nil taken).symm ▸ h⟩
  | succ limit ih =>
    cases hpop : t.chain.channel.pop? with
    | none =>
      have hstays : Pipeline.poll link (limit + 1) t = (0, t) := by
        simp only [Pipeline.poll, Pipeline.takeSample, bind_run, getPart_channel, hpop, pure_run]
      rw [hstays]
      exact ⟨[], rfl, (List.append_nil taken).symm ▸ h⟩
    | some popped =>
      obtain ⟨sample, rest⟩ := popped
      rw [poll_run_of_pop t sample hpop, BoundedQueue.toList_of_pop? hpop]
      obtain ⟨hnext, hchannel⟩ := (h.withChannel rest).process hs sample
      obtain ⟨more, hmore, hcarried⟩ := ih hnext
      rw [hchannel] at hmore
      refine ⟨sample :: more, congrArg (sample :: ·) hmore, ?_⟩
      rw [List.append_cons]
      exact hcarried

end Law

/-- What the chain is fed with: a sample, or a turn of the pipeline. -/
inductive Feed
  | put (sample : Sample)
  | poll (limit : ℕ)

def Feed.sample? : Feed → Option Sample
  | .put sample => some sample
  | .poll _ => none

def fed (s : Core ω) : Feed → Core ω
  | .put sample => (Chain.sample sample.count sample.time s).2
  | .poll limit => (Pipeline.poll link limit s).2

def fedAll (feeds : List Feed) (s : Core ω) : Core ω := feeds.foldl fed s

/-- No sample comes while the channel is full. -/
def WithoutOverrun : List Feed → Core ω → Prop
  | [], _ => True
  | feed :: rest, s =>
    (feed.sample?.isSome → s.chain.channel.size < channelCapacity) ∧
      WithoutOverrun rest (s.fed feed)

theorem Carried.fed {s t : Core ω} {taken : List Sample} (hs : s.Ready) (h : s.Carried taken t)
    (feed : Feed) (hroom : feed.sample?.isSome → t.chain.channel.size < channelCapacity) : ∃ more,
    t.chain.channel.toList ++ feed.sample?.toList = more ++ (t.fed feed).chain.channel.toList ∧
      s.Carried (taken ++ more) (t.fed feed) := by
  cases feed with
  | put sample =>
    have hqueue := BoundedQueue.toList_pushOverwrite t.chain.channel sample
    rw [if_neg (hroom rfl).ne] at hqueue
    refine ⟨[], hqueue.symm, ?_⟩
    rw [List.append_nil]
    exact h.withChannel _
  | poll limit =>
    have hnone : (Feed.poll limit).sample?.toList = [] := rfl
    rw [hnone, List.append_nil]
    exact h.poll hs limit

theorem Carried.fedAll {s t : Core ω} {taken : List Sample} (hs : s.Ready) (h : s.Carried taken t)
    (feeds : List Feed) (hroom : WithoutOverrun feeds t) : ∃ more,
    t.chain.channel.toList ++ feeds.filterMap (·.sample?) =
        more ++ (fedAll feeds t).chain.channel.toList ∧
      s.Carried (taken ++ more) (fedAll feeds t) := by
  induction feeds generalizing taken t with
  | nil => exact ⟨[], by simp [Core.fedAll], (List.append_nil taken).symm ▸ h⟩
  | cons feed rest ih =>
    obtain ⟨hfirst, hrest⟩ := hroom
    obtain ⟨more, hmore, hfed⟩ := h.fed hs feed hfirst
    obtain ⟨further, hfurther, hcarried⟩ := ih hfed hrest
    refine ⟨more ++ further, ?_, ?_⟩
    · calc t.chain.channel.toList ++ (feed :: rest).filterMap (·.sample?)
          = t.chain.channel.toList ++ feed.sample?.toList ++ rest.filterMap (·.sample?) := by
            cases hsample : feed.sample? <;> simp [hsample]
        _ = more ++ further ++ (Core.fedAll (feed :: rest) t).chain.channel.toList := by
            rw [hmore, List.append_assoc, hfurther, List.append_assoc]
            rfl
    · rw [← List.append_assoc]
      exact hcarried

/-- However the work is split into turns, the samples taken out of the channel are the first ones
that came; each of them from the moment the window is full has its weight delivered, in order, and
what the chain remembers is settled by these samples alone. -/
theorem weighed_of_feeds {s : Core ω} (hs : s.Ready) :
    (∀ feeds, WithoutOverrun feeds s → ∃ taken,
      feeds.filterMap (·.sample?) = taken ++ (fedAll feeds s).chain.channel.toList ∧
        s.Weighed taken (fedAll feeds s)) ∧
    ∀ feeds feeds', WithoutOverrun feeds s → WithoutOverrun feeds' s →
      feeds.filterMap (·.sample?) = feeds'.filterMap (·.sample?) →
      (fedAll feeds s).chain.channel.size = (fedAll feeds' s).chain.channel.size →
      (fedAll feeds s).chain.filter = (fedAll feeds' s).chain.filter ∧
        (fedAll feeds s).weighing = (fedAll feeds' s).weighing ∧
        (fedAll feeds s).chain.pipeline.samples = (fedAll feeds' s).chain.pipeline.samples := by
  have hlaw : ∀ feeds, WithoutOverrun feeds s → ∃ taken,
      feeds.filterMap (·.sample?) = taken ++ (fedAll feeds s).chain.channel.toList ∧
        s.Weighed taken (fedAll feeds s) := by
    intro feeds hroom
    obtain ⟨taken, htaken, hcarried⟩ := hs.carried.fedAll hs feeds hroom
    rw [hs.channel] at htaken
    exact ⟨taken, htaken, hcarried.toWeighed⟩
  refine ⟨hlaw, ?_⟩
  intro feeds feeds' hroom hroom' hsamples hsize
  obtain ⟨taken, htaken, hweighed⟩ := hlaw feeds hroom
  obtain ⟨taken', htaken', hweighed'⟩ := hlaw feeds' hroom'
  have hsame : taken = taken' := by
    apply List.append_inj_left' (htaken.symm.trans (hsamples.trans htaken'))
    rw [BoundedQueue.length_toList, BoundedQueue.length_toList, hsize]
  subst hsame
  refine ⟨?_, ?_, ?_⟩
  · rw [hweighed.filter, hweighed'.filter]
  · rw [hweighed.weighing, hweighed'.weighing]
  · rw [hweighed.samples, hweighed'.samples]

/-- A stream was opened on a calibrated chain with a window of three, in the middle of a tare that has
one weight to skip and one to average. -/
def opened : Core Unit where
  chain := {
    filter := .ofSize (.ofRequest 3)
    calibration := {
      mapping := some ⟨4, 0.5⟩
      tare := { offset := 1, warmup := 1, remaining := 1, total := 1 } }
    protocol := { stream := .streaming, origin := 10000 } }
  world := ()
  script := fun _ => .ok

theorem ready_opened : opened.Ready where
  streaming := rfl
  accepting _ := rfl
  answers := by simp [opened]
  filled := rfl
  latest := rfl
  channel := rfl

/-- Five samples, taken out as many at a time as the channel holds. -/
def inPairs : List Feed :=
  [.put ⟨10, 10000⟩, .put ⟨30, 22500⟩, .poll 2, .put ⟨20, 35000⟩, .put ⟨40, 47500⟩, .poll 8,
    .put ⟨22, 60000⟩, .poll 1]

def oneByOne : List Feed :=
  [.put ⟨10, 10000⟩, .poll 1, .put ⟨30, 22500⟩, .poll 1, .put ⟨20, 35000⟩, .poll 1,
    .put ⟨40, 47500⟩, .poll 1, .put ⟨22, 60000⟩, .poll 1]

theorem withoutOverrun_inPairs : WithoutOverrun inPairs opened := by
  refine ⟨?_, ?_, ?_, ?_, ?_, ?_, ?_, ?_, trivial⟩ <;> decide +kernel

theorem withoutOverrun_oneByOne : WithoutOverrun oneByOne opened := by
  refine ⟨?_, ?_, ?_, ?_, ?_, ?_, ?_, ?_, ?_, ?_, trivial⟩ <;> decide +kernel

/-- Both ways of splitting come to the same. The first weight goes out with the old offset, the second
one is the average and so comes to nothing, and the third goes out with the new offset. -/
theorem weighed_of_fiveSamples :
    (∃ taken, inPairs.filterMap (·.sample?) =
        taken ++ (fedAll inPairs opened).chain.channel.toList ∧
      opened.Weighed taken (fedAll inPairs opened)) ∧
    (fedAll inPairs opened).weighing = (fedAll oneByOne opened).weighing ∧
    (fedAll inPairs opened).weighing.frames =
      [.weight 7 25000, .weight 0 37500, .weight (-4) 50000] ∧
    (fedAll inPairs opened).weighing.tare.offset = 13 := by
  obtain ⟨hlaw, hsame⟩ := weighed_of_feeds ready_opened
  have hsize : (fedAll inPairs opened).chain.channel.size =
      (fedAll oneByOne opened).chain.channel.size := by
    decide +kernel
  have hweighed := hsame inPairs oneByOne withoutOverrun_inPairs withoutOverrun_oneByOne rfl hsize
  refine ⟨hlaw inPairs withoutOverrun_inPairs, hweighed.2.1, ?_, ?_⟩ <;> decide +kernel

end Core

end LoadCell
