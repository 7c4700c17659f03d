import Mathlib.Algebra.Order.Field.Rat
import Mathlib.Tactic.LinearCombination
import Mathlib.Tactic.Ring
import Meshconf.Control.Stream
import Meshconf.Video.Order

/-! # The reported loss of video frames

The dispatcher counts a frame as received when it hands it on, and dispatcher and decoder
count it as dropped wherever that happens. A report takes the sum of both counters for the
number of frames, so a frame that was handed on and dropped later enters it twice, and one
that shows a gap three times.
-/

namespace Meshconf.Video

open Bytes Protocol Transition Control

/-- What became of a frame. -/
inductive Fate
  /-- It was stopped as old. -/
  | stopped
  /-- It was handed on, and the channel did not take it. -/
  | refused
  /-- It was handed on, and the decoder took it. -/
  | processed (gap dropped : Bool)
  deriving DecidableEq, Repr

namespace Fate

def handedOn : Fate → Bool
  | .stopped => false
  | _ => true

def dropped : Fate → Bool
  | .processed _ dropped => dropped
  | _ => true

/-- The decoder found a gap in front of it. -/
def gap : Fate → Bool
  | .processed gap _ => gap
  | _ => false

theorem dropped_of_not_handedOn (f : Fate) (h : f.handedOn = false) : f.dropped := by
  cases f with
  | stopped => rfl
  | refused => rfl
  | processed gap dropped => cases h

/-- How often the drop counter was incremented for it. -/
def increments (f : Fate) : ℕ := f.dropped.toNat + f.gap.toNat

end Fate

/-! ## The fate of a packet in the decoder -/

/-- The packet is not the successor of the last decoded one. -/
def DecoderState.detectsGap (s : DecoderState) (obj : MediaObject) : Bool :=
  s.gotKeyframe && !obj.isKeyframe && decide (obj.groupId ≠ s.lastDecodedGroup + 1)

/-- The round did not bring its packet to the compositor, except when the codec keeps it. -/
def Iteration.dropped (accepts : Bool) : Iteration → Bool
  | .decoded call => call.failed || (call.offered.isSome && !accepts)
  | _ => true

/-- The fate of the packet in a round of the loop. -/
def DecoderState.fate (s : DecoderState) (obj : MediaObject) (o : Outcomes) : Fate :=
  .processed (s.detectsGap obj) ((s.receive obj o).2.dropped o.compositorAccepts)

namespace DecoderState

variable {s t : DecoderState} {obj : MediaObject} {o : Outcomes}

@[simp] theorem videoDrops_drop (s : DecoderState) : s.drop.videoDrops = s.videoDrops + 1 := rfl

theorem videoDrops_detectGap :
    (s.detectGap obj).videoDrops = s.videoDrops + (s.detectsGap obj).toNat := by
  unfold detectGap detectsGap
  cases s.gotKeyframe && !obj.isKeyframe with
  | false => rfl
  | true =>
    by_cases hgroup : obj.groupId ≠ s.lastDecodedGroup + 1
    · simp [hgroup, drop]
    · simp [hgroup]

theorem videoDrops_passGate (h : s.passGate obj = some t) : t.videoDrops = s.videoDrops := by
  unfold passGate at h
  split_ifs at h
  · obtain rfl := Option.some.inj h
    rfl
  · obtain rfl := Option.some.inj h
    rfl

@[simp] theorem videoDrops_raiseKeyframeGroup :
    (s.raiseKeyframeGroup obj).videoDrops = s.videoDrops := by
  unfold raiseKeyframeGroup
  split <;> rfl

theorem videoDrops_refreshDecoder {create : Except String Unit}
    (h : s.refreshDecoder obj create = .ok t) : t.videoDrops = s.videoDrops := by
  unfold refreshDecoder at h
  split_ifs at h
  · cases hd : HevcDecoder.newFromAnnexB obj.payload create s.sessions with
    | error e =>
      rw [hd] at h
      cases h
    | ok d =>
      rw [hd] at h
      obtain rfl := Except.ok.inj h
      rfl
  · obtain rfl := Except.ok.inj h
    rfl

theorem videoDrops_decodePacket (s : DecoderState) (dec : HevcDecoder) (obj : MediaObject)
    (o : Outcomes) : (s.decodePacket dec obj o).1.videoDrops =
      s.videoDrops + ((s.decodePacket dec obj o).2.dropped o.compositorAccepts).toNat := by
  unfold decodePacket
  rcases dec.decodeAnnexB obj.payload o.decode with ⟨_ | _ | frame, dec'⟩
  · rfl
  · rfl
  · cases h : o.compositorAccepts with
    | true => simp [Iteration.dropped]
    | false => simp [Iteration.dropped]

/-- A packet that shows a gap is held back by the gate as well. -/
theorem passGate_of_detectsGap (h : s.detectsGap obj) : (s.detectGap obj).passGate obj = none := by
  simp only [detectsGap, Bool.and_eq_true, Bool.not_eq_true', decide_eq_true_eq] at h
  obtain ⟨⟨hgot, hkey⟩, hgroup⟩ := h
  simp [detectGap, passGate, hgot, hkey, hgroup, drop]

theorem dropped_of_detectsGap (h : s.detectsGap obj) :
    (s.receive obj o).2.dropped o.compositorAccepts := by
  rw [receive, passGate_of_detectsGap h]
  rfl

/-- A round counts its packet once if it drops it, and once more for a gap. -/
theorem videoDrops_receive (s : DecoderState) (obj : MediaObject) (o : Outcomes) :
    (s.receive obj o).1.videoDrops = s.videoDrops + (s.fate obj o).increments := by
  have hgap : (s.detectGap obj).videoDrops = s.videoDrops + (s.detectsGap obj).toNat :=
    videoDrops_detectGap
  suffices h : (s.receive obj o).1.videoDrops =
      (s.detectGap obj).videoDrops + ((s.receive obj o).2.dropped o.compositorAccepts).toNat by
    simp only [Fate.increments, fate, Fate.dropped, Fate.gap]
    omega
  unfold receive
  cases hgate : (s.detectGap obj).passGate obj with
  | none => rfl
  | some t =>
    have ht := videoDrops_passGate hgate
    cases href : (t.raiseKeyframeGroup obj).refreshDecoder obj o.create with
    | error e =>
      simp [Iteration.dropped, href, ht]
    | ok u =>
      have hu := videoDrops_refreshDecoder href
      cases hd : u.decoder with
      | none => simp [Iteration.dropped, href, hd, hu, ht]
      | some dec =>
        simp only [href, hd, videoDrops_decodePacket, hu, videoDrops_raiseKeyframeGroup, ht]

end DecoderState

/-! ## Reports -/

namespace Receiver

/-- The fate that the next operation of a task settles, if it does. -/
def settles (r : Receiver) : Progress → Option Fate
  | .header h _ => if h.groupId < r.latestKeyframe then some .stopped else none
  | .marked _ => if r.hasRoom then none else some .refused
  | _ => none

def fate (r : Receiver) : Receiver.Action → Option Fate
  | .task i => r.tasks[i]?.bind fun t => r.settles t.progress
  | .decode o => r.queue.head?.map fun obj => r.decoder.state.fate obj o
  | _ => none

/-- The drop counter, which dispatcher and decoder share. -/
def videoDrops (r : Receiver) : ℕ := r.drops + r.decoder.state.videoDrops

end Receiver

/-- A report, with the fates of the frames that were handled since the one before it. -/
structure Reported where
  msg : ControlMessage
  fates : List Fate

/-- The receive path of a peer and the task that reports its losses. -/
structure Monitor where
  receiver : Receiver := {}
  sender : FeedbackSender := {}
  /-- The fates settled since the last report. -/
  fates : List Fate := []
  reports : List Reported := []

namespace Monitor

inductive Action
  /-- A stream that the peer has opened, whatever it holds. -/
  | accept (f : SentFrame) (stream : Stream)
  | receive (a : Receiver.Action)
  | report

def step (m : Monitor) : Action → Option Monitor
  | .accept f stream =>
    some { m with receiver := { m.receiver with
      tasks := m.receiver.tasks ++ [⟨f, .spawned stream⟩] } }
  | .receive a =>
    (m.receiver.step a).map fun receiver =>
      { m with receiver, fates := m.fates ++ (m.receiver.fate a).toList }
  | .report =>
    match m.sender.report m.receiver.received m.receiver.videoDrops with
    | (msg, sender) =>
      some { m with sender, fates := [], reports := m.reports ++ [⟨msg, m.fates⟩] }

/-- All that was handed on has been processed at a report. -/
def Processed (m : Monitor) : Action → Prop
  | .report => m.receiver.queue = []
  | _ => True

end Monitor

/-! ## What the fates add up to -/

def handedOn (fates : List Fate) : ℕ := fates.countP Fate.handedOn

def droppedFrames (fates : List Fate) : ℕ := fates.countP Fate.dropped

def gaps (fates : List Fate) : ℕ := fates.countP Fate.gap

def increments (fates : List Fate) : ℕ := (fates.map Fate.increments).sum

/-- Frames that were handed on and dropped afterwards. -/
def late (fates : List Fate) : ℕ := fates.countP fun f => f.handedOn && f.dropped

/-- The fraction of the handled frames that were dropped. -/
def lossFraction (fates : List Fate) : ℚ :=
  if 0 < fates.length then droppedFrames fates / fates.length else 0

/-- Only frames with a fate that the decoder can settle. -/
def Sound (fates : List Fate) : Prop := ∀ f ∈ fates, f.gap → f.dropped

theorem increments_eq (fates : List Fate) :
    increments fates = droppedFrames fates + gaps fates := by
  induction fates with
  | nil => rfl
  | cons f fates ih =>
    simp only [increments, droppedFrames, gaps, List.map_cons, List.sum_cons, List.countP_cons,
      Fate.increments] at ih ⊢
    rw [ih]
    cases f.dropped <;> cases f.gap <;> simp <;> omega

/-- A frame that is not handed on is stopped, which counts as dropped. -/
theorem length_add_late (fates : List Fate) :
    fates.length + late fates = droppedFrames fates + handedOn fates := by
  induction fates with
  | nil => rfl
  | cons f fates ih =>
    simp only [late, droppedFrames, handedOn, List.length_cons, List.countP_cons] at ih ⊢
    have hf := f.dropped_of_not_handedOn
    cases hh : f.handedOn <;> cases hd : f.dropped <;> simp_all <;> omega

theorem late_le_handedOn (fates : List Fate) : late fates ≤ handedOn fates := by
  refine List.countP_mono_left fun f _ h => ?_
  exact (Bool.and_eq_true _ _ ▸ h).1

theorem Sound.gaps_le_late {fates : List Fate} (h : Sound fates) : gaps fates ≤ late fates := by
  refine List.countP_mono_left fun f hf hgap => ?_
  have hdropped := h f hf hgap
  cases f with
  | processed gap dropped => simpa [Fate.handedOn] using hdropped
  | _ => exact absurd hgap (by simp [Fate.gap])

theorem late_eq_zero {fates : List Fate} :
    late fates = 0 ↔ ∀ f ∈ fates, f.handedOn → f.dropped = false := by
  simp [late, List.countP_eq_zero]

/-! ## One report -/

namespace Reported

/-- The fraction in the report is the fraction of the frames that were lost. -/
def Exact (r : Reported) : Prop :=
  ∃ received dropped jitterUs,
    r.msg = .congestionFeedback received dropped (lossFraction r.fates) jitterUs

/-- Each dropped frame is counted once. -/
def CountedOnce (r : Reported) : Prop :=
  ∃ received fractionLost jitterUs,
    r.msg = .congestionFeedback received (droppedFrames r.fates) fractionLost jitterUs

/-- No frame was dropped after it had been handed on. -/
def NoneLate (r : Reported) : Prop := ∀ f ∈ r.fates, f.handedOn → f.dropped = false

/-- What is counted too often above the line and below it cancels out. -/
def Balanced (r : Reported) : Prop :=
  gaps r.fates * handedOn r.fates = late r.fates * increments r.fates

end Reported

theorem late_le_droppedFrames (fates : List Fate) : late fates ≤ droppedFrames fates := by
  refine List.countP_mono_left fun f _ h => ?_
  exact (Bool.and_eq_true _ _ ▸ h).2

/-- The fraction that a report gives for the counts of its interval. -/
def reportedFraction (received dropped : ℕ) : ℚ :=
  if 0 < received + dropped then dropped / (received + dropped : ℕ) else 0

/--
With `l` of `h` frames lost after they were handed on, `d` lost in all, `g` of them counted twice,
and `n` frames.
-/
theorem fraction_eq_iff {d g h l n : ℕ} (hn : n + l = d + h) (hd : l ≤ d) (hh : l ≤ h)
    (hg : g ≤ l) :
    reportedFraction h (d + g) = (if 0 < n then (d : ℚ) / n else 0) ↔ g * h = l * (d + g) := by
  have hn' : (n : ℚ) + l = d + h := by exact_mod_cast hn
  by_cases hpos : 0 < n
  · have htotal : 0 < h + (d + g) := by omega
    rw [reportedFraction, if_pos htotal, if_pos hpos, div_eq_div_iff (by positivity) (by positivity)]
    have hcast : g * h = l * (d + g) ↔ (g : ℚ) * h = l * (d + g) := by exact_mod_cast Iff.rfl
    rw [hcast]
    push_cast
    constructor
    · intro heq
      linear_combination heq - (d + g : ℚ) * hn'
    · intro heq
      linear_combination heq + (d + g : ℚ) * hn'
  · obtain ⟨rfl, rfl, rfl, rfl, rfl⟩ : n = 0 ∧ h = 0 ∧ l = 0 ∧ d = 0 ∧ g = 0 := by omega
    simp [reportedFraction]

theorem report_add (f : FeedbackSender) (a b : ℕ) :
    (f.report (f.prevReceived + a) (f.prevDropped + b)).1 =
      .congestionFeedback a b (reportedFraction a b) 0 := by
  simp [FeedbackSender.report, reportedFraction]

namespace Reported

/-- The report counts what the fates of its frames say. -/
structure Faithful (r : Reported) : Prop where
  sound : Sound r.fates
  msg : r.msg = .congestionFeedback (handedOn r.fates) (increments r.fates)
    (reportedFraction (handedOn r.fates) (increments r.fates)) 0

theorem Faithful.exact_iff {r : Reported} (h : r.Faithful) : r.Exact ↔ r.Balanced := by
  have hfraction := fraction_eq_iff (length_add_late r.fates) (late_le_droppedFrames r.fates)
    (late_le_handedOn r.fates) h.sound.gaps_le_late
  rw [← increments_eq] at hfraction
  rw [Balanced, ← hfraction]
  constructor
  · rintro ⟨received, dropped, jitterUs, hmsg⟩
    rw [h.msg] at hmsg
    exact (ControlMessage.congestionFeedback.inj hmsg).2.2.1
  · intro heq
    rw [Exact, lossFraction, ← heq]
    exact ⟨_, _, _, h.msg⟩

theorem Faithful.countedOnce_iff {r : Reported} (h : r.Faithful) :
    r.CountedOnce ↔ gaps r.fates = 0 := by
  have hinc := increments_eq r.fates
  constructor
  · rintro ⟨received, fractionLost, jitterUs, hmsg⟩
    rw [h.msg] at hmsg
    have hdropped := (ControlMessage.congestionFeedback.inj hmsg).2.1
    omega
  · intro hgaps
    rw [CountedOnce, show droppedFrames r.fates = increments r.fates by omega]
    exact ⟨_, _, _, h.msg⟩

/-- With every frame counted once, what was handed on enters the denominator twice if dropped. -/
theorem Faithful.exact_and_countedOnce_iff {r : Reported} (h : r.Faithful) :
    r.Exact ∧ r.CountedOnce ↔ r.NoneLate := by
  rw [h.exact_iff, h.countedOnce_iff, NoneLate, ← late_eq_zero, Balanced]
  have hinc := increments_eq r.fates
  have hlate := late_le_droppedFrames r.fates
  have hgaps := h.sound.gaps_le_late
  constructor
  · rintro ⟨hbalanced, hzero⟩
    rw [hzero, zero_mul, eq_comm, Nat.mul_eq_zero] at hbalanced
    omega
  · intro hzero
    have hgap : gaps r.fates = 0 := by omega
    rw [hzero, hgap, zero_mul, zero_mul]
    exact ⟨rfl, rfl⟩

end Reported

/-! ## Runs -/

theorem sound_append {fates fates' : List Fate} (h : Sound fates) (h' : Sound fates') :
    Sound (fates ++ fates') := by
  intro f hf
  rcases List.mem_append.mp hf with hf | hf
  · exact h f hf
  · exact h' f hf

namespace Receiver

/-- How an operation changes the counters, given the fate that it settles. -/
structure Counts (r r' : Receiver) (fate : Option Fate) : Prop where
  received : r'.received + r.queue.length =
    r.received + r'.queue.length + handedOn fate.toList
  dropped : r'.videoDrops = r.videoDrops + increments fate.toList
  sound : Sound fate.toList

theorem Counts.quiet {r r' : Receiver} (hreceived : r'.received = r.received)
    (hqueue : r'.queue = r.queue) (hdrops : r'.videoDrops = r.videoDrops) : Counts r r' none where
  received := by simp [hreceived, hqueue, handedOn]
  dropped := by simp [hdrops, increments]
  sound := by simp [Sound]

theorem counts_handleVideoStream (r : Receiver) (p : Progress) :
    Counts r (r.handleVideoStream p).1 (r.settles p) := by
  cases p with
  | spawned s => exact .quiet rfl rfl rfl
  | accepted s =>
    rcases hr : readSubgroupHeader.exec s with ⟨e | h, s'⟩
    · simp only [handleVideoStream, hr]
      exact .quiet rfl rfl rfl
    · simp only [handleVideoStream, hr]
      exact .quiet rfl rfl rfl
  | header h s =>
    unfold handleVideoStream settles
    dsimp only
    split
    · refine ⟨rfl, ?_, by simp [Sound, Fate.gap]⟩
      simp [videoDrops, increments, Fate.increments, Fate.dropped, Fate.gap]
      omega
    · exact .quiet rfl rfl rfl
  | checked h s =>
    rcases hr : readObject.exec s with ⟨e | _ | o, s'⟩
    · simp only [handleVideoStream, hr]
      exact .quiet rfl rfl rfl
    · simp only [handleVideoStream, hr]
      exact .quiet rfl rfl rfl
    · simp only [handleVideoStream, hr]
      exact .quiet rfl rfl rfl
  | read obj =>
    unfold handleVideoStream
    dsimp only
    split <;> exact .quiet rfl rfl rfl
  | marked obj =>
    unfold handleVideoStream settles trySend
    dsimp only
    have hroom : ({ r with received := r.received + 1 } : Receiver).hasRoom = r.hasRoom := rfl
    rw [hroom]
    cases r.hasRoom with
    | true =>
      refine ⟨?_, rfl, by simp [Sound]⟩
      simp [handedOn]
      omega
    | false =>
      refine ⟨?_, ?_, by simp [Sound, Fate.gap]⟩
      · simp [handedOn, Fate.handedOn]
        omega
      · simp [videoDrops, increments, Fate.increments, Fate.dropped, Fate.gap]
        omega

theorem counts_step {r r' : Receiver} {a : Action} (h : r.step a = some r') :
    Counts r r' (r.fate a) := by
  cases a with
  | task i =>
    obtain ⟨t, ht, rfl⟩ := Option.map_eq_some_iff.mp h
    have hcounts := counts_handleVideoStream r t.progress
    have hfate : r.fate (.task i) = r.settles t.progress := by rw [fate, ht, Option.bind_some]
    rw [hfate]
    exact ⟨hcounts.received, hcounts.dropped, hcounts.sound⟩
  | decode o =>
    unfold step at h
    dsimp only at h
    split at h
    · rename_i obj queue _ hq
      obtain rfl := Option.some.inj h
      have hfate : r.fate (.decode o) = some (r.decoder.state.fate obj o) := by
        rw [fate, hq, List.head?_cons, Option.map_some]
      rw [hfate]
      refine ⟨?_, ?_, ?_⟩
      · simp [hq, handedOn, DecoderState.fate, Fate.handedOn]
        omega
      · simp [videoDrops, DecoderRun.receive, DecoderState.videoDrops_receive, increments]
        omega
      · intro f hf
        obtain rfl := Option.some.inj (Option.mem_toList.mp hf)
        exact DecoderState.dropped_of_detectsGap
    · cases h
  | cancel =>
    obtain rfl := Option.some.inj h
    exact .quiet rfl rfl rfl
  | stopDecoder =>
    unfold step at h
    dsimp only at h
    split_ifs at h
    obtain rfl := Option.some.inj h
    exact .quiet rfl rfl rfl

end Receiver

namespace Monitor

/-- The totals are those of the last report and what the fates since then add to them. -/
structure Inv (m : Monitor) : Prop where
  received : m.receiver.received =
    m.sender.prevReceived + handedOn m.fates + m.receiver.queue.length
  dropped : m.receiver.videoDrops = m.sender.prevDropped + increments m.fates
  sound : Sound m.fates
  reports : ∀ r ∈ m.reports, r.Faithful

theorem inv_empty : Inv {} where
  received := rfl
  dropped := rfl
  sound := by simp [Sound]
  reports := by simp

theorem Inv.receive {m : Monitor} (h : m.Inv) {a : Receiver.Action} {r : Receiver}
    (hr : m.receiver.step a = some r) :
    Inv { m with receiver := r, fates := m.fates ++ (m.receiver.fate a).toList } := by
  have hcounts := Receiver.counts_step hr
  have hreceived := h.received
  have hdropped := h.dropped
  constructor
  · have := hcounts.received
    simp only [handedOn, List.countP_append] at hreceived this ⊢
    omega
  · have := hcounts.dropped
    simp only [increments, List.map_append, List.sum_append] at hdropped this ⊢
    omega
  · exact sound_append h.sound hcounts.sound
  · exact h.reports

theorem Inv.report {m : Monitor} (h : m.Inv) (hqueue : m.receiver.queue = []) :
    Reported.Faithful
      ⟨(m.sender.report m.receiver.received m.receiver.videoDrops).1, m.fates⟩ where
  sound := h.sound
  msg := by
    rw [h.received, h.dropped, hqueue]
    exact report_add _ _ _

theorem Inv.step {m m' : Monitor} {a : Action} (h : m.Inv) (hproc : m.Processed a)
    (hs : m.step a = some m') : m'.Inv := by
  cases a with
  | accept f stream =>
    obtain rfl := Option.some.inj hs
    exact ⟨h.received, h.dropped, h.sound, h.reports⟩
  | receive a =>
    obtain ⟨r, hr, rfl⟩ := Option.map_eq_some_iff.mp hs
    exact h.receive hr
  | report =>
    have hqueue : m.receiver.queue = [] := hproc
    obtain rfl := Option.some.inj hs
    constructor
    · simp [hqueue, handedOn]
    · simp [increments]
    · simp [Sound]
    · intro r hr
      rcases List.mem_append.mp hr with hr | hr
      · exact h.reports r hr
      · obtain rfl := List.mem_singleton.mp hr
        exact h.report hqueue

theorem faithful_of_run {as : List Action} {m : Monitor} (h : Run Monitor.step Processed {} as m) :
    ∀ r ∈ m.reports, r.Faithful :=
  (h.invariant (fun _ _ _ ht hproc hs => ht.step hproc hs) inv_empty).reports

/--
Whatever the peer sends and however it is decoded, a report is right exactly if none of its frames
was dropped after it had been handed on. The fraction alone may be right by coincidence.
-/
theorem reports_exact_iff {as : List Action} {m : Monitor}
    (h : Run Monitor.step Processed {} as m) :
    ∀ r ∈ m.reports, (r.Exact ∧ r.CountedOnce ↔ r.NoneLate) ∧ (r.Exact ↔ r.Balanced) := by
  intro r hr
  have hr := faithful_of_run h r hr
  exact ⟨hr.exact_and_countedOnce_iff, hr.exact_iff⟩

instance (m : Monitor) (a : Action) : Decidable (m.Processed a) := by
  cases a <;> unfold Processed <;> infer_instance

/-- A frame is read, handed on and decoded, and then a report is due. -/
def deliver (f : SentFrame) : List Action :=
  .accept f ⟨f.bytes, .finished, []⟩ :: List.replicate 6 (.receive (.task 0)) ++
    [.receive (.decode picture), .report]

/-- Group 7 follows group 5. -/
def keyframeThenGap : List Action :=
  deliver (keyframe 5 (by decide)) ++ deliver (delta 7 (by decide))

theorem fates_keyframeThenGap :
    ∃ m, Run Monitor.step Processed {} keyframeThenGap m ∧
      m.reports.map (·.fates) = [[.processed false false], [.processed true true]] := by
  obtain ⟨m, hm, hfates⟩ := Option.map_eq_some_iff.mp
    (by decide : (exec (guarded Monitor.step Processed) {} keyframeThenGap).map
      (fun m => m.reports.map (·.fates)) =
        some [[.processed false false], [.processed true true]])
  exact ⟨m, run_of_guarded hm, hfates⟩

theorem reports_exact_iff_keyframeThenGap :
    ∃ m, Run Monitor.step Processed {} keyframeThenGap m ∧ m.reports.length = 2 ∧
      ∀ r ∈ m.reports, (r.Exact ∧ r.CountedOnce ↔ r.NoneLate) ∧ (r.Exact ↔ r.Balanced) := by
  obtain ⟨m, hm, hfates⟩ := fates_keyframeThenGap
  have hlength := congrArg List.length hfates
  rw [List.length_map] at hlength
  exact ⟨m, hm, hlength, reports_exact_iff hm⟩

/-- One frame was received and lost, and the report makes it two of three. -/
theorem not_reports_exact :
    ¬ ∀ (as : List Action) (m : Monitor), Run Monitor.step Processed {} as m →
      ∀ r ∈ m.reports, r.Exact := by
  intro h
  obtain ⟨m, hm, hfates⟩ := fates_keyframeThenGap
  obtain ⟨r, hr, hgap⟩ : ∃ r ∈ m.reports, r.fates = [.processed true true] :=
    List.mem_map.mp (hfates ▸ by simp)
  have hbalanced := (faithful_of_run hm r hr).exact_iff.mp (h _ m hm r hr)
  rw [Reported.Balanced, hgap] at hbalanced
  exact absurd hbalanced (by decide)

end Monitor

end Meshconf.Video
