import Mathlib.Algebra.Order.Ring.Int
import Mathlib.Data.Finset.Lattice.Fold
import Mathlib.Order.Lattice.Nat
import Meshconf.Transition.Run

/-! # The audio mixer

Every message extends the buffer of its peer and then triggers at most one mix, as
soon as any peer has a full chunk. The others are padded with silence. The output
keeps pace with the peers exactly as long as, at every mix, some peer has more
samples in its buffer than the silence that has been mixed in its place.
-/

namespace Meshconf.Audio

variable {P S : Type*} [DecidableEq P]

/-- Samples of one chunk: 20 ms at 48 kHz. -/
def mixSize : ℕ := 960

/-- The buffer of a peer, with the number of samples taken out of it so far. -/
structure PeerBuffer (P S : Type*) where
  peer : P
  samples : List S
  taken : ℕ := 0

structure AudioMixer (P S : Type*) where
  peerBuffers : List (PeerBuffer P S) := []
  /-- The chunks handed to the playback channel, which may refuse any of them. -/
  chunks : List (List S) := []

/-- Extend the buffer of a peer, creating it if needed. -/
def extend (peer : P) (samples : List S) : List (PeerBuffer P S) → List (PeerBuffer P S)
  | [] => [{ peer, samples }]
  | b :: bs =>
    if b.peer = peer then { b with samples := b.samples ++ samples } :: bs
    else b :: extend peer samples bs

/-- Add samples to the front of a chunk. -/
def addSamples [Add S] : List S → List S → List S
  | m :: ms, s :: ss => (m + s) :: addSamples ms ss
  | ms, _ => ms

def PeerBuffer.drain (b : PeerBuffer P S) : PeerBuffer P S :=
  let n := min b.samples.length mixSize
  { b with samples := b.samples.drop n, taken := b.taken + n }

def anyReady (bs : List (PeerBuffer P S)) : Bool :=
  bs.any fun b => decide (mixSize ≤ b.samples.length)

variable [Add S] [Zero S]

/-- The sum of the first chunk of every buffer, clipped. -/
def mix (softClip : S → S) (bs : List (PeerBuffer P S)) : List S :=
  (bs.foldl (fun mixed b => addSamples mixed (b.samples.take mixSize))
    (List.replicate mixSize 0)).map softClip

def AudioMixer.tryMix (softClip : S → S) (m : AudioMixer P S) : AudioMixer P S :=
  if anyReady m.peerBuffers then
    { peerBuffers := m.peerBuffers.map PeerBuffer.drain
      chunks := m.chunks ++ [mix softClip m.peerBuffers] }
  else m

def AudioMixer.receive (softClip : S → S) (m : AudioMixer P S) (msg : P × List S) :
    AudioMixer P S :=
  tryMix softClip { m with peerBuffers := extend msg.1 msg.2 m.peerBuffers }

/-- The mixer after the given messages. -/
def run (softClip : S → S) (msgs : List (P × List S)) : AudioMixer P S :=
  msgs.foldl (AudioMixer.receive softClip) {}

/-- The chunks that the playback channel takes. -/
def played (accepts : ℕ → Bool) (chunks : List (List S)) : List (List S) :=
  (chunks.zipIdx.filter fun c => accepts c.2).map Prod.fst

/-! ## Accounting -/

/-- The samples that a peer has delivered. -/
def delivered (msgs : List (P × List S)) (p : P) : ℕ :=
  (msgs.map fun msg => if msg.1 = p then msg.2.length else 0).sum

/-- The chunks that the samples of a peer fill, the last one maybe in part. -/
def frames (msgs : List (P × List S)) (p : P) : ℕ := (delivered msgs p + (mixSize - 1)) / mixSize

def maxFrames (msgs : List (P × List S)) : ℕ := (msgs.map Prod.fst).toFinset.sup (frames msgs)

def buffered (bs : List (PeerBuffer P S)) (p : P) : ℕ :=
  (bs.find? (·.peer = p)).elim 0 (·.samples.length)

def taken (bs : List (PeerBuffer P S)) (p : P) : ℕ :=
  (bs.find? (·.peer = p)).elim 0 PeerBuffer.taken

/-- The silence mixed in place of a peer in the chunks so far. -/
def padding (m : AudioMixer P S) (p : P) : ℕ := mixSize * m.chunks.length - taken m.peerBuffers p

/-- If the message makes the mixer mix, some peer has more buffered than its padding. -/
def Covered (softClip : S → S) (before : List (P × List S)) (msg : P × List S) : Prop :=
  let bs := extend msg.1 msg.2 (run softClip before).peerBuffers
  anyReady bs → ∃ p, padding (run softClip before) p < buffered bs p

section

omit [Add S] [Zero S]

@[simp] theorem buffered_nil (p : P) : buffered ([] : List (PeerBuffer P S)) p = 0 := rfl

@[simp] theorem taken_nil (p : P) : taken ([] : List (PeerBuffer P S)) p = 0 := rfl

@[simp] theorem buffered_cons (b : PeerBuffer P S) (bs : List (PeerBuffer P S)) (p : P) :
    buffered (b :: bs) p = if b.peer = p then b.samples.length else buffered bs p := by
  by_cases h : b.peer = p <;> simp [buffered, h]

@[simp] theorem taken_cons (b : PeerBuffer P S) (bs : List (PeerBuffer P S)) (p : P) :
    taken (b :: bs) p = if b.peer = p then b.taken else taken bs p := by
  by_cases h : b.peer = p <;> simp [taken, h]

theorem buffered_extend (q p : P) (samples : List S) (bs : List (PeerBuffer P S)) :
    buffered (extend q samples bs) p = buffered bs p + if q = p then samples.length else 0 := by
  induction bs with
  | nil => simp [extend]
  | cons b bs ih =>
    by_cases hq : b.peer = q
    · subst hq
      by_cases hp : b.peer = p <;> simp [extend, hp]
    · by_cases hp : b.peer = p
      · subst hp
        simp [extend, hq, Ne.symm hq]
      · simp [extend, hq, hp, ih]

theorem taken_extend (q p : P) (samples : List S) (bs : List (PeerBuffer P S)) :
    taken (extend q samples bs) p = taken bs p := by
  induction bs with
  | nil => simp [extend]
  | cons b bs ih => by_cases hq : b.peer = q <;> simp [extend, hq, ih]

theorem buffered_drain (bs : List (PeerBuffer P S)) (p : P) :
    buffered (bs.map PeerBuffer.drain) p = buffered bs p - mixSize := by
  induction bs with
  | nil => simp
  | cons b bs ih =>
    by_cases hp : b.peer = p
    · simp only [List.map_cons, buffered_cons, PeerBuffer.drain, hp, if_true, List.length_drop]
      omega
    · simpa [PeerBuffer.drain, hp] using ih

theorem taken_drain (bs : List (PeerBuffer P S)) (p : P) :
    taken (bs.map PeerBuffer.drain) p = taken bs p + min (buffered bs p) mixSize := by
  induction bs with
  | nil => simp
  | cons b bs ih =>
    by_cases hp : b.peer = p
    · simp [PeerBuffer.drain, hp]
    · simpa [PeerBuffer.drain, hp] using ih

theorem delivered_concat (msgs : List (P × List S)) (msg : P × List S) (p : P) :
    delivered (msgs ++ [msg]) p =
      delivered msgs p + if msg.1 = p then msg.2.length else 0 := by
  simp [delivered]

theorem mem_of_delivered_pos {msgs : List (P × List S)} {p : P} (h : 0 < delivered msgs p) :
    p ∈ (msgs.map Prod.fst).toFinset := by
  induction msgs with
  | nil => simp [delivered] at h
  | cons msg msgs ih =>
    by_cases hp : msg.1 = p
    · simp [hp]
    · have hrest : 0 < delivered msgs p := by simpa [delivered, hp] using h
      simpa using Or.inr (by simpa using ih hrest)

/-- `n` chunks are fewer than some peer fills exactly if a peer has delivered more samples. -/
theorem lt_maxFrames {msgs : List (P × List S)} {n : ℕ} :
    n < maxFrames msgs ↔ ∃ p, mixSize * n < delivered msgs p := by
  have hframes : ∀ p, n < frames msgs p ↔ mixSize * n < delivered msgs p := by
    intro p
    simp only [frames, mixSize]
    omega
  rw [maxFrames, Finset.lt_sup_iff]
  constructor
  · rintro ⟨p, -, hp⟩
    exact ⟨p, (hframes p).mp hp⟩
  · rintro ⟨p, hp⟩
    exact ⟨p, mem_of_delivered_pos (by omega), (hframes p).mpr hp⟩

theorem length_played_le (accepts : ℕ → Bool) (chunks : List (List S)) :
    (played accepts chunks).length ≤ chunks.length := by
  simpa [played] using List.length_filter_le (fun c => accepts c.2) chunks.zipIdx

theorem length_played_true (chunks : List (List S)) :
    (played (fun _ => true) chunks).length = chunks.length := by
  simp [played]

end

/-- What the buffers account for after the messages `msgs`. -/
structure Accounted (msgs : List (P × List S)) (m : AudioMixer P S) : Prop where
  delivered : ∀ p, taken m.peerBuffers p + buffered m.peerBuffers p = delivered msgs p
  taken_le : ∀ p, taken m.peerBuffers p ≤ mixSize * m.chunks.length

theorem run_concat (softClip : S → S) (msgs : List (P × List S)) (msg : P × List S) :
    run softClip (msgs ++ [msg]) = (run softClip msgs).receive softClip msg := by
  simp [run]

/-- A message adds a chunk exactly if some buffer has become full. -/
theorem length_chunks_receive (softClip : S → S) (m : AudioMixer P S) (msg : P × List S) :
    (m.receive softClip msg).chunks.length =
      m.chunks.length + if anyReady (extend msg.1 msg.2 m.peerBuffers) then 1 else 0 := by
  simp only [AudioMixer.receive, AudioMixer.tryMix]
  split <;> simp

omit [Add S] [Zero S] in
theorem Accounted.extend {msgs : List (P × List S)} {m : AudioMixer P S} (h : Accounted msgs m)
    (msg : P × List S) :
    Accounted (msgs ++ [msg]) { m with peerBuffers := extend msg.1 msg.2 m.peerBuffers } where
  delivered p := by
    rw [delivered_concat, ← h.delivered p, taken_extend, buffered_extend]
    omega
  taken_le p := by
    rw [taken_extend]
    exact h.taken_le p

theorem Accounted.tryMix {msgs : List (P × List S)} {m : AudioMixer P S} (h : Accounted msgs m)
    (softClip : S → S) : Accounted msgs (m.tryMix softClip) := by
  unfold AudioMixer.tryMix
  split
  · constructor
    · intro p
      have := h.delivered p
      simp only [taken_drain, buffered_drain]
      omega
    · intro p
      have := h.taken_le p
      simp only [taken_drain, List.length_append, List.length_singleton, Nat.mul_add]
      omega
  · exact h

theorem accounted_run (softClip : S → S) (msgs : List (P × List S)) :
    Accounted msgs (run softClip msgs) := by
  induction msgs using List.reverseRecOn with
  | nil => exact ⟨fun _ => rfl, fun _ => Nat.zero_le _⟩
  | append_singleton msgs msg ih =>
    rw [run_concat]
    exact (ih.extend msg).tryMix softClip

theorem covered_iff (softClip : S → S) (msgs : List (P × List S)) (msg : P × List S) :
    Covered softClip msgs msg ↔
      (anyReady (extend msg.1 msg.2 (run softClip msgs).peerBuffers) →
        (run softClip msgs).chunks.length < maxFrames (msgs ++ [msg])) := by
  have hrun := accounted_run softClip msgs
  have hext := hrun.extend msg
  have key : ∀ p, padding (run softClip msgs) p <
      buffered (extend msg.1 msg.2 (run softClip msgs).peerBuffers) p ↔
        mixSize * (run softClip msgs).chunks.length < delivered (msgs ++ [msg]) p := by
    intro p
    have htaken := hrun.taken_le p
    have hsum : taken (run softClip msgs).peerBuffers p +
        buffered (extend msg.1 msg.2 (run softClip msgs).peerBuffers) p =
          delivered (msgs ++ [msg]) p := by
      simpa only [taken_extend] using hext.delivered p
    unfold padding
    omega
  simp only [Covered, lt_maxFrames, key]

omit [Add S] [Zero S] in
theorem maxFrames_le_concat (msgs : List (P × List S)) (msg : P × List S) :
    maxFrames msgs ≤ maxFrames (msgs ++ [msg]) := by
  apply le_of_forall_lt
  intro n hn
  obtain ⟨p, hp⟩ := lt_maxFrames.mp hn
  refine lt_maxFrames.mpr ⟨p, ?_⟩
  rw [delivered_concat]
  omega

/-- A message keeps the output within bounds exactly if its mix is covered. -/
theorem chunks_le_concat_iff (softClip : S → S) {msgs : List (P × List S)}
    (h : (run softClip msgs).chunks.length ≤ maxFrames msgs) (msg : P × List S) :
    (run softClip (msgs ++ [msg])).chunks.length ≤ maxFrames (msgs ++ [msg]) ↔
      Covered softClip msgs msg := by
  have hle := h.trans (maxFrames_le_concat msgs msg)
  rw [covered_iff, run_concat, length_chunks_receive]
  cases anyReady (extend msg.1 msg.2 (run softClip msgs).peerBuffers) with
  | true => simp only [if_true, forall_const, Nat.succ_le_iff]
  | false => simpa using hle

theorem chunks_le_iff (softClip : S → S) (msgs : List (P × List S)) :
    (∀ pre, pre <+: msgs → (run softClip pre).chunks.length ≤ maxFrames pre) ↔
      History.Each (Covered softClip) msgs := by
  induction msgs using List.reverseRecOn with
  | nil =>
    refine iff_of_true (fun pre hpre => ?_) History.each_nil
    obtain rfl := List.prefix_nil.mp hpre
    exact Nat.zero_le _
  | append_singleton msgs msg ih =>
    rw [History.each_snoc, ← ih]
    constructor
    · intro h
      have hold : ∀ pre, pre <+: msgs → (run softClip pre).chunks.length ≤ maxFrames pre :=
        fun pre hpre => h pre (hpre.trans (List.prefix_append _ _))
      exact ⟨hold, (chunks_le_concat_iff softClip (hold msgs List.prefix_rfl) msg).mp
        (h _ List.prefix_rfl)⟩
    · rintro ⟨hold, hnew⟩ pre hpre
      rcases List.prefix_concat_iff.mp hpre with rfl | hpre
      · exact (chunks_le_concat_iff softClip (hold msgs List.prefix_rfl) msg).mpr hnew
      · exact hold pre hpre

/--
The chunks that playback takes never exceed what the busiest peer fills, after any prefix of the
messages and whatever playback refuses, exactly if every mix is covered by some peer.
-/
theorem played_le_iff (softClip : S → S) (msgs : List (P × List S)) :
    (∀ pre, pre <+: msgs → ∀ accepts,
      (played accepts (run softClip pre).chunks).length ≤ maxFrames pre) ↔
      History.Each (Covered softClip) msgs := by
  rw [← chunks_le_iff]
  constructor
  · intro h pre hpre
    simpa only [length_played_true] using h pre hpre fun _ => true
  · intro h pre hpre accepts
    exact (length_played_le accepts _).trans (h pre hpre)

/-- Two peers that deliver a chunk each make two chunks of output. -/
theorem not_played_le :
    ¬ ∀ (msgs : List (ℕ × List ℤ)), (∀ msg ∈ msgs, msg.2.length ≤ mixSize) →
      ∀ pre, pre <+: msgs → ∀ accepts,
        (played accepts (run id pre).chunks).length ≤ maxFrames pre := by
  intro h
  let chunk : List ℤ := List.replicate mixSize 0
  have hlen : chunk.length = mixSize := List.length_replicate
  have hle := h [(1, chunk), (2, chunk)] (by simp [hlen]) _ List.prefix_rfl fun _ => true
  have hchunks : (run id [(1, chunk), (2, chunk)]).chunks.length = 2 := by
    simp [run, AudioMixer.receive, AudioMixer.tryMix, extend, anyReady, PeerBuffer.drain, hlen]
  rw [length_played_true, hchunks] at hle
  obtain ⟨p, hp⟩ := lt_maxFrames.mp hle
  have hp' : mixSize < (if 1 = p then mixSize else 0) + if 2 = p then mixSize else 0 := by
    simpa [delivered, hlen] using hp
  split_ifs at hp' <;> omega

end Meshconf.Audio
