import Mathlib.Logic.Function.Basic
import Meshconf.Buffers.Pool
import Meshconf.Bytes.Pieces
import Meshconf.Transition.Run

/-! # Capture of the microphone

The engine calls the tap with as many samples as it likes. The tap keeps them until there
is a chunk for the encoder, and offers it to a bounded channel; the encoder may receive
between any two chunks of a call. The accumulator and the pool belong to the thread of the
call. The tap has this code twice, for samples that are converted and for those that need not be.
-/

namespace Meshconf.Audio

open Buffers Pieces Transition

/-- The samples of a chunk: 20 ms at 48 kHz. -/
def chunkSize : ℕ := 960

/-- Capacity of the channel to the encoder. -/
def captureCapacity : ℕ := 10

/-- What a thread keeps between two calls. -/
structure Tap (S : Type) where
  accum : List S := []
  pool : BufPool S := {}

structure Capture (S : Type) where
  taps : ℕ → Tap S := fun _ => {}
  channel : List (List S) := []
  /-- The encoder has dropped its end of the channel. -/
  closed : Bool := false
  /-- The chunks offered so far, each with its thread. -/
  offered : List (ℕ × List S) := []
  /-- The chunks that the encoder has received. -/
  received : List (List S) := []

namespace Capture

variable {S : Type}

inductive Action (S : Type)
  /-- A call begins, with samples in the encoder's format. -/
  | tap (thread : ℕ) (samples : List S)
  /-- The call offers its next chunk. -/
  | sendChunk (thread : ℕ)
  | receive
  /-- The last handle to a chunk is dropped. -/
  | recycle (thread : ℕ) (v : Buf S)
  | close

def setTap (c : Capture S) (thread : ℕ) (tap : Tap S) : Capture S :=
  { c with taps := Function.update c.taps thread tap }

/-- Copy the first chunk of the samples into a buffer and offer it. -/
def sendChunk [Inhabited S] (c : Capture S) (thread : ℕ) : Option (Capture S) :=
  let accum := (c.taps thread).accum
  let checkout := (c.taps thread).pool.checkout chunkSize
  (checkout.1.write (accum.take chunkSize)).bind fun buf =>
    buf.share.map fun shared =>
      let pool := shared.2.drop checkout.2
      let chunk := shared.1.data.elems
      let offered := c.offered ++ [(thread, chunk)]
      if c.closed = false ∧ c.channel.length < captureCapacity then
        { c.setTap thread ⟨accum.drop chunkSize, pool⟩ with
          channel := c.channel ++ [chunk], offered }
      else { c.setTap thread ⟨accum.drop chunkSize, shared.1.dropInner pool⟩ with offered }

/-- The samples of a call are kept. -/
def tap (c : Capture S) (thread : ℕ) (samples : List S) : Capture S :=
  c.setTap thread { c.taps thread with accum := (c.taps thread).accum ++ samples }

def receive (c : Capture S) : Option (List S × Capture S) :=
  match c.channel with
  | [] => none
  | chunk :: channel => some (chunk, { c with channel, received := c.received ++ [chunk] })

/-- A call is over, and the next one may begin, when there is no chunk left. -/
def step [Inhabited S] (c : Capture S) : Action S → Option (Capture S)
  | .tap thread samples =>
    if (c.taps thread).accum.length < chunkSize then some (c.tap thread samples) else none
  | .sendChunk thread =>
    if chunkSize ≤ (c.taps thread).accum.length then c.sendChunk thread else none
  | .receive => c.receive.map Prod.snd
  | .recycle thread v =>
    some (c.setTap thread { c.taps thread with pool := (c.taps thread).pool.push v.clear })
  | .close => some { c with closed := true, channel := [] }

/-! ## Chunks of a thread -/

/-- The samples of all calls on a thread. -/
def heardBy (thread : ℕ) (as : List (Action S)) : List S :=
  as.flatMap fun
    | .tap t samples => if t = thread then samples else []
    | _ => []

/-- The chunks that a thread has offered. -/
def chunksOf (c : Capture S) (thread : ℕ) : List (List S) :=
  (c.offered.filter (·.1 = thread)).map Prod.snd

/-- The samples of each thread are in its chunks and its accumulator, in order. -/
structure Chunked (heard : ℕ → List S) (c : Capture S) : Prop where
  whole : ∀ t, (c.chunksOf t).flatten ++ (c.taps t).accum = heard t
  full : ∀ p ∈ c.offered, p.2.length = chunkSize
  delivered : (c.received ++ c.channel).Sublist (c.offered.map Prod.snd)
  room : c.channel.length ≤ captureCapacity

variable {heard : ℕ → List S} {c c' : Capture S} {thread : ℕ} {samples : List S}

theorem heardBy_snoc (t : ℕ) (as : List (Action S)) (a : Action S) :
    heardBy t (as ++ [a]) = heardBy t as ++ heardBy t [a] := by
  simp [heardBy]

theorem chunksOf_snoc {offered : List (ℕ × List S)} {chunk : List S}
    (h : c'.offered = offered ++ [(thread, chunk)]) (t : ℕ) :
    c'.chunksOf t = (offered.filter (·.1 = t)).map Prod.snd ++
      if thread = t then [chunk] else [] := by
  unfold chunksOf
  rw [h, List.filter_append, List.map_append]
  split_ifs with ht <;> simp [ht]

theorem receive_eq {chunk : List S} (h : c.receive = some (chunk, c')) :
    c'.received = c.received ++ [chunk] := by
  unfold receive at h
  split at h
  · cases h
  · obtain ⟨rfl, rfl⟩ := Prod.mk.inj (Option.some.inj h)
    rfl

/-- The chunks of a thread and those it has yet to offer are the full ones of its samples. -/
theorem Chunked.cut (h : Chunked heard c) (t : ℕ) :
    c.chunksOf t ++ fullChunks chunkSize (c.taps t).accum = fullChunks chunkSize (heard t) ∧
      leftOver chunkSize (c.taps t).accum = leftOver chunkSize (heard t) := by
  have hfull : ∀ chunk ∈ c.chunksOf t, chunk.length = chunkSize := by
    intro chunk hchunk
    obtain ⟨p, hp, rfl⟩ := List.mem_map.mp hchunk
    exact h.full p (List.mem_of_mem_filter hp)
  obtain ⟨hchunks, hleft⟩ :=
    fullChunks_flatten_append (by decide : 0 < chunkSize) hfull (c.taps t).accum
  rw [h.whole] at hchunks hleft
  exact ⟨hchunks.symm, hleft.symm⟩

theorem Chunked.tap (h : Chunked heard c) (thread : ℕ) (samples : List S) :
    Chunked (fun t => heard t ++ heardBy t [.tap thread samples]) (c.tap thread samples) where
  whole t := by
    rw [← h.whole t]
    rcases eq_or_ne thread t with rfl | ht
    · simp [Capture.tap, setTap, heardBy, chunksOf]
    · simp [Capture.tap, setTap, heardBy, chunksOf, ht, Function.update_of_ne ht.symm]
  full := h.full
  delivered := h.delivered
  room := h.room

section Steps

variable [Inhabited S]

/-- A chunk leaves the accumulator; the channel takes it if there is room. -/
theorem sendChunk_eq (h : chunkSize ≤ (c.taps thread).accum.length) :
    ∃ pool, c.sendChunk thread = some
      { c.setTap thread ⟨(c.taps thread).accum.drop chunkSize, pool⟩ with
        channel := if c.closed = false ∧ c.channel.length < captureCapacity then
          c.channel ++ [(c.taps thread).accum.take chunkSize] else c.channel
        offered := c.offered ++ [(thread, (c.taps thread).accum.take chunkSize)] } := by
  have hlen : ((c.taps thread).accum.take chunkSize).length =
      ((c.taps thread).pool.pop.1.resizeWith chunkSize).elems.length := by
    rw [List.length_take, Nat.min_eq_left h, Buf.resizeWith, List.length_append, List.length_take,
      List.length_replicate]
    omega
  unfold sendChunk
  dsimp only [BufPool.checkout, PoolBuf.write, Option.bind_some]
  rw [if_pos hlen]
  split_ifs
  · exact ⟨_, rfl⟩
  · exact ⟨_, rfl⟩

theorem Chunked.sendChunk (h : Chunked heard c) (hlen : chunkSize ≤ (c.taps thread).accum.length)
    (hs : c.sendChunk thread = some c') : Chunked heard c' := by
  obtain ⟨pool, hsend⟩ := sendChunk_eq hlen
  obtain rfl := Option.some.inj (hsend.symm.trans hs)
  refine ⟨fun t => ?_, fun p hp => ?_, ?_, ?_⟩
  · rw [chunksOf_snoc rfl, ← h.whole t]
    dsimp only [setTap]
    rcases eq_or_ne thread t with rfl | ht
    · rw [if_pos rfl, Function.update_self, List.flatten_append, List.flatten_singleton,
        List.append_assoc, List.take_append_drop]
      rfl
    · rw [if_neg ht, Function.update_of_ne ht.symm, List.append_nil]
      rfl
  · rcases List.mem_append.mp hp with hp | hp
    · exact h.full p hp
    · rw [List.mem_singleton.mp hp, List.length_take, Nat.min_eq_left hlen]
  · dsimp only [setTap]
    rw [List.map_append]
    split_ifs
    · rw [← List.append_assoc]
      exact h.delivered.append (List.Sublist.refl _)
    · exact h.delivered.trans (List.sublist_append_left _ _)

  · have hroom := h.room
    dsimp only [setTap]
    split_ifs with hopen
    · rw [List.length_append, List.length_singleton]
      omega
    · exact hroom

theorem Chunked.step {a : Action S} (h : Chunked heard c) (hs : c.step a = some c') :
    Chunked (fun t => heard t ++ heardBy t [a]) c' := by
  have hquiet : (∀ t, heardBy t [a] = []) → (fun t => heard t ++ heardBy t [a]) = heard :=
    fun hnil => funext fun t => by rw [hnil, List.append_nil]
  cases a with
  | tap thread samples =>
    simp only [Capture.step] at hs
    split_ifs at hs
    obtain rfl := Option.some.inj hs
    exact h.tap thread samples
  | sendChunk thread =>
    rw [hquiet fun _ => rfl]
    simp only [Capture.step] at hs
    split_ifs at hs with hlen
    exact h.sendChunk hlen hs
  | receive =>
    rw [hquiet fun _ => rfl]
    obtain ⟨⟨chunk, u⟩, hu, rfl⟩ := Option.map_eq_some_iff.mp hs
    unfold Capture.receive at hu
    split at hu
    · cases hu
    · rename_i hchannel
      obtain rfl := (Prod.mk.inj (Option.some.inj hu)).2
      have hdelivered := h.delivered
      have hroom := h.room
      rw [hchannel] at hdelivered hroom
      refine ⟨h.whole, h.full, ?_, Nat.le_of_succ_le hroom⟩
      simpa using hdelivered
  | recycle thread v =>
    rw [hquiet fun _ => rfl]
    obtain rfl := Option.some.inj hs
    refine ⟨fun t => ?_, h.full, h.delivered, h.room⟩
    rw [← h.whole t]
    rcases eq_or_ne t thread with rfl | ht
    · simp [setTap, chunksOf]
    · simp [setTap, chunksOf, Function.update_of_ne ht]
  | close =>
    rw [hquiet fun _ => rfl]
    obtain rfl := Option.some.inj hs
    refine ⟨h.whole, h.full, ?_, Nat.zero_le _⟩
    exact ((List.Sublist.refl _).append (List.nil_sublist _)).trans h.delivered

/-- A thread that has `k` chunks can offer them one after the other, and is then done. -/
theorem exec_sendChunk {k : ℕ} (hk : (c.taps thread).accum.length / chunkSize = k) :
    ∃ c', exec Capture.step c (List.replicate k (.sendChunk thread)) = some c' ∧
      (c'.taps thread).accum.length < chunkSize := by
  have hpos : 0 < chunkSize := by decide
  induction k generalizing c with
  | zero => exact ⟨c, rfl, Nat.lt_of_div_eq_zero hpos hk⟩
  | succ k ih =>
    have hlen : chunkSize ≤ (c.taps thread).accum.length := by
      by_contra hlt
      rw [Nat.div_eq_of_lt (Nat.lt_of_not_le hlt)] at hk
      cases hk
    obtain ⟨pool, hsend⟩ := sendChunk_eq hlen
    have hstep : c.step (.sendChunk thread) = some _ := (if_pos hlen).trans hsend
    rw [List.replicate_succ, exec, hstep, Option.bind_some]
    refine ih ?_
    simp only [setTap, Function.update_self, List.length_drop]
    have hdiv := Nat.add_div_right ((c.taps thread).accum.length - chunkSize) hpos
    rw [Nat.sub_add_cancel hlen, hk] at hdiv
    exact (Nat.succ.inj hdiv).symm

/-- Only the encoder receives. -/
theorem received_of_step {a : Action S} (ha : a ≠ .receive) (hs : c.step a = some c') :
    c'.received = c.received := by
  cases a with
  | tap thread samples =>
    simp only [Capture.step] at hs
    split_ifs at hs
    obtain rfl := Option.some.inj hs
    rfl
  | sendChunk thread =>
    simp only [Capture.step] at hs
    split_ifs at hs with hlen
    obtain ⟨pool, hsend⟩ := sendChunk_eq hlen
    obtain rfl := Option.some.inj (hsend.symm.trans hs)
    rfl
  | receive => exact absurd rfl ha
  | recycle thread v =>
    obtain rfl := Option.some.inj hs
    rfl
  | close =>
    obtain rfl := Option.some.inj hs
    rfl

theorem chunked_of_run {as : List (Action S)} (h : Run Capture.step Free {} as c) :
    Chunked (heardBy · as) c := by
  induction h with
  | nil => exact ⟨fun _ => rfl, by simp, by simp, Nat.zero_le _⟩
  | snoc _ _ hs ih =>
    have hchunked := ih.step hs
    simpa only [heardBy_snoc] using hchunked

/--
However the engine cuts the samples of a thread into calls, they are offered in the same chunks.
What the encoder receives is a subsequence of the chunks. A call may begin when the last one is
over, and always comes to its end.
-/
theorem captured_in_chunks {as : List (Action S)} (h : Run Capture.step Free {} as c)
    (thread : ℕ) :
    c.chunksOf thread ++ fullChunks chunkSize (c.taps thread).accum =
        fullChunks chunkSize (heardBy thread as) ∧
      ((c.taps thread).accum.length < chunkSize →
        c.chunksOf thread = fullChunks chunkSize (heardBy thread as) ∧
          (c.taps thread).accum = leftOver chunkSize (heardBy thread as) ∧
          ∀ samples, (c.step (.tap thread samples)).isSome) ∧
      (c.received ++ c.channel).Sublist (c.offered.map Prod.snd) ∧
      c.channel.length ≤ captureCapacity ∧
      ∃ c', exec Capture.step c (List.replicate ((c.taps thread).accum.length / chunkSize)
        (.sendChunk thread)) = some c' ∧ (c'.taps thread).accum.length < chunkSize := by
  have hchunked := chunked_of_run h
  obtain ⟨hchunks, hleft⟩ := hchunked.cut thread
  refine ⟨hchunks, fun hlt => ?_, hchunked.delivered, hchunked.room, exec_sendChunk rfl⟩
  obtain ⟨hnil, hself⟩ := fullChunks_of_lt hlt
  rw [hnil, List.append_nil] at hchunks
  refine ⟨hchunks, hself.symm.trans hleft, fun samples => ?_⟩
  rw [Capture.step, if_pos hlt]
  rfl

/-- A chunk is received between two chunks of a call; another thread has only one sample. -/
def twoThreads : List (Action ℕ) :=
  [.tap 0 (List.replicate 700 1), .tap 1 [5], .tap 0 (List.replicate 1300 2), .sendChunk 0,
    .receive, .sendChunk 0]

theorem captured_in_chunks_twoThreads : ∃ c, Run Capture.step Free {} twoThreads c ∧
    c.received = [List.replicate 700 1 ++ List.replicate 260 2] ∧ c.channel.length = 1 ∧
    (c.taps 0).accum = leftOver chunkSize (heardBy 0 twoThreads) := by
  obtain ⟨c, hc, hstate⟩ := Option.map_eq_some_iff.mp
    (by decide +kernel : (exec Capture.step {} twoThreads).map (fun c =>
      (c.received, c.channel.length, (c.taps 0).accum.length)) =
      some ([List.replicate 700 1 ++ List.replicate 260 2], 1, 80))
  obtain ⟨hreceived, hstate⟩ := Prod.mk.inj hstate
  obtain ⟨hchannel, hlength⟩ := Prod.mk.inj hstate
  have hrun := run_of_exec hc
  obtain ⟨-, hrest, -⟩ := captured_in_chunks hrun 0
  exact ⟨c, hrun, hreceived, hchannel, (hrest (by rw [hlength]; decide)).2.1⟩

/-! ## Loss -/

/-- A chunk that is offered finds room, and none is left behind. -/
def Timely (c : Capture S) : Action S → Prop
  | .sendChunk _ => c.closed = false ∧ c.channel.length < captureCapacity
  | .close => c.channel = []
  | _ => True

/-- How many chunks a step loses. -/
theorem lost_of_step {a : Action S} (hs : c.step a = some c') :
    ∃ n, c'.offered.length + (c.received.length + c.channel.length) =
        c.offered.length + (c'.received.length + c'.channel.length) + n ∧
      (n = 0 ↔ c.Timely a) := by
  cases a with
  | tap thread samples =>
    simp only [Capture.step] at hs
    split_ifs at hs
    obtain rfl := Option.some.inj hs
    exact ⟨0, rfl, iff_of_true rfl trivial⟩
  | sendChunk thread =>
    simp only [Capture.step] at hs
    split_ifs at hs with hlen
    obtain ⟨pool, hsend⟩ := sendChunk_eq hlen
    obtain rfl := Option.some.inj (hsend.symm.trans hs)
    by_cases hopen : c.closed = false ∧ c.channel.length < captureCapacity
    · refine ⟨0, ?_, iff_of_true rfl hopen⟩
      rw [if_pos hopen, List.length_append, List.length_append, List.length_singleton,
        List.length_singleton]
      dsimp only [setTap]
      omega
    · refine ⟨1, ?_, iff_of_false Nat.one_ne_zero hopen⟩
      rw [if_neg hopen, List.length_append, List.length_singleton]
      dsimp only [setTap]
      omega
  | receive =>
    obtain ⟨⟨chunk, u⟩, hu, rfl⟩ := Option.map_eq_some_iff.mp hs
    unfold Capture.receive at hu
    split at hu
    · cases hu
    · rename_i hchannel
      obtain rfl := (Prod.mk.inj (Option.some.inj hu)).2
      refine ⟨0, ?_, iff_of_true rfl trivial⟩
      dsimp only
      rw [hchannel, List.length_append, List.length_singleton, List.length_cons]
      omega
  | recycle thread v =>
    obtain rfl := Option.some.inj hs
    exact ⟨0, rfl, iff_of_true rfl trivial⟩
  | close =>
    obtain rfl := Option.some.inj hs
    exact ⟨c.channel.length, by simp; omega, List.length_eq_zero_iff⟩

/-- No chunk is lost exactly if every chunk finds room when it is offered. -/
theorem lossless_iff {as : List (Action S)} (h : Run Capture.step Free {} as c) :
    c.received ++ c.channel = c.offered.map Prod.snd ↔ Run Capture.step Timely {} as c := by
  have hlength : c.received ++ c.channel = c.offered.map Prod.snd ↔
      c.offered.length = c.received.length + c.channel.length := by
    refine ⟨fun heq => ?_, fun heq => (chunked_of_run h).delivered.eq_of_length ?_⟩
    · simpa using (congrArg List.length heq).symm
    · simpa using heq.symm
  rw [hlength]
  clear hlength
  constructor
  · intro heq
    induction h with
    | nil => exact .nil
    | @snoc as t u a hrun _ hs ih =>
      have hle := (chunked_of_run hrun).delivered.length_le
      rw [List.length_append, List.length_map] at hle
      obtain ⟨n, hn, htimely⟩ := lost_of_step hs
      -- Chunks that are lost are never made up for.
      have hbefore : t.offered.length = t.received.length + t.channel.length := by omega
      exact .snoc (ih hbefore) (htimely.mp (by omega)) hs
  · intro htimely
    induction htimely with
    | nil => rfl
    | @snoc as t u a hrun ha hs ih =>
      have hfree : Run Capture.step Free {} as t := hrun.of_actions fun _ _ _ => trivial
      obtain ⟨n, hn, hiff⟩ := lost_of_step hs
      have hzero := hiff.mpr ha
      have hbefore := ih hfree
      omega

/-- The encoder ends while a chunk waits for it. -/
def closedEarly : List (Action ℕ) := [.tap 0 (List.replicate 960 1), .sendChunk 0, .close]

theorem lossless_iff_closedEarly : ∃ c, Run Capture.step Free {} closedEarly c ∧
    ¬ Run Capture.step Timely {} closedEarly c := by
  obtain ⟨c, hc, hlost⟩ := Option.map_eq_some_iff.mp
    (by decide +kernel : (exec Capture.step {} closedEarly).map (fun c =>
      ((c.received ++ c.channel).length, c.offered.length)) = some (0, 1))
  have hrun := run_of_exec hc
  refine ⟨c, hrun, fun htimely => ?_⟩
  have hlength := congrArg List.length ((lossless_iff hrun).mpr htimely)
  rw [List.length_map, (Prod.mk.inj hlost).1, (Prod.mk.inj hlost).2] at hlength
  cases hlength

end Steps

end Capture

end Meshconf.Audio
