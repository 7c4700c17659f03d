import Mathlib.Algebra.BigOperators.Group.List.Basic
import Mathlib.Data.List.GetD
import Meshconf.Audio.Mixer
import Meshconf.Buffers.Pool

/-! # Mixing into recycled buffers

A mix takes the peers in the order of a hash map, which is arbitrary, and adds what it
drains from each into a vector of the pool. The vector holds silence at first only
because those at rest in the pool are empty. A chunk goes back to the pool when it is
refused or played.
-/

namespace Meshconf.Audio

open Buffers Transition

variable {P S : Type} [DecidableEq P]

/-- An order in which a hash map yields its entries. -/
structure Iteration (α : Type) where
  list : List α → List α
  perm : ∀ l, (list l).Perm l

/-- What a mix took from each peer, the sums, and the chunk it made of them. -/
structure Mix (P S : Type) where
  drained : List (P × List S)
  mixed : List S
  chunk : List S

structure MixTask (P S : Type) where
  peerBuffers : List (PeerBuffer P S) := []
  mixPool : BufPool S := {}
  /-- The chunks that wait for playback or are being played. -/
  playing : List (SharedBuf S) := []
  mixes : List (Mix P S) := []

/-- A message of a decoder, and what happens to the chunk if it causes a mix. -/
inductive MixEvent (P S : Type)
  | receive (peer : P) (samples : List S) (order : Iteration (PeerBuffer P S)) (accepts : Bool)
  | finish (i : ℕ)

def drainedFrom (b : PeerBuffer P S) : P × List S := (b.peer, b.samples.take mixSize)

section

variable [Add S] [Zero S]

/-- Add the samples in place; there is no room beyond the end. -/
def addTo (mixed : PoolBuf S) (d : P × List S) : Option (PoolBuf S) :=
  mixed.deref.bind fun elems =>
    if d.2.length ≤ elems.length then mixed.write (addSamples elems d.2) else none

/-- The sums, in a vector of the pool that holds silence first. -/
def sumInto (pool : BufPool S) (drained : List (P × List S)) : Option (PoolBuf S) :=
  drained.foldlM addTo (@BufPool.checkout S ⟨0⟩ pool mixSize).1

def clip (softClip : S → S) (mixed : PoolBuf S) : Option (PoolBuf S) :=
  mixed.deref.bind fun elems => mixed.write (elems.map softClip)

namespace MixTask

/-- Offer the chunk to playback; if that refuses it, it is dropped at once. -/
def trySend (t : MixTask P S) (accepts : Bool) (shared : SharedBuf S) : MixTask P S :=
  if accepts then { t with playing := t.playing ++ [shared] }
  else { t with mixPool := shared.dropInner t.mixPool }

def tryMix (softClip : S → S) (order : Iteration (PeerBuffer P S)) (accepts : Bool)
    (t : MixTask P S) : Option (MixTask P S) :=
  if anyReady t.peerBuffers then do
    let drained := (order.list t.peerBuffers).map drainedFrom
    let pool := (@BufPool.checkout S ⟨0⟩ t.mixPool mixSize).2
    let mixed ← sumInto t.mixPool drained
    let sums ← mixed.deref
    let clipped ← clip softClip mixed
    let (shared, rest) ← clipped.share
    let mix := { drained, mixed := sums, chunk := shared.data.elems }
    let t' : MixTask P S :=
      { t with
        peerBuffers := t.peerBuffers.map PeerBuffer.drain
        mixPool := rest.drop pool
        mixes := t.mixes ++ [mix] }
    some (t'.trySend accepts shared)
  else some t

def step (softClip : S → S) (t : MixTask P S) : MixEvent P S → Option (MixTask P S)
  | .receive peer samples order accepts =>
    tryMix softClip order accepts { t with peerBuffers := extend peer samples t.peerBuffers }
  | .finish i =>
    t.playing[i]?.map fun shared =>
      { t with mixPool := shared.dropInner t.mixPool, playing := t.playing.eraseIdx i }

end MixTask

end

/-! ## Accounting -/

/-- The samples in the buffers of a peer. -/
def samplesOf (bs : List (PeerBuffer P S)) (p : P) : List S :=
  (bs.filter (·.peer = p)).flatMap (·.samples)

/-- The samples that a mix took from a peer. -/
def Mix.drainedOf (m : Mix P S) (p : P) : List S := (m.drained.filter (·.1 = p)).flatMap (·.2)

/-- The samples that a peer delivers in an event. -/
def MixEvent.deliveredBy (p : P) : MixEvent P S → List S
  | .receive peer samples _ _ => if peer = p then samples else []
  | .finish _ => []

/-- A decoder delivers at most a chunk at once. -/
def MixEvent.Fits : MixEvent P S → Prop
  | .receive _ samples _ _ => samples.length ≤ mixSize
  | .finish _ => True

/-- Every position is the sum of what was drained for it, and then clipped. -/
structure Mix.Exact [AddCommMonoid S] (softClip : S → S) (m : Mix P S) : Prop where
  mixed : m.mixed = (List.range mixSize).map fun i => (m.drained.map (·.2.getD i 0)).sum
  chunk : m.chunk = m.mixed.map softClip

section Buffers

@[simp] theorem samplesOf_nil (p : P) : samplesOf ([] : List (PeerBuffer P S)) p = [] := rfl

@[simp] theorem samplesOf_cons (b : PeerBuffer P S) (bs : List (PeerBuffer P S)) (p : P) :
    samplesOf (b :: bs) p = (if b.peer = p then b.samples else []) ++ samplesOf bs p := by
  by_cases h : b.peer = p <;> simp [samplesOf, h]

theorem samplesOf_of_notMem {bs : List (PeerBuffer P S)} {p : P} (h : p ∉ bs.map (·.peer)) :
    samplesOf bs p = [] := by
  induction bs with
  | nil => rfl
  | cons b bs ih =>
    rw [List.map_cons, List.mem_cons, not_or] at h
    rw [samplesOf_cons, if_neg (Ne.symm h.1), List.nil_append, ih h.2]

theorem peer_mem_extend {q p : P} {samples : List S} {bs : List (PeerBuffer P S)} :
    p ∈ (extend q samples bs).map (·.peer) ↔ p = q ∨ p ∈ bs.map (·.peer) := by
  induction bs with
  | nil => simp [extend]
  | cons b bs ih =>
    by_cases hq : b.peer = q
    · subst hq
      simp [extend]
    · simp only [extend, hq, if_false, List.map_cons, List.mem_cons, ih]
      tauto

theorem nodup_extend {q : P} {samples : List S} {bs : List (PeerBuffer P S)}
    (h : (bs.map (·.peer)).Nodup) : ((extend q samples bs).map (·.peer)).Nodup := by
  induction bs with
  | nil => simp [extend]
  | cons b bs ih =>
    obtain ⟨hb, hbs⟩ := List.nodup_cons.mp h
    by_cases hq : b.peer = q
    · simpa [extend, hq] using h
    · simp only [extend, hq, if_false, List.map_cons, List.nodup_cons]
      refine ⟨fun hmem => ?_, ih hbs⟩
      rcases peer_mem_extend.mp hmem with hbq | hmem
      · exact hq hbq
      · exact hb hmem

theorem samplesOf_extend {q : P} {samples : List S} {bs : List (PeerBuffer P S)}
    (h : (bs.map (·.peer)).Nodup) (p : P) :
    samplesOf (extend q samples bs) p = samplesOf bs p ++ if q = p then samples else [] := by
  induction bs with
  | nil => simp [extend]
  | cons b bs ih =>
    obtain ⟨hb, hbs⟩ := List.nodup_cons.mp h
    by_cases hq : b.peer = q
    · subst hq
      by_cases hp : b.peer = p
      · subst hp
        simp [extend, samplesOf_of_notMem hb]
      · simp [extend, hp]
    · simp [extend, hq, ih hbs]

theorem length_extend_lt {q : P} {samples : List S} {bs : List (PeerBuffer P S)}
    (h : ∀ b ∈ bs, b.samples.length < mixSize) (hs : samples.length ≤ mixSize) :
    ∀ b ∈ extend q samples bs, b.samples.length < 2 * mixSize := by
  induction bs with
  | nil =>
    have hsize : 0 < mixSize := by decide
    simp only [extend, List.mem_singleton, forall_eq]
    omega
  | cons b bs ih =>
    have hb := h b List.mem_cons_self
    have hbs := fun b hb => h b (List.mem_cons_of_mem _ hb)
    by_cases hq : b.peer = q
    · simp only [extend, hq, if_true, List.forall_mem_cons, List.length_append]
      refine ⟨by omega, fun c hc => ?_⟩
      have := hbs c hc
      omega
    · simp only [extend, hq, if_false, List.forall_mem_cons]
      exact ⟨by omega, ih hbs⟩

omit [DecidableEq P] in
theorem peers_drain (bs : List (PeerBuffer P S)) :
    (bs.map PeerBuffer.drain).map (·.peer) = bs.map (·.peer) := by
  simp [Function.comp_def, PeerBuffer.drain]

omit [DecidableEq P] in
theorem length_drain (b : PeerBuffer P S) :
    b.drain.samples.length = b.samples.length - mixSize := by
  simp only [PeerBuffer.drain, List.length_drop]
  omega

omit [DecidableEq P] in
theorem take_append_drain (b : PeerBuffer P S) :
    b.samples.take mixSize ++ b.drain.samples = b.samples := by
  have htake : b.samples.take mixSize = b.samples.take (min b.samples.length mixSize) := by
    rw [min_comm, List.take_eq_take_min]
  rw [htake]
  exact List.take_append_drop _ _

end Buffers

section Sums

variable [AddCommMonoid S] {softClip : S → S} {pool : BufPool S} {drained : List (P × List S)}

theorem length_addSamples (m s : List S) : (addSamples m s).length = m.length := by
  fun_induction addSamples m s with
  | case1 m ms s ss ih => simp [ih]
  | case2 ms ss h => rfl

theorem getD_addSamples {m s : List S} (h : s.length ≤ m.length) (i : ℕ) :
    (addSamples m s).getD i 0 = m.getD i 0 + s.getD i 0 := by
  induction m generalizing s i with
  | nil =>
    obtain rfl := List.length_eq_zero_iff.mp (Nat.le_zero.mp h)
    simp [addSamples]
  | cons x m ih =>
    cases s with
    | nil => simp [addSamples]
    | cons y s =>
      cases i with
      | zero => rfl
      | succ i => simpa [addSamples] using ih (Nat.le_of_succ_le_succ h) i

/-- Every position gains what is added to it. -/
theorem foldl_addSamples {chunks : List (List S)} {m : List S}
    (h : ∀ s ∈ chunks, s.length ≤ m.length) :
    (chunks.foldl addSamples m).length = m.length ∧
      ∀ i, (chunks.foldl addSamples m).getD i 0 = m.getD i 0 + (chunks.map (·.getD i 0)).sum := by
  induction chunks generalizing m with
  | nil => exact ⟨rfl, fun i => by simp⟩
  | cons s rest ih =>
    have hlen := length_addSamples m s
    obtain ⟨hrest, hsum⟩ := ih (m := addSamples m s)
      (fun r hr => hlen.symm ▸ h r (List.mem_cons_of_mem _ hr))
    refine ⟨hrest.trans hlen, fun i => ?_⟩
    rw [List.foldl_cons, hsum, getD_addSamples (h s List.mem_cons_self), List.map_cons,
      List.sum_cons, add_assoc]

omit [DecidableEq P] in
theorem addTo_eq {v : Buf S} {d : P × List S} (h : d.2.length ≤ v.elems.length) :
    addTo ⟨some v⟩ d = some ⟨some { v with elems := addSamples v.elems d.2 }⟩ := by
  simp [addTo, PoolBuf.deref, PoolBuf.write, h, length_addSamples]

omit [DecidableEq P] in
theorem foldlM_addTo {v : Buf S} (h : ∀ d ∈ drained, d.2.length ≤ v.elems.length) :
    drained.foldlM addTo ⟨some v⟩ =
      some ⟨some { v with elems := (drained.map (·.2)).foldl addSamples v.elems }⟩ := by
  induction drained generalizing v with
  | nil => rfl
  | cons d ds ih =>
    have hlen := length_addSamples v.elems d.2
    rw [List.foldlM_cons, addTo_eq (h d List.mem_cons_self)]
    exact ih fun e he => hlen.symm ▸ h e (List.mem_cons_of_mem _ he)

theorem eq_map_range {l : List S} {n : ℕ} {f : ℕ → S} (hn : l.length = n)
    (hf : ∀ i, l.getD i 0 = f i) : l = (List.range n).map f := by
  apply List.ext_getElem
  · simp [hn]
  · intro i hi _
    have := hf i
    rw [List.getD_eq_getElem _ _ hi] at this
    simpa using this

/-- Chunks that are added to silence. -/
theorem foldl_silence {chunks : List (List S)} (h : ∀ s ∈ chunks, s.length ≤ mixSize) :
    chunks.foldl addSamples (List.replicate mixSize 0) =
      (List.range mixSize).map fun i => (chunks.map (·.getD i 0)).sum := by
  have hlen : (List.replicate mixSize (0 : S)).length = mixSize := List.length_replicate
  obtain ⟨hfold, hsum⟩ := foldl_addSamples (m := List.replicate mixSize (0 : S))
    (fun s hs => hlen.symm ▸ h s hs)
  refine eq_map_range (hfold.trans hlen) fun i => ?_
  rw [hsum, List.getD_eq_getElem?_getD, List.getElem?_getD_replicate_default_eq, zero_add]

omit [DecidableEq P] in
/-- The recycled vector is silent at first, so it holds the sums and nothing else. -/
theorem sumInto_eq (hpool : pool.Clean) (h : ∀ d ∈ drained, d.2.length ≤ mixSize) :
    ∃ w : Buf S, sumInto pool drained = some ⟨some w⟩ ∧
      w.elems = (List.range mixSize).map fun i => (drained.map (·.2.getD i 0)).sum := by
  let zero : Inhabited S := ⟨0⟩
  have hsilent : (pool.pop.1.resizeWith mixSize).elems = List.replicate mixSize 0 :=
    Buf.elems_resizeWith hpool.pop.1 mixSize
  refine ⟨_, foldlM_addTo (v := pool.pop.1.resizeWith mixSize) fun d hd => ?_, ?_⟩
  · rw [hsilent, List.length_replicate]
    exact h d hd
  · have hsecond : ∀ s ∈ drained.map (·.2), s.length ≤ mixSize :=
      List.forall_mem_map.mpr h
    simp only [hsilent, foldl_silence hsecond, List.map_map, Function.comp_def]

omit [DecidableEq P] in
/-- A mix hands a chunk to playback, or back to the pool, and never runs out of room. -/
theorem MixTask.tryMix_ready {t : MixTask P S} (hpool : t.mixPool.Clean)
    (hready : anyReady t.peerBuffers) (order : Iteration (PeerBuffer P S)) (accepts : Bool) :
    ∃ m shared, Mix.Exact softClip m ∧
      m.drained = (order.list t.peerBuffers).map drainedFrom ∧
      shared.data.elems = m.chunk ∧
      t.tryMix softClip order accepts = some
        (trySend { t with
          peerBuffers := t.peerBuffers.map PeerBuffer.drain
          mixPool := t.mixPool.pop.2
          mixes := t.mixes ++ [m] } accepts shared) := by
  have hfits : ∀ d ∈ (order.list t.peerBuffers).map drainedFrom, d.2.length ≤ mixSize := by
    intro d hd
    obtain ⟨b, -, rfl⟩ := List.mem_map.mp hd
    exact List.length_take_le _ _
  obtain ⟨w, hw, hsums⟩ := sumInto_eq hpool hfits
  have hclip : clip softClip ⟨some w⟩ =
      some ⟨some { w with elems := w.elems.map softClip }⟩ := by
    simp [clip, PoolBuf.deref, PoolBuf.write]
  refine ⟨⟨_, w.elems, w.elems.map softClip⟩, .new { w with elems := w.elems.map softClip },
    ⟨hsums, rfl⟩, rfl, rfl, ?_⟩
  rw [tryMix, if_pos hready]
  simp [hw, PoolBuf.deref, hclip, PoolBuf.share, PoolBuf.take, PoolBuf.drop, SharedBuf.new,
    BufPool.checkout]

end Sums

section Runs

/-- A peer has at most one buffer. -/
theorem filter_peer_cases {bs : List (PeerBuffer P S)} (hnd : (bs.map (·.peer)).Nodup) (p : P) :
    bs.filter (·.peer = p) = [] ∨ ∃ b, bs.filter (·.peer = p) = [b] := by
  have hone : (bs.filter (·.peer = p)).length ≤ 1 := by
    have hcount := List.nodup_iff_count_le_one.mp hnd p
    rwa [List.count, List.countP_map, List.countP_eq_length_filter] at hcount
  rcases hf : bs.filter (·.peer = p) with _ | ⟨b, _ | ⟨c, rest⟩⟩
  · exact .inl hf
  · exact .inr ⟨b, hf⟩
  · simp [hf] at hone

theorem filter_peer_perm {bs bs' : List (PeerBuffer P S)} (h : bs'.Perm bs)
    (hnd : (bs.map (·.peer)).Nodup) (p : P) :
    bs'.filter (·.peer = p) = bs.filter (·.peer = p) := by
  have hperm : (bs'.filter (·.peer = p)).Perm (bs.filter (·.peer = p)) := h.filter _
  rcases filter_peer_cases hnd p with hf | ⟨b, hf⟩
  · rw [hf] at hperm ⊢
    exact hperm.eq_nil
  · rw [hf] at hperm ⊢
    exact hperm.eq_singleton

/-- What a mix takes from a peer is the front of its buffer, whatever the order of the peers. -/
theorem drainedOf_append {m : Mix P S} {bs : List (PeerBuffer P S)}
    {order : Iteration (PeerBuffer P S)} (hm : m.drained = (order.list bs).map drainedFrom)
    (hnd : (bs.map (·.peer)).Nodup) (p : P) :
    m.drainedOf p ++ samplesOf (bs.map PeerBuffer.drain) p = samplesOf bs p := by
  have htaken : m.drainedOf p = (bs.filter (·.peer = p)).flatMap (·.samples.take mixSize) := by
    rw [← filter_peer_perm (order.perm bs) hnd p, Mix.drainedOf, hm, List.filter_map,
      List.flatMap_map]
    rfl
  have hleft : samplesOf (bs.map PeerBuffer.drain) p =
      (bs.filter (·.peer = p)).flatMap (·.drain.samples) := by
    rw [samplesOf, List.filter_map, List.flatMap_map]
    rfl
  rw [htaken, hleft, samplesOf]
  rcases filter_peer_cases hnd p with hf | ⟨b, hf⟩
  · simp [hf]
  · simpa [hf] using take_append_drain b

namespace MixTask

/-- The samples of a peer that the mixes took or that are still in its buffer. -/
def samplesFrom (t : MixTask P S) (p : P) : List S :=
  t.mixes.flatMap (·.drainedOf p) ++ samplesOf t.peerBuffers p

structure Inv [AddCommMonoid S] (softClip : S → S) (t : MixTask P S) : Prop where
  nodup : (t.peerBuffers.map (·.peer)).Nodup
  bounded : ∀ b ∈ t.peerBuffers, b.samples.length < mixSize
  clean : t.mixPool.Clean
  exact : ∀ m ∈ t.mixes, Mix.Exact softClip m

omit [DecidableEq P] in
@[simp] theorem peerBuffers_trySend (t : MixTask P S) (accepts : Bool) (shared : SharedBuf S) :
    (t.trySend accepts shared).peerBuffers = t.peerBuffers := by
  cases accepts <;> rfl

omit [DecidableEq P] in
@[simp] theorem mixes_trySend (t : MixTask P S) (accepts : Bool) (shared : SharedBuf S) :
    (t.trySend accepts shared).mixes = t.mixes := by
  cases accepts <;> rfl

omit [DecidableEq P] in
theorem clean_trySend {t : MixTask P S} (h : t.mixPool.Clean) (accepts : Bool)
    (shared : SharedBuf S) : (t.trySend accepts shared).mixPool.Clean := by
  cases accepts with
  | true => exact h
  | false => exact h.push _

variable [AddCommMonoid S] {softClip : S → S} {t t' : MixTask P S}

omit [DecidableEq P] in
theorem inv_empty : Inv softClip ({} : MixTask P S) where
  nodup := List.nodup_nil
  bounded := by simp
  clean := by simp [BufPool.Clean]
  exact := by simp

/-- A message is always taken, and all that it delivers is drained or still buffered. -/
theorem Inv.receive (h : Inv softClip t) {peer : P} {samples : List S}
    (hfits : samples.length ≤ mixSize) (order : Iteration (PeerBuffer P S)) (accepts : Bool) :
    ∃ t', t.step softClip (.receive peer samples order accepts) = some t' ∧ Inv softClip t' ∧
      ∀ p, t'.samplesFrom p = t.samplesFrom p ++ if peer = p then samples else [] := by
  let bs := extend peer samples t.peerBuffers
  have hnd : (bs.map (·.peer)).Nodup := nodup_extend h.nodup
  have hlen : ∀ b ∈ bs, b.samples.length < 2 * mixSize := length_extend_lt h.bounded hfits
  have hall : ∀ p, t.mixes.flatMap (·.drainedOf p) ++ samplesOf bs p =
      t.samplesFrom p ++ if peer = p then samples else [] := by
    intro p
    rw [samplesFrom, samplesOf_extend h.nodup, List.append_assoc]
  by_cases hready : anyReady bs
  · obtain ⟨m, shared, hexact, hm, -, hmix⟩ :=
      tryMix_ready (t := { t with peerBuffers := bs }) h.clean hready order accepts
    refine ⟨_, hmix, ?_, fun p => ?_⟩
    · constructor
      · simpa only [peerBuffers_trySend, peers_drain] using hnd
      · intro b hb
        rw [peerBuffers_trySend] at hb
        obtain ⟨c, hc, rfl⟩ := List.mem_map.mp hb
        have := hlen c hc
        rw [length_drain]
        omega
      · exact clean_trySend h.clean.pop.2 _ _
      · simp only [mixes_trySend, List.mem_append, List.mem_singleton]
        rintro c (hc | rfl)
        · exact h.exact c hc
        · exact hexact
    · rw [← hall, ← drainedOf_append hm hnd]
      simp [samplesFrom]
  · refine ⟨{ t with peerBuffers := bs }, if_neg hready, ⟨hnd, ?_, h.clean, h.exact⟩, hall⟩
    intro b hb
    have hb' : ¬ mixSize ≤ b.samples.length := fun hle =>
      hready (List.any_eq_true.mpr ⟨b, hb, decide_eq_true hle⟩)
    omega

theorem Inv.step (h : Inv softClip t) {e : MixEvent P S} (hfits : e.Fits)
    (hs : t.step softClip e = some t') :
    Inv softClip t' ∧ ∀ p, t'.samplesFrom p = t.samplesFrom p ++ e.deliveredBy p := by
  cases e with
  | receive peer samples order accepts =>
    obtain ⟨u, hu, hinv, hsamples⟩ := h.receive hfits order accepts
    obtain rfl : u = t' := Option.some.inj (hu.symm.trans hs)
    exact ⟨hinv, hsamples⟩
  | finish i =>
    obtain ⟨shared, -, rfl⟩ := Option.map_eq_some_iff.mp hs
    exact ⟨⟨h.nodup, h.bounded, h.clean.push _, h.exact⟩, fun p => (List.append_nil _).symm⟩

theorem Inv.run {events : List (MixEvent P S)}
    (h : Run (MixTask.step softClip) (fun _ e => e.Fits) {} events t) :
    Inv softClip t ∧ ∀ p, t.samplesFrom p = events.flatMap (MixEvent.deliveredBy p) := by
  induction h with
  | nil => exact ⟨inv_empty, fun p => rfl⟩
  | snoc _ hfits hs ih =>
    obtain ⟨hinv, hsamples⟩ := ih
    obtain ⟨hinv', hstep⟩ := hinv.step hfits hs
    refine ⟨hinv', fun p => ?_⟩
    rw [hstep, hsamples, List.flatMap_append, List.flatMap_singleton]

/-- No sample is lost, repeated or moved, and every chunk is the exact sum. -/
structure Conserves (softClip : S → S) (events : List (MixEvent P S)) (t : MixTask P S) : Prop where
  bounded : ∀ b ∈ t.peerBuffers, b.samples.length < mixSize
  delivered : ∀ p, t.samplesFrom p = events.flatMap (MixEvent.deliveredBy p)
  exact : ∀ m ∈ t.mixes, Mix.Exact softClip m
  live : ∀ peer samples order accepts, samples.length ≤ mixSize →
    ∃ t', t.step softClip (.receive peer samples order accepts) = some t'

/-- After every message, in every order of the peers and whatever playback refuses. -/
theorem conserves_of_run {events : List (MixEvent P S)}
    (h : Run (MixTask.step softClip) (fun _ e => e.Fits) {} events t) :
    t.Conserves softClip events := by
  obtain ⟨hinv, hsamples⟩ := Inv.run h
  refine ⟨hinv.bounded, hsamples, hinv.exact, fun peer samples order accepts hfits => ?_⟩
  obtain ⟨t', hs, -, -⟩ := hinv.receive hfits order accepts
  exact ⟨t', hs⟩

/-- The entries as the map lists them. -/
def asListed : Iteration (PeerBuffer ℕ ℤ) := ⟨id, fun _ => .rfl⟩

/-- A full chunk is mixed, played, and its vector is back in the pool. -/
theorem run_of_ready {peer : P} {samples : List S} (hfits : samples.length ≤ mixSize)
    (hready : anyReady (extend peer samples [])) (order : Iteration (PeerBuffer P S)) :
    ∃ t, Run (MixTask.step softClip) (fun _ e => e.Fits) {}
      [.receive peer samples order true, .finish 0] t := by
  have hempty : Inv softClip ({} : MixTask P S) := inv_empty
  obtain ⟨m, shared, -, -, -, hmix⟩ :=
    tryMix_ready (t := { peerBuffers := extend peer samples [] }) hempty.clean hready order true
  have hfirst : Run (MixTask.step softClip) (fun _ e => e.Fits) {}
      [.receive peer samples order true] _ := .single hfits hmix
  exact ⟨_, hfirst.snoc trivial rfl⟩

/-- The second chunk is mixed in the vector that held the first. -/
def recycling : List (MixEvent ℕ ℤ) :=
  [.receive 1 (List.replicate mixSize 1) asListed true, .finish 0,
    .receive 2 (List.replicate mixSize 2) asListed true]

theorem conserves_of_run_recycled :
    ∃ t, Run (MixTask.step id) (fun _ e => e.Fits) {} recycling t ∧ t.Conserves id recycling := by
  have hlen : ∀ x : ℤ, (List.replicate mixSize x).length ≤ mixSize := fun x => by simp
  have hready : anyReady (extend 1 (List.replicate mixSize (1 : ℤ)) []) := by
    simp [anyReady, extend]
  obtain ⟨u, hu⟩ := run_of_ready (hlen 1) hready asListed
  obtain ⟨t, ht, -, -⟩ := (Inv.run hu).1.receive (hlen 2) asListed true
  have hfits : (MixEvent.receive 2 (List.replicate mixSize (2 : ℤ)) asListed true).Fits := hlen 2
  have hrun := hu.snoc hfits ht
  exact ⟨t, hrun, conserves_of_run hrun⟩

/-! ## The order of the peers does not matter -/

/-- The message of an event, if it is one. -/
def messageOf : MixEvent P S → Option (P × List S)
  | .receive peer samples _ _ => some (peer, samples)
  | .finish _ => none

/-- What the task has mixed, without its vectors. -/
def mixer (t : MixTask P S) : AudioMixer P S where
  peerBuffers := t.peerBuffers
  chunks := t.mixes.map (·.chunk)

end MixTask

/-- What a peer contributes at a position; silence behind its last sample. -/
def PeerBuffer.input [Zero S] (b : PeerBuffer P S) (i : ℕ) : S :=
  (b.samples.take mixSize).getD i 0

/-- The sum of the inputs at a position. -/
def inputSum [Add S] [Zero S] (bs : List (PeerBuffer P S)) (i : ℕ) : S :=
  (bs.map (·.input i)).sum

omit [DecidableEq P] in
/-- Every position of a mix is the clipped sum of the inputs. -/
theorem mix_eq [AddCommMonoid S] (softClip : S → S) (bs : List (PeerBuffer P S)) :
    mix softClip bs = (List.range mixSize).map fun i => softClip (inputSum bs i) := by
  have hfits : ∀ s ∈ bs.map (·.samples.take mixSize), s.length ≤ mixSize := by
    intro s hs
    obtain ⟨b, -, rfl⟩ := List.mem_map.mp hs
    exact List.length_take_le _ _
  have hsums := foldl_silence hfits
  rw [List.foldl_map] at hsums
  rw [mix, hsums, List.map_map]
  simp [inputSum, PeerBuffer.input, List.map_map, Function.comp_def]

omit [DecidableEq P] in
theorem Mix.Exact.chunk_eq_mix [AddCommMonoid S] {softClip : S → S} {m : Mix P S}
    (h : m.Exact softClip) {bs : List (PeerBuffer P S)} {order : Iteration (PeerBuffer P S)}
    (hm : m.drained = (order.list bs).map drainedFrom) : m.chunk = mix softClip bs := by
  rw [h.chunk, h.mixed, mix_eq, List.map_map, hm]
  refine List.map_congr_left fun i _ => congrArg softClip ?_
  simp only [List.map_map]
  exact ((order.perm bs).map _).sum_eq

namespace MixTask

variable [AddCommMonoid S] {softClip : S → S} {t t' : MixTask P S}

/-- The task mixes what the mixer without vectors does, in any order of the peers. -/
theorem mixer_receive (hpool : t.mixPool.Clean) {peer : P} {samples : List S}
    {order : Iteration (PeerBuffer P S)} {accepts : Bool}
    (hs : t.step softClip (.receive peer samples order accepts) = some t') :
    t'.mixer = t.mixer.receive softClip (peer, samples) := by
  by_cases hready : anyReady (extend peer samples t.peerBuffers)
  · obtain ⟨m, shared, hexact, hm, -, hmix⟩ :=
      tryMix_ready (t := { t with peerBuffers := extend peer samples t.peerBuffers }) hpool hready
        order accepts
    obtain rfl := Option.some.inj (hmix.symm.trans hs)
    simp [mixer, AudioMixer.receive, AudioMixer.tryMix, hready, hexact.chunk_eq_mix hm]
  · obtain rfl := Option.some.inj ((if_neg hready).symm.trans hs)
    simp [mixer, AudioMixer.receive, AudioMixer.tryMix, hready]

theorem mixer_run {events : List (MixEvent P S)}
    (h : Run (MixTask.step softClip) (fun _ e => e.Fits) {} events t) :
    t.mixer = Audio.run softClip (events.filterMap messageOf) := by
  induction h with
  | nil => rfl
  | @snoc es u u' e hbefore _ hs ih =>
    cases e with
    | receive peer samples order accepts =>
      have hclean := (Inv.run hbefore).1.clean
      rw [mixer_receive hclean hs, ih, List.filterMap_append]
      exact (run_concat softClip _ _).symm
    | finish i =>
      obtain ⟨shared, -, rfl⟩ := Option.map_eq_some_iff.mp hs
      rw [List.filterMap_append, show [MixEvent.finish i].filterMap messageOf = [] from rfl,
        List.append_nil]
      exact ih

end MixTask

end Runs

end Meshconf.Audio
