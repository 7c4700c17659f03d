import Mathlib.Algebra.Order.Ring.Int
import Meshconf.Jitter.Order

/-! # The jitter buffer under exact timers

Received frames arrive after a constant transit delay, and the buffer wakes exactly
when the sleep it has computed is over. Each arrival starts a new sleep. An arrival
and the end of a sleep at the same instant may come in either order.
-/

namespace Meshconf.Jitter

open Protocol Signal Transition

namespace JitterBuffer

/-- How long the buffer sleeps: until the front of the queue is due, or 5 ms. -/
def sleepUs (b : JitterBuffer) (now : ℕ) : Option ℕ :=
  match b.queue.packets.head?, b.clockOffsetUs with
  | some front, some offset => (playoutUs front.captureTimestampUs offset).map (· - now)
  | _, _ => some 5000

end JitterBuffer

/-- A buffer with its clock, the end of its sleep, and the received frames still on their way. -/
structure Timed where
  buffer : JitterBuffer
  now : ℕ
  deadline : ℕ
  pending : List MediaObject

namespace Timed

open JitterBuffer

/-- An audio buffer that begins to run. -/
def start (config : JitterBufferConfig) (now : ℕ) (frames : List MediaObject) : Timed where
  buffer := .new config true true none
  now
  deadline := now + 5000
  pending := frames

/-- When a frame arrives. -/
def arrivalUs (transit : ℤ) (obj : MediaObject) : ℕ := (obj.captureTimestampUs + transit).toNat

/-- The next turn of the loop: compute the sleep. -/
def sleep (b : JitterBuffer) (now : ℕ) (pending : List MediaObject) : Option Timed :=
  (b.sleepUs now).map fun d => ⟨b, now, now + d, pending⟩

inductive Action
  /-- The next frame arrives; smoothing makes this of the clock offset. -/
  | arrive (smoothed : ℤ)
  | wake

def step (transit : ℤ) (t : Timed) : Action → Option Timed
  | .arrive smoothed =>
    match t.pending with
    | [] => none
    | obj :: rest =>
      let now := arrivalUs transit obj
      if t.now ≤ now ∧ now ≤ t.deadline then
        (t.buffer.arrive obj now smoothed).bind fun b => sleep b now rest
      else none
  | .wake =>
    if ∀ obj ∈ t.pending.head?, t.deadline ≤ arrivalUs transit obj then
      (t.buffer.wake t.deadline).bind fun b => sleep b t.deadline t.pending
    else none

/-- The slot `y` lies a number of frames behind the slot `x`. -/
def Behind (x y : ℕ) : Prop := ∃ k, y = x + frameUs * (k + 1)

/-- Frames of one stream in the order they were sent; those in between are lost. -/
structure Stream (transit : ℤ) (frames : List MediaObject) : Prop where
  spaced : frames.Pairwise fun a b => Behind a.captureTimestampUs b.captureTimestampUs
  timestamp : ∀ obj ∈ frames, 0 < obj.captureTimestampUs ∧ obj.captureTimestampUs < 2 ^ 62
  arrival : ∀ obj ∈ frames, 0 ≤ obj.captureTimestampUs + transit

/-- Smoothing stays within `e` of the offset that the constant delay shows, and time is finite. -/
def Regular (config : JitterBufferConfig) (transit : ℤ) (e : ℕ) (t : Timed) : Action → Prop
  | .arrive smoothed => transit + config.targetDelayUs - e ≤ smoothed ∧
      smoothed ≤ transit + config.targetDelayUs + e ∧ t.deadline < 2 ^ 62
  | .wake => t.deadline < 2 ^ 62

section Slots

variable {x y z : ℕ}

theorem Behind.le (h : Behind x y) : x + frameUs ≤ y := by
  obtain ⟨k, rfl⟩ := h
  rw [Nat.mul_succ]
  omega

theorem Behind.lt (h : Behind x y) : x < y := by
  have := h.le
  unfold frameUs at this
  omega

theorem Behind.eq (h : Behind x y) (hlt : y < x + 2 * frameUs) : y = x + frameUs := by
  obtain ⟨k, rfl⟩ := h
  cases k with
  | zero => simp
  | succ k =>
    simp only [Nat.mul_succ] at hlt
    omega

theorem Behind.next (h : Behind x y) (hlt : x + frameUs < y) : Behind (x + frameUs) y := by
  obtain ⟨k, rfl⟩ := h
  cases k with
  | zero => simp at hlt
  | succ k => exact ⟨k, by simp only [Nat.mul_succ]; omega⟩

end Slots

section Playout

variable {x p : ℕ} {offset : ℤ}

theorem playoutUs_exact (h : playoutUs x offset = some p) (hlo : 0 ≤ x + offset)
    (hhi : x + offset < 2 ^ 63) : (p : ℤ) = x + offset := by
  obtain ⟨d, hd, rfl⟩ := Option.map_eq_some_iff.mp h
  unfold addI64 at hd
  split_ifs at hd
  obtain rfl := Option.some.inj hd
  unfold asI64 asU64
  rw [Int.bmod_def]
  split_ifs <;> omega

end Playout

section Operations

variable {b b' : JitterBuffer} {obj front : MediaObject} {rest pending : List MediaObject}
  {now : ℕ} {offset smoothed : ℤ} {t : Timed}

theorem sleep_spec (h : sleep b now pending = some t) :
    t.buffer = b ∧ t.now = now ∧ t.pending = pending ∧
      (b.queue.packets = [] → t.deadline = now + 5000) ∧
      ∀ front rest, b.queue.packets = front :: rest → ∀ offset ∈ b.clockOffsetUs,
        0 ≤ front.captureTimestampUs + offset → front.captureTimestampUs + offset < 2 ^ 63 →
          (t.deadline : ℤ) = max (now : ℤ) (front.captureTimestampUs + offset) := by
  obtain ⟨d, hd, rfl⟩ := Option.map_eq_some_iff.mp h
  refine ⟨rfl, rfl, rfl, ?_, ?_⟩
  · intro hqueue
    simp only [sleepUs, hqueue, List.head?_nil, Option.some.injEq] at hd
    rw [← hd]
  · intro front rest hqueue offset hoffset hlo hhi
    rw [Option.mem_def] at hoffset
    simp only [sleepUs, hqueue, List.head?_cons, hoffset] at hd
    obtain ⟨p, hp, rfl⟩ := Option.map_eq_some_iff.mp hd
    have hexact := playoutUs_exact hp hlo hhi
    rw [← hexact]
    simp only
    omega

/-- A frame arrives before the sleep ends. -/
theorem step_arrive {transit : ℤ} {t' : Timed} (h : step transit t (.arrive smoothed) = some t') :
    ∃ obj rest b', t.pending = obj :: rest ∧ t.now ≤ arrivalUs transit obj ∧
      arrivalUs transit obj ≤ t.deadline ∧
      t.buffer.arrive obj (arrivalUs transit obj) smoothed = some b' ∧
      sleep b' (arrivalUs transit obj) rest = some t' := by
  simp only [step] at h
  split at h
  · cases h
  · rename_i obj rest hpending
    split_ifs at h with hwindow
    obtain ⟨b', hb', hsleep⟩ := Option.bind_eq_some_iff.mp h
    exact ⟨obj, rest, b', hpending, hwindow.1, hwindow.2, hb', hsleep⟩

/-- The sleep ends before another frame arrives. -/
theorem step_wake {transit : ℤ} {t' : Timed} (h : step transit t .wake = some t') :
    (∀ obj ∈ t.pending.head?, t.deadline ≤ arrivalUs transit obj) ∧
      ∃ b', t.buffer.wake t.deadline = some b' ∧ sleep b' t.deadline t.pending = some t' := by
  simp only [step] at h
  split_ifs at h with hwait
  exact ⟨hwait, Option.bind_eq_some_iff.mp h⟩

theorem insert_last {q : Queue} (h : ∀ a ∈ q.packets, a.captureTimestampUs < obj.captureTimestampUs) :
    (q.insert obj).packets = q.packets ++ [obj] := by
  have hbefore : q.packets.filter (fun a => a.captureTimestampUs < obj.captureTimestampUs) =
      q.packets := List.filter_eq_self.mpr fun a ha => by simpa using h a ha
  have hafter : q.packets.filter (fun a => obj.captureTimestampUs < a.captureTimestampUs) = [] :=
    List.filter_eq_nil_iff.mpr fun a ha => by simpa using (h a ha).le
  simp only [Queue.insert, hbefore, hafter]

theorem instantaneousOffset_exact {config : JitterBufferConfig} {ts : ℕ}
    (h : instantaneousOffset config now ts = some offset) (hnow : now < 2 ^ 62) (hts : ts < 2 ^ 62)
    (hdelay : config.targetDelayUs < 2 ^ 62) : offset = now - ts + config.targetDelayUs := by
  obtain ⟨d, hd, hoffset⟩ := Option.bind_eq_some_iff.mp h
  rw [asI64_of_lt (by omega), asI64_of_lt (by omega), addI64] at hd
  rw [asI64_of_lt (by omega), addI64] at hoffset
  split_ifs at hd hoffset
  cases hd
  cases hoffset
  rfl

/-- The clock master takes the offset that an arrival shows, or what smoothing makes of it. -/
theorem updateOffset_master {instantaneous : ℤ} (hmaster : b.isClockMaster = true)
    (h : b.updateOffset instantaneous smoothed = some offset) :
    offset = instantaneous ∨ offset = smoothed := by
  unfold updateOffset at h
  split at h
  · exact .inl (Option.some.inj h).symm
  · rw [if_pos hmaster] at h
    exact .inr (Option.some.inj h).symm

theorem enqueue_ahead (hlast : ∀ m ∈ b.lastEmittedTs, m < obj.captureTimestampUs)
    (hqueue : ∀ a ∈ b.queue.packets, a.captureTimestampUs < obj.captureTimestampUs) :
    b.enqueue obj = { b with queue := b.queue.insert obj } := by
  unfold JitterBuffer.enqueue
  split_ifs with hpast hcontains
  · obtain ⟨m, hm, hle⟩ := (Option.any_eq_true _ _).mp hpast
    exact absurd (hlast m hm) (not_lt.mpr (of_decide_eq_true hle))
  · obtain ⟨a, ha, heq⟩ := List.any_eq_true.mp hcontains
    exact absurd (hqueue a ha) (of_decide_eq_true heq).not_lt
  · rfl

/-- A packet that is ahead of everything and in time is queued at the end. -/
theorem arrive_spec (h : b.arrive obj now smoothed = some b') (hmaster : b.isClockMaster = true)
    (hpos : 0 < obj.captureTimestampUs) (hts : obj.captureTimestampUs < 2 ^ 62) (hnow : now < 2 ^ 62)
    (hdelay : b.config.targetDelayUs < 2 ^ 62)
    (hlast : ∀ m ∈ b.lastEmittedTs, m < obj.captureTimestampUs)
    (hqueue : ∀ a ∈ b.queue.packets, a.captureTimestampUs < obj.captureTimestampUs)
    (hsmooth : now ≤ obj.captureTimestampUs + smoothed)
    (hfinite : obj.captureTimestampUs + smoothed < 2 ^ 63) :
    ∃ instantaneous offset : ℤ,
      (offset = now - obj.captureTimestampUs + b.config.targetDelayUs ∨ offset = smoothed) ∧
        b' = { (b.receive obj).setOffset instantaneous offset with queue := b.queue.insert obj } := by
  simp only [JitterBuffer.arrive, if_neg (by omega : obj.captureTimestampUs ≠ 0)] at h
  obtain ⟨instantaneous, hinstantaneous, h⟩ := Option.bind_eq_some_iff.mp h
  obtain ⟨offset, hoffset, h⟩ := Option.bind_eq_some_iff.mp h
  obtain ⟨playout, hplayout, h⟩ := Option.bind_eq_some_iff.mp h
  obtain ⟨limit, hlimit, rfl⟩ := Option.map_eq_some_iff.mp h
  have hexact : instantaneous = now - obj.captureTimestampUs + b.config.targetDelayUs :=
    instantaneousOffset_exact hinstantaneous hnow hts hdelay
  have hcases : offset = instantaneous ∨ offset = smoothed := updateOffset_master hmaster hoffset
  have hplayout := playoutUs_exact hplayout (by omega) (by omega)
  unfold addU64 at hlimit
  split_ifs at hlimit
  have hlimit := Option.some.inj hlimit
  refine ⟨instantaneous, offset, by rwa [← hexact], ?_⟩
  rw [if_neg (by omega)]
  exact enqueue_ahead hlast hqueue

theorem take_nothing : b.take {} = b := by
  simp [JitterBuffer.take, Queue.drop]

/-- Of a queue whose front is due by now and whose next packet is not, the front is emitted. -/
theorem release_front {late : ℕ} {r : Released}
    (h : release late offset now (front :: rest) = some r)
    (hdue : 0 ≤ front.captureTimestampUs + offset ∧ front.captureTimestampUs + offset ≤ now)
    (hlate : now ≤ front.captureTimestampUs + offset + late) (hnow : now < 2 ^ 62)
    (hnext : ∀ obj ∈ rest.head?, now < obj.captureTimestampUs + offset ∧
      obj.captureTimestampUs + offset < 2 ^ 63) : r = { emitted := [front] } := by
  obtain ⟨p, hp, h⟩ := Option.bind_eq_some_iff.mp h
  have hexact := playoutUs_exact hp hdue.1 (by omega)
  rw [if_pos (by omega)] at h
  obtain ⟨limit, hlimit, h⟩ := Option.bind_eq_some_iff.mp h
  obtain ⟨r', hr', rfl⟩ := Option.map_eq_some_iff.mp h
  unfold addU64 at hlimit
  split_ifs at hlimit
  have hlimit := Option.some.inj hlimit
  have hnone : r' = {} := by
    cases rest with
    | nil => exact (Option.some.inj hr').symm
    | cons next rest =>
      obtain ⟨hwait, hfinite⟩ := hnext next rfl
      obtain ⟨q, hq, hr'⟩ := Option.bind_eq_some_iff.mp hr'
      have hexact' := playoutUs_exact hq (by omega) hfinite
      rw [if_neg (by omega)] at hr'
      exact (Option.some.inj hr').symm
  rw [if_neg (by omega), hnone]

/-- A slot is concealed when its playout time has come, and left alone otherwise. -/
theorem conceal_cases (h : b.conceal offset now = some b')
    (hlo : ∀ last ∈ b.lastEmittedTs, 0 ≤ last + offset)
    (hhi : ∀ last ∈ b.lastEmittedTs, last + frameUs + offset < 2 ^ 63) :
    (b' = b ∧ ∀ last ∈ b.lastEmittedTs, ¬ ((last + frameUs + offset : ℤ) ≤ now ∧
        now < last + frameUs + offset + b.config.maxLateUs)) ∨
      ∃ last ∈ b.lastEmittedTs, (last + frameUs + offset : ℤ) ≤ now ∧
        now < last + frameUs + offset + b.config.maxLateUs ∧
        b' = { b with lastEmittedTs := some (last + frameUs), out := b.out ++ [plcSentinel] } := by
  unfold JitterBuffer.conceal at h
  split at h
  · rename_i hlast
    left
    constructor
    · exact (Option.some.inj h).symm
    · simp [hlast]
  rename_i last hlast
  have hlo := hlo last hlast
  have hhi := hhi last hlast
  obtain ⟨next, hnext, h⟩ := Option.bind_eq_some_iff.mp h
  obtain ⟨p, hp, h⟩ := Option.bind_eq_some_iff.mp h
  unfold addU64 at hnext
  split_ifs at hnext
  obtain rfl := Option.some.inj hnext
  have hexact := playoutUs_exact hp (by push_cast; omega) (by push_cast; omega)
  push_cast at hexact
  split_ifs at h with hdue
  · obtain ⟨limit, hlimit, rfl⟩ := Option.map_eq_some_iff.mp h
    unfold addU64 at hlimit
    split_ifs at hlimit
    obtain rfl := Option.some.inj hlimit
    split_ifs with hearly
    · right
      exact ⟨last, hlast, by omega, by omega, rfl⟩
    · left
      refine ⟨rfl, fun m hm => ?_⟩
      rw [hlast] at hm
      cases hm
      omega
  · left
    refine ⟨(Option.some.inj h).symm, fun m hm => ?_⟩
    rw [hlast] at hm
    cases hm
    omega

end Operations

end Timed

end Meshconf.Jitter
