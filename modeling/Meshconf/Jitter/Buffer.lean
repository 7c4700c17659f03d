import Mathlib.Data.Int.Init
import Meshconf.Protocol.Framing
import Meshconf.Transition.Run

/-! # The jitter buffer

Packets wait in the order of their timestamps until their playout time, which is the
timestamp plus a clock offset that is smoothed over the arrivals. Arithmetic on
machine integers is checked: a sum that overflows ends the task. Casts wrap.
-/

namespace Meshconf.Jitter

open Protocol

structure JitterBufferConfig where
  targetDelayUs : ℕ
  maxLateUs : ℕ
  deriving DecidableEq, Repr

def audioConfig : JitterBufferConfig where
  targetDelayUs := 60000
  maxLateUs := 40000

def videoConfig : JitterBufferConfig where
  targetDelayUs := 40000
  maxLateUs := 80000

/-! ## Machine integers -/

/-- The cast from `u64` to `i64`. -/
def asI64 (x : ℕ) : ℤ := (x : ℤ).bmod (2 ^ 64)

/-- The cast from `i64` to `u64`. -/
def asU64 (x : ℤ) : ℕ := (x % 2 ^ 64).toNat

def addU64 (a b : ℕ) : Option ℕ := if a + b < 2 ^ 64 then some (a + b) else none

def addI64 (a b : ℤ) : Option ℤ :=
  if -2 ^ 63 ≤ a + b ∧ a + b < 2 ^ 63 then some (a + b) else none

/-! ## The queue -/

/-- Packets under their timestamps, as an ordered map holds them. -/
structure Queue where
  packets : List MediaObject
  sorted : packets.Pairwise fun a b => a.captureTimestampUs < b.captureTimestampUs

namespace Queue

def empty : Queue := ⟨[], .nil⟩

def contains (q : Queue) (ts : ℕ) : Bool := q.packets.any fun obj => obj.captureTimestampUs = ts

def insert (q : Queue) (obj : MediaObject) : Queue where
  packets :=
    q.packets.filter (fun a => a.captureTimestampUs < obj.captureTimestampUs) ++
      obj :: q.packets.filter (fun a => obj.captureTimestampUs < a.captureTimestampUs)
  sorted := by
    refine List.pairwise_append.mpr ⟨q.sorted.filter _, List.pairwise_cons.mpr ⟨?_, q.sorted.filter _⟩, ?_⟩
    · intro a ha
      simpa using (List.mem_filter.mp ha).2
    · intro a ha b hb
      have hlt : a.captureTimestampUs < obj.captureTimestampUs := by
        simpa using (List.mem_filter.mp ha).2
      rcases List.mem_cons.mp hb with rfl | hb
      · exact hlt
      · have hlt' : obj.captureTimestampUs < b.captureTimestampUs := by
          simpa using (List.mem_filter.mp hb).2
        exact hlt.trans hlt'

/-- The queue without its first `n` packets. -/
def drop (q : Queue) (n : ℕ) : Queue := ⟨q.packets.drop n, q.sorted.sublist (List.drop_sublist n _)⟩

theorem mem_insert {q : Queue} {obj a : MediaObject} (h : a ∈ (q.insert obj).packets) :
    a = obj ∨ a ∈ q.packets := by
  rcases List.mem_append.mp h with h | h
  · exact .inr (List.mem_filter.mp h).1
  · rcases List.mem_cons.mp h with rfl | h
    · exact .inl rfl
    · exact .inr (List.mem_filter.mp h).1

end Queue

structure JitterStats where
  received : ℕ := 0
  played : ℕ := 0
  droppedLate : ℕ := 0
  droppedDuplicate : ℕ := 0
  deriving DecidableEq, Repr

def plcSentinelTimestamp : ℕ := 2 ^ 64 - 1

/-- The object that asks the decoder to conceal a lost packet. -/
def plcSentinel : MediaObject where
  groupId := 0
  subgroupId := 0
  objectId := 0
  captureTimestampUs := plcSentinelTimestamp
  codec := none
  payload := []

/-- Distance between audio frames. -/
def frameUs : ℕ := 20000

structure JitterBuffer where
  config : JitterBufferConfig
  isClockMaster : Bool
  emitPlc : Bool
  /-- The offset that the peer's clock shows, if it is initialised. -/
  peerClock : Option ℤ
  clockOffsetUs : Option ℤ
  queue : Queue := .empty
  lastEmittedTs : Option ℕ := none
  stats : JitterStats := {}
  /-- The packets that have arrived, and the offsets seen at those with a timestamp. -/
  arrived : List MediaObject := []
  seen : List ℤ := []
  /-- What has been offered downstream. -/
  out : List MediaObject := []

namespace JitterBuffer

/-- A buffer that begins to run. Video starts from the offset that audio has found. -/
def new (config : JitterBufferConfig) (isClockMaster emitPlc : Bool) (peerClock : Option ℤ) :
    JitterBuffer where
  config
  isClockMaster
  emitPlc
  peerClock
  clockOffsetUs := if isClockMaster then none else peerClock

def playoutUs (ts : ℕ) (offset : ℤ) : Option ℕ := (addI64 (asI64 ts) offset).map asU64

/-- The difference between the clocks that an arrival shows, with the delay on top. -/
def instantaneousOffset (config : JitterBufferConfig) (now ts : ℕ) : Option ℤ :=
  (addI64 (asI64 now) (-asI64 ts)).bind fun d => addI64 d (asI64 config.targetDelayUs)

/-- The offset after an arrival; `smoothed` is what smoothing makes of the old and the new one. -/
def updateOffset (b : JitterBuffer) (instantaneous smoothed : ℤ) : Option ℤ :=
  match b.clockOffsetUs with
  | none => some instantaneous
  | some offset =>
    if b.isClockMaster then some smoothed
    else
      match b.peerClock with
      | some clock =>
        (addI64 clock (-asI64 audioConfig.targetDelayUs)).bind fun d =>
          addI64 d (asI64 b.config.targetDelayUs)
      | none => some offset

/-- Put a packet that is in time into the queue, unless its slot is past or taken. -/
def enqueue (b : JitterBuffer) (obj : MediaObject) : JitterBuffer :=
  let duplicate : JitterBuffer :=
    { b with stats := { b.stats with droppedDuplicate := b.stats.droppedDuplicate + 1 } }
  if b.lastEmittedTs.any fun last => obj.captureTimestampUs ≤ last then duplicate
  else if b.queue.contains obj.captureTimestampUs then duplicate
  else { b with queue := b.queue.insert obj }

def receive (b : JitterBuffer) (obj : MediaObject) : JitterBuffer :=
  { b with
    stats := { b.stats with received := b.stats.received + 1 }
    arrived := b.arrived ++ [obj] }

def setOffset (b : JitterBuffer) (instantaneous offset : ℤ) : JitterBuffer :=
  { b with
    clockOffsetUs := some offset
    peerClock := if b.isClockMaster then some offset else b.peerClock
    seen := b.seen ++ [instantaneous] }

def dropLate (b : JitterBuffer) : JitterBuffer :=
  { b with stats := { b.stats with droppedLate := b.stats.droppedLate + 1 } }

/-- A packet arrives. Without a timestamp it is passed through. -/
def arrive (b : JitterBuffer) (obj : MediaObject) (now : ℕ) (smoothed : ℤ) : Option JitterBuffer :=
  let ts := obj.captureTimestampUs
  let b := b.receive obj
  if ts = 0 then
    some { b with out := b.out ++ [obj], stats := { b.stats with played := b.stats.played + 1 } }
  else
    (instantaneousOffset b.config now ts).bind fun instantaneous =>
    (b.updateOffset instantaneous smoothed).bind fun offset =>
    (playoutUs ts offset).bind fun playout =>
    (addU64 playout b.config.maxLateUs).map fun limit =>
      let b := b.setOffset instantaneous offset
      if limit < now then b.dropLate else b.enqueue obj

/-- What a wake-up takes from the front of the queue. -/
structure Released where
  emitted : List MediaObject := []
  late : ℕ := 0
  deriving DecidableEq, Repr

/-- The playout loop: due packets are emitted, or dropped if they are too late even for that. -/
def release (maxLateUs : ℕ) (offset : ℤ) (now : ℕ) : List MediaObject → Option Released
  | [] => some {}
  | obj :: rest =>
    (playoutUs obj.captureTimestampUs offset).bind fun playout =>
    if playout ≤ now then
      (addU64 playout maxLateUs).bind fun limit =>
      (release maxLateUs offset now rest).map fun r =>
        if limit < now then { r with late := r.late + 1 }
        else { r with emitted := obj :: r.emitted }
    else some {}

/-- Conceal the slot behind the last one, if its playout time has come but not long passed. -/
def conceal (b : JitterBuffer) (offset : ℤ) (now : ℕ) : Option JitterBuffer :=
  match b.lastEmittedTs with
  | none => some b
  | some last =>
    (addU64 last frameUs).bind fun expectedNext =>
    (playoutUs expectedNext offset).bind fun expectedPlayout =>
    if expectedPlayout ≤ now then
      (addU64 expectedPlayout b.config.maxLateUs).map fun limit =>
        if now < limit then
          { b with lastEmittedTs := some expectedNext, out := b.out ++ [plcSentinel] }
        else b
    else some b

/-- Emit and drop what was released. -/
def take (b : JitterBuffer) (r : Released) : JitterBuffer :=
  { b with
    queue := b.queue.drop (r.emitted.length + r.late)
    lastEmittedTs := (r.emitted.getLast?.map (·.captureTimestampUs)).or b.lastEmittedTs
    stats := { b.stats with
      played := b.stats.played + r.emitted.length
      droppedLate := b.stats.droppedLate + r.late }
    out := b.out ++ r.emitted }

/-- The sleep has ended. -/
def wake (b : JitterBuffer) (now : ℕ) : Option JitterBuffer :=
  match b.clockOffsetUs with
  | none => some b
  | some offset =>
    (release b.config.maxLateUs offset now b.queue.packets).bind fun r =>
      if r.emitted.isEmpty && b.emitPlc then (b.take r).conceal offset now else some (b.take r)

inductive Action
  | arrive (obj : MediaObject) (now : ℕ) (smoothed : ℤ)
  | wake (now : ℕ)
  /-- The audio buffer of the same peer updates the clock. -/
  | syncClock (offset : ℤ)

def step (b : JitterBuffer) : Action → Option JitterBuffer
  | .arrive obj now smoothed => b.arrive obj now smoothed
  | .wake now => b.wake now
  | .syncClock offset => if b.isClockMaster then none else some { b with peerClock := some offset }

end JitterBuffer

end Meshconf.Jitter
