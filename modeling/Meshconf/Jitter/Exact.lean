import Meshconf.Jitter.Accounting
import Meshconf.Jitter.Order

/-! # Exact playout times

The buffer compares playout times as unsigned numbers. A packet whose playout time
lies before the epoch is taken for one far in the future: it is neither late nor due,
and keeps back what is queued behind it. Where the playout times that a step looks at
are in range, its decisions are those of exact integers.
-/

namespace Meshconf.Jitter

open Protocol Transition

/-- A number that the casts between signed and unsigned integers keep. -/
def InRange (p : ℤ) : Prop := 0 ≤ p ∧ p < 2 ^ 63

instance (p : ℤ) : Decidable (InRange p) := inferInstanceAs (Decidable (_ ∧ _))

theorem asI64_eq_iff {x : ℕ} : asI64 x = x ↔ x < 2 ^ 63 := by
  constructor
  · intro h
    unfold asI64 at h
    rw [Int.bmod_def] at h
    split_ifs at h <;> omega
  · exact asI64_of_lt

theorem asU64_eq {x : ℤ} (h : InRange x) : (asU64 x : ℤ) = x := by
  obtain ⟨hlo, hhi⟩ := h
  unfold asU64
  omega

theorem addU64_eq_some_iff {a b c : ℕ} : addU64 a b = some c ↔ c = a + b ∧ a + b < 2 ^ 64 := by
  unfold addU64
  split_ifs with h
  · simp only [Option.some.injEq, h, and_true, eq_comm]
  · simp only [h, and_false]

theorem addI64_eq_some_iff {a b c : ℤ} :
    addI64 a b = some c ↔ c = a + b ∧ -2 ^ 63 ≤ a + b ∧ a + b < 2 ^ 63 := by
  unfold addI64
  split_ifs with h
  · simp only [Option.some.injEq, h, and_true, eq_comm]
  · simp only [h, and_false]

/-- When a packet is to be played, as an integer that may be negative. -/
def playoutTime (offset : ℤ) (obj : MediaObject) : ℤ := obj.captureTimestampUs + offset

namespace JitterBuffer

variable {b b' : JitterBuffer} {obj : MediaObject} {now ts : ℕ} {offset smoothed : ℤ}

/-- The playout time of a timestamp and its limit come out without wrapping or overflow. -/
def Computed (maxLateUs ts : ℕ) (offset : ℤ) : Prop :=
  asI64 ts = ts ∧ ∃ p, playoutUs ts offset = some p ∧ (p : ℤ) = ts + offset ∧
    addU64 p maxLateUs = some (p + maxLateUs)

/-- The clock offset that an arrival is judged by. -/
def offsetAt (b : JitterBuffer) (obj : MediaObject) (now : ℕ) (smoothed : ℤ) : ℤ :=
  match b.clockOffsetUs with
  | none => now - obj.captureTimestampUs + b.config.targetDelayUs
  | some _ => smoothed

/-- A wake-up looks at a packet if everything before it is due. -/
def LookedAt (b : JitterBuffer) (offset : ℤ) (now : ℕ) (obj : MediaObject) : Prop :=
  obj ∈ b.queue.packets ∧ ∀ other ∈ b.queue.packets,
    other.captureTimestampUs < obj.captureTimestampUs → playoutTime offset other ≤ now

/-- A packet that is to be emitted at this time. -/
def InTime (maxLateUs : ℕ) (offset : ℤ) (now : ℕ) (obj : MediaObject) : Prop :=
  playoutTime offset obj ≤ now ∧ now ≤ playoutTime offset obj + maxLateUs

instance (maxLateUs : ℕ) (offset : ℤ) (now : ℕ) (obj : MediaObject) :
    Decidable (InTime maxLateUs offset now obj) := inferInstanceAs (Decidable (_ ∧ _))

/-- A wake-up that emits nothing looks at the slot behind the last one. -/
def Concealing (b : JitterBuffer) (offset : ℤ) (now : ℕ) : Prop :=
  b.emitPlc = true ∧ ∀ obj ∈ b.queue.packets, ¬ InTime b.config.maxLateUs offset now obj

/-! ## What exactness asks for -/

/-- The sleep before a step is computed exactly. -/
def ExactSleep (b : JitterBuffer) : Prop :=
  ∀ front ∈ b.queue.packets.head?, ∀ offset ∈ b.clockOffsetUs,
    Computed b.config.maxLateUs front.captureTimestampUs offset

/-- An arrival is dropped as late exactly if its time and the limit have passed. -/
structure ExactArrival (b : JitterBuffer) (obj : MediaObject) (now : ℕ) (smoothed : ℤ) :
    Prop where
  clock : asI64 now = now
  sample : instantaneousOffset b.config now obj.captureTimestampUs =
    some ((now : ℤ) - obj.captureTimestampUs + b.config.targetDelayUs)
  playout : Computed b.config.maxLateUs obj.captureTimestampUs (b.offsetAt obj now smoothed)
  decision : ∃ b', b.arrive obj now smoothed = some b' ∧
    b'.clockOffsetUs = some (b.offsetAt obj now smoothed) ∧
    (playoutTime (b.offsetAt obj now smoothed) obj + b.config.maxLateUs < now →
      b'.stats.droppedLate = b.stats.droppedLate + 1 ∧ b'.queue = b.queue) ∧
    (now ≤ playoutTime (b.offsetAt obj now smoothed) obj + b.config.maxLateUs →
      b'.stats.droppedLate = b.stats.droppedLate)

/-- A wake-up emits what is due in time, drops what is late, and leaves what is not due. -/
structure ExactWake (b : JitterBuffer) (now : ℕ) (offset : ℤ) : Prop where
  playout : ∀ obj, b.LookedAt offset now obj →
    Computed b.config.maxLateUs obj.captureTimestampUs offset
  slot : ∀ last ∈ b.lastEmittedTs, b.Concealing offset now →
    addU64 last frameUs = some (last + frameUs) ∧
      Computed b.config.maxLateUs (last + frameUs) offset
  decision : ∃ b' plcs, b.wake now = some b' ∧
    b'.out = b.out ++ b.queue.packets.filter (InTime b.config.maxLateUs offset now) ++ plcs ∧
    (∀ plc ∈ plcs, plc = plcSentinel) ∧
    b'.stats.droppedLate = b.stats.droppedLate +
      b.queue.packets.countP (fun obj => playoutTime offset obj + b.config.maxLateUs < now) ∧
    b'.queue.packets = b.queue.packets.filter fun obj => now < playoutTime offset obj

def Exact (b : JitterBuffer) : Action → Prop
  | .arrive obj now smoothed => b.ExactSleep ∧ b.ExactArrival obj now smoothed
  | .wake now => b.ExactSleep ∧ ∀ offset ∈ b.clockOffsetUs, b.ExactWake now offset
  | .syncClock _ => True

/-! ## When it is met -/

/-- The packet that the sleep is computed from has a playout time in range. -/
def SoundFront (b : JitterBuffer) : Prop :=
  ∀ front ∈ b.queue.packets.head?, ∀ offset ∈ b.clockOffsetUs, InRange (playoutTime offset front)

/-- The playout times that a step looks at are in range, and so is the clock. -/
def Sound (b : JitterBuffer) : Action → Prop
  | .arrive obj now smoothed => b.SoundFront ∧ now < 2 ^ 63 ∧
      (now - obj.captureTimestampUs + b.config.targetDelayUs : ℤ) < 2 ^ 63 ∧
      InRange (playoutTime (b.offsetAt obj now smoothed) obj)
  | .wake now => b.SoundFront ∧ ∀ offset ∈ b.clockOffsetUs,
      (∀ obj, b.LookedAt offset now obj → InRange (playoutTime offset obj)) ∧
      ∀ last ∈ b.lastEmittedTs, b.Concealing offset now →
        last + frameUs < 2 ^ 63 ∧ InRange (last + frameUs + offset)
  | .syncClock _ => True

/-- Packets have the timestamps that a remote can send. -/
def Timestamped (_ : JitterBuffer) : Action → Prop
  | .arrive obj _ _ => 0 < obj.captureTimestampUs ∧ obj.captureTimestampUs < 2 ^ 62
  | _ => True

/-- An audio buffer, with timestamps in its queue that a remote can send. -/
structure Audio (b : JitterBuffer) : Prop where
  config : b.config = audioConfig
  master : b.isClockMaster = true
  queued : ∀ obj ∈ b.queue.packets, obj.captureTimestampUs < 2 ^ 62

theorem computed_iff {maxLateUs : ℕ} (hlate : maxLateUs < 2 ^ 63) :
    Computed maxLateUs ts offset ↔ ts < 2 ^ 63 ∧ InRange (ts + offset) := by
  unfold Computed
  rw [asI64_eq_iff]
  constructor
  · rintro ⟨hts, p, hp, hexact, -⟩
    obtain ⟨hlo, hhi, -⟩ := playoutUs_eq hts hp
    exact ⟨hts, by omega, hhi⟩
  · rintro ⟨hts, hrange⟩
    refine ⟨hts, asU64 (ts + offset), ?_, asU64_eq hrange, ?_⟩
    · rw [playoutUs, asI64_of_lt hts, Option.map_eq_some_iff]
      exact ⟨_, addI64_eq_some_iff.mpr ⟨rfl, by have := hrange.1; omega, hrange.2⟩, rfl⟩
    · have heq := asU64_eq hrange
      have hhi := hrange.2
      exact addU64_eq_some_iff.mpr ⟨rfl, by omega⟩

/-! ## Arrivals -/

theorem sample_iff {config : JitterBufferConfig} (hnow : now < 2 ^ 63) (hts : ts < 2 ^ 62)
    (hdelay : config.targetDelayUs < 2 ^ 62) :
    instantaneousOffset config now ts = some ((now : ℤ) - ts + config.targetDelayUs) ↔
      (now - ts + config.targetDelayUs : ℤ) < 2 ^ 63 := by
  have hdiff : addI64 (asI64 now) (-asI64 ts) = some (now - ts : ℤ) := by
    rw [asI64_of_lt hnow, asI64_of_lt (by omega), addI64_eq_some_iff]
    omega
  unfold instantaneousOffset
  rw [hdiff, Option.bind_some, asI64_of_lt (by omega), addI64_eq_some_iff]
  omega

theorem updateOffset_audio (h : b.isClockMaster = true) :
    b.updateOffset (now - obj.captureTimestampUs + b.config.targetDelayUs) smoothed =
      some (b.offsetAt obj now smoothed) := by
  unfold updateOffset offsetAt
  cases b.clockOffsetUs with
  | none => rfl
  | some offset => exact if_pos h

theorem enqueue_frame (b : JitterBuffer) (obj : MediaObject) :
    (b.enqueue obj).stats.droppedLate = b.stats.droppedLate ∧
      (b.enqueue obj).clockOffsetUs = b.clockOffsetUs := by
  unfold enqueue
  split_ifs <;> exact ⟨rfl, rfl⟩

theorem Audio.exactArrival_iff (h : b.Audio) (hpos : 0 < obj.captureTimestampUs)
    (hlt : obj.captureTimestampUs < 2 ^ 62) :
    b.ExactArrival obj now smoothed ↔ now < 2 ^ 63 ∧
      (now - obj.captureTimestampUs + b.config.targetDelayUs : ℤ) < 2 ^ 63 ∧
      InRange (playoutTime (b.offsetAt obj now smoothed) obj) := by
  have hconfig := h.config
  have hlate : b.config.maxLateUs < 2 ^ 63 := by rw [hconfig]; decide
  have hdelay : b.config.targetDelayUs < 2 ^ 62 := by rw [hconfig]; decide
  constructor
  · intro hexact
    have hnow := asI64_eq_iff.mp hexact.clock
    exact ⟨hnow, (sample_iff hnow hlt hdelay).mp hexact.sample,
      ((computed_iff hlate).mp hexact.playout).2⟩
  · rintro ⟨hnow, hsample, hrange⟩
    have hinst := (sample_iff hnow hlt hdelay).mpr hsample
    have hcomputed := (computed_iff hlate).mpr ⟨by omega, hrange⟩
    refine ⟨asI64_of_lt hnow, hinst, hcomputed, ?_⟩
    obtain ⟨-, p, hp, hexact, hlimit⟩ := hcomputed
    have hupdate : (b.receive obj).updateOffset
        (now - obj.captureTimestampUs + b.config.targetDelayUs) smoothed =
          some (b.offsetAt obj now smoothed) := updateOffset_audio h.master
    have harrive : b.arrive obj now smoothed = some
        (if p + b.config.maxLateUs < now then
          ((b.receive obj).setOffset (now - obj.captureTimestampUs + b.config.targetDelayUs)
            (b.offsetAt obj now smoothed)).dropLate
        else ((b.receive obj).setOffset (now - obj.captureTimestampUs + b.config.targetDelayUs)
            (b.offsetAt obj now smoothed)).enqueue obj) := by
      unfold arrive
      rw [if_neg hpos.ne']
      refine Option.bind_eq_some_iff.mpr ⟨_, hinst, ?_⟩
      refine Option.bind_eq_some_iff.mpr ⟨_, hupdate, ?_⟩
      refine Option.bind_eq_some_iff.mpr ⟨p, hp, ?_⟩
      exact Option.map_eq_some_iff.mpr ⟨_, hlimit, rfl⟩
    refine ⟨_, harrive, ?_, ?_, ?_⟩
    · split_ifs
      · rfl
      · exact (enqueue_frame _ _).2
    · intro hlate
      rw [if_pos (by unfold playoutTime at hlate; omega)]
      exact ⟨rfl, rfl⟩
    · intro hlate
      rw [if_neg (by unfold playoutTime at hlate; omega)]
      exact (enqueue_frame _ _).1

/-! ## Wake-ups -/

/-- Of packets that are not due, none is played or late. -/
theorem filter_of_ahead (maxLateUs : ℕ) {l : List MediaObject}
    (hahead : ∀ obj ∈ l, now < playoutTime offset obj) :
    l.filter (InTime maxLateUs offset now) = [] ∧
      l.countP (fun obj => playoutTime offset obj + maxLateUs < now) = 0 ∧
      l.filter (fun obj => now < playoutTime offset obj) = l := by
  refine ⟨List.filter_eq_nil_iff.mpr fun obj hobj => ?_,
    List.countP_eq_zero.mpr fun obj hobj => ?_,
    List.filter_eq_self.mpr fun obj hobj => by simpa using hahead obj hobj⟩
  · have := hahead obj hobj
    rw [decide_eq_true_eq, InTime]
    omega
  · have := hahead obj hobj
    rw [decide_eq_true_eq]
    omega

/-- A packet that is due is played or too late, and the loop goes on behind it. -/
theorem release_due {maxLateUs p limit : ℕ} {obj : MediaObject} {rest : List MediaObject}
    {r : Released} (hp : playoutUs obj.captureTimestampUs offset = some p)
    (hlimit : addU64 p maxLateUs = some limit) (hdue : p ≤ now)
    (hr : release maxLateUs offset now rest = some r) :
    release maxLateUs offset now (obj :: rest) =
      some (if limit < now then { r with late := r.late + 1 }
        else { r with emitted := obj :: r.emitted }) := by
  unfold release
  refine Option.bind_eq_some_iff.mpr ⟨p, hp, ?_⟩
  rw [if_pos hdue]
  refine Option.bind_eq_some_iff.mpr ⟨_, hlimit, ?_⟩
  exact Option.map_eq_some_iff.mpr ⟨r, hr, rfl⟩

/-- The playout loop on a sorted queue whose playout times, as far as it looks, are in range. -/
theorem release_exact {maxLateUs : ℕ} {l : List MediaObject}
    (hsorted : l.Pairwise fun a b => a.captureTimestampUs < b.captureTimestampUs)
    (hlooked : ∀ obj ∈ l, (∀ other ∈ l, other.captureTimestampUs < obj.captureTimestampUs →
      playoutTime offset other ≤ now) → Computed maxLateUs obj.captureTimestampUs offset) :
    ∃ r, release maxLateUs offset now l = some r ∧
      r.emitted = l.filter (InTime maxLateUs offset now) ∧
      r.late = l.countP (fun obj => playoutTime offset obj + maxLateUs < now) ∧
      l.drop (r.emitted.length + r.late) = l.filter fun obj => now < playoutTime offset obj := by
  induction l with
  | nil => exact ⟨{}, rfl, rfl, rfl, rfl⟩
  | cons obj rest ih =>
    obtain ⟨hfirst, hrest⟩ := List.pairwise_cons.mp hsorted
    obtain ⟨-, p, hp, hexact, hlimit⟩ := hlooked obj List.mem_cons_self fun other hother hlt => by
      rcases List.mem_cons.mp hother with rfl | hother
      · omega
      · exact absurd (hfirst other hother) (by omega)
    have hobj : playoutTime offset obj = p := hexact.symm
    by_cases hdue : p ≤ now
    · obtain ⟨r, hr, hemitted, hcount, hleft⟩ := ih hrest fun next hnext hsmaller =>
        hlooked next (List.mem_cons_of_mem _ hnext) fun other hother hlt => by
          rcases List.mem_cons.mp hother with rfl | hother
          · omega
          · exact hsmaller other hother hlt
      refine ⟨_, release_due hp hlimit hdue hr, ?_⟩
      have hwaiting : ¬ now < playoutTime offset obj := by omega
      by_cases hpast : p + maxLateUs < now
      · have hin : ¬ InTime maxLateUs offset now obj := by
          unfold InTime
          omega
        have hlate : playoutTime offset obj + maxLateUs < now := by omega
        simp only [if_pos hpast, List.filter_cons, List.countP_cons, decide_eq_true_eq, hin, hlate,
          hwaiting, if_true, if_false, ← Nat.add_assoc, List.drop_succ_cons]
        exact ⟨hemitted, by rw [hcount], hleft⟩
      · have hin : InTime maxLateUs offset now obj := by
          unfold InTime
          omega
        have hlate : ¬ playoutTime offset obj + maxLateUs < now := by omega
        simp only [if_neg hpast, List.filter_cons, List.countP_cons, decide_eq_true_eq, hin, hlate,
          hwaiting, if_true, if_false, Nat.add_zero, List.length_cons, Nat.add_right_comm,
          List.drop_succ_cons]
        exact ⟨by rw [hemitted], hcount, hleft⟩
    · -- Nothing behind a packet that is not due is due.
      have hafter : ∀ next ∈ obj :: rest, now < playoutTime offset next := by
        intro next hnext
        rcases List.mem_cons.mp hnext with rfl | hnext
        · omega
        · have := hfirst next hnext
          unfold playoutTime at hobj ⊢
          omega
      obtain ⟨hnone, hlateNone, hall⟩ := filter_of_ahead maxLateUs hafter
      have hrelease : release maxLateUs offset now (obj :: rest) = some {} := by
        unfold release
        exact Option.bind_eq_some_iff.mpr ⟨p, hp, if_neg hdue⟩
      exact ⟨{}, hrelease, hnone.symm, hlateNone.symm, hall.symm⟩

/-- A slot whose playout time is in range is concealed or left alone. -/
theorem conceal_exact (now : ℕ) (hslot : ∀ last ∈ b.lastEmittedTs,
    addU64 last frameUs = some (last + frameUs) ∧
      Computed b.config.maxLateUs (last + frameUs) offset) :
    ∃ b' plcs, b.conceal offset now = some b' ∧ b'.out = b.out ++ plcs ∧
      (∀ plc ∈ plcs, plc = plcSentinel) ∧ b'.stats = b.stats ∧ b'.queue = b.queue := by
  cases hlast : b.lastEmittedTs with
  | none =>
    have hconceal : b.conceal offset now = some b := by
      unfold conceal
      rw [hlast]
    exact ⟨b, [], hconceal, by simp, by simp, rfl, rfl⟩
  | some last =>
    obtain ⟨hnext, -, p, hp, -, hlimit⟩ := hslot last hlast
    by_cases hdue : p ≤ now
    · have hconceal : b.conceal offset now = some
          (if now < p + b.config.maxLateUs then
            { b with lastEmittedTs := some (last + frameUs), out := b.out ++ [plcSentinel] }
          else b) := by
        unfold conceal
        rw [hlast]
        refine Option.bind_eq_some_iff.mpr ⟨_, hnext, ?_⟩
        refine Option.bind_eq_some_iff.mpr ⟨p, hp, ?_⟩
        rw [if_pos hdue]
        exact Option.map_eq_some_iff.mpr ⟨_, hlimit, rfl⟩
      refine ⟨_, if now < p + b.config.maxLateUs then [plcSentinel] else [], hconceal, ?_⟩
      split_ifs
      · exact ⟨rfl, by simp, rfl, rfl⟩
      · exact ⟨by simp, by simp, rfl, rfl⟩
    · have hconceal : b.conceal offset now = some b := by
        unfold conceal
        rw [hlast]
        refine Option.bind_eq_some_iff.mpr ⟨_, hnext, ?_⟩
        exact Option.bind_eq_some_iff.mpr ⟨p, hp, if_neg hdue⟩
      exact ⟨b, [], hconceal, by simp, by simp, rfl, rfl⟩

theorem Audio.exactWake_iff (h : b.Audio) (hoffset : b.clockOffsetUs = some offset) :
    b.ExactWake now offset ↔
      (∀ obj, b.LookedAt offset now obj → InRange (playoutTime offset obj)) ∧
      ∀ last ∈ b.lastEmittedTs, b.Concealing offset now →
        last + frameUs < 2 ^ 63 ∧ InRange (last + frameUs + offset) := by
  have hlate : b.config.maxLateUs < 2 ^ 63 := by rw [h.config]; decide
  constructor
  · intro hexact
    constructor
    · exact fun obj hobj => ((computed_iff hlate).mp (hexact.playout obj hobj)).2
    · intro last hlast hconcealing
      simpa using (computed_iff hlate).mp (hexact.slot last hlast hconcealing).2
  · rintro ⟨hpackets, hslot⟩
    have hplayout : ∀ obj, b.LookedAt offset now obj →
        Computed b.config.maxLateUs obj.captureTimestampUs offset := fun obj hobj =>
      (computed_iff hlate).mpr ⟨by have := h.queued obj hobj.1; omega, hpackets obj hobj⟩
    have hnext : ∀ last ∈ b.lastEmittedTs, b.Concealing offset now →
        addU64 last frameUs = some (last + frameUs) ∧
          Computed b.config.maxLateUs (last + frameUs) offset := by
      intro last hlast hconcealing
      obtain ⟨hlt, hrange⟩ := hslot last hlast hconcealing
      exact ⟨addU64_eq_some_iff.mpr ⟨rfl, by omega⟩,
        (computed_iff hlate).mpr ⟨hlt, by simpa using hrange⟩⟩
    refine ⟨hplayout, hnext, ?_⟩
    obtain ⟨r, hr, hemitted, hcount, hleft⟩ := release_exact b.queue.sorted
      fun obj hobj hsmaller => hplayout obj ⟨hobj, hsmaller⟩
    have hwake : b.wake now = if r.emitted.isEmpty && b.emitPlc then (b.take r).conceal offset now
        else some (b.take r) := by
      unfold wake
      rw [hoffset]
      exact congrArg (Option.bind · _) hr
    by_cases hnone : (r.emitted.isEmpty && b.emitPlc) = true
    · obtain ⟨hempty, hplc⟩ := Bool.and_eq_true_iff.mp hnone
      have hnil : r.emitted = [] := List.isEmpty_iff.mp hempty
      have hconcealing : b.Concealing offset now := by
        refine ⟨hplc, fun obj hobj hin => ?_⟩
        have := List.filter_eq_nil_iff.mp (hemitted.symm.trans hnil) obj hobj
        exact this (decide_eq_true hin)
      have hlast : (b.take r).lastEmittedTs = b.lastEmittedTs := by
        simp [take, hnil]
      have htaken : ∀ last ∈ (b.take r).lastEmittedTs, addU64 last frameUs = some (last + frameUs) ∧
          Computed (b.take r).config.maxLateUs (last + frameUs) offset :=
        fun last hl => hnext last (hlast ▸ hl) hconcealing
      obtain ⟨b', plcs, hconceal, hout, hplcs, hstats, hqueue⟩ := conceal_exact now htaken
      refine ⟨b', plcs, by rw [hwake, if_pos hnone, hconceal], ?_, hplcs, ?_, ?_⟩
      · rw [hout, ← hemitted]
        rfl
      · rw [hstats, ← hcount]
        rfl
      · rw [hqueue, ← hleft]
        rfl
    · refine ⟨b.take r, [], by rw [hwake, if_neg hnone], ?_, by simp, ?_, hleft⟩
      · rw [List.append_nil, ← hemitted]
        rfl
      · rw [← hcount]
        rfl

/-! ## Runs -/

theorem Audio.new (emitPlc : Bool) (peerClock : Option ℤ) :
    (new audioConfig true emitPlc peerClock).Audio :=
  ⟨rfl, rfl, by simp [JitterBuffer.new, Queue.empty]⟩

theorem Audio.enqueue (h : b.Audio) (hlt : obj.captureTimestampUs < 2 ^ 62) :
    (b.enqueue obj).Audio := by
  unfold JitterBuffer.enqueue
  split_ifs
  · exact ⟨h.config, h.master, h.queued⟩
  · exact ⟨h.config, h.master, h.queued⟩
  · refine ⟨h.config, h.master, ?_⟩
    intro a ha
    rcases Queue.mem_insert ha with rfl | ha
    · exact hlt
    · exact h.queued a ha

theorem Audio.step (h : b.Audio) {a : Action} (ha : b.Timestamped a) (hs : b.step a = some b') :
    b'.Audio := by
  rw [← Arithmetic.checked_step] at hs
  cases Arithmetic.stepped_of_step hs with
  | pass => exact ⟨h.config, h.master, h.queued⟩
  | late => exact ⟨h.config, h.master, h.queued⟩
  | @enqueue obj _ _ instantaneous offset =>
    have hset : ((b.receive obj).setOffset instantaneous offset).Audio :=
      ⟨h.config, h.master, h.queued⟩
    exact hset.enqueue ha.2
  | idle => exact h
  | take => exact ⟨h.config, h.master, fun obj hobj => h.queued obj (List.mem_of_mem_drop hobj)⟩
  | conceal =>
    exact ⟨h.config, h.master, fun obj hobj => h.queued obj (List.mem_of_mem_drop hobj)⟩
  | syncClock => exact ⟨h.config, h.master, h.queued⟩

theorem Audio.exactSleep_iff (h : b.Audio) : b.ExactSleep ↔ b.SoundFront := by
  have hlate : b.config.maxLateUs < 2 ^ 63 := by rw [h.config]; decide
  constructor
  · intro hexact front hfront offset hoffset
    exact ((computed_iff hlate).mp (hexact front hfront offset hoffset)).2
  · intro hsound front hfront offset hoffset
    have hts := h.queued front (List.mem_of_mem_head? hfront)
    exact (computed_iff hlate).mpr ⟨by omega, hsound front hfront offset hoffset⟩

/--
In every state that packets with proper timestamps lead to, a step is exact if and only if the
playout times it looks at are in range.
-/
theorem exact_iff_sound {emitPlc : Bool} {peerClock : Option ℤ} {as : List Action} {a : Action}
    (h : Run step Timestamped (new audioConfig true emitPlc peerClock) as b)
    (ha : b.Timestamped a) : b.Exact a ↔ b.Sound a := by
  have hb : b.Audio := h.invariant (P := Audio) (fun _ _ _ hn hc hs => hn.step hc hs)
    (.new emitPlc peerClock)
  cases a with
  | arrive obj now smoothed => exact and_congr hb.exactSleep_iff (hb.exactArrival_iff ha.1 ha.2)
  | wake now =>
    refine and_congr hb.exactSleep_iff (forall_congr' fun offset => ?_)
    exact forall_congr' fun hoffset => hb.exactWake_iff hoffset
  | syncClock offset => exact Iff.rfl

/-- The first packet of a peer whose clock has run ahead as far as a timestamp can say. -/
def farAhead : Action := .arrive (samplePacket (2 ^ 62 - 1)) 1700000000000000 0

/-- A packet with the right time, and what smoothing makes of the offset in 64-bit floats. -/
def inTheNow : Action := .arrive (samplePacket 1699999999950000) 1700000000000000
  (-4586936088335191040)

theorem exact_iff_sound_farAhead : ∃ b,
    Run step Timestamped (new audioConfig true true none) [farAhead] b ∧
      (b.Exact (.wake 1700000000000000) ↔ b.Sound (.wake 1700000000000000)) := by
  obtain ⟨b, hb, -⟩ := Option.map_eq_some_iff.mp
    (by decide +kernel : (exec step (new audioConfig true true none) [farAhead]).map
      (·.stats.received) = some 1)
  have hrun : Run step Timestamped (new audioConfig true true none) [farAhead] b := by
    obtain ⟨c, hc, hnil⟩ := Option.bind_eq_some_iff.mp hb
    obtain rfl : c = b := Option.some.inj hnil
    exact .single ⟨by decide, by decide⟩ hc
  exact ⟨b, hrun, exact_iff_sound hrun trivial⟩

/-- Long past its playout time, the second packet is not dropped as late. -/
theorem not_exact : ¬ ∀ (as : List Action) (b : JitterBuffer) (a : Action),
    Run step Timestamped (new audioConfig true true none) as b → b.Timestamped a → b.Exact a := by
  intro h
  obtain ⟨b, hb, hstep⟩ := Option.map_eq_some_iff.mp
    (by decide +kernel : (exec step (new audioConfig true true none) [farAhead]).map
      (fun b => (b.clockOffsetUs, b.config.maxLateUs,
        (b.step inTheNow).map (·.stats.droppedLate), b.stats.droppedLate)) =
      some (some (-4609986018427327903), 40000, some 0, 0))
  obtain ⟨c, hc, hnil⟩ := Option.bind_eq_some_iff.mp hb
  obtain rfl : c = b := Option.some.inj hnil
  have hrun : Run step Timestamped (new audioConfig true true none) [farAhead] c :=
    .single ⟨by decide, by decide⟩ hc
  simp only [Prod.mk.injEq] at hstep
  obtain ⟨hoffset, hmax, hnext, hlate⟩ := hstep
  obtain ⟨b', hb', -, hdrop, -⟩ := (h _ c inTheNow hrun ⟨by decide, by decide⟩).2.decision
  have hpast : playoutTime (c.offsetAt (samplePacket 1699999999950000) 1700000000000000
      (-4586936088335191040)) (samplePacket 1699999999950000) + c.config.maxLateUs <
        (1700000000000000 : ℕ) := by
    simp only [offsetAt, hoffset, hmax, playoutTime, samplePacket]
    decide
  have hcount := (hdrop hpast).1
  obtain ⟨c', hc', hzero⟩ := Option.map_eq_some_iff.mp hnext
  obtain rfl : b' = c' := Option.some.inj (hb'.symm.trans hc')
  omega

end JitterBuffer

end Meshconf.Jitter
