import Mathlib.Tactic.Common
import Meshconf.Jitter.Buffer

/-! # The arithmetic of the jitter buffer

A build may check the sums of machine integers or let them wrap. The steps of the
buffer are the same over either arithmetic, and a sum that comes out is right modulo
the width of its type.
-/

namespace Meshconf.Jitter

open Protocol

/-- Additions of machine integers, `none` where they end the task. -/
structure Arithmetic where
  addU64 : ℕ → ℕ → Option ℕ
  addI64 : ℤ → ℤ → Option ℤ

namespace Arithmetic

def checked : Arithmetic where
  addU64 := Jitter.addU64
  addI64 := Jitter.addI64

/-- The arithmetic of a build without overflow checks. -/
def wrapping : Arithmetic where
  addU64 a b := some ((a + b) % 2 ^ 64)
  addI64 a b := some ((a + b).bmod (2 ^ 64))

variable (ar : Arithmetic)

def playoutUs (ts : ℕ) (offset : ℤ) : Option ℕ := (ar.addI64 (asI64 ts) offset).map asU64

def instantaneousOffset (config : JitterBufferConfig) (now ts : ℕ) : Option ℤ :=
  (ar.addI64 (asI64 now) (-asI64 ts)).bind fun d => ar.addI64 d (asI64 config.targetDelayUs)

def updateOffset (b : JitterBuffer) (instantaneous smoothed : ℤ) : Option ℤ :=
  match b.clockOffsetUs with
  | none => some instantaneous
  | some offset =>
    if b.isClockMaster then some smoothed
    else
      match b.peerClock with
      | some clock =>
        (ar.addI64 clock (-asI64 audioConfig.targetDelayUs)).bind fun d =>
          ar.addI64 d (asI64 b.config.targetDelayUs)
      | none => some offset

def arrive (b : JitterBuffer) (obj : MediaObject) (now : ℕ) (smoothed : ℤ) : Option JitterBuffer :=
  let ts := obj.captureTimestampUs
  let b := b.receive obj
  if ts = 0 then
    some { b with out := b.out ++ [obj], stats := { b.stats with played := b.stats.played + 1 } }
  else
    (ar.instantaneousOffset b.config now ts).bind fun instantaneous =>
    (ar.updateOffset b instantaneous smoothed).bind fun offset =>
    (ar.playoutUs ts offset).bind fun playout =>
    (ar.addU64 playout b.config.maxLateUs).map fun limit =>
      let b := b.setOffset instantaneous offset
      if limit < now then b.dropLate else b.enqueue obj

def release (maxLateUs : ℕ) (offset : ℤ) (now : ℕ) :
    List MediaObject → Option JitterBuffer.Released
  | [] => some {}
  | obj :: rest =>
    (ar.playoutUs obj.captureTimestampUs offset).bind fun playout =>
    if playout ≤ now then
      (ar.addU64 playout maxLateUs).bind fun limit =>
      (release maxLateUs offset now rest).map fun r =>
        if limit < now then { r with late := r.late + 1 }
        else { r with emitted := obj :: r.emitted }
    else some {}

def conceal (b : JitterBuffer) (offset : ℤ) (now : ℕ) : Option JitterBuffer :=
  match b.lastEmittedTs with
  | none => some b
  | some last =>
    (ar.addU64 last frameUs).bind fun expectedNext =>
    (ar.playoutUs expectedNext offset).bind fun expectedPlayout =>
    if expectedPlayout ≤ now then
      (ar.addU64 expectedPlayout b.config.maxLateUs).map fun limit =>
        if now < limit then
          { b with lastEmittedTs := some expectedNext, out := b.out ++ [plcSentinel] }
        else b
    else some b

def wake (b : JitterBuffer) (now : ℕ) : Option JitterBuffer :=
  match b.clockOffsetUs with
  | none => some b
  | some offset =>
    (ar.release b.config.maxLateUs offset now b.queue.packets).bind fun r =>
      if r.emitted.isEmpty && b.emitPlc then ar.conceal (b.take r) offset now
      else some (b.take r)

def step (b : JitterBuffer) : JitterBuffer.Action → Option JitterBuffer
  | .arrive obj now smoothed => ar.arrive b obj now smoothed
  | .wake now => ar.wake b now
  | .syncClock offset => if b.isClockMaster then none else some { b with peerClock := some offset }

@[simp] theorem checked_addU64 (a b : ℕ) : checked.addU64 a b = Jitter.addU64 a b := rfl

@[simp] theorem checked_addI64 (a b : ℤ) : checked.addI64 a b = Jitter.addI64 a b := rfl

@[simp] theorem checked_playoutUs (ts : ℕ) (offset : ℤ) :
    checked.playoutUs ts offset = JitterBuffer.playoutUs ts offset := by
  simp only [playoutUs, JitterBuffer.playoutUs, checked_addI64]

theorem checked_arrive (b : JitterBuffer) (obj : MediaObject) (now : ℕ) (smoothed : ℤ) :
    checked.arrive b obj now smoothed = b.arrive obj now smoothed := by
  have hupdate : checked.updateOffset = JitterBuffer.updateOffset := by
    funext b instantaneous smoothed
    cases hoffset : b.clockOffsetUs <;> cases hclock : b.peerClock <;>
      simp only [updateOffset, JitterBuffer.updateOffset, hoffset, hclock, checked_addI64]
  simp only [arrive, JitterBuffer.arrive, instantaneousOffset, JitterBuffer.instantaneousOffset,
    hupdate, checked_addI64, checked_addU64, checked_playoutUs]

theorem checked_release (maxLateUs : ℕ) (offset : ℤ) (now : ℕ) (l : List MediaObject) :
    checked.release maxLateUs offset now l = JitterBuffer.release maxLateUs offset now l := by
  induction l with
  | nil => rfl
  | cons obj rest ih =>
    simp only [release, JitterBuffer.release, checked_playoutUs, checked_addU64, ih]

theorem checked_conceal (b : JitterBuffer) (offset : ℤ) (now : ℕ) :
    checked.conceal b offset now = b.conceal offset now := by
  cases hlast : b.lastEmittedTs <;>
    simp only [conceal, JitterBuffer.conceal, hlast, checked_playoutUs, checked_addU64]

variable {ar} {b b' : JitterBuffer}

/-- A sum that comes out is right modulo the width of its type. -/
structure Modular (ar : Arithmetic) : Prop where
  addU64 : ∀ a b c, ar.addU64 a b = some c → c = (a + b) % 2 ^ 64
  addI64 : ∀ a b c, ar.addI64 a b = some c → c = (a + b).bmod (2 ^ 64)

theorem checked_modular : checked.Modular where
  addU64 a b c h := by
    rw [checked_addU64, Jitter.addU64] at h
    split_ifs at h with hlt
    rw [← Option.some.inj h, Nat.mod_eq_of_lt hlt]
  addI64 a b c h := by
    rw [checked_addI64, Jitter.addI64] at h
    split_ifs at h with hrange
    rw [← Option.some.inj h]
    apply (Int.bmod_eq_of_le _ _).symm <;> omega

theorem wrapping_modular : wrapping.Modular where
  addU64 _ _ _ h := (Option.some.inj h).symm
  addI64 _ _ _ h := (Option.some.inj h).symm

/-- Casts and sums together: a playout time is known modulo the width. -/
theorem Modular.playoutUs_eq (har : ar.Modular) {ts p : ℕ} {offset : ℤ}
    (h : ar.playoutUs ts offset = some p) : (p : ℤ) = (ts + offset) % 2 ^ 64 := by
  obtain ⟨d, hd, rfl⟩ := Option.map_eq_some_iff.mp h
  have hsum : d = (ts + offset).bmod (2 ^ 64) :=
    (har.addI64 _ _ _ hd).trans (Int.bmod_add_bmod ..)
  have hmod : d % 2 ^ 64 = (ts + offset) % 2 ^ 64 := by
    rw [hsum]
    exact_mod_cast Int.bmod_emod
  rw [asU64, Int.toNat_of_nonneg (Int.emod_nonneg d (by norm_num)), hmod]

/-- The steps of the buffer, whatever its sums come out as. -/
inductive Stepped (ar : Arithmetic) (b : JitterBuffer) :
    JitterBuffer.Action → JitterBuffer → Prop where
  | pass {obj : MediaObject} {now : ℕ} {smoothed : ℤ} : obj.captureTimestampUs = 0 →
      Stepped ar b (.arrive obj now smoothed) { b.receive obj with
        out := b.out ++ [obj]
        stats := { (b.receive obj).stats with played := b.stats.played + 1 } }
  | late {obj : MediaObject} {now : ℕ} {smoothed : ℤ} (instantaneous offset : ℤ) :
      Stepped ar b (.arrive obj now smoothed)
        ((b.receive obj).setOffset instantaneous offset).dropLate
  | enqueue {obj : MediaObject} {now : ℕ} {smoothed : ℤ} (instantaneous offset : ℤ) :
      Stepped ar b (.arrive obj now smoothed)
        (((b.receive obj).setOffset instantaneous offset).enqueue obj)
  | idle {now : ℕ} : Stepped ar b (.wake now) b
  | take {now : ℕ} {offset : ℤ} {r : JitterBuffer.Released} :
      ar.release b.config.maxLateUs offset now b.queue.packets = some r →
      Stepped ar b (.wake now) (b.take r)
  | conceal {now : ℕ} {offset : ℤ} {r : JitterBuffer.Released} (next : ℕ) :
      ar.release b.config.maxLateUs offset now b.queue.packets = some r →
      Stepped ar b (.wake now) { b.take r with
        lastEmittedTs := some next
        out := (b.take r).out ++ [plcSentinel] }
  | syncClock {offset : ℤ} : b.isClockMaster = false →
      Stepped ar b (.syncClock offset) { b with peerClock := some offset }

/-- A slot is left alone, or filled with a sentinel. -/
theorem conceal_eq {offset : ℤ} {now : ℕ} (hs : ar.conceal b offset now = some b') :
    b' = b ∨
      ∃ next, b' = { b with lastEmittedTs := some next, out := b.out ++ [plcSentinel] } := by
  unfold conceal at hs
  cases hlast : b.lastEmittedTs with
  | none =>
    rw [hlast] at hs
    exact .inl (Option.some.inj hs).symm
  | some last =>
    rw [hlast] at hs
    obtain ⟨next, -, hs⟩ := Option.bind_eq_some_iff.mp hs
    obtain ⟨playout, -, hs⟩ := Option.bind_eq_some_iff.mp hs
    split_ifs at hs
    · obtain ⟨limit, -, rfl⟩ := Option.map_eq_some_iff.mp hs
      split_ifs
      · exact .inr ⟨next, rfl⟩
      · exact .inl rfl
    · exact .inl (Option.some.inj hs).symm

theorem stepped_of_arrive {obj : MediaObject} {now : ℕ} {smoothed : ℤ}
    (hs : ar.arrive b obj now smoothed = some b') :
    Stepped ar b (.arrive obj now smoothed) b' := by
  simp only [arrive] at hs
  split_ifs at hs with hts
  · obtain rfl := Option.some.inj hs
    exact .pass hts
  · obtain ⟨instantaneous, -, hs⟩ := Option.bind_eq_some_iff.mp hs
    obtain ⟨offset, -, hs⟩ := Option.bind_eq_some_iff.mp hs
    obtain ⟨playout, -, hs⟩ := Option.bind_eq_some_iff.mp hs
    obtain ⟨limit, -, rfl⟩ := Option.map_eq_some_iff.mp hs
    split_ifs
    · exact .late instantaneous offset
    · exact .enqueue instantaneous offset

theorem stepped_of_wake {now : ℕ} (hs : ar.wake b now = some b') :
    Stepped ar b (.wake now) b' := by
  unfold wake at hs
  cases hoffset : b.clockOffsetUs with
  | none =>
    rw [hoffset] at hs
    obtain rfl := Option.some.inj hs
    exact .idle
  | some offset =>
    rw [hoffset] at hs
    obtain ⟨r, hr, hs⟩ := Option.bind_eq_some_iff.mp hs
    split_ifs at hs
    · rcases conceal_eq hs with rfl | ⟨next, rfl⟩
      · exact .take hr
      · exact .conceal next hr
    · obtain rfl := Option.some.inj hs
      exact .take hr

theorem stepped_of_step {a : JitterBuffer.Action} (hs : ar.step b a = some b') :
    Stepped ar b a b' := by
  cases a with
  | arrive obj now smoothed => exact stepped_of_arrive hs
  | wake now => exact stepped_of_wake hs
  | syncClock offset =>
    simp only [step] at hs
    split_ifs at hs with hmaster
    obtain rfl := Option.some.inj hs
    exact .syncClock (Bool.eq_false_iff.mpr hmaster)

/-- A step only adds to what was offered, and records what arrived. -/
theorem Stepped.grows {a : JitterBuffer.Action} (h : Stepped ar b a b') :
    b'.config = b.config ∧ b.out <+: b'.out ∧
      ∀ obj ∈ b'.arrived, obj ∈ b.arrived ∨ ∃ now smoothed, a = .arrive obj now smoothed := by
  have hnew : ∀ {obj : MediaObject} {now : ℕ} {smoothed : ℤ}, a = .arrive obj now smoothed →
      ∀ obj' ∈ b.arrived ++ [obj],
        obj' ∈ b.arrived ∨ ∃ now smoothed, a = .arrive obj' now smoothed := by
    rintro obj now smoothed rfl obj' hobj'
    rcases List.mem_append.mp hobj' with hold | hnew
    · exact .inl hold
    · obtain rfl := List.mem_singleton.mp hnew
      exact .inr ⟨now, smoothed, rfl⟩
  cases h with
  | pass _ => exact ⟨rfl, List.prefix_append _ _, hnew rfl⟩
  | late _ _ => exact ⟨rfl, List.prefix_rfl, hnew rfl⟩
  | enqueue _ _ =>
    unfold JitterBuffer.enqueue
    split_ifs <;> exact ⟨rfl, List.prefix_rfl, hnew rfl⟩
  | idle => exact ⟨rfl, List.prefix_rfl, fun _ => .inl⟩
  | take _ => exact ⟨rfl, List.prefix_append _ _, fun _ => .inl⟩
  | conceal _ _ =>
    exact ⟨rfl, (List.prefix_append _ _).trans (List.prefix_append _ _), fun _ => .inl⟩
  | syncClock _ => exact ⟨rfl, List.prefix_rfl, fun _ => .inl⟩

/-- With checked additions this is the jitter buffer as it stands. -/
theorem checked_step : checked.step = JitterBuffer.step := by
  funext b a
  cases a with
  | arrive obj now smoothed => exact checked_arrive b obj now smoothed
  | wake now =>
    cases hoffset : b.clockOffsetUs <;>
      simp only [step, JitterBuffer.step, wake, JitterBuffer.wake, hoffset, checked_release,
        checked_conceal]
  | syncClock offset => rfl

end Arithmetic

end Meshconf.Jitter
