import Meshconf.Jitter.Arithmetic
import Meshconf.Signal.Timeline

/-! # The order of the jitter buffer's output

Whatever is queued lies behind the last slot that was played or concealed. Arrivals,
late drops, playout and concealment keep this while the clock offset drifts, although
playout times are compared as unsigned numbers. It takes no check of the sums: they have
to be right modulo the width of their type, and the slot behind the last one must not wrap.
-/

namespace Meshconf.Jitter

open Protocol Signal Transition

def IsPlc (obj : MediaObject) : Prop := obj.captureTimestampUs = plcSentinelTimestamp

instance (obj : MediaObject) : Decidable (IsPlc obj) := inferInstanceAs (Decidable (_ = _))

/-- What an emitted object is on the timeline. -/
def slot (obj : MediaObject) : Slot := if IsPlc obj then .conceal else .play obj.captureTimestampUs

section Casts

variable {x p : ℕ} {offset : ℤ}

theorem asI64_of_lt (h : x < 2 ^ 63) : asI64 x = x := by
  apply Int.bmod_eq_of_le <;> omega

theorem playoutUs_eq (hx : x < 2 ^ 63) (h : JitterBuffer.playoutUs x offset = some p) :
    -2 ^ 63 ≤ x + offset ∧ x + offset < 2 ^ 63 ∧ p = asU64 (x + offset) := by
  obtain ⟨d, hd, rfl⟩ := Option.map_eq_some_iff.mp h
  rw [asI64_of_lt hx, addI64] at hd
  split_ifs at hd with hrange
  obtain rfl := Option.some.inj hd
  exact ⟨hrange.1, hrange.2, rfl⟩

end Casts

namespace Arithmetic

variable {ar : Arithmetic} {x ts p q now late limit : ℕ} {offset : ℤ} {l : List MediaObject}
  {r : JitterBuffer.Released}

/-- A slot within reach of concealment is not behind a packet that is still to come. -/
theorem Modular.lt_of_concealed (har : ar.Modular) (hlt : x < ts + frameUs)
    (hx : ar.playoutUs x offset = some p) (hq : ar.playoutUs ts offset = some q)
    (hdue : p ≤ now) (hlimit : ar.addU64 p late = some limit) (hearly : now < limit)
    (hwait : now < q) (hclock : frameUs + late ≤ now) : x < ts := by
  unfold frameUs at hlt hclock
  have hp := har.playoutUs_eq hx
  have hq := har.playoutUs_eq hq
  have hlimit := har.addU64 _ _ _ hlimit
  omega

/-- The packets taken are the first ones, and the next one is not due. -/
theorem release_spec (h : ar.release late offset now l = some r) :
    r.emitted.Sublist (l.take (r.emitted.length + r.late)) ∧
      ∀ obj rest, l.drop (r.emitted.length + r.late) = obj :: rest →
        ∃ q, ar.playoutUs obj.captureTimestampUs offset = some q ∧ now < q := by
  induction l generalizing r with
  | nil =>
    obtain rfl := Option.some.inj h
    simp
  | cons obj rest ih =>
    obtain ⟨playout, hplayout, h⟩ := Option.bind_eq_some_iff.mp h
    split_ifs at h with hdue
    · obtain ⟨limit, hlimit, h⟩ := Option.bind_eq_some_iff.mp h
      obtain ⟨r', hr', rfl⟩ := Option.map_eq_some_iff.mp h
      obtain ⟨hsub, hnext⟩ := ih hr'
      split_ifs
      · simp only [← Nat.add_assoc, List.take_succ_cons, List.drop_succ_cons]
        exact ⟨hsub.cons obj, hnext⟩
      · simp only [List.length_cons, Nat.add_right_comm, List.take_succ_cons, List.drop_succ_cons]
        exact ⟨hsub.cons_cons obj, hnext⟩
    · obtain rfl := Option.some.inj h
      constructor
      · simp
      · rintro obj' rest' heq
        obtain ⟨rfl, rfl⟩ := List.cons.inj heq
        exact ⟨playout, hplayout, not_le.mp hdue⟩

end Arithmetic

namespace JitterBuffer

open Arithmetic

variable {ar : Arithmetic} {b b' : JitterBuffer} {r : Released} {late now : ℕ} {offset : ℤ}

/-- The invariant: the output is a timeline, and the queue lies ahead of it. -/
structure Inv (b : JitterBuffer) : Prop where
  timeline : Timeline frameUs (b.out.map slot) b.lastEmittedTs
  ahead : ∀ obj ∈ b.queue.packets, ∀ last ∈ b.lastEmittedTs, last < obj.captureTimestampUs
  timestamp : ∀ obj ∈ b.arrived, obj.captureTimestampUs < 2 ^ 62
  queued : ∀ obj ∈ b.queue.packets, obj ∈ b.arrived
  emitted : ∀ obj ∈ b.out, IsPlc obj ∨ obj ∈ b.arrived

theorem Inv.init (config : JitterBufferConfig) (isClockMaster emitPlc : Bool)
    (peerClock : Option ℤ) : (new config isClockMaster emitPlc peerClock).Inv where
  timeline := .nil
  ahead := by simp [new, Queue.empty]
  timestamp := by simp [new]
  queued := by simp [new, Queue.empty]
  emitted := by simp [new]

theorem Inv.receive (h : b.Inv) {obj : MediaObject} (hts : obj.captureTimestampUs < 2 ^ 62) :
    (b.receive obj).Inv := by
  refine ⟨h.timeline, h.ahead, ?_, ?_, ?_⟩
  · intro a ha
    rcases List.mem_append.mp ha with ha | ha
    · exact h.timestamp a ha
    · cases List.mem_singleton.mp ha
      exact hts
  · exact fun a ha => List.mem_append_left _ (h.queued a ha)
  · exact fun a ha => (h.emitted a ha).imp_right (List.mem_append_left _)

theorem Inv.enqueue (h : b.Inv) {obj : MediaObject} (hobj : obj ∈ b.arrived) :
    (b.enqueue obj).Inv := by
  unfold JitterBuffer.enqueue
  split_ifs with hpast hcontains
  · exact ⟨h.timeline, h.ahead, h.timestamp, h.queued, h.emitted⟩
  · exact ⟨h.timeline, h.ahead, h.timestamp, h.queued, h.emitted⟩
  · refine ⟨h.timeline, ?_, h.timestamp, ?_, h.emitted⟩
    · rintro a ha last hlast
      rcases Queue.mem_insert ha with rfl | ha
      · simp only [Option.any_eq_true, decide_eq_true_eq, not_exists, not_and, not_le] at hpast
        exact hpast last hlast
      · exact h.ahead a ha last hlast
    · intro a ha
      rcases Queue.mem_insert ha with rfl | ha
      · exact hobj
      · exact h.queued a ha

theorem Inv.arrive (h : b.Inv) {obj : MediaObject} {smoothed : ℤ}
    (hpos : 0 < obj.captureTimestampUs) (hlt : obj.captureTimestampUs < 2 ^ 62)
    (hs : ar.arrive b obj now smoothed = some b') :
    b'.Inv := by
  have hreceived := h.receive hlt
  have hset : ∀ instantaneous offset, ((b.receive obj).setOffset instantaneous offset).Inv :=
    fun _ _ => ⟨hreceived.timeline, hreceived.ahead, hreceived.timestamp, hreceived.queued,
      hreceived.emitted⟩
  cases stepped_of_arrive hs with
  | pass hzero => omega
  | late instantaneous offset =>
    have hset := hset instantaneous offset
    exact ⟨hset.timeline, hset.ahead, hset.timestamp, hset.queued, hset.emitted⟩
  | enqueue instantaneous offset =>
    exact (hset instantaneous offset).enqueue (List.mem_append_right _ (List.mem_singleton_self _))

theorem slot_of_lt {obj : MediaObject} (h : obj.captureTimestampUs < 2 ^ 62) :
    slot obj = .play obj.captureTimestampUs := by
  apply if_neg
  unfold IsPlc plcSentinelTimestamp
  omega

/-- A slot may be concealed if every packet in the queue lies behind it. -/
theorem Inv.concealSlot (h : b.Inv) {last : ℕ} (hlast : b.lastEmittedTs = some last)
    (hahead : ∀ obj ∈ b.queue.packets, last + frameUs < obj.captureTimestampUs) :
    { b with lastEmittedTs := some (last + frameUs), out := b.out ++ [plcSentinel] }.Inv := by
  constructor
  · have htimeline := h.timeline
    rw [hlast] at htimeline
    rw [List.map_append]
    exact .conceal htimeline
  · rintro obj hobj m hm
    cases hm
    exact hahead obj hobj
  · exact h.timestamp
  · exact h.queued
  · intro obj hobj
    rcases List.mem_append.mp hobj with hobj | hobj
    · exact h.emitted obj hobj
    · cases List.mem_singleton.mp hobj
      exact .inl rfl

/-- The slot behind the last one does not wrap. -/
def Unwrapped (ar : Arithmetic) (b : JitterBuffer) : Prop :=
  ∀ last ∈ b.lastEmittedTs, ∀ next ∈ ar.addU64 last frameUs, next = last + frameUs

theorem Inv.conceal (h : b.Inv) (har : ar.Modular) (hnext : Unwrapped ar b)
    (hclock : frameUs + b.config.maxLateUs ≤ now)
    (hfront : ∀ obj rest, b.queue.packets = obj :: rest →
      ∃ q, ar.playoutUs obj.captureTimestampUs offset = some q ∧ now < q)
    (hs : ar.conceal b offset now = some b') : b'.Inv := by
  unfold Arithmetic.conceal at hs
  split at hs
  · obtain rfl := Option.some.inj hs
    exact h
  rename_i last hlast
  obtain ⟨next, hsum, hs⟩ := Option.bind_eq_some_iff.mp hs
  obtain ⟨playout, hplayout, hs⟩ := Option.bind_eq_some_iff.mp hs
  obtain rfl : next = last + frameUs := hnext last hlast next hsum
  split_ifs at hs with hdue
  · obtain ⟨limit, hlimit, rfl⟩ := Option.map_eq_some_iff.mp hs
    split_ifs with hearly
    · refine h.concealSlot hlast fun obj hobj => ?_
      cases hpackets : b.queue.packets with
      | nil =>
        rw [hpackets] at hobj
        cases hobj
      | cons front rest =>
        have hmem : front ∈ b.queue.packets := by rw [hpackets]; exact List.mem_cons_self
        obtain ⟨q, hq, hwait⟩ := hfront front rest hpackets
        have hahead := h.ahead front hmem last hlast
        have hlt := har.lt_of_concealed (by omega) hplayout hq hdue hlimit hearly hwait hclock
        have hsorted := b.queue.sorted
        rw [hpackets] at hobj hsorted
        rcases List.mem_cons.mp hobj with rfl | hobj
        · exact hlt
        · exact hlt.trans ((List.pairwise_cons.mp hsorted).1 obj hobj)
    · exact h
  · obtain rfl := Option.some.inj hs
    exact h

/-- The packets released are played behind the last slot and before what stays in the queue. -/
theorem Inv.take (h : b.Inv) (hr : ar.release late offset now b.queue.packets = some r) :
    (b.take r).Inv := by
  obtain ⟨hsub, -⟩ := release_spec hr
  have hsorted := b.queue.sorted
  rw [← List.take_append_drop (r.emitted.length + r.late) b.queue.packets] at hsorted
  obtain ⟨htaken, -, hcross⟩ := List.pairwise_append.mp hsorted
  have hmem : ∀ obj ∈ r.emitted, obj ∈ b.queue.packets :=
    fun obj hobj => List.mem_of_mem_take (hsub.subset hobj)
  have hslots : r.emitted.map slot = (r.emitted.map (·.captureTimestampUs)).map .play := by
    rw [List.map_map]
    exact List.map_congr_left fun obj hobj =>
      slot_of_lt (h.timestamp obj (h.queued obj (hmem obj hobj)))
  have htimeline := h.timeline.play_all (r.emitted.map (·.captureTimestampUs))
    (List.pairwise_map.mpr (htaken.sublist hsub)) fun t ht m hm => by
      obtain ⟨obj, hobj, rfl⟩ := List.mem_map.mp ht
      exact h.ahead obj (hmem obj hobj) m hm
  constructor
  · simp only [JitterBuffer.take]
    rw [List.map_append, hslots]
    rwa [List.getLast?_map] at htimeline
  · intro obj hobj m hm
    have hm' := Option.mem_def.mp hm
    simp only [JitterBuffer.take] at hm'
    cases hemitted : r.emitted.getLast? with
    | none =>
      rw [hemitted] at hm'
      exact h.ahead obj (List.mem_of_mem_drop hobj) m hm'
    | some final =>
      rw [hemitted] at hm'
      cases hm'
      exact hcross final (hsub.subset (List.mem_of_getLast? hemitted)) obj hobj
  · exact h.timestamp
  · exact fun obj hobj => h.queued obj (List.mem_of_mem_drop hobj)
  · intro obj hobj
    rcases List.mem_append.mp hobj with hobj | hobj
    · exact h.emitted obj hobj
    · exact .inr (h.queued obj (hmem obj hobj))

theorem Inv.wake (h : b.Inv) (har : ar.Modular) (hnext : Unwrapped ar b)
    (hclock : frameUs + b.config.maxLateUs ≤ now) (hs : ar.wake b now = some b') : b'.Inv := by
  unfold Arithmetic.wake at hs
  split at hs
  · obtain rfl := Option.some.inj hs
    exact h
  rename_i offset hoffset
  obtain ⟨r, hr, hs⟩ := Option.bind_eq_some_iff.mp hs
  split_ifs at hs with hempty
  · -- nothing is played, so the slot to conceal is still the one behind the last
    have hlast : (b.take r).lastEmittedTs = b.lastEmittedTs := by
      simp [JitterBuffer.take, List.isEmpty_iff.mp (Bool.and_eq_true_iff.mp hempty).1]
    refine (h.take hr).conceal har ?_ hclock (release_spec hr).2 hs
    rwa [Unwrapped, hlast]
  · obtain rfl := Option.some.inj hs
    exact h.take hr

/-- Packets have proper timestamps, and the clock reads no early time. -/
def Regular (b : JitterBuffer) : Action → Prop
  | .arrive obj now _ => 0 < obj.captureTimestampUs ∧ obj.captureTimestampUs < 2 ^ 62 ∧
      frameUs + b.config.maxLateUs ≤ now
  | .wake now => frameUs + b.config.maxLateUs ≤ now
  | .syncClock _ => True

theorem Inv.step_of_modular (h : b.Inv) (har : ar.Modular) (hnext : Unwrapped ar b) {a : Action}
    (hregular : b.Regular a) (hs : ar.step b a = some b') : b'.Inv := by
  cases a with
  | arrive obj now smoothed => exact h.arrive hregular.1 hregular.2.1 hs
  | wake now => exact h.wake har hnext hregular hs
  | syncClock offset =>
    simp only [Arithmetic.step] at hs
    split_ifs at hs
    obtain rfl := Option.some.inj hs
    exact ⟨h.timeline, h.ahead, h.timestamp, h.queued, h.emitted⟩

/-- A checked sum that wraps ends the task. -/
theorem unwrapped_checked : Unwrapped checked b := by
  rintro last - next hnext
  rw [Option.mem_def, checked_addU64, addU64] at hnext
  split_ifs at hnext
  exact (Option.some.inj hnext).symm

theorem Inv.step (h : b.Inv) {a : Action} (hregular : b.Regular a) (hs : b.step a = some b') :
    b'.Inv := by
  rw [← checked_step] at hs
  exact h.step_of_modular checked_modular unwrapped_checked hregular hs

/--
The order of the output: packets that arrived, in the order of their timestamps and none twice; the
first object is no sentinel, and the sentinels between two packets fit into the gap between them.
-/
structure Ordered (b : JitterBuffer) : Prop where
  increasing : (b.out.filter fun obj => ¬ IsPlc obj).Pairwise
    fun obj obj' => obj.captureTimestampUs < obj'.captureTimestampUs
  arrived : ∀ obj ∈ b.out, ¬ IsPlc obj → obj ∈ b.arrived
  started : ∀ before obj after, b.out = before ++ obj :: after → IsPlc obj →
    ∃ first ∈ before, ¬ IsPlc first
  spaced : ∀ before obj plcs obj' after, b.out = before ++ obj :: (plcs ++ obj' :: after) →
    ¬ IsPlc obj → ¬ IsPlc obj' → (∀ plc ∈ plcs, IsPlc plc) →
    obj.captureTimestampUs + frameUs * plcs.length < obj'.captureTimestampUs

theorem slot_of_plc {obj : MediaObject} (h : IsPlc obj) : slot obj = .conceal := if_pos h

theorem slot_of_not_plc {obj : MediaObject} (h : ¬ IsPlc obj) :
    slot obj = .play obj.captureTimestampUs := if_neg h

theorem Inv.ordered (h : b.Inv) : b.Ordered := by
  constructor
  · have hsorted := (List.pairwise_map.mp h.timeline.sorted).filter (fun obj => ¬ IsPlc obj)
    refine hsorted.imp_of_mem fun {obj obj'} hobj hobj' hlt => ?_
    have hplay := slot_of_not_plc (by simpa using (List.mem_filter.mp hobj).2)
    have hplay' := slot_of_not_plc (by simpa using (List.mem_filter.mp hobj').2)
    exact hlt _ _ hplay hplay'
  · exact fun obj hobj hplc => (h.emitted obj hobj).resolve_left hplc
  · intro before obj after hout hplc
    have htimeline := h.timeline
    rw [hout, List.map_append, List.map_cons, slot_of_plc hplc] at htimeline
    obtain ⟨t, ht⟩ := htimeline.play_mem_of_conceal
    obtain ⟨first, hfirst, hslot⟩ := List.mem_map.mp ht
    refine ⟨first, hfirst, fun hplc => ?_⟩
    rw [slot_of_plc hplc] at hslot
    cases hslot
  · intro before obj plcs obj' after hout hobj hobj' hplcs
    have htimeline := h.timeline
    have hconceal : plcs.map slot = List.replicate plcs.length .conceal := by
      apply List.eq_replicate_iff.mpr
      constructor
      · exact List.length_map _
      · intro x hx
        obtain ⟨plc, hplc, rfl⟩ := List.mem_map.mp hx
        exact slot_of_plc (hplcs plc hplc)
    rw [hout, List.map_append, List.map_cons, List.map_append, List.map_cons, hconceal,
      slot_of_not_plc hobj, slot_of_not_plc hobj'] at htimeline
    exact htimeline.gap

/-- The output is ordered in every run. -/
theorem ordered_of_regular {config : JitterBufferConfig} {isClockMaster emitPlc : Bool}
    {peerClock : Option ℤ} {as : List Action}
    (h : Run step Regular (new config isClockMaster emitPlc peerClock) as b) : b.Ordered :=
  (h.invariant (P := Inv) (fun _ _ _ hn ha hs => hn.step ha hs)
    (.init config isClockMaster emitPlc peerClock)).ordered

instance (b : JitterBuffer) (a : Action) : Decidable (b.Regular a) :=
  match a with
  | .arrive obj now _ => inferInstanceAs (Decidable (0 < obj.captureTimestampUs ∧
      obj.captureTimestampUs < 2 ^ 62 ∧ frameUs + b.config.maxLateUs ≤ now))
  | .wake now => inferInstanceAs (Decidable (frameUs + b.config.maxLateUs ≤ now))
  | .syncClock _ => .isTrue trivial

/-- An audio packet without payload. -/
def samplePacket (ts : ℕ) : MediaObject := { plcSentinel with captureTimestampUs := ts }

/-- The second of three packets is late, and its slot is concealed. -/
def lateInTheMiddle : List Action :=
  [.arrive (samplePacket 100000) 200000 0, .wake 260000, .wake 280000,
    .arrive (samplePacket 140000) 281000 160000, .arrive (samplePacket 120000) 282000 160000,
    .wake 300000]

theorem ordered_lateInTheMiddle : ∃ b,
    Run step Regular (new audioConfig true true none) lateInTheMiddle b ∧
      b.out = [samplePacket 100000, plcSentinel, samplePacket 140000] ∧ b.Ordered := by
  obtain ⟨b, hb, hout⟩ := Option.map_eq_some_iff.mp
    (by decide +kernel : (exec (guarded step Regular) (new audioConfig true true none)
      lateInTheMiddle).map (·.out) =
        some [samplePacket 100000, plcSentinel, samplePacket 140000])
  have hrun := run_of_guarded hb
  exact ⟨b, hrun, hout, ordered_of_regular hrun⟩

/-! ## Sums that wrap -/

/-- The last slot is some packet's, or follows one by the sentinels that were emitted. -/
theorem Inv.unwrapped_wrapping (h : b.Inv) (hlen : b.out.length < 2 ^ 49) :
    Unwrapped wrapping b := by
  rintro last hlast next hnext
  obtain rfl := Option.some.inj hnext
  have hlt : last < 2 ^ 62 + frameUs * (b.out.map slot).length := by
    refine h.timeline.last_lt (fun t ht => ?_) last hlast
    obtain ⟨obj, hobj, hslot⟩ := List.mem_map.mp ht
    have hplc : ¬ IsPlc obj := fun hplc => by
      rw [slot_of_plc hplc] at hslot
      cases hslot
    rw [slot_of_not_plc hplc] at hslot
    cases hslot
    exact h.timestamp obj ((h.emitted obj hobj).resolve_left hplc)
  rw [List.length_map] at hlt
  unfold frameUs at hlt ⊢
  omega

/-- Sums that wrap leave the output ordered, for the first `2 ^ 49` objects. -/
theorem ordered_of_regular_wrapping {config : JitterBufferConfig} {isClockMaster emitPlc : Bool}
    {peerClock : Option ℤ} {as : List Action}
    (h : Run wrapping.step Regular (new config isClockMaster emitPlc peerClock) as b)
    (hlen : b.out.length < 2 ^ 49) : b.Ordered := by
  have hinv := h.invariant (P := fun b => b.out.length < 2 ^ 49 → b.Inv)
    (fun _ _ _ hb hregular hs hlen => by
      have hlen₀ := (stepped_of_step hs).grows.2.1.length_le.trans_lt hlen
      have hb := hb hlen₀
      exact hb.step_of_modular wrapping_modular (hb.unwrapped_wrapping hlen₀) hregular hs)
    fun _ => .init config isClockMaster emitPlc peerClock
  exact (hinv hlen).ordered

end JitterBuffer

end Meshconf.Jitter
