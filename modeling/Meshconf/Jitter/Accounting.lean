import Mathlib.Algebra.Order.Group.Multiset
import Mathlib.Tactic.Abel
import Meshconf.Jitter.Arithmetic

/-! # Where the packets of a jitter buffer are

Every packet received is in the queue or has left it through one of three exits, each
with a count of its own. This does not depend on how sums of machine integers come
out: they decide which exit a packet takes, not whether it is counted.
-/

namespace Meshconf.Jitter

open Protocol Transition

namespace JitterBuffer

open Arithmetic

variable {ar : Arithmetic} {b b' : JitterBuffer} {obj : MediaObject} {offset : ℤ} {now : ℕ}

/-- Each received packet is in the queue or has left through exactly one exit. -/
structure Accounted (b : JitterBuffer) : Prop where
  received : b.stats.received = b.arrived.length
  places : ∃ played late duplicate : Multiset MediaObject,
    (b.arrived : Multiset MediaObject) = played + late + duplicate + b.queue.packets ∧
    played ≤ b.out ∧ Multiset.card played = b.stats.played ∧
    Multiset.card late = b.stats.droppedLate ∧ Multiset.card duplicate = b.stats.droppedDuplicate

theorem Accounted.balance (h : b.Accounted) : b.stats.received =
    b.stats.played + b.stats.droppedLate + b.stats.droppedDuplicate + b.queue.packets.length := by
  obtain ⟨played, late, duplicate, hplaces, -, hplayed, hlate, hduplicate⟩ := h.places
  have hcard := congrArg Multiset.card hplaces
  simp only [Multiset.card_add, Multiset.coe_card] at hcard
  rw [h.received, hcard, hplayed, hlate, hduplicate]

theorem Accounted.new (config : JitterBufferConfig) (isClockMaster emitPlc : Bool)
    (peerClock : Option ℤ) : (new config isClockMaster emitPlc peerClock).Accounted :=
  ⟨rfl, 0, 0, 0, rfl, Multiset.zero_le _, rfl, rfl, rfl⟩

/-! ## Arrivals -/

theorem packets_insert (q : Queue) (hq : q.contains obj.captureTimestampUs = false) :
    ((q.insert obj).packets : Multiset MediaObject) = obj ::ₘ q.packets := by
  have hafter : q.packets.filter (fun a => obj.captureTimestampUs < a.captureTimestampUs) =
      q.packets.filter (fun a => ¬ a.captureTimestampUs < obj.captureTimestampUs) := by
    apply List.filter_congr
    intro a ha
    have hne : ¬ a.captureTimestampUs = obj.captureTimestampUs := by
      intro heq
      have : q.contains obj.captureTimestampUs = true := List.any_eq_true.mpr ⟨a, ha, by simpa⟩
      simp [hq] at this
    simp only [decide_eq_decide]
    omega
  have hpackets : (q.insert obj).packets =
      q.packets.filter (fun a => a.captureTimestampUs < obj.captureTimestampUs) ++
        obj :: q.packets.filter (fun a => ¬ a.captureTimestampUs < obj.captureTimestampUs) := by
    rw [← hafter]
    rfl
  rw [Multiset.cons_coe, Multiset.coe_eq_coe, hpackets]
  refine List.perm_middle.trans (List.Perm.cons obj ?_)
  simpa only [decide_not] using
    List.filter_append_perm (fun a => decide (a.captureTimestampUs < obj.captureTimestampUs))
      q.packets

theorem coe_concat (l : List MediaObject) (obj : MediaObject) :
    ((l ++ [obj] : List MediaObject) : Multiset MediaObject) = obj ::ₘ l := by
  rw [Multiset.cons_coe, Multiset.coe_eq_coe]
  exact List.perm_append_singleton obj l

/-- A packet without a timestamp counts as played. -/
theorem Accounted.pass (h : b.Accounted) : Accounted { b.receive obj with
    out := (b.receive obj).out ++ [obj]
    stats := { (b.receive obj).stats with played := (b.receive obj).stats.played + 1 } } := by
  obtain ⟨played, late, duplicate, hplaces, hout, hplayed, hlate, hduplicate⟩ := h.places
  refine ⟨by simp [receive, h.received], obj ::ₘ played, late, duplicate, ?_, ?_, ?_, hlate,
    hduplicate⟩
  · simp only [receive, coe_concat, hplaces, Multiset.cons_add]
  · simpa only [receive, coe_concat, Multiset.cons_le_cons_iff] using hout
  · simp only [receive, Multiset.card_cons, hplayed]

theorem Accounted.late (h : b.Accounted) (instantaneous : ℤ) :
    ((b.receive obj).setOffset instantaneous offset).dropLate.Accounted := by
  obtain ⟨played, late, duplicate, hplaces, hout, hplayed, hlate, hduplicate⟩ := h.places
  refine ⟨by simp [receive, setOffset, dropLate, h.received], played, obj ::ₘ late, duplicate, ?_,
    hout, hplayed, ?_, hduplicate⟩
  · simp only [receive, setOffset, dropLate, coe_concat, hplaces, Multiset.cons_add,
      Multiset.add_cons]
  · simp only [receive, setOffset, dropLate, Multiset.card_cons, hlate]

theorem Accounted.enqueue (h : b.Accounted) (instantaneous : ℤ) :
    (((b.receive obj).setOffset instantaneous offset).enqueue obj).Accounted := by
  obtain ⟨played, late, duplicate, hplaces, hout, hplayed, hlate, hduplicate⟩ := h.places
  have hdup : Accounted { (b.receive obj).setOffset instantaneous offset with
      stats := { ((b.receive obj).setOffset instantaneous offset).stats with
        droppedDuplicate :=
          ((b.receive obj).setOffset instantaneous offset).stats.droppedDuplicate + 1 } } := by
    refine ⟨by simp [receive, setOffset, h.received], played, late, obj ::ₘ duplicate, ?_, hout,
      hplayed, hlate, ?_⟩
    · simp only [receive, setOffset, coe_concat, hplaces, Multiset.cons_add, Multiset.add_cons]
    · simp only [receive, setOffset, Multiset.card_cons, hduplicate]
  unfold JitterBuffer.enqueue
  split_ifs with hpast hcontains
  · exact hdup
  · exact hdup
  · refine ⟨by simp [receive, setOffset, h.received], played, late, duplicate, ?_, hout, hplayed,
      hlate, hduplicate⟩
    have hnot : b.queue.contains obj.captureTimestampUs = false :=
      Bool.eq_false_iff.mpr hcontains
    simp only [receive, setOffset, coe_concat, hplaces, packets_insert b.queue hnot,
      Multiset.add_cons]

/-! ## Wake-ups -/

/-- What is taken from the front has been emitted or dropped late. -/
theorem release_places {maxLateUs : ℕ} {l : List MediaObject} {r : Released}
    (h : ar.release maxLateUs offset now l = some r) : ∃ dropped : Multiset MediaObject,
      (l : Multiset MediaObject) =
        r.emitted + dropped + (l.drop (r.emitted.length + r.late) : List MediaObject) ∧
      Multiset.card dropped = r.late := by
  induction l generalizing r with
  | nil =>
    obtain rfl := Option.some.inj h
    exact ⟨0, by simp, rfl⟩
  | cons obj rest ih =>
    obtain ⟨playout, -, h⟩ := Option.bind_eq_some_iff.mp h
    split_ifs at h with hdue
    · obtain ⟨limit, -, h⟩ := Option.bind_eq_some_iff.mp h
      obtain ⟨r', hr', rfl⟩ := Option.map_eq_some_iff.mp h
      obtain ⟨dropped, hplaces, hcard⟩ := ih hr'
      split_ifs
      · refine ⟨obj ::ₘ dropped, ?_, by simp [hcard]⟩
        rw [← Multiset.cons_coe, hplaces, ← Nat.add_assoc, List.drop_succ_cons, Multiset.add_cons,
          Multiset.cons_add]
      · refine ⟨dropped, ?_, hcard⟩
        rw [List.length_cons, Nat.add_right_comm, List.drop_succ_cons, ← Multiset.cons_coe,
          hplaces, ← Multiset.cons_coe, Multiset.cons_add, Multiset.cons_add]
    · obtain rfl := Option.some.inj h
      exact ⟨0, by simp, rfl⟩

theorem Accounted.take {maxLateUs : ℕ} {r : Released} (h : b.Accounted)
    (hr : ar.release maxLateUs offset now b.queue.packets = some r) : (b.take r).Accounted := by
  obtain ⟨played, late, duplicate, hplaces, hout, hplayed, hlate, hduplicate⟩ := h.places
  obtain ⟨dropped, hfront, hdropped⟩ := release_places hr
  refine ⟨h.received, played + r.emitted, late + dropped, duplicate, ?_, ?_, ?_, ?_, hduplicate⟩
  · simp only [JitterBuffer.take, Queue.drop, hplaces]
    rw [hfront]
    abel
  · simp only [JitterBuffer.take, ← Multiset.coe_add]
    exact add_le_add_left hout _
  · simp [JitterBuffer.take, hplayed]
  · simp [JitterBuffer.take, hlate, hdropped]

theorem Accounted.conceal (h : b.Accounted) (next : ℕ) :
    Accounted { b with lastEmittedTs := some next, out := b.out ++ [plcSentinel] } := by
  obtain ⟨played, late, duplicate, hplaces, hle, hcards⟩ := h.places
  refine ⟨h.received, played, late, duplicate, hplaces, ?_, hcards⟩
  exact hle.trans (Multiset.coe_le.mpr (List.sublist_append_left _ _).subperm)

theorem Accounted.step (h : b.Accounted) {a : Action} (hs : ar.step b a = some b') :
    b'.Accounted := by
  cases stepped_of_step hs with
  | pass => exact h.pass
  | late instantaneous => exact h.late instantaneous
  | enqueue instantaneous => exact h.enqueue instantaneous
  | idle => exact h
  | take hr => exact h.take hr
  | conceal next hr => exact (h.take hr).conceal next
  | syncClock => exact ⟨h.received, h.places⟩

/--
In every run and with either arithmetic the counts balance, packet by packet, and concealment
leaves them alone.
-/
theorem balance_of_run (ar : Arithmetic) {config : JitterBufferConfig}
    {isClockMaster emitPlc : Bool} {peerClock : Option ℤ} {as : List Action}
    (h : Run ar.step Free (.new config isClockMaster emitPlc peerClock) as b) :
    b.stats.received = b.stats.played + b.stats.droppedLate + b.stats.droppedDuplicate +
        b.queue.packets.length ∧
      b.Accounted ∧
      ∀ offset now b', ar.conceal b offset now = some b' →
        b'.stats = b.stats ∧ b'.queue = b.queue := by
  have hb : b.Accounted := h.invariant (fun _ _ _ hn _ hs => hn.step hs)
    (.new config isClockMaster emitPlc peerClock)
  refine ⟨hb.balance, hb, ?_⟩
  intro offset now b' hs
  rcases conceal_eq hs with rfl | ⟨next, rfl⟩
  · exact ⟨rfl, rfl⟩
  · exact ⟨rfl, rfl⟩

/-- A packet that is played, its duplicate, one without a timestamp, and a concealed slot. -/
def duplicateThenGap : List Action :=
  let packet := { plcSentinel with captureTimestampUs := 100000 }
  [.arrive packet 200000 0, .arrive packet 200010 160000, .wake 260000,
    .arrive { packet with captureTimestampUs := 0 } 270000 0, .wake 280000]

theorem balance_of_run_duplicateThenGap : ∃ b,
    Run Arithmetic.wrapping.step Free (.new audioConfig true true none) duplicateThenGap b ∧
      b.stats = ⟨3, 2, 0, 1⟩ ∧
      b.stats.received = b.stats.played + b.stats.droppedLate + b.stats.droppedDuplicate +
        b.queue.packets.length := by
  obtain ⟨b, hb, hstats⟩ := Option.map_eq_some_iff.mp
    (by decide +kernel : (exec Arithmetic.wrapping.step (.new audioConfig true true none)
      duplicateThenGap).map (·.stats) = some ⟨3, 2, 0, 1⟩)
  have hrun := run_of_exec hb
  exact ⟨b, hrun, hstats, (balance_of_run Arithmetic.wrapping hrun).1⟩

end JitterBuffer

end Meshconf.Jitter
