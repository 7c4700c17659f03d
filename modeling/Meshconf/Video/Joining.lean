import Mathlib.Data.List.TakeWhile
import Meshconf.Video.KeyframeRequest

/-! # The keyframe of a peer that joins

When a peer is added, a keyframe is asked for. The frame that the loop has at hand may
still pass as it is, and packets that wait in the channel go out first. If requests are
served, nothing else comes before the keyframe.
-/

namespace Meshconf.Video.EncodeLoop

open Transition

/-- The packet that the channel takes in a step. -/
def entering (s : EncodeLoop) : Action → Option Packet
  | .collect =>
    match s.phase, s.output with
    | .collecting frame _, some output =>
      if s.receiverOpen ∧ s.channel.length < packetCapacity then
        some ⟨output.data, frame.captureTimestampUs, output.isKeyframe⟩
      else none
    | _, _ => none
  | _ => none

/-- The packet that the send loop takes in a step. -/
def leaving (s : EncodeLoop) : Action → Option Packet
  | .take => s.channel.head?
  | _ => none

/-- A loop, with what has gone into and out of its channel since a peer has joined. -/
structure Joined where
  loop : EncodeLoop
  entered : List Packet := []
  taken : List Packet := []

/-- A peer joins. -/
def join (s : EncodeLoop) : Joined where
  loop := s.requestKeyframe

namespace Joined

def step (j : Joined) (a : Action) : Option Joined :=
  (j.loop.step a).map fun loop =>
    { loop
      entered := j.entered ++ (j.loop.entering a).toList
      taken := j.taken ++ (j.loop.leaving a).toList }

def Served (j : Joined) (a : Action) : Prop := j.loop.Served a

instance (j : Joined) (a : Action) : Decidable (j.Served a) :=
  inferInstanceAs (Decidable (j.loop.Served a))

end Joined

/-- The packets before the first keyframe. -/
def beforeKeyframe (l : List Packet) : List Packet := l.takeWhile fun p => !p.isKeyframe

theorem beforeKeyframe_append_of_keyframe {l : List Packet} (h : ∃ p ∈ l, p.isKeyframe)
    (l' : List Packet) : beforeKeyframe (l ++ l') = beforeKeyframe l := by
  obtain ⟨p, hp, hkey⟩ := h
  rw [beforeKeyframe, List.takeWhile_append, if_neg]
  · rfl
  · intro hlength
    have hall := List.takeWhile_eq_self_iff.mp
      ((List.takeWhile_prefix fun p : Packet => !p.isKeyframe).eq_of_length hlength)
    have hdelta := hall p hp
    simp [hkey] at hdelta

theorem beforeKeyframe_of_deltas {l : List Packet} (h : ∀ p ∈ l, p.isKeyframe = false) :
    beforeKeyframe l = l :=
  List.takeWhile_eq_self_iff.mpr fun p hp => by simp [h p hp]

/-- The longer list has at least as much before its keyframe. -/
theorem length_beforeKeyframe_le {l l' : List Packet} (h : l <+: l') :
    (beforeKeyframe l).length ≤ (beforeKeyframe l').length := by
  obtain ⟨rest, rfl⟩ := h
  by_cases hkey : ∃ p ∈ l, p.isKeyframe
  · rw [beforeKeyframe_append_of_keyframe hkey]
  · have hdeltas : ∀ p ∈ l, p.isKeyframe = false := fun p hp =>
      Bool.eq_false_iff.mpr fun hp' => hkey ⟨p, hp, hp'⟩
    rw [beforeKeyframe_of_deltas hdeltas, beforeKeyframe, List.takeWhile_append_of_pos]
    · simp
    · intro p hp
      simp [hdeltas p hp]

theorem length_beforeKeyframe_append_le (l l' : List Packet) :
    (beforeKeyframe (l ++ l')).length ≤ l.length + (beforeKeyframe l').length := by
  induction l with
  | nil => simp
  | cons p l ih =>
    rw [List.cons_append, beforeKeyframe, List.takeWhile_cons]
    split_ifs
    · rw [List.length_cons, List.length_cons, Nat.add_right_comm]
      exact Nat.succ_le_succ ih
    · exact Nat.zero_le _

/-! ## What enters the channel -/

/--
As long as no keyframe has entered, the request is pending, or the frame at hand answers it, or it
is the frame that was at hand when the peer joined.
-/
def Awaiting (s : EncodeLoop) (entered : List Packet) : Prop :=
  match s.phase with
  | .top | .receiving | .captured _ | .prepared _ => s.forceKeyframe
  | .swapped _ forced | .encoded _ forced | .collecting _ forced =>
    forced ∨ (s.forceKeyframe ∧ entered = [])
  | .stopped => True

structure Soon (s : EncodeLoop) (entered : List Packet) : Prop where
  before : (beforeKeyframe entered).length ≤ 1
  awaiting : (∀ p ∈ entered, p.isKeyframe = false) → s.Awaiting entered

variable {s s' : EncodeLoop} {entered : List Packet}

theorem Soon.quiet (h : s.Soon entered)
    (hawaiting : s.Awaiting entered → s'.Awaiting entered) : s'.Soon entered :=
  ⟨h.before, fun hdeltas => hawaiting (h.awaiting hdeltas)⟩

theorem Awaiting.requestKeyframe (h : s.Awaiting entered) : s.requestKeyframe.Awaiting entered := by
  unfold Awaiting at h
  unfold Awaiting EncodeLoop.requestKeyframe
  dsimp only
  split <;> rename_i hphase <;> rw [hphase] at h
  all_goals first
    | rfl
    | exact trivial
    | exact h.imp_right fun hold => ⟨rfl, hold.2⟩

theorem Awaiting.configure (h : s.forceKeyframe) (created : Bool) :
    (s.configure created).Awaiting entered := by
  simp only [EncodeLoop.configure]
  split_ifs
  · trivial
  · split
    · exact h
    · split_ifs
      · trivial
      · rfl
      · exact h

theorem Awaiting.prepare {frame : Frame} (h : s.forceKeyframe) (outcome : Resize) :
    (s.prepare frame outcome).Awaiting entered := by
  unfold EncodeLoop.prepare
  split_ifs
  · exact h
  · cases outcome with
    | done | failed => exact h
    | noPool => trivial

/-- A packet enters: the frame that was at hand, or a keyframe. -/
theorem Soon.enter (h : s.Soon entered) {p : Packet}
    (hp : (∀ q ∈ entered, q.isKeyframe = false) → p.isKeyframe ∨
      (entered = [] ∧ s'.Awaiting [p])) : s'.Soon (entered ++ [p]) := by
  by_cases hkey : ∃ q ∈ entered, q.isKeyframe
  · refine ⟨by rw [beforeKeyframe_append_of_keyframe hkey]; exact h.before, fun hdeltas => ?_⟩
    obtain ⟨q, hq, hkey⟩ := hkey
    exact absurd (hkey.symm.trans (hdeltas q (List.mem_append_left _ hq))) (by simp)
  · have hdeltas : ∀ q ∈ entered, q.isKeyframe = false := fun q hq =>
      Bool.eq_false_iff.mpr fun hq' => hkey ⟨q, hq, hq'⟩
    rcases hp hdeltas with hp | ⟨rfl, hawaiting⟩
    · have hbefore := h.before
      rw [beforeKeyframe_of_deltas hdeltas] at hbefore
      refine ⟨?_, fun hall => absurd (hp.symm.trans (hall p (by simp))) (by simp)⟩
      calc (beforeKeyframe (entered ++ [p])).length
          ≤ entered.length + (beforeKeyframe [p]).length := length_beforeKeyframe_append_le _ _
        _ = entered.length := by simp [beforeKeyframe, hp]
        _ ≤ 1 := hbefore
    · exact ⟨(List.takeWhile_prefix _).length_le, fun _ => hawaiting⟩

theorem Soon.collect (h : s.Soon entered) {frame : Frame} {forced : Bool}
    (hphase : s.phase = .collecting frame forced)
    (hserved : forced → s.KeyframeFits ∨ (s.output.isSome ∧ s.receiverOpen = false)) :
    (s.collect frame).Soon (entered ++ (s.entering .collect).toList) := by
  have hawaiting := h.awaiting
  simp only [Awaiting, hphase] at hawaiting
  simp only [entering, hphase, EncodeLoop.collect]
  cases houtput : s.output with
  | none =>
    simp only [KeyframeFits, houtput, Option.map_none, Option.isSome_none] at hserved
    refine ⟨by simpa using h.before, fun hdeltas => ?_⟩
    rcases hawaiting (by simpa using hdeltas) with hforced | hpending
    · exact absurd (hserved hforced) (by simp)
    · exact hpending.1
  | some output =>
    simp only [KeyframeFits, houtput, Option.map_some, Option.isSome_some, true_and] at hserved
    cases hopen : s.receiverOpen with
    | false =>
      simp only [Bool.false_eq_true, false_and, if_false, Option.toList_none, List.append_nil,
        Bool.not_false, if_true]
      exact h.quiet fun _ => trivial
    | true =>
      simp only [hopen, or_false, Bool.true_eq_false] at hserved
      simp only [true_and, Bool.not_true, Bool.false_eq_true, if_false]
      split_ifs with hroom
      · apply h.enter
        intro hdeltas
        rcases hawaiting hdeltas with hforced | ⟨hpending, hempty⟩
        · exact .inl (Option.some.inj (hserved hforced).1)
        · exact .inr ⟨hempty, hpending⟩
      · simp only [Option.toList_none, List.append_nil]
        refine h.quiet fun hnow => ?_
        simp only [Awaiting, hphase] at hnow
        rcases hnow with hforced | ⟨hpending, -⟩
        · exact absurd (hserved hforced).2 hroom
        · exact hpending

theorem Soon.step (h : s.Soon entered) {a : Action} (hserved : s.Served a)
    (hs : s.step a = some s') : s'.Soon (entered ++ (s.entering a).toList) := by
  cases a with
  | collect =>
    simp only [EncodeLoop.step] at hs
    split at hs <;> cases hs
    rename_i frame forced hphase
    exact h.collect hphase fun hforced => hserved (by rwa [EncodeLoop.forced, hphase])
  | addPeer | startSending =>
    obtain rfl := Option.some.inj hs
    simp only [entering, Option.toList_none, List.append_nil]
    exact h.quiet Awaiting.requestKeyframe
  | publish | cancel | take | closeReceiver =>
    obtain rfl := Option.some.inj hs
    simp only [entering, Option.toList_none, List.append_nil]
    exact h.quiet id
  | callback status sample =>
    simp only [entering, Option.toList_none, List.append_nil]
    simp only [EncodeLoop.step] at hs
    split at hs <;> cases hs <;> exact h.quiet id
  | configure created =>
    simp only [entering, Option.toList_none, List.append_nil]
    simp only [EncodeLoop.step] at hs
    split at hs <;> cases hs
    rename_i hphase
    refine h.quiet fun hnow => ?_
    rw [Awaiting, hphase] at hnow
    exact .configure hnow created
  | receive frame =>
    simp only [entering, Option.toList_none, List.append_nil]
    simp only [EncodeLoop.step] at hs
    split at hs <;> cases hs
    · rename_i hphase
      refine h.quiet fun hnow => ?_
      rwa [Awaiting, hphase] at hnow
    · exact h.quiet fun _ => trivial
  | prepare outcome =>
    simp only [entering, Option.toList_none, List.append_nil]
    simp only [EncodeLoop.step] at hs
    split at hs <;> cases hs
    rename_i hphase
    refine h.quiet fun hnow => ?_
    rw [Awaiting, hphase] at hnow
    exact .prepare hnow outcome
  | swap =>
    simp only [entering, Option.toList_none, List.append_nil]
    simp only [EncodeLoop.step] at hs
    split at hs <;> cases hs
    rename_i hphase
    refine h.quiet fun hnow => ?_
    rw [Awaiting, hphase] at hnow
    exact .inl hnow
  | encode status =>
    simp only [entering, Option.toList_none, List.append_nil]
    simp only [EncodeLoop.step] at hs
    split at hs <;> try cases hs
    rename_i frame forced hphase
    refine h.quiet fun hnow => ?_
    rw [Awaiting, hphase] at hnow
    split_ifs at hs with hstatus <;> obtain rfl := Option.some.inj hs
    · rcases hnow with hforced | ⟨hpending, -⟩
      · exact absurd (hserved (by rwa [EncodeLoop.forced, hphase])) hstatus
      · exact hpending
    · exact hnow
  | complete status =>
    simp only [entering, Option.toList_none, List.append_nil]
    simp only [EncodeLoop.step] at hs
    split at hs <;> try cases hs
    rename_i frame forced hphase
    refine h.quiet fun hnow => ?_
    rw [Awaiting, hphase] at hnow
    split_ifs at hs
    obtain rfl := Option.some.inj hs
    exact hnow

theorem soon_join (s : EncodeLoop) : (join s).loop.Soon [] := by
  refine ⟨Nat.zero_le _, fun _ => ?_⟩
  unfold Awaiting
  split <;> first | rfl | trivial | exact .inr ⟨rfl, rfl⟩

/-! ## What leaves it -/

/-- The channel is a queue: what leaves it was there before, or has entered behind that. -/
theorem channel_step {a : Action} (hs : s.step a = some s') :
    (s.leaving a).toList ++ s'.channel = s.channel ++ (s.entering a).toList := by
  cases a with
  | collect =>
    simp only [EncodeLoop.step] at hs
    split at hs <;> cases hs
    rename_i frame forced hphase
    simp only [leaving, entering, hphase, EncodeLoop.collect]
    cases houtput : s.output with
    | none => simp
    | some output =>
      cases hopen : s.receiverOpen with
      | false => simp
      | true =>
        simp only [true_and, Bool.not_true, Bool.false_eq_true, if_false]
        split_ifs <;> simp
  | take =>
    obtain rfl := Option.some.inj hs
    simp only [leaving, entering]
    cases s.channel <;> simp
  | addPeer | startSending | publish | cancel | closeReceiver =>
    obtain rfl := Option.some.inj hs
    exact (List.append_nil _).symm
  | configure created =>
    simp only [EncodeLoop.step] at hs
    split at hs <;> cases hs
    have hsame : (s.configure created).channel = s.channel := by
      simp only [EncodeLoop.configure]
      split_ifs
      · rfl
      · split
        · rfl
        · split_ifs <;> rfl
    simp [leaving, entering, hsame]
  | prepare outcome =>
    simp only [EncodeLoop.step] at hs
    split at hs <;> cases hs
    rename_i frame hphase
    have hsame : (s.prepare frame outcome).channel = s.channel := by
      unfold EncodeLoop.prepare
      split_ifs
      · rfl
      · cases outcome <;> rfl
    simp [leaving, entering, hsame]
  | callback | receive | swap =>
    simp only [EncodeLoop.step] at hs
    split at hs <;> cases hs <;> exact (List.append_nil _).symm
  | encode | complete =>
    simp only [EncodeLoop.step] at hs
    split at hs <;> try cases hs
    split_ifs at hs <;> obtain rfl := Option.some.inj hs <;> exact (List.append_nil _).symm

theorem room_of_entering {a : Action} {p : Packet} (h : s.entering a = some p) :
    s.channel.length < packetCapacity := by
  unfold entering at h
  split at h
  · split at h
    · split_ifs at h with hroom
      exact hroom.2
    · cases h
  · cases h

theorem channel_le {config : Option Bandwidth.EncoderConfig}
    (h : Reachable step (start config) s) : s.channel.length ≤ packetCapacity := by
  refine h.invariant (P := fun s => s.channel.length ≤ packetCapacity) ?_ (Nat.zero_le _)
  intro t a u ht hs
  have hqueue := congrArg List.length (channel_step hs)
  simp only [List.length_append] at hqueue
  cases hentering : t.entering a with
  | none =>
    rw [hentering] at hqueue
    simp only [Option.toList_none, List.length_nil] at hqueue
    omega
  | some p =>
    have hroom := room_of_entering hentering
    rw [hentering] at hqueue
    simp only [Option.toList_some, List.length_singleton] at hqueue
    omega

/-! ## Runs -/

/-- The invariant since the join: what enters is soon a keyframe, and the channel is a queue. -/
structure Joined.Inv (channel : List Packet) (j : Joined) : Prop where
  soon : j.loop.Soon j.entered
  queue : j.taken ++ j.loop.channel = channel ++ j.entered

theorem Joined.Inv.step {channel : List Packet} {j j' : Joined} (h : j.Inv channel) {a : Action}
    (hserved : j.Served a) (hs : j.step a = some j') : j'.Inv channel := by
  obtain ⟨loop, hloop, rfl⟩ := Option.map_eq_some_iff.mp hs
  refine ⟨h.soon.step hserved hloop, ?_⟩
  have hqueue := h.queue
  calc (j.taken ++ (j.loop.leaving a).toList) ++ loop.channel
      = j.taken ++ (j.loop.channel ++ (j.loop.entering a).toList) := by
        rw [List.append_assoc, channel_step hloop]
    _ = channel ++ (j.entered ++ (j.loop.entering a).toList) := by
        rw [← List.append_assoc, hqueue, List.append_assoc]

/--
Whenever a peer joins: while requests are served, at most one frame enters the channel before the
next keyframe, and at most five packets leave it before the first one.
-/
theorem keyframe_after_join {config : Option Bandwidth.EncoderConfig}
    (hs : Reachable step (start config) s) {as : List Action} {j : Joined}
    (h : Run Joined.step Joined.Served (join s) as j) :
    (beforeKeyframe j.entered).length ≤ 1 ∧ (beforeKeyframe j.taken).length ≤ 5 := by
  have hinv : j.Inv s.channel := h.invariant (P := Joined.Inv s.channel)
    (fun _ _ _ hj hserved hstep => hj.step hserved hstep) ⟨soon_join s, (List.append_nil _).symm⟩
  refine ⟨hinv.soon.before, ?_⟩
  have hchannel : s.channel.length ≤ 4 := channel_le hs
  have hbefore := hinv.soon.before
  calc (beforeKeyframe j.taken).length
      ≤ (beforeKeyframe (s.channel ++ j.entered)).length :=
        length_beforeKeyframe_le ⟨_, hinv.queue⟩
    _ ≤ s.channel.length + (beforeKeyframe j.entered).length :=
        length_beforeKeyframe_append_le _ _
    _ ≤ 5 := by omega

/-- The session delivers an empty frame. -/
def delivered (notSync : Bool) : Action :=
  .callback 0 (some (⟨some ⟨[], 0, false⟩, some ⟨[], 0, fun _ => 0, some 4⟩⟩,
    some [some (some notSync)]))

def iteration (notSync : Bool) : List Action :=
  [.configure true, .receive (some ⟨640, 480, 1⟩), .prepare .done, .swap, .encode 0,
    delivered notSync, .complete 0, .collect]

/-- Four frames fill the channel and a fifth is at hand. -/
def fiveFrames : List Action :=
  (List.replicate 4 (iteration true)).flatten ++ (iteration true).take 5

/-- The fifth frame is passed on, and the next one is a keyframe. -/
def sixthFrame : List Action :=
  [.take, delivered true, .complete 0, .collect, .take] ++ iteration false

theorem keyframe_after_join_sixthFrame : ∃ (s : EncodeLoop) (j : Joined),
    exec step (start none) fiveFrames = some s ∧
    Run Joined.step Joined.Served (join s) sixthFrame j ∧
    j.entered.map (·.isKeyframe) = [false, true] ∧ (beforeKeyframe j.entered).length ≤ 1 := by
  obtain ⟨s, hs, hrest⟩ := Option.bind_eq_some_iff.mp
    (by decide +kernel : ((exec step (start none) fiveFrames).bind fun s =>
      (exec (guarded Joined.step Joined.Served) (join s) sixthFrame).map fun j =>
        j.entered.map (·.isKeyframe)) = some [false, true])
  obtain ⟨j, hj, hentered⟩ := Option.map_eq_some_iff.mp hrest
  have hrun := run_of_guarded hj
  exact ⟨s, j, hs, hrun, hentered, (keyframe_after_join ⟨_, run_of_exec hs⟩ hrun).1⟩

end Meshconf.Video.EncodeLoop
