import Meshconf.Video.EncodeLoop

/-! # Requests for keyframes

The loop clears the flag before it hands the frame to the session, and sets it again
on none of the ways on which the frame is lost afterwards. A request survives if every
iteration that clears one gets its keyframe into the channel.
-/

namespace Meshconf.Video.EncodeLoop

open Transition

variable {s s' : EncodeLoop}

/--
At the top: if the iteration behind it cleared a request, the channel took a keyframe in it, and
what has been asked for since the last keyframe is still pending.
-/
def Kept (s : EncodeLoop) : Prop :=
  s.phase = .top → (s.taken → s.accepted) ∧ (s.requested → s.forceKeyframe)

/-- Whether this iteration has cleared a request and still has its frame. -/
def forced (s : EncodeLoop) : Bool :=
  match s.phase with
  | .swapped _ forced | .encoded _ forced | .collecting _ forced => forced
  | _ => false

/-- The output that waits for the loop is a keyframe and fits into the channel. -/
def KeyframeFits (s : EncodeLoop) : Prop :=
  s.output.map (·.isKeyframe) = some true ∧ s.channel.length < packetCapacity

/--
Steps of the loop that lose no keyframe asked for: a frame that is to be one is encoded, delivered
and accepted. When nobody receives packets any more, the loop ends.
-/
def Served (s : EncodeLoop) : Action → Prop
  | .encode status => s.forced → status = 0
  | .collect => s.forced → s.KeyframeFits ∨ (s.output.isSome ∧ s.receiverOpen = false)
  | _ => True

instance (s : EncodeLoop) : Decidable s.KeyframeFits :=
  inferInstanceAs (Decidable (_ = _ ∧ _ < _))

instance (s : EncodeLoop) (a : Action) : Decidable (s.Served a) :=
  match a with
  | .encode status => inferInstanceAs (Decidable (s.forced → status = 0))
  | .collect => inferInstanceAs
      (Decidable (s.forced → s.KeyframeFits ∨ (s.output.isSome ∧ s.receiverOpen = false)))
  | .addPeer => .isTrue trivial
  | .startSending => .isTrue trivial
  | .publish _ => .isTrue trivial
  | .cancel => .isTrue trivial
  | .take => .isTrue trivial
  | .closeReceiver => .isTrue trivial
  | .callback _ _ => .isTrue trivial
  | .configure _ => .isTrue trivial
  | .receive _ => .isTrue trivial
  | .prepare _ => .isTrue trivial
  | .swap => .isTrue trivial
  | .complete _ => .isTrue trivial

/-- The invariant behind the flag: what was asked for is pending, or about to be served. -/
def Pending (s : EncodeLoop) : Prop :=
  match s.phase with
  | .top => (s.taken → s.accepted) ∧ (s.requested → s.forceKeyframe)
  | .receiving | .captured _ | .prepared _ =>
    s.taken = false ∧ s.accepted = false ∧ (s.requested → s.forceKeyframe)
  | .swapped _ forced | .encoded _ forced | .collecting _ forced =>
    s.taken = forced ∧ s.accepted = false ∧ (s.requested → s.forceKeyframe ∨ forced)
  | .stopped => True

theorem Pending.kept (h : s.Pending) : s.Kept := by
  intro htop
  rwa [Pending, htop] at h

theorem Pending.requestKeyframe (h : s.Pending) : s.requestKeyframe.Pending := by
  unfold Pending at h
  unfold Pending EncodeLoop.requestKeyframe
  dsimp only
  split <;> rename_i hphase <;> rw [hphase] at h
  · exact ⟨h.1, fun _ => rfl⟩
  all_goals first
    | exact trivial
    | exact ⟨h.1, h.2.1, fun _ => rfl⟩
    | exact ⟨h.1, h.2.1, fun _ => .inl rfl⟩

theorem Pending.configure (h : s.requested → s.forceKeyframe) (created : Bool) :
    (s.configure created).Pending := by
  simp only [EncodeLoop.configure]
  split_ifs
  · trivial
  · split
    · exact ⟨rfl, rfl, h⟩
    · split_ifs
      · trivial
      · exact ⟨rfl, rfl, fun _ => rfl⟩
      · exact ⟨rfl, rfl, h⟩

theorem Pending.prepare {frame : Frame} (htaken : s.taken = false)
    (haccepted : s.accepted = false) (h : s.requested → s.forceKeyframe) (outcome : Resize) :
    (s.prepare frame outcome).Pending := by
  unfold EncodeLoop.prepare
  split_ifs
  · exact ⟨htaken, haccepted, h⟩
  · cases outcome with
    | done => exact ⟨htaken, haccepted, h⟩
    | failed =>
      refine ⟨fun htrue => ?_, h⟩
      rw [htaken] at htrue
      cases htrue
    | noPool => trivial

/-- The iteration ends. A frame that was to be a keyframe is one, and the channel takes it. -/
theorem Pending.collect {frame : Frame} {forced : Bool} (htaken : s.taken = forced)
    (h : s.requested → s.forceKeyframe ∨ forced)
    (hserved : forced → s.KeyframeFits ∨ (s.output.isSome ∧ s.receiverOpen = false)) :
    (s.collect frame).Pending := by
  simp only [EncodeLoop.collect]
  cases forced with
  | false =>
    have hpending : s.requested → s.forceKeyframe := fun hr => (h hr).resolve_right (by simp)
    have hnone : ∀ b : Bool, s.taken → b := fun _ ht => by simp [htaken] at ht
    split
    · exact ⟨hnone _, hpending⟩
    · split_ifs
      · trivial
      · exact ⟨hnone _, fun hr => hpending (by simp only [Bool.and_eq_true] at hr; exact hr.1)⟩
      · exact ⟨hnone _, hpending⟩
  | true =>
    rcases hserved rfl with ⟨hkeyframe, hroom⟩ | ⟨houtput, hclosed⟩
    · obtain ⟨output, houtput, hkeyframe⟩ := Option.map_eq_some_iff.mp hkeyframe
      simp only [houtput, hkeyframe, if_pos hroom]
      split_ifs
      · trivial
      · exact ⟨fun _ => rfl, fun hr => by simp at hr⟩
    · obtain ⟨output, houtput⟩ := Option.isSome_iff_exists.mp houtput
      simp only [houtput, hclosed]
      trivial

theorem Pending.step (h : s.Pending) {a : Action} (hserved : s.Served a) (hs : s.step a = some s') :
    s'.Pending := by
  cases a with
  | addPeer | startSending =>
    obtain rfl := Option.some.inj hs
    exact h.requestKeyframe
  | publish | cancel | take | closeReceiver =>
    obtain rfl := Option.some.inj hs
    exact h
  | callback status sample =>
    simp only [EncodeLoop.step] at hs
    split at hs
    · cases hs
    · obtain rfl := Option.some.inj hs
      exact h
    · obtain rfl := Option.some.inj hs
      exact h
  | configure created =>
    simp only [EncodeLoop.step] at hs
    split at hs <;> cases hs
    rename_i hphase
    rw [Pending, hphase] at h
    exact .configure h.2 created
  | receive frame =>
    simp only [EncodeLoop.step] at hs
    split at hs <;> cases hs
    · rename_i hphase
      rwa [Pending, hphase] at h
    · trivial
  | prepare outcome =>
    simp only [EncodeLoop.step] at hs
    split at hs <;> cases hs
    rename_i hphase
    rw [Pending, hphase] at h
    exact .prepare h.1 h.2.1 h.2.2 outcome
  | swap =>
    simp only [EncodeLoop.step] at hs
    split at hs <;> cases hs
    rename_i hphase
    rw [Pending, hphase] at h
    exact ⟨rfl, h.2.1, fun hr => .inr (h.2.2 hr)⟩
  | encode status =>
    simp only [EncodeLoop.step] at hs
    split at hs <;> try cases hs
    rename_i frame forced hphase
    rw [Pending, hphase] at h
    split_ifs at hs with hstatus <;> obtain rfl := Option.some.inj hs
    · cases forced with
      | false => exact ⟨fun ht => by simp [h.1] at ht, fun hr => (h.2.2 hr).resolve_right (by simp)⟩
      | true => exact absurd (hserved (by rw [EncodeLoop.forced, hphase])) hstatus
    · exact h
  | complete status =>
    simp only [EncodeLoop.step] at hs
    split at hs <;> try cases hs
    rename_i frame forced hphase
    rw [Pending, hphase] at h
    split_ifs at hs
    obtain rfl := Option.some.inj hs
    exact h
  | collect =>
    simp only [EncodeLoop.step] at hs
    split at hs <;> cases hs
    rename_i frame forced hphase
    rw [Pending, hphase] at h
    exact .collect h.1 h.2.2 fun hforced => hserved (by rwa [EncodeLoop.forced, hphase])

theorem not_kept_of_taken (htop : s.phase = .top) (htaken : s.taken = true)
    (haccepted : s.accepted = false) : ¬ s.Kept := by
  intro hkept
  have hserved := (hkept htop).1 htaken
  rw [haccepted] at hserved
  cases hserved

/-- A step that is not served ends an iteration that cleared a request and kept no keyframe. -/
theorem Pending.not_kept (h : s.Pending) {a : Action} (hserved : ¬ s.Served a)
    (hs : s.step a = some s') : ¬ s'.Kept := by
  cases a with
  | encode status =>
    obtain ⟨hforced, hstatus⟩ := Classical.not_imp.mp hserved
    simp only [EncodeLoop.step] at hs
    split at hs <;> try cases hs
    rename_i frame forced hphase
    rw [EncodeLoop.forced, hphase] at hforced
    rw [Pending, hphase] at h
    rw [if_pos hstatus] at hs
    obtain rfl := Option.some.inj hs
    exact not_kept_of_taken rfl (h.1.trans hforced) h.2.1
  | collect =>
    obtain ⟨hforced, hlost⟩ := Classical.not_imp.mp hserved
    simp only [EncodeLoop.step] at hs
    split at hs <;> cases hs
    rename_i frame forced hphase
    rw [EncodeLoop.forced, hphase] at hforced
    rw [Pending, hphase] at h
    have htaken := h.1.trans hforced
    obtain ⟨hfits, hclosed⟩ := not_or.mp hlost
    simp only [EncodeLoop.collect]
    split
    · exact not_kept_of_taken rfl htaken h.2.1
    · rename_i output houtput
      have hopen : s.receiverOpen = true := by simpa [houtput] using hclosed
      simp only [hopen, Bool.not_true, Bool.false_eq_true, if_false]
      split_ifs with hroom
      · refine not_kept_of_taken rfl htaken ?_
        simpa [KeyframeFits, houtput, hroom] using hfits
      · exact not_kept_of_taken rfl htaken h.2.1
  | _ => exact absurd trivial hserved

theorem pending_start (config : Option Bandwidth.EncoderConfig) : (start config).Pending :=
  ⟨(fun h => by cases h), (fun h => by cases h)⟩

/--
If every request that the loop clears is served, then in every state reached the requests are kept,
and from there the first one that is not served is lost.
-/
theorem kept_of_served {config : Option Bandwidth.EncoderConfig} {as : List Action}
    (h : Run step Served (start config) as s) :
    s.Kept ∧ ∀ a s', s.step a = some s' → ¬ s.Served a → ¬ s'.Kept := by
  have hpending := h.invariant (P := Pending) (fun _ _ _ hn ha hs => hn.step ha hs)
    (pending_start config)
  exact ⟨hpending.kept, fun a s' hs hserved => hpending.not_kept hserved hs⟩

/-- A peer joins, and the next frame has the encoder's own size. -/
def joinThenEncode (status : ℤ) : List Action :=
  [.addPeer, .configure true, .receive (some ⟨640, 480, 1⟩), .prepare .done, .swap, .encode status]

/-- The session delivers an empty keyframe, and the loop passes it on. -/
def deliver : List Action :=
  [.callback 0 (some (⟨some ⟨[], 0, false⟩, some ⟨[], 0, fun _ => 0, some 4⟩⟩, none)),
    .complete 0, .collect]

theorem kept_joinThenEncode : ∃ s, Run step Served (start none) (joinThenEncode 0 ++ deliver) s ∧
    s.accepted = true ∧ s.Kept := by
  obtain ⟨s, hs, haccepted⟩ := Option.map_eq_some_iff.mp
    (by decide +kernel : (exec (guarded step Served) (start none) (joinThenEncode 0 ++ deliver)).map
      (·.accepted) = some true)
  have hrun := run_of_guarded hs
  exact ⟨s, hrun, haccepted, (kept_of_served hrun).1⟩

/-- When the encoder refuses the frame, the request of the peer that joined is lost. -/
theorem not_kept : ¬ ∀ (config : Option Bandwidth.EncoderConfig) (s : EncodeLoop),
    Reachable step (start config) s → s.Kept := by
  intro h
  obtain ⟨s, hs, hsummary⟩ := Option.map_eq_some_iff.mp
    (by decide : (exec step (start none) (joinThenEncode (-12903))).map
      (fun s => (s.phase, s.taken, s.accepted)) = some (.top, true, false))
  have hkept := h none s ⟨_, run_of_exec hs⟩
  simp only [Prod.mk.injEq] at hsummary
  exact not_kept_of_taken hsummary.1 hsummary.2.1 hsummary.2.2 hkept

end Meshconf.Video.EncodeLoop
