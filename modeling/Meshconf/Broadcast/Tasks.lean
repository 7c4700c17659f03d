import Meshconf.Broadcast.SendLoop

/-! # Sends of one GOP

The loop keeps a handle for every task until the task has ended, and aborts all of them
when a keyframe comes, when no peer is left, and at its own end. A send that goes on is
therefore of the current GOP, or a worker was at it when it was aborted.
-/

namespace Meshconf.Broadcast

open Bytes Protocol Video Bandwidth Transition
open Meshconf.Mesh (Connection)

variable {Id : Type}

namespace SendTask

/-- What a worker may do to a task. -/
structure Later (t t' : SendTask Id) : Prop where
  conn : t'.conn = t.conn
  frame : t'.frame = t.frame
  aborted : t'.aborted = t.aborted
  ended : t'.ended = false → t.ended = false
  opened : t.opened → t'.opened
  polled : t.aborted → t'.ended = false → t'.polled

end SendTask

namespace SendLoop

variable {s s' : SendLoop Id}

/-! ## What a step changes -/

/-- The steps, by what they change. -/
inductive Moved [DecidableEq Id] (s : SendLoop Id) : SendLoop Id → Prop where
  /-- The room, the encoder, the estimator or the token. -/
  | outside {b : Broadcaster Id} {channel : List EncodedPacket} {closed cancelled : Bool}
      {bandwidth : Option (List BandwidthEvent)} :
      (∀ e ∈ b.peers, e ∈ s.broadcaster.peers ∨ e.1 = e.2.remoteId) →
      Moved s { s with
        broadcaster := b, channel, channelClosed := closed, cancelled, bandwidth }
  | skip {channel : List EncodedPacket} : s.phase = .idle → Moved s { s.abortAll with channel }
  | delta {channel : List EncodedPacket} {pkt : EncodedPacket} (hg : s.frameSeq + 1 < 2 ^ 62) :
      s.phase = .idle → pkt.isKeyframe = false → Moved s ({ s with channel }.number pkt hg)
  | keyframe {channel : List EncodedPacket} {pkt : EncodedPacket} (hg : s.frameSeq + 1 < 2 ^ 62) :
      s.phase = .idle → pkt.isKeyframe → Moved s ({ s with channel }.number pkt hg).abortAll
  | snapshot {frame : SentFrame} {peers : List (Id × Connection Id)} :
      s.phase = .numbered frame → peers.Perm s.broadcaster.peers →
      Moved s { s.retain with
        recipients := s.recipients ++ [peers.map Prod.snd]
        phase := .spawning frame peers peers }
  | spawn {frame : SentFrame} {id : Id} {conn : Connection Id}
      {rest peers : List (Id × Connection Id)} :
      s.phase = .spawning frame ((id, conn) :: rest) peers →
      Moved s (s.spawn frame id conn rest peers)
  | done {frame : SentFrame} {peers : List (Id × Connection Id)} {counter : ℕ}
      {bandwidth : Option (List BandwidthEvent)} : s.phase = .spawning frame [] peers →
      Moved s { s with rttPollCounter := counter, bandwidth, phase := .idle }
  | stop : s.phase = .idle → Moved s { s.abortAll with phase := .stopped }
  | work {i : ℕ} {t t' : SendTask Id} {bandwidth : Option (List BandwidthEvent)} :
      s.tasks[i]? = some t → t.Later t' →
      Moved s { s with tasks := s.tasks.set i t', bandwidth }
  | deliver {conn : Connection Id} {link : Link} {a : Link.Action} :
      (s.links conn).step a = some link → link.sent = (s.links conn).sent →
      Moved s { s with links := Function.update s.links conn link }

theorem eq_work {i : ℕ} {f : SendTask Id → Option (SendTask Id)} (h : s.work i f = some s') :
    ∃ t t', s.tasks[i]? = some t ∧ t.ended = false ∧ t.polled ∧ f t = some t' ∧
      s' = { s with tasks := s.tasks.set i t' } := by
  obtain ⟨t, ht, h⟩ := Option.bind_eq_some_iff.mp h
  split_ifs at h with hlive
  obtain ⟨t', ht', rfl⟩ := Option.map_eq_some_iff.mp h
  simp only [Bool.and_eq_true, Bool.not_eq_eq_eq_not, Bool.not_true] at hlive
  exact ⟨t, t', ht, hlive.2, hlive.1, ht', rfl⟩

/-- The events of a poll go to the estimator and nowhere else. -/
theorem foldl_trySend (us : List ℕ) (s : SendLoop Id) :
    ∃ bandwidth, us.foldl (fun s us => s.trySend (.rttSample us)) s = { s with bandwidth } := by
  induction us generalizing s with
  | nil => exact ⟨s.bandwidth, rfl⟩
  | cons u us ih =>
    obtain ⟨bandwidth, h⟩ := ih (s.trySend (.rttSample u))
    exact ⟨bandwidth, by rw [List.foldl_cons, h]; rfl⟩

theorem sent_of_accept {l l' : Link} {i n : ℕ} {ending : Ending}
    (h : l.step (.accept i n ending) = some l') : l'.sent = l.sent := by
  obtain ⟨f, -, h⟩ := Option.bind_eq_some_iff.mp h
  obtain rfl := Option.some.inj h
  rfl

theorem sent_of_receive {l l' : Link} {a : Receiver.Action} (h : l.step (.receive a) = some l') :
    l'.sent = l.sent := by
  obtain ⟨r, -, h⟩ := Option.bind_eq_some_iff.mp h
  obtain rfl := Option.some.inj h
  rfl

variable [DecidableEq Id]

theorem moved_take (hidle : s.phase = .idle) (h : s.take = some s') : s.Moved s' := by
  unfold take at h
  split at h
  · cases h
  · dsimp only at h
    split_ifs at h with hcount hg hkey <;> obtain rfl := Option.some.inj h
    · exact .skip hidle
    · exact .keyframe hg hidle hkey
    · exact .delta hg hidle (by simpa using hkey)

theorem moved {a : Action Id} (h : s.step a = some s') : s.Moved s' := by
  cases a with
  | addPeer conn =>
    obtain rfl := Option.some.inj h
    apply Moved.outside
    intro e he
    rcases List.mem_cons.mp he with rfl | he
    · exact .inr rfl
    · exact .inl (List.mem_of_mem_filter he)
  | removePeer id =>
    obtain rfl := Option.some.inj h
    exact .outside fun e he => .inl (List.mem_of_mem_filter he)
  | encode pkt =>
    simp only [step] at h
    split_ifs at h <;> obtain rfl := Option.some.inj h <;> exact .outside fun e he => .inl he
  | swapKeyframe | closeChannel | takeEvent | cancel =>
    obtain rfl := Option.some.inj h
    exact .outside fun e he => .inl he
  | take =>
    simp only [step] at h
    split at h
    · exact moved_take (by assumption) h
    · cases h
  | snapshot peers =>
    simp only [step] at h
    split at h
    · split_ifs at h with hperm
      obtain rfl := Option.some.inj h
      exact .snapshot (by assumption) hperm
    · cases h
  | spawn =>
    simp only [step] at h
    split at h
    · obtain rfl := Option.some.inj h
      exact .spawn (by assumption)
    · cases h
  | pollRtt rtt =>
    simp only [step] at h
    split at h
    · obtain rfl := Option.some.inj h
      rename_i hphase
      unfold SendLoop.pollRtt
      dsimp only
      split_ifs
      · obtain ⟨bandwidth, hfold⟩ := foldl_trySend _ _
        rw [hfold]
        exact .done hphase
      · exact .done hphase
    · cases h
  | stop =>
    simp only [step] at h
    split at h
    · split_ifs at h
      obtain rfl := Option.some.inj h
      exact .stop (by assumption)
    · cases h
  | schedule i =>
    obtain ⟨t, ht, h⟩ := Option.bind_eq_some_iff.mp h
    split_ifs at h with hended
    obtain rfl := Option.some.inj h
    exact .work ht ⟨rfl, rfl, rfl, id, id, fun _ _ => rfl⟩
  | openStream i =>
    obtain ⟨t, t', ht, -, hpolled, hf, rfl⟩ := eq_work h
    obtain rfl := Option.some.inj hf
    exact .work ht ⟨rfl, rfl, rfl, id, fun _ => rfl, fun _ _ => hpolled⟩
  | finish i durationNs =>
    obtain ⟨u, hu, hsent⟩ := Option.bind_eq_some_iff.mp h
    obtain ⟨w, hw, rfl⟩ := Option.map_eq_some_iff.mp hsent
    obtain ⟨t, t', ht, -, -, hf, rfl⟩ := eq_work hw
    split_ifs at hf
    obtain rfl := Option.some.inj hf
    exact .work ht ⟨rfl, rfl, rfl, nofun, id, nofun⟩
  | fail i =>
    obtain ⟨t, t', ht, -, -, hf, rfl⟩ := eq_work h
    obtain rfl := Option.some.inj hf
    exact .work ht ⟨rfl, rfl, rfl, nofun, id, nofun⟩
  | yield i =>
    obtain ⟨t, t', ht, hlive, -, hf, rfl⟩ := eq_work h
    obtain rfl := Option.some.inj hf
    refine .work ht ⟨rfl, rfl, rfl, fun _ => hlive, id, fun haborted hended => ?_⟩
    exact absurd (haborted.symm.trans hended) (by simp)
  | accept conn i n ending =>
    obtain ⟨f, -, h⟩ := Option.bind_eq_some_iff.mp h
    obtain ⟨link, hlink, h⟩ := Option.bind_eq_some_iff.mp h
    split_ifs at h
    obtain rfl := Option.some.inj h
    exact .deliver hlink (sent_of_accept hlink)
  | receive conn a =>
    obtain ⟨link, hlink, h⟩ := Option.bind_eq_some_iff.mp h
    obtain rfl := Option.some.inj h
    exact .deliver hlink (sent_of_receive hlink)

/-! ## Isolation -/

/-- Frame `f` is not of a GOP that a later keyframe has ended. -/
def InGop (s : SendLoop Id) (f : SentFrame) : Prop :=
  ∀ k pkt, s.numbered[k]? = some pkt → pkt.isKeyframe → k < f.groupId

/-- A send that goes on is known to the loop and of its GOP, or just being stopped. -/
def Confined (s : SendLoop Id) (i : ℕ) (t : SendTask Id) : Prop :=
  t.ended = false → (t.aborted = false ∧ i ∈ s.handles ∧ s.InGop t.frame ∧ s.phase ≠ .stopped) ∨
    (t.aborted ∧ t.polled)

end SendLoop

/-- The frame that the loop is sending. -/
def LoopPhase.frame : LoopPhase Id → Option SentFrame
  | .numbered f => some f
  | .spawning f _ _ => some f
  | _ => none

namespace SendLoop

variable {s s' : SendLoop Id} {i : ℕ} {t : SendTask Id}

/-- The invariant of the loop and its tasks. -/
structure Isolated (s : SendLoop Id) : Prop where
  seq : s.frameSeq = s.numbered.length
  number : ∀ f ∈ s.phase.frame, f.groupId = s.numbered.length
  confined : ∀ i t, s.tasks[i]? = some t → s.Confined i t

theorem Isolated.init (b : Bool) : (start b : SendLoop Id).Isolated where
  seq := rfl
  number := by simp [start, LoopPhase.frame]
  confined := by simp [start]

theorem Confined.mono (h : s.Confined i t)
    (hhandles : t.ended = false → i ∈ s.handles → i ∈ s'.handles)
    (hgop : s.InGop t.frame → s'.InGop t.frame) (hphase : s'.phase ≠ .stopped) :
    s'.Confined i t := by
  intro hlive
  rcases h hlive with ⟨haborted, hi, hin, -⟩ | hstopping
  · exact .inl ⟨haborted, hhandles hlive hi, hgop hin, hphase⟩
  · exact .inr hstopping

/-- After an abort of all tasks, none goes on that no worker is at. -/
theorem confined_of_abortAll (h : ∀ i t, s.tasks[i]? = some t → s.Confined i t)
    (htasks : s'.tasks = s.abortAll.tasks) (ht : s'.tasks[i]? = some t) : s'.Confined i t := by
  intro hlive
  rw [htasks, abortAll, List.getElem?_mapIdx] at ht
  obtain ⟨t₀, ht₀, rfl⟩ := Option.map_eq_some_iff.mp ht
  apply Or.inr
  split_ifs at hlive ⊢ with hi
  · have hpolled : t₀.ended = false ∧ t₀.polled = true := by simpa [SendTask.abort] using hlive
    exact ⟨rfl, hpolled.2⟩
  · rcases h i t₀ ht₀ hlive with ⟨-, hmem, -, -⟩ | hstopping
    · exact absurd hmem hi
    · exact hstopping

theorem mem_handles_retain (hi : i ∈ s.handles) (ht : s.tasks[i]? = some t)
    (hlive : t.ended = false) : i ∈ s.retain.handles := by
  obtain ⟨e, he, hi⟩ := List.mem_flatMap.mp hi
  obtain ⟨h, hh, rfl⟩ := List.mem_map.mp hi
  refine List.mem_flatMap.mpr ⟨_, List.mem_map.mpr ⟨e, he, rfl⟩, ?_⟩
  refine List.mem_map.mpr ⟨h, List.mem_filter.mpr ⟨hh, ?_⟩, rfl⟩
  simp [isFinished, ht, hlive]

theorem mem_pushHandle [DecidableEq Id] (id : Id) (h : ℕ × ℕ) (l : List (Id × List (ℕ × ℕ))) :
    i ∈ (pushHandle id h l).flatMap (fun e => e.2.map Prod.snd) ↔
      i ∈ l.flatMap (fun e => e.2.map Prod.snd) ∨ i = h.2 := by
  induction l with
  | nil => simp [pushHandle]
  | cons e rest ih =>
    unfold pushHandle
    split_ifs
    · simp only [List.flatMap_cons, List.mem_append, List.map_append, List.map_cons, List.map_nil,
        List.mem_singleton]
      tauto
    · rw [List.flatMap_cons, List.flatMap_cons, List.mem_append, List.mem_append, ih, or_assoc]

theorem InGop.number {f : SentFrame} (h : s.InGop f) {pkt : EncodedPacket}
    (hg : s.frameSeq + 1 < 2 ^ 62) (hdelta : pkt.isKeyframe = false) :
    (s.number pkt hg).InGop f := by
  intro k p (hk : (s.numbered ++ [pkt])[k]? = some p) hkey
  rcases List.getElem?_append.symm.trans hk with hk
  split_ifs at hk
  · exact h k p hk hkey
  · obtain rfl := List.mem_singleton.mp (List.mem_of_getElem? hk)
    exact absurd (hkey.symm.trans hdelta) (by simp)

theorem Isolated.moved [DecidableEq Id] (h : s.Isolated) (hs : s.Moved s') : s'.Isolated := by
  cases hs with
  | outside _ => exact ⟨h.seq, h.number, h.confined⟩
  | skip hidle =>
    exact ⟨h.seq, h.number, fun i t ht => confined_of_abortAll h.confined rfl ht⟩
  | @delta channel pkt hg hidle hdelta =>
    have hlength : s.frameSeq + 1 = (s.numbered ++ [pkt]).length := by simp [h.seq]
    refine ⟨hlength, ?_, fun i t ht => ?_⟩
    · rintro f ⟨⟩
      exact hlength
    · exact (h.confined i t ht).mono (fun _ hi => hi) (fun hin => hin.number hg hdelta)
        (by simp [SendLoop.number])
  | @keyframe channel pkt hg hidle hkey =>
    have hlength : s.frameSeq + 1 = (s.numbered ++ [pkt]).length := by simp [h.seq]
    refine ⟨hlength, ?_, fun i t ht => ?_⟩
    · rintro f ⟨⟩
      exact hlength
    · exact confined_of_abortAll h.confined rfl ht
  | @snapshot frame peers hphase _ =>
    have hnumber := h.number frame (by simp [hphase, LoopPhase.frame])
    refine ⟨h.seq, ?_, fun i t ht => ?_⟩
    · rintro f ⟨⟩
      exact hnumber
    · exact (h.confined i t ht).mono (fun hlive hi => mem_handles_retain hi ht hlive) id (by simp)
  | @spawn frame id conn rest peers hphase =>
    have hnumber := h.number frame (by simp [hphase, LoopPhase.frame])
    refine ⟨h.seq, ?_, fun i t ht => ?_⟩
    · rintro f ⟨⟩
      exact hnumber
    · have hhandles : ∀ j, j ∈ (s.spawn frame id conn rest peers).handles ↔
          j ∈ s.handles ∨ j = s.tasks.length := fun j => mem_pushHandle id _ s.inFlight
      rcases List.getElem?_append.symm.trans ht with ht
      split_ifs at ht with hi
      · exact (h.confined i t ht).mono (fun _ hj => (hhandles i).mpr (.inl hj)) (fun hin => hin)
          (by simp [SendLoop.spawn])
      · rw [List.getElem?_singleton] at ht
        split_ifs at ht with hzero
        obtain rfl := Option.some.inj ht
        refine fun _ => .inl ⟨rfl, (hhandles i).mpr (.inr (by omega)), fun k pkt hk _ => ?_,
          by simp [SendLoop.spawn]⟩
        exact hnumber ▸ (List.getElem?_eq_some_iff.mp hk).1
  | done hphase =>
    refine ⟨h.seq, by simp [LoopPhase.frame], fun i t ht => ?_⟩
    exact (h.confined i t ht).mono (fun _ hi => hi) id (by simp)
  | stop hidle =>
    refine ⟨h.seq, by simp [LoopPhase.frame], fun i t ht => ?_⟩
    exact confined_of_abortAll h.confined rfl ht
  | @work j t₀ t' _ ht₀ hlater =>
    refine ⟨h.seq, h.number, fun i t ht => ?_⟩
    rcases eq_or_ne j i with rfl | hne
    · obtain rfl : t' = t := by
        rw [List.getElem?_set_self (List.getElem?_eq_some_iff.mp ht₀).1] at ht
        exact Option.some.inj ht
      intro hlive
      rcases h.confined j t₀ ht₀ (hlater.ended hlive) with ⟨haborted, hi, hin, hphase⟩ | hstopping
      · exact .inl ⟨hlater.aborted.trans haborted, hi, hlater.frame ▸ hin, hphase⟩
      · exact .inr ⟨hlater.aborted.trans hstopping.1, hlater.polled hstopping.1 hlive⟩
    · rw [List.getElem?_set_ne hne] at ht
      exact h.confined i t ht
  | deliver _ _ => exact ⟨h.seq, h.number, h.confined⟩

variable [DecidableEq Id]

/--
In every state, a send that goes on has its handle with the running loop and is not older than the
newest keyframe, or it has been aborted and a worker is at it.
-/
theorem sends_confined {b : Bool} (h : Reachable step (start b) s) (ht : s.tasks[i]? = some t) :
    s.Confined i t :=
  (h.invariant (P := Isolated) (fun _ _ _ hi hs => hi.moved (moved hs)) (.init b)).confined i t ht

def packet (isKeyframe : Bool) : EncodedPacket :=
  ⟨[0, 0, 0, 1, 64, 1, 0, 0, 0, 1, 38, 2], 8, isKeyframe, by decide, by decide⟩

/-- A round of the loop with these peers. -/
def round (isKeyframe : Bool) (conns : List (Connection ℕ)) : List (Action ℕ) :=
  [.encode (packet isKeyframe), .take, .snapshot (conns.map fun c => (c.remoteId, c))] ++
    conns.map (fun _ => .spawn) ++ [.pollRtt fun _ => none]

/-- A keyframe comes while a worker is at the second of two sends. -/
def keyframeAmidSends : List (Action ℕ) :=
  [.addPeer ⟨0, 5⟩] ++ round true [⟨0, 5⟩] ++ round false [⟨0, 5⟩] ++
    [.schedule 0, .openStream 0, .yield 0, .schedule 1] ++ round true [⟨0, 5⟩]

theorem sends_confined_keyframeAmidSends : ∃ s : SendLoop ℕ, Reachable step (start false) s ∧
    s.tasks.map (fun t => (t.frame.groupId, t.aborted, t.polled, t.ended)) =
      [(1, true, false, true), (2, true, true, false), (3, false, false, false)] ∧
    ∀ i t, s.tasks[i]? = some t → s.Confined i t := by
  obtain ⟨s, hs, htasks⟩ := Option.map_eq_some_iff.mp
    (by decide +kernel : (exec step (start false) keyframeAmidSends).map
      (fun s => s.tasks.map fun t => (t.frame.groupId, t.aborted, t.polled, t.ended)) =
        some [(1, true, false, true), (2, true, true, false), (3, false, false, false)])
  have hreach : Reachable step (start false) s := ⟨_, run_of_exec hs⟩
  exact ⟨s, hreach, htasks, fun i t ht => sends_confined hreach ht⟩

end SendLoop

end Meshconf.Broadcast
