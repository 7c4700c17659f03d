import Meshconf.Video.Delivery

/-! # The order of displayed frames

The check against the newest keyframe comes before a task reads its object, so an
older keyframe may still enter the queue after a newer one, and the decoder takes it.
As long as keyframes enter in the order of their groups, displayed groups increase.
-/

namespace Meshconf.Video

open Bytes Protocol Transition

/-- If the next operation of a task lets a keyframe in, it is newer than all before. -/
def Receiver.entersInOrder (r : Receiver) : Progress → Bool
  | .marked obj => !obj.isKeyframe || !r.hasRoom ||
      r.enqueued.all fun e => !e.isKeyframe || decide (e.groupId < obj.groupId)
  | _ => true

theorem Receiver.entersInOrder_marked {r : Receiver} {obj : MediaObject}
    (h : r.entersInOrder (.marked obj)) (hroom : r.hasRoom) (hkey : obj.isKeyframe) :
    ∀ e ∈ r.enqueued, e.isKeyframe → e.groupId < obj.groupId := by
  intro e he hekey
  simp only [entersInOrder, hroom, hkey, Bool.not_true, Bool.false_or, List.all_eq_true] at h
  simpa [hekey] using h e he

namespace Link

/-- Steps that let no keyframe into the queue behind a newer one. -/
def KeyframesInOrder (l : Link) : Action → Prop
  | .receive (.task i) => ∀ t ∈ l.receiver.tasks[i]?, l.receiver.entersInOrder t.progress
  | _ => True

instance (l : Link) (a : Action) : Decidable (l.KeyframesInOrder a) :=
  match a with
  | .send _ => .isTrue trivial
  | .accept _ _ _ => .isTrue trivial
  | .receive (.task i) => inferInstanceAs
      (Decidable (∀ t ∈ l.receiver.tasks[i]?, l.receiver.entersInOrder t.progress = true))
  | .receive (.decode _) => .isTrue trivial
  | .receive .cancel => .isTrue trivial
  | .receive .stopDecoder => .isTrue trivial

/-- The invariant of the runs in which keyframes enter in order. -/
structure InOrder (l : Link) : Prop where
  wf : l.Wf
  keys : l.receiver.enqueued.Pairwise fun a b =>
    a.isKeyframe → b.isKeyframe → a.groupId < b.groupId
  ordered : Ordered l.receiver.decoder

theorem InOrder.init : InOrder {} where
  wf := .init
  keys := List.Pairwise.nil
  ordered := .init

/-- The packet at the head of the queue is in order for the decoder. -/
theorem InOrder.follows {l : Link} (h : l.InOrder) {obj : MediaObject} {queue : List MediaObject}
    (hq : l.receiver.queue = obj :: queue) : Follows l.receiver.decoder.packets obj where
  distinct p hp heq := by
    have hold := h.wf.distinct obj.groupId
    have hpos : 0 < (l.receiver.decoder.packets.map (·.groupId)).count obj.groupId :=
      List.count_pos_iff.mpr (List.mem_map.mpr ⟨p, hp, heq⟩)
    simp only [places, h.wf.fifo, hq, List.map_append, List.map_cons, List.count_append,
      List.count_cons_self] at hold
    omega
  newest hkey p hp hp' := by
    have hkeys := h.keys
    rw [h.wf.fifo, hq, List.pairwise_append] at hkeys
    exact hkeys.2.2 p hp obj (by simp) hp' hkey

theorem InOrder.receive {l : Link} (h : l.InOrder) {a : Receiver.Action} {r : Receiver}
    (hc : l.KeyframesInOrder (.receive a)) (hr : l.receiver.Stepped a r) :
    InOrder { l with receiver := r } := by
  refine ⟨h.wf.receive hr, ?_, ?_⟩
  · cases hr with
    | @task i t p u ht hh =>
      cases hh with
      | quiet _ => exact h.keys
      | enqueue hp hroom =>
        refine List.pairwise_append.mpr ⟨h.keys, List.pairwise_singleton _ _, ?_⟩
        intro e he obj hobj hekey hkey
        obtain rfl := List.mem_singleton.mp hobj
        exact Receiver.entersInOrder_marked (hp ▸ hc t ht) hroom hkey e he hekey
    | decode _ => exact h.keys
    | cancel => exact h.keys
    | stopDecoder => exact h.keys
  · cases hr with
    | task _ hh => cases hh <;> exact h.ordered
    | @decode o obj queue hq => exact h.ordered.receive h.wf.intact (h.follows hq) o
    | cancel => exact h.ordered
    | stopDecoder => exact h.ordered

theorem InOrder.step {l l' : Link} {a : Action} (h : l.InOrder) (hc : l.KeyframesInOrder a)
    (hs : l.step a = some l') : l'.InOrder := by
  cases a with
  | send f =>
    have hwf := h.wf.step hs
    unfold Link.step at hs
    dsimp only at hs
    split_ifs at hs
    obtain rfl := Option.some.inj hs
    exact ⟨hwf, h.keys, h.ordered⟩
  | accept i n ending =>
    have hwf := h.wf.step hs
    obtain ⟨f, hf, hs⟩ := Option.bind_eq_some_iff.mp hs
    obtain rfl := Option.some.inj hs
    exact ⟨hwf, h.keys, h.ordered⟩
  | receive a =>
    obtain ⟨r, hr, hs⟩ := Option.bind_eq_some_iff.mp hs
    obtain rfl := Option.some.inj hs
    exact h.receive hc (Receiver.stepped (fun t ht => (h.wf.tasks t ht).2) hr)

theorem InOrder.of_run {as : List Action} {l : Link} (h : Run Link.step KeyframesInOrder {} as l) :
    l.InOrder :=
  h.invariant (P := InOrder) (fun _ _ _ ht hc hs => ht.step hc hs) .init

/-- The groups offered to the compositor, in order. -/
def displayed (l : Link) : List ℕ := l.receiver.decoder.offered.map RgbFrame.groupId

/--
Displayed groups increase in every run that lets keyframes into the queue in order, whatever the
order of its tasks and the outcomes of its decoder.
-/
theorem displayed_increasing {as : List Action} {l : Link}
    (h : Run Link.step KeyframesInOrder {} as l) : l.displayed.Pairwise (· < ·) :=
  (InOrder.of_run h).ordered.offered_increasing

end Link

/-- A keyframe of one parameter set and one picture. -/
def keyframe (g : ℕ) (hg : g < 2 ^ 62) : SentFrame where
  header := ⟨trackVideo, g, 0, priorityVideo⟩
  object := ⟨0, 9, some .hevc, [0, 0, 0, 1, 64, 1, 0, 0, 0, 1, 38, 1]⟩
  header_fits := ⟨by simp [trackVideo], hg, by simp⟩
  object_bounded := ⟨by simp, by simp, by simp⟩

/-- A frame that refers to the one before it. -/
def delta (g : ℕ) (hg : g < 2 ^ 62) : SentFrame where
  header := ⟨trackVideo, g, 1, priorityVideo⟩
  object := ⟨0, 9, some .hevc, [0, 0, 0, 1, 2, 1]⟩
  header_fits := ⟨by simp [trackVideo], hg, by simp⟩
  object_bounded := ⟨by simp, by simp, by simp⟩

/-- The platform decodes a picture. -/
def picture : Outcomes := { decode := .ok (some ⟨1, 1, [0]⟩) }

namespace Link

/-- The first five operations of task `i`, up to the marker. -/
def readFrame (i : ℕ) : List Action := List.replicate 5 (.receive (.task i))

def keyframeThenDelta : List Action :=
  [.send (keyframe 1 (by decide)), .send (delta 2 (by decide)), .accept 0 100 .finished,
    .accept 0 100 .finished] ++ readFrame 0 ++ [.receive (.task 0), .receive (.decode picture)] ++
    readFrame 0 ++ [.receive (.task 0), .receive (.decode picture)]

theorem displayed_increasing_keyframeThenDelta :
    ∃ l, Run Link.step KeyframesInOrder {} keyframeThenDelta l ∧ l.displayed = [1, 2] ∧
      l.displayed.Pairwise (· < ·) := by
  obtain ⟨l, hl, hd⟩ := Option.map_eq_some_iff.mp
    (by decide : (exec (guarded Link.step KeyframesInOrder) {} keyframeThenDelta).map displayed =
      some [1, 2])
  exact ⟨l, run_of_guarded hl, hd, displayed_increasing (run_of_guarded hl)⟩

/-- The first keyframe passes its check, then the second one is read and displayed. -/
def overtaking : List Action :=
  [.send (keyframe 1 (by decide)), .send (keyframe 2 (by decide)), .accept 0 100 .finished,
    .accept 0 100 .finished] ++ List.replicate 3 (.receive (.task 0)) ++ readFrame 1 ++
    [.receive (.task 1), .receive (.decode picture)] ++
    List.replicate 3 (.receive (.task 0)) ++ [.receive (.decode picture)]

theorem not_displayed_increasing :
    ¬ ∀ (as : List Action) (l : Link), Run Link.step Free {} as l →
      l.displayed.Pairwise (· < ·) := by
  intro h
  obtain ⟨l, hl, hd⟩ := Option.map_eq_some_iff.mp
    (by decide : (exec Link.step {} overtaking).map displayed = some [2, 1])
  have hlt := h overtaking l (run_of_exec hl)
  rw [hd] at hlt
  simp at hlt

end Link

end Meshconf.Video
