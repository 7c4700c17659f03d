import Meshconf.Transition.Run
import Meshconf.Video.DecodeOrder
import Meshconf.Video.Dispatch

/-! # What reaches the decoder

Every packet in the receive path is a frame that was sent, and every frame is in one
place at most: under way, with its task, or behind the queue's entrance. The decoder
takes the packets in the order in which they entered.
-/

namespace Meshconf.Video

open Bytes Protocol Transition

/-! ## Steps of the receiver -/

/-- The steps of a receiver whose tasks are faithful. -/
inductive Receiver.Stepped (r : Receiver) : Receiver.Action → Receiver → Prop where
  | task {i : ℕ} {t : Task} {p : Option Progress} {u : Receiver} : r.tasks[i]? = some t →
      Handled r t (u, p) →
      Stepped r (.task i) { u with tasks := Pool.update r.tasks i (p.map fun q => ⟨t.frame, q⟩) }
  | decode {o : Outcomes} {obj : MediaObject} {queue : List MediaObject} :
      r.queue = obj :: queue →
      Stepped r (.decode o) { r with queue := queue, decoder := r.decoder.receive obj o }
  | cancel : Stepped r .cancel { r with cancelled := true }
  | stopDecoder : Stepped r .stopDecoder { r with decoderDone := true }

theorem Receiver.stepped {r r' : Receiver} {a : Receiver.Action}
    (hr : ∀ t ∈ r.tasks, t.Faithful) (h : r.step a = some r') : r.Stepped a r' := by
  cases a with
  | task i =>
    obtain ⟨t, ht, rfl⟩ := Option.map_eq_some_iff.mp h
    have hh := handled_handleVideoStream (r := r) (hr t (Pool.mem_of_getElem? ht))
    unfold runTask
    generalize r.handleVideoStream t.progress = out at hh ⊢
    exact .task ht hh
  | decode o =>
    unfold step at h
    dsimp only at h
    split at h
    · rename_i obj queue _ hq
      obtain rfl := Option.some.inj h
      exact .decode hq
    · cases h
  | cancel =>
    obtain rfl := Option.some.inj h
    exact .cancel
  | stopDecoder =>
    unfold step at h
    dsimp only at h
    split_ifs at h
    obtain rfl := Option.some.inj h
    exact .stopDecoder

/-! ## Provenance and uniqueness -/

namespace Link

/-- The groups of all frames that the link holds, once for each place. -/
def places (l : Link) : List ℕ :=
  l.flight.map SentFrame.groupId ++
    (l.receiver.tasks.map (·.frame.groupId) ++ l.receiver.enqueued.map (·.groupId))

/-- The invariant of a link. -/
structure Wf (l : Link) : Prop where
  flight : ∀ f ∈ l.flight, f ∈ l.sent
  tasks : ∀ t ∈ l.receiver.tasks, t.frame ∈ l.sent ∧ t.Faithful
  enqueued : ∀ obj ∈ l.receiver.enqueued, ∃ f ∈ l.sent, obj = f.mediaObject
  fifo : l.receiver.enqueued = l.receiver.decoder.packets ++ l.receiver.queue
  distinct : ∀ g, l.places.count g ≤ 1
  intact : Intact l.receiver.decoder

theorem Wf.init : Wf {} where
  flight := by simp
  tasks := by simp
  enqueued := by simp
  fifo := rfl
  distinct := by simp [places]
  intact := .init

theorem Wf.mem_places {l : Link} (h : l.Wf) {g : ℕ} (hg : g ∈ l.places) :
    ∃ f ∈ l.sent, f.groupId = g := by
  simp only [places, List.mem_append, List.mem_map] at hg
  rcases hg with ⟨f, hf, rfl⟩ | ⟨t, ht, rfl⟩ | ⟨obj, hobj, rfl⟩
  · exact ⟨f, h.flight f hf, rfl⟩
  · exact ⟨t.frame, (h.tasks t ht).1, rfl⟩
  · obtain ⟨f, hf, rfl⟩ := h.enqueued obj hobj
    exact ⟨f, hf, rfl⟩

theorem Wf.send {l : Link} (h : l.Wf) {f : SentFrame}
    (hf : ∀ f' ∈ l.sent, f'.groupId < f.groupId) :
    Wf { l with sent := l.sent ++ [f], flight := l.flight ++ [f] } where
  flight := by
    intro f' hf'
    rcases List.mem_append.mp hf' with hf' | hf'
    · exact List.mem_append_left _ (h.flight f' hf')
    · exact List.mem_append_right _ hf'
  tasks t ht := ⟨List.mem_append_left _ (h.tasks t ht).1, (h.tasks t ht).2⟩
  enqueued obj hobj := by
    obtain ⟨f', hf', rfl⟩ := h.enqueued obj hobj
    exact ⟨f', List.mem_append_left _ hf', rfl⟩
  fifo := h.fifo
  distinct g := by
    have hnew : l.places.count f.groupId = 0 := by
      rw [List.count_eq_zero]
      intro hmem
      obtain ⟨f', hf', heq⟩ := h.mem_places hmem
      exact absurd (hf f' hf') (by omega)
    have hold := h.distinct g
    simp only [places, List.map_append, List.count_append, List.map_cons, List.map_nil,
      List.count_singleton, beq_iff_eq] at hnew hold ⊢
    split_ifs with hg
    · subst hg
      omega
    · omega
  intact := h.intact

theorem Wf.accept {l : Link} (h : l.Wf) {i : ℕ} {f : SentFrame} (hf : l.flight[i]? = some f)
    (n : ℕ) (ending : Ending) :
    Wf { l with
      flight := Pool.update l.flight i none
      receiver := { l.receiver with
        tasks := l.receiver.tasks ++ [⟨f, .spawned ⟨f.bytes.take n, ending, []⟩⟩] } } where
  flight := by
    intro f' (hf' : f' ∈ Pool.update l.flight i none)
    rcases Pool.mem_update hf hf' with hf' | hf'
    · exact h.flight f' hf'
    · cases hf'
  tasks t ht := by
    rcases List.mem_append.mp ht with ht | ht
    · exact h.tasks t ht
    · obtain rfl := List.mem_singleton.mp ht
      exact ⟨h.flight f (Pool.mem_of_getElem? hf), List.take_prefix n f.bytes⟩
  enqueued := h.enqueued
  fifo := h.fifo
  distinct g := by
    have hold := h.distinct g
    have hmove := Pool.count_update hf SentFrame.groupId none g
    simp only [places, List.map_append, List.count_append, List.map_cons, List.map_nil,
      List.count_singleton, beq_iff_eq, Option.toList_none, List.count_nil] at hold hmove ⊢
    omega
  intact := h.intact

theorem Wf.task {l : Link} (h : l.Wf) {i : ℕ} {t : Task} {p : Option Progress} {u : Receiver}
    (ht : l.receiver.tasks[i]? = some t) (hh : Handled l.receiver t (u, p)) :
    Wf { l with receiver := { u with
      tasks := Pool.update l.receiver.tasks i (p.map fun q => ⟨t.frame, q⟩) } } := by
  have hmem := h.tasks t (Pool.mem_of_getElem? ht)
  cases hh with
  | quiet hp =>
    refine ⟨h.flight, fun t' ht' => ?_, h.enqueued, h.fifo, fun g => ?_, h.intact⟩
    · rcases Pool.mem_update ht ht' with ht' | ht'
      · exact h.tasks t' ht'
      · obtain ⟨q, hq, rfl⟩ := Option.map_eq_some_iff.mp ht'
        exact ⟨hmem.1, hp q hq⟩
    · have hold := h.distinct g
      have hmove := Pool.count_update ht (·.frame.groupId) (p.map fun q => ⟨t.frame, q⟩) g
      have hp : ((p.map fun q => (⟨t.frame, q⟩ : Task)).toList.map (·.frame.groupId)).count g ≤
          if t.frame.groupId = g then 1 else 0 := by
        cases p <;> simp [List.count_singleton]
      simp only [places, List.count_append] at hold ⊢
      omega
  | enqueue _ _ =>
    refine ⟨h.flight, fun t' (ht' : t' ∈ Pool.update l.receiver.tasks i none) => ?_,
      fun obj hobj => ?_, ?_, fun g => ?_, h.intact⟩
    · rcases Pool.mem_update ht ht' with ht' | ht'
      · exact h.tasks t' ht'
      · cases ht'
    · rcases List.mem_append.mp hobj with hobj | hobj
      · exact h.enqueued obj hobj
      · exact ⟨t.frame, hmem.1, List.mem_singleton.mp hobj⟩
    · simp [h.fifo]
    · have hold := h.distinct g
      have hmove := Pool.count_update ht (·.frame.groupId) none g
      have hgroup : t.frame.mediaObject.groupId = t.frame.groupId := rfl
      simp only [places, List.map_append, List.count_append, List.map_cons, List.map_nil,
        List.count_singleton, beq_iff_eq, Option.toList_none, List.count_nil, Option.map_none,
        hgroup] at hold hmove ⊢
      omega

theorem Wf.receive {l : Link} (h : l.Wf) {a : Receiver.Action} {r : Receiver}
    (hr : l.receiver.Stepped a r) : Wf { l with receiver := r } := by
  cases hr with
  | task ht hh => exact h.task ht hh
  | @decode o obj queue hq =>
    refine ⟨h.flight, h.tasks, h.enqueued, ?_, h.distinct, h.intact.receive obj o⟩
    simp [DecoderRun.packets_receive, h.fifo, hq]
  | cancel => exact ⟨h.flight, h.tasks, h.enqueued, h.fifo, h.distinct, h.intact⟩
  | stopDecoder => exact ⟨h.flight, h.tasks, h.enqueued, h.fifo, h.distinct, h.intact⟩

theorem Wf.step {l l' : Link} {a : Action} (h : l.Wf) (hs : l.step a = some l') : l'.Wf := by
  cases a with
  | send f =>
    unfold Link.step at hs
    dsimp only at hs
    split_ifs at hs with hf
    obtain rfl := Option.some.inj hs
    exact h.send hf
  | accept i n ending =>
    obtain ⟨f, hf, hs⟩ := Option.bind_eq_some_iff.mp hs
    obtain rfl := Option.some.inj hs
    exact h.accept hf n ending
  | receive a =>
    obtain ⟨r, hr, hs⟩ := Option.bind_eq_some_iff.mp hs
    obtain rfl := Option.some.inj hs
    exact h.receive (Receiver.stepped (fun t ht => (h.tasks t ht).2) hr)

theorem Wf.of_reachable {l : Link} (h : Reachable Link.step {} l) : l.Wf :=
  h.invariant (fun _ _ _ ht hs => ht.step hs) .init

end Link

end Meshconf.Video
