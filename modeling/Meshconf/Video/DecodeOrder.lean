import Meshconf.Video.ReferenceChain

/-! # The order of decode calls

The decoder loop compares a keyframe with nothing, so the order of its calls is the
order in which keyframes reach it. If groups are distinct and keyframes arrive in
increasing order, so are all calls: from a keyframe on, the groups up to the last
call belong to non-keyframes that have already arrived.
-/

namespace Meshconf.Video

open Protocol

def Iteration.object : Iteration → MediaObject
  | .gated obj => obj
  | .sessionFailed obj => obj
  | .noDecoder obj => obj
  | .decoded call => call.object

namespace DecoderRun

/-- The packets that the loop has taken, in order. -/
def packets (r : DecoderRun) : List MediaObject := r.trace.map Iteration.object

/-- The frames offered to the compositor, in order. -/
def offered (r : DecoderRun) : List RgbFrame := r.calls.filterMap DecodeCall.offered

end DecoderRun

theorem Received.object_eq {s : DecoderState} {obj : MediaObject} {p : DecoderState × Iteration}
    (h : Received s obj p) : p.2.object = obj := by
  cases h <;> rfl

theorem DecoderRun.packets_receive (r : DecoderRun) (obj : MediaObject) (o : Outcomes) :
    (r.receive obj o).packets = r.packets ++ [obj] := by
  simp [packets, receive, (received_receive r.state obj o).object_eq]

/-- Group `g` lies on the contiguous run of a keyframe among the packets `ps`. -/
def Reached (ps : List MediaObject) (g : ℕ) : Prop :=
  ∃ key ∈ ps, key.isKeyframe ∧ key.groupId ≤ g ∧
    ∀ m, key.groupId < m → m ≤ g → ∃ p ∈ ps, p.groupId = m ∧ p.isKeyframe = false

/-- A packet in order: its group is new, and as a keyframe it is newer than all before. -/
structure Follows (ps : List MediaObject) (obj : MediaObject) : Prop where
  distinct : ∀ p ∈ ps, p.groupId ≠ obj.groupId
  newest : obj.isKeyframe → ∀ p ∈ ps, p.isKeyframe → p.groupId < obj.groupId

theorem Reached.append {ps : List MediaObject} {g : ℕ} (h : Reached ps g) (obj : MediaObject) :
    Reached (ps ++ [obj]) g := by
  obtain ⟨key, hkey, hk, hle, hrun⟩ := h
  refine ⟨key, List.mem_append_left _ hkey, hk, hle, fun m hlt hm => ?_⟩
  obtain ⟨p, hp, hpm⟩ := hrun m hlt hm
  exact ⟨p, List.mem_append_left _ hp, hpm⟩

theorem Reached.key {ps : List MediaObject} {obj : MediaObject} (hkey : obj.isKeyframe) :
    Reached (ps ++ [obj]) obj.groupId :=
  ⟨obj, by simp, hkey, le_rfl, fun m hlt hle => absurd hlt (by omega)⟩

theorem Reached.succ {ps : List MediaObject} {g : ℕ} {obj : MediaObject} (h : Reached ps g)
    (hobj : obj.groupId = g + 1) (hdelta : obj.isKeyframe = false) :
    Reached (ps ++ [obj]) obj.groupId := by
  obtain ⟨key, hkey, hk, hle, hrun⟩ := h.append obj
  refine ⟨key, hkey, hk, by omega, fun m hlt hm => ?_⟩
  by_cases hmg : m ≤ g
  · exact hrun m hlt hmg
  · exact ⟨obj, by simp, by omega, hdelta⟩

/-- A keyframe in order is newer than everything that earlier keyframes have reached. -/
theorem Reached.lt {ps : List MediaObject} {g : ℕ} {obj : MediaObject} (h : Reached ps g)
    (hobj : Follows ps obj) (hkey : obj.isKeyframe) : g < obj.groupId := by
  obtain ⟨key, hmem, hk, hle, hrun⟩ := h
  have hlt := hobj.newest hkey key hmem hk
  by_contra hge
  obtain ⟨p, hp, hpg, -⟩ := hrun obj.groupId hlt (by omega)
  exact hobj.distinct p hp hpg

/-- The invariant of a loop whose packets arrive in order. -/
structure Ordered (r : DecoderRun) : Prop where
  increasing : (r.calls.map (·.object.groupId)).Pairwise (· < ·)
  reached : ∀ call ∈ r.calls, Reached r.packets call.object.groupId
  ready : r.state.gotKeyframe → Reached r.packets r.state.lastDecodedGroup ∧
    ∀ call ∈ r.calls, call.object.groupId ≤ r.state.lastDecodedGroup
  offered : ∀ call ∈ r.calls, ∀ frame ∈ call.offered, frame.groupId = call.object.groupId

theorem Ordered.init : Ordered {} where
  increasing := List.Pairwise.nil
  reached := by simp [DecoderRun.calls]
  ready := by simp
  offered := by simp [DecoderRun.calls]

section

variable {r : DecoderRun} {obj : MediaObject} {session : ℕ}

/-- A call that the state admits comes after all calls so far and is reached in turn. -/
theorem Ordered.admits (h : Ordered r) (hobj : Follows r.packets obj)
    (hadm : Admits r.state obj session) :
    (∀ call ∈ r.calls, call.object.groupId < obj.groupId) ∧
      Reached (r.packets ++ [obj]) obj.groupId := by
  rcases hadm with hkey | ⟨hgot, hsucc, -⟩
  · exact ⟨fun call hcall => (h.reached call hcall).lt hobj hkey, .key hkey⟩
  · obtain ⟨hreached, hle⟩ := h.ready hgot
    cases hkey : obj.isKeyframe with
    | true => exact ⟨fun call hcall => (h.reached call hcall).lt hobj hkey, .key hkey⟩
    | false =>
      refine ⟨fun call hcall => ?_, hreached.succ hsucc hkey⟩
      have := hle call hcall
      omega

theorem DecoderRun.packets_snoc (t : DecoderState) (trace : List Iteration) (it : Iteration) :
    DecoderRun.packets ⟨t, trace ++ [it]⟩ = DecoderRun.packets ⟨t, trace⟩ ++ [it.object] := by
  simp [packets]

/-- A round without a call leaves the keyframe flag clear. -/
theorem Ordered.skip (h : Ordered r) {t : DecoderState} {it : Iteration}
    (hit : it.call? = none) (ht : t.gotKeyframe = false) : Ordered ⟨t, r.trace ++ [it]⟩ := by
  have hcalls : DecoderRun.calls ⟨t, r.trace ++ [it]⟩ = r.calls := by
    rw [DecoderRun.calls_snoc, hit]
    exact List.append_nil _
  constructor
  · simpa only [hcalls] using h.increasing
  · intro call hcall
    rw [DecoderRun.packets_snoc]
    exact (h.reached call (hcalls ▸ hcall)).append _
  · simp [ht]
  · simpa only [hcalls] using h.offered

theorem Ordered.call (h : Ordered r) {call : DecodeCall} (hobj : Follows r.packets call.object)
    (hadm : Admits r.state call.object session)
    (hoffered : ∀ frame ∈ call.offered, frame.groupId = call.object.groupId) {t : DecoderState}
    (ht : t.gotKeyframe → t.lastDecodedGroup = call.object.groupId) :
    Ordered ⟨t, r.trace ++ [.decoded call]⟩ := by
  obtain ⟨hlt, hreached⟩ := h.admits hobj hadm
  have hcalls : DecoderRun.calls ⟨t, r.trace ++ [.decoded call]⟩ = r.calls ++ [call] :=
    DecoderRun.calls_snoc _ _ _
  have hpackets : DecoderRun.packets ⟨t, r.trace ++ [.decoded call]⟩ =
      r.packets ++ [call.object] := DecoderRun.packets_snoc _ _ _
  constructor
  · rw [hcalls, List.map_append, List.pairwise_append]
    exact ⟨h.increasing, by simp, by simpa using hlt⟩
  · rw [hcalls, hpackets]
    intro c hc
    rcases List.mem_append.mp hc with hc | hc
    · exact (h.reached c hc).append _
    · exact List.mem_singleton.mp hc ▸ hreached
  · intro hgot
    rw [hcalls, hpackets, ht hgot]
    refine ⟨hreached, fun c hc => ?_⟩
    rcases List.mem_append.mp hc with hc | hc
    · exact (hlt c hc).le
    · exact List.mem_singleton.mp hc ▸ le_rfl
  · rw [hcalls]
    intro c hc
    rcases List.mem_append.mp hc with hc | hc
    · exact h.offered c hc
    · exact List.mem_singleton.mp hc ▸ hoffered

theorem Ordered.step (h : Ordered r) (hi : Intact r) (hobj : Follows r.packets obj)
    {t : DecoderState} {it : Iteration} (hr : Received r.state obj (t, it)) :
    Ordered ⟨t, r.trace ++ [it]⟩ := by
  cases hr with
  | gated _ ht => exact h.skip rfl ht
  | sessionFailed _ ht => exact h.skip rfl ht
  | noDecoder _ hgot hnone =>
    obtain ⟨_, _, _, _, _, _, _, hdec⟩ := hi.ready hgot
    simp [hnone] at hdec
  | failed hadm ht => exact h.call hobj hadm (by simp) (by simp [ht])
  | decoded hadm hoffered _ hlast _ => exact h.call hobj hadm hoffered fun _ => hlast

end

theorem Ordered.receive {r : DecoderRun} (h : Ordered r) (hi : Intact r) {obj : MediaObject}
    (hobj : Follows r.packets obj) (o : Outcomes) : Ordered (r.receive obj o) :=
  h.step hi hobj (received_receive r.state obj o)

theorem Ordered.offered_increasing {r : DecoderRun} (h : Ordered r) :
    (r.offered.map RgbFrame.groupId).Pairwise (· < ·) := by
  have hcalls := List.pairwise_map.mp h.increasing
  rw [List.pairwise_map, DecoderRun.offered, List.pairwise_filterMap]
  apply hcalls.imp_of_mem
  intro c d hc hd hlt frame hframe frame' hframe'
  rw [h.offered c hc frame hframe, h.offered d hd frame' hframe']
  exact hlt

end Meshconf.Video
