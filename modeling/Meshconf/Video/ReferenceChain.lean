import Meshconf.Transition.Run
import Meshconf.Video.Decoder

/-! # The reference chain of the decoder

A non-keyframe is decoded only on top of the frame before it: the calls since the
last keyframe form a contiguous run of groups on one session. The last call of this
run is recorded in the loop's state as long as the keyframe flag is set.
-/

namespace Meshconf.Video

open Protocol

@[simp] def Iteration.call? : Iteration → Option DecodeCall
  | .decoded call => some call
  | _ => none

/-- The loop's state with the rounds so far. -/
structure DecoderRun where
  state : DecoderState := {}
  trace : List Iteration := []
  deriving DecidableEq

namespace DecoderRun

def receive (r : DecoderRun) (obj : MediaObject) (o : Outcomes) : DecoderRun where
  state := (r.state.receive obj o).1
  trace := r.trace ++ [(r.state.receive obj o).2]

/-- The calls of the decoder, in order. -/
def calls (r : DecoderRun) : List DecodeCall := r.trace.filterMap Iteration.call?

end DecoderRun

/-- The loop over the packets that arrive, each with the answers of the platform in its round. -/
def runVideoDecoder (packets : List (MediaObject × Outcomes)) : DecoderRun :=
  packets.foldl (fun r packet => r.receive packet.1 packet.2) {}

/-- A keyframe and a run of successors, decoded on one session without a failure. -/
structure Chain (session : ℕ) (key : DecodeCall) (run : List DecodeCall) : Prop where
  isKeyframe : key.object.isKeyframe
  deltas : ∀ call ∈ run, call.object.isKeyframe = false
  groups : run.map (·.object.groupId) = List.range' (key.object.groupId + 1) run.length
  intact : ∀ call ∈ key :: run, call.session = session ∧ call.failed = false

theorem Chain.single {key : DecodeCall} (hkey : key.object.isKeyframe)
    (hok : key.failed = false) : Chain key.session key [] where
  isKeyframe := hkey
  deltas := by simp
  groups := rfl
  intact := by simp [hok]

theorem Chain.snoc {session : ℕ} {key call : DecodeCall} {run : List DecodeCall}
    (h : Chain session key run) (hdelta : call.object.isKeyframe = false)
    (hgroup : call.object.groupId = key.object.groupId + run.length + 1)
    (hsession : call.session = session) (hok : call.failed = false) :
    Chain session key (run ++ [call]) where
  isKeyframe := h.isKeyframe
  deltas := by
    intro c hc
    rcases List.mem_append.mp hc with hc | hc
    · exact h.deltas c hc
    · exact List.mem_singleton.mp hc ▸ hdelta
  groups := by
    rw [List.map_append, h.groups, List.length_append, List.length_singleton, List.range'_concat]
    simp only [List.map_cons, List.map_nil, hgroup]
    congr 2
    omega
  intact := by
    rintro c (_ | ⟨_, hc⟩)
    · exact h.intact key (by simp)
    · rcases List.mem_append.mp hc with hc | hc
      · exact h.intact c (by simp [hc])
      · exact List.mem_singleton.mp hc ▸ ⟨hsession, hok⟩

/-- The last call of a chain has the group at its end. -/
theorem Chain.last {session : ℕ} {key : DecodeCall} {run : List DecodeCall}
    (h : Chain session key run) : ∃ init prev, key :: run = init ++ [prev] ∧
      prev.session = session ∧ prev.failed = false ∧
      prev.object.groupId = key.object.groupId + run.length := by
  rcases List.eq_nil_or_concat' run with rfl | ⟨init, prev, rfl⟩
  · obtain ⟨hs, hf⟩ := h.intact key (by simp)
    exact ⟨[], key, rfl, hs, hf, by simp⟩
  · obtain ⟨hs, hf⟩ := h.intact prev (by simp)
    refine ⟨key :: init, prev, by simp, hs, hf, ?_⟩
    have hg := h.groups
    rw [List.length_append, List.length_singleton, List.range'_concat, List.map_append] at hg
    have hlast := (List.append_inj' hg rfl).2
    simp only [List.map_cons, List.map_nil, List.cons.injEq, and_true] at hlast
    simp only [List.length_append, List.length_singleton]
    omega

/-- The calls since the last keyframe, as a non-keyframe call finds them. -/
def Continues (before : List DecodeCall) (call : DecodeCall) : Prop :=
  call.object.isKeyframe = false → ∃ earlier key run, before = earlier ++ key :: run ∧
    Chain call.session key run ∧ call.object.groupId = key.object.groupId + run.length + 1

/-- The invariant of the loop. -/
structure Intact (r : DecoderRun) : Prop where
  calls : History.Each Continues r.calls
  ready : r.state.gotKeyframe → ∃ earlier key run session, r.calls = earlier ++ key :: run ∧
    Chain session key run ∧ r.state.lastDecodedGroup = key.object.groupId + run.length ∧
    r.state.decoder.map HevcDecoder.session = some session
  decoder : ∀ obj, .noDecoder obj ∉ r.trace

theorem Intact.init : Intact {} where
  calls := History.each_nil
  ready := by simp
  decoder := by simp

theorem DecoderRun.calls_snoc (t : DecoderState) (trace : List Iteration) (it : Iteration) :
    DecoderRun.calls ⟨t, trace ++ [it]⟩ =
      DecoderRun.calls ⟨t, trace⟩ ++ it.call?.toList := by
  cases it <;> simp [calls]

/-- A non-keyframe that the state admits continues the chain of the calls so far. -/
theorem Intact.continues {r : DecoderRun} (h : Intact r) {call : DecodeCall}
    (hadm : Admits r.state call.object call.session) : Continues r.calls call := by
  intro hdelta
  rcases hadm with hkey | ⟨hgot, hsucc, hdec⟩
  · rw [hkey] at hdelta
    cases hdelta
  · obtain ⟨earlier, key, run, session, hcalls, hchain, hlast, hdec'⟩ := h.ready hgot
    obtain rfl : call.session = session := Option.some.inj (hdec.symm.trans hdec')
    exact ⟨earlier, key, run, hcalls, hchain, by rw [hsucc, hlast]⟩

/-- A call that succeeds starts a chain or extends the one at the end of the calls. -/
theorem Intact.extend {r : DecoderRun} (h : Intact r) (call : DecodeCall)
    (hadm : Admits r.state call.object call.session) (hok : call.failed = false) :
    ∃ earlier key run, r.calls ++ [call] = earlier ++ key :: run ∧ Chain call.session key run ∧
      call.object.groupId = key.object.groupId + run.length := by
  cases hkey : call.object.isKeyframe with
  | true => exact ⟨r.calls, call, [], rfl, .single hkey hok, rfl⟩
  | false =>
    obtain ⟨earlier, key, run, hcalls, hchain, hgroup⟩ := h.continues hadm hkey
    refine ⟨earlier, key, run ++ [call], by simp [hcalls], hchain.snoc hkey hgroup rfl hok, ?_⟩
    simpa [Nat.add_assoc] using hgroup

theorem Intact.step {r : DecoderRun} (h : Intact r) {obj : MediaObject} {t : DecoderState}
    {it : Iteration} (hr : Received r.state obj (t, it)) : Intact ⟨t, r.trace ++ [it]⟩ := by
  have hcalls : DecoderRun.calls ⟨t, r.trace⟩ = r.calls := rfl
  cases hr with
  | gated _ ht =>
    exact ⟨by simpa [DecoderRun.calls_snoc, hcalls] using h.calls,
      by simp [ht], by simpa using h.decoder⟩
  | sessionFailed _ ht =>
    exact ⟨by simpa [DecoderRun.calls_snoc, hcalls] using h.calls,
      by simp [ht], by simpa using h.decoder⟩
  | noDecoder _ hgot hnone =>
    obtain ⟨_, _, _, _, _, _, _, hdec⟩ := h.ready hgot
    simp [hnone] at hdec
  | failed hadm ht =>
    refine ⟨?_, by simp [ht], by simpa using h.decoder⟩
    simpa [DecoderRun.calls_snoc, hcalls] using ⟨h.calls, h.continues hadm⟩
  | decoded hadm _ ht hlast hdec =>
    refine ⟨?_, fun _ => ?_, by simpa using h.decoder⟩
    · simpa [DecoderRun.calls_snoc, hcalls] using ⟨h.calls, h.continues hadm⟩
    · obtain ⟨earlier, key, run, heq, hchain, hgroup⟩ := h.extend ⟨_, _, false, _⟩ hadm rfl
      exact ⟨earlier, key, run, _, by simpa [DecoderRun.calls_snoc, hcalls] using heq, hchain,
        hlast.trans hgroup, hdec⟩

theorem Intact.receive {r : DecoderRun} (h : Intact r) (obj : MediaObject) (o : Outcomes) :
    Intact (r.receive obj o) :=
  h.step (received_receive r.state obj o)

theorem intact_runVideoDecoder (packets : List (MediaObject × Outcomes)) :
    Intact (runVideoDecoder packets) := by
  have key : ∀ r, Intact r →
      Intact (packets.foldl (fun r packet => r.receive packet.1 packet.2) r) := by
    induction packets with
    | nil => exact fun r h => h
    | cons packet packets ih => exact fun r h => ih _ (h.receive packet.1 packet.2)
  exact key {} .init

/-- What a decode call for a non-keyframe finds before it. -/
def FollowsChain (before : List DecodeCall) (call : DecodeCall) : Prop :=
  call.object.isKeyframe = false →
    (∃ earlier prev, before = earlier ++ [prev] ∧ prev.session = call.session ∧
      prev.object.groupId + 1 = call.object.groupId ∧ prev.failed = false) ∧
    ∃ earlier key run, before = earlier ++ key :: run ∧ key.object.isKeyframe ∧
      (∀ c ∈ run, c.object.isKeyframe = false) ∧
      (∀ c ∈ key :: run, c.session = call.session ∧ c.failed = false) ∧
      (run ++ [call]).map (·.object.groupId) =
        List.range' (key.object.groupId + 1) (run.length + 1)

theorem Continues.followsChain {before : List DecodeCall} {call : DecodeCall}
    (h : Continues before call) : FollowsChain before call := by
  intro hdelta
  obtain ⟨earlier, key, run, rfl, hchain, hgroup⟩ := h hdelta
  constructor
  · obtain ⟨init, prev, heq, hs, hf, hg⟩ := hchain.last
    exact ⟨earlier ++ init, prev, by simp [heq], hs, by omega, hf⟩
  · refine ⟨earlier, key, run, rfl, hchain.isKeyframe, hchain.deltas, hchain.intact, ?_⟩
    rw [List.map_append, hchain.groups, List.range'_concat]
    simp only [List.map_cons, List.map_nil, hgroup]
    congr 2
    omega

/--
Whatever arrives, every non-keyframe is decoded right after the frame before it and on its
session, and the loop never finds itself without a decoder behind the keyframe gate.
-/
theorem runVideoDecoder_gapless (packets : List (MediaObject × Outcomes)) :
    History.Each FollowsChain (runVideoDecoder packets).calls ∧
      ((runVideoDecoder packets).state.gotKeyframe →
        (runVideoDecoder packets).state.decoder.isSome) ∧
      ∀ obj, .noDecoder obj ∉ (runVideoDecoder packets).trace := by
  have h := intact_runVideoDecoder packets
  refine ⟨h.calls.mono fun _ _ hc => hc.followsChain, fun hgot => ?_, h.decoder⟩
  obtain ⟨_, _, _, _, _, _, _, hdec⟩ := h.ready hgot
  cases hd : (runVideoDecoder packets).state.decoder with
  | none => simp [hd] at hdec
  | some dec => rfl

end Meshconf.Video
