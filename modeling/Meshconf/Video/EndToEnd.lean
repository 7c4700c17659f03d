import Mathlib.Data.List.Chain
import Meshconf.Video.Sender

/-! # Reference integrity from encoder to decoder

A number is given only to packets that came through the channel, so the receiver's
gap detection sees what is lost after the channel and nothing that is lost before it.
If a non-keyframe enters the channel only right behind the frame before it, the
decoder gets every non-keyframe right behind the frame it refers to.
-/

namespace Meshconf.Video

open Bytes Protocol Transition

namespace Pipeline

/-- The call decodes the frame at position `k` among the frames produced. -/
def Carries (p : Pipeline) (call : DecodeCall) (k : ℕ) : Prop :=
  p.frameIndex call.object.groupId = some k ∧ ∃ pkt, p.produced[k]? = some pkt ∧
    call.object.payload = pkt.data ∧ call.object.isKeyframe = pkt.isKeyframe

/-- The frame before a decoded non-keyframe was decoded on the same session. -/
def ReferenceDecoded (p : Pipeline) (before : List DecodeCall) (call : DecodeCall) : Prop :=
  call.object.isKeyframe = false → ∃ k, p.Carries call (k + 1) ∧
    ∃ prev ∈ before, p.Carries prev k ∧ prev.session = call.session ∧ prev.failed = false

/-- Steps that let no non-keyframe into the channel after a frame that was dropped. -/
def ReferenceAccepted (p : Pipeline) : Action → Prop
  | .encode pkt => pkt.isKeyframe ∨ p.hasRoom = false ∨ p.previousAccepted
  | _ => True

instance (p : Pipeline) (a : Action) : Decidable (p.ReferenceAccepted a) :=
  match a with
  | .encode pkt => inferInstanceAs
      (Decidable (pkt.isKeyframe = true ∨ p.hasRoom = false ∨ p.previousAccepted = true))
  | .take => .isTrue trivial
  | .setOthers _ => .isTrue trivial
  | .register => .isTrue trivial
  | .remove => .isTrue trivial
  | .accept _ _ _ => .isTrue trivial
  | .receive _ => .isTrue trivial

/-- The packets that came through the channel, from the one taken last on. -/
def accepted (p : Pipeline) : List (ℕ × EncodedPacket) := p.lastTaken.toList ++ p.channel

/-- Non-keyframe `b` comes right behind `a` in the order of production. -/
def Behind (a b : ℕ × EncodedPacket) : Prop := b.2.isKeyframe = false → b.1 = a.1 + 1

/-- The frame with which packet `k` was sent. -/
def SentAs (p : Pipeline) (f : SentFrame) (k : ℕ) : Prop :=
  p.frameIndex f.groupId = some k ∧ ∃ pkt, p.produced[k]? = some pkt ∧
    f.mediaObject.payload = pkt.data ∧ f.mediaObject.isKeyframe = pkt.isKeyframe

/-- The numbers of the frames sent follow the order of production. -/
structure Numbering (p : Pipeline) : Prop where
  sent : ∀ f ∈ p.link.sent, ∃ k, p.SentAs f k
  adjacent : ∀ f ∈ p.link.sent, ∀ f' ∈ p.link.sent, f'.groupId = f.groupId + 1 →
    f'.mediaObject.isKeyframe = false → ∀ j k, p.frameIndex f.groupId = some j →
      p.frameIndex f'.groupId = some k → k = j + 1

/-- The invariant of the runs in which references are accepted. -/
structure Inv (p : Pipeline) : Prop where
  link : p.link.Wf
  seq : p.frameSeq = p.numbered.length
  origin : ∀ a ∈ p.accepted, p.produced[a.1]? = some a.2
  behind : p.accepted.IsChain Behind
  newest : p.previousAccepted → p.produced ≠ [] →
    p.accepted.getLast?.map Prod.fst = some (p.produced.length - 1)
  numbering : p.Numbering
  recent : p.membership = .registered → p.link.sent ≠ [] →
    p.numbered.getLast? = p.lastTaken.map Prod.fst
  absent : p.membership = .absent → p.link.sent = []

theorem Inv.init : Inv {} where
  link := .init
  seq := rfl
  origin := by simp [accepted]
  behind := .nil
  newest := by simp
  numbering := ⟨by simp, by simp⟩
  recent := by simp
  absent := by simp

section

variable {p q : Pipeline}

theorem getElem?_of_prefix {α : Type*} {l l' : List α} {i : ℕ} {a : α} (h : l[i]? = some a)
    (hl : l <+: l') : l'[i]? = some a := by
  obtain ⟨hi, rfl⟩ := List.getElem?_eq_some_iff.mp h
  exact List.prefix_iff_getElem?.mp hl i hi

theorem frameIndex_mono {g k : ℕ} (h : p.frameIndex g = some k)
    (hn : p.numbered <+: q.numbered) : q.frameIndex g = some k := by
  cases g with
  | zero => cases h
  | succ g => exact getElem?_of_prefix h hn

theorem le_of_frameIndex {g k : ℕ} (h : p.frameIndex g = some k) : g ≤ p.numbered.length := by
  cases g with
  | zero => exact Nat.zero_le _
  | succ g => exact (List.getElem?_eq_some_iff.mp h).1

theorem frameIndex_length (h : p.numbered ≠ []) :
    p.frameIndex p.numbered.length = p.numbered.getLast? := by
  obtain ⟨l, k, hl⟩ := List.eq_nil_or_concat' p.numbered |>.resolve_left h
  rw [hl, List.getLast?_concat, List.length_append, List.length_singleton]
  simp only [frameIndex, hl, List.getElem?_concat_length]

theorem SentAs.mono {f : SentFrame} {k : ℕ} (h : p.SentAs f k)
    (hp : p.produced <+: q.produced) (hn : p.numbered <+: q.numbered) : q.SentAs f k := by
  obtain ⟨hk, pkt, hpkt, hf⟩ := h
  exact ⟨frameIndex_mono hk hn, pkt, getElem?_of_prefix hpkt hp, hf⟩

theorem Numbering.frameIndex_eq (h : p.Numbering) {f : SentFrame} (hf : f ∈ p.link.sent)
    (hn : p.numbered <+: q.numbered) {k : ℕ} (hk : q.frameIndex f.groupId = some k) :
    p.frameIndex f.groupId = some k := by
  obtain ⟨k', hk', -⟩ := h.sent f hf
  exact hk'.trans ((frameIndex_mono hk' hn).symm.trans hk)

/-- New frames and numbers do not change the numbers of the frames already sent. -/
theorem Numbering.mono (h : p.Numbering) (hs : q.link.sent = p.link.sent)
    (hp : p.produced <+: q.produced) (hn : p.numbered <+: q.numbered) : q.Numbering where
  sent f hf := by
    obtain ⟨k, hk⟩ := h.sent f (hs ▸ hf)
    exact ⟨k, hk.mono hp hn⟩
  adjacent f hf f' hf' hg hdelta j k hj hk := by
    rw [hs] at hf hf'
    have hj' := h.frameIndex_eq hf hn hj
    have hk' := h.frameIndex_eq hf' hn hk
    exact h.adjacent f hf f' hf' hg hdelta j k hj' hk'

/-! ## The encode loop -/

theorem Inv.encode (h : p.Inv) {pkt : EncodedPacket} (hc : p.ReferenceAccepted (.encode pkt)) :
    (p.encode pkt).Inv := by
  have hproduced : p.produced <+: (p.encode pkt).produced := List.prefix_append _ _
  have hnum : (p.encode pkt).Numbering := h.numbering.mono rfl hproduced List.prefix_rfl
  have hold : ∀ a ∈ p.accepted, (p.encode pkt).produced[a.1]? = some a.2 := fun a ha =>
    getElem?_of_prefix (h.origin a ha) hproduced
  cases hroom : p.hasRoom with
  | false =>
    have hacc : (p.encode pkt).accepted = p.accepted := by simp [accepted, Pipeline.encode, hroom]
    refine ⟨h.link, h.seq, hacc ▸ hold, hacc ▸ h.behind, ?_, hnum, h.recent, h.absent⟩
    simp [Pipeline.encode, hroom]
  | true =>
    have hacc : (p.encode pkt).accepted = p.accepted ++ [(p.produced.length, pkt)] := by
      simp [accepted, Pipeline.encode, hroom]
    refine ⟨h.link, h.seq, ?_, ?_, ?_, hnum, h.recent, h.absent⟩
    · rw [hacc]
      intro a ha
      rcases List.mem_append.mp ha with ha | ha
      · exact hold a ha
      · obtain rfl := List.mem_singleton.mp ha
        exact List.getElem?_concat_length
    · rw [hacc, List.isChain_append]
      refine ⟨h.behind, List.isChain_singleton _, ?_⟩
      intro a ha b hb hdelta
      obtain rfl : (p.produced.length, pkt) = b := by simpa using hb
      -- The frame before `pkt` was accepted, so it is the last of those accepted.
      have hprev : p.previousAccepted = true := by
        rcases hc with hkey | hfull | hprev
        · exact absurd (hkey.symm.trans hdelta) (by simp)
        · exact absurd (hroom.symm.trans hfull) (by simp)
        · exact hprev
      have hlt := (List.getElem?_eq_some_iff.mp (h.origin a (List.mem_of_getLast? ha))).1
      have hlast := h.newest hprev (List.ne_nil_of_length_pos (by omega))
      rw [Option.mem_def.mp ha] at hlast
      have : a.1 = p.produced.length - 1 := by simpa using hlast
      show p.produced.length = a.1 + 1
      omega
    · rw [hacc]
      simp [Pipeline.encode]

/-! ## The send loop -/

/-- The head of the channel becomes the packet taken last. -/
theorem Inv.taken (h : p.Inv) {a : ℕ × EncodedPacket} {rest : List (ℕ × EncodedPacket)}
    (hch : p.channel = a :: rest) :
    a ∈ p.accepted ∧ (∀ b ∈ a :: rest, p.produced[b.1]? = some b.2) ∧
      (a :: rest).IsChain Behind ∧
      (p.previousAccepted → p.produced ≠ [] →
        (a :: rest).getLast?.map Prod.fst = some (p.produced.length - 1)) ∧
      ∀ b, p.lastTaken = some b → Behind b a := by
  have hacc : p.accepted = p.lastTaken.toList ++ a :: rest := by rw [accepted, hch]
  have hbehind := h.behind
  have hnewest := h.newest
  rw [hacc, List.isChain_append] at hbehind
  rw [hacc, List.getLast?_append_of_ne_nil _ (by simp)] at hnewest
  refine ⟨by simp [hacc], fun b hb => h.origin b ?_, hbehind.2.1, hnewest, fun b hb => ?_⟩
  · rw [hacc]
    exact List.mem_append_right _ hb
  · exact hbehind.2.2 b (by simp [hb]) a (by simp)

theorem Inv.group_le (h : p.Inv) {f : SentFrame} (hf : f ∈ p.link.sent) :
    f.groupId ≤ p.frameSeq := by
  obtain ⟨k, hk, -⟩ := h.numbering.sent f hf
  exact h.seq ▸ le_of_frameIndex hk

theorem isKeyframe_sendVideoFrame (g : ℕ) (hg : g < 2 ^ 62) (pkt : EncodedPacket) :
    (sendVideoFrame g hg pkt).mediaObject.isKeyframe = pkt.isKeyframe := by
  cases hk : pkt.isKeyframe <;>
    simp [sendVideoFrame, SentFrame.mediaObject, mediaObject, MediaObject.isKeyframe, hk]

/-- The last frame sent is for the packet taken last, and the next packet is right behind it. -/
theorem Inv.follows (h : p.Inv) {a : ℕ × EncodedPacket} {rest : List (ℕ × EncodedPacket)}
    (hch : p.channel = a :: rest) (hreg : p.membership = .registered) {f : SentFrame}
    (hf : f ∈ p.link.sent) (hgroup : f.groupId = p.frameSeq) (hdelta : a.2.isKeyframe = false)
    {j : ℕ} (hj : p.frameIndex f.groupId = some j) : a.1 = j + 1 := by
  obtain ⟨-, -, -, -, hlast⟩ := h.taken hch
  have hnumbered : p.numbered ≠ [] := by
    intro hnil
    simp [hgroup, h.seq, hnil, frameIndex] at hj
  rw [hgroup, h.seq, frameIndex_length hnumbered, h.recent hreg (List.ne_nil_of_mem hf)] at hj
  obtain ⟨b, hb, rfl⟩ := Option.map_eq_some_iff.mp hj
  exact hlast b hb hdelta

/-- The packet that is numbered next follows the frame with the number before it. -/
theorem Inv.send (h : p.Inv) {a : ℕ × EncodedPacket} {rest : List (ℕ × EncodedPacket)}
    (hch : p.channel = a :: rest) (hreg : p.membership = .registered) {f : SentFrame}
    (hf : f.groupId = p.frameSeq + 1) (hpayload : f.mediaObject.payload = a.2.data)
    (hkey : f.mediaObject.isKeyframe = a.2.isKeyframe) (hs : q.link.sent = p.link.sent ++ [f])
    (hp : q.produced = p.produced) (hn : q.numbered = p.numbered ++ [a.1]) : q.Numbering := by
  obtain ⟨hmem, -, -, -, -⟩ := h.taken hch
  have hold : p.produced <+: q.produced := hp ▸ List.prefix_rfl
  have hprefix : p.numbered <+: q.numbered := hn ▸ List.prefix_append _ _
  have hindex : q.frameIndex f.groupId = some a.1 := by
    simp only [hf, frameIndex, hn, h.seq, List.getElem?_concat_length]
  constructor
  · rw [hs]
    intro f' hf'
    rcases List.mem_append.mp hf' with hf' | hf'
    · obtain ⟨k, hk⟩ := h.numbering.sent f' hf'
      exact ⟨k, hk.mono hold hprefix⟩
    · obtain rfl := List.mem_singleton.mp hf'
      exact ⟨a.1, hindex, a.2, hp ▸ h.origin a hmem, hpayload, hkey⟩
  · rw [hs]
    intro f₁ hf₁ f₂ hf₂ hg hdelta j k hj hk
    rcases List.mem_append.mp hf₁ with hold₁ | hnew₁
    · have hj' := h.numbering.frameIndex_eq hold₁ hprefix hj
      rcases List.mem_append.mp hf₂ with hold₂ | hnew₂
      · have hk' := h.numbering.frameIndex_eq hold₂ hprefix hk
        exact h.numbering.adjacent f₁ hold₁ f₂ hold₂ hg hdelta j k hj' hk'
      · obtain rfl := List.mem_singleton.mp hnew₂
        obtain rfl : k = a.1 := Option.some.inj (hk.symm.trans hindex)
        exact h.follows hch hreg hold₁ (by omega) (hkey ▸ hdelta) hj'
    · -- Nothing that was sent has a number behind the new one.
      obtain rfl := List.mem_singleton.mp hnew₁
      rcases List.mem_append.mp hf₂ with hold₂ | hnew₂
      · have hle := h.group_le hold₂
        omega
      · obtain rfl := List.mem_singleton.mp hnew₂
        omega

theorem Inv.take (h : p.Inv) (ht : p.take = some q) : q.Inv := by
  cases hch : p.channel with
  | nil => simp [Pipeline.take, hch] at ht
  | cons a rest =>
    obtain ⟨hmem, horigin, hbehind, hnewest, hlast⟩ := h.taken hch
    simp only [Pipeline.take, hch] at ht
    split_ifs at ht with hcount hg
    · obtain rfl := Option.some.inj ht
      have hreg : p.membership ≠ .registered := fun hreg => by simp [peerCount, hreg] at hcount
      exact ⟨h.link, h.seq, horigin, hbehind, hnewest,
        h.numbering.mono rfl List.prefix_rfl List.prefix_rfl,
        fun hreg' => absurd hreg' hreg, h.absent⟩
    · obtain rfl := Option.some.inj ht
      have hseq : p.frameSeq + 1 = (p.numbered ++ [a.1]).length := by simp [h.seq]
      by_cases hreg : p.membership = .registered
      · have hlt : ∀ f' ∈ p.link.sent, f'.groupId < p.frameSeq + 1 := fun f' hf' =>
          Nat.lt_succ_of_le (h.group_le hf')
        simp only [broadcast, hreg, if_true]
        refine ⟨h.link.send hlt, hseq, horigin, hbehind, hnewest, ?_, fun _ _ => by simp,
          fun hab => by simp at hab⟩
        exact h.send hch hreg rfl rfl (isKeyframe_sendVideoFrame _ hg a.2) rfl rfl rfl
      · simp only [broadcast, hreg, if_false]
        exact ⟨h.link, hseq, horigin, hbehind, hnewest,
          h.numbering.mono rfl List.prefix_rfl (List.prefix_append _ _),
          fun hreg' => absurd hreg' hreg, h.absent⟩

/-! ## Runs -/

theorem sent_accept {l l' : Link} {i n : ℕ} {ending : Ending}
    (h : l.step (.accept i n ending) = some l') : l'.sent = l.sent := by
  obtain ⟨f, hf, h⟩ := Option.bind_eq_some_iff.mp h
  obtain rfl := Option.some.inj h
  rfl

theorem sent_receive {l l' : Link} {a : Receiver.Action} (h : l.step (.receive a) = some l') :
    l'.sent = l.sent := by
  obtain ⟨r, hr, h⟩ := Option.bind_eq_some_iff.mp h
  obtain rfl := Option.some.inj h
  rfl

/-- Steps of the network and the receiver. -/
theorem Inv.network (h : p.Inv) {l : Link} (hl : l.Wf) (hs : l.sent = p.link.sent) :
    Inv { p with link := l } where
  link := hl
  seq := h.seq
  origin := h.origin
  behind := h.behind
  newest := h.newest
  numbering := h.numbering.mono hs List.prefix_rfl List.prefix_rfl
  recent := by simpa only [hs] using h.recent
  absent := by simpa only [hs] using h.absent

theorem Inv.step {a : Action} (h : p.Inv) (hc : p.ReferenceAccepted a)
    (hs : p.step a = some q) : q.Inv := by
  cases a with
  | encode pkt =>
    obtain rfl := Option.some.inj hs
    exact h.encode hc
  | take => exact h.take hs
  | setOthers n =>
    obtain rfl := Option.some.inj hs
    exact ⟨h.link, h.seq, h.origin, h.behind, h.newest,
      h.numbering.mono rfl List.prefix_rfl List.prefix_rfl, h.recent, h.absent⟩
  | register =>
    simp only [Pipeline.step] at hs
    split_ifs at hs with hm
    obtain rfl := Option.some.inj hs
    exact ⟨h.link, h.seq, h.origin, h.behind, h.newest,
      h.numbering.mono rfl List.prefix_rfl List.prefix_rfl,
      fun _ hne => absurd (h.absent hm) hne, fun hab => by simp at hab⟩
  | remove =>
    simp only [Pipeline.step] at hs
    split_ifs at hs
    obtain rfl := Option.some.inj hs
    exact ⟨h.link, h.seq, h.origin, h.behind, h.newest,
      h.numbering.mono rfl List.prefix_rfl List.prefix_rfl,
      fun hreg => by simp at hreg, fun hab => by simp at hab⟩
  | accept i n ending =>
    obtain ⟨l, hl, hs⟩ := Option.bind_eq_some_iff.mp hs
    obtain rfl := Option.some.inj hs
    exact h.network (h.link.step hl) (sent_accept hl)
  | receive a =>
    obtain ⟨l, hl, hs⟩ := Option.bind_eq_some_iff.mp hs
    obtain rfl := Option.some.inj hs
    exact h.network (h.link.step hl) (sent_receive hl)

theorem Inv.of_run {as : List Action} (h : Run Pipeline.step ReferenceAccepted {} as p) : p.Inv :=
  h.invariant (P := Inv) (fun _ _ _ ht hc hs => ht.step hc hs) .init

/-- Every object that the decoder was called on is a frame that was sent. -/
theorem Inv.sent_of_call (h : p.Inv) {call : DecodeCall}
    (hcall : call ∈ p.link.receiver.decoder.calls) :
    ∃ f ∈ p.link.sent, call.object = f.mediaObject := by
  obtain ⟨it, hit, hcall⟩ := List.mem_filterMap.mp hcall
  have hobj : call.object ∈ p.link.receiver.decoder.packets := by
    cases it with
    | decoded call' =>
      obtain rfl : call' = call := by simpa using hcall
      exact List.mem_map.mpr ⟨_, hit, rfl⟩
    | _ => cases hcall
  exact h.link.enqueued call.object (h.link.fifo ▸ List.mem_append_left _ hobj)

theorem Inv.carries (h : p.Inv) {call : DecodeCall}
    (hcall : call ∈ p.link.receiver.decoder.calls) :
    ∃ f ∈ p.link.sent, call.object = f.mediaObject ∧ ∃ k, p.SentAs f k ∧ p.Carries call k := by
  obtain ⟨f, hf, hobj⟩ := h.sent_of_call hcall
  obtain ⟨k, hk⟩ := h.numbering.sent f hf
  exact ⟨f, hf, hobj, k, hk, by rw [Carries, hobj]; exact hk⟩

/--
In every run that lets non-keyframes into the channel only behind their reference, the decoder gets
every non-keyframe after the frame before it, on the same session and decoded without error.
-/
theorem references_decoded {as : List Action} (h : Run Pipeline.step ReferenceAccepted {} as p) :
    History.Each p.ReferenceDecoded p.link.receiver.decoder.calls := by
  have hinv := Inv.of_run h
  intro before call after hcalls hdelta
  have hmem : ∀ c ∈ before ++ [call], c ∈ p.link.receiver.decoder.calls := by
    intro c hc
    rw [hcalls]
    exact (List.append_cons before call after) ▸ List.mem_append_left _ hc
  obtain ⟨⟨earlier, prev, rfl, hsession, hgroup, hok⟩, -⟩ :=
    (hinv.link.intact.calls before call after hcalls).followsChain hdelta
  obtain ⟨f, hf, hobj, k, ⟨hk, -⟩, hcarries⟩ := hinv.carries (hmem call (by simp))
  obtain ⟨f', hf', hobj', j, ⟨hj, -⟩, hcarries'⟩ := hinv.carries (hmem prev (by simp))
  have hsucc : f.groupId = f'.groupId + 1 := by
    rw [hobj, hobj'] at hgroup
    exact hgroup.symm
  obtain rfl := hinv.numbering.adjacent f' hf' f hf hsucc (hobj ▸ hdelta) j k hj hk
  exact ⟨j, hcarries, prev, by simp, hcarries', hsession, hok⟩

end

def keyPacket : EncodedPacket :=
  ⟨[0, 0, 0, 1, 64, 1, 0, 0, 0, 1, 38, 1], 9, true, by decide, by decide⟩

def deltaPacket : EncodedPacket := ⟨[0, 0, 0, 1, 2, 1], 9, false, by decide, by decide⟩

/-- The stream at position `i` arrives whole, is read and decoded. -/
def deliver (i : ℕ) : List Action :=
  .accept i 100 .finished :: List.replicate 6 (.receive (.task 0)) ++ [.receive (.decode {})]

/-- The groups of the decode calls, with the keyframe flags. -/
def decodedGroups (p : Pipeline) : List (ℕ × Bool) :=
  p.link.receiver.decoder.calls.map fun call => (call.object.groupId, call.object.isKeyframe)

def keyThenDelta : List Action :=
  [.register, .encode keyPacket, .take, .encode deltaPacket, .take] ++ deliver 0 ++ deliver 0

theorem references_decoded_keyThenDelta :
    ∃ p, Run Pipeline.step ReferenceAccepted {} keyThenDelta p ∧
      p.decodedGroups = [(1, true), (2, false)] ∧
      History.Each p.ReferenceDecoded p.link.receiver.decoder.calls := by
  obtain ⟨p, hp, hd⟩ := Option.map_eq_some_iff.mp
    (by decide : (exec (guarded Pipeline.step ReferenceAccepted) {} keyThenDelta).map
      decodedGroups = some [(1, true), (2, false)])
  exact ⟨p, run_of_guarded hp, hd, references_decoded (run_of_guarded hp)⟩

/-- The fifth frame finds the channel full, the sixth one gets the number after the fourth. -/
def droppedReference : List Action :=
  [.register, .encode deltaPacket, .encode deltaPacket, .encode deltaPacket, .encode keyPacket,
    .encode deltaPacket, .take, .take, .take, .take, .encode deltaPacket, .take] ++
    deliver 3 ++ deliver 3

theorem not_references_decoded :
    ¬ ∀ (as : List Action) (p : Pipeline), Run Pipeline.step Free {} as p →
      History.Each p.ReferenceDecoded p.link.receiver.decoder.calls := by
  intro h
  obtain ⟨p, hp, hd⟩ := Option.map_eq_some_iff.mp
    (by decide : (exec Pipeline.step {} droppedReference).map
      (fun p => (p.numbered, p.decodedGroups)) =
        some ([0, 1, 2, 3, 5], [(4, true), (5, false)]))
  obtain ⟨hnum, hgroups⟩ := Prod.mk.inj hd
  obtain ⟨c, cs, hcalls, hc, hcs⟩ := List.map_eq_cons_iff.mp hgroups
  obtain ⟨d, ds, rfl, hdd, hds⟩ := List.map_eq_cons_iff.mp hcs
  obtain rfl := List.map_eq_nil_iff.mp hds
  obtain ⟨hdg, hdk⟩ := Prod.mk.inj hdd
  obtain ⟨hcg, -⟩ := Prod.mk.inj hc
  obtain ⟨k, ⟨hk, -⟩, prev, hprev, ⟨hj, -⟩, -⟩ :=
    h droppedReference p (run_of_exec hp) [c] d [] hcalls hdk
  obtain rfl := List.mem_singleton.mp hprev
  simp only [hdg, hcg, frameIndex, hnum] at hk hj
  have hk : 5 = k + 1 := Option.some.inj hk
  have hj : 3 = k := Option.some.inj hj
  omega

end Pipeline

end Meshconf.Video
