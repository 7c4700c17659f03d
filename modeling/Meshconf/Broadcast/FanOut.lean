import Mathlib.Data.List.Perm.Basic
import Meshconf.Broadcast.Tasks

/-! # What the peers are sent

Every numbered packet is sent once to each peer of the snapshot taken for it, under the
same number to all. Seen from one connection, the loop is the sender of a link, so that
what holds of links holds of every connection, and receivers agree on every number.
-/

namespace Meshconf.Broadcast

open Bytes Protocol Video Bandwidth Transition
open Meshconf.Mesh (Connection)

variable {Id : Type}

/-- What a receiver makes of the packet with number `g`. -/
def packetObject (g : ℕ) (pkt : EncodedPacket) : MediaObject where
  groupId := g
  subgroupId := if pkt.isKeyframe then 0 else 1
  objectId := 0
  captureTimestampUs := pkt.captureTimestampUs
  codec := some .hevc
  payload := pkt.data

theorem mediaObject_sendVideoFrame (g : ℕ) (hg : g < 2 ^ 62) (pkt : EncodedPacket) :
    (sendVideoFrame g hg pkt).mediaObject = packetObject g pkt := rfl

variable [DecidableEq Id]

/-- What is sent to a connection when packets from number `g` on go to their recipients. -/
def addressed (conn : Connection Id) (g : ℕ) :
    List (EncodedPacket × List (Connection Id)) → List MediaObject
  | [] => []
  | (pkt, conns) :: rest =>
    (if conn ∈ conns then [packetObject g pkt] else []) ++ addressed conn (g + 1) rest

section

variable {conn : Connection Id} {g : ℕ} {rounds : List (EncodedPacket × List (Connection Id))}

theorem addressed_append (conn : Connection Id) (g : ℕ)
    (l l' : List (EncodedPacket × List (Connection Id))) :
    addressed conn g (l ++ l') = addressed conn g l ++ addressed conn (g + l.length) l' := by
  induction l generalizing g with
  | nil => simp [addressed]
  | cons r l ih =>
    obtain ⟨pkt, conns⟩ := r
    rw [List.cons_append, addressed, addressed, ih, List.append_assoc, List.length_cons,
      Nat.add_right_comm, Nat.add_assoc]

/-- An object that a connection is sent stands for a packet whose recipient it is. -/
theorem mem_addressed {obj : MediaObject} : obj ∈ addressed conn g rounds ↔
    ∃ k pkt conns, rounds[k]? = some (pkt, conns) ∧ conn ∈ conns ∧
      obj = packetObject (g + k) pkt := by
  induction rounds generalizing g with
  | nil => simp [addressed]
  | cons r rest ih =>
    obtain ⟨pkt, conns⟩ := r
    rw [addressed, List.mem_append, ih]
    constructor
    · rintro (hobj | ⟨k, p, cs, hk, hconn, rfl⟩)
      · split_ifs at hobj with hconn
        · exact ⟨0, pkt, conns, rfl, hconn, List.mem_singleton.mp hobj⟩
        · cases hobj
      · exact ⟨k + 1, p, cs, hk, hconn, by rw [Nat.add_right_comm, Nat.add_assoc]⟩
    · rintro ⟨k, p, cs, hk, hconn, rfl⟩
      cases k with
      | zero =>
        obtain ⟨rfl, rfl⟩ := Prod.mk.inj (Option.some.inj hk)
        simp [hconn]
      | succ k => exact .inr ⟨k, p, cs, hk, hconn, by rw [Nat.add_right_comm, Nat.add_assoc]⟩

theorem addressed_pairwise (conn : Connection Id) (g : ℕ)
    (rounds : List (EncodedPacket × List (Connection Id))) :
    (addressed conn g rounds).Pairwise (·.groupId < ·.groupId) := by
  induction rounds generalizing g with
  | nil => exact .nil
  | cons r rest ih =>
    obtain ⟨pkt, conns⟩ := r
    rw [addressed, List.pairwise_append]
    refine ⟨by split_ifs <;> simp, ih (g + 1), ?_⟩
    intro a ha b hb
    obtain ⟨k, p, cs, -, -, rfl⟩ := mem_addressed.mp hb
    split_ifs at ha
    · obtain rfl := List.mem_singleton.mp ha
      simp only [packetObject]
      omega
    · cases ha

end

namespace SendLoop

variable {s s' : SendLoop Id}

/-- The packets numbered so far with their recipients, as far as these are known. -/
def rounds (s : SendLoop Id) : List (EncodedPacket × List (Connection Id)) :=
  s.numbered.zip s.recipients

/-- What the loop is still to send to a connection. -/
def owed (s : SendLoop Id) (conn : Connection Id) : List MediaObject :=
  match s.phase with
  | .spawning f rest _ => if conn ∈ rest.map Prod.snd then [f.mediaObject] else []
  | _ => []

/-- The frame of the phase is for the packet numbered last, which has no recipients before the
snapshot. -/
def PhaseOk (s : SendLoop Id) : Prop :=
  match s.phase with
  | .idle | .stopped => s.numbered.length = s.recipients.length
  | .numbered f => s.numbered.length = s.recipients.length + 1 ∧
      ∃ pkt, s.numbered.getLast? = some pkt ∧ f.mediaObject = packetObject s.numbered.length pkt
  | .spawning _ rest _ => s.numbered.length = s.recipients.length ∧ (rest.map Prod.snd).Nodup

/-- The invariant of what is sent. -/
structure Fanned (s : SendLoop Id) : Prop where
  seq : s.frameSeq = s.numbered.length
  keys : ∀ e ∈ s.broadcaster.peers, e.1 = e.2.remoteId
  phase : s.PhaseOk
  sent : ∀ conn, (s.links conn).sent.map SentFrame.mediaObject ++ s.owed conn =
    addressed conn 1 s.rounds
  link : ∀ conn, Reachable Link.step {} (s.links conn)

theorem Fanned.init (b : Bool) : (start b : SendLoop Id).Fanned where
  seq := rfl
  keys e he := by cases he
  phase := rfl
  sent _ := rfl
  link _ := ⟨[], .nil⟩

/-- No connection is registered under two keys. -/
theorem Fanned.conns_nodup (h : s.Fanned) {peers : List (Id × Connection Id)}
    (hperm : peers.Perm s.broadcaster.peers) : (peers.map Prod.snd).Nodup := by
  have hkeys : (s.broadcaster.peers.map Prod.snd).map Connection.remoteId =
      s.broadcaster.peers.map Prod.fst := by
    rw [List.map_map]
    exact List.map_congr_left fun e he => (h.keys e he).symm
  have hnodup : (s.broadcaster.peers.map Prod.snd).Nodup :=
    .of_map Connection.remoteId (hkeys ▸ s.broadcaster.keys_nodup)
  exact (hperm.map Prod.snd).nodup_iff.mpr hnodup

theorem zip_concat_left {α β : Type*} {l : List α} {l' : List β} (h : l.length = l'.length)
    (a : α) : (l ++ [a]).zip l' = l.zip l' := by
  have hzip : (l ++ [a]).zip (l' ++ []) = l.zip l' ++ [a].zip [] := List.zip_append h
  simpa using hzip

theorem Fanned.number (h : s.Fanned) (hidle : s.phase = .idle) (pkt : EncodedPacket)
    (hg : s.frameSeq + 1 < 2 ^ 62) : (s.number pkt hg).Fanned := by
  have hphase := h.phase
  rw [PhaseOk, hidle] at hphase
  have hlength : s.frameSeq + 1 = (s.numbered ++ [pkt]).length := by simp [h.seq]
  refine ⟨hlength, h.keys, ⟨?_, pkt, ?_, ?_⟩, fun conn => ?_, h.link⟩
  · simp [SendLoop.number, hphase]
  · simp [SendLoop.number]
  · rw [mediaObject_sendVideoFrame, hlength]
    rfl
  · have hrounds : (s.number pkt hg).rounds = s.rounds := zip_concat_left hphase pkt
    rw [hrounds, ← h.sent conn, owed, owed, hidle]
    rfl

theorem Fanned.abortAll (h : s.Fanned) : s.abortAll.Fanned :=
  ⟨h.seq, h.keys, h.phase, h.sent, h.link⟩

theorem Fanned.snapshot (h : s.Fanned) {frame : SentFrame} {peers : List (Id × Connection Id)}
    (hnumbered : s.phase = .numbered frame) (hperm : peers.Perm s.broadcaster.peers) :
    Fanned { s.retain with
      recipients := s.recipients ++ [peers.map Prod.snd]
      phase := .spawning frame peers peers } := by
  have hphase := h.phase
  rw [PhaseOk, hnumbered] at hphase
  obtain ⟨hlength, pkt, hlast, hframe⟩ := hphase
  obtain ⟨before, hbefore⟩ := List.getLast?_eq_some_iff.mp hlast
  refine ⟨h.seq, h.keys, ⟨by simpa [retain] using hlength, h.conns_nodup hperm⟩, fun conn => ?_,
    h.link⟩
  have hsame : before.length = s.recipients.length := by simpa [hbefore] using hlength
  have hold : s.rounds = before.zip s.recipients := by
    rw [rounds, hbefore, zip_concat_left hsame]
  have hnew : s.numbered.zip (s.recipients ++ [peers.map Prod.snd]) =
      s.rounds ++ [(pkt, peers.map Prod.snd)] := by
    rw [hold, hbefore, List.zip_append hsame, List.zip_cons_cons, List.zip_nil_right]
  have hcount : 1 + s.rounds.length = s.numbered.length := by
    rw [hold, hbefore, List.length_zip, ← hsame, Nat.min_self, List.length_append,
      List.length_singleton, Nat.add_comm]
  have hsent := h.sent conn
  simp only [owed, hnumbered, List.append_nil] at hsent
  show (s.links conn).sent.map SentFrame.mediaObject ++
    (if conn ∈ peers.map Prod.snd then [frame.mediaObject] else []) =
      addressed conn 1 (s.numbered.zip (s.recipients ++ [peers.map Prod.snd]))
  rw [hnew, addressed_append, hcount, hsent, hframe, addressed, addressed, List.append_nil]

/-- The frame is newer than all that the connection was sent, so that its link can send it. -/
theorem Fanned.spawn (h : s.Fanned) {frame : SentFrame} {id : Id} {conn : Connection Id}
    {rest peers : List (Id × Connection Id)}
    (hspawning : s.phase = .spawning frame ((id, conn) :: rest) peers) :
    (s.spawn frame id conn rest peers).Fanned := by
  have hphase := h.phase
  rw [PhaseOk, hspawning] at hphase
  obtain ⟨hlength, hrest⟩ := hphase
  rw [List.map_cons, List.nodup_cons] at hrest
  obtain ⟨hfresh, hnodup⟩ := hrest
  have howed : ∀ c, s.owed c =
      if c = conn ∨ c ∈ rest.map Prod.snd then [frame.mediaObject] else [] := by
    intro c
    simp only [owed, hspawning, List.map_cons, List.mem_cons]
  refine ⟨h.seq, h.keys, ⟨hlength, hnodup⟩, fun c => ?_, fun c => ?_⟩
  · show ((Function.update s.links conn _) c).sent.map SentFrame.mediaObject ++
      (if c ∈ rest.map Prod.snd then [frame.mediaObject] else []) = addressed c 1 s.rounds
    rw [← h.sent c, howed]
    rcases eq_or_ne c conn with rfl | hne
    · simp [hfresh]
    · simp only [Function.update_of_ne hne, hne, false_or]
  · show Reachable Link.step {} ((Function.update s.links conn _) c)
    rcases eq_or_ne c conn with rfl | hne
    · rw [Function.update_self]
      refine (h.link c).trans (.single (a := .send frame) ?_)
      have hsent := h.sent c
      rw [howed, if_pos (.inl rfl)] at hsent
      have hpairwise := addressed_pairwise c 1 s.rounds
      rw [← hsent, List.pairwise_append] at hpairwise
      have hlt : ∀ f' ∈ (s.links c).sent, f'.groupId < frame.groupId := fun f' hf' =>
        hpairwise.2.2 f'.mediaObject (List.mem_map_of_mem hf') _ (List.mem_singleton_self _)
      simp only [Link.step, if_pos hlt]
    · rw [Function.update_of_ne hne]
      exact h.link c

theorem Fanned.moved (h : s.Fanned) (hs : s.Moved s') : s'.Fanned := by
  cases hs with
  | outside hpeers =>
    exact ⟨h.seq, fun e he => (hpeers e he).elim (h.keys e) id, h.phase, h.sent, h.link⟩
  | skip hidle => exact ⟨h.seq, h.keys, h.phase, h.sent, h.link⟩
  | @delta channel pkt hg hidle _ =>
    have hnumber := h.number hidle pkt hg
    exact ⟨hnumber.seq, hnumber.keys, hnumber.phase, hnumber.sent, hnumber.link⟩
  | @keyframe channel pkt hg hidle _ =>
    have hnumber := h.number hidle pkt hg
    exact ⟨hnumber.seq, hnumber.keys, hnumber.phase, hnumber.sent, hnumber.link⟩
  | snapshot hnumbered hperm => exact h.snapshot hnumbered hperm
  | spawn hspawning => exact h.spawn hspawning
  | done hspawning =>
    have hphase := h.phase
    rw [PhaseOk, hspawning] at hphase
    refine ⟨h.seq, h.keys, hphase.1, fun conn => ?_, h.link⟩
    refine Eq.trans ?_ (h.sent conn)
    simp only [owed, hspawning, List.map_nil, List.not_mem_nil, if_false]
  | stop hidle =>
    have hphase := h.phase
    rw [PhaseOk, hidle] at hphase
    refine ⟨h.seq, h.keys, hphase, fun conn => ?_, h.link⟩
    refine Eq.trans ?_ (h.sent conn)
    simp only [owed, hidle]
    rfl
  | work _ _ => exact ⟨h.seq, h.keys, h.phase, h.sent, h.link⟩
  | @deliver conn link a hlink hsame =>
    refine ⟨h.seq, h.keys, h.phase, fun c => ?_, fun c => ?_⟩
    · show ((Function.update s.links conn link) c).sent.map SentFrame.mediaObject ++ s.owed c =
        addressed c 1 s.rounds
      rcases eq_or_ne c conn with rfl | hne
      · rw [Function.update_self, hsame]
        exact h.sent c
      · rw [Function.update_of_ne hne]
        exact h.sent c
    · show Reachable Link.step {} ((Function.update s.links conn link) c)
      rcases eq_or_ne c conn with rfl | hne
      · rw [Function.update_self]
        exact (h.link c).trans (.single hlink)
      · rw [Function.update_of_ne hne]
        exact h.link c

theorem Fanned.of_reachable {b : Bool} (h : Reachable step (start b) s) : s.Fanned :=
  h.invariant (P := Fanned) (fun _ _ _ hf hs => hf.moved (SendLoop.moved hs)) (.init b)

/-! ## Connections -/

/-- The loop and the network of a connection are the sender and the network of a link. -/
theorem link_reachable {b : Bool} (h : Reachable step (start b) s) (conn : Connection Id) :
    Reachable Link.step {} (s.links conn) :=
  (Fanned.of_reachable h).link conn

/-- What a decoder was called on is a frame that was sent. -/
theorem sent_of_call {l : Link} (h : l.Wf) {call : DecodeCall}
    (hcall : call ∈ l.receiver.decoder.calls) : ∃ f ∈ l.sent, call.object = f.mediaObject := by
  obtain ⟨it, hit, hcall⟩ := List.mem_filterMap.mp hcall
  have hobj : call.object ∈ l.receiver.decoder.packets := by
    cases it with
    | decoded call' =>
      obtain rfl : call' = call := by simpa using hcall
      exact List.mem_map.mpr ⟨_, hit, rfl⟩
    | _ => cases hcall
  exact h.enqueued call.object (h.fifo ▸ List.mem_append_left _ hobj)

/-- The decoder of a connection is called on the packet of that number, which was for it. -/
theorem Fanned.call (h : s.Fanned) {conn : Connection Id} {call : DecodeCall}
    (hcall : call ∈ (s.links conn).receiver.decoder.calls) :
    ∃ k pkt conns, s.rounds[k]? = some (pkt, conns) ∧ conn ∈ conns ∧
      call.object = packetObject (1 + k) pkt := by
  obtain ⟨f, hf, hobj⟩ := sent_of_call (Link.Wf.of_reachable (h.link conn)) hcall
  have hmem : f.mediaObject ∈ addressed conn 1 s.rounds := by
    rw [← h.sent conn]
    exact List.mem_append_left _ (List.mem_map_of_mem hf)
  rw [hobj]
  exact mem_addressed.mp hmem

/--
Whatever the networks do, two decoders that are called for one number are called on the same
packet, and it was numbered so for both of them.
-/
theorem receivers_agree {b : Bool} (h : Reachable step (start b) s) {conn conn' : Connection Id}
    {call call' : DecodeCall} (hcall : call ∈ (s.links conn).receiver.decoder.calls)
    (hcall' : call' ∈ (s.links conn').receiver.decoder.calls)
    (hgroup : call.object.groupId = call'.object.groupId) :
    call.object = call'.object ∧ ∃ pkt conns, (pkt, conns) ∈ s.rounds ∧ conn ∈ conns ∧
      conn' ∈ conns ∧ call.object = packetObject call.object.groupId pkt := by
  have hfanned := Fanned.of_reachable h
  obtain ⟨k, pkt, conns, hk, hconn, hobj⟩ := hfanned.call hcall
  obtain ⟨k', pkt', conns', hk', hconn', hobj'⟩ := hfanned.call hcall'
  obtain rfl : k = k' := by
    rw [hobj, hobj'] at hgroup
    exact Nat.add_left_cancel hgroup
  obtain ⟨rfl, rfl⟩ := Prod.mk.inj (Option.some.inj (hk.symm.trans hk'))
  refine ⟨hobj.trans hobj'.symm, pkt, conns, List.mem_of_getElem? hk, hconn, hconn', ?_⟩
  rw [hobj]
  rfl

/-- Task `i` opens its stream, which arrives whole and is decoded. -/
def deliver (conn : Connection ℕ) (i : ℕ) : List (Action ℕ) :=
  [.schedule i, .openStream i, .accept conn 0 100 .finished] ++
    List.replicate 6 (.receive conn (.task 0)) ++ [.receive conn (.decode {})]

def keyframeToTwo : List (Action ℕ) :=
  [.addPeer ⟨0, 5⟩, .addPeer ⟨1, 6⟩] ++ round true [⟨0, 5⟩, ⟨1, 6⟩] ++ deliver ⟨0, 5⟩ 0 ++
    deliver ⟨1, 6⟩ 1

/-- The groups of a connection's decode calls. -/
def decodedGroups (s : SendLoop ℕ) (conn : Connection ℕ) : List ℕ :=
  (s.links conn).receiver.decoder.calls.map (·.object.groupId)

def isIdle (s : SendLoop ℕ) : Bool :=
  match s.phase with
  | .idle => true
  | _ => false

theorem run_keyframeToTwo : ∃ s : SendLoop ℕ, Reachable step (start true) s ∧ s.phase = .idle ∧
    s.decodedGroups ⟨0, 5⟩ = [1] ∧ s.decodedGroups ⟨1, 6⟩ = [1] := by
  obtain ⟨s, hs, hsummary⟩ := Option.map_eq_some_iff.mp
    (by decide +kernel : (exec step (start true) keyframeToTwo).map
      (fun s => (s.isIdle, s.decodedGroups ⟨0, 5⟩, s.decodedGroups ⟨1, 6⟩)) =
        some (true, [1], [1]))
  simp only [Prod.mk.injEq] at hsummary
  refine ⟨s, ⟨_, run_of_exec hs⟩, ?_, hsummary.2⟩
  have hidle := hsummary.1
  unfold isIdle at hidle
  split at hidle
  · assumption
  · cases hidle

theorem link_reachable_keyframeToTwo : ∃ s : SendLoop ℕ, s.decodedGroups ⟨1, 6⟩ = [1] ∧
    Reachable Link.step {} (s.links ⟨1, 6⟩) := by
  obtain ⟨s, h, -, -, hgroups⟩ := run_keyframeToTwo
  exact ⟨s, hgroups, link_reachable h ⟨1, 6⟩⟩

theorem receivers_agree_keyframeToTwo : ∃ (s : SendLoop ℕ) (call call' : DecodeCall),
    call ∈ (s.links ⟨0, 5⟩).receiver.decoder.calls ∧
    call' ∈ (s.links ⟨1, 6⟩).receiver.decoder.calls ∧ call.object = call'.object := by
  obtain ⟨s, h, -, hgroups, hgroups'⟩ := run_keyframeToTwo
  obtain ⟨call, calls, hcalls, hgroup, -⟩ := List.map_eq_cons_iff.mp hgroups
  obtain ⟨call', calls', hcalls', hgroup', -⟩ := List.map_eq_cons_iff.mp hgroups'
  have hcall : call ∈ (s.links ⟨0, 5⟩).receiver.decoder.calls := hcalls ▸ List.mem_cons_self
  have hcall' : call' ∈ (s.links ⟨1, 6⟩).receiver.decoder.calls := hcalls' ▸ List.mem_cons_self
  exact ⟨s, call, call', hcall, hcall',
    (receivers_agree h hcall hcall' (hgroup.trans hgroup'.symm)).1⟩

end SendLoop

end Meshconf.Broadcast
