import Meshconf.Mesh.Sessions

/-! # Stale disconnects

Two tasks of a session may each report its end. Handling a report removes whatever
session the peer has by then, so a report should be handled before the peer is back,
and no report should follow once it is.
-/

namespace Meshconf.Mesh

open Control Transition

variable {Id : Type*} [LinearOrder Id] {t : Texts Id}

/-- The session is over, in the table of peers or in one of the places that follow it. -/
def Room.Ended (r : Room Id) (p : Id) (st : PeerState Id) : Prop :=
  r.peers.lookup p = none ∨ st.sessionCancel ∈ r.cancelled ∨
    r.audioBroadcaster.peers.lookup p = none ∨ r.videoBroadcaster.peers.lookup p = none

namespace Node

/-- Handling the disconnect at the head of the queue ends only the session that caused it. -/
def EndsOwn (t : Texts Id) (n : Node Id) : Prop :=
  ∀ p c rest st n', n.events = .peerDisconnected p c :: rest →
    n.room.peers.lookup p = some st → n.step t .receive = some n' → n'.room.Ended p st →
    st.conn = c

/--
A handshake with `p` completes only while no disconnect of `p` is queued, and a session with `p`
reports its end only while it is the current one, there is none, or a disconnect of `p` is queued.
-/
def DisconnectsInTime (t : Texts Id) (n : Node Id) (a : Action Id) : Prop :=
  n.registry.Timely (n.moveOf t a)

instance (n : Node Id) (a : Action Id) : Decidable (n.DisconnectsInTime t a) :=
  inferInstanceAs (Decidable (n.registry.Timely (n.moveOf t a)))

variable {n : Node Id}

theorem endsOwn_of_current (hn : n.registry.Current) : n.EndsOwn t := by
  intro p c rest st n' hevents hst _ _
  have hnotices : n.registry.notices = (p, c) :: disconnects rest := by
    simp [registry, hevents, disconnects]
  have hentry : n.registry.entry p = some st.conn := by simp [registry, Room.connOf, hst]
  rcases hn.head hnotices with hnone | hsome
  · exact absurd (hentry.symm.trans hnone) (by simp)
  · exact Option.some.inj (hentry.symm.trans hsome)

/-- In a run in which disconnects come in time, no disconnect ends another session. -/
theorem endsOwn_of_disconnectsInTime {endpoint : EndpointAddr Id} {media : MediaResources}
    {initial : Option (EndpointAddr Id)} {as : List (Action Id)}
    (h : Run (step t) (DisconnectsInTime t) (run (Room.new endpoint media) initial) as n) :
    n.EndsOwn t := by
  apply endsOwn_of_current
  apply h.invariant (P := fun n => n.registry.Current)
  · intro n a n' hn ha hs
    rw [registry_step hs]
    exact hn.move ha
  · rw [registry_run]
    exact .init

/-! ## Peer 2 loses its connection and comes back -/

/-- Peer 2 connects. -/
def connects : List (Action ℕ) := [.accept 2, .receive, .greeted (some (.hello "addr 2" "b")) true]

/-- The control reader and the closed monitor of the first session report its end. -/
def readerReports : Action ℕ := .task 0 .readError

def monitorReports : Action ℕ := .task 5 .closed

/-- Both reports are handled before the peer is back, and then its second connection fails too. -/
theorem endsOwn_reconnect : ∃ n : Node ℕ, n.events = [.peerDisconnected 2 ⟨1, 2⟩] ∧
    (n.room.peers.lookup 2).map PeerState.conn = some ⟨1, 2⟩ ∧ n.EndsOwn sampleTexts := by
  obtain ⟨n, hn, hend⟩ := Option.map_eq_some_iff.mp
    (by decide : (exec (guarded (step sampleTexts) (DisconnectsInTime sampleTexts))
      (run (Room.new ⟨3, []⟩ ⟨false, false, false, "a"⟩) none)
      (connects ++ [.close 0, readerReports, monitorReports, .receive, .receive] ++ connects ++
        [.close 1, .task 6 .readError])).map
        (fun n => (n.events, (n.room.peers.lookup 2).map PeerState.conn)) =
          some ([.peerDisconnected 2 ⟨1, 2⟩], some ⟨1, 2⟩))
  obtain ⟨hevents, hconn⟩ := Prod.mk.inj hend
  exact ⟨n, hevents, hconn, endsOwn_of_disconnectsInTime (run_of_guarded hn)⟩

/-- The peer is back between the two reports, and the second one ends its new session. -/
theorem not_endsOwn : ¬ ∀ (t : Texts ℕ) (endpoint : EndpointAddr ℕ) (media : MediaResources)
    (initial : Option (EndpointAddr ℕ)) (n : Node ℕ),
    Reachable (step t) (run (Room.new endpoint media) initial) n → n.EndsOwn t := by
  intro h
  obtain ⟨n, hn, hend⟩ := Option.map_eq_some_iff.mp
    (by decide : (exec (step sampleTexts) (run (Room.new ⟨3, []⟩ ⟨false, false, false, "a"⟩) none)
      (connects ++ [.close 0, readerReports, .accept 2, monitorReports, .receive, .receive,
        .greeted (some (.hello "addr 2" "b")) true])).map
        (fun n => (n.events, (n.room.peers.lookup 2).map PeerState.conn,
          (n.step sampleTexts .receive).map fun n' => (n'.room.peers.lookup 2).isNone)) =
          some ([.peerDisconnected 2 ⟨0, 2⟩], some ⟨1, 2⟩, some true))
  obtain ⟨hevents, hend⟩ := Prod.mk.inj hend
  obtain ⟨hconn, hremoved⟩ := Prod.mk.inj hend
  obtain ⟨st, hst, hst'⟩ := Option.map_eq_some_iff.mp hconn
  obtain ⟨n', hn', hnone⟩ := Option.map_eq_some_iff.mp hremoved
  have hown := h _ _ _ _ n ⟨_, run_of_exec hn⟩ 2 _ [] st n' hevents hst hn'
    (.inl (Option.isNone_iff_eq_none.mp hnone))
  rw [hst'] at hown
  exact absurd hown (by decide)

end Node

end Meshconf.Mesh
