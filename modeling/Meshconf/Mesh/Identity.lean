import Meshconf.Mesh.Sessions

/-! # Peer identity

A session entered under a key should run on a connection to the holder of that key.
Ticket joins and incoming connections take the key from the connection. A dial that a
peer list triggers takes it from the list, and the address to dial from the same entry.
-/

namespace Meshconf.Mesh

open Control Transition

variable {Id : Type*} [LinearOrder Id] {t : Texts Id}

namespace Node

/-- Every session runs on a connection to the holder of its key. -/
def Authentic (n : Node Id) : Prop :=
  ∀ p st, n.room.peers.lookup p = some st → st.conn.remoteId = p

/-- The listed key and the address of a dial from a peer list that the action completes. -/
def completedDial (n : Node Id) : Action Id → Option (Id × EndpointAddr Id)
  | .reply msg =>
    match n.phase, expectPeerList msg with
    | .dialed p _ addr _, some _ => some (p, addr)
    | _, _ => none
  | _ => none

/-- A dial from a peer list completes only if its address belongs to the key listed with it. -/
def DialsListedKey (n : Node Id) (a : Action Id) : Prop :=
  ∀ d ∈ n.completedDial a, d.2.id = d.1

instance (n : Node Id) (a : Action Id) : Decidable (n.DialsListedKey a) :=
  inferInstanceAs (Decidable (∀ d ∈ n.completedDial a, d.2.id = d.1))

variable {n n' : Node Id} {a : Action Id} {p : Id} {conn : Connection Id}

/-- The three ways in which a session comes about. -/
theorem enroll_of_moveOf (h : n.moveOf t a = .enroll p conn) :
    conn.remoteId = p ∨
      ∃ msg peers addr rest, a = .reply msg ∧ expectPeerList msg = some peers ∧
        n.phase = .dialed p conn addr rest := by
  cases a with
  | reply msg =>
    simp only [moveOf] at h
    split at h
    · cases h
      exact .inl rfl
    · rename_i p addr rest peers hphase hmsg
      cases h
      exact .inr ⟨msg, _, _, _, rfl, hmsg, hphase⟩
    · cases h
  | greeted msg answered =>
    simp only [moveOf] at h
    split at h
    · cases h
      exact .inl rfl
    · cases h
  | receive =>
    simp only [moveOf] at h
    split at h <;> cases h
  | task i a =>
    simp only [moveOf] at h
    split at h <;> cases h
  | _ => cases h

/-- The loop waits for the answer of a dial since it connected to the address dialled. -/
theorem dialed_of_step {q : Id} {addr : EndpointAddr Id} {rest : List PeerInfo}
    (h : n.step t a = some n') (hn' : n'.phase = .dialed q conn addr rest) :
    n.phase = .dialed q conn addr rest ∨ conn.remoteId = addr.id := by
  cases stepped_of_step h with
  | dialConnected hphase =>
    cases hn'
    exact .inr rfl
  | disconnected => exact .inl hn'
  | duplicate => exact .inl hn'
  | feedback => exact .inl hn'
  | unexpected => exact .inl hn'
  | tick => exact .inl hn'
  | accept p => exact .inl hn'
  | task htask hran => exact .inl (hran.phase ▸ hn')
  | close serial => exact .inl hn'
  | cancel => exact .inl hn'
  | readdress addrs => exact .inl hn'
  | compose => exact .inl hn'
  | _ => cases hn'

/-- The peer from a list that the loop is dialling. -/
def target (n : Node Id) : Option Id :=
  match n.phase with
  | .dial p _ _ => some p
  | .dialed p _ _ _ => some p
  | _ => none

theorem target_of_dialed {addr : EndpointAddr Id} {rest : List PeerInfo}
    (h : n.phase = .dialed p conn addr rest) : n.target = some p := by
  simp only [target, h]

theorem Ran.connOf {i : ℕ} {task : Task Id} {a : TaskAction} (h : Ran t n i task a n') :
    n'.room.connOf = n.room.connOf := by
  cases h <;> rfl

/-- Nobody else enters the peer that the loop is dialling. -/
theorem vacant_of_step (hn : ∀ q ∈ n.target, n.room.connOf q = none) (h : n.step t a = some n') :
    ∀ q ∈ n'.target, n'.room.connOf q = none := by
  intro q hq
  cases stepped_of_step h with
  | dialConnected hphase =>
    cases hq
    exact hn _ (by simp only [target, hphase, Option.mem_some_iff])
  | listDial hphase hdial hp =>
    cases hq
    exact Room.connOf_eq_none.mpr hp
  | disconnected hphase => exact absurd hq (by simp [target, hphase])
  | duplicate hphase => exact absurd hq (by simp [target, hphase])
  | feedback hphase => exact absurd hq (by simp [target, hphase])
  | unexpected hphase => exact absurd hq (by simp [target, hphase])
  | tick hphase => exact absurd hq (by simp [target, hphase])
  | accept p => exact hn q hq
  | task htask hran =>
    rw [hran.connOf]
    exact hn q (by rwa [target, hran.phase] at hq)
  | close serial => exact hn q hq
  | cancel => exact hn q hq
  | readdress addrs => exact hn q hq
  | compose => exact hn q hq
  | _ => cases hq

/-- The invariant of the runs in which dials reach the keys listed with their addresses. -/
structure Identified (n : Node Id) : Prop where
  entry : ∀ p conn, n.registry.entry p = some conn → conn.remoteId = p
  dialed : ∀ p conn addr rest, n.phase = .dialed p conn addr rest → conn.remoteId = addr.id
  vacant : ∀ p ∈ n.target, n.room.connOf p = none

theorem Identified.run (endpoint : EndpointAddr Id) (media : MediaResources)
    (initial : Option (EndpointAddr Id)) :
    (run (Room.new endpoint media) initial).Identified where
  entry p conn h := by
    rw [registry_run] at h
    cases h
  dialed p conn addr rest h := by
    cases initial <;> cases h
  vacant p h := by
    cases initial <;> cases h

theorem Identified.step (hn : n.Identified) (ha : n.DialsListedKey a)
    (h : n.step t a = some n') : n'.Identified where
  entry p conn hconn := by
    rw [registry_step h] at hconn
    rcases Registry.entry_move hconn with hold | hnew
    · exact hn.entry p conn hold
    · rcases enroll_of_moveOf hnew with hp | ⟨msg, peers, addr, rest, rfl, hmsg, hphase⟩
      · exact hp
      · have hlisted : addr.id = p := ha (p, addr) (by simp [completedDial, hphase, hmsg])
        exact (hn.dialed p conn addr rest hphase).trans hlisted
  dialed p conn addr rest hphase := by
    rcases dialed_of_step h hphase with hold | hnew
    · exact hn.dialed p conn addr rest hold
    · exact hnew
  vacant := vacant_of_step hn.vacant h

theorem Identified.authentic (hn : n.Identified) : n.Authentic := by
  intro p st hst
  exact hn.entry p st.conn (by simp [registry, Room.connOf, hst])

/-- A completed dial enters its connection under the listed key. -/
theorem Identified.conn_of_completedDial (hn : n.Identified) {addr : EndpointAddr Id}
    (hd : n.completedDial a = some (p, addr)) (h : n.step t a = some n') :
    ∃ conn, n'.room.connOf p = some conn ∧ conn.remoteId = addr.id := by
  cases a with
  | reply msg =>
    simp only [completedDial] at hd
    split at hd
    · rename_i q conn addr' rest peers hphase hmsg
      cases hd
      have hvacant := hn.vacant p (target_of_dialed hphase)
      have hmove : n.moveOf t (.reply msg) = .enroll p conn := by simp only [moveOf, hphase, hmsg]
      have hentry : n'.registry.entry p = some conn := by
        rw [registry_step h, hmove]
        exact Registry.entry_enroll hvacant
      exact ⟨conn, hentry, hn.dialed p conn addr rest hphase⟩
    · cases hd
  | _ => cases hd

/-- One dial to an address of another key, and the session entered under the listed key is wrong. -/
theorem Identified.dialsListedKey (hn : n.Identified) (h : n.step t a = some n')
    (hn' : n'.Authentic) : n.DialsListedKey a := by
  rintro ⟨p, addr⟩ hd
  obtain ⟨conn, hconn, hid⟩ := hn.conn_of_completedDial hd h
  obtain ⟨st, hst, rfl⟩ := Option.map_eq_some_iff.mp hconn
  exact hid.symm.trans (hn' p st hst)

/--
In a run in which every completed dial from a peer list goes to an address of the listed key, every
session runs on a connection to the holder of its key. The first dial that does not ends that.
-/
theorem authentic_of_dialsListedKey {endpoint : EndpointAddr Id} {media : MediaResources}
    {initial : Option (EndpointAddr Id)} {as : List (Action Id)}
    (h : Run (step t) DialsListedKey (run (Room.new endpoint media) initial) as n) :
    n.Authentic ∧ ∀ a n', n.step t a = some n' → (n'.Authentic ↔ n.DialsListedKey a) := by
  have hn : n.Identified := h.invariant (P := Identified)
    (fun _ _ _ hn ha hs => hn.step ha hs) (.run endpoint media initial)
  refine ⟨hn.authentic, fun a n' hs => ⟨hn.dialsListedKey hs, fun ha => ?_⟩⟩
  exact (hn.step ha hs).authentic

/-! ## A dishonest peer list -/

/-- Peer 3 connects and lists key 2 with an address. We dial it, and the dial succeeds. -/
def introducedBy3 (addr : String) : List (Action ℕ) :=
  [.accept 3, .receive, .greeted (some (.hello "addr 3" "c")) true,
    .task 0 (.message (.peerList [{ peerId := "2", addr, name := "b" }])),
    .receive, .nextPeer, .connect true, .reply (some (.peerList []))]

theorem authentic_introducedBy3 : ∃ n : Node ℕ,
    (n.room.peers.lookup 2).map PeerState.conn = some ⟨1, 2⟩ ∧ n.Authentic := by
  obtain ⟨n, hn, hconn⟩ := Option.map_eq_some_iff.mp
    (by decide : (exec (guarded (step sampleTexts) DialsListedKey)
      (run (Room.new ⟨1, []⟩ ⟨false, false, false, "a"⟩) none) (introducedBy3 "addr 2")).map
        (fun n => (n.room.peers.lookup 2).map PeerState.conn) = some (some ⟨1, 2⟩))
  exact ⟨n, hconn, (authentic_of_dialsListedKey (run_of_guarded hn)).1⟩

/-- Peer 3 lists key 2 with its own address, and is then taken for peer 2. -/
theorem not_authentic : ¬ ∀ (t : Texts ℕ) (endpoint : EndpointAddr ℕ) (media : MediaResources)
    (initial : Option (EndpointAddr ℕ)) (n : Node ℕ),
    Reachable (step t) (run (Room.new endpoint media) initial) n → n.Authentic := by
  intro h
  obtain ⟨n, hn, hconn⟩ := Option.map_eq_some_iff.mp
    (by decide : (exec (step sampleTexts) (run (Room.new ⟨1, []⟩ ⟨false, false, false, "a"⟩) none)
      (introducedBy3 "addr 3")).map
        (fun n => (n.room.peers.lookup 2).map PeerState.conn) = some (some ⟨1, 3⟩))
  obtain ⟨st, hst, hst'⟩ := Option.map_eq_some_iff.mp hconn
  have hid := h _ _ _ _ n ⟨_, run_of_exec hn⟩ 2 st hst
  rw [hst'] at hid
  exact absurd hid (by decide)

end Node

end Meshconf.Mesh
