import Meshconf.Control.Json
import Meshconf.Mesh.Steps
import Meshconf.Transition.Run
import Meshconf.Transition.Totals

/-! # The size of peer lists

A peer list carries texts that its peers have chosen: their addresses and names. The
reader of a control message refuses what is too long, and the writer of a peer list
does not ask. The list stays readable while the texts that enter it leave room.
-/

namespace Meshconf.Mesh

open Control Transition

variable {Id : Type*} [LinearOrder Id]

namespace Room

/-- The bytes of the entry of `p` in a peer list. -/
def entrySize (t : Texts Id) (p : Id) (addr : EndpointAddr Id) (name : String) : ℕ :=
  Control.entrySize { peerId := t.peerIdToString p, addr := t.addrToString addr, name }

/-- The bytes of our own entry. -/
def ownSize (t : Texts Id) (r : Room Id) : ℕ := entrySize t r.ourId r.addr r.ourName

/-- The bytes of the entries of all peers. -/
def peersSize (t : Texts Id) (peers : AList fun _ : Id => PeerState Id) : ℕ :=
  peers.total fun p st => entrySize t p st.addr st.name

/-- The list of the room can be read. -/
def Fits (t : Texts Id) (r : Room Id) : Prop :=
  listOverhead + r.ownSize t + peersSize t r.peers ≤ maxControlMsg

/-- There is room for an entry of `p` beside those of ourselves and of the other peers. -/
def HasRoomFor (t : Texts Id) (r : Room Id) (p : Id) (addr : EndpointAddr Id) (name : String) :
    Prop :=
  listOverhead + r.ownSize t + peersSize t (r.peers.erase p) + entrySize t p addr name ≤
    maxControlMsg

instance (t : Texts Id) (r : Room Id) : Decidable (r.Fits t) := inferInstanceAs (Decidable (_ ≤ _))

instance (t : Texts Id) (r : Room Id) (p : Id) (addr : EndpointAddr Id) (name : String) :
    Decidable (r.HasRoomFor t p addr name) := inferInstanceAs (Decidable (_ ≤ _))

variable {t : Texts Id} {r : Room Id} {p : Id} {conn : Connection Id} {addr : EndpointAddr Id}
  {name : String}

theorem length_buildPeerList (hjson : t.json.Compact) :
    (t.json.toVec (r.buildPeerList t)).length = listOverhead + r.ownSize t + peersSize t r.peers := by
  rw [buildPeerList, hjson.peerList, length_peerListText, List.map_map]
  rfl

/-- Only our own texts and the entries of the peers count. -/
theorem Fits.of_peers {r' : Room Id} (hid : r'.ourId = r.ourId) (haddrs : r'.ourAddrs = r.ourAddrs)
    (hname : r'.ourName = r.ourName)
    (h : listOverhead + r.ownSize t + peersSize t r'.peers ≤ maxControlMsg) : r'.Fits t := by
  have hown : r'.ownSize t = r.ownSize t := by
    simp only [ownSize, Room.addr, hid, haddrs, hname]
  rw [Fits, hown]
  exact h

theorem fits_new {endpoint : EndpointAddr Id} {media : MediaResources}
    (h : listOverhead + entrySize t endpoint.id endpoint media.ourName ≤ maxControlMsg) :
    (Room.new endpoint media).Fits t := by
  have hown : (Room.new endpoint media).ownSize t =
      entrySize t endpoint.id endpoint media.ourName := rfl
  have hpeers : peersSize t (Room.new endpoint media).peers = 0 := rfl
  rw [Fits, hown, hpeers, Nat.add_zero]
  exact h

theorem Fits.erase (h : r.Fits t) :
    listOverhead + r.ownSize t + peersSize t (r.peers.erase p) ≤ maxControlMsg :=
  (Nat.add_le_add_left AList.total_erase_le _).trans h

theorem Fits.enter (h : r.HasRoomFor t p addr name) (st : PeerState Id) (haddr : st.addr = addr)
    (hname : st.name = name) :
    listOverhead + r.ownSize t + peersSize t (r.peers.insert p st) ≤ maxControlMsg := by
  subst haddr hname
  rw [peersSize, AList.total_insert, Nat.add_comm (entrySize _ _ _ _), ← Nat.add_assoc]
  exact h

theorem Fits.addPeerWithMedia (h : r.Fits t) (hroom : r.HasRoomFor t p addr name) {session : ℕ}
    {controlSend : Option (Connection Id)} :
    (r.addPeerWithMedia p conn addr session controlSend name).Fits t := by
  unfold Room.addPeerWithMedia
  split_ifs
  · exact h
  · have hentered := Fits.enter hroom
      { conn, addr, name, sessionCancel := session, controlSend } rfl rfl
    refine Fits.of_peers (r := r) rfl rfl rfl ?_
    exact hentered

theorem Fits.openControlAndAddPeer (h : r.Fits t) (hroom : r.HasRoomFor t p addr "") :
    (r.openControlAndAddPeer p conn addr).Fits t := by
  have hsession : r.newSession.Fits t := h
  have hroom' : r.newSession.HasRoomFor t p addr "" := hroom
  exact hsession.addPeerWithMedia hroom'

theorem Fits.attachControl (h : r.Fits t) : (r.attachControl p conn).Fits t := by
  unfold Room.attachControl
  split
  · rename_i st hst
    have htotal : peersSize t (r.peers.insert p { st with controlSend := some conn }) =
        peersSize t r.peers := AList.total_insert_of_lookup hst rfl
    refine Fits.of_peers (r := r) rfl rfl rfl ?_
    change listOverhead + r.ownSize t + peersSize t (r.peers.insert p _) ≤ maxControlMsg
    rw [htotal]
    exact h
  · exact h

theorem Fits.broadcastPeerList (h : r.Fits t) : (r.broadcastPeerList t).Fits t := h

theorem Fits.handleHello (h : r.Fits t) (hroom : r.HasRoomFor t conn.remoteId addr name) :
    (r.handleHello t conn addr name).Fits t := by
  have hreader : (r.newSession.spawnControlReader conn.remoteId conn r.sessions).Fits t := h
  exact hreader.addPeerWithMedia hroom

theorem Fits.updateName (h : r.Fits t) {st : PeerState Id}
    (hroom : name ≠ "" → st.name ≠ name → r.HasRoomFor t p st.addr name) :
    (r.updateName p st name).Fits t := by
  unfold Room.updateName
  split_ifs with hchanged
  · exact Fits.enter (hroom hchanged.1 hchanged.2) { st with name } rfl rfl
  · exact h

theorem Fits.handlePeerDisconnected (h : r.Fits t) : (r.handlePeerDisconnected p).Fits t := by
  unfold Room.handlePeerDisconnected
  split
  · exact h
  · exact Fits.of_peers (r := r) rfl rfl rfl h.erase

theorem Fits.cleanupAllPeers (h : r.Fits t) : r.cleanupAllPeers.Fits t := by
  have hempty : peersSize t r.cleanupAllPeers.peers = 0 := rfl
  unfold Fits at h ⊢
  rw [hempty]
  exact (Nat.add_le_add_left (Nat.zero_le _) _).trans h

end Room

namespace Node

/-- The entry that an action puts into the list: a new peer, or a peer with a new name. -/
def listing (t : Texts Id) (n : Node Id) : Action Id → Option (Id × EndpointAddr Id × String)
  | .reply msg =>
    match n.phase, expectPeerList msg with
    | .joined conn addr, some _ => some (conn.remoteId, addr, "")
    | .dialed p _ addr _, some _ => some (p, addr, "")
    | _, _ => none
  | .greeted msg answered =>
    match n.phase, introduction t msg answered with
    | .greet conn, some (addr, name) => some (conn.remoteId, addr, name)
    | _, _ => none
  | .nextPeer =>
    match n.phase with
    | .peerList (info :: _) =>
      (t.parsePublicKey info.peerId).bind fun p => (n.room.peers.lookup p).bind fun st =>
        if p ≠ n.room.ourId ∧ info.name ≠ "" ∧ st.name ≠ info.name then some (p, st.addr, info.name)
        else none
    | _ => none
  | _ => none

/-- Our own addresses, where they change. -/
def newAddrs : Action Id → Option (List String)
  | .readdress addrs => some addrs
  | _ => none

/-- The texts that enter the list leave room: those of peers, and our own addresses. -/
def ListsFit (t : Texts Id) (n : Node Id) (a : Action Id) : Prop :=
  (∀ e ∈ n.listing t a, n.room.HasRoomFor t e.1 e.2.1 e.2.2) ∧
    ∀ addrs ∈ newAddrs a, ({ n.room with ourAddrs := addrs } : Room Id).Fits t

instance (t : Texts Id) (n : Node Id) (a : Action Id) : Decidable (n.ListsFit t a) :=
  inferInstanceAs (Decidable (_ ∧ _))

variable {t : Texts Id} {n n' : Node Id} {a : Action Id}

section Listing

variable {conn : Connection Id} {addr : EndpointAddr Id} {msg : Option ControlMessage}

theorem listing_joined {peers : List PeerInfo} (hphase : n.phase = .joined conn addr)
    (hmsg : expectPeerList msg = some peers) :
    n.listing t (.reply msg) = some (conn.remoteId, addr, "") := by
  simp only [listing, hphase, hmsg]

theorem listing_dialed {p : Id} {peers rest : List PeerInfo}
    (hphase : n.phase = .dialed p conn addr rest) (hmsg : expectPeerList msg = some peers) :
    n.listing t (.reply msg) = some (p, addr, "") := by
  simp only [listing, hphase, hmsg]

theorem listing_greeted {name : String} {answered : Bool} (hphase : n.phase = .greet conn)
    (hmsg : introduction t msg answered = some (addr, name)) :
    n.listing t (.greeted msg answered) = some (conn.remoteId, addr, name) := by
  simp only [listing, hphase, hmsg]

end Listing

theorem fits_handleReceivedPeer {info : PeerInfo} {rest : List PeerInfo} (h : n.room.Fits t)
    (hphase : n.phase = .peerList (info :: rest)) (ha : n.ListsFit t .nextPeer) :
    (n.room.handleReceivedPeer t info).1.Fits t := by
  rcases n.room.handleReceivedPeer_cases info with hr | ⟨p, st, hp, hour, hst, hr⟩
  · rwa [hr]
  · rw [hr]
    refine Room.Fits.updateName h fun hname hchanged => ?_
    apply ha.1 (p, st.addr, info.name)
    simp [listing, hphase, hp, hst, hour, hname, hchanged]

theorem Ran.fits {i : ℕ} {task : Task Id} {a : TaskAction} (h : n.room.Fits t)
    (hran : Ran t n i task a n') : n'.room.Fits t := by
  cases hran <;> exact h

theorem fits_step (h : n.room.Fits t) (ha : n.ListsFit t a) (hs : n.step t a = some n') :
    n'.room.Fits t := by
  cases stepped_of_step hs with
  | joined hphase hmsg =>
    have hroom := ha.1 _ (listing_joined hphase hmsg)
    exact (h.openControlAndAddPeer hroom).attachControl
  | dialed hphase hmsg =>
    have hroom := ha.1 _ (listing_dialed hphase hmsg)
    exact (h.openControlAndAddPeer hroom).attachControl.broadcastPeerList
  | greeted hphase hmsg =>
    have hroom := ha.1 _ (listing_greeted hphase hmsg)
    exact Room.Fits.handleHello (r := n.room.write _ _) h hroom
  | listNext hphase => exact fits_handleReceivedPeer h hphase ha
  | listDial hphase => exact fits_handleReceivedPeer h hphase ha
  | disconnected => exact Room.Fits.handlePeerDisconnected h
  | stop => exact Room.Fits.cleanupAllPeers h
  | task _ hran => exact hran.fits h
  | readdress addrs => exact ha.2 addrs rfl
  | _ => exact h

/-- The other side reads the list as it was written. -/
def ListReadable (t : Texts Id) (n : Node Id) : Prop :=
  ∀ s : Bytes.Stream, s.input = writeControlMsg t.json (n.room.buildPeerList t) →
    ∃ s', (readControlMsg t.json).exec s = (.ok (n.room.buildPeerList t), s')

theorem listReadable_of_fits (hjson : t.json.Compact)
    (hparse : t.json.fromSlice (t.json.toVec (n.room.buildPeerList t)) = .ok (n.room.buildPeerList t))
    (h : n.room.Fits t) : n.ListReadable t := by
  rintro s hs
  have hlen : (t.json.toVec (n.room.buildPeerList t)).length ≤ maxControlMsg := by
    rw [Room.length_buildPeerList hjson]
    exact h
  exact ⟨_, (frames_readControlMsg hlen hparse).whole s [] (by simpa using hs)⟩

/-- While the texts leave room, every list that the room would send is read by its peers. -/
theorem listReadable_of_listsFit {endpoint : EndpointAddr Id} {media : MediaResources}
    {initial : Option (EndpointAddr Id)} {as : List (Action Id)} (hjson : t.json.Compact)
    (hown : listOverhead + Room.entrySize t endpoint.id endpoint media.ourName ≤ maxControlMsg)
    (h : Run (step t) (ListsFit t) (run (Room.new endpoint media) initial) as n)
    (hparse : t.json.fromSlice (t.json.toVec (n.room.buildPeerList t)) =
      .ok (n.room.buildPeerList t)) : n.ListReadable t := by
  have hinit : (run (Room.new endpoint media) initial).room.Fits t := by
    cases initial <;> exact Room.fits_new hown
  exact listReadable_of_fits hjson hparse
    (h.invariant (P := fun n => n.room.Fits t) (fun _ _ _ hn ha hs => fits_step hn ha hs) hinit)

/-! ## A long name -/

/-- The text forms of the examples with compact JSON, where one Hello and one list are parsed. -/
def compactTexts (name : String) : Texts ℕ where
  parsePublicKey := sampleTexts.parsePublicKey
  peerIdToString := sampleTexts.peerIdToString
  stringToAddr := sampleTexts.stringToAddr
  addrToString := sampleTexts.addrToString
  json :=
    { toVec := fun
        | .hello addr name => helloText addr name
        | .peerList peers => peerListText peers
        | .congestionFeedback .. => sampleReportText.toUTF8.toList
      fromSlice := fun buf =>
        if buf = helloText "addr 2" name then .ok (.hello "addr 2" name)
        else if buf = peerListText (namedList name) then .ok (.peerList (namedList name))
        else .error "no message" }
where
  namedList (name : String) : List PeerInfo :=
    [{ peerId := "1", addr := "addr 1", name := "a" }, { peerId := "2", addr := "addr 2", name }]

/-- Peer 2 connects under a name. -/
def introducedAs (name : String) : List (Action ℕ) :=
  [.accept 2, .receive, .greeted (some (.hello "addr 2" name)) true]

theorem buildPeerList_introducedAs (name : String) : (exec (step (compactTexts name))
    (run (Room.new ⟨1, []⟩ ⟨false, false, false, "a"⟩) none) (introducedAs name)).map
      (fun n => n.room.buildPeerList (compactTexts name)) =
        some (.peerList (compactTexts.namedList name)) := by
  rfl

theorem length_namedList (name : String) : (peerListText (compactTexts.namedList name)).length =
    117 + (jsonString name).length := by
  have hus : Control.entrySize { peerId := "1", addr := "addr 1", name := "a" } = 43 := by decide
  have hid : (jsonString "2").length = 3 := by decide
  have haddr : (jsonString "addr 2").length = 8 := by decide
  rw [compactTexts.namedList, length_peerListText, List.map_singleton, List.sum_singleton, hus,
    Control.entrySize, length_peerInfoText, listOverhead]
  simp only [hid, haddr]
  omega

theorem compact_compactTexts (name : String) : (compactTexts name).json.Compact where
  hello _ _ := rfl
  peerList _ := rfl

theorem fromSlice_hello (name : String) : (compactTexts name).json.fromSlice
    ((compactTexts name).json.toVec (.hello "addr 2" name)) = .ok (.hello "addr 2" name) := by
  simp only [compactTexts, if_true]

theorem fromSlice_list (name : String) : (compactTexts name).json.fromSlice
    ((compactTexts name).json.toVec (.peerList (compactTexts.namedList name))) =
      .ok (.peerList (compactTexts.namedList name)) := by
  have hne : peerListText (compactTexts.namedList name) ≠ helloText "addr 2" name := by
    intro h
    have hlen := congrArg List.length h
    have haddr : (jsonString "addr 2").length = 8 := by decide
    rw [length_namedList, length_helloText, haddr] at hlen
    omega
  simp only [compactTexts, if_neg hne, if_true]

theorem listReadable_introducedAs : ∃ n : Node ℕ,
    n.room.buildPeerList (compactTexts "b") = .peerList (compactTexts.namedList "b") ∧
      n.ListReadable (compactTexts "b") := by
  obtain ⟨n, hn, hlist⟩ := Option.map_eq_some_iff.mp
    (by decide +kernel : (exec (guarded (step (compactTexts "b")) (ListsFit (compactTexts "b")))
      (run (Room.new ⟨1, []⟩ ⟨false, false, false, "a"⟩) none) (introducedAs "b")).map
        (fun n => n.room.buildPeerList (compactTexts "b")) =
          some (.peerList (compactTexts.namedList "b")))
  refine ⟨n, hlist, listReadable_of_listsFit (compact_compactTexts "b") (by decide)
    (run_of_guarded hn) ?_⟩
  rw [hlist]
  exact fromSlice_list "b"

/-- The message that an action brings from a remote peer. -/
def received : Action Id → Option ControlMessage
  | .reply msg => msg
  | .greeted msg _ => msg
  | .task _ (.message msg) => some msg
  | _ => none

/-- Messages from remote peers have been read by `readControlMsg`. -/
def ReadByUs (t : Texts Id) (_ : Node Id) (a : Action Id) : Prop :=
  ∀ msg ∈ received a, ∃ s s', (readControlMsg t.json).exec s = (.ok msg, s')

/-- A Hello can be read, and the list with its name and the texts around it cannot. -/
theorem not_listReadable : ¬ ∀ (t : Texts ℕ) (endpoint : EndpointAddr ℕ) (media : MediaResources)
    (initial : Option (EndpointAddr ℕ)) (as : List (Action ℕ)) (n : Node ℕ), t.json.Compact →
    Run (step t) (ReadByUs t) (run (Room.new endpoint media) initial) as n →
    t.json.fromSlice (t.json.toVec (n.room.buildPeerList t)) = .ok (n.room.buildPeerList t) →
    n.ListReadable t := by
  intro h
  obtain ⟨name, hname⟩ : ∃ name, (jsonString name).length = 999950 + 2 :=
    ⟨_, length_jsonString_replicate (by decide : escapeChar 'a' = [0x61]) 999950⟩
  obtain ⟨n, hn, hlist⟩ := Option.map_eq_some_iff.mp (buildPeerList_introducedAs name)
  have hread : ∀ a ∈ introducedAs name, ∀ u : Node ℕ, ReadByUs (compactTexts name) u a := by
    rintro a ha u msg hmsg
    simp only [introducedAs, List.mem_cons, List.not_mem_nil, or_false] at ha
    rcases ha with rfl | rfl | rfl
    · cases hmsg
    · cases hmsg
    · cases hmsg
      have haddr : (jsonString "addr 2").length = 8 := by decide
      have hlen : ((compactTexts name).json.toVec (.hello "addr 2" name)).length ≤ maxControlMsg := by
        rw [(compact_compactTexts name).hello, length_helloText, haddr, hname, maxControlMsg]
        decide
      have hframes := frames_readControlMsg hlen (fromSlice_hello name)
      exact ⟨_, _, hframes.whole { input := _, ending := .finished } [] (List.append_nil _).symm⟩
  have hreadable := h (compactTexts name) _ _ _ _ n (compact_compactTexts name)
    ((run_of_exec hn).of_actions hread) (by rw [hlist]; exact fromSlice_list name)
  have hlen : ((compactTexts name).json.toVec (n.room.buildPeerList (compactTexts name))).length =
      117 + (999950 + 2) := by
    rw [hlist, (compact_compactTexts name).peerList, length_namedList, hname]
  obtain ⟨s', hs'⟩ := hreadable { input := _, ending := .finished } rfl
  obtain ⟨e, s'', hs''⟩ := exec_readControlMsg_of_lt (by rw [hlen]; decide) (by rw [hlen]; decide)
    (rfl : ({ input := _, ending := .finished } : Bytes.Stream).input = _)
  cases hs'.symm.trans hs''

end Node

end Meshconf.Mesh
