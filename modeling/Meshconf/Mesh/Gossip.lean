import Meshconf.Contacts.Agreement
import Meshconf.Mesh.Contacts

/-! # What rooms tell each other

Honest rooms list each peer under its own key and address, and only peers that have
joined or been answered. So whatever a room dials is known under the key it was listed
with, and the handshakes of a network are steps of parties that contact each other.
-/

namespace Meshconf.Mesh

open Control Transition

variable {Id : Type*}

/-- The entry of a peer list gives an address of the key it lists. -/
def GenuineInfo (t : Texts Id) (R : Id → Prop) (info : PeerInfo) : Prop :=
  ∃ addr, t.parsePublicKey info.peerId = some addr.id ∧ t.stringToAddr info.addr = some addr ∧
    R addr.id

def Genuine (t : Texts Id) (R : Id → Prop) : ControlMessage → Prop
  | .peerList peers => ∀ info ∈ peers, GenuineInfo t R info
  | _ => True

theorem Genuine.mono {t : Texts Id} {R R' : Id → Prop} (hR : ∀ p, R p → R' p)
    {msg : ControlMessage} (h : Genuine t R msg) : Genuine t R' msg := by
  cases msg with
  | peerList peers =>
    rintro info hinfo
    obtain ⟨addr, hkey, haddr, hp⟩ := h info hinfo
    exact ⟨addr, hkey, haddr, hR _ hp⟩
  | _ => trivial

variable [LinearOrder Id] {t : Texts Id} {R R' : Id → Prop} {i p : Id}

namespace Room

/-- The room of `i` lists peers that meet `R`, each with its own address and connection. -/
structure Honest (t : Texts Id) (R : Id → Prop) (i : Id) (r : Room Id) : Prop where
  ourId : r.ourId = i
  entry : ∀ p st, r.peers.lookup p = some st → st.addr.id = p ∧ st.conn.remoteId = p ∧ R p
  written : ∀ w ∈ r.written, Genuine t R w.2

namespace Honest

variable {r : Room Id} {conn : Connection Id} {addr : EndpointAddr Id} {name : String}

theorem mono (hR : ∀ p, R p → R' p) (h : r.Honest t R i) : r.Honest t R' i where
  ourId := h.ourId
  entry p st hst := by
    obtain ⟨haddr, hconn, hp⟩ := h.entry p st hst
    exact ⟨haddr, hconn, hR p hp⟩
  written w hw := (h.written w hw).mono hR

theorem new (endpoint : EndpointAddr Id) (media : MediaResources) :
    (Room.new endpoint media).Honest t R endpoint.id := by
  constructor
  · rfl
  · rintro p st hst
    cases hst
  · rintro w hw
    cases hw

theorem insert (h : r.Honest t R i) (st : PeerState Id) (haddr : st.addr.id = p)
    (hconn : st.conn.remoteId = p) (hp : R p) :
    Honest t R i { r with peers := r.peers.insert p st } where
  ourId := h.ourId
  entry q st' hst' := by
    by_cases hq : q = p
    · subst hq
      obtain rfl : st = st' := by simpa using hst'
      exact ⟨haddr, hconn, hp⟩
    · simp only [AList.lookup_insert_ne hq] at hst'
      exact h.entry q st' hst'
  written := h.written

theorem buildPeerList (ht : t.RoundTrip) (h : r.Honest t R i) (hi : R i) :
    Genuine t R (r.buildPeerList t) := by
  rintro info hinfo
  rcases List.mem_cons.mp hinfo with rfl | hpeer
  · refine ⟨r.addr, ht.key _, ht.addr _, ?_⟩
    change R r.ourId
    rwa [h.ourId]
  · obtain ⟨⟨p, st⟩, he, rfl⟩ := List.mem_map.mp hpeer
    obtain ⟨haddr, -, hp⟩ := h.entry p st (AList.mem_lookup_iff.mpr he)
    exact ⟨st.addr, haddr ▸ ht.key p, ht.addr _, haddr ▸ hp⟩

theorem write (h : r.Honest t R i) (conn : Connection Id) {msg : ControlMessage}
    (hmsg : Genuine t R msg) :
    (r.write conn msg).Honest t R i where
  ourId := h.ourId
  entry := h.entry
  written w hw := by
    rcases List.mem_append.mp hw with hold | hnew
    · exact h.written w hold
    · obtain rfl := List.mem_singleton.mp hnew
      exact hmsg

theorem broadcastPeerList (ht : t.RoundTrip) (h : r.Honest t R i) (hi : R i) :
    (r.broadcastPeerList t).Honest t R i where
  ourId := h.ourId
  entry := h.entry
  written w hw := by
    rcases List.mem_append.mp hw with hold | hnew
    · exact h.written w hold
    · obtain ⟨conn, -, rfl⟩ := List.mem_map.mp hnew
      exact h.buildPeerList ht hi

theorem addPeerWithMedia (h : r.Honest t R i) (haddr : addr.id = p) (hconn : conn.remoteId = p)
    (hp : R p) {session : ℕ} {controlSend : Option (Connection Id)} :
    (r.addPeerWithMedia p conn addr session controlSend name).Honest t R i := by
  unfold Room.addPeerWithMedia
  split_ifs
  · exact h
  · have hentered := h.insert { conn, addr, name, sessionCancel := session, controlSend }
      haddr hconn hp
    exact { hentered with }

theorem openControlAndAddPeer (h : r.Honest t R i) (haddr : addr.id = p)
    (hconn : conn.remoteId = p) (hp : R p) :
    (r.openControlAndAddPeer p conn addr).Honest t R i := by
  have hsession : r.newSession.Honest t R i := { h with }
  exact hsession.addPeerWithMedia haddr hconn hp

theorem attachControl (h : r.Honest t R i) (p : Id) (conn : Connection Id) :
    (r.attachControl p conn).Honest t R i := by
  unfold Room.attachControl
  split
  · rename_i st hst
    obtain ⟨haddr, hconn, hp⟩ := h.entry p st hst
    have hattached := h.insert { st with controlSend := some conn } haddr hconn hp
    exact { hattached with }
  · exact { h with }

theorem handleHello (ht : t.RoundTrip) (h : r.Honest t R i) (hi : R i)
    (haddr : addr.id = conn.remoteId) (hp : R conn.remoteId) :
    (r.handleHello t conn addr name).Honest t R i := by
  have hreader :
      (r.newSession.spawnControlReader conn.remoteId conn r.sessions).Honest t R i := { h with }
  exact (hreader.addPeerWithMedia haddr rfl hp).broadcastPeerList ht hi

theorem updateName (h : r.Honest t R i) {st : PeerState Id} (hst : r.peers.lookup p = some st) :
    (r.updateName p st name).Honest t R i := by
  unfold Room.updateName
  obtain ⟨haddr, hconn, hp⟩ := h.entry p st hst
  split_ifs
  · have hnamed := h.insert { st with name } haddr hconn hp
    exact { hnamed with }
  · exact h

theorem handleReceivedPeer (h : r.Honest t R i) (info : PeerInfo) :
    (r.handleReceivedPeer t info).1.Honest t R i := by
  rcases r.handleReceivedPeer_cases info with hr | ⟨p, st, -, -, hst, hr⟩
  · rwa [hr]
  · rw [hr]
    exact h.updateName hst

theorem handlePeerDisconnected (h : r.Honest t R i) :
    (r.handlePeerDisconnected p).Honest t R i := by
  unfold Room.handlePeerDisconnected
  split
  · exact h
  · constructor
    · exact h.ourId
    · rintro q st hst
      by_cases hq : q = p
      · subst hq
        simp [Room.trySendCommand] at hst
      · simp only [Room.trySendCommand, AList.lookup_erase_ne hq] at hst
        exact h.entry q st hst
    · exact h.written

theorem cleanupAllPeers (h : r.Honest t R i) : r.cleanupAllPeers.Honest t R i where
  ourId := h.ourId
  entry p st hst := by cases hst
  written := h.written

end Honest

/-- Only larger keys are dialled that the list and the room give no reason to leave out. -/
theorem dial_of_handleReceivedPeer {r : Room Id} {info : PeerInfo} {addr : EndpointAddr Id}
    (h : (r.handleReceivedPeer t info).2 = some (p, addr)) :
    t.parsePublicKey info.peerId = some p ∧ t.stringToAddr info.addr = some addr ∧ r.ourId < p := by
  unfold handleReceivedPeer at h
  split at h
  · cases h
  rename_i q hq
  by_cases hour : q = r.ourId
  · rw [if_pos hour] at h
    cases h
  rw [if_neg hour] at h
  split at h
  · cases h
  split at h
  · cases h
  rename_i addr' haddr
  simp only [Option.ite_none_right_eq_some] at h
  obtain ⟨hinit, heq⟩ := h
  cases heq
  exact ⟨hq, haddr, of_decide_eq_true hinit⟩

end Room

/-- What a phase remembers of peer lists and addresses is right. -/
def Phase.Honest (t : Texts Id) (R : Id → Prop) (i : Id) : Phase Id → Prop
  | .joined conn addr => addr.id = conn.remoteId
  | .peerList rest => Genuine t R (.peerList rest)
  | .dial p addr rest => addr.id = p ∧ R p ∧ i < p ∧ Genuine t R (.peerList rest)
  | .dialed p conn addr rest => addr.id = p ∧ conn.remoteId = p ∧ Genuine t R (.peerList rest)
  | _ => True

theorem Phase.Honest.mono (hR : ∀ p, R p → R' p) {phase : Phase Id} (h : phase.Honest t R i) :
    phase.Honest t R' i := by
  cases phase with
  | peerList rest =>
    have hrest : Genuine t R (.peerList rest) := h
    exact hrest.mono hR
  | dial p addr rest => exact ⟨h.1, hR p h.2.1, h.2.2.1, h.2.2.2.mono hR⟩
  | dialed p conn addr rest => exact ⟨h.1, h.2.1, h.2.2.mono hR⟩
  | _ => exact h

namespace Node

/-- Whatever the node of `i` holds of other rooms is right. -/
structure Honest (t : Texts Id) (R : Id → Prop) (i : Id) (n : Node Id) : Prop where
  room : n.room.Honest t R i
  event : ∀ sender msg, .controlMsg sender msg ∈ n.events → Genuine t R msg
  phase : n.phase.Honest t R i

/-- What an action takes from other rooms is right. -/
def Trusts (t : Texts Id) (R : Id → Prop) (n : Node Id) : Action Id → Prop
  | .reply msg => (∀ conn ∈ n.awaiting, R conn.remoteId) ∧
      ∀ peers, expectPeerList msg = some peers → Genuine t R (.peerList peers)
  | .greeted msg answered => ∀ e ∈ introduction t msg answered, ∀ conn ∈ n.greeting,
      e.1.id = conn.remoteId ∧ R conn.remoteId
  | .task _ (.message msg) => Genuine t R msg
  | _ => True

variable {n n' : Node Id}

theorem Honest.mono (hR : ∀ p, R p → R' p) (h : n.Honest t R i) : n.Honest t R' i where
  room := h.room.mono hR
  event sender msg hmem := (h.event sender msg hmem).mono hR
  phase := h.phase.mono hR

theorem Honest.run (endpoint : EndpointAddr Id) (media : MediaResources)
    (initial : Option (EndpointAddr Id)) :
    (run (Room.new endpoint media) initial).Honest t R endpoint.id := by
  cases initial with
  | none => exact ⟨.new endpoint media, fun _ _ hmem => absurd hmem (List.not_mem_nil), trivial⟩
  | some addr => exact ⟨.new endpoint media, fun _ _ hmem => absurd hmem (List.not_mem_nil), trivial⟩

theorem Honest.ran {j : ℕ} {task : Task Id} {a : TaskAction} (hn : n.Honest t R i)
    (ha : n.Trusts t R (.task j a)) (h : Ran t n j task a n') : n'.Honest t R i := by
  have hother : ∀ e : RoomEvent Id, (∀ sender msg, e ≠ .controlMsg sender msg) →
      ∀ sender msg, .controlMsg sender msg ∈ n.events ++ [e] → Genuine t R msg := by
    rintro e he sender msg hmem
    rcases List.mem_append.mp hmem with hold | hnew
    · exact hn.event sender msg hold
    · exact absurd (List.mem_singleton.mp hnew).symm (he sender msg)
  cases h with
  | message msg =>
    refine ⟨hn.room, fun sender msg' hmem => ?_, hn.phase⟩
    rcases List.mem_append.mp hmem with hold | hnew
    · exact hn.event sender msg' hold
    · cases List.mem_singleton.mp hnew
      exact ha
  | readError => exact ⟨{ hn.room with }, hother _ (by simp), hn.phase⟩
  | closed => exact ⟨{ hn.room with }, hother _ (by simp), hn.phase⟩
  | _ => exact ⟨{ hn.room with }, hn.event, hn.phase⟩

theorem Honest.tail (hn : n.Honest t R i) {e : RoomEvent Id} {events : List (RoomEvent Id)}
    (hevents : n.events = e :: events) :
    ∀ sender msg, .controlMsg sender msg ∈ events → Genuine t R msg := by
  rintro sender msg hmem
  apply hn.event sender msg
  rw [hevents]
  exact List.mem_cons_of_mem _ hmem

theorem Honest.step (ht : t.RoundTrip) (hn : n.Honest t R i) {a : Action Id}
    (ha : n.Trusts t R a) (hi : n'.joined = true → R i) (h : n.step t a = some n') :
    n'.Honest t R i := by
  have hphase := hn.phase
  cases stepped_of_step h with
  | joinFailed => exact ⟨hn.room, hn.event, trivial⟩
  | joinConnected => exact ⟨hn.room.write _ trivial, hn.event, rfl⟩
  | dialFailed hdial =>
    rw [hdial] at hphase
    exact ⟨hn.room, hn.event, hphase.2.2.2⟩
  | dialConnected hdial =>
    rw [hdial] at hphase
    exact ⟨hn.room.write _ trivial, hn.event, hphase.1, hphase.1, hphase.2.2.2⟩
  | @joined _ conn addr peers hjoined hpeers =>
    rw [hjoined] at hphase
    have hp := ha.1 conn (by simp only [awaiting, hjoined, Option.mem_some_iff])
    exact ⟨(hn.room.openControlAndAddPeer hphase rfl hp).attachControl _ conn, hn.event,
      ha.2 _ hpeers⟩
  | joinRefused => exact ⟨hn.room, hn.event, trivial⟩
  | @dialed _ p conn addr rest peers hdialed hpeers =>
    rw [hdialed] at hphase
    obtain ⟨haddr, hconn, hrest⟩ := hphase
    have hp := ha.1 conn (by simp only [awaiting, hdialed, Option.mem_some_iff])
    have hroom := (hn.room.openControlAndAddPeer haddr hconn (hconn ▸ hp)).attachControl p conn
    exact ⟨hroom.broadcastPeerList ht (hi rfl), hn.event, hrest⟩
  | dialRefused hdialed =>
    rw [hdialed] at hphase
    exact ⟨hn.room, hn.event, hphase.2.2⟩
  | @greeted _ _ conn addr name hgreet hintro =>
    obtain ⟨haddr, hp⟩ := ha (addr, name) hintro conn (by simp only [greeting, hgreet]; rfl)
    have hwritten := hn.room.write conn (hn.room.buildPeerList ht (hi rfl))
    exact ⟨hwritten.handleHello ht (hi rfl) haddr hp, hn.event, trivial⟩
  | greetingFailed => exact ⟨hn.room, hn.event, trivial⟩
  | listDone => exact ⟨hn.room, hn.event, trivial⟩
  | listNext hlist =>
    rw [hlist] at hphase
    exact ⟨hn.room.handleReceivedPeer _, hn.event, fun info hinfo =>
      hphase info (List.mem_cons_of_mem _ hinfo)⟩
  | @listDial info rest p addr hlist hdial hp =>
    rw [hlist] at hphase
    obtain ⟨hkey, haddr, hlt⟩ := Room.dial_of_handleReceivedPeer hdial
    obtain ⟨addr', hkey', haddr', hp'⟩ := hphase info (List.mem_cons_self)
    obtain rfl := Option.some.inj (haddr.symm.trans haddr')
    obtain rfl := Option.some.inj (hkey.symm.trans hkey')
    exact ⟨hn.room.handleReceivedPeer info, hn.event, rfl, hp', hn.room.ourId ▸ hlt,
      fun info hinfo => hphase info (List.mem_cons_of_mem _ hinfo)⟩
  | disconnected hidle hevents =>
    have hjoined : R i := hi (by simp only [Node.joined, hidle])
    exact ⟨hn.room.handlePeerDisconnected.broadcastPeerList ht hjoined, hn.tail hevents, hphase⟩
  | duplicate _ hevents => exact ⟨hn.room, hn.tail hevents, hphase⟩
  | incoming _ hevents => exact ⟨hn.room, hn.tail hevents, trivial⟩
  | @peerList sender peers events _ hevents =>
    have hhead : Genuine t R (.peerList peers) :=
      hn.event sender _ (hevents ▸ List.mem_cons_self)
    exact ⟨hn.room, hn.tail hevents, hhead⟩
  | feedback _ hevents => exact ⟨{ hn.room with }, hn.tail hevents, hphase⟩
  | unexpected _ hevents => exact ⟨hn.room, hn.tail hevents, hphase⟩
  | tick hidle =>
    have hjoined : R i := hi (by simp only [Node.joined, hidle])
    exact ⟨hn.room.broadcastPeerList ht hjoined, hn.event, hphase⟩
  | stop => exact ⟨hn.room.cleanupAllPeers, hn.event, trivial⟩
  | accept q =>
    refine ⟨hn.room, fun sender msg hmem => ?_, hphase⟩
    rcases List.mem_append.mp hmem with hold | hnew
    · exact hn.event sender msg hold
    · cases List.mem_singleton.mp hnew
  | task _ hran => exact hn.ran ha hran
  | close => exact ⟨hn.room, hn.event, hphase⟩
  | cancel => exact ⟨hn.room, hn.event, hphase⟩
  | readdress => exact ⟨{ hn.room with }, hn.event, hphase⟩
  | compose => exact ⟨{ hn.room with }, hn.event, hphase⟩

end Node

end Meshconf.Mesh
