import Meshconf.Contacts.Symmetry
import Meshconf.Mesh.Agreement

/-! # Convergence to a full mesh

As long as nothing fails, a room that has handled a peer list has an entry for every
larger key on it, and entries are mutual. So rooms that have heard of all neighbours of
their neighbours are their neighbours as well.
-/

namespace Meshconf.Mesh

open Control Transition

variable {Id : Type*} [LinearOrder Id] {t : Texts Id}

/-- The list names all peers of the room. -/
def Room.ListedIn (t : Texts Id) (r : Room Id) (peers : List PeerInfo) : Prop :=
  ∀ p ∈ r.peers.keys, ∃ info ∈ peers, t.parsePublicKey info.peerId = some p

instance (t : Texts Id) (r : Room Id) (peers : List PeerInfo) : Decidable (r.ListedIn t peers) :=
  inferInstanceAs (Decidable (∀ p ∈ r.peers.keys, ∃ info ∈ peers, _))

/-- A list that was built when the room had its present peers names all of them. -/
theorem Room.listedIn_of_buildPeerList (ht : t.RoundTrip) {r r' : Room Id} {peers : List PeerInfo}
    (hkeys : ∀ p ∈ r'.peers.keys, p ∈ r.peers.keys) (h : r.buildPeerList t = .peerList peers) :
    r'.ListedIn t peers := by
  rintro p hp
  obtain rfl := ControlMessage.peerList.inj h
  obtain ⟨e, he, rfl⟩ := List.mem_map.mp (hkeys p hp)
  exact ⟨_, List.mem_cons_of_mem _ (List.mem_map_of_mem he), ht.key e.1⟩

namespace Node

/-- No connection breaks, and nobody leaves. -/
def Peaceful : Action Id → Prop
  | .close _ => False
  | .cancel => False
  | .task _ .readError => False
  | _ => True

instance : (a : Action Id) → Decidable (Peaceful a)
  | .connect _ => .isTrue trivial
  | .reply _ => .isTrue trivial
  | .greeted _ _ => .isTrue trivial
  | .nextPeer => .isTrue trivial
  | .receive => .isTrue trivial
  | .tick => .isTrue trivial
  | .stop => .isTrue trivial
  | .accept _ => .isTrue trivial
  | .task _ (.message _) => .isTrue trivial
  | .task _ .readError => .isFalse id
  | .task _ .closed => .isTrue trivial
  | .task _ (.report _ _) => .isTrue trivial
  | .task _ (.acceptBi _) => .isTrue trivial
  | .task _ (.path _) => .isTrue trivial
  | .task _ .exit => .isTrue trivial
  | .close _ => .isFalse id
  | .cancel => .isFalse id
  | .readdress _ => .isTrue trivial
  | .compose => .isTrue trivial

/-- Nothing has ended so far. -/
structure Calm (n : Node Id) : Prop where
  cancelled : n.cancelled = false
  closed : n.closed = []
  events : disconnects n.events = []

variable {n n' : Node Id} {a : Action Id}

theorem Calm.run (endpoint : EndpointAddr Id) (media : MediaResources)
    (initial : Option (EndpointAddr Id)) : (run (Room.new endpoint media) initial).Calm := by
  cases initial <;> exact ⟨rfl, rfl, rfl⟩

theorem Calm.tail (hn : n.Calm) {e : RoomEvent Id} {events : List (RoomEvent Id)}
    (h : n.events = e :: events) : disconnects [e] = [] ∧ disconnects events = [] := by
  have hevents := hn.events
  rw [h, ← List.singleton_append, disconnects_append] at hevents
  exact List.append_eq_nil_iff.mp hevents

theorem Calm.step (hn : n.Calm) (ha : Peaceful a) (h : n.step t a = some n') : n'.Calm := by
  cases stepped_of_step h with
  | disconnected _ hevents => exact ⟨hn.cancelled, hn.closed, (hn.tail hevents).2⟩
  | duplicate _ hevents => exact ⟨hn.cancelled, hn.closed, (hn.tail hevents).2⟩
  | incoming _ hevents => exact ⟨hn.cancelled, hn.closed, (hn.tail hevents).2⟩
  | peerList _ hevents => exact ⟨hn.cancelled, hn.closed, (hn.tail hevents).2⟩
  | feedback _ hevents => exact ⟨hn.cancelled, hn.closed, (hn.tail hevents).2⟩
  | unexpected _ hevents => exact ⟨hn.cancelled, hn.closed, (hn.tail hevents).2⟩
  | accept p =>
    refine ⟨hn.cancelled, hn.closed, ?_⟩
    rw [disconnects_append, hn.events]
    rfl
  | task htask hran =>
    cases hran with
    | message msg =>
      refine ⟨hn.cancelled, hn.closed, ?_⟩
      rw [disconnects_append, hn.events]
      rfl
    | readError => exact absurd ha id
    | closed _ hclosed =>
      rw [hn.closed] at hclosed
      cases hclosed
    | _ => exact ⟨hn.cancelled, hn.closed, hn.events⟩
  | close => exact absurd ha id
  | cancel => exact absurd ha id
  | _ => exact ⟨hn.cancelled, hn.closed, hn.events⟩

theorem Calm.not_forgets (hn : n.Calm) (h : n.step t a = some n') : ¬ n.Forgets a := by
  intro hforgets
  cases stepped_of_step h with
  | stop _ hcancelled =>
    rw [hn.cancelled] at hcancelled
    cases hcancelled
  | disconnected _ hevents => cases (hn.tail hevents).1
  | duplicate _ hevents => exact hforgets (by rw [hevents]; exact (hn.tail hevents).1)
  | incoming _ hevents => exact hforgets (by rw [hevents]; exact (hn.tail hevents).1)
  | peerList _ hevents => exact hforgets (by rw [hevents]; exact (hn.tail hevents).1)
  | feedback _ hevents => exact hforgets (by rw [hevents]; exact (hn.tail hevents).1)
  | unexpected _ hevents => exact hforgets (by rw [hevents]; exact (hn.tail hevents).1)
  | _ => exact hforgets

/-- An entry that is passed over without a dial is ours, known, or smaller. -/
theorem reached_of_nextPeer {info : PeerInfo} {rest : List PeerInfo} {p : Id}
    {addr : EndpointAddr Id} (hphase : n.phase = .peerList (info :: rest))
    (h : n.step t .nextPeer = some n')
    (hnext : n'.phase = .peerList rest) (hkey : t.parsePublicKey info.peerId = some p)
    (haddr : t.stringToAddr info.addr = some addr) (hlt : n.room.ourId < p) :
    p ∈ n.room.peers := by
  by_contra hp
  have hlookup : n.room.peers.lookup p = none := AList.lookup_eq_none.mpr hp
  have hreceived : n.room.handleReceivedPeer t info = (n.room, some (p, addr)) := by
    unfold Room.handleReceivedPeer
    simp [hkey, hlt.ne', hlookup, haddr, shouldInitiate, hlt]
  simp only [Node.step, Node.nextPeer, hphase, hreceived, if_neg hp] at h
  cases Option.some.inj h
  cases hnext

end Node

namespace Network

/-- No dial and no connection fails, and no room leaves. -/
def Undisturbed (net : Network Id) : Action Id → Prop
  | .connectFails _ => False
  | .stray _ _ => False
  | .hello _ answered => answered = true
  | .helloFails _ => False
  | .replyFails i => net.Dropped i
  | .run _ a => Node.Peaceful a
  | _ => True

instance (net : Network Id) (i : Id) : Decidable (net.Dropped i) :=
  inferInstanceAs (Decidable (∃ n ∈ net.node i, ∃ conn ∈ n.awaiting, ∃ l ∈ net.links,
    l.DialedAs i conn.serial ∧ l.reply = none ∧ ∃ s ∈ l.acceptorSerial,
      ∀ m ∈ net.node l.acceptor, (s, l.dialer) ∉ m.party.queue))

instance (net : Network Id) (a : Action Id) : Decidable (net.Undisturbed a) :=
  match a with
  | .start _ _ _ => .isTrue trivial
  | .connect _ => .isTrue trivial
  | .connectFails _ => .isFalse id
  | .accept _ _ => .isTrue trivial
  | .stray _ _ => .isFalse id
  | .hello _ answered => inferInstanceAs (Decidable (answered = true))
  | .helloFails _ => .isFalse id
  | .reply _ => .isTrue trivial
  | .replyFails i => inferInstanceAs (Decidable (net.Dropped i))
  | .message _ _ _ => .isTrue trivial
  | .run _ a => inferInstanceAs (Decidable (Node.Peaceful a))

variable {net net' : Network Id} {i : Id} {n n' : Node Id}

/-- Had the entry of a list a larger key, the room of `i` has an entry for it. -/
def Reached (t : Texts Id) (net : Network Id) (i : Id) (info : PeerInfo) : Prop :=
  ∀ p, t.parsePublicKey info.peerId = some p → i < p → net.contacts.entry i p ≠ none

/-- The list that the room of `i` handles continues with `rest`. -/
def Continues (t : Texts Id) (net : Network Id) (i : Id) (rest : List PeerInfo) : Prop :=
  ∃ k before, net.handling i = some (k, before ++ rest) ∧ ∀ info ∈ before, net.Reached t i info

/-- How far a list has been handled in a phase. -/
def Handling (t : Texts Id) (net : Network Id) (i : Id) : Phase Id → Prop
  | .peerList rest => net.Continues t i rest
  | .dial p _ rest => ∃ info, t.parsePublicKey info.peerId = some p ∧
      net.Continues t i (info :: rest)
  | .dialed p _ _ rest => ∃ info, t.parsePublicKey info.peerId = some p ∧
      net.Continues t i (info :: rest)
  | _ => True

theorem Continues.mono (hreached : ∀ info, net.Reached t i info → net'.Reached t i info)
    (hsame : net'.handling i = net.handling i) {rest : List PeerInfo}
    (h : net.Continues t i rest) : net'.Continues t i rest := by
  obtain ⟨k, before, hhandling, hbefore⟩ := h
  exact ⟨k, before, hsame.trans hhandling, fun info hinfo => hreached info (hbefore info hinfo)⟩

theorem Handling.mono (hreached : ∀ info, net.Reached t i info → net'.Reached t i info)
    (hsame : net'.handling i = net.handling i) {phase : Phase Id} (h : net.Handling t i phase) :
    net'.Handling t i phase := by
  cases phase with
  | peerList rest => exact Continues.mono hreached hsame h
  | dial p addr rest =>
    obtain ⟨info, hkey, hcont⟩ := h
    exact ⟨info, hkey, hcont.mono hreached hsame⟩
  | dialed p conn addr rest =>
    obtain ⟨info, hkey, hcont⟩ := h
    exact ⟨info, hkey, hcont.mono hreached hsame⟩
  | _ => trivial

/-- The next entry of the list has been handled. -/
theorem Continues.next {info : PeerInfo} {rest : List PeerInfo}
    (h : net.Continues t i (info :: rest)) (hinfo : net.Reached t i info) :
    net.Continues t i rest := by
  obtain ⟨k, before, hhandling, hbefore⟩ := h
  refine ⟨k, before ++ [info], by simpa using hhandling, fun info' hmem => ?_⟩
  rcases List.mem_append.mp hmem with hold | hnew
  · exact hbefore info' hold
  · exact List.mem_singleton.mp hnew ▸ hinfo

/-- What holds as long as nothing fails. -/
structure Converging (t : Texts Id) (net : Network Id) : Prop where
  honest : net.Honest t
  entries : net.contacts.Mutual
  calm : ∀ i n, net.node i = some n → n.Calm
  handling : ∀ i n, net.node i = some n → net.Handling t i n.phase
  handled : ∀ e ∈ net.handled, ∀ info ∈ e.2.2, net.Reached t e.1 info

namespace Converging

theorem not_dropped (hn : net.Converging t) : ¬ net.Dropped i := by
  rintro ⟨n, hi, conn, hconn, l, hl, hdialed, hreply, s, hs, hgone⟩
  have hmem := hn.entries.queued l hl hreply s hs
  cases hm : net.node l.acceptor with
  | none => simp [contacts, hm] at hmem
  | some m =>
    exact hgone m hm (contacts_queue hm ▸ hmem)

/-- An undisturbed step is no fault. -/
theorem moves (ht : t.RoundTrip) (hn : net.Converging t) {a : Action Id} (ha : net.Undisturbed a)
    (h : Stepped t net a net') :
    net'.contacts = net.contacts ∨ net.contacts.Step net'.contacts := by
  rcases hn.honest.moves ht h with hsame | hstep | ⟨hdisturbed, -⟩
  · exact .inl hsame
  · exact .inr hstep
  · cases h with
    | connectFails => exact absurd ha id
    | stray => exact absurd ha id
    | hello => cases hdisturbed.symm.trans ha
    | helloFails => exact absurd ha id
    | replyFails => exact absurd ha hdisturbed
    | @run i n n' a hi hlocal h =>
      obtain ⟨m, hm, hforgets⟩ := hdisturbed
      obtain rfl : m = n := Option.mem_unique hm hi
      exact absurd hforgets ((hn.calm i m hi).not_forgets h)
    | _ => exact absurd hdisturbed id

theorem reached_mono (h : net'.contacts = net.contacts ∨ net.contacts.Step net'.contacts)
    (i : Id) (info : PeerInfo) (hinfo : net.Reached t i info) : net'.Reached t i info := by
  rintro p hkey hlt
  rcases h with hsame | hstep
  · exact hsame ▸ hinfo p hkey hlt
  · exact hstep.entry_ne_none (hinfo p hkey hlt)

theorem mutual_of_moves (hn : net.Converging t)
    (h : net'.contacts = net.contacts ∨ net.contacts.Step net'.contacts) :
    net'.contacts.Mutual := by
  rcases h with hsame | hstep
  · exact hsame ▸ hn.entries
  · exact hn.entries.step hn.honest.sound hstep

/-- One room has taken a step. -/
theorem set (hn : net.Converging t) (hi : net.node i = some n) {a : Mesh.Action Id}
    (ha : Node.Peaceful a) (h : n.step t a = some n') (hhonest : net'.Honest t)
    (hmoves : net'.contacts = net.contacts ∨ net.contacts.Step net'.contacts)
    (hnode : net'.node = (net.set i n').node)
    (hothers : ∀ j, j ≠ i → net'.handling j = net.handling j)
    (hhandling : net'.Handling t i n'.phase)
    (hhandled : ∀ e ∈ net'.handled, e ∈ net.handled ∨ ∀ info ∈ e.2.2, net'.Reached t e.1 info) :
    net'.Converging t := by
  constructor
  · exact hhonest
  · exact hn.mutual_of_moves hmoves
  · rintro j m hm
    rcases node_cases hnode hm with ⟨rfl, rfl⟩ | ⟨-, hm⟩
    · exact (hn.calm j n hi).step ha h
    · exact hn.calm j m hm
  · rintro j m hm
    rcases node_cases hnode hm with ⟨rfl, rfl⟩ | ⟨hj, hm⟩
    · exact hhandling
    · exact (hn.handling j m hm).mono (reached_mono hmoves j) (hothers j hj)
  · rintro e he
    rcases hhandled e he with hold | hnew
    · exact fun info hinfo => reached_mono hmoves e.1 info (hn.handled e hold info hinfo)
    · exact hnew

/-- A step that keeps the phase, or leads into one without a list. -/
theorem set_phase (hn : net.Converging t) (hi : net.node i = some n) {a : Mesh.Action Id}
    (ha : Node.Peaceful a) (h : n.step t a = some n') (hhonest : net'.Honest t)
    (hmoves : net'.contacts = net.contacts ∨ net.contacts.Step net'.contacts)
    (hnode : net'.node = (net.set i n').node) (hhandling : net'.handling = net.handling)
    (hhandled : net'.handled = net.handled)
    (hphase : net.Handling t i n.phase → net.Handling t i n'.phase) : net'.Converging t := by
  refine hn.set hi ha h hhonest hmoves hnode (fun j _ => by rw [hhandling]) ?_ ?_
  · exact (hphase (hn.handling i n hi)).mono (reached_mono hmoves i) (by rw [hhandling])
  · exact fun e he => .inl (hhandled ▸ he)

/-- The entry of a list that is passed over has been reached. -/
theorem reached_of_listNext (hn : net.Converging t) (hi : net.node i = some n)
    {info : PeerInfo} {rest : List PeerInfo} (hphase : n.phase = .peerList (info :: rest))
    (h : n.step t .nextPeer = some n') (hnext : n'.phase = .peerList rest) :
    net.Reached t i info := by
  rintro p hkey hlt
  have hhonest := (hn.honest.node i n hi).phase
  rw [hphase] at hhonest
  obtain ⟨addr, -, haddr, -⟩ := hhonest info List.mem_cons_self
  have hour := (hn.honest.node i n hi).room.ourId
  have hp := Node.reached_of_nextPeer hphase h hnext hkey haddr (hour ▸ hlt)
  rw [contacts_entry hi, ne_eq, Option.map_eq_none_iff, Room.connOf_eq_none, not_not]
  exact hp

theorem note_receive (h : n.nextList = none) : net.note i n .receive = net := by
  simp [note, h]

theorem note_reply {msg : ControlMessage} (h : n.joinList msg = none) :
    net.note i n (.reply (some msg)) = net := by
  simp [note, h]

theorem run (hn : net.Converging t) {a : Mesh.Action Id} (ha : Node.Peaceful a)
    (hi : net.node i = some n) (hlocal : isLocal a) (h : n.step t a = some n')
    (hhonest : ((net.set i n').note i n a).Honest t)
    (hmoves : ((net.set i n').note i n a).contacts = net.contacts ∨
      net.contacts.Step ((net.set i n').note i n a).contacts) :
    ((net.set i n').note i n a).Converging t := by
  have hhandling := hn.handling i n hi
  cases Node.stepped_of_step h with
  | listDone hphase =>
    rw [hphase] at hhandling
    obtain ⟨k, before, hlist, hbefore⟩ := hhandling
    have hdone : n.listDone = true := by simp only [Node.listDone, hphase]
    simp only [note, hdone, if_true] at hhonest hmoves ⊢
    refine hn.set hi ha h hhonest hmoves rfl (fun j hj => by simp [Network.set, hj]) trivial ?_
    rintro e he
    simp only [Network.set, hlist, List.append_nil, Option.toList_some, List.map_cons,
      List.map_nil] at he
    rcases List.mem_append.mp he with hold | hnew
    · exact .inl hold
    · obtain rfl := List.mem_singleton.mp hnew
      exact .inr fun info hinfo => reached_mono hmoves i info (hbefore info hinfo)
  | @listNext info rest hphase =>
    have hdone : n.listDone = false := by simp only [Node.listDone, hphase]
    simp only [note, hdone, Bool.false_eq_true, if_false] at hhonest hmoves ⊢
    refine hn.set_phase hi ha h hhonest hmoves rfl rfl rfl fun hcont => ?_
    rw [hphase] at hcont
    exact Continues.next hcont (hn.reached_of_listNext hi hphase h rfl)
  | @listDial info rest p addr hphase hdial =>
    have hdone : n.listDone = false := by simp only [Node.listDone, hphase]
    simp only [note, hdone, Bool.false_eq_true, if_false] at hhonest hmoves ⊢
    refine hn.set_phase hi ha h hhonest hmoves rfl rfl rfl fun hcont => ?_
    rw [hphase] at hcont
    exact ⟨info, (Room.dial_of_handleReceivedPeer hdial).1, hcont⟩
  | disconnected _ hevents => cases ((hn.calm i n hi).tail hevents).1
  | duplicate hphase hevents =>
    rw [note_receive (by simp only [Node.nextList, hphase, hevents])] at hhonest hmoves ⊢
    exact hn.set_phase hi ha h hhonest hmoves rfl rfl rfl id
  | incoming hphase hevents =>
    rw [note_receive (by simp only [Node.nextList, hphase, hevents])] at hhonest hmoves ⊢
    exact hn.set_phase hi ha h hhonest hmoves rfl rfl rfl fun _ => trivial
  | @peerList sender peers events hphase hevents =>
    have hlist : n.nextList = some (sender, peers) := by
      simp only [Node.nextList, hphase, hevents]
    simp only [note, hlist, Option.some_or] at hhonest hmoves ⊢
    refine hn.set hi ha h hhonest hmoves rfl (fun j hj => by simp [Network.set, hj]) ?_
      fun e he => .inl he
    exact ⟨sender, [], by simp, fun info hinfo => by cases hinfo⟩
  | feedback hphase hevents =>
    rw [note_receive (by simp only [Node.nextList, hphase, hevents])] at hhonest hmoves ⊢
    exact hn.set_phase hi ha h hhonest hmoves rfl rfl rfl id
  | unexpected hphase hevents =>
    rw [note_receive (by simp only [Node.nextList, hphase, hevents])] at hhonest hmoves ⊢
    exact hn.set_phase hi ha h hhonest hmoves rfl rfl rfl id
  | tick => exact hn.set_phase hi ha h hhonest hmoves rfl rfl rfl id
  | stop => exact hn.set_phase hi ha h hhonest hmoves rfl rfl rfl fun _ => trivial
  | task _ hran =>
    exact hn.set_phase hi ha h hhonest hmoves rfl rfl rfl fun hcont => hran.phase ▸ hcont
  | close => exact absurd ha id
  | cancel => exact absurd ha id
  | readdress => exact hn.set_phase hi ha h hhonest hmoves rfl rfl rfl id
  | compose => exact hn.set_phase hi ha h hhonest hmoves rfl rfl rfl id
  | _ => cases hlocal

theorem reply (hn : net.Converging t) (hi : net.node i = some n) {peers : List PeerInfo}
    (h : n.step t (.reply (some (.peerList peers))) = some n')
    (hhonest : ((net.set i n').note i n (.reply (some (.peerList peers)))).Honest t)
    (hmoves : ((net.set i n').note i n (.reply (some (.peerList peers)))).contacts = net.contacts ∨
      net.contacts.Step ((net.set i n').note i n (.reply (some (.peerList peers)))).contacts) :
    ((net.set i n').note i n (.reply (some (.peerList peers)))).Converging t := by
  have hhandling := hn.handling i n hi
  cases Node.stepped_of_step h with
  | @joined _ conn addr peers' hphase hpeers =>
    obtain rfl : peers = peers' := Option.some.inj hpeers
    have hlist : n.joinList (.peerList peers) = some (conn.remoteId, peers) := by
      simp only [Node.joinList, hphase]
    simp only [note, hlist, Option.some_or] at hhonest hmoves ⊢
    refine hn.set (a := .reply _) hi trivial h hhonest hmoves rfl
      (fun j hj => by simp [Network.set, hj]) ?_ fun e he => .inl he
    exact ⟨conn.remoteId, [], by simp, fun info hinfo => by cases hinfo⟩
  | joinRefused _ hpeers => cases hpeers
  | @dialed _ p conn addr rest peers' hphase hpeers =>
    rw [hphase] at hhandling
    obtain ⟨info, hkey, hcont⟩ := hhandling
    have hlist : n.joinList (.peerList peers) = none := by simp only [Node.joinList, hphase]
    rw [note_reply hlist] at hhonest hmoves ⊢
    refine hn.set (a := .reply _) hi trivial h hhonest hmoves rfl (fun j hj => rfl) ?_
      fun e he => .inl he
    refine (hcont.mono (reached_mono hmoves i) rfl).next fun q hq _ => ?_
    obtain rfl : p = q := Option.some.inj (hkey.symm.trans hq)
    rw [contacts_entry (Function.update_self i _ net.node), Room.connOf_broadcastPeerList,
      Room.connOf_entered]
    simp
  | dialRefused _ hpeers => cases hpeers

theorem init : ({} : Network Id).Converging t := by
  constructor
  · exact .init
  · exact .init
  · exact fun i n hi => by cases hi
  · exact fun i n hi => by cases hi
  · exact fun e he => by cases he

theorem start (hn : net.Converging t) {endpoint : EndpointAddr Id} {media : MediaResources}
    {ticket : Option (EndpointAddr Id)}
    (hhonest : ({ net.set endpoint.id (.run (.new endpoint media) ticket) with
      started := net.started ++ [endpoint.id] } : Network Id).Honest t)
    (hmoves : ({ net.set endpoint.id (.run (.new endpoint media) ticket) with
      started := net.started ++ [endpoint.id] } : Network Id).contacts = net.contacts ∨
      net.contacts.Step ({ net.set endpoint.id (.run (.new endpoint media) ticket) with
        started := net.started ++ [endpoint.id] } : Network Id).contacts) :
    Converging t { net.set endpoint.id (.run (.new endpoint media) ticket) with
      started := net.started ++ [endpoint.id] } := by
  constructor
  · exact hhonest
  · exact hn.mutual_of_moves hmoves
  · rintro j m hm
    rcases node_cases rfl hm with ⟨-, rfl⟩ | ⟨-, hm⟩
    · exact .run endpoint media ticket
    · exact hn.calm j m hm
  · rintro j m hm
    rcases node_cases rfl hm with ⟨-, rfl⟩ | ⟨-, hm⟩
    · cases ticket <;> trivial
    · exact (hn.handling j m hm).mono (reached_mono hmoves j) rfl
  · exact fun e he info hinfo => reached_mono hmoves e.1 info (hn.handled e he info hinfo)

theorem step (ht : t.RoundTrip) (hn : net.Converging t) {a : Action Id} (ha : net.Undisturbed a)
    (hs : net.step t a = some net') : net'.Converging t := by
  have hhonest := hn.honest.step ht hs
  have h := stepped_of_step hs
  have hmoves := hn.moves ht ha h
  cases h with
  | start hfresh hticket => exact hn.start hhonest hmoves
  | @connect i n n' m addr hi haddr hm hacc h =>
    refine hn.set_phase (a := .connect true) hi trivial h hhonest hmoves (by rfl) rfl rfl
      fun hcont => ?_
    cases Node.stepped_of_step h with
    | joinConnected => trivial
    | dialConnected hphase =>
      rw [hphase] at hcont
      exact hcont
  | connectFails => exact absurd ha id
  | @accept l m m' hl hline hm h =>
    refine hn.set_phase (a := .accept _) hm trivial h hhonest hmoves (by rfl) rfl rfl
      fun hcont => ?_
    cases Node.stepped_of_step h with
    | accept => exact hcont
  | stray => exact absurd ha id
  | @hello i n n' conn l answered hi hconn hl hacc h =>
    refine hn.set_phase (a := .greeted _ _) hi trivial h hhonest hmoves (by rfl) rfl rfl
      fun _ => ?_
    cases Node.stepped_of_step h with
    | greeted => trivial
    | greetingFailed => trivial
  | helloFails => exact absurd ha id
  | @reply i n n' conn l msg hi hconn hl hdialed hmsg h =>
    obtain ⟨peers, rfl, -⟩ := hn.honest.reply l hl msg hmsg
    exact hn.reply hi h hhonest hmoves
  | replyFails => exact absurd ha hn.not_dropped
  | message hi _ _ h =>
    refine hn.set_phase (a := .task _ (.message _)) hi trivial h hhonest hmoves (by rfl) rfl rfl
      fun hcont => ?_
    cases Node.stepped_of_step h with
    | task _ hran => exact hran.phase ▸ hcont
  | run hi hlocal h => exact hn.run ha hi hlocal h hhonest hmoves

end Converging

/-! ## Neighbours of neighbours -/

/-- `x` has a session with `y`. -/
def Adjacent (net : Network Id) (x y : Id) : Prop := ∃ n ∈ net.node x, y ∈ n.room.peers

/-- The room has handled a list of each of its neighbours that names all of theirs. -/
def Informed (t : Texts Id) (net : Network Id) (i : Id) (n : Node Id) : Prop :=
  ∀ k ∈ n.room.peers.keys, ∃ m ∈ net.node k, ∃ e ∈ net.handled, e.1 = i ∧ e.2.1 = k ∧
    m.room.ListedIn t e.2.2

instance (t : Texts Id) (net : Network Id) (i : Id) (n : Node Id) :
    Decidable (net.Informed t i n) :=
  inferInstanceAs (Decidable (∀ k ∈ n.room.peers.keys, ∃ m ∈ net.node k, ∃ e ∈ net.handled,
    e.1 = i ∧ e.2.1 = k ∧ m.room.ListedIn t e.2.2))

/--
No handshake is in progress, and every room has handled, from each of its neighbours, a list that
names all present neighbours of the sender, as one does that was built since the last of them came.
-/
def Settled (t : Texts Id) (net : Network Id) : Prop :=
  ∀ i ∈ net.started, ∀ n ∈ net.node i,
    n.dialing = none ∧ n.awaiting = none ∧ n.greeting = none ∧ net.Informed t i n

instance (t : Texts Id) (net : Network Id) : Decidable (net.Settled t) :=
  inferInstanceAs (Decidable (∀ i ∈ net.started, ∀ n ∈ net.node i,
    n.dialing = none ∧ n.awaiting = none ∧ n.greeting = none ∧ net.Informed t i n))

/-- Every component of the graph of sessions is complete. -/
def FullMesh (net : Network Id) : Prop :=
  ∀ x y, x ≠ y → Relation.EqvGen net.Adjacent x y → net.Adjacent x y

instance (net : Network Id) (x y : Id) : Decidable (net.Adjacent x y) :=
  inferInstanceAs (Decidable (∃ n ∈ net.node x, y ∈ n.room.peers))

variable {x y z : Id}

theorem adjacent_iff : net.Adjacent x y ↔ net.contacts.entry x y ≠ none := by
  cases hx : net.node x with
  | none => simp [Adjacent, contacts, hx]
  | some n =>
    rw [contacts_entry hx, ne_eq, Option.map_eq_none_iff, Room.connOf_eq_none, not_not]
    simp [Adjacent, hx]

namespace Converging

theorem adjacent_symm (hn : net.Converging t) (hs : net.Settled t) (h : net.Adjacent x y) :
    net.Adjacent y x := by
  rw [adjacent_iff] at h ⊢
  refine hn.entries.symm (fun i => ?_) h
  cases hi : net.node i with
  | none => simp [contacts, hi]
  | some n =>
    obtain ⟨-, hawaiting, -⟩ := hs i (hn.honest.started_of_node hi) n hi
    simp [contacts, hi, Node.party, hawaiting]

/-- The smaller of two neighbours of a third room has dialled the larger one. -/
theorem adjacent_of_lt (hn : net.Converging t) (hs : net.Settled t) (hxy : net.Adjacent x y)
    (hyz : net.Adjacent y z) (hlt : x < z) : net.Adjacent x z := by
  obtain ⟨n, hx, hy⟩ := hxy
  obtain ⟨m, hm, hz⟩ := hyz
  obtain ⟨-, -, -, hinformed⟩ := hs x (hn.honest.started_of_node hx) n hx
  obtain ⟨m', hm', e, he, rfl, -, hlisted⟩ := hinformed y (AList.mem_keys.mpr hy)
  obtain rfl : m' = m := Option.mem_unique hm' hm
  obtain ⟨info, hinfo, hkey⟩ := hlisted z (AList.mem_keys.mpr hz)
  exact adjacent_iff.mpr (hn.handled e he info hinfo z hkey hlt)

theorem adjacent_trans (hn : net.Converging t) (hs : net.Settled t) (hxy : net.Adjacent x y)
    (hyz : net.Adjacent y z) (hxz : x ≠ z) : net.Adjacent x z := by
  rcases lt_or_gt_of_ne hxz with hlt | hlt
  · exact hn.adjacent_of_lt hs hxy hyz hlt
  · apply hn.adjacent_symm hs
    exact hn.adjacent_of_lt hs (hn.adjacent_symm hs hyz) (hn.adjacent_symm hs hxy) hlt

theorem fullMesh (hn : net.Converging t) (hs : net.Settled t) : net.FullMesh := by
  have hconnected : ∀ x y, Relation.EqvGen net.Adjacent x y → x = y ∨ net.Adjacent x y := by
    rintro x y h
    induction h with
    | rel x y h => exact .inr h
    | refl x => exact .inl rfl
    | symm x y _ ih => exact ih.imp Eq.symm (hn.adjacent_symm hs)
    | trans x y z _ _ ih ih' =>
      rcases ih with rfl | hxy
      · exact ih'
      · rcases ih' with rfl | hyz
        · exact .inr hxy
        · by_cases hxz : x = z
          · exact .inl hxz
          · exact .inr (hn.adjacent_trans hs hxy hyz hxz)
  exact fun x y hxy h => (hconnected x y h).resolve_left hxy

end Converging

/-- In a run in which nothing fails, the rooms form full meshes whenever all news has spread. -/
theorem fullMesh_of_settled (ht : t.RoundTrip) {as : List (Action Id)}
    (h : Run (step t) Undisturbed {} as net) (hs : net.Settled t) : net.FullMesh := by
  have hn : net.Converging t := h.invariant (P := Converging t)
    (fun _ _ _ hn ha hs => hn.step ht ha hs) .init
  exact hn.fullMesh hs

/-! ## Three rooms -/

def infoOf (p : ℕ) : PeerInfo :=
  { peerId := unaryTexts.peerIdToString p, addr := unaryTexts.addrToString ⟨p, []⟩, name := "" }

def bare : MediaResources := ⟨false, false, false, ""⟩

/-- A handshake between the dialer `i` and the acceptor `j`. -/
def handshake (i serial j : ℕ) : List (Action ℕ) :=
  [.connect i, .accept i serial, .run j .receive, .hello j true, .reply i]

/-- A list of `keys` is read by the task at `k` and handled. -/
def hear (i k : ℕ) (keys : List ℕ) : List (Action ℕ) :=
  [.message i k (.peerList (keys.map infoOf)), .run i .receive] ++
    List.replicate (keys.length + 1) (.run i .nextPeer)

/-- Rooms 1 and 2 join room 0; its list leads room 1 to room 2. -/
def trio : List (Action ℕ) :=
  [.start ⟨0, []⟩ bare none, .start ⟨1, []⟩ bare (some ⟨0, []⟩),
    .start ⟨2, []⟩ bare (some ⟨0, []⟩)] ++
  handshake 1 0 0 ++ [.run 1 .nextPeer, .run 1 .nextPeer] ++
  handshake 2 0 0 ++ [.run 2 .nextPeer, .run 2 .nextPeer, .run 2 .nextPeer] ++
  [.message 1 7 (.peerList ([0, 2, 1].map infoOf)), .run 1 .receive, .run 1 .nextPeer,
    .run 1 .nextPeer] ++
  handshake 1 1 2 ++ [.run 1 .nextPeer, .run 1 .nextPeer] ++
  hear 0 0 [1, 2, 0] ++ hear 0 8 [2, 1, 0] ++ hear 2 7 [0, 2, 1] ++ hear 2 8 [1, 2, 0] ++
  hear 1 15 [2, 1, 0]

theorem fullMesh_trio : ∃ net : Network ℕ, net.started = [0, 1, 2] ∧ net.FullMesh ∧
    net.Adjacent 1 2 := by
  obtain ⟨net, hnet, hresult⟩ := Option.map_eq_some_iff.mp
    (by decide +kernel : (exec (guarded (step unaryTexts) Undisturbed) {} trio).map
      (fun net => (net.started, decide (net.Settled unaryTexts), decide (net.Adjacent 1 2))) =
        some ([0, 1, 2], true, true))
  obtain ⟨hstarted, hsettled, hadjacent⟩ : net.started = [0, 1, 2] ∧ net.Settled unaryTexts ∧
      net.Adjacent 1 2 := by simpa using hresult
  exact ⟨net, hstarted, fullMesh_of_settled roundTrip_unaryTexts (run_of_guarded hnet) hsettled,
    hadjacent⟩

end Network

end Meshconf.Mesh
