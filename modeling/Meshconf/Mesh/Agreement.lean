import Meshconf.Mesh.Handshakes

/-! # Agreement on connections

Two rooms with an entry for each other run their sessions on the two ends of one
connection, however often they have dialled, missed or dropped each other before.
-/

namespace Meshconf.Mesh

open Control Transition

variable {Id : Type*} [LinearOrder Id] {t : Texts Id}

namespace Network

variable {net : Network Id}

/-- Entries of two rooms for each other are on the two ends of one connection. -/
def Agreeing (net : Network Id) : Prop :=
  ∀ a b n m st st', net.node a = some n → net.node b = some m →
    n.room.peers.lookup b = some st → m.room.peers.lookup a = some st' →
    net.farEnd a st.conn = some (b, st'.conn) ∧ net.farEnd b st'.conn = some (a, st.conn)

theorem honest_of_reachable (ht : t.RoundTrip) (h : Reachable (step t) {} net) : net.Honest t :=
  h.invariant (P := Honest t) (fun _ _ _ hn hs => hn.step ht hs) .init

theorem findSome?_eq_some {α β : Type*} {f : α → Option β} {b : β} {l : List α}
    (hex : ∃ a ∈ l, f a = some b) (hall : ∀ a ∈ l, ∀ b' ∈ f a, b' = b) :
    l.findSome? f = some b := by
  induction l with
  | nil => simp at hex
  | cons a l ih =>
    rw [List.findSome?_cons]
    cases ha : f a with
    | some b' => rw [hall a List.mem_cons_self b' ha]
    | none =>
      apply ih
      · obtain ⟨a', hmem, ha'⟩ := hex
        rcases List.mem_cons.mp hmem with rfl | hmem
        · cases ha.symm.trans ha'
        · exact ⟨a', hmem, ha'⟩
      · exact fun a' hmem => hall a' (List.mem_cons_of_mem _ hmem)

variable {a b : Id} {c c' : Connection Id} {l : Link Id}

theorem otherEnd_of_joins (hab : a ≠ b) (hjoins : l.Joins a c.serial b)
    (hjoins' : l.Joins b c'.serial a) (hc' : c'.remoteId = a) :
    otherEnd l a c.serial = some (b, c') := by
  rcases hjoins with ⟨hd, rfl⟩ | ⟨ha, rfl⟩
  · rcases hjoins' with ⟨⟨hd', -⟩, -⟩ | ⟨⟨-, hserial⟩, -⟩
    · exact absurd (hd.1.symm.trans hd') hab
    · rw [otherEnd, if_pos hd, hserial, ← hc']
      rfl
  · rcases hjoins' with ⟨⟨-, hserial⟩, -⟩ | ⟨⟨ha', -⟩, -⟩
    · rw [otherEnd, if_neg (fun hd => hab hd.1.symm), if_pos ha, hserial, ← hc']
    · exact absurd (ha.1.symm.trans ha') hab

theorem end_of_otherEnd {serial : ℕ} {e : Id × Connection Id}
    (h : otherEnd l a serial = some e) : l.DialedAs a serial ∨ l.AcceptedAs a serial := by
  unfold otherEnd at h
  split_ifs at h with hd ha
  · exact .inl hd
  · exact .inr ha

/-- A connection has one other end. -/
theorem farEnd_of_joins (hw : net.contacts.Wired) (hl : l ∈ net.links) (hab : a ≠ b)
    (hjoins : l.Joins a c.serial b) (hjoins' : l.Joins b c'.serial a) (hc' : c'.remoteId = a) :
    net.farEnd a c = some (b, c') := by
  have hother := otherEnd_of_joins hab hjoins hjoins' hc'
  apply findSome?_eq_some
  · exact ⟨l, hl, hother⟩
  · rintro l' hl' e he
    obtain rfl := hw.eq_of_end hl hl' (end_of_otherEnd hother) (end_of_otherEnd he)
    exact Option.some.inj (he.symm.trans hother)

/-- Nobody has an entry for itself. -/
theorem not_joins_self (hs : net.contacts.Sound) (hl : l ∈ net.links) {n : ℕ} :
    ¬ l.Joins a n a := by
  intro hjoins
  have hself : l.dialer = l.acceptor := by
    rcases hjoins with ⟨hd, ha⟩ | ⟨ha, hd⟩
    · exact hd.1.trans ha.symm
    · exact hd.trans ha.1.symm
  rcases hs.ordered.link l hl with ⟨-, hlt, -⟩ | ⟨-, ⟨-, -, hlt⟩, -⟩
  · exact lt_irrefl _ (hself ▸ hlt)
  · rw [hself] at hlt
    exact Nat.lt_irrefl _ hlt

theorem entry_of_lookup {n : Node Id} {st : PeerState Id} (hn : net.node a = some n)
    (hst : n.room.peers.lookup b = some st) : net.contacts.entry a b = some st.conn.serial := by
  simp [contacts_entry hn, Room.connOf, hst]

theorem Honest.agreeing (hn : net.Honest t) : net.Agreeing := by
  rintro a b n m st st' ha hb hst hst'
  have hentry := entry_of_lookup ha hst
  have hentry' := entry_of_lookup hb hst'
  have hab : a ≠ b := by
    rintro rfl
    obtain ⟨l, hl, hjoins, -⟩ := hn.sound.agreeing.entry a a _ hentry
    exact not_joins_self hn.sound hl hjoins
  obtain ⟨-, hremote, -⟩ := (hn.node a n ha).room.entry b st hst
  obtain ⟨-, hremote', -⟩ := (hn.node b m hb).room.entry a st' hst'
  obtain ⟨l, hl, hjoins, hjoins'⟩ := hn.sound.agree hab hentry hentry'
  constructor
  · exact farEnd_of_joins hn.sound.wired hl hab hjoins hjoins' hremote'
  · exact farEnd_of_joins hn.sound.wired hl hab.symm hjoins' hjoins hremote

/-- Whatever the rooms of a network do, and whatever fails, they agree on their connections. -/
theorem agreeing_of_reachable (ht : t.RoundTrip) (h : Reachable (step t) {} net) : net.Agreeing :=
  (honest_of_reachable ht h).agreeing

/-- Room 2 joins through a ticket of room 0. -/
def joined2 : List (Action ℕ) :=
  [.start ⟨0, []⟩ ⟨false, false, false, "a"⟩ none,
    .start ⟨2, []⟩ ⟨false, false, false, "c"⟩ (some ⟨0, []⟩), .connect 2, .accept 2 0,
    .run 0 .receive, .hello 0 true, .reply 2, .run 2 .nextPeer, .run 2 .nextPeer]

/-- The connection on which `i` has its session with `p`. -/
def sessionOf (net : Network ℕ) (i p : ℕ) : Option (Connection ℕ) :=
  (net.node i).bind fun n => (n.room.peers.lookup p).map PeerState.conn

theorem exists_of_sessionOf {net : Network ℕ} {i p : ℕ} {c : Connection ℕ}
    (h : net.sessionOf i p = some c) :
    ∃ n st, net.node i = some n ∧ n.room.peers.lookup p = some st ∧ st.conn = c := by
  obtain ⟨n, hn, h⟩ := Option.bind_eq_some_iff.mp h
  obtain ⟨st, hst, hc⟩ := Option.map_eq_some_iff.mp h
  exact ⟨n, st, hn, hst, hc⟩

theorem agreeing_joined2 : ∃ net : Network ℕ, net.Agreeing ∧
    net.sessionOf 0 2 = some ⟨0, 2⟩ ∧ net.sessionOf 2 0 = some ⟨0, 0⟩ ∧
    net.farEnd 0 ⟨0, 2⟩ = some (2, ⟨0, 0⟩) := by
  obtain ⟨net, hnet, hsessions⟩ := Option.map_eq_some_iff.mp
    (by decide +kernel : (exec (step unaryTexts) {} joined2).map
      (fun net => (net.sessionOf 0 2, net.sessionOf 2 0)) = some (some ⟨0, 2⟩, some ⟨0, 0⟩))
  obtain ⟨h02, h20⟩ := Prod.mk.inj hsessions
  have hagree := agreeing_of_reachable roundTrip_unaryTexts ⟨_, run_of_exec hnet⟩
  obtain ⟨n, st, hn, hst, hc⟩ := exists_of_sessionOf h02
  obtain ⟨m, st', hm, hst', hc'⟩ := exists_of_sessionOf h20
  refine ⟨net, hagree, h02, h20, ?_⟩
  rw [← hc, ← hc']
  exact (hagree 0 2 n m st st' hn hm hst hst').1

end Network

end Meshconf.Mesh
