import Meshconf.Mesh.Gossip

/-! # The handshakes of a network

One constructor per kind of step of a network. Its rooms stay honest, and each step is
one of parties that contact each other.
-/

namespace Meshconf.Mesh

open Control Transition

variable {Id : Type*} [LinearOrder Id] {t : Texts Id}

namespace Network

variable {net net' : Network Id} {i : Id} {n n' : Node Id}

/-- The steps of a network. -/
inductive Stepped (t : Texts Id) (net : Network Id) : Action Id → Network Id → Prop where
  | start {endpoint : EndpointAddr Id} {media : MediaResources}
      {ticket : Option (EndpointAddr Id)} : endpoint.id ∉ net.started →
      (∀ addr ∈ ticket, addr.id ∈ net.started) →
      Stepped t net (.start endpoint media ticket)
        { net.set endpoint.id (.run (.new endpoint media) ticket) with
          started := net.started ++ [endpoint.id] }
  | connect {i : Id} {n n' m : Node Id} {addr : EndpointAddr Id} : net.node i = some n →
      n.dialing = some addr → net.node addr.id = some m → m.accepting →
      n.step t (.connect true) = some n' →
      Stepped t net (.connect i) { net.set i n' with
        links := net.links ++ [{ dialer := i, dialerSerial := n.connections,
                                 acceptor := addr.id, hello := n.room.hello t }] }
  | connectFails {i : Id} {n n' : Node Id} : net.node i = some n →
      n.step t (.connect false) = some n' → Stepped t net (.connectFails i) (net.set i n')
  | accept {l : Link Id} {m m' : Node Id} : l ∈ net.links → net.NotOvertaken l →
      net.node l.acceptor = some m → m.step t (.accept l.dialer) = some m' →
      Stepped t net (.accept l.dialer l.dialerSerial) { net.set l.acceptor m' with
        links := net.links.map fun l' => l'.accept l.dialer l.dialerSerial m.connections }
  | stray {i p : Id} {n n' : Node Id} : net.node i = some n → n.step t (.accept p) = some n' →
      Stepped t net (.stray i p) (net.set i n')
  | hello {i : Id} {n n' : Node Id} {conn : Connection Id} {l : Link Id} {answered : Bool} :
      net.node i = some n → n.greeting = some conn → l ∈ net.links →
      l.AcceptedAs i conn.serial → n.step t (.greeted (some l.hello) answered) = some n' →
      Stepped t net (.hello i answered) { net.set i n' with
        links :=
          if (introduction t (some l.hello) answered).isSome then
            net.links.map fun l => l.answer i conn.serial (n.room.buildPeerList t)
          else net.links }
  | helloFails {i : Id} {n n' : Node Id} : net.node i = some n →
      n.step t (.greeted none false) = some n' → Stepped t net (.helloFails i) (net.set i n')
  | reply {i : Id} {n n' : Node Id} {conn : Connection Id} {l : Link Id} {msg : ControlMessage} :
      net.node i = some n → n.awaiting = some conn → l ∈ net.links → l.DialedAs i conn.serial →
      l.reply = some msg → n.step t (.reply (some msg)) = some n' →
      Stepped t net (.reply i) ((net.set i n').note i n (.reply (some msg)))
  | replyFails {i : Id} {n n' : Node Id} : net.node i = some n →
      n.step t (.reply none) = some n' → Stepped t net (.replyFails i) (net.set i n')
  | message {i : Id} {n n' : Node Id} {k : ℕ} {task : Task Id} {msg : ControlMessage} :
      net.node i = some n → n.room.tasks[k]? = some task → net.Written i task.conn.serial msg →
      n.step t (.task k (.message msg)) = some n' →
      Stepped t net (.message i k msg) (net.set i n')
  | run {i : Id} {n n' : Node Id} {a : Mesh.Action Id} : net.node i = some n → isLocal a →
      n.step t a = some n' → Stepped t net (.run i a) ((net.set i n').note i n a)

theorem exists_of_runNode {a : Mesh.Action Id} (h : net.runNode t i a = some net') :
    ∃ n n', net.node i = some n ∧ n.step t a = some n' ∧ net.set i n' = net' := by
  obtain ⟨n, hn, h⟩ := Option.bind_eq_some_iff.mp h
  obtain ⟨n', hn', hnet⟩ := Option.map_eq_some_iff.mp h
  exact ⟨n, n', hn, hn', hnet⟩

theorem exists_of_dialedLink {serial : ℕ} {l : Link Id} (h : net.dialedLink i serial = some l) :
    l ∈ net.links ∧ l.DialedAs i serial :=
  ⟨List.mem_of_find?_eq_some h, by simpa using List.find?_some h⟩

theorem exists_of_acceptedLink {serial : ℕ} {l : Link Id}
    (h : net.acceptedLink i serial = some l) : l ∈ net.links ∧ l.AcceptedAs i serial :=
  ⟨List.mem_of_find?_eq_some h, by simpa using List.find?_some h⟩

theorem stepped_of_step {a : Action Id} (h : net.step t a = some net') : Stepped t net a net' := by
  cases a with
  | start endpoint media ticket =>
    simp only [step, Option.ite_none_right_eq_some] at h
    obtain ⟨⟨hfresh, hticket⟩, h⟩ := h
    obtain rfl := Option.some.inj h
    exact .start hfresh hticket
  | connect i =>
    obtain ⟨n, hn, h⟩ := Option.bind_eq_some_iff.mp h
    obtain ⟨addr, haddr, h⟩ := Option.bind_eq_some_iff.mp h
    obtain ⟨m, hm, h⟩ := Option.bind_eq_some_iff.mp h
    split_ifs at h with hacc
    obtain ⟨net₁, hrun, rfl⟩ := Option.map_eq_some_iff.mp h
    obtain ⟨n₁, n', hn₁, hstep, rfl⟩ := exists_of_runNode hrun
    obtain rfl := Option.some.inj (hn.symm.trans hn₁)
    exact .connect hn haddr hm hacc hstep
  | connectFails i =>
    obtain ⟨n, n', hn, hstep, rfl⟩ := exists_of_runNode h
    exact .connectFails hn hstep
  | accept dialer serial =>
    obtain ⟨l, hl, h⟩ := Option.bind_eq_some_iff.mp h
    obtain ⟨m, hm, h⟩ := Option.bind_eq_some_iff.mp h
    split_ifs at h with hline
    obtain ⟨net₁, hrun, rfl⟩ := Option.map_eq_some_iff.mp h
    obtain ⟨hmem, rfl, rfl⟩ := exists_of_dialedLink hl
    obtain ⟨m₁, m', hm₁, hstep, rfl⟩ := exists_of_runNode hrun
    obtain rfl := Option.some.inj (hm.symm.trans hm₁)
    exact .accept hmem hline hm hstep
  | stray i p =>
    obtain ⟨n, n', hn, hstep, rfl⟩ := exists_of_runNode h
    exact .stray hn hstep
  | hello i answered =>
    obtain ⟨n, hn, h⟩ := Option.bind_eq_some_iff.mp h
    obtain ⟨conn, hconn, h⟩ := Option.bind_eq_some_iff.mp h
    obtain ⟨l, hl, h⟩ := Option.bind_eq_some_iff.mp h
    obtain ⟨net₁, hrun, rfl⟩ := Option.map_eq_some_iff.mp h
    obtain ⟨hl, hacc⟩ := exists_of_acceptedLink hl
    obtain ⟨n₁, n', hn₁, hstep, rfl⟩ := exists_of_runNode hrun
    obtain rfl := Option.some.inj (hn.symm.trans hn₁)
    exact .hello hn hconn hl hacc hstep
  | helloFails i =>
    obtain ⟨n, n', hn, hstep, rfl⟩ := exists_of_runNode h
    exact .helloFails hn hstep
  | reply i =>
    obtain ⟨n, hn, h⟩ := Option.bind_eq_some_iff.mp h
    obtain ⟨conn, hconn, h⟩ := Option.bind_eq_some_iff.mp h
    obtain ⟨l, hl, h⟩ := Option.bind_eq_some_iff.mp h
    obtain ⟨msg, hmsg, h⟩ := Option.bind_eq_some_iff.mp h
    obtain ⟨net₁, hrun, rfl⟩ := Option.map_eq_some_iff.mp h
    obtain ⟨hl, hdialed⟩ := exists_of_dialedLink hl
    obtain ⟨n₁, n', hn₁, hstep, rfl⟩ := exists_of_runNode hrun
    obtain rfl := Option.some.inj (hn.symm.trans hn₁)
    exact .reply hn hconn hl hdialed hmsg hstep
  | replyFails i =>
    obtain ⟨n, n', hn, hstep, rfl⟩ := exists_of_runNode h
    exact .replyFails hn hstep
  | message i k msg =>
    obtain ⟨n, hn, h⟩ := Option.bind_eq_some_iff.mp h
    obtain ⟨task, htask, h⟩ := Option.bind_eq_some_iff.mp h
    split_ifs at h with hwritten
    obtain ⟨n₁, n', hn₁, hstep, rfl⟩ := exists_of_runNode h
    obtain rfl := Option.some.inj (hn.symm.trans hn₁)
    exact .message hn htask hwritten hstep
  | run i a =>
    obtain ⟨n, hn, h⟩ := Option.bind_eq_some_iff.mp h
    split_ifs at h with ha
    obtain ⟨net₁, hrun, rfl⟩ := Option.map_eq_some_iff.mp h
    obtain ⟨n₁, n', hn₁, hstep, rfl⟩ := exists_of_runNode hrun
    obtain rfl := Option.some.inj (hn.symm.trans hn₁)
    exact .run hn ha hstep

/-- After a step of one room, each room is that one or as it was. -/
theorem node_cases (hnode : net'.node = (net.set i n').node) {j : Id} {m : Node Id}
    (hm : net'.node j = some m) : j = i ∧ m = n' ∨ j ≠ i ∧ net.node j = some m := by
  rw [hnode] at hm
  by_cases hj : j = i
  · subst hj
    exact .inl ⟨rfl, by simpa [Network.set, eq_comm] using hm⟩
  · exact .inr ⟨hj, by simpa [Network.set, hj] using hm⟩

/-- Remembering peer lists changes nothing else. -/
theorem note_eq (net : Network Id) (i : Id) (n : Node Id) (a : Mesh.Action Id) :
    (net.note i n a).node = net.node ∧ (net.note i n a).started = net.started ∧
      (net.note i n a).links = net.links := by
  unfold note
  split
  · exact ⟨rfl, rfl, rfl⟩
  · exact ⟨rfl, rfl, rfl⟩
  · split <;> exact ⟨rfl, rfl, rfl⟩
  · exact ⟨rfl, rfl, rfl⟩

theorem contacts_note (net : Network Id) (i : Id) (n : Node Id) (a : Mesh.Action Id) :
    (net.note i n a).contacts = net.contacts := by
  obtain ⟨hnode, hstarted, hlinks⟩ := note_eq net i n a
  simp only [contacts, hnode, hstarted, hlinks]

/-! ## Steps of the parties -/

omit [LinearOrder Id] in
/-- A hello that is read as one, and answered. -/
theorem introduction_hello (ht : t.RoundTrip) (addr : EndpointAddr Id) (name : String)
    (answered : Bool) :
    introduction t (some (.hello (t.addrToString addr) name)) answered =
      if answered then some (addr, name) else none := by
  simp only [introduction, expectHello, ht.addr]

/-- The rooms of a network are honest, and what is under way on its connections as well. -/
structure Honest (t : Texts Id) (net : Network Id) : Prop where
  started : ∀ i, i ∉ net.started → net.node i = none
  lively : ∀ i n, net.node i = some n → n.Lively
  node : ∀ i n, net.node i = some n → n.Honest t net.contacts.Known i
  conn : ∀ i n conn, net.node i = some n → n.awaiting = some conn →
    ∃ l ∈ net.links, l.DialedAs i conn.serial ∧ l.acceptor = conn.remoteId
  hello : ∀ l ∈ net.links, ∃ addr name, l.hello = .hello (t.addrToString addr) name ∧
    addr.id = l.dialer
  reply : ∀ l ∈ net.links, ∀ msg ∈ l.reply, ∃ peers, msg = .peerList peers ∧
    Genuine t net.contacts.Known msg
  sound : net.contacts.Sound

theorem contacts_party_none (hn : net.node i = none) :
    net.contacts.party i =
      { joined := false, accepting := false, dialing := none, awaiting := none, queue := [],
        entry := fun _ => none, next := 0 } := by
  simp only [Contacts.State.party, contacts, hn]
  rfl

section Steps

variable {conn : Connection Id} {l : Link Id}

theorem step_of_start (hn : net.Honest t) {endpoint : EndpointAddr Id} (media : MediaResources)
    {ticket : Option (EndpointAddr Id)} (hfresh : endpoint.id ∉ net.started)
    (hticket : ∀ addr ∈ ticket, addr.id ∈ net.started) :
    net.contacts.Step ({ net.set endpoint.id (.run (.new endpoint media) ticket) with
      started := net.started ++ [endpoint.id] } : Network Id).contacts := by
  have hnone := contacts_party_none (hn.started _ hfresh)
  cases ticket with
  | none =>
    have hset : (net.set endpoint.id (.run (.new endpoint media) none)).contacts =
        net.contacts.put endpoint.id
          { net.contacts.party endpoint.id with joined := true, accepting := true } := by
      rw [contacts_set, hnone]
      rfl
    have hstep : net.contacts.Step (net.contacts.found endpoint.id) := .found hfresh
    rw [Contacts.State.found_eq_put, ← hset] at hstep
    exact hstep
  | some addr =>
    have hset : (net.set endpoint.id (.run (.new endpoint media) (some addr))).contacts =
        net.contacts.put endpoint.id
          { net.contacts.party endpoint.id with dialing := some addr.id } := by
      rw [contacts_set, hnone]
      rfl
    have hstep : net.contacts.Step (net.contacts.join endpoint.id addr.id) :=
      .join hfresh (hticket addr rfl)
    rw [Contacts.State.join_eq_put, ← hset] at hstep
    exact hstep

theorem step_of_connect {m : Node Id} {addr : EndpointAddr Id} (hn : net.node i = some n)
    (haddr : n.dialing = some addr) (hm : net.node addr.id = some m) (hacc : m.accepting)
    (h : n.step t (.connect true) = some n') :
    net.contacts.Step ({ net.set i n' with
      links := net.links ++ [{ dialer := i, dialerSerial := n.connections,
                               acceptor := addr.id, hello := n.room.hello t }] } :
        Network Id).contacts := by
  have heq := net.contacts.connect_eq_put i addr.id (n.room.hello t)
  rw [contacts_party hn, contacts_next hn, ← Node.party_connect h, ← contacts_set] at heq
  have hdialing : net.contacts.dialing i = some addr.id := by
    rw [contacts_dialing hn, haddr]
    rfl
  have hstep : net.contacts.Step (net.contacts.connect i addr.id (n.room.hello t)) :=
    .connect _ hdialing ((contacts_accepting hm).trans hacc)
  rw [heq] at hstep
  exact hstep

theorem fault_of_connectFails (hlively : n.Lively) (hn : net.node i = some n)
    (h : n.step t (.connect false) = some n') :
    net.contacts.Fault (net.set i n').contacts := by
  rw [contacts_set, Node.party_hangUp hlively h, ← contacts_party hn,
    ← Contacts.State.hangUp_eq_put]
  exact .hangUp i

theorem step_of_accept {m m' : Node Id} (hl : l ∈ net.links) (hline : net.NotOvertaken l)
    (hm : net.node l.acceptor = some m) (h : m.step t (.accept l.dialer) = some m') :
    net.contacts.Step ({ net.set l.acceptor m' with
      links := net.links.map fun l' => l'.accept l.dialer l.dialerSerial m.connections } :
        Network Id).contacts := by
  have heq := net.contacts.accept_eq_put l
  rw [contacts_party hm, contacts_next hm, contacts_queue hm, ← (Node.party_accept h).2,
    ← contacts_set] at heq
  have hstep : net.contacts.Step (net.contacts.accept l) := .accept hl hline
  rw [heq] at hstep
  exact hstep

theorem fault_of_stray {p : Id} (hn : net.node i = some n) (h : n.step t (.accept p) = some n') :
    net.contacts.Fault (net.set i n').contacts := by
  obtain ⟨hacc, hparty⟩ := Node.party_accept h
  have heq := net.contacts.push_eq_put p i
  rw [contacts_party hn, contacts_next hn, contacts_queue hn, ← hparty, ← contacts_set] at heq
  exact heq ▸ .stray p ((contacts_accepting hn).trans hacc)

theorem head_of_greeting (hn : net.node i = some n) (hconn : n.greeting = some conn) :
    (conn.serial, conn.remoteId) ∈ (net.contacts.queue i).head? := by
  rw [contacts_queue hn]
  simp [Node.party, hconn]

theorem phase_of_greeting (hconn : n.greeting = some conn) : n.phase = .greet conn := by
  unfold Node.greeting at hconn
  split at hconn
  · rename_i conn' hphase
    exact Option.some.inj hconn ▸ hphase
  · cases hconn

theorem step_of_hello (hlively : n.Lively) (hn : net.node i = some n)
    (hconn : n.greeting = some conn) (hl : l ∈ net.links) (hacc : l.AcceptedAs i conn.serial)
    {answered : Bool} {e : EndpointAddr Id × String}
    (hintro : introduction t (some l.hello) answered = some e)
    (h : n.step t (.greeted (some l.hello) answered) = some n') (msg : ControlMessage) :
    net.contacts.Step ({ net.set i n' with
      links := net.links.map fun l => l.answer i conn.serial msg } : Network Id).contacts := by
  have hphase := phase_of_greeting hconn
  have hentry : net.contacts.entry i = n.party.entry := funext (contacts_entry hn)
  have heq := net.contacts.answer_eq_put conn.remoteId i conn.serial msg
  rw [contacts_party hn, contacts_queue hn, hentry, ← Node.party_greeted hintro hlively hconn h,
    ← contacts_set] at heq
  have hstep : net.contacts.Step (net.contacts.answer i conn.remoteId conn.serial msg) := by
    refine .answer msg (head_of_greeting hn hconn) ?_ ?_ ?_ hl hacc
    · simp [contacts_entry hn, (hlively.greet conn hphase).2]
    · simp [contacts_dialing hn, Node.dialing, hphase]
    · simp [contacts_awaiting hn, Node.awaiting, hphase]
  rw [heq] at hstep
  exact hstep

theorem fault_of_refuse {msg : Option ControlMessage} {answered : Bool}
    (hn : net.node i = some n) (hintro : introduction t msg answered = none)
    (h : n.step t (.greeted msg answered) = some n') :
    net.contacts.Fault (net.set i n').contacts := by
  have heq := net.contacts.pop_eq_put i
  rw [contacts_party hn, contacts_queue hn, ← Node.party_refuse hintro h, ← contacts_set] at heq
  exact heq ▸ .refuse i

theorem awaiting_contacts (hn : net.node i = some n) (hconn : n.awaiting = some conn) :
    net.contacts.awaiting i = some conn.serial := by
  rw [contacts_awaiting hn, hconn]
  rfl

theorem step_of_reply (hn : net.Honest t) (hi : net.node i = some n)
    (hconn : n.awaiting = some conn) (hl : l ∈ net.links) (hdialed : l.DialedAs i conn.serial)
    {msg : ControlMessage} (hmsg : l.reply = some msg)
    (h : n.step t (.reply (some msg)) = some n') :
    l.acceptor = conn.remoteId ∧ net.contacts.Step (net.set i n').contacts := by
  obtain ⟨l', hl', hdialed', hacc⟩ := hn.conn i n conn hi hconn
  obtain rfl := hn.sound.wired.unique l hl l' hl' (hdialed.1.trans hdialed'.1.symm)
    (hdialed.2.trans hdialed'.2.symm)
  refine ⟨hacc, ?_⟩
  obtain ⟨peers, rfl, -⟩ := hn.reply l hl msg hmsg
  obtain ⟨rfl, hserial⟩ := hdialed
  have hentry : net.contacts.entry l.dialer = n.party.entry := funext (contacts_entry hi)
  have hawaiting : net.contacts.awaiting l.dialer = some l.dialerSerial := by
    rw [awaiting_contacts hi hconn, hserial]
  have hlisted : ∀ p conn' addr rest, n.phase = .dialed p conn' addr rest → conn'.remoteId = p := by
    rintro p conn' addr rest hphase
    have hhonest := (hn.node _ n hi).phase
    rw [hphase] at hhonest
    exact hhonest.2.1
  have hnone : n.room.connOf conn.remoteId = none := by
    have hvacant := hn.sound.agreeing.awaiting l hl hawaiting
    simpa [contacts_entry hi, hacc] using hvacant
  have heq := net.contacts.complete_eq_put l.dialer l.acceptor l.dialerSerial
  rw [contacts_party hi, hentry, hacc, hserial,
    ← Node.party_reply rfl hconn hlisted hnone h, ← contacts_set] at heq
  have hstep : net.contacts.Step (net.contacts.complete l.dialer l.acceptor l.dialerSerial) :=
    .complete hl hawaiting (by simp [hmsg])
  rwa [hacc, hserial, heq] at hstep

/-- The acceptor has dropped the connection on which an answer is awaited. -/
def Dropped (net : Network Id) (i : Id) : Prop :=
  ∃ n ∈ net.node i, ∃ conn ∈ n.awaiting, ∃ l ∈ net.links, l.DialedAs i conn.serial ∧
    l.reply = none ∧ ∃ s ∈ l.acceptorSerial, ∀ m ∈ net.node l.acceptor,
      (s, l.dialer) ∉ m.party.queue

theorem step_of_dropped (hlively : n.Lively) (hn : net.node i = some n) (hdropped : net.Dropped i)
    (h : n.step t (.reply none) = some n') : net.contacts.Step (net.set i n').contacts := by
  obtain ⟨n₁, hn₁, conn, hconn, l, hl, ⟨rfl, hserial⟩, hreply, s, hs, hgone⟩ := hdropped
  obtain rfl := Option.some.inj (hn.symm.trans hn₁)
  rw [contacts_set, Node.party_giveUp hlively rfl h, ← contacts_party hn,
    ← Contacts.State.giveUp_eq_put]
  refine .dropped hl ?_ hreply hs ?_
  · rw [awaiting_contacts hn hconn, hserial]
  · intro hmem
    cases hm : net.node l.acceptor with
    | none => simp [contacts, hm] at hmem
    | some m => exact hgone m hm (contacts_queue hm ▸ hmem)

theorem fault_of_giveUp (hlively : n.Lively) (hn : net.node i = some n)
    (h : n.step t (.reply none) = some n') : net.contacts.Fault (net.set i n').contacts := by
  rw [contacts_set, Node.party_giveUp hlively rfl h, ← contacts_party hn,
    ← Contacts.State.giveUp_eq_put]
  exact .giveUp i

theorem move_of_run {a : Mesh.Action Id} (hlively : n.Lively) (hn : net.node i = some n)
    (ha : isLocal a) (hn' : n'.Honest t net.contacts.Known i) (h : n.step t a = some n') :
    (net.set i n').contacts = net.contacts ∨ net.contacts.Step (net.set i n').contacts ∨
      n.Forgets a ∧ net.contacts.Fault (net.set i n').contacts := by
  have hp := contacts_party hn
  cases Node.moved_of_step ha hlively h with
  | keep hparty => exact .inl (contacts_set_same hn hparty)
  | settle hj hparty =>
    refine .inr (.inl ?_)
    rw [contacts_set, hparty, ← hp, ← Contacts.State.settle_eq_put]
    exact .settle ((contacts_joined hn).trans hj)
  | @call p addr rest hphase hj hawaiting hnone hparty =>
    refine .inr (.inl ?_)
    obtain ⟨haddr, hknown, hlt, -⟩ : addr.id = p ∧ net.contacts.Known p ∧ i < p ∧ _ := by
      have hphase' := hn'.phase
      rwa [hphase] at hphase'
    rw [contacts_set, hparty, ← hp, ← Contacts.State.call_eq_put]
    refine .call ?_ ?_ ⟨(contacts_joined hn).trans hj, haddr ▸ hlt, haddr ▸ hknown⟩
    · simp [contacts_awaiting hn, hawaiting]
    · simp [contacts_entry hn, haddr, hnone]
  | ignore conn hhead hsome hparty =>
    refine .inr (.inl ?_)
    have heq := net.contacts.pop_eq_put i
    rw [hp, contacts_queue hn, ← hparty, ← contacts_set] at heq
    refine heq ▸ .ignore (contacts_queue hn ▸ hhead) ?_
    simpa [contacts_entry hn] using hsome
  | forget entry hforgets hle hparty =>
    refine .inr (.inr ⟨hforgets, ?_⟩)
    rw [contacts_set, hparty, ← hp, ← Contacts.State.forget_eq_put]
    refine .forget fun q => ?_
    rw [contacts_entry hn]
    exact hle q

end Steps

/-! ## Honesty -/

/-- A connection on which an answer is awaited has just been made, or is awaited already. -/
theorem awaiting_of_step {a : Mesh.Action Id} {conn : Connection Id} (h : n.step t a = some n')
    (hconn : n'.awaiting = some conn) : n.awaiting = some conn ∨
      a = .connect true ∧ ∃ addr, n.dialing = some addr ∧ conn = ⟨n.connections, addr.id⟩ := by
  cases Node.stepped_of_step h with
  | joinConnected hphase =>
    exact .inr ⟨rfl, _, by simp only [Node.dialing, hphase], (Option.some.inj hconn).symm⟩
  | dialConnected hphase =>
    exact .inr ⟨rfl, _, by simp only [Node.dialing, hphase], (Option.some.inj hconn).symm⟩
  | disconnected => exact .inl hconn
  | duplicate => exact .inl hconn
  | feedback => exact .inl hconn
  | unexpected => exact .inl hconn
  | tick => exact .inl hconn
  | accept => exact .inl hconn
  | task _ hran => exact .inl (by simpa only [Node.awaiting, hran.phase] using hconn)
  | close => exact .inl hconn
  | cancel => exact .inl hconn
  | readdress => exact .inl hconn
  | compose => exact .inl hconn
  | _ => cases hconn

theorem joined_of_moved {a : Mesh.Action Id} (h : Node.Moved n a n') : n'.joined = n.joined := by
  cases h with
  | keep hparty => exact congrArg (·.joined) hparty
  | settle _ hparty => exact congrArg (·.joined) hparty
  | call _ _ _ _ hparty => exact congrArg (·.joined) hparty
  | ignore _ _ _ hparty => exact congrArg (·.joined) hparty
  | forget _ _ _ hparty => exact congrArg (·.joined) hparty

theorem trusts_of_isLocal {R : Id → Prop} {a : Mesh.Action Id} (ha : isLocal a) :
    n.Trusts t R a := by
  cases a with
  | task j a =>
    cases a with
    | message msg => cases ha
    | _ => trivial
  | reply msg => cases ha
  | greeted msg answered => cases ha
  | _ => trivial

/-- The steps in which something fails, or a session ends. -/
def Disturbed (net : Network Id) : Action Id → Prop
  | .connectFails _ => True
  | .stray _ _ => True
  | .hello _ answered => answered = false
  | .helloFails _ => True
  | .replyFails i => ¬ net.Dropped i
  | .run i a => ∃ n ∈ net.node i, n.Forgets a
  | _ => False

namespace Honest

/-- Acceptors of connections are known. -/
theorem known_acceptor (hn : net.Honest t) {l : Link Id} (hl : l ∈ net.links) :
    net.contacts.Known l.acceptor :=
  .inl (hn.sound.ordered.accepting _ (hn.sound.ordered.acceptor l hl))

theorem known_of_joined (hi : net.node i = some n) (hj : n.joined = true) :
    net.contacts.Known i :=
  .inl ((contacts_joined hi).trans hj)

/-- Answers stay right while more parties become known. -/
theorem reply_grows (hn : net.Honest t) {s : Contacts.State Id ControlMessage}
    (hgrows : net.contacts.Grows s) {l : Link Id} (hl : l ∈ net.links) {msg : ControlMessage}
    (hmsg : msg ∈ l.reply) : ∃ peers, msg = .peerList peers ∧ Genuine t s.Known msg := by
  obtain ⟨peers, hpeers, hgenuine⟩ := hn.reply l hl msg hmsg
  exact ⟨peers, hpeers, hgenuine.mono fun p => hgrows.known⟩

/-- A step that makes no connection awaits answers on the old ones only. -/
theorem conn_of_step (hn : net.Honest t) (hi : net.node i = some n) {a : Mesh.Action Id}
    (h : n.step t a = some n') (ha : a ≠ .connect true) {conn : Connection Id}
    (hconn : n'.awaiting = some conn) :
    ∃ l ∈ net.links, l.DialedAs i conn.serial ∧ l.acceptor = conn.remoteId := by
  rcases awaiting_of_step h hconn with hold | ⟨hconnect, -⟩
  · exact hn.conn i n conn hi hold
  · exact absurd hconnect ha

/-- One room has taken a step, perhaps with a connection. -/
theorem set (ht : t.RoundTrip) (hn : net.Honest t) (hi : net.node i = some n)
    {a : Mesh.Action Id} (h : n.step t a = some n') (hnode : net'.node = (net.set i n').node)
    (hstarted : net'.started = net.started) (hmove : net.contacts.Move net'.contacts)
    (htrust : n.Trusts t net'.contacts.Known a)
    (hconn : ∀ conn, n'.awaiting = some conn →
      ∃ l ∈ net'.links, l.DialedAs i conn.serial ∧ l.acceptor = conn.remoteId)
    (hhello : ∀ l ∈ net'.links, ∃ addr name, l.hello = .hello (t.addrToString addr) name ∧
      addr.id = l.dialer)
    (hreply : ∀ l ∈ net'.links, ∀ msg ∈ l.reply, ∃ peers, msg = .peerList peers ∧
      Genuine t net'.contacts.Known msg) : net'.Honest t := by
  have hgrows := hmove.grows
  have hi' : net'.node i = some n' := by
    rw [hnode]
    exact Function.update_self i (some n') net.node
  have hn' := ((hn.node i n hi).mono fun p => hgrows.known).step ht htrust (known_of_joined hi') h
  constructor
  · rintro j hj
    rw [hstarted] at hj
    have hne : j ≠ i := by
      rintro rfl
      cases (hn.started j hj).symm.trans hi
    rw [hnode]
    simpa [Network.set, hne] using hn.started j hj
  · rintro j m hm
    rcases node_cases hnode hm with ⟨rfl, rfl⟩ | ⟨-, hm⟩
    · exact (hn.lively j n hi).step h
    · exact hn.lively j m hm
  · rintro j m hm
    rcases node_cases hnode hm with ⟨rfl, rfl⟩ | ⟨-, hm⟩
    · exact hn'
    · exact (hn.node j m hm).mono fun p => hgrows.known
  · rintro j m conn hm hawaiting
    rcases node_cases hnode hm with ⟨rfl, rfl⟩ | ⟨-, hm⟩
    · exact hconn conn hawaiting
    · obtain ⟨l, hl, hdialed, hacc⟩ := hn.conn j m conn hm hawaiting
      obtain ⟨l', hl', hx, hs, hy, -⟩ := hgrows.links l hl
      exact ⟨l', hl', ⟨hx.trans hdialed.1, hs.trans hdialed.2⟩, hy.trans hacc⟩
  · exact hhello
  · exact hreply
  · exact hn.sound.move hmove

/-- One room has taken a step, and its connections are as they were. -/
theorem set_same (ht : t.RoundTrip) (hn : net.Honest t) (hi : net.node i = some n)
    {a : Mesh.Action Id} (h : n.step t a = some n') (ha : a ≠ .connect true)
    (hnode : net'.node = (net.set i n').node) (hstarted : net'.started = net.started)
    (hlinks : net'.links = net.links) (hmove : net.contacts.Move net'.contacts)
    (htrust : n.Trusts t net'.contacts.Known a) : net'.Honest t := by
  apply hn.set ht hi h hnode hstarted hmove htrust
  · rintro conn hconn
    exact hlinks ▸ hn.conn_of_step hi h ha hconn
  · exact hlinks ▸ hn.hello
  · rintro l hl msg hmsg
    exact hn.reply_grows hmove.grows (hlinks ▸ hl) hmsg

/-- One room has taken a step, and its connections have changed at the acceptors' ends only. -/
theorem set_map (ht : t.RoundTrip) (hn : net.Honest t) (hi : net.node i = some n)
    {a : Mesh.Action Id} (h : n.step t a = some n') (ha : a ≠ .connect true)
    {f : Link Id → Link Id}
    (hf : ∀ l, (f l).dialer = l.dialer ∧ (f l).dialerSerial = l.dialerSerial ∧
      (f l).acceptor = l.acceptor ∧ (f l).hello = l.hello)
    (hnode : net'.node = (net.set i n').node) (hstarted : net'.started = net.started)
    (hlinks : net'.links = net.links.map f) (hmove : net.contacts.Move net'.contacts)
    (htrust : n.Trusts t net'.contacts.Known a)
    (hreply : ∀ l ∈ net.links, ∀ msg ∈ (f l).reply, msg ∈ l.reply ∨
      ∃ peers, msg = .peerList peers ∧ Genuine t net.contacts.Known msg) : net'.Honest t := by
  apply hn.set ht hi h hnode hstarted hmove htrust <;> rw [hlinks]
  · rintro conn hconn
    obtain ⟨l, hl, hdialed, hacc⟩ := hn.conn_of_step hi h ha hconn
    obtain ⟨hdialer, hserial, hacceptor, -⟩ := hf l
    refine ⟨f l, List.mem_map_of_mem hl, ?_, hacceptor.trans hacc⟩
    exact ⟨hdialer.trans hdialed.1, hserial.trans hdialed.2⟩
  · rintro _ hmem
    obtain ⟨l, hl, rfl⟩ := List.mem_map.mp hmem
    obtain ⟨hdialer, -, -, hhello⟩ := hf l
    rw [hdialer, hhello]
    exact hn.hello l hl
  · rintro _ hmem msg hmsg
    obtain ⟨l, hl, rfl⟩ := List.mem_map.mp hmem
    rcases hreply l hl msg hmsg with hold | ⟨peers, hpeers, hgenuine⟩
    · exact hn.reply_grows hmove.grows hl hold
    · exact ⟨peers, hpeers, hgenuine.mono fun p => hmove.grows.known⟩

/-- The other end has only written what is right. -/
theorem written (hn : net.Honest t) {serial : ℕ} {msg : ControlMessage}
    (h : net.Written i serial msg) : Genuine t net.contacts.Known msg := by
  obtain ⟨l, -, e, -, m, hm, hw⟩ := h
  exact (hn.node e.1 m hm).room.written _ hw

theorem started_of_node (hn : net.Honest t) (hi : net.node i = some n) : i ∈ net.started := by
  by_contra hmem
  cases (hn.started i hmem).symm.trans hi

theorem start (hn : net.Honest t) {endpoint : EndpointAddr Id} {media : MediaResources}
    {ticket : Option (EndpointAddr Id)} (hfresh : endpoint.id ∉ net.started)
    (hticket : ∀ addr ∈ ticket, addr.id ∈ net.started) :
    Honest t { net.set endpoint.id (.run (.new endpoint media) ticket) with
      started := net.started ++ [endpoint.id] } := by
  have hstep := step_of_start hn media hfresh hticket
  have hgrows := hstep.grows
  constructor
  · rintro j hj
    obtain ⟨hj, hne⟩ : j ∉ net.started ∧ j ≠ endpoint.id := by simpa using hj
    simpa [Network.set, hne] using hn.started j hj
  · rintro j m hm
    rcases node_cases rfl hm with ⟨rfl, rfl⟩ | ⟨-, hm⟩
    · exact .run endpoint media ticket
    · exact hn.lively j m hm
  · rintro j m hm
    rcases node_cases rfl hm with ⟨rfl, rfl⟩ | ⟨-, hm⟩
    · exact .run endpoint media ticket
    · exact (hn.node j m hm).mono fun p => hgrows.known
  · rintro j m conn hm hawaiting
    rcases node_cases rfl hm with ⟨rfl, rfl⟩ | ⟨-, hm⟩
    · cases ticket <;> cases hawaiting
    · exact hn.conn j m conn hm hawaiting
  · exact hn.hello
  · exact fun l hl msg hmsg => hn.reply_grows hgrows hl hmsg
  · exact hn.sound.step hstep

/-- What a step does to the parties; only some steps are faults. -/
theorem moves (ht : t.RoundTrip) (hn : net.Honest t) {a : Action Id} (h : Stepped t net a net') :
    net'.contacts = net.contacts ∨ net.contacts.Step net'.contacts ∨
      net.Disturbed a ∧ net.contacts.Fault net'.contacts := by
  cases h with
  | start hfresh hticket => exact .inr (.inl (step_of_start hn _ hfresh hticket))
  | connect hi haddr hm hacc h => exact .inr (.inl (step_of_connect hi haddr hm hacc h))
  | connectFails hi h =>
    exact .inr (.inr ⟨trivial, fault_of_connectFails (hn.lively _ _ hi) hi h⟩)
  | accept hl hline hm h => exact .inr (.inl (step_of_accept hl hline hm h))
  | stray hi h => exact .inr (.inr ⟨trivial, fault_of_stray hi h⟩)
  | @hello i n n' conn l answered hi hconn hl hacc h =>
    cases hintro : introduction t (some l.hello) answered with
    | some e =>
      refine .inr (.inl ?_)
      simp only [Option.isSome_some, if_true]
      exact step_of_hello (hn.lively i n hi) hi hconn hl hacc hintro h _
    | none =>
      refine .inr (.inr ⟨?_, fault_of_refuse hi hintro h⟩)
      obtain ⟨addr, name, hhello, -⟩ := hn.hello l hl
      rw [hhello, introduction_hello ht] at hintro
      cases answered with
      | false => rfl
      | true => cases hintro
  | helloFails hi h => exact .inr (.inr ⟨trivial, fault_of_refuse hi rfl h⟩)
  | reply hi hconn hl hdialed hmsg h =>
    rw [contacts_note]
    exact .inr (.inl (step_of_reply hn hi hconn hl hdialed hmsg h).2)
  | @replyFails i n n' hi h =>
    by_cases hdropped : net.Dropped i
    · exact .inr (.inl (step_of_dropped (hn.lively i n hi) hi hdropped h))
    · exact .inr (.inr ⟨hdropped, fault_of_giveUp (hn.lively i n hi) hi h⟩)
  | message hi _ _ h =>
    cases Node.stepped_of_step h with
    | task _ hran => exact .inl (contacts_set_same hi hran.party)
  | @run i n n' a hi ha h =>
    rw [contacts_note]
    have hjoined := joined_of_moved (Node.moved_of_step ha (hn.lively i n hi) h)
    have hn' := (hn.node i n hi).step ht (trusts_of_isLocal ha)
      (fun hj => known_of_joined hi (hjoined ▸ hj)) h
    rcases move_of_run (hn.lively i n hi) hi ha hn' h with hsame | hstep | ⟨hforgets, hfault⟩
    · exact .inl hsame
    · exact .inr (.inl hstep)
    · exact .inr (.inr ⟨⟨n, hi, hforgets⟩, hfault⟩)

theorem move (ht : t.RoundTrip) (hn : net.Honest t) {a : Action Id} (h : Stepped t net a net') :
    net.contacts.Move net'.contacts := by
  rcases hn.moves ht h with hsame | hstep | ⟨-, hfault⟩
  · exact .inl hsame
  · exact .inr (.inl hstep)
  · exact .inr (.inr hfault)

theorem init : ({} : Network Id).Honest t := by
  constructor
  · exact fun i _ => rfl
  · exact fun i n hi => by cases hi
  · exact fun i n hi => by cases hi
  · exact fun i n conn hi => by cases hi
  · exact fun l hl => by cases hl
  · exact fun l hl => by cases hl
  · exact .init

/-- A dial has led to a connection. -/
theorem connect (ht : t.RoundTrip) (hn : net.Honest t) {addr : EndpointAddr Id}
    (hi : net.node i = some n) (haddr : n.dialing = some addr)
    (h : n.step t (.connect true) = some n')
    (hmove : net.contacts.Move ({ net.set i n' with
      links := net.links ++ [{ dialer := i, dialerSerial := n.connections,
                               acceptor := addr.id, hello := n.room.hello t }] } :
        Network Id).contacts) :
    Honest t { net.set i n' with
      links := net.links ++ [{ dialer := i, dialerSerial := n.connections,
                               acceptor := addr.id, hello := n.room.hello t }] } := by
  refine hn.set ht hi h (by rfl) (by rfl) hmove trivial ?_ ?_ ?_
  · rintro conn hconn
    rcases awaiting_of_step h hconn with hold | ⟨-, addr', haddr', rfl⟩
    · obtain ⟨l, hl, hends⟩ := hn.conn i n conn hi hold
      exact ⟨l, List.mem_append_left _ hl, hends⟩
    · obtain rfl := Option.some.inj (haddr.symm.trans haddr')
      exact ⟨_, List.mem_append_right _ (List.mem_singleton_self _), ⟨rfl, rfl⟩, rfl⟩
  · rintro l hl
    rcases List.mem_append.mp hl with hold | hnew
    · exact hn.hello l hold
    · obtain rfl := List.mem_singleton.mp hnew
      exact ⟨n.room.addr, n.room.ourName, rfl, (hn.node i n hi).room.ourId⟩
  · rintro l hl msg hmsg
    rcases List.mem_append.mp hl with hold | hnew
    · exact hn.reply_grows hmove.grows hold hmsg
    · obtain rfl := List.mem_singleton.mp hnew
      cases hmsg

/-- A Hello has been answered with a peer list. -/
theorem answer (ht : t.RoundTrip) (hn : net.Honest t) {conn : Connection Id} {l : Link Id}
    (hi : net.node i = some n) (hconn : n.greeting = some conn) (hl : l ∈ net.links)
    (hacc : l.AcceptedAs i conn.serial) (h : n.step t (.greeted (some l.hello) true) = some n')
    (hmove : net.contacts.Move ({ net.set i n' with
      links := net.links.map fun l => l.answer i conn.serial (n.room.buildPeerList t) } :
        Network Id).contacts) :
    Honest t { net.set i n' with
      links := net.links.map fun l => l.answer i conn.serial (n.room.buildPeerList t) } := by
  obtain ⟨hdialer, -⟩ :=
    Contacts.State.head_unanswered hn.sound.wired (head_of_greeting hi hconn) hl hacc
  obtain ⟨addr, name, hhello, haddr⟩ := hn.hello l hl
  have hlist := (hn.node i n hi).room.buildPeerList ht
    (known_of_joined hi (by simp only [Node.joined, phase_of_greeting hconn]))
  refine hn.set_map ht hi h (by simp) (fun l' => by simp) (by rfl) (by rfl) rfl hmove ?_ ?_
  · rintro e he conn' hconn'
    rw [hhello, introduction_hello ht, if_pos rfl] at he
    obtain rfl := Option.mem_some_iff.mp he
    obtain rfl : conn' = conn := Option.mem_unique hconn' hconn
    refine ⟨haddr.trans hdialer, .inr ⟨_, List.mem_map_of_mem hl, by simpa using hdialer, ?_⟩⟩
    simp [Contacts.Link.reply_answer, hacc]
  · rintro l' hl' msg hmsg
    rw [Contacts.Link.reply_answer] at hmsg
    split at hmsg
    · obtain rfl := Option.some.inj hmsg
      exact .inr ⟨_, rfl, hlist⟩
    · exact .inl hmsg

theorem step (ht : t.RoundTrip) (hn : net.Honest t) {a : Action Id}
    (hs : net.step t a = some net') : net'.Honest t := by
  have h := stepped_of_step hs
  have hmove := hn.move ht h
  have hgrows := hmove.grows
  cases h with
  | start hfresh hticket => exact hn.start hfresh hticket
  | connect hi haddr hm hacc h => exact hn.connect ht hi haddr h hmove
  | connectFails hi h => exact hn.set_same ht hi h (by simp) rfl rfl rfl hmove trivial
  | @accept l m m' hl hline hm h =>
    apply hn.set_map ht hm h (by simp) (fun l' => by simp) (by rfl) (by rfl) rfl hmove trivial
    rintro l' hl' msg hmsg
    rw [Contacts.Link.reply_accept] at hmsg
    exact .inl hmsg
  | stray hi h => exact hn.set_same ht hi h (by simp) rfl rfl rfl hmove trivial
  | @hello i n n' conn l answered hi hconn hl hacc h =>
    obtain ⟨addr, name, hhello, -⟩ := hn.hello l hl
    have hintro := introduction_hello ht addr name answered
    rw [← hhello] at hintro
    cases answered with
    | false =>
      rw [if_neg Bool.false_ne_true] at hintro
      simp only [hintro, Option.isSome_none, Bool.false_eq_true, if_false] at hmove ⊢
      refine hn.set_same ht hi h (by simp) rfl rfl rfl hmove fun e he => ?_
      cases hintro.symm.trans he
    | true =>
      rw [if_pos rfl] at hintro
      simp only [hintro, Option.isSome_some, if_true] at hmove ⊢
      exact hn.answer ht hi hconn hl hacc h hmove
  | helloFails hi h =>
    exact hn.set_same ht hi h (by simp) rfl rfl rfl hmove fun e he => by cases he
  | @reply i n n' conn l msg hi hconn hl hdialed hmsg h =>
    obtain ⟨hnode, hstarted, hlinks⟩ := note_eq (net.set i n') i n (.reply (some msg))
    refine hn.set_same ht hi h (by simp) hnode hstarted hlinks hmove ⟨?_, ?_⟩
    · rintro conn' hconn'
      obtain rfl : conn' = conn := Option.mem_unique hconn' hconn
      rw [← (step_of_reply hn hi hconn hl hdialed hmsg h).1]
      exact hgrows.known (hn.known_acceptor hl)
    · rintro peers hpeers
      obtain ⟨peers', rfl, hgenuine⟩ := hn.reply l hl msg hmsg
      obtain rfl := Option.some.inj hpeers
      exact hgenuine.mono fun p => hgrows.known
  | replyFails hi h =>
    refine hn.set_same ht hi h (by simp) rfl rfl rfl hmove
      ⟨fun conn hconn => ?_, fun peers hpeers => by cases hpeers⟩
    obtain ⟨l, hl, -, hacc⟩ := hn.conn _ _ conn hi hconn
    exact hgrows.known (hacc ▸ hn.known_acceptor hl)
  | message hi htask hwritten h =>
    exact hn.set_same ht hi h (by simp) rfl rfl rfl hmove
      ((hn.written hwritten).mono fun p => hgrows.known)
  | @run i n n' a hi ha h =>
    obtain ⟨hnode, hstarted, hlinks⟩ := note_eq (net.set i n') i n a
    refine hn.set_same ht hi h ?_ hnode hstarted hlinks hmove (trusts_of_isLocal ha)
    rintro rfl
    cases ha

end Honest

end Network

end Meshconf.Mesh
