import Meshconf.Contacts.Basic
import Meshconf.Mesh.Steps
import Meshconf.Transition.Run

/-! # A network of rooms

Any number of rooms run side by side, each under a key of its own. Their dials end at
each other, and what they read is what the other end of a connection has written.
-/

namespace Meshconf.Mesh

open Control Transition

/-- A connection between two rooms, with the two messages of its handshake. -/
abbrev Link (Id : Type*) := Contacts.Link Id ControlMessage

/-- Texts are read back as they were written. -/
structure Texts.RoundTrip {Id : Type*} (t : Texts Id) : Prop where
  key : ∀ p, t.parsePublicKey (t.peerIdToString p) = some p
  addr : ∀ addr, t.stringToAddr (t.addrToString addr) = some addr

variable {Id : Type*}

/-- The room at the other end of a connection, and the connection there. -/
def otherEnd [DecidableEq Id] (l : Link Id) (i : Id) (serial : ℕ) : Option (Id × Connection Id) :=
  if l.DialedAs i serial then l.acceptorSerial.map fun s => (l.acceptor, ⟨s, i⟩)
  else if l.AcceptedAs i serial then some (l.dialer, ⟨l.dialerSerial, i⟩)
  else none

namespace Node

variable [LinearOrder Id]

/-- The address that the loop is dialling. -/
def dialing (n : Node Id) : Option (EndpointAddr Id) :=
  match n.phase with
  | .join addr => some addr
  | .dial _ addr _ => some addr
  | _ => none

/-- The connection on which the loop awaits a peer list. -/
def awaiting (n : Node Id) : Option (Connection Id) :=
  match n.phase with
  | .joined conn _ => some conn
  | .dialed _ conn _ _ => some conn
  | _ => none

/-- The connection on which the loop awaits a Hello. -/
def greeting (n : Node Id) : Option (Connection Id) :=
  match n.phase with
  | .greet conn => some conn
  | _ => none

/-- The peer list that is handled next, and its sender. -/
def nextList (n : Node Id) : Option (Id × List PeerInfo) :=
  match n.phase, n.events with
  | .idle, .controlMsg sender (.peerList peers) :: _ => some (sender, peers)
  | _, _ => none

/-- The peer list that joining takes from an answer. -/
def joinList (n : Node Id) (msg : ControlMessage) : Option (Id × List PeerInfo) :=
  match n.phase, msg with
  | .joined conn _, .peerList peers => some (conn.remoteId, peers)
  | _, _ => none

/-- A peer list has been handled to its end. -/
def listDone (n : Node Id) : Bool :=
  match n.phase with
  | .peerList [] => true
  | _ => false

end Node

structure Network (Id : Type*) [LinearOrder Id] where
  node : Id → Option (Node Id) := fun _ => none
  /-- The keys of all rooms, in the order in which they started. -/
  started : List Id := []
  links : List (Link Id) := []
  /-- The peer list that each room is handling, with its sender. -/
  handling : Id → Option (Id × List PeerInfo) := fun _ => none
  /-- The peer lists that rooms have handled to their end, with their senders. -/
  handled : List (Id × Id × List PeerInfo) := []

variable [LinearOrder Id]

namespace Network

inductive Action (Id : Type*)
  /-- A room starts under a fresh key, with the ticket of a running room or without. -/
  | start (endpoint : EndpointAddr Id) (media : MediaResources) (ticket : Option (EndpointAddr Id))
  | connect (i : Id)
  | connectFails (i : Id)
  /-- The accept loop takes the connection that `dialer` has made as `serial`. -/
  | accept (dialer : Id) (serial : ℕ)
  /-- The accept loop takes a connection whose dialer has given up already. -/
  | stray (i dialer : Id)
  /-- Hello arrives; the answer is written, or that fails. -/
  | hello (i : Id) (answered : Bool)
  | helloFails (i : Id)
  | reply (i : Id)
  | replyFails (i : Id)
  /-- A control reader reads a message that the other end has written. -/
  | message (i : Id) (task : ℕ) (msg : ControlMessage)
  /-- A step in which nothing is exchanged with another room. -/
  | run (i : Id) (a : Mesh.Action Id)

def isLocal : Mesh.Action Id → Bool
  | .nextPeer => true
  | .receive => true
  | .tick => true
  | .stop => true
  | .task _ (.message _) => false
  | .task _ _ => true
  | .close _ => true
  | .cancel => true
  | .readdress _ => true
  | .compose => true
  | _ => false

def set (net : Network Id) (i : Id) (n : Node Id) : Network Id :=
  { net with node := Function.update net.node i (some n) }

/-- A step of the room of `i`. -/
def runNode (t : Texts Id) (net : Network Id) (i : Id) (a : Mesh.Action Id) : Option (Network Id) :=
  (net.node i).bind fun n => (n.step t a).map (net.set i)

/-- Remember the peer list that a room takes up, or finishes. -/
def note (net : Network Id) (i : Id) (n : Node Id) : Mesh.Action Id → Network Id
  | .receive =>
    { net with handling := Function.update net.handling i (n.nextList.or (net.handling i)) }
  | .reply (some msg) =>
    { net with handling := Function.update net.handling i ((n.joinList msg).or (net.handling i)) }
  | .nextPeer =>
    if n.listDone then
      { net with
        handled := net.handled ++ (net.handling i).toList.map fun e => (i, e)
        handling := Function.update net.handling i none }
    else net
  | _ => net

/-- The link that `i` has dialled as `serial`. -/
def dialedLink (net : Network Id) (i : Id) (serial : ℕ) : Option (Link Id) :=
  net.links.find? fun l => l.DialedAs i serial

def acceptedLink (net : Network Id) (i : Id) (serial : ℕ) : Option (Link Id) :=
  net.links.find? fun l => l.AcceptedAs i serial

/--
The connection has not come in, nor has a later one of its dialer: the accept loop completes one
dial after another, and who dials again has seen the loop take up its last dial.
-/
def NotOvertaken (net : Network Id) (l : Link Id) : Prop :=
  l.acceptorSerial = none ∧
    ∀ l' ∈ net.links, l'.dialer = l.dialer → l'.acceptor = l.acceptor →
      l.dialerSerial < l'.dialerSerial → l'.acceptorSerial = none

instance (net : Network Id) (l : Link Id) : Decidable (net.NotOvertaken l) :=
  inferInstanceAs (Decidable (_ ∧ _))

/-- The other end of the connection has written the message. -/
def Written (net : Network Id) (i : Id) (serial : ℕ) (msg : ControlMessage) : Prop :=
  ∃ l ∈ net.links, ∃ e ∈ otherEnd l i serial, ∃ n ∈ net.node e.1, (e.2, msg) ∈ n.room.written

instance (net : Network Id) (i : Id) (serial : ℕ) (msg : ControlMessage) :
    Decidable (net.Written i serial msg) :=
  inferInstanceAs (Decidable (∃ l ∈ net.links, ∃ e ∈ otherEnd l i serial, ∃ n ∈ net.node e.1,
    (e.2, msg) ∈ n.room.written))

def step (t : Texts Id) (net : Network Id) : Action Id → Option (Network Id)
  | .start endpoint media ticket =>
    if endpoint.id ∉ net.started ∧ ∀ addr ∈ ticket, addr.id ∈ net.started then
      some { net.set endpoint.id (.run (.new endpoint media) ticket) with
        started := net.started ++ [endpoint.id] }
    else none
  | .connect i =>
    (net.node i).bind fun n => n.dialing.bind fun addr => (net.node addr.id).bind fun m =>
      if m.accepting then
        (net.runNode t i (.connect true)).map fun net =>
          { net with links := net.links ++
              [{ dialer := i, dialerSerial := n.connections, acceptor := addr.id,
                 hello := n.room.hello t }] }
      else none
  | .connectFails i => net.runNode t i (.connect false)
  | .accept dialer serial =>
    (net.dialedLink dialer serial).bind fun l => (net.node l.acceptor).bind fun m =>
      if net.NotOvertaken l then
        (net.runNode t l.acceptor (.accept dialer)).map fun net =>
          { net with links := net.links.map fun l => l.accept dialer serial m.connections }
      else none
  | .stray i dialer => net.runNode t i (.accept dialer)
  | .hello i answered =>
    (net.node i).bind fun n => n.greeting.bind fun conn =>
      (net.acceptedLink i conn.serial).bind fun l =>
      (net.runNode t i (.greeted (some l.hello) answered)).map fun net =>
        { net with links :=
            if (introduction t (some l.hello) answered).isSome then
              net.links.map fun l => l.answer i conn.serial (n.room.buildPeerList t)
            else net.links }
  | .helloFails i => net.runNode t i (.greeted none false)
  | .reply i =>
    (net.node i).bind fun n => n.awaiting.bind fun conn =>
      (net.dialedLink i conn.serial).bind fun l => l.reply.bind fun msg =>
        (net.runNode t i (.reply (some msg))).map fun net => net.note i n (.reply (some msg))
  | .replyFails i => net.runNode t i (.reply none)
  | .message i k msg =>
    (net.node i).bind fun n => n.room.tasks[k]?.bind fun task =>
      if net.Written i task.conn.serial msg then net.runNode t i (.task k (.message msg)) else none
  | .run i a =>
    (net.node i).bind fun n =>
      if isLocal a then (net.runNode t i a).map fun net => net.note i n a else none

/-- The other end of a connection, if it has come in there. -/
def farEnd (net : Network Id) (i : Id) (conn : Connection Id) : Option (Id × Connection Id) :=
  net.links.findSome? fun l => otherEnd l i conn.serial

end Network

/-! ## Texts that can be read back -/

/-- Each character of a text behind a `+`, each text before a `;`. -/
def escape (texts : List String) : List Char :=
  texts.flatMap fun s => s.toList.flatMap (fun c => ['+', c]) ++ [';']

def unescape : List Char → List Char → List String
  | '+' :: c :: rest, cur => unescape rest (cur ++ [c])
  | ';' :: rest, cur => String.ofList cur :: unescape rest []
  | _, _ => []

theorem unescape_cons (s rest cur : List Char) :
    unescape (s.flatMap (fun c => ['+', c]) ++ ';' :: rest) cur =
      String.ofList (cur ++ s) :: unescape rest [] := by
  induction s generalizing cur with
  | nil => simp [unescape]
  | cons c s ih => simp [unescape, ih]

theorem unescape_escape (texts : List String) : unescape (escape texts) [] = texts := by
  induction texts with
  | nil => rfl
  | cons s texts ih =>
    have hcons : escape (s :: texts) =
        s.toList.flatMap (fun c => ['+', c]) ++ ';' :: escape texts := by simp [escape]
    rw [hcons, unescape_cons, ih]
    simp

/-- Keys in unary, enough for examples. -/
def unaryTexts : Texts ℕ where
  parsePublicKey s := some s.length
  peerIdToString p := String.ofList (List.replicate p 'a')
  stringToAddr s :=
    match unescape s.toList [] with
    | key :: addrs => some ⟨key.length, addrs⟩
    | [] => none
  addrToString a := String.ofList (escape (String.ofList (List.replicate a.id 'a') :: a.addrs))
  json := { toVec := fun _ => [], fromSlice := fun _ => .error "none" }

theorem roundTrip_unaryTexts : unaryTexts.RoundTrip where
  key p := by simp [unaryTexts]
  addr addr := by simp [unaryTexts, unescape_escape]

end Meshconf.Mesh
