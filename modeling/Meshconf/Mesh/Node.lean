import Meshconf.Mesh.Room
import Meshconf.Transition.Pool

/-! # A running room

The loop of a room takes events from a queue and waits for the network inside its
handlers. Meanwhile the accept loop and the tasks of the sessions put further events
into the queue. All of these, the network and the remote peers take steps in any order.
-/

namespace Meshconf.Mesh

open Bytes Control

variable {Id : Type*}

/-- What the loop is doing, or what it is waiting for. -/
inductive Phase (Id : Type*)
  /-- Connecting through a ticket. -/
  | join (addr : EndpointAddr Id)
  /-- Hello is sent through the ticket's connection; the answer is awaited. -/
  | joined (conn : Connection Id) (addr : EndpointAddr Id)
  | peerList (rest : List PeerInfo)
  /-- Connecting to a peer from a list. -/
  | dial (p : Id) (addr : EndpointAddr Id) (rest : List PeerInfo)
  | dialed (p : Id) (conn : Connection Id) (addr : EndpointAddr Id) (rest : List PeerInfo)
  /-- Waiting for the Hello of an incoming connection. -/
  | greet (conn : Connection Id)
  | idle
  | stopped
  deriving DecidableEq, Repr

/-- Events to the room. A disconnect does not tell its cause; we record it. -/
inductive RoomEvent (Id : Type*)
  | peerDisconnected (p : Id) (cause : Connection Id)
  | incomingConnection (conn : Connection Id)
  | controlMsg (sender : Id) (msg : ControlMessage)
  deriving DecidableEq, Repr

/-- The disconnects in a queue, with the connections that caused them. -/
def disconnects (events : List (RoomEvent Id)) : List (Id × Connection Id) :=
  events.filterMap fun
    | .peerDisconnected p c => some (p, c)
    | _ => none

@[simp] theorem disconnects_append (events events' : List (RoomEvent Id)) :
    disconnects (events ++ events') = disconnects events ++ disconnects events' :=
  List.filterMap_append

/-- Capacity of the event queue. -/
def eventCapacity : ℕ := 64

structure Node (Id : Type*) [LinearOrder Id] where
  room : Room Id
  phase : Phase Id
  accepting : Bool
  events : List (RoomEvent Id) := []
  /-- The global cancellation token. -/
  cancelled : Bool := false
  /-- The connections made so far have the serial numbers below this one. -/
  connections : ℕ := 0
  closed : List ℕ := []
  /-- The bidirectional streams that dispatchers have accepted. -/
  bidi : List (Stream × Accepted) := []
  /-- The messages of the streams that feedback senders have opened. -/
  reports : List (Connection Id × ControlMessage) := []

inductive TaskAction
  | message (msg : ControlMessage)
  | readError
  | closed
  | report (curReceived curDropped : ℕ)
  | acceptBi (s : Stream)
  | path (kind : ConnectionKind)
  | exit

inductive Action (Id : Type*)
  -- The outcomes of the loop's network operations.
  | connect (ok : Bool)
  | reply (msg : Option ControlMessage)
  | greeted (msg : Option ControlMessage) (answered : Bool)
  -- The loop.
  | nextPeer
  | receive
  | tick
  | stop
  -- Everything else.
  | accept (p : Id)
  | task (i : ℕ) (a : TaskAction)
  | close (serial : ℕ)
  | cancel
  | readdress (addrs : List String)
  | compose

def expectPeerList : Option ControlMessage → Option (List PeerInfo)
  | some (.peerList peers) => some peers
  | _ => none

def expectHello : Option ControlMessage → Option (String × String)
  | some (.hello addr name) => some (addr, name)
  | _ => none

/-- What an incoming connection says of itself, if its handshake succeeds. -/
def introduction (t : Texts Id) (msg : Option ControlMessage) (answered : Bool) :
    Option (EndpointAddr Id × String) :=
  match expectHello msg with
  | some (addr, name) =>
    match t.stringToAddr addr with
    | some addr => if answered then some (addr, name) else none
    | none => none
  | none => none

variable [LinearOrder Id]

namespace Node

/-- A room that is about to run, with or without a ticket. -/
def run (room : Room Id) : Option (EndpointAddr Id) → Node Id
  | some addr => { room, phase := .join addr, accepting := false }
  | none => { room, phase := .idle, accepting := true }

def send (n : Node Id) (e : RoomEvent Id) : Option (Node Id) :=
  if n.events.length < eventCapacity then some { n with events := n.events ++ [e] } else none

/-- A connection to the endpoint at `addr`, on which Hello is sent. -/
def sayHello (t : Texts Id) (n : Node Id) (addr : EndpointAddr Id)
    (next : Connection Id → Phase Id) : Node Id :=
  let conn : Connection Id := ⟨n.connections, addr.id⟩
  { n with
    connections := n.connections + 1
    room := n.room.write conn (n.room.hello t)
    phase := next conn }

def connect (t : Texts Id) (n : Node Id) (ok : Bool) : Option (Node Id) :=
  match n.phase with
  | .join addr =>
    if ok then some (n.sayHello t addr fun conn => .joined conn addr)
    else some { n with phase := .stopped }
  | .dial p addr rest =>
    if ok then some (n.sayHello t addr fun conn => .dialed p conn addr rest)
    else some { n with phase := .peerList rest }
  | _ => none

/-- The answer to Hello, or nothing if the handshake has failed. -/
def reply (t : Texts Id) (n : Node Id) (msg : Option ControlMessage) : Option (Node Id) :=
  match n.phase with
  | .joined conn addr =>
    match expectPeerList msg with
    | some peers =>
      let r := n.room.openControlAndAddPeer conn.remoteId conn addr
      some { n with room := r.attachControl conn.remoteId conn, phase := .peerList peers }
    | none => some { n with phase := .stopped }
  | .dialed p conn addr rest =>
    match expectPeerList msg with
    | some _ =>
      let r := n.room.openControlAndAddPeer p conn addr
      some { n with
        room := (r.attachControl p conn).broadcastPeerList t
        phase := .peerList rest }
    | none => some { n with phase := .peerList rest }
  | _ => none

/-- The first message of an incoming connection, and whether the answer could be written. -/
def greeted (t : Texts Id) (n : Node Id) (msg : Option ControlMessage) (answered : Bool) :
    Option (Node Id) :=
  match n.phase with
  | .greet conn =>
    match introduction t msg answered with
    | some (addr, name) =>
      let r := n.room.write conn (n.room.buildPeerList t)
      some { n with room := r.handleHello t conn addr name, phase := .idle }
    | none => some { n with phase := .idle }
  | _ => none

/-- Go on with a received peer list. The accept loop starts behind the first one. -/
def nextPeer (t : Texts Id) (n : Node Id) : Option (Node Id) :=
  match n.phase with
  | .peerList [] => some { n with phase := .idle, accepting := true }
  | .peerList (info :: rest) =>
    match n.room.handleReceivedPeer t info with
    | (room, none) => some { n with room, phase := .peerList rest }
    | (room, some (p, addr)) =>
      if p ∈ room.peers then some { n with room, phase := .peerList rest }
      else some { n with room, phase := .dial p addr rest }
  | _ => none

/-- Handle the next event. -/
def receive (t : Texts Id) (n : Node Id) : Option (Node Id) :=
  match n.phase, n.events with
  | .idle, .peerDisconnected p _ :: events =>
    let r := n.room.handlePeerDisconnected p
    some { n with events, room := r.broadcastPeerList t }
  | .idle, .incomingConnection conn :: events =>
    if conn.remoteId ∈ n.room.peers then some { n with events }
    else some { n with events, phase := .greet conn }
  | .idle, .controlMsg _ (.peerList peers) :: events =>
    some { n with events, phase := .peerList peers }
  | .idle, .controlMsg _ (.congestionFeedback _ _ fractionLost jitterUs) :: events =>
    some { n with events, room := n.room.offerFeedback fractionLost jitterUs }
  | .idle, .controlMsg _ (.hello _ _) :: events => some { n with events }
  | _, _ => none

def setTasks (n : Node Id) (tasks : List (Task Id)) : Node Id :=
  { n with room := { n.room with tasks } }

/-- Whether a task may end without an event. -/
def exits (n : Node Id) (t : Task Id) : Bool :=
  n.cancelled || decide (t.session ∈ n.room.cancelled) ||
    (decide (t.conn.serial ∈ n.closed) && t.kind ≠ .controlReader && t.kind ≠ .closedMonitor)

/-- A step of the task at position `i`. -/
def runTask (t : Texts Id) (n : Node Id) (i : ℕ) (task : Task Id) (a : TaskAction) :
    Option (Node Id) :=
  let rest := Pool.update n.room.tasks i none
  let become (kind : TaskKind) := Pool.update n.room.tasks i (some { task with kind })
  match task.kind, a with
  | .controlReader, .message msg => n.send (.controlMsg task.peer msg)
  | .controlReader, .readError => (n.setTasks rest).send (.peerDisconnected task.peer task.conn)
  | .closedMonitor, .closed =>
    if task.conn.serial ∈ n.closed then
      (n.setTasks rest).send (.peerDisconnected task.peer task.conn)
    else none
  | .feedbackSender sender, .report curReceived curDropped =>
    match sender.report curReceived curDropped with
    | (msg, sender) =>
      let n := n.setTasks (become (.feedbackSender sender))
      some { n with reports := n.reports ++ [(task.conn, msg)] }
  | .dispatcher controlTx, .acceptBi s =>
    some { n with bidi := n.bidi ++ [(s, acceptBi t.json controlTx s)] }
  | .pathWatcher lastKind, .path kind =>
    if kind = lastKind then some n
    else
      let n := n.setTasks (become (.pathWatcher kind))
      some { n with room := n.room.trySendCommand (.setConnectionKind task.peer kind) }
  | _, .exit => if n.exits task then some (n.setTasks rest) else none
  | _, _ => none

def step (t : Texts Id) (n : Node Id) : Action Id → Option (Node Id)
  | .connect ok => n.connect t ok
  | .reply msg => n.reply t msg
  | .greeted msg answered => n.greeted t msg answered
  | .nextPeer => n.nextPeer t
  | .receive => n.receive t
  | .tick =>
    match n.phase with
    | .idle => some { n with room := n.room.broadcastPeerList t }
    | _ => none
  | .stop =>
    match n.phase, n.cancelled with
    | .idle, true => some { n with room := n.room.cleanupAllPeers, phase := .stopped }
    | _, _ => none
  | .accept p =>
    if n.accepting then
      ({ n with connections := n.connections + 1 } : Node Id).send
        (.incomingConnection ⟨n.connections, p⟩)
    else none
  | .task i a => n.room.tasks[i]?.bind fun task => n.runTask t i task a
  | .close serial => some { n with closed := serial :: n.closed }
  | .cancel => some { n with cancelled := true }
  | .readdress addrs => some { n with room := { n.room with ourAddrs := addrs } }
  | .compose => some { n with room := { n.room with commands := n.room.commands.tail } }

end Node

/-- The report of a session that has not seen any video. -/
def sampleReport : ControlMessage := .congestionFeedback 0 0 0 0

def sampleReportText : String :=
  "\x7b\"msg_type\":\"congestion_feedback\",\"received\":0,\"dropped\":0," ++
    "\"fraction_lost\":0.0,\"jitter_us\":0\x7d"

/-- Text forms for three peers and a report, enough for examples. -/
def sampleTexts : Texts ℕ where
  parsePublicKey s := ["1", "2", "3"].idxOf? s |>.map (· + 1)
  peerIdToString p := ["1", "2", "3"].getD (p - 1) ""
  stringToAddr s := ["addr 1", "addr 2", "addr 3"].idxOf? s |>.map fun i => ⟨i + 1, []⟩
  addrToString a := ["addr 1", "addr 2", "addr 3"].getD (a.id - 1) ""
  json :=
    { toVec := fun msg => if msg = sampleReport then sampleReportText.toUTF8.toList else []
      fromSlice := fun buf =>
        if buf = sampleReportText.toUTF8.toList then .ok sampleReport else .error "no report" }

end Meshconf.Mesh
