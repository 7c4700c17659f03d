import Mathlib.Data.List.AList
import Meshconf.Bandwidth.Basic
import Meshconf.Control.Stream

/-! # The room

A room keeps one entry per remote peer, together with the broadcasters, the
compositor's command channel and the tasks of the sessions. Its operations are
those parts of the event loop that run without waiting for the network.
-/

namespace Meshconf.Mesh

open Bandwidth Control

/-- An address under which an endpoint can be reached. -/
structure EndpointAddr (Id : Type*) where
  id : Id
  addrs : List String
  deriving DecidableEq, Repr

/-- A connection, with the authenticated key of its other end. -/
structure Connection (Id : Type*) where
  serial : ℕ
  remoteId : Id
  deriving DecidableEq, Repr

/-- The text forms of keys, addresses and control messages. -/
structure Texts (Id : Type*) where
  parsePublicKey : String → Option Id
  peerIdToString : Id → String
  stringToAddr : String → Option (EndpointAddr Id)
  addrToString : EndpointAddr Id → String
  json : Json

inductive ConnectionKind | unknown | direct | relay | isLocal
  deriving DecidableEq, Repr

/-- Commands to the compositor. A drop counter is named by the session it belongs to. -/
inductive CompositorCommand (Id : Type*)
  | removePeer (id : Id)
  | setPeerName (id : Id) (name : String)
  | setConnectionKind (id : Id) (kind : ConnectionKind)
  | setVideoDropCounter (id : Id) (session : ℕ)
  deriving DecidableEq, Repr

inductive TaskKind
  | controlReader
  | dispatcher (controlTx : Bool)
  | jitterBuffer
  | audioDecoder
  | videoDecoder
  | feedbackSender (sender : FeedbackSender)
  | closedMonitor
  | pathWatcher (lastKind : ConnectionKind)
  deriving DecidableEq, Repr

/-- A task of a session, and the cancellation token it watches. -/
structure Task (Id : Type*) where
  kind : TaskKind
  peer : Id
  conn : Connection Id
  session : ℕ
  deriving DecidableEq, Repr

/-- State for one remote peer. -/
structure PeerState (Id : Type*) where
  conn : Connection Id
  addr : EndpointAddr Id
  name : String
  sessionCancel : ℕ
  /-- The connection whose control stream is written to. -/
  controlSend : Option (Connection Id)
  deriving DecidableEq, Repr

variable {Id : Type*} [LinearOrder Id]

structure Broadcaster (Id : Type*) [LinearOrder Id] where
  peers : AList fun _ : Id => Connection Id := ∅
  forceKeyframe : Option Bool := none

def Broadcaster.addPeer (b : Broadcaster Id) (id : Id) (conn : Connection Id) : Broadcaster Id where
  peers := b.peers.insert id conn
  forceKeyframe := b.forceKeyframe.map fun _ => true

def Broadcaster.removePeer (b : Broadcaster Id) (id : Id) : Broadcaster Id :=
  { b with peers := b.peers.erase id }

/-- Capacity of the channel to the compositor. -/
def commandCapacity : ℕ := 10

structure Room (Id : Type*) [LinearOrder Id] where
  ourId : Id
  ourAddrs : List String
  ourName : String
  peers : AList fun _ : Id => PeerState Id := ∅
  audioBroadcaster : Broadcaster Id := {}
  videoBroadcaster : Broadcaster Id := {}
  /-- Without a display nobody receives commands. -/
  compositorOpen : Bool := true
  commands : List (CompositorCommand Id) := []
  /-- The events offered to the bandwidth estimator, if there is one. -/
  bwTx : Option (List BandwidthEvent) := none
  /-- The session tokens made so far are those below this number. -/
  sessions : ℕ := 0
  cancelled : List ℕ := []
  tasks : List (Task Id) := []
  /-- The messages written to control streams, oldest first. -/
  written : List (Connection Id × ControlMessage) := []

/-- The media resources that there are, and the local name. -/
structure MediaResources where
  videoEncoder : Bool
  displayTx : Bool
  encoderConfig : Bool
  ourName : String

/-- The side with the smaller key connects; the other waits. -/
def shouldInitiate (ourId theirId : Id) : Bool := decide (ourId < theirId)

namespace Room

def trySendCommand (r : Room Id) (cmd : CompositorCommand Id) : Room Id :=
  { r with
    commands :=
      if r.compositorOpen ∧ r.commands.length < commandCapacity then r.commands ++ [cmd]
      else r.commands }

/-- Inform the compositor of a peer's name, if it is known. -/
def sendName (r : Room Id) (p : Id) (name : String) : Room Id :=
  { r with
    commands :=
      if name ≠ "" then (r.trySendCommand (.setPeerName p name)).commands else r.commands }

/-- A room without peers. The compositor hears of the local tile first. -/
def new (endpoint : EndpointAddr Id) (media : MediaResources) : Room Id :=
  let r : Room Id :=
    { ourId := endpoint.id
      ourAddrs := endpoint.addrs
      ourName := media.ourName
      compositorOpen := media.displayTx
      videoBroadcaster := { forceKeyframe := if media.videoEncoder then some false else none }
      bwTx := if media.encoderConfig then some [] else none }
  (r.trySendCommand (.setPeerName endpoint.id media.ourName)).trySendCommand
    (.setConnectionKind endpoint.id .isLocal)

def addr (r : Room Id) : EndpointAddr Id where
  id := r.ourId
  addrs := r.ourAddrs

def spawn (r : Room Id) (kinds : List TaskKind) (peer : Id) (conn : Connection Id)
    (session : ℕ) : Room Id :=
  { r with tasks := r.tasks ++ kinds.map fun kind => { kind, peer, conn, session } }

def spawnControlReader (r : Room Id) (peer : Id) (conn : Connection Id) (session : ℕ) : Room Id :=
  r.spawn [.controlReader] peer conn session

def newSession (r : Room Id) : Room Id := { r with sessions := r.sessions + 1 }

def write (r : Room Id) (conn : Connection Id) (msg : ControlMessage) : Room Id :=
  { r with written := r.written ++ [(conn, msg)] }

/-- The peer list: ourselves and all connected peers. -/
def buildPeerList (t : Texts Id) (r : Room Id) : ControlMessage :=
  let us : PeerInfo :=
    { peerId := t.peerIdToString r.ourId, addr := t.addrToString r.addr, name := r.ourName }
  let peers := r.peers.entries.map fun e : (_ : Id) × PeerState Id =>
    ({ peerId := t.peerIdToString e.1
       addr := t.addrToString e.2.addr
       name := e.2.name } : PeerInfo)
  .peerList (us :: peers)

/-- Send the peer list to all peers that have a control channel. -/
def broadcastPeerList (t : Texts Id) (r : Room Id) : Room Id :=
  let msg := r.buildPeerList t
  let streams := r.peers.entries.filterMap fun e : (_ : Id) × PeerState Id => e.2.controlSend
  { r with written := r.written ++ streams.map fun conn => (conn, msg) }

def hello (t : Texts Id) (r : Room Id) : ControlMessage :=
  .hello (t.addrToString r.addr) r.ourName

/-- Add a peer with its media pipeline, unless there is one already. -/
def addPeerWithMedia (r : Room Id) (p : Id) (conn : Connection Id) (addr : EndpointAddr Id)
    (session : ℕ) (controlSend : Option (Connection Id)) (name : String) : Room Id :=
  if p ∈ r.peers then r
  else
    let r : Room Id :=
      { r with
        audioBroadcaster := r.audioBroadcaster.addPeer p conn
        videoBroadcaster := r.videoBroadcaster.addPeer p conn }
    let r := r.trySendCommand (.setVideoDropCounter p session)
    let r := r.spawn [.dispatcher false, .jitterBuffer, .audioDecoder, .videoDecoder,
      .feedbackSender {}, .closedMonitor] p conn session
    let r := (r.sendName p name).spawn [.pathWatcher .unknown] p conn session
    { r with
      peers := r.peers.insert p { conn, addr, name, sessionCancel := session, controlSend } }

/-- The end of `openControlAndAddPeer`: the peer list has come, its sender's name has not. -/
def openControlAndAddPeer (r : Room Id) (p : Id) (conn : Connection Id) (addr : EndpointAddr Id) :
    Room Id :=
  r.newSession.addPeerWithMedia p conn addr r.sessions none ""

/-- Store the control stream in the entry of `p` and read from it. -/
def attachControl (r : Room Id) (p : Id) (conn : Connection Id) : Room Id :=
  match r.peers.lookup p with
  | some st =>
    let r : Room Id :=
      { r with peers := r.peers.insert p { st with controlSend := some conn } }
    r.spawnControlReader p conn st.sessionCancel
  | none => r.newSession.spawnControlReader p conn r.sessions

/-- The end of `handleIncomingConnection`, once Hello has been read and answered. -/
def handleHello (t : Texts Id) (r : Room Id) (conn : Connection Id) (addr : EndpointAddr Id)
    (name : String) : Room Id :=
  let session := r.sessions
  let r := r.newSession.spawnControlReader conn.remoteId conn session
  (r.addPeerWithMedia conn.remoteId conn addr session (some conn) name).broadcastPeerList t

/-- Update the name of a known peer if it changed. -/
def updateName (r : Room Id) (p : Id) (st : PeerState Id) (name : String) : Room Id :=
  if name ≠ "" ∧ st.name ≠ name then
    let r : Room Id := { r with peers := r.peers.insert p { st with name } }
    r.trySendCommand (.setPeerName p name)
  else r

/-- One entry of a received peer list: names are updated, and unknown peers dialled. -/
def handleReceivedPeer (t : Texts Id) (r : Room Id) (info : PeerInfo) :
    Room Id × Option (Id × EndpointAddr Id) :=
  match t.parsePublicKey info.peerId with
  | none => (r, none)
  | some p =>
    if p = r.ourId then (r, none)
    else
      match r.peers.lookup p with
      | some st => (r.updateName p st info.name, none)
      | none =>
        match t.stringToAddr info.addr with
        | none => (r, none)
        | some addr => (r, if shouldInitiate r.ourId p then some (p, addr) else none)

def handlePeerDisconnected (r : Room Id) (p : Id) : Room Id :=
  match r.peers.lookup p with
  | none => r
  | some st =>
    let r : Room Id :=
      { r with
        peers := r.peers.erase p
        cancelled := st.sessionCancel :: r.cancelled
        audioBroadcaster := r.audioBroadcaster.removePeer p
        videoBroadcaster := r.videoBroadcaster.removePeer p }
    r.trySendCommand (.removePeer p)

/-- Offer the bandwidth estimator what a peer reports. -/
def offerFeedback (r : Room Id) (fractionLost : ℚ) (jitterUs : ℕ) : Room Id :=
  { r with bwTx := r.bwTx.map (· ++ [.receiverFeedback fractionLost jitterUs]) }

def cleanupAllPeers (r : Room Id) : Room Id :=
  { r with
    peers := ∅
    cancelled := r.peers.entries.map (·.2.sessionCancel) ++ r.cancelled
    audioBroadcaster := r.peers.keys.foldl Broadcaster.removePeer r.audioBroadcaster
    videoBroadcaster := r.peers.keys.foldl Broadcaster.removePeer r.videoBroadcaster }

end Room

end Meshconf.Mesh
