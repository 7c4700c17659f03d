import Meshconf.Mesh.Steps
import Meshconf.Transition.Registry
import Meshconf.Transition.Totals

/-! # The sessions of a room

Of the table of peers, only the connections matter here. A running room refines a
registry of connections whose notices are the disconnects in its event queue.
-/

namespace Meshconf.Mesh

open Control Transition

variable {Id : Type*} [LinearOrder Id] {t : Texts Id}

namespace Room

/-- The connection of the session with `p`. -/
def connOf (r : Room Id) (p : Id) : Option (Connection Id) := (r.peers.lookup p).map PeerState.conn

variable {r : Room Id} {p : Id} {conn : Connection Id}

theorem connOf_eq_none : r.connOf p = none ↔ p ∉ r.peers := by
  rw [connOf, Option.map_eq_none_iff, AList.lookup_eq_none]

theorem connOf_broadcastPeerList (r : Room Id) : (r.broadcastPeerList t).connOf = r.connOf := rfl

theorem connOf_insert (r : Room Id) (p : Id) (st : PeerState Id) :
    ({ r with peers := r.peers.insert p st } : Room Id).connOf =
      Function.update r.connOf p (some st.conn) :=
  AList.map_lookup_insert PeerState.conn r.peers p st

theorem connOf_erase (r : Room Id) (p : Id) :
    ({ r with peers := r.peers.erase p } : Room Id).connOf = Function.update r.connOf p none :=
  AList.map_lookup_erase PeerState.conn r.peers p

/-- Changing an entry without its connection. -/
theorem connOf_insert_self {st st' : PeerState Id} (h : r.peers.lookup p = some st)
    (hc : st'.conn = st.conn) :
    ({ r with peers := r.peers.insert p st' } : Room Id).connOf = r.connOf :=
  AList.map_lookup_insert_self h hc

theorem connOf_addPeerWithMedia (r : Room Id) (p : Id) (conn : Connection Id)
    (addr : EndpointAddr Id) (session : ℕ) (controlSend : Option (Connection Id)) (name : String) :
    (r.addPeerWithMedia p conn addr session controlSend name).connOf =
      Function.update r.connOf p (some ((r.connOf p).getD conn)) := by
  unfold addPeerWithMedia
  split
  · rename_i hp
    obtain ⟨c, hc⟩ := Option.ne_none_iff_exists'.mp (mt connOf_eq_none.mp (not_not.mpr hp))
    rw [hc, Option.getD_some, ← hc, Function.update_eq_self]
  · rename_i hp
    rw [connOf_eq_none.mpr hp]
    exact connOf_insert _ p _

theorem connOf_openControlAndAddPeer (r : Room Id) (p : Id) (conn : Connection Id)
    (addr : EndpointAddr Id) :
    (r.openControlAndAddPeer p conn addr).connOf =
      Function.update r.connOf p (some ((r.connOf p).getD conn)) :=
  connOf_addPeerWithMedia _ _ _ _ _ _ _

theorem connOf_attachControl (r : Room Id) (p : Id) (conn : Connection Id) :
    (r.attachControl p conn).connOf = r.connOf := by
  unfold attachControl
  split
  · rename_i st hst
    exact connOf_insert_self hst rfl
  · rfl

theorem connOf_handleHello (r : Room Id) (conn : Connection Id) (addr : EndpointAddr Id)
    (name : String) :
    (r.handleHello t conn addr name).connOf =
      Function.update r.connOf conn.remoteId (some ((r.connOf conn.remoteId).getD conn)) :=
  connOf_addPeerWithMedia _ _ _ _ _ _ _

theorem connOf_updateName {st : PeerState Id} (h : r.peers.lookup p = some st) (name : String) :
    (r.updateName p st name).connOf = r.connOf := by
  unfold updateName
  split
  · exact connOf_insert_self h rfl
  · rfl

theorem connOf_handleReceivedPeer (r : Room Id) (info : PeerInfo) :
    (r.handleReceivedPeer t info).1.connOf = r.connOf := by
  rcases r.handleReceivedPeer_cases info with h | ⟨p, st, -, -, hst, h⟩
  · rw [h]
  · rw [h, connOf_updateName hst]

theorem connOf_handlePeerDisconnected (r : Room Id) (p : Id) :
    (r.handlePeerDisconnected p).connOf = Function.update r.connOf p none := by
  unfold handlePeerDisconnected
  split
  · rename_i hp
    have hnone : none = r.connOf p := by simp [connOf, hp]
    rw [hnone, Function.update_eq_self]
  · exact connOf_erase r p

end Room

namespace Node

def registry (n : Node Id) : Registry Id (Connection Id) where
  entry := n.room.connOf
  notices := disconnects n.events

/-- What an action does to the registry: completed handshakes enroll a connection. -/
def moveOf (t : Texts Id) (n : Node Id) : Action Id → Registry.Move Id (Connection Id)
  | .reply msg =>
    match n.phase, expectPeerList msg with
    | .joined conn _, some _ => .enroll conn.remoteId conn
    | .dialed p conn _ _, some _ => .enroll p conn
    | _, _ => .keep
  | .greeted msg answered =>
    match n.phase, introduction t msg answered with
    | .greet conn, some _ => .enroll conn.remoteId conn
    | _, _ => .keep
  | .receive =>
    match n.events with
    | .peerDisconnected _ _ :: _ => .retire
    | _ => .keep
  | .stop => .clear
  | .task i a =>
    match n.room.tasks[i]?, a with
    | some task, .readError => .notify task.peer task.conn
    | some task, .closed => .notify task.peer task.conn
    | _, _ => .keep
  | _ => .keep

variable {n n' : Node Id}

theorem registry_enqueue (n : Node Id) (e : RoomEvent Id) :
    ({ n with events := n.events ++ [e] } : Node Id).registry =
      { n.registry with notices := n.registry.notices ++ disconnects [e] } := by
  simp only [registry, disconnects_append]

theorem registry_enqueue_other (n : Node Id) {e : RoomEvent Id} (he : disconnects [e] = []) :
    ({ n with events := n.events ++ [e] } : Node Id).registry = n.registry := by
  rw [registry_enqueue, he, List.append_nil]

theorem Ran.registry {i : ℕ} {task : Task Id} {a : TaskAction} (h : Ran t n i task a n')
    (htask : n.room.tasks[i]? = some task) :
    n'.registry = n.registry.move (n.moveOf t (.task i a)) := by
  simp only [moveOf, htask]
  cases h with
  | message msg => exact registry_enqueue_other n rfl
  | readError => exact registry_enqueue (n.setTasks _) (.peerDisconnected task.peer task.conn)
  | closed => exact registry_enqueue (n.setTasks _) (.peerDisconnected task.peer task.conn)
  | _ => rfl

/-- The rest of the queue, whose first event was no disconnect. -/
theorem registry_tail {e : RoomEvent Id} {events : List (RoomEvent Id)} (he : n.events = e :: events)
    (hmove : disconnects [e] = []) (phase : Phase Id) (room : Room Id)
    (hroom : room.connOf = n.room.connOf) :
    ({ n with events, phase, room } : Node Id).registry = n.registry := by
  have hevents : disconnects n.events = disconnects [e] ++ disconnects events := by
    rw [he, ← disconnects_append, List.singleton_append]
  simp only [registry, hroom, hevents, hmove, List.nil_append]

/-- Every step of a running room is a move of its registry. -/
theorem registry_step {a : Action Id} (h : n.step t a = some n') :
    n'.registry = n.registry.move (n.moveOf t a) := by
  cases stepped_of_step h with
  | joined hphase hmsg =>
    simp only [moveOf, hphase, hmsg, registry, Registry.move, Room.connOf_attachControl,
      Room.connOf_openControlAndAddPeer]
  | joinRefused hphase hmsg =>
    simp only [moveOf, hphase, hmsg]
    rfl
  | dialed hphase hmsg =>
    simp only [moveOf, hphase, hmsg, registry, Registry.move, Room.connOf_broadcastPeerList,
      Room.connOf_attachControl, Room.connOf_openControlAndAddPeer]
  | dialRefused hphase hmsg =>
    simp only [moveOf, hphase, hmsg]
    rfl
  | greeted hphase hmsg =>
    simp only [moveOf, hphase, hmsg, registry, Registry.move, Room.connOf_handleHello]
    rfl
  | greetingFailed hphase hmsg =>
    simp only [moveOf, hphase, hmsg]
    rfl
  | listNext => exact congrArg (Registry.mk · _) (n.room.connOf_handleReceivedPeer _)
  | listDial => exact congrArg (Registry.mk · _) (n.room.connOf_handleReceivedPeer _)
  | disconnected hphase hevents =>
    simp only [moveOf, hevents, registry, Registry.move, Room.connOf_broadcastPeerList,
      Room.connOf_handlePeerDisconnected]
    rfl
  | duplicate hphase hevents =>
    simp only [moveOf, hevents]
    exact registry_tail hevents rfl _ _ rfl
  | incoming hphase hevents =>
    simp only [moveOf, hevents]
    exact registry_tail hevents rfl _ _ rfl
  | peerList hphase hevents =>
    simp only [moveOf, hevents]
    exact registry_tail hevents rfl _ _ rfl
  | feedback hphase hevents =>
    simp only [moveOf, hevents]
    exact registry_tail hevents rfl _ _ rfl
  | unexpected hphase hevents =>
    simp only [moveOf, hevents]
    exact registry_tail hevents rfl _ _ rfl
  | accept p => exact registry_enqueue_other { n with connections := n.connections + 1 } rfl
  | task htask hran => exact hran.registry htask
  | _ => rfl

@[simp] theorem registry_run (endpoint : EndpointAddr Id) (media : MediaResources)
    (initial : Option (EndpointAddr Id)) :
    (run (Room.new endpoint media) initial).registry = {} := by
  cases initial <;> rfl

end Node

end Meshconf.Mesh
