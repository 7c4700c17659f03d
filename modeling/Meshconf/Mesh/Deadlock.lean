import Meshconf.Mesh.Agreement

/-! # Waiting for each other

Handshakes run inside the event loops of rooms, and an answer comes from an event loop
as well. Rooms wait for each other in one direction only, so none waits for itself.
-/

namespace Meshconf.Mesh

open Control Transition

variable {Id : Type*} [LinearOrder Id] {t : Texts Id}

namespace Network

/-- The loop of `x` dials `y`, or awaits a peer list that `y` has not written yet. -/
def Waits (net : Network Id) (x y : Id) : Prop :=
  ∃ n ∈ net.node x, (∃ addr ∈ n.dialing, addr.id = y) ∨
    ∃ conn ∈ n.awaiting, conn.remoteId = y ∧
      ∀ l ∈ net.links, l.DialedAs x conn.serial → l.reply = none

instance (net : Network Id) (x y : Id) : Decidable (net.Waits x y) :=
  inferInstanceAs (Decidable (∃ n ∈ net.node x, (∃ addr ∈ n.dialing, addr.id = y) ∨
    ∃ conn ∈ n.awaiting, conn.remoteId = y ∧
      ∀ l ∈ net.links, l.DialedAs x conn.serial → l.reply = none))

def DeadlockFree (net : Network Id) : Prop := ∀ x, ¬ Relation.TransGen net.Waits x x

variable {net : Network Id}

theorem Honest.waits (hn : net.Honest t) {x y : Id} (h : net.Waits x y) :
    net.contacts.Waits x y := by
  obtain ⟨n, hx, ⟨addr, haddr, rfl⟩ | ⟨conn, hconn, rfl, hreply⟩⟩ := h
  · left
    rw [contacts_dialing hx, Option.mem_def.mp haddr]
    rfl
  · obtain ⟨l, hl, hdialed, hacc⟩ := hn.conn x n conn hx hconn
    refine .inr ⟨l, hl, hdialed.1, ?_, hacc, hreply l hl hdialed⟩
    rw [hdialed.2]
    exact awaiting_contacts hx hconn

theorem Honest.deadlockFree (hn : net.Honest t) : net.DeadlockFree :=
  fun x hx => Contacts.State.acyclic hn.sound.ordered hn.sound.wired x
    (Relation.TransGen.mono (fun _ _ => hn.waits) x x hx)

/-- Whatever the rooms of a network do, and whatever fails, no rooms wait for each other. -/
theorem deadlockFree_of_reachable (ht : t.RoundTrip) (h : Reachable (step t) {} net) :
    net.DeadlockFree := (honest_of_reachable ht h).deadlockFree

/-- Room 1 joins room 5 and awaits its answer; meanwhile room 3 dials room 1. -/
def chain : List (Action ℕ) :=
  [.start ⟨5, []⟩ ⟨false, false, false, "e"⟩ none,
    .start ⟨1, []⟩ ⟨false, false, false, "a"⟩ (some ⟨5, []⟩),
    .start ⟨3, []⟩ ⟨false, false, false, "c"⟩ (some ⟨1, []⟩), .connect 1]

theorem deadlockFree_chain : ∃ net : Network ℕ, net.DeadlockFree ∧
    net.Waits 3 1 ∧ net.Waits 1 5 := by
  obtain ⟨net, hnet, hwaits⟩ := Option.map_eq_some_iff.mp
    (by decide +kernel : (exec (step unaryTexts) {} chain).map
      (fun net => decide (net.Waits 3 1 ∧ net.Waits 1 5)) = some true)
  have hfree := deadlockFree_of_reachable roundTrip_unaryTexts ⟨_, run_of_exec hnet⟩
  exact ⟨net, hfree, of_decide_eq_true hwaits⟩

end Network

end Meshconf.Mesh
