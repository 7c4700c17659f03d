import Mathlib.Logic.Function.Basic
import Mathlib.Data.List.Basic
import Mathlib.Order.Lattice
import Mathlib.Tactic.Common

/-! # Parties that contact each other

A party dials one other party at a time and awaits an answer on the connection. It
answers the connections that it has accepted one after the other, and has at most one
entry per party. The first dial of a party may redeem a ticket and goes to an older
party; all others go upwards in the order of the keys.
-/

namespace Contacts

/-- A connection, with the serial numbers that its two ends have given it. -/
structure Link (K M : Type*) where
  dialer : K
  dialerSerial : ℕ
  acceptor : K
  hello : M
  acceptorSerial : Option ℕ := none
  /-- The answer, once it is written. -/
  reply : Option M := none
  deriving DecidableEq, Repr

variable {K M : Type*}

namespace Link

/-- The dialer's end. -/
def DialedAs (l : Link K M) (x : K) (serial : ℕ) : Prop := l.dialer = x ∧ l.dialerSerial = serial

/-- The acceptor's end. -/
def AcceptedAs (l : Link K M) (x : K) (serial : ℕ) : Prop :=
  l.acceptor = x ∧ l.acceptorSerial = some serial

/-- The end at `x` is known there as `serial`, and the other end is at `y`. -/
def Joins (l : Link K M) (x : K) (serial : ℕ) (y : K) : Prop :=
  l.DialedAs x serial ∧ l.acceptor = y ∨ l.AcceptedAs x serial ∧ l.dialer = y

variable [DecidableEq K]

instance (l : Link K M) (x : K) (serial : ℕ) : Decidable (l.DialedAs x serial) :=
  inferInstanceAs (Decidable (_ ∧ _))

instance (l : Link K M) (x : K) (serial : ℕ) : Decidable (l.AcceptedAs x serial) :=
  inferInstanceAs (Decidable (_ ∧ _))

/-- Give the connection that `x` has dialled as `serial` a number at its other end. -/
def accept (l : Link K M) (x : K) (serial t : ℕ) : Link K M :=
  if l.DialedAs x serial then { l with acceptorSerial := some t } else l

/-- Answer the connection that `y` has accepted as `t`. -/
def answer (l : Link K M) (y : K) (t : ℕ) (msg : M) : Link K M :=
  if l.AcceptedAs y t then { l with reply := some msg } else l

variable (l : Link K M) (x : K) (serial t : ℕ) (msg : M)

@[simp] theorem dialer_accept : (l.accept x serial t).dialer = l.dialer := by
  unfold accept; split <;> rfl

@[simp] theorem dialerSerial_accept : (l.accept x serial t).dialerSerial = l.dialerSerial := by
  unfold accept; split <;> rfl

@[simp] theorem acceptor_accept : (l.accept x serial t).acceptor = l.acceptor := by
  unfold accept; split <;> rfl

@[simp] theorem hello_accept : (l.accept x serial t).hello = l.hello := by
  unfold accept; split <;> rfl

@[simp] theorem reply_accept : (l.accept x serial t).reply = l.reply := by
  unfold accept; split <;> rfl

@[simp] theorem dialer_answer : (l.answer x t msg).dialer = l.dialer := by
  unfold answer; split <;> rfl

@[simp] theorem dialerSerial_answer : (l.answer x t msg).dialerSerial = l.dialerSerial := by
  unfold answer; split <;> rfl

@[simp] theorem acceptor_answer : (l.answer x t msg).acceptor = l.acceptor := by
  unfold answer; split <;> rfl

@[simp] theorem hello_answer : (l.answer x t msg).hello = l.hello := by
  unfold answer; split <;> rfl

@[simp] theorem acceptorSerial_answer :
    (l.answer x t msg).acceptorSerial = l.acceptorSerial := by
  unfold answer; split <;> rfl

theorem acceptorSerial_accept :
    (l.accept x serial t).acceptorSerial =
      if l.DialedAs x serial then some t else l.acceptorSerial := by
  unfold accept; split <;> rfl

theorem reply_answer :
    (l.answer x t msg).reply = if l.AcceptedAs x t then some msg else l.reply := by
  unfold answer; split <;> rfl

theorem reply_answer_ne_none (h : l.reply ≠ none) : (l.answer x t msg).reply ≠ none := by
  rw [reply_answer]
  split
  · exact Option.some_ne_none msg
  · exact h

end Link

/-- A connection among the old ones and a new one. -/
theorem mem_dialed {links : List (Link K M)} {l new : Link K M} (h : l ∈ links ++ [new]) :
    l ∈ links ∨ l = new := by
  rcases List.mem_append.mp h with h | h
  · exact .inl h
  · exact .inr (List.mem_singleton.mp h)

structure State (K M : Type*) where
  /-- All parties, in the order in which they started. -/
  started : List K := []
  /-- The parties that have redeemed their ticket, or had none. -/
  joined : K → Bool := fun _ => false
  accepting : K → Bool := fun _ => false
  dialing : K → Option K := fun _ => none
  /-- The connection on which a party awaits an answer. -/
  awaiting : K → Option ℕ := fun _ => none
  /-- The accepted connections that are not handled yet, with their dialers. -/
  queue : K → List (ℕ × K) := fun _ => []
  entry : K → K → Option ℕ := fun _ _ => none
  /-- A party numbers its connections in the order in which it makes or accepts them. -/
  next : K → ℕ := fun _ => 0
  links : List (Link K M) := []

namespace State

variable [LinearOrder K]

/-- A party may be known to others once it has joined or its first dial is answered. -/
def Known (s : State K M) (y : K) : Prop :=
  s.joined y ∨ ∃ l ∈ s.links, l.dialer = y ∧ l.reply ≠ none

/-- A party that has joined calls those known under a larger key. -/
def Upward (s : State K M) (x y : K) : Prop := s.joined x ∧ x < y ∧ s.Known y

/-- A ticket of `x` names a party that started before `x`. -/
def Younger (s : State K M) (x y : K) : Prop :=
  x ∈ s.started ∧ y ∈ s.started ∧ s.started.idxOf y < s.started.idxOf x

/-- The connection is not accepted yet, and no later one of its dialer is. -/
def NotOvertaken (s : State K M) (l : Link K M) : Prop :=
  l.acceptorSerial = none ∧
    ∀ l' ∈ s.links, l'.dialer = l.dialer → l'.acceptor = l.acceptor →
      l.dialerSerial < l'.dialerSerial → l'.acceptorSerial = none

variable (s : State K M)

/-- A party starts without a ticket. -/
def found (x : K) : State K M :=
  { s with
    started := s.started ++ [x]
    joined := Function.update s.joined x true
    accepting := Function.update s.accepting x true }

/-- A party starts with a ticket of `y`. -/
def join (x y : K) : State K M :=
  { s with
    started := s.started ++ [x]
    dialing := Function.update s.dialing x (some y) }

def call (x y : K) : State K M := { s with dialing := Function.update s.dialing x (some y) }

def hangUp (x : K) : State K M := { s with dialing := Function.update s.dialing x none }

def connect (x y : K) (hello : M) : State K M :=
  { s with
    dialing := Function.update s.dialing x none
    awaiting := Function.update s.awaiting x (some (s.next x))
    next := Function.update s.next x (s.next x + 1)
    links := s.links ++ [{ dialer := x, dialerSerial := s.next x, acceptor := y, hello }] }

def giveUp (x : K) : State K M := { s with awaiting := Function.update s.awaiting x none }

/-- A connection from `x` comes in at `y`. -/
def push (y x : K) : State K M :=
  { s with
    queue := Function.update s.queue y (s.queue y ++ [(s.next y, x)])
    next := Function.update s.next y (s.next y + 1) }

/-- The connection comes in at its acceptor. -/
def accept (l : Link K M) : State K M :=
  { s.push l.acceptor l.dialer with
    links := s.links.map fun l' => l'.accept l.dialer l.dialerSerial (s.next l.acceptor) }

/-- The first connection in the queue has been handled. -/
def pop (y : K) : State K M := { s with queue := Function.update s.queue y (s.queue y).tail }

def enter (x y : K) (serial : ℕ) : State K M :=
  { s with entry := Function.update s.entry x (Function.update (s.entry x) y (some serial)) }

/-- The connection that `y` has accepted as `t` is answered. -/
def answer (y x : K) (t : ℕ) (msg : M) : State K M :=
  { (s.pop y).enter y x t with links := s.links.map fun l => l.answer y t msg }

/-- The answer has arrived. -/
def complete (x y : K) (serial : ℕ) : State K M :=
  { (s.giveUp x).enter x y serial with joined := Function.update s.joined x true }

def settle (x : K) : State K M := { s with accepting := Function.update s.accepting x true }

def forget (x : K) (entry : K → Option ℕ) : State K M :=
  { s with entry := Function.update s.entry x entry }

variable {s}

/-- What parties do as long as nothing fails. -/
inductive Step (s : State K M) : State K M → Prop where
  | found {x : K} : x ∉ s.started → Step s (s.found x)
  | join {x y : K} : x ∉ s.started → y ∈ s.started → Step s (s.join x y)
  | call {x y : K} : s.awaiting x = none → s.entry x y = none → s.Upward x y → Step s (s.call x y)
  | connect {x y : K} (hello : M) : s.dialing x = some y → s.accepting y →
      Step s (s.connect x y hello)
  | accept {l : Link K M} : l ∈ s.links → s.NotOvertaken l → Step s (s.accept l)
  /-- A party that has an entry connects once more. -/
  | ignore {y x : K} {t : ℕ} : (t, x) ∈ (s.queue y).head? → s.entry y x ≠ none → Step s (s.pop y)
  | answer {y x : K} {t : ℕ} {l : Link K M} (msg : M) : (t, x) ∈ (s.queue y).head? →
      s.entry y x = none → s.dialing y = none → s.awaiting y = none →
      l ∈ s.links → l.AcceptedAs y t → Step s (s.answer y x t msg)
  | complete {l : Link K M} : l ∈ s.links → s.awaiting l.dialer = some l.dialerSerial →
      l.reply ≠ none → Step s (s.complete l.dialer l.acceptor l.dialerSerial)
  /-- The connection on which an answer was awaited has been ignored. -/
  | dropped {l : Link K M} {t : ℕ} : l ∈ s.links → s.awaiting l.dialer = some l.dialerSerial →
      l.reply = none → l.acceptorSerial = some t → (t, l.dialer) ∉ s.queue l.acceptor →
      Step s (s.giveUp l.dialer)
  | settle {x : K} : s.joined x → Step s (s.settle x)

/-- What else may happen. -/
inductive Fault (s : State K M) : State K M → Prop where
  | hangUp (x : K) : Fault s (s.hangUp x)
  | giveUp (x : K) : Fault s (s.giveUp x)
  /-- A connection comes in whose dialer has given up already. -/
  | stray {y : K} (x : K) : s.accepting y → Fault s (s.push y x)
  | refuse (y : K) : Fault s (s.pop y)
  | forget {x : K} {entry : K → Option ℕ} : (∀ y, entry y = none ∨ entry y = s.entry x y) →
      Fault s (s.forget x entry)

end State

/-! ## The part of one party -/

structure Party (K : Type*) where
  joined : Bool
  accepting : Bool
  dialing : Option K
  awaiting : Option ℕ
  queue : List (ℕ × K)
  entry : K → Option ℕ
  next : ℕ

namespace State

variable (s : State K M) (x y : K)

def party : Party K where
  joined := s.joined x
  accepting := s.accepting x
  dialing := s.dialing x
  awaiting := s.awaiting x
  queue := s.queue x
  entry := s.entry x
  next := s.next x

variable [LinearOrder K]

def put (p : Party K) : State K M :=
  { s with
    joined := Function.update s.joined x p.joined
    accepting := Function.update s.accepting x p.accepting
    dialing := Function.update s.dialing x p.dialing
    awaiting := Function.update s.awaiting x p.awaiting
    queue := Function.update s.queue x p.queue
    entry := Function.update s.entry x p.entry
    next := Function.update s.next x p.next }

theorem put_party : s.put x (s.party x) = s := by simp [put, party]

theorem found_eq_put :
    s.found x =
      { s.put x { s.party x with joined := true, accepting := true } with
        started := s.started ++ [x] } := by
  simp [found, put, party]

theorem join_eq_put :
    s.join x y =
      { s.put x { s.party x with dialing := some y } with started := s.started ++ [x] } := by
  simp [join, put, party]

theorem call_eq_put : s.call x y = s.put x { s.party x with dialing := some y } := by
  simp [call, put, party]

theorem hangUp_eq_put : s.hangUp x = s.put x { s.party x with dialing := none } := by
  simp [hangUp, put, party]

theorem connect_eq_put (hello : M) :
    s.connect x y hello =
      { s.put x { s.party x with
          dialing := none, awaiting := some (s.next x), next := s.next x + 1 } with
        links := s.links ++ [{ dialer := x, dialerSerial := s.next x, acceptor := y, hello }] } := by
  simp [connect, put, party]

theorem giveUp_eq_put : s.giveUp x = s.put x { s.party x with awaiting := none } := by
  simp [giveUp, put, party]

theorem push_eq_put :
    s.push y x =
      s.put y { s.party y with queue := s.queue y ++ [(s.next y, x)], next := s.next y + 1 } := by
  simp [push, put, party]

theorem pop_eq_put : s.pop y = s.put y { s.party y with queue := (s.queue y).tail } := by
  simp [pop, put, party]

theorem accept_eq_put (l : Link K M) :
    s.accept l =
      { s.put l.acceptor { s.party l.acceptor with
          queue := s.queue l.acceptor ++ [(s.next l.acceptor, l.dialer)]
          next := s.next l.acceptor + 1 } with
        links := s.links.map fun l' => l'.accept l.dialer l.dialerSerial (s.next l.acceptor) } := by
  simp [accept, push, put, party]

theorem answer_eq_put (t : ℕ) (msg : M) :
    s.answer y x t msg =
      { s.put y { s.party y with
          queue := (s.queue y).tail, entry := Function.update (s.entry y) x (some t) } with
        links := s.links.map fun l => l.answer y t msg } := by
  simp [answer, enter, pop, put, party]

theorem complete_eq_put (serial : ℕ) :
    s.complete x y serial =
      s.put x { s.party x with
        joined := true, awaiting := none,
        entry := Function.update (s.entry x) y (some serial) } := by
  simp [complete, enter, giveUp, put, party]

theorem settle_eq_put : s.settle x = s.put x { s.party x with accepting := true } := by
  simp [settle, put, party]

theorem forget_eq_put (entry : K → Option ℕ) :
    s.forget x entry = s.put x { s.party x with entry } := by
  simp [forget, put, party]

end State

end Contacts
