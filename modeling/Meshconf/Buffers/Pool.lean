import Mathlib.Data.List.Basic
import Mathlib.Tactic.Common

/-! # Buffer pools

A pool is a stack of vectors at rest. A checkout takes the top one, or makes a new
vector when none is left; a vector that comes back is cleared first. `checkout` does
not clear: it relies on the vectors at rest being empty.
-/

namespace Meshconf.Buffers

variable {α : Type}

/-- A vector, with the identity of its allocation. -/
structure Buf (α : Type) where
  id : ℕ
  elems : List α
  deriving DecidableEq, Repr

namespace Buf

def clear (v : Buf α) : Buf α := { v with elems := [] }

/-- Cut off or fill up with default elements, keeping what is there. -/
def resizeWith [Inhabited α] (v : Buf α) (len : ℕ) : Buf α :=
  { v with elems := v.elems.take len ++ List.replicate (len - v.elems.length) default }

def truncate (v : Buf α) (len : ℕ) : Buf α := { v with elems := v.elems.take len }

@[simp] theorem id_clear (v : Buf α) : v.clear.id = v.id := rfl

@[simp] theorem elems_clear (v : Buf α) : v.clear.elems = [] := rfl

@[simp] theorem id_resizeWith [Inhabited α] (v : Buf α) (len : ℕ) :
    (v.resizeWith len).id = v.id := rfl

@[simp] theorem id_truncate (v : Buf α) (len : ℕ) : (v.truncate len).id = v.id := rfl

theorem elems_resizeWith [Inhabited α] {v : Buf α} (h : v.elems = []) (len : ℕ) :
    (v.resizeWith len).elems = List.replicate len default := by
  simp [resizeWith, h]

end Buf

structure BufPool (α : Type) where
  /-- The vectors at rest, the top of the stack first. -/
  resting : List (Buf α) := []
  /-- How many vectors there have been; the next one gets this number. -/
  created : ℕ := 0
  deriving DecidableEq, Repr

/-- A vector checked out by one owner; `none` once the vector has been taken out of it. -/
structure PoolBuf (α : Type) where
  inner : Option (Buf α)
  deriving DecidableEq, Repr

namespace BufPool

/-- The top vector, or a new one. -/
def pop (p : BufPool α) : Buf α × BufPool α :=
  match p.resting with
  | v :: rest => (v, { p with resting := rest })
  | [] => (⟨p.created, []⟩, { p with created := p.created + 1 })

def push (p : BufPool α) (v : Buf α) : BufPool α := { p with resting := v :: p.resting }

def checkoutEmpty (p : BufPool α) : PoolBuf α × BufPool α :=
  (⟨some p.pop.1.clear⟩, p.pop.2)

def checkout [Inhabited α] (p : BufPool α) (len : ℕ) : PoolBuf α × BufPool α :=
  (⟨some (p.pop.1.resizeWith len)⟩, p.pop.2)

/-- The vectors at rest are empty. -/
def Clean (p : BufPool α) : Prop := ∀ v ∈ p.resting, v.elems = []

variable {p : BufPool α}

theorem Clean.pop (h : p.Clean) : p.pop.1.elems = [] ∧ p.pop.2.Clean := by
  unfold BufPool.pop
  cases hr : p.resting with
  | nil => exact ⟨rfl, by simp [Clean]⟩
  | cons v rest =>
    rw [Clean, hr] at h
    exact ⟨h v List.mem_cons_self, fun w hw => h w (List.mem_cons_of_mem _ hw)⟩

theorem Clean.push (h : p.Clean) (v : Buf α) : (p.push v.clear).Clean := by
  intro w hw
  rcases List.mem_cons.mp hw with rfl | hw
  · rfl
  · exact h w hw

end BufPool

namespace PoolBuf

/-- Nothing goes back to the pool from a buffer whose vector was taken out. -/
def drop (b : PoolBuf α) (p : BufPool α) : BufPool α :=
  match b.inner with
  | some v => p.push v.clear
  | none => p

/-- The elements, as a slice. -/
def deref (b : PoolBuf α) : Option (List α) := b.inner.map (·.elems)

def push (b : PoolBuf α) (value : α) : Option (PoolBuf α) :=
  b.inner.map fun v => ⟨some { v with elems := v.elems ++ [value] }⟩

def pushSlice (b : PoolBuf α) (values : List α) : Option (PoolBuf α) :=
  b.inner.map fun v => ⟨some { v with elems := v.elems ++ values }⟩

/-- Writing to the slice keeps its length. -/
def write (b : PoolBuf α) (values : List α) : Option (PoolBuf α) :=
  b.inner.bind fun v =>
    if values.length = v.elems.length then some ⟨some { v with elems := values }⟩ else none

/-- The vector, and what is left of the buffer and will be dropped. -/
def take (b : PoolBuf α) : Option (Buf α × PoolBuf α) := b.inner.map fun v => (v, ⟨none⟩)

end PoolBuf

/-- A vector behind reference-counted handles, of which there is at least one. -/
structure SharedBuf (α : Type) where
  data : Buf α
  handles : ℕ
  pos : 0 < handles

namespace SharedBuf

def new (v : Buf α) : SharedBuf α := ⟨v, 1, Nat.one_pos⟩

def clone (s : SharedBuf α) : SharedBuf α := ⟨s.data, s.handles + 1, Nat.succ_pos _⟩

/-- Drop one handle: the others remain, or the last one is gone. -/
def release (s : SharedBuf α) : Option (SharedBuf α) :=
  if h : 0 < s.handles - 1 then some ⟨s.data, s.handles - 1, h⟩ else none

/-- What dropping the last handle does. -/
def dropInner (s : SharedBuf α) (p : BufPool α) : BufPool α := p.push s.data.clear

end SharedBuf

namespace PoolBuf

def share (b : PoolBuf α) : Option (SharedBuf α × PoolBuf α) :=
  b.take.map fun r => (.new r.1, r.2)

def truncateAndShare (b : PoolBuf α) (len : ℕ) : Option (SharedBuf α × PoolBuf α) :=
  b.take.map fun r => (.new (r.1.truncate len), r.2)

end PoolBuf

end Meshconf.Buffers
