import Mathlib.Logic.Function.Basic
import Mathlib.Tactic.Common

/-! # Publication behind a flag

A writer stores into registers one by one and raises a flag behind them. A reader that
lowers the flag before it reads, and reads only if the flag was up, misses nothing: what it
has is what the registers hold, unless the flag is up or about to be raised.
-/

namespace Publication

variable {ι V : Type*} {reg : ι → V} {view : ι → Option V} {flag : Bool}

/-- A store of the writer. -/
inductive Store (ι V : Type*)
  | put (i : ι) (v : V)
  | raise
  deriving DecidableEq, Repr

variable {pending : List (Store ι V)}

/-- Behind every register that is still to be stored, the flag is still to be raised. -/
def Announced : List (Store ι V) → Prop
  | [] => True
  | .put _ _ :: pending => .raise ∈ pending ∧ Announced pending
  | .raise :: pending => Announced pending

/-- What the reader has is what the registers hold; where it has nothing, it will read. -/
def Agree (reg : ι → V) (view : ι → Option V) : Prop := ∀ i v, view i = some v → reg i = v

/-- The reader agrees with the registers, or the flag is up or about to be raised. -/
def Fresh (pending : List (Store ι V)) (flag : Bool) (reg : ι → V) (view : ι → Option V) : Prop :=
  .raise ∈ pending ∨ flag = true ∨ Agree reg view

/-! ## The writer -/

theorem Announced.tail {a : Store ι V} (h : Announced (a :: pending)) : Announced pending := by
  cases a with
  | put i v => exact h.2
  | raise => exact h

theorem Fresh.put [DecidableEq ι] {i : ι} {v : V} (hann : Announced (.put i v :: pending)) :
    Fresh pending flag (Function.update reg i v) view := .inl hann.1

theorem Fresh.raise : Fresh pending true reg view := .inr (.inl rfl)

/-- A new batch of stores changes nothing yet. -/
theorem Fresh.more {batch : List (Store ι V)} (h : Fresh [] flag reg view) :
    Fresh batch flag reg view := by
  rcases h with h | h
  · cases h
  · exact .inr h

/-! ## The reader -/

/-- The flag was up: the reader lowers it and will read everything. -/
theorem Fresh.restart : Fresh pending flag reg fun _ => none := .inr (.inr nofun)

/-- The flag was down, and stays so. -/
theorem Fresh.down (hflag : flag = false) (h : Fresh pending flag reg view) :
    Fresh pending false reg view := by
  rwa [hflag] at h

/-- The reader loads one register. -/
theorem Fresh.load [DecidableEq ι] {view' : ι → Option V} (h : Fresh pending flag reg view) (i : ι)
    (hview : view' = Function.update view i (some (reg i))) : Fresh pending flag reg view' := by
  rw [hview]
  refine h.imp id (Or.imp id fun hagree j v hj => ?_)
  by_cases heq : j = i
  · subst heq
    simpa using hj
  · rw [Function.update_of_ne heq] at hj
    exact hagree j v hj

/-- Once the writer is idle and the flag is down, the reader agrees. -/
theorem Fresh.agree (h : Fresh [] false reg view) : Agree reg view := by
  rcases h with h | h | h
  · cases h
  · cases h
  · exact h

end Publication
