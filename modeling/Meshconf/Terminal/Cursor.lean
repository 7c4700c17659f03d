import Mathlib.Data.String.Basic
import Mathlib.Tactic.Common

/-! # The cursor of a terminal

A terminal puts characters one after another and goes on in the next row where a character
has no room. None of this is in the program: characters have the columns that the terminal
gives them, and only what is documented of printable ones is assumed. A text of fewer columns
than are left in two rows stays in these.
-/

namespace Meshconf.Terminal

structure Cursor where
  col : ℕ
  row : ℕ
  deriving DecidableEq, Repr

/-- Moving the cursor leaves it in the window. -/
def Cursor.moveTo (cols rows col row : ℕ) : Cursor := ⟨min col (cols - 1), min row (rows - 1)⟩

/-- The columns of a character, and how the cursor moves where there are `cols` columns. -/
structure Tty where
  width : Char → ℕ
  put : ℕ → Cursor → Char → Cursor

/-- Neither control character nor delete. -/
def Printable (c : Char) : Prop := 32 ≤ c.toNat ∧ ¬ (127 ≤ c.toNat ∧ c.toNat < 160)

instance (c : Char) : Decidable (Printable c) := inferInstanceAs (Decidable (_ ∧ _))

def PrintableText (text : List Char) : Prop := ∀ c ∈ text, Printable c

instance (text : List Char) : Decidable (PrintableText text) := List.decidableBAll Printable text

namespace Tty

variable (t : Tty)

/-- What terminals document of printable characters. -/
structure Documented (t : Tty) : Prop where
  fits : ∀ cols cur c, Printable c → cur.col + t.width c ≤ cols →
    t.put cols cur c = ⟨cur.col + t.width c, cur.row⟩
  wraps : ∀ cols cur c, Printable c → cols < cur.col + t.width c →
    t.put cols cur c = ⟨t.width c, cur.row + 1⟩
  /-- No character is wider than two columns, or than its bytes. -/
  width_le : ∀ c, Printable c → t.width c ≤ 2 ∧ t.width c ≤ c.utf8Size
  /-- The ellipsis and the dot take one column. -/
  narrow : t.width '…' ≤ 1 ∧ t.width '●' ≤ 1

/-- The rows of the characters of a text. -/
def rows (cols : ℕ) : Cursor → List Char → List ℕ
  | _, [] => []
  | cur, c :: text => (t.put cols cur c).row :: rows cols (t.put cols cur c) text

/-- The columns of a text in a row that is long enough. -/
def textWidth : List Char → ℕ
  | [] => 0
  | c :: text => t.width c + textWidth text

variable {t : Tty} {cols : ℕ} {cur : Cursor} {text text' : List Char}

@[simp] theorem textWidth_nil : t.textWidth [] = 0 := rfl

@[simp] theorem textWidth_cons (c : Char) :
    t.textWidth (c :: text) = t.width c + t.textWidth text := rfl

@[simp] theorem textWidth_append :
    t.textWidth (text ++ text') = t.textWidth text + t.textWidth text' := by
  induction text with
  | nil => exact (Nat.zero_add _).symm
  | cons c text ih => rw [List.cons_append, textWidth_cons, textWidth_cons, ih, Nat.add_assoc]

theorem Documented.rows_of_fits (ht : t.Documented) (hprint : PrintableText text)
    (hfit : cur.col + t.textWidth text ≤ cols) : ∀ row ∈ t.rows cols cur text, row = cur.row := by
  induction text generalizing cur with
  | nil => simp [rows]
  | cons c text ih =>
    rw [textWidth_cons] at hfit
    have hput : t.put cols cur c = ⟨cur.col + t.width c, cur.row⟩ :=
      ht.fits cols cur c (hprint c List.mem_cons_self) (by omega)
    intro row hrow
    rw [rows, hput] at hrow
    rcases List.mem_cons.mp hrow with rfl | hrow
    · rfl
    · have hrest : ∀ row ∈ t.rows cols ⟨cur.col + t.width c, cur.row⟩ text, row = cur.row :=
        ih (fun c hc => hprint c (List.mem_cons_of_mem _ hc)) (by dsimp only; omega)
      exact hrest row hrow

/-- A text with less than two rows of columns is wrapped once at the most. -/
theorem Documented.rows_of_lt (ht : t.Documented) (hprint : PrintableText text)
    (hfit : cur.col + t.textWidth text < 2 * cols) :
    ∀ row ∈ t.rows cols cur text, row = cur.row ∨ row = cur.row + 1 := by
  induction text generalizing cur with
  | nil => simp [rows]
  | cons c text ih =>
    rw [textWidth_cons] at hfit
    have hc := hprint c List.mem_cons_self
    have hrest : PrintableText text := fun c hc => hprint c (List.mem_cons_of_mem _ hc)
    intro row hrow
    rw [rows] at hrow
    rcases Nat.lt_or_ge cols (cur.col + t.width c) with hlt | hle
    · -- At most one column is left unused, so that the rest fits into the next row.
      have hwidth := (ht.width_le c hc).1
      rw [ht.wraps cols cur c hc hlt] at hrow
      rcases List.mem_cons.mp hrow with rfl | hrow
      · exact Or.inr rfl
      · exact Or.inr (ht.rows_of_fits hrest (by dsimp only; omega) row hrow)
    · rw [ht.fits cols cur c hc hle] at hrow
      rcases List.mem_cons.mp hrow with rfl | hrow
      · exact Or.inl rfl
      · have hnext : ∀ row ∈ t.rows cols ⟨cur.col + t.width c, cur.row⟩ text,
            row = cur.row ∨ row = cur.row + 1 := ih hrest (by dsimp only; omega)
        exact hnext row hrow

theorem textWidth_le_length (h : ∀ c ∈ text, t.width c ≤ 1) : t.textWidth text ≤ text.length := by
  induction text with
  | nil => exact Nat.le_refl 0
  | cons c text ih =>
    have hc := h c List.mem_cons_self
    have hrest := ih fun c hc => h c (List.mem_cons_of_mem _ hc)
    rw [textWidth_cons, List.length_cons]
    omega

/-- The bytes of a text are as many as its columns, or more. -/
theorem Documented.textWidth_le (ht : t.Documented) (hprint : PrintableText text) :
    t.textWidth text ≤ (String.ofList text).utf8ByteSize := by
  rw [String.utf8ByteSize_ofList]
  induction text with
  | nil => exact Nat.zero_le _
  | cons c text ih =>
    have hwidth := (ht.width_le c (hprint c List.mem_cons_self)).2
    have hrest := ih fun c hc => hprint c (List.mem_cons_of_mem _ hc)
    rw [textWidth_cons, String.utf8Len_cons]
    omega

theorem Documented.width_space (ht : t.Documented) : t.width ' ' ≤ 1 :=
  (ht.width_le ' ' (by decide)).2

end Tty

end Meshconf.Terminal
