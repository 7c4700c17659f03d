import Mathlib.Data.Nat.Bitwise
import Mathlib.Tactic.Ring
import Mathlib.Tactic.NormNum

/-! # Big-endian byte strings

A natural number becomes a fixed number of bytes, most significant first, and
back. A prefix tag in the top bits is added by `|||` and removed by masking the
first byte.
-/

namespace Bytes

/-- The `w` big-endian bytes of `n`, dropping everything above them. -/
def toBe : ℕ → ℕ → List UInt8
  | 0, _ => []
  | w + 1, n => UInt8.ofNat (n / 256 ^ w) :: toBe w n

/-- The number with the given big-endian bytes. -/
def ofBe : List UInt8 → ℕ
  | [] => 0
  | b :: bs => b.toNat * 256 ^ bs.length + ofBe bs

@[simp] theorem toBe_zero (n : ℕ) : toBe 0 n = [] := rfl

theorem toBe_succ (w n : ℕ) : toBe (w + 1) n = UInt8.ofNat (n / 256 ^ w) :: toBe w n := rfl

@[simp] theorem length_toBe (w n : ℕ) : (toBe w n).length = w := by
  induction w with
  | zero => rfl
  | succ w ih => simp [toBe, ih]

theorem ofBe_lt (bs : List UInt8) : ofBe bs < 256 ^ bs.length := by
  induction bs with
  | nil => simp [ofBe]
  | cons b bs ih =>
    have hb : b.toNat < 256 := b.toNat_lt
    calc ofBe (b :: bs) < b.toNat * 256 ^ bs.length + 256 ^ bs.length := by
          simp only [ofBe]; omega
      _ = (b.toNat + 1) * 256 ^ bs.length := by ring
      _ ≤ 256 * 256 ^ bs.length := Nat.mul_le_mul_right _ hb
      _ = 256 ^ (b :: bs).length := by rw [List.length_cons, pow_succ']

theorem ofBe_toBe (w n : ℕ) : ofBe (toBe w n) = n % 256 ^ w := by
  induction w with
  | zero => simp [ofBe, Nat.mod_one]
  | succ w ih =>
    have hb : (UInt8.ofNat (n / 256 ^ w)).toNat = n / 256 ^ w % 256 := by simp
    rw [toBe_succ, ofBe, length_toBe, ih, hb, pow_succ, Nat.mod_mul]
    ring

theorem ofBe_toBe_of_lt {w n : ℕ} (h : n < 256 ^ w) : ofBe (toBe w n) = n := by
  rw [ofBe_toBe, Nat.mod_eq_of_lt h]

theorem toBe_mod (w n : ℕ) : toBe w (n % 256 ^ w) = toBe w n := by
  have key : ∀ v ≤ w, toBe v (n % 256 ^ w) = toBe v n := by
    intro v hv
    induction v with
    | zero => rfl
    | succ v ih =>
      obtain ⟨d, rfl⟩ : ∃ d, w = v + (d + 1) := ⟨w - v - 1, by omega⟩
      have hd : n % 256 ^ (v + (d + 1)) / 256 ^ v = n / 256 ^ v % 256 ^ (d + 1) := by
        rw [pow_add, Nat.mod_mul_right_div_self]
      have hm : n / 256 ^ v % 256 ^ (d + 1) % 256 = n / 256 ^ v % 256 :=
        Nat.mod_mod_of_dvd _ (dvd_pow_self 256 (by omega))
      rw [toBe_succ, toBe_succ, ih (by omega), hd]
      congr 1
      apply UInt8.toNat_inj.mp
      simp [hm]
  exact key w le_rfl

theorem ofBe_cons_div (b : UInt8) (bs : List UInt8) :
    ofBe (b :: bs) / 256 ^ bs.length = b.toNat := by
  have hpos : 0 < 256 ^ bs.length := by positivity
  rw [ofBe, Nat.mul_comm, Nat.mul_add_div hpos, Nat.div_eq_of_lt (ofBe_lt bs), Nat.add_zero]

/-- A byte string is determined by its length and its number. -/
theorem toBe_ofBe (bs : List UInt8) : toBe bs.length (ofBe bs) = bs := by
  induction bs with
  | nil => rfl
  | cons b bs ih =>
    have hrest : toBe bs.length (ofBe (b :: bs)) = bs := by
      rw [ofBe, ← toBe_mod, Nat.mul_add_mod_self_right, Nat.mod_eq_of_lt (ofBe_lt bs), ih]
    rw [List.length_cons, toBe_succ, ofBe_cons_div, hrest, UInt8.ofNat_toNat]

end Bytes
