import Mathlib.Algebra.Order.Group.Abs
import Mathlib.Data.Sign.Basic
import Mathlib.Tactic.Common

/-! # Limiters

A limiter leaves values within full scale alone and puts those beyond it on a curve, the
negative ones on its mirror image. Bounds and signs are those of the curve. Order is kept
on either side of full scale; across it, order is kept exactly if the curve does not fall
below the smaller value.
-/

namespace Signal

variable {K : Type*} [AddCommGroup K] [LinearOrder K]

/-- The value itself up to full scale `a`, and beyond on the curve `g`. -/
def limit (a : K) (g : K → K) (x : K) : K :=
  if |x| ≤ a then x else if 0 ≤ x then g |x| else -g |x|

/-- A curve that rises within full scale. -/
structure Saturating (a : K) (g : K → K) : Prop where
  nonneg : 0 ≤ a
  pos : ∀ x, a < x → 0 < g x
  le : ∀ x, a < x → g x ≤ a
  mono : ∀ x y, a < x → x ≤ y → g x ≤ g y

/-- Where a value lies. -/
theorem scale_cases (a x : K) : x < -a ∨ (-a ≤ x ∧ x ≤ a) ∨ a < x := by
  rcases lt_or_ge x (-a) with h | h
  · exact .inl h
  · rcases le_or_gt x a with h' | h'
    · exact .inr (.inl ⟨h, h'⟩)
    · exact .inr (.inr h')

variable [IsOrderedAddMonoid K] {a x y : K} {g : K → K}

theorem limit_of_within (h : -a ≤ x) (h' : x ≤ a) : limit a g x = x :=
  if_pos (abs_le.mpr ⟨h, h'⟩)

theorem limit_of_above (ha : 0 ≤ a) (h : a < x) : limit a g x = g x := by
  have hx : 0 ≤ x := ha.trans h.le
  rw [limit, abs_of_nonneg hx, if_neg (not_le.mpr h), if_pos hx]

theorem limit_of_below (ha : 0 ≤ a) (h : x < -a) : limit a g x = -g (-x) := by
  have hx : x < 0 := lt_of_lt_of_le h (neg_nonpos.mpr ha)
  rw [limit, abs_of_neg hx, if_neg (not_le.mpr (lt_neg.mp h)), if_neg (not_le.mpr hx)]

/-- The negative values are on the mirror image. -/
theorem limit_neg (ha : 0 ≤ a) (x : K) : limit a g (-x) = -limit a g x := by
  rcases scale_cases a x with h | ⟨h, h'⟩ | h
  · rw [limit_of_below ha h, limit_of_above ha (lt_neg.mp h), neg_neg]
  · rw [limit_of_within h h', limit_of_within (neg_le_neg h') (neg_le.mp h)]
  · rw [limit_of_above ha h, limit_of_below ha (neg_lt_neg h), neg_neg]

namespace Saturating

theorem abs_limit_le (hg : Saturating a g) (x : K) : |limit a g x| ≤ a := by
  rcases scale_cases a x with h | ⟨h, h'⟩ | h
  · have hx : a < -x := lt_neg.mp h
    rw [limit_of_below hg.nonneg h, abs_neg, abs_of_pos (hg.pos _ hx)]
    exact hg.le _ hx
  · rw [limit_of_within h h']
    exact abs_le.mpr ⟨h, h'⟩
  · rw [limit_of_above hg.nonneg h, abs_of_pos (hg.pos _ h)]
    exact hg.le _ h

theorem sign_limit (hg : Saturating a g) (x : K) :
    SignType.sign (limit a g x) = SignType.sign x := by
  rcases scale_cases a x with h | ⟨h, h'⟩ | h
  · have hx : x < 0 := lt_of_lt_of_le h (neg_nonpos.mpr hg.nonneg)
    rw [limit_of_below hg.nonneg h, sign_neg hx]
    exact sign_neg (neg_neg_iff_pos.mpr (hg.pos _ (lt_neg.mp h)))
  · rw [limit_of_within h h']
  · rw [limit_of_above hg.nonneg h, sign_pos (hg.pos _ h), sign_pos (hg.nonneg.trans_lt h)]

/-- Below a value beyond full scale are those inside that the curve is not below. -/
theorem limit_le_limit_of_above (hg : Saturating a g) (hy : a < y) (hxy : x ≤ y) :
    limit a g x ≤ limit a g y ↔ (x ≤ a → x ≤ g y) := by
  have hpos : 0 < g y := hg.pos _ hy
  rw [limit_of_above hg.nonneg hy]
  rcases scale_cases a x with hx | ⟨hx, hx'⟩ | hx
  · have hneg : x < 0 := lt_of_lt_of_le hx (neg_nonpos.mpr hg.nonneg)
    have hcurve : 0 < g (-x) := hg.pos _ (lt_neg.mp hx)
    rw [limit_of_below hg.nonneg hx]
    exact iff_of_true ((neg_neg_of_pos hcurve).trans hpos).le fun _ => (hneg.trans hpos).le
  · rw [limit_of_within hx hx']
    exact (imp_iff_right hx').symm
  · rw [limit_of_above hg.nonneg hx]
    exact iff_of_true (hg.mono _ _ hx hxy) fun h => absurd hx (not_lt.mpr h)

/-- Order is kept unless full scale is crossed to where the curve is below the smaller value. -/
theorem limit_le_limit_iff (hg : Saturating a g) (hxy : x ≤ y) :
    limit a g x ≤ limit a g y ↔
      (x ≤ a → a < y → x ≤ g y) ∧ (x < -a → -a ≤ y → -y ≤ g (-x)) := by
  rcases lt_or_ge a y with hy | hy
  · have hneg : -y < 0 := neg_neg_of_pos (hg.nonneg.trans_lt hy)
    rw [hg.limit_le_limit_of_above hy hxy]
    constructor
    · intro h
      refine ⟨fun hx _ => h hx, fun hx _ => ?_⟩
      exact (hneg.trans (hg.pos _ (lt_neg.mp hx))).le
    · exact fun h hx => h.1 hx hy
  · have hinside : ¬ a < y := not_lt.mpr hy
    rcases lt_or_ge x (-a) with hx | hx
    · -- the mirror image
      rw [← neg_le_neg_iff, ← limit_neg hg.nonneg, ← limit_neg hg.nonneg,
        hg.limit_le_limit_of_above (lt_neg.mp hx) (neg_le_neg hxy), neg_le]
      exact ⟨fun h => ⟨fun _ hlt => absurd hlt hinside, fun _ hle => h hle⟩, fun h => h.2 hx⟩
    · rw [limit_of_within hx (hxy.trans hy), limit_of_within (hx.trans hxy) hy]
      refine iff_of_true hxy ⟨fun _ h => absurd h hinside, fun h => ?_⟩
      exact absurd h (not_lt.mpr hx)

end Saturating

end Signal
