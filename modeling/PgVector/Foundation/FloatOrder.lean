import Mathlib

/-!
# The order of floating-point numbers

A number is placed by its sign class, its exponent and its mantissa.  On numbers
in canonical form this rank decides every comparison, so that a comparison of
floats is a comparison in a linear order as long as no operand is a NaN.
-/

namespace PgVector.Foundation

open Float.Model (Format UnpackedFloat)
open Float.Model.UnpackedFloat (Sign)

/-- The place of a number among the numbers of its format. -/
def floatRank : UnpackedFloat → ℤ ×ₗ ℤ ×ₗ ℤ
  | .infinity .negative => toLex (-2, toLex (0, 0))
  | .finite .negative m e _ => toLex (-1, toLex (-e, -(m : ℤ)))
  | .zero _ => toLex (0, toLex (0, 0))
  | .finite .positive m e _ => toLex (1, toLex (e, (m : ℤ)))
  | .infinity .positive => toLex (2, toLex (0, 0))
  | .notANumber => toLex (3, toLex (0, 0))

theorem compare_then_eq_lt (e₁ e₂ : ℤ) (m₁ m₂ : ℕ) :
    (compare e₁ e₂).then (compare m₁ m₂) = .lt ↔ e₁ < e₂ ∨ e₁ = e₂ ∧ m₁ < m₂ := by
  rw [Ordering.then_eq_lt, compare_lt_iff_lt, compare_eq_iff_eq, compare_lt_iff_lt]

theorem compare_then_eq_gt (e₁ e₂ : ℤ) (m₁ m₂ : ℕ) :
    (compare e₁ e₂).then (compare m₁ m₂) = .gt ↔ e₂ < e₁ ∨ e₁ = e₂ ∧ m₂ < m₁ := by
  rw [Ordering.then_eq_gt, compare_gt_iff_gt, compare_eq_iff_eq, compare_gt_iff_gt]

variable {a : UnpackedFloat}

theorem lt_iff_floatRank_lt {b : UnpackedFloat} (ha : a.isNaN = false) (hb : b.isNaN = false) :
    a.lt b = true ↔ floatRank a < floatRank b := by
  cases a with
  | notANumber => simp [UnpackedFloat.isNaN] at ha
  | infinity s =>
    cases b with
    | notANumber => simp [UnpackedFloat.isNaN] at hb
    | infinity t =>
      cases s <;> cases t <;>
        simp [UnpackedFloat.lt, UnpackedFloat.compare, floatRank, Prod.Lex.toLex_lt_toLex, compare]
    | zero t =>
      cases s <;> simp [UnpackedFloat.lt, UnpackedFloat.compare, floatRank, Prod.Lex.toLex_lt_toLex]
    | finite t m e h =>
      cases s <;> cases t <;>
        simp [UnpackedFloat.lt, UnpackedFloat.compare, floatRank, Prod.Lex.toLex_lt_toLex]
  | zero s =>
    cases b with
    | notANumber => simp [UnpackedFloat.isNaN] at hb
    | infinity t =>
      cases t <;> simp [UnpackedFloat.lt, UnpackedFloat.compare, floatRank, Prod.Lex.toLex_lt_toLex]
    | zero t =>
      simp [UnpackedFloat.lt, UnpackedFloat.compare, floatRank]
    | finite t m e h =>
      cases t <;> simp [UnpackedFloat.lt, UnpackedFloat.compare, floatRank, Prod.Lex.toLex_lt_toLex]
  | finite s m e h =>
    cases b with
    | notANumber => simp [UnpackedFloat.isNaN] at hb
    | infinity t =>
      cases s <;> cases t <;>
        simp [UnpackedFloat.lt, UnpackedFloat.compare, floatRank, Prod.Lex.toLex_lt_toLex]
    | zero t =>
      cases s <;> simp [UnpackedFloat.lt, UnpackedFloat.compare, floatRank, Prod.Lex.toLex_lt_toLex]
    | finite t m' e' h' =>
      cases s <;> cases t
      · -- two negative numbers are ordered the other way round
        simp only [UnpackedFloat.lt, UnpackedFloat.compare, floatRank,
          Prod.Lex.toLex_lt_toLex, beq_iff_eq, Option.some.injEq,
          Ordering.swap_eq_lt, compare_then_eq_gt, lt_self_iff_false, false_or,
          true_and, neg_lt_neg_iff, neg_inj, Nat.cast_lt]
      · simp [UnpackedFloat.lt, UnpackedFloat.compare, floatRank, Prod.Lex.toLex_lt_toLex]
      · simp [UnpackedFloat.lt, UnpackedFloat.compare, floatRank, Prod.Lex.toLex_lt_toLex]
      · simp only [UnpackedFloat.lt, UnpackedFloat.compare, floatRank,
          Prod.Lex.toLex_lt_toLex, beq_iff_eq, Option.some.injEq,
          compare_then_eq_lt, lt_self_iff_false, false_or, true_and, Nat.cast_lt]

theorem eq_of_floatRank_eq {b : UnpackedFloat} (ha : ∀ s, a ≠ .zero s)
    (h : floatRank a = floatRank b) : a = b := by
  have hpair : ∀ {x y : ℤ × ℤ ×ₗ ℤ}, toLex x = toLex y ↔ x = y := by simp
  have hpair' : ∀ {x y : ℤ × ℤ}, toLex x = toLex y ↔ x = y := by simp
  cases a with
  | zero s => exact absurd rfl (ha s)
  | notANumber =>
    cases b with
    | notANumber => rfl
    | zero t => simp [floatRank, hpair] at h
    | infinity t => cases t <;> simp [floatRank, hpair] at h
    | finite t m e h' => cases t <;> simp [floatRank, hpair] at h
  | infinity s =>
    cases b with
    | notANumber => cases s <;> simp [floatRank, hpair] at h
    | zero t => cases s <;> simp [floatRank, hpair] at h
    | infinity t => cases s <;> cases t <;> simp [floatRank, hpair] at h ⊢
    | finite t m e h' => cases s <;> cases t <;> simp [floatRank, hpair] at h
  | finite s m e hm =>
    cases b with
    | notANumber => cases s <;> simp [floatRank, hpair] at h
    | zero t => cases s <;> simp [floatRank, hpair] at h
    | infinity t => cases s <;> cases t <;> simp [floatRank, hpair] at h
    | finite t m' e' hm' =>
      cases s <;> cases t <;> simp [floatRank, hpair, hpair'] at h ⊢ <;> omega

theorem beq_zero_iff {s : Sign} : a.beq (.zero s) = true ↔ ∃ t, a = .zero t := by
  cases a with
  | notANumber => simp [UnpackedFloat.beq, UnpackedFloat.compare]
  | infinity t => cases t <;> simp [UnpackedFloat.beq, UnpackedFloat.compare]
  | zero t => simp [UnpackedFloat.beq, UnpackedFloat.compare]
  | finite t m e h => cases t <;> simp [UnpackedFloat.beq, UnpackedFloat.compare]

theorem floatRank_eq_zero_iff : floatRank a = floatRank (.zero .positive) ↔ ∃ t, a = .zero t := by
  constructor
  · intro h
    by_contra hne
    simp only [not_exists] at hne
    exact hne _ (eq_of_floatRank_eq hne h)
  · rintro ⟨t, rfl⟩
    rfl

end PgVector.Foundation
