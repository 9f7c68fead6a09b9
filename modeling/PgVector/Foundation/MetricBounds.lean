import Mathlib.Algebra.Order.Field.Basic
import Mathlib.Tactic.Linarith

/-!
# Bounds on distances to moving points

What the triangle inequality says about the distance from a point to one of several
centers when only bounds are at hand: half the distance between two centers separates
them, and a center that moves takes the bounds with it.
-/

namespace PgVector.Foundation

variable {V K : Type} [Field K] [LinearOrder K]

structure IsDistance (d : V → V → K) : Prop where
  self : ∀ x, d x x = 0
  symm : ∀ x y, d x y = d y x
  triangle : ∀ x y z, d x z ≤ d x y + d y z

namespace IsDistance

variable [IsStrictOrderedRing K] {d : V → V → K} (h : IsDistance d)

include h

theorem nonneg (x y : V) : 0 ≤ d x y := by
  have hloop := h.triangle x y x
  rw [h.self, h.symm y x] at hloop
  linarith

theorem le_of_le_half {x c c' : V} {upper : K} (hupper : d x c ≤ upper)
    (hhalf : upper ≤ d c c' / 2) : d x c ≤ d x c' := by
  have hvia := h.triangle c x c'
  rw [h.symm c x] at hvia
  linarith

theorem sub_le_of_move {x c c' : V} {lower : K} (hlower : lower ≤ d x c) :
    lower - d c c' ≤ d x c' := by
  have hback := h.triangle x c' c
  rw [h.symm c' c] at hback
  linarith

theorem le_add_of_move {x c c' : V} {upper : K} (hupper : d x c ≤ upper) :
    d x c' ≤ upper + d c c' := by
  have hvia := h.triangle x c c'
  linarith

end IsDistance

end PgVector.Foundation
