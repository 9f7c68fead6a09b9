import Mathlib.Order.Monotone.Basic
import Mathlib.Tactic.Ring

/-!
# The numbers of a binary format

In the order of their encodings and in units of the smallest one, they are an increasing
function of the natural numbers.
-/

namespace PgVector.Foundation

/-- The number encoded by `n` with `k` bits of fraction, in units of the smallest number. -/
def units (k n : ℕ) : ℕ :=
  if n / 2 ^ k = 0 then n else (2 ^ k + n % 2 ^ k) * 2 ^ (n / 2 ^ k - 1)

variable {k n : ℕ}

/-- Within a binade the numbers are evenly spaced, up to the first one of the next. -/
theorem units_add {t q : ℕ} (hq : q ≤ 2 * 2 ^ k) (h : t = 0 ∨ 2 ^ k ≤ q) :
    units k (t * 2 ^ k + q) = q * 2 ^ t := by
  have hpos : 0 < 2 ^ k := Nat.two_pow_pos k
  unfold units
  by_cases hlow : q < 2 ^ k
  · obtain rfl : t = 0 := by omega
    rw [Nat.zero_mul, Nat.zero_add, if_pos (Nat.div_eq_of_lt hlow), pow_zero, Nat.mul_one]
  · have hsplit : t * 2 ^ k + q = q - 2 ^ k + (t + 1) * 2 ^ k := by
      rw [Nat.add_mul]
      omega
    rw [hsplit, Nat.add_mul_div_right _ _ hpos, Nat.add_mul_mod_self_right,
      if_neg (Nat.ne_of_gt (Nat.add_pos_right _ (Nat.succ_pos t)))]
    obtain hlt | rfl := hq.lt_or_eq
    · rw [Nat.div_eq_of_lt (by omega), Nat.mod_eq_of_lt (by omega), Nat.zero_add,
        Nat.add_sub_cancel, Nat.add_sub_cancel' (by omega)]
    · have hsub : 2 * 2 ^ k - 2 ^ k = 2 ^ k := by omega
      rw [hsub, Nat.div_self hpos, Nat.mod_self, Nat.add_zero, Nat.add_sub_cancel_left, pow_succ]
      ring

theorem units_fields {e m : ℕ} (he : 1 ≤ e) (hm : m < 2 ^ k) :
    units k (e * 2 ^ k + m) = (2 ^ k + m) * 2 ^ (e - 1) := by
  have hindex : e * 2 ^ k + m = (e - 1) * 2 ^ k + (2 ^ k + m) := by
    rw [← Nat.add_assoc, ← Nat.succ_mul, Nat.succ_eq_add_one, Nat.sub_add_cancel he]
  rw [hindex]
  exact units_add (by omega) (.inr (by omega))

theorem units_strictMono (k : ℕ) : StrictMono (units k) := by
  refine strictMono_nat_of_lt_succ fun n => ?_
  have hpos : 0 < 2 ^ k := Nat.two_pow_pos k
  obtain ⟨t, q, rfl, hq, ht⟩ : ∃ t q, n = t * 2 ^ k + q ∧ q + 1 ≤ 2 * 2 ^ k ∧
      (t = 0 ∨ 2 ^ k ≤ q) := by
    have hmod := Nat.mod_lt n hpos
    have hdiv := Nat.div_add_mod' n (2 ^ k)
    cases hd : n / 2 ^ k with
    | zero => exact ⟨0, n, by omega, by rw [hd] at hdiv; omega, .inl rfl⟩
    | succ t =>
      refine ⟨t, 2 ^ k + n % 2 ^ k, ?_, by omega, .inr (by omega)⟩
      rw [hd, Nat.add_mul] at hdiv
      omega
  rw [units_add (by omega) ht, Nat.add_assoc, units_add hq (by omega)]
  exact Nat.mul_lt_mul_of_pos_right (Nat.lt_succ_self q) (Nat.two_pow_pos t)

end PgVector.Foundation
