import Mathlib.Data.Int.GCD
import Mathlib.Data.Int.ModEq
import Mathlib.Data.Nat.ModEq
import Mathlib.Tactic.LinearCombination

/-! # Arithmetic progressions modulo a number

A progression visits the residues that agree with its first term modulo the greatest common
divisor of its step and the modulus, each of them once in a period.
-/

namespace Aquila.Library

theorem progression_visits {first step a n : ℕ} (hn : 0 < n) (h : a ≡ first [MOD step.gcd n]) :
    ∃ k, first + k * step ≡ a [MOD n] := by
  -- Bézout gives the multiple of the step, up to a multiple of the modulus
  rcases Nat.modEq_iff_dvd.mp h with ⟨c, hc⟩
  rcases Int.existsUnique_equiv_nat (-(step.gcdA n * c)) (Int.natCast_pos.mpr hn) with ⟨k, -, hk⟩
  rcases Int.modEq_iff_dvd.mp hk with ⟨d, hd⟩
  have hk' : (k : ℤ) = -(step.gcdA n * c) - n * d := by rw [← hd, sub_sub_cancel]
  constructor
  case w => exact k
  case h =>
    rw [Nat.modEq_iff_dvd]
    constructor
    case w => exact d * step - step.gcdB n * c
    case h =>
      push_cast
      rw [Nat.gcd_eq_gcd_ab] at hc
      rw [hk']
      linear_combination -hc

/-- Only the residues congruent to the start are visited. -/
theorem progression_visits_iff (first step a : ℕ) {n : ℕ} (hn : 0 < n) :
    (∃ k, first + k * step ≡ a [MOD n]) ↔ a ≡ first [MOD step.gcd n] := by
  constructor
  · rintro ⟨k, hk⟩
    have hstep : k * step ≡ 0 [MOD step.gcd n] :=
      Nat.modEq_zero_iff_dvd.mpr ((Nat.gcd_dvd_left step n).mul_left k)
    exact (hk.of_dvd (Nat.gcd_dvd_right step n)).symm.trans (hstep.add_left first)
  · exact progression_visits hn

theorem progression_repeats_iff (first step j k : ℕ) {n : ℕ} (hn : 0 < n) :
    first + j * step ≡ first + k * step [MOD n] ↔ j ≡ k [MOD n / n.gcd step] := by
  constructor
  · intro h
    exact (h.add_left_cancel' first).cancel_right_div_gcd hn
  · intro h
    have hdvd : n ∣ n / n.gcd step * step := by
      rw [Nat.div_mul_right_comm (Nat.gcd_dvd_left n step),
        Nat.mul_div_assoc n (Nat.gcd_dvd_right n step)]
      exact Nat.dvd_mul_right _ _
    exact ((h.mul_right' step).of_dvd hdvd).add_left first

end Aquila.Library
