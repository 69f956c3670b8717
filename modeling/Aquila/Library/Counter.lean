import Mathlib.Data.BitVec

/-! # Counters that wrap

Two readings of a counter and the time between them. A deadline that is not reduced fails
once the counter has wrapped; one that is reduced fails unless it wraps with the counter.
-/

namespace Aquila.Library

variable {w : ℕ}

/-- The time from one reading to a later one, modulo the period of the counter. -/
def elapsed (t₀ t : BitVec w) : ℕ := (t - t₀).toNat

theorem elapsed_of_le {t₀ t : BitVec w} (h : t₀ ≤ t) : elapsed t₀ t = t.toNat - t₀.toNat := by
  rw [BitVec.le_def] at h
  have ht := t.isLt
  have hsum : 2 ^ w - t₀.toNat + t.toNat = t.toNat - t₀.toNat + 2 ^ w := by omega
  rw [elapsed, BitVec.toNat_sub, hsum, Nat.add_mod_right, Nat.mod_eq_of_lt (by omega)]

theorem elapsed_of_lt {t₀ t : BitVec w} (h : t < t₀) :
    elapsed t₀ t = 2 ^ w - t₀.toNat + t.toNat := by
  rw [BitVec.lt_def] at h
  have ht := t₀.isLt
  rw [elapsed, BitVec.toNat_sub, Nat.mod_eq_of_lt (by omega)]

/-- A deadline in a wider type is met in time unless the counter has wrapped and the delay is
over. -/
theorem wide_deadline_iff (t₀ t : BitVec w) (d : ℕ) :
    (t₀.toNat + d < t.toNat ↔ d < elapsed t₀ t) ↔ t₀ ≤ t ∨ elapsed t₀ t ≤ d := by
  by_cases h : t₀ ≤ t
  · have hle := h
    rw [BitVec.le_def] at hle
    rw [elapsed_of_le h]
    apply iff_of_true
    · omega
    · exact Or.inl h
  · have hlt := BitVec.not_le.mp h
    rw [BitVec.lt_def] at hlt
    rw [or_iff_right h, ← not_lt]
    constructor
    · intro hiff hd
      have := hiff.mpr hd
      omega
    · intro hd
      apply iff_of_false
      · omega
      · exact hd

/-- A deadline in the counter's own type is met in time exactly when it wraps with the counter. -/
theorem deadline_iff (t₀ t d : BitVec w) :
    (t₀ + d < t ↔ d.toNat < elapsed t₀ t) ↔ (2 ^ w ≤ t₀.toNat + d.toNat ↔ t < t₀) := by
  have h₀ := t₀.isLt
  have hd := d.isLt
  have ht := t.isLt
  by_cases hwrap : 2 ^ w ≤ t₀.toNat + d.toNat
  · have hsum : (t₀ + d).toNat = t₀.toNat + d.toNat - 2 ^ w := by
      rw [BitVec.toNat_add, Nat.mod_eq_sub_mod hwrap, Nat.mod_eq_of_lt (by omega)]
    rw [BitVec.lt_def, hsum]
    by_cases h : t < t₀
    · rw [elapsed_of_lt h]
      rw [BitVec.lt_def] at h
      apply iff_of_true
      · omega
      · exact iff_of_true hwrap h
    · have hle := BitVec.not_lt.mp h
      rw [elapsed_of_le hle]
      rw [BitVec.le_def] at hle
      apply iff_of_false
      · omega
      · exact fun hiff => h (hiff.mp hwrap)
  · have hsum : (t₀ + d).toNat = t₀.toNat + d.toNat := by
      rw [BitVec.toNat_add, Nat.mod_eq_of_lt (by omega)]
    rw [BitVec.lt_def, hsum]
    by_cases h : t < t₀
    · rw [elapsed_of_lt h]
      have hlt := h
      rw [BitVec.lt_def] at hlt
      apply iff_of_false
      · omega
      · exact fun hiff => hwrap (hiff.mpr h)
    · have hle := BitVec.not_lt.mp h
      rw [elapsed_of_le hle]
      rw [BitVec.le_def] at hle
      apply iff_of_true
      · omega
      · exact iff_of_false hwrap h

theorem never_due_iff (deadline : BitVec w) :
    (∀ t, ¬ deadline < t) ↔ deadline = BitVec.allOnes w := by
  constructor
  · intro h
    have hle := h (BitVec.allOnes w)
    rw [BitVec.lt_def, BitVec.toNat_allOnes] at hle
    have hlt := deadline.isLt
    apply BitVec.eq_of_toNat_eq
    rw [BitVec.toNat_allOnes]
    omega
  · rintro rfl t
    have := t.isLt
    rw [BitVec.lt_def, BitVec.toNat_allOnes]
    omega

end Aquila.Library
