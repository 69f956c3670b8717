import Mathlib.Data.List.Infix

/-! # Counters of failures in a row

A counter starts at `N`, every success puts it back there, and every failure lowers it. It
runs out exactly at `N` failures in a row.
-/

namespace Aquila.Library.Countdown

/-- One outcome; `none` is a counter that has run out. -/
def count (N : ℕ) : Option ℕ → Bool → Option ℕ
  | none, _ => none
  | some _, true => some N
  | some k, false => if k = 1 then none else some (k - 1)

theorem foldl_count_none (N : ℕ) (outcomes : List Bool) :
    outcomes.foldl (count N) none = none := by
  induction outcomes with
  | nil => rfl
  | cons ok outcomes ih => exact ih

theorem failures_infix_success {N m : ℕ} (h : m < N) (outcomes : List Bool) :
    List.replicate N false <:+: List.replicate m false ++ true :: outcomes ↔
      List.replicate N false <:+: outcomes := by
  constructor
  · intro hinfix
    induction m with
    | zero =>
      rcases List.infix_cons_iff.mp hinfix with hprefix | hrest
      · have hhead := hprefix.getElem (i := 0) (by simpa using h)
        simp at hhead
      · exact hrest
    | succ m ih =>
      rw [List.replicate_succ, List.cons_append] at hinfix
      rcases List.infix_cons_iff.mp hinfix with hprefix | hrest
      · have hend := hprefix.getElem (i := m + 1) (by simpa using h)
        simp at hend
      · exact ih (by omega) hrest
  · intro hinfix
    exact hinfix.trans ((List.suffix_cons true outcomes).trans (List.suffix_append _ _)).isInfix

/-- From a count that some failures have left, the counter runs out exactly when the outcomes
complete them to `N` failures in a row, or contain as many. -/
theorem foldl_count_eq_none_iff {N k : ℕ} (hpos : 0 < k) (hle : k ≤ N) (outcomes : List Bool) :
    outcomes.foldl (count N) (some k) = none ↔
      List.replicate N false <:+: List.replicate (N - k) false ++ outcomes := by
  induction outcomes generalizing k with
  | nil =>
    rw [List.append_nil]
    constructor
    · intro h
      cases h
    · intro h
      have hlength := h.length_le
      rw [List.length_replicate, List.length_replicate] at hlength
      omega
  | cons ok outcomes ih =>
    cases ok with
    | true =>
      rw [failures_infix_success (by omega), List.foldl_cons]
      have hreset := ih (by omega) (Nat.le_refl N)
      rwa [Nat.sub_self, List.replicate_zero, List.nil_append] at hreset
    | false =>
      have hmore : List.replicate (N - k) false ++ false :: outcomes =
          List.replicate (N - k + 1) false ++ outcomes := by
        rw [List.replicate_succ', List.append_assoc]
        rfl
      rw [hmore, List.foldl_cons, count]
      by_cases hlast : k = 1
      · have hall : N - k + 1 = N := by omega
        rw [if_pos hlast, foldl_count_none, hall]
        exact iff_of_true rfl (List.prefix_append _ _).isInfix
      · have hrow : N - k + 1 = N - (k - 1) := by omega
        rw [if_neg hlast, hrow]
        exact ih (by omega) (by omega)

end Aquila.Library.Countdown
