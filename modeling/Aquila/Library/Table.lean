import Mathlib.Algebra.Order.BigOperators.Group.Finset
import Mathlib.Data.Fintype.BigOperators

/-! # Tables

Entries rewritten in turn, and weights of the entries of a finite table, added up. A write to
one entry changes the total by the difference of two weights; sums on both sides keep it free
of subtractions.
-/

namespace Aquila.Library

variable {ι α : Type*}

/-- An entry rewritten, and whether one that was marked has been met. -/
def sweep [DecidableEq ι] (rewrite : α → α) (mark : α → Bool) (x : (ι → α) × Bool) (i : ι) :
    (ι → α) × Bool :=
  (Function.update x.1 i (rewrite (x.1 i)), x.2 || mark (x.1 i))

theorem foldl_sweep [DecidableEq ι] (rewrite : α → α) (mark : α → Bool) {slots : List ι}
    (h : slots.Nodup) (table : ι → α) (met : Bool) :
    slots.foldl (sweep rewrite mark) (table, met) =
      (fun j => if j ∈ slots then rewrite (table j) else table j,
        met || slots.any fun j => mark (table j)) := by
  induction slots generalizing table met with
  | nil => simp
  | cons i slots ih =>
    rw [List.nodup_cons] at h
    rw [List.foldl_cons, sweep, ih h.2, Prod.mk.injEq]
    constructor
    · ext1 j
      by_cases hji : j = i
      · subst hji
        simp [h.1]
      · simp [hji]
    · have hrest : (slots.any fun j => mark (Function.update table i (rewrite (table i)) j)) =
          slots.any fun j => mark (table j) := by
        rw [Bool.eq_iff_iff, List.any_eq_true, List.any_eq_true]
        apply exists_congr
        intro j
        apply and_congr_right
        intro hj
        have hji : j ≠ i := fun heq => h.1 (heq ▸ hj)
        rw [Function.update_of_ne hji]
      rw [hrest, List.any_cons, Bool.or_assoc]

variable [Fintype ι]

def total (w : α → ℕ) (table : ι → α) : ℕ := ∑ i, w (table i)

theorem total_update [DecidableEq ι] (w : α → ℕ) (table : ι → α) (i : ι) (a : α) :
    total w (Function.update table i a) + w (table i) = total w table + w a := by
  have hrest : ∑ j ∈ Finset.univ.erase i, w (Function.update table i a j) =
      ∑ j ∈ Finset.univ.erase i, w (table j) := by
    apply Finset.sum_congr rfl
    intro j hj
    rw [Function.update_of_ne (Finset.ne_of_mem_erase hj)]
  rw [total, total, ← Finset.add_sum_erase _ _ (Finset.mem_univ i),
    ← Finset.add_sum_erase _ (fun j => w (table j)) (Finset.mem_univ i), hrest,
    Function.update_self]
  omega

theorem total_congr {w : α → ℕ} {table table' : ι → α} (h : ∀ i, w (table' i) = w (table i)) :
    total w table' = total w table :=
  Finset.sum_congr rfl (fun i _ => h i)

theorem le_total (w : α → ℕ) (table : ι → α) (i : ι) : w (table i) ≤ total w table :=
  Finset.single_le_sum (f := fun j => w (table j)) (fun _ _ => Nat.zero_le _) (Finset.mem_univ i)

theorem total_eq_zero_iff (w : α → ℕ) (table : ι → α) :
    total w table = 0 ↔ ∀ i, w (table i) = 0 := by
  simp [total]

theorem total_le_card {w : α → ℕ} (hw : ∀ a, w a ≤ 1) (table : ι → α) :
    total w table ≤ Fintype.card ι := by
  rw [← Finset.card_univ, Finset.card_eq_sum_ones]
  exact Finset.sum_le_sum (fun i _ => hw (table i))

theorem total_lt {w : α → ℕ} {table table' : ι → α} (h : ∀ i, w (table' i) ≤ w (table i)) {i : ι}
    (hi : w (table' i) < w (table i)) : total w table' < total w table :=
  Finset.sum_lt_sum (fun i _ => h i) ⟨i, Finset.mem_univ i, hi⟩

end Aquila.Library
