import Mathlib.Data.Nat.Count
import Mathlib.Data.List.InsertIdx
import Mathlib.Data.Fintype.Card

/-! # Slot tables

A table of `N` slots, some of them active. Its meaning is the list of the active
slots in ascending order; the rank of a slot is the number of active slots
before it, which is its position in that list.
-/

namespace Aquila.Library.SlotTable

variable {α : Type*}

def occupied (active : ℕ → Bool) (N : ℕ) : List ℕ := (List.range N).filter active

def rank (active : ℕ → Bool) (k : ℕ) : ℕ := Nat.count (fun i => active i = true) k

@[simp] theorem rank_zero (active : ℕ → Bool) : rank active 0 = 0 := Nat.count_zero _

theorem rank_succ (active : ℕ → Bool) (k : ℕ) :
    rank active (k + 1) = rank active k + if active k then 1 else 0 :=
  Nat.count_succ _ _

theorem rank_mono (active : ℕ → Bool) {j k : ℕ} (h : j ≤ k) : rank active j ≤ rank active k :=
  Nat.count_monotone _ h

theorem rank_le (active : ℕ → Bool) (k : ℕ) : rank active k ≤ k := Nat.count_le _

theorem rank_lt_of_active {active : ℕ → Bool} {k N : ℕ} (hk : k < N) (h : active k = true) :
    rank active k < rank active N :=
  Nat.count_strict_mono h hk

theorem rank_injective {active : ℕ → Bool} {j k : ℕ} (hj : active j = true) (hk : active k = true)
    (h : rank active j = rank active k) : j = k :=
  Nat.count_injective hj hk h

theorem rank_eq_self_iff (active : ℕ → Bool) (k : ℕ) :
    rank active k = k ↔ ∀ j < k, active j = true :=
  Nat.count_iff_forall

theorem occupied_succ (active : ℕ → Bool) (N : ℕ) :
    occupied active (N + 1) = occupied active N ++ if active N then [N] else [] := by
  rw [occupied, List.range_succ, List.filter_append]
  cases h : active N <;> simp [occupied, h]

@[simp] theorem length_occupied (active : ℕ → Bool) (N : ℕ) :
    (occupied active N).length = rank active N := by
  induction N with
  | zero => rfl
  | succ N ih =>
    rw [occupied_succ, List.length_append, ih, rank_succ]
    split <;> rfl

theorem mem_occupied {active : ℕ → Bool} {N k : ℕ} :
    k ∈ occupied active N ↔ k < N ∧ active k = true := by
  simp [occupied]

theorem occupied_congr {active active' : ℕ → Bool} {N : ℕ} (h : ∀ k < N, active k = active' k) :
    occupied active N = occupied active' N :=
  List.filter_congr (fun k hk => h k (List.mem_range.mp hk))

private theorem insertIdx_length_append (xs ys : List α) (a : α) :
    (xs ++ ys).insertIdx xs.length a = xs ++ a :: ys := by
  induction xs with
  | nil => rfl
  | cons x xs ih => rw [List.cons_append, List.length_cons, List.insertIdx_succ_cons, ih]; rfl

private def later (active : ℕ → Bool) (k N : ℕ) : List ℕ :=
  (List.range' (k + 1) (N - (k + 1))).filter active

private theorem occupied_split (active : ℕ → Bool) {k N : ℕ} (hk : k < N) :
    occupied active N =
      occupied active k ++ ((if active k then [k] else []) ++ later active k N) := by
  have hrange : List.range N = List.range (k + 1) ++ List.range' (k + 1) (N - (k + 1)) := by
    have h := List.range'_append_1 (s := 0) (m := k + 1) (n := N - (k + 1))
    rw [Nat.zero_add, Nat.add_sub_of_le hk] at h
    rw [List.range_eq_range', List.range_eq_range', h]
  rw [occupied, hrange, List.filter_append]
  change occupied active (k + 1) ++ later active k N = _
  rw [occupied_succ, List.append_assoc]

private theorem later_update (active : ℕ → Bool) (k N : ℕ) (b : Bool) :
    later (Function.update active k b) k N = later active k N := by
  apply List.filter_congr
  intro j hj
  have hlt : k < j := by
    have := (List.mem_range'_1.mp hj).1
    omega
  exact Function.update_of_ne (Nat.ne_of_gt hlt) _ _

private theorem occupied_update_before (active : ℕ → Bool) (k : ℕ) (b : Bool) :
    occupied (Function.update active k b) k = occupied active k :=
  occupied_congr (fun _ hj => Function.update_of_ne (Nat.ne_of_lt hj) _ _)

/-- An active slot stands in the list at its rank. -/
theorem occupied_getElem? {active : ℕ → Bool} {k N : ℕ} (hk : k < N) (h : active k = true) :
    (occupied active N)[rank active k]? = some k := by
  rw [occupied_split active hk, if_pos h, ← length_occupied, List.getElem?_append_right le_rfl]
  simp

/-- Deactivating a slot removes it at its rank. -/
theorem occupied_deactivate {active : ℕ → Bool} {k N : ℕ} (hk : k < N) (h : active k = true) :
    occupied (Function.update active k false) N =
      (occupied active N).eraseIdx (rank active k) := by
  rw [occupied_split _ hk, occupied_split active hk, later_update, occupied_update_before,
    if_pos h, ← length_occupied, List.eraseIdx_append_of_length_le le_rfl]
  simp

/-- Activating a free slot inserts it at its rank. -/
theorem occupied_activate {active : ℕ → Bool} {k N : ℕ} (hk : k < N) (h : active k = false) :
    occupied (Function.update active k true) N =
      (occupied active N).insertIdx (rank active k) k := by
  rw [occupied_split _ hk, occupied_split active hk, later_update, occupied_update_before,
    ← length_occupied, insertIdx_length_append]
  simp [h]

theorem rank_deactivate {active : ℕ → Bool} {k N : ℕ} (hk : k < N) (h : active k = true) :
    rank (Function.update active k false) N + 1 = rank active N := by
  have hlt := rank_lt_of_active hk h
  rw [← length_occupied, ← length_occupied, occupied_deactivate hk h, List.length_eraseIdx_of_lt]
  · rw [length_occupied]
    omega
  · rwa [length_occupied]

theorem rank_activate {active : ℕ → Bool} {k N : ℕ} (hk : k < N) (h : active k = false) :
    rank (Function.update active k true) N = rank active N + 1 := by
  rw [← length_occupied, occupied_activate hk h, List.length_insertIdx_of_le_length,
    length_occupied]
  rw [length_occupied]
  exact rank_mono active hk.le

theorem exists_free_iff (active : ℕ → Bool) (N : ℕ) :
    rank active N < N ↔ ∃ k < N, active k = false := by
  rw [lt_iff_le_and_ne]
  simp only [rank_le, true_and, ne_eq, rank_eq_self_iff]
  simp

def lowestFree (active : ℕ → Bool) (N : ℕ) : ℕ :=
  ((List.range N).find? (fun k => !active k)).getD N

theorem lowestFree_eq {active : ℕ → Bool} {k N : ℕ} (hk : k < N) (h : active k = false)
    (hbefore : ∀ j < k, active j = true) : lowestFree active N = k := by
  have hfind : (List.range N).find? (fun k => !active k) = some k := by
    rw [List.find?_range_eq_some]
    simp only [List.mem_range, Bool.not_not]
    exact ⟨by simp [h], hk, hbefore⟩
  rw [lowestFree, hfind]
  rfl

/-- The entries stored in the active slots, in ascending slot order. -/
def contents (active : ℕ → Bool) (entry : ℕ → α) (N : ℕ) : List α := (occupied active N).map entry

@[simp] theorem length_contents (active : ℕ → Bool) (entry : ℕ → α) (N : ℕ) :
    (contents active entry N).length = rank active N := by
  simp [contents]

theorem contents_congr {active active' : ℕ → Bool} {entry entry' : ℕ → α} {N : ℕ}
    (ha : ∀ k < N, active k = active' k) (he : ∀ k < N, active k = true → entry k = entry' k) :
    contents active entry N = contents active' entry' N := by
  rw [contents, contents, ← occupied_congr ha]
  apply List.map_congr_left
  intro k hk
  rcases mem_occupied.mp hk with ⟨hkN, hka⟩
  exact he k hkN hka

theorem contents_getElem? {active : ℕ → Bool} (entry : ℕ → α) {k N : ℕ} (hk : k < N)
    (h : active k = true) : (contents active entry N)[rank active k]? = some (entry k) := by
  rw [contents, List.getElem?_map, occupied_getElem? hk h]
  rfl

theorem contents_deactivate {active : ℕ → Bool} (entry : ℕ → α) {k N : ℕ} (hk : k < N)
    (h : active k = true) :
    contents (Function.update active k false) entry N =
      (contents active entry N).eraseIdx (rank active k) := by
  rw [contents, contents, occupied_deactivate hk h, List.eraseIdx_map]

/-- Overwriting the entry of an active slot replaces the element at its rank. -/
theorem contents_overwrite {active : ℕ → Bool} (entry : ℕ → α) {k N : ℕ} (a : α) (hk : k < N)
    (h : active k = true) :
    contents active (Function.update entry k a) N =
      (contents active entry N).set (rank active k) a := by
  apply List.ext_getElem?
  intro n
  by_cases hn : n < rank active N
  · obtain ⟨j, hj⟩ : ∃ j, (occupied active N)[n]? = some j :=
      ⟨_, List.getElem?_eq_getElem (by rwa [length_occupied])⟩
    rcases mem_occupied.mp (List.mem_of_getElem? hj) with ⟨hjN, hja⟩
    have hrank : n = rank active j := by
      have hnd : (occupied active N).Nodup := (List.nodup_range).filter _
      have hlt : n < (occupied active N).length := by rwa [length_occupied]
      exact (List.getElem?_inj hlt hnd).mp (hj.trans (occupied_getElem? hjN hja).symm)
    subst hrank
    rw [contents_getElem? _ hjN hja, List.getElem?_set, contents_getElem? _ hjN hja,
      length_contents]
    by_cases hjk : j = k
    · subst hjk
      simp [hn]
    · have hne : rank active k ≠ rank active j := fun he => hjk (rank_injective hja h he.symm)
      simp [hne, Function.update_of_ne hjk]
  · rw [List.getElem?_eq_none (by rw [length_contents]; omega),
      List.getElem?_eq_none (by rw [List.length_set, length_contents]; omega)]

/-- Filling a free slot inserts its entry at the rank of the slot. -/
theorem contents_activate {active : ℕ → Bool} (entry : ℕ → α) {k N : ℕ} (a : α) (hk : k < N)
    (h : active k = false) :
    contents (Function.update active k true) (Function.update entry k a) N =
      (contents active entry N).insertIdx (rank active k) a := by
  have hold : (occupied active N).map (Function.update entry k a) =
      (occupied active N).map entry := by
    apply List.map_congr_left
    intro j hj
    have hja := (mem_occupied.mp hj).2
    exact Function.update_of_ne (by rintro rfl; simp [h] at hja) _ _
  rw [contents, occupied_activate hk h, List.map_insertIdx, hold, Function.update_self, contents]

/-- Used slots with different keys leave one for a key that has none, as long as no more keys are
about than there are slots. -/
theorem exists_unused {κ : Type*} [DecidableEq κ] {N : ℕ} {key : Fin N → κ} {used : Fin N → Prop}
    (hunique : ∀ i j, used i → used j → key i = key j → i = j) {keys : List κ}
    (hkeys : ∀ i, used i → key i ∈ keys) (hroom : keys.dedup.length ≤ N) {k : κ} (hk : k ∈ keys)
    (hnone : ∀ i, used i → key i ≠ k) : ∃ i, ¬ used i := by
  by_contra hall
  simp only [not_exists, not_not] at hall
  have hinjective : Function.Injective key := fun i j hij =>
    hunique i j (hall i) (hall j) hij
  have hsubset : Finset.univ.image key ⊆ keys.toFinset.erase k := by
    intro d hd
    rcases Finset.mem_image.mp hd with ⟨i, _, rfl⟩
    exact Finset.mem_erase.mpr ⟨hnone i (hall i), List.mem_toFinset.mpr (hkeys i (hall i))⟩
  have hcard := Finset.card_le_card hsubset
  have hpos := List.length_pos_of_mem (List.mem_dedup.mpr hk)
  rw [Finset.card_image_of_injective _ hinjective, Finset.card_univ, Fintype.card_fin,
    Finset.card_erase_of_mem (List.mem_toFinset.mpr hk), List.card_toFinset] at hcard
  omega

end Aquila.Library.SlotTable
