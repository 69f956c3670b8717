import Mathlib.Data.Int.Init
import Mathlib.Logic.Function.Basic
import Mathlib.Data.List.Basic
import Mathlib.Data.List.TakeWhile

/-! # Memory around a pointer

The cells a pointer can reach, by their offset from it. Offsets below zero or past
the pointed-to object are whatever the surrounding memory holds.
-/

namespace Aquila.Library

abbrev Memory (α : Type*) := ℤ → α

variable {α : Type*}

namespace Memory

def load (m : Memory α) (k : ℤ) (n : ℕ) : List α := (List.range n).map (fun i : ℕ => m (k + i))

def store (m : Memory α) (k : ℤ) : List α → Memory α
  | [] => m
  | a :: as => store (Function.update m k a) (k + 1) as

@[simp] theorem length_load (m : Memory α) (k : ℤ) (n : ℕ) : (m.load k n).length = n := by
  simp [load]

theorem load_succ (m : Memory α) (k : ℤ) (n : ℕ) : m.load k (n + 1) = m k :: m.load (k + 1) n := by
  rw [load, List.range_succ_eq_map, List.map_cons, List.map_map, load]
  congr 1
  · simp
  · apply List.map_congr_left
    intro i _
    exact congrArg m (by simp only [Nat.succ_eq_add_one]; omega)

theorem load_add (m : Memory α) (k : ℤ) (n p : ℕ) :
    m.load k (n + p) = m.load k n ++ m.load (k + n) p := by
  rw [load, List.range_add, List.map_append, List.map_map, load, load]
  congr 1
  apply List.map_congr_left
  intro i _
  exact congrArg m (by dsimp only; omega)

theorem load_congr {m m' : Memory α} {k : ℤ} {n : ℕ} (h : ∀ j, k ≤ j → j < k + n → m j = m' j) :
    m.load k n = m'.load k n := by
  apply List.map_congr_left
  intro i hi
  have := List.mem_range.mp hi
  exact h _ (by omega) (by omega)

theorem store_append (m : Memory α) (k : ℤ) (as bs : List α) :
    m.store k (as ++ bs) = (m.store k as).store (k + as.length) bs := by
  induction as generalizing m k with
  | nil => simp [store]
  | cons a as ih =>
    rw [List.cons_append, store, ih, store, List.length_cons]
    congr 1
    push_cast
    omega

theorem store_before (m : Memory α) (k : ℤ) (as : List α) {j : ℤ} (hj : j < k) :
    m.store k as j = m j := by
  induction as generalizing m k with
  | nil => rfl
  | cons a as ih =>
    rw [store, ih _ _ (by omega), Function.update_of_ne (by omega)]

theorem store_after (m : Memory α) (k : ℤ) (as : List α) {j : ℤ} (hj : k + as.length ≤ j) :
    m.store k as j = m j := by
  induction as generalizing m k with
  | nil => rfl
  | cons a as ih =>
    rw [List.length_cons] at hj
    push_cast at hj
    rw [store, ih _ _ (by omega), Function.update_of_ne (by omega)]

theorem take_load (m : Memory α) (k : ℤ) {n p : ℕ} (h : p ≤ n) :
    (m.load k n).take p = m.load k p := by
  rw [load, ← List.map_take, List.take_range, Nat.min_eq_left h, load]

@[simp] theorem load_store (m : Memory α) (k : ℤ) (as : List α) :
    (m.store k as).load k as.length = as := by
  induction as generalizing m k with
  | nil => rfl
  | cons a as ih =>
    rw [List.length_cons, load_succ, store, ih, store_before _ _ _ (by omega),
      Function.update_self]

theorem load_store_before (m : Memory α) {k j : ℤ} {n : ℕ} (as : List α) (h : j + n ≤ k) :
    (m.store k as).load j n = m.load j n :=
  load_congr (fun _ _ h' => m.store_before k as (by omega))

theorem load_store_after (m : Memory α) {k j : ℤ} (n : ℕ) (as : List α)
    (h : k + as.length ≤ j) : (m.store k as).load j n = m.load j n :=
  load_congr (fun _ h' _ => m.store_after k as (by omega))

theorem load_store_take (m : Memory α) (k : ℤ) (as : List α) {n : ℕ} (h : n ≤ as.length) :
    (m.store k as).load k n = as.take n := by
  rw [← take_load _ _ h, load_store]

end Memory

theorem map_getD_range (l : List α) (a : α) {k n : ℕ} (h : k + n ≤ l.length) :
    (List.range n).map (fun i => l.getD (k + i) a) = (l.drop k).take n := by
  apply List.ext_getElem
  · simp
    omega
  · intro i hi hi'
    rw [List.length_map, List.length_range] at hi
    have hlt : k + i < l.length := by omega
    simp [List.getElem?_eq_getElem hlt]

theorem map_getD_range_append (as bs : List α) (a : α) :
    (List.range bs.length).map (fun i => (as ++ bs).getD (as.length + i) a) = bs := by
  rw [map_getD_range _ _ (by simp), List.drop_left, List.take_length]

/-- A string without its terminator is read whole. -/
theorem takeWhile_ne_of_notMem [DecidableEq α] {l : List α} {stop : α} (h : stop ∉ l) :
    l.takeWhile (· ≠ stop) = l := by
  rw [List.takeWhile_eq_self_iff]
  intro a ha
  have hne : a ≠ stop := fun heq => h (heq ▸ ha)
  simpa using hne

end Aquila.Library
