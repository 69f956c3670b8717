import Mathlib.Data.List.Basic
import Mathlib.Data.Nat.ModEq

/-! # Bounded ring buffers

A ring is `n` storage cells, a write index, a read index and a count. The
representation invariant travels in the structure, so every ring that can be
built denotes a queue: `toList` is its contents, oldest first.
-/

namespace Aquila.Library

/-- Ring storage whose write index is the read index advanced by the count. -/
structure Ring (α : Type*) (n : ℕ) where
  buffer : Fin n → α
  head : Fin n
  tail : Fin n
  count : ℕ
  count_le : count ≤ n
  head_eq : head.val = (tail.val + count) % n

namespace Ring

variable {α : Type*} {n : ℕ}

def init (hn : 0 < n) (buffer : Fin n → α) : Ring α n where
  buffer := buffer
  head := ⟨0, hn⟩
  tail := ⟨0, hn⟩
  count := 0
  count_le := Nat.zero_le n
  head_eq := by simp

def advance (i : Fin n) : Fin n :=
  if h : i.val + 1 = n then ⟨0, i.pos⟩ else ⟨i.val + 1, by omega⟩

theorem advance_val (i : Fin n) : (advance i).val = (i.val + 1) % n := by
  rw [advance]
  split
  case isTrue h => simp [h]
  case isFalse h => exact (Nat.mod_eq_of_lt (by omega)).symm

def isFull (r : Ring α n) : Bool := decide (n ≤ r.count)

def isEmpty (r : Ring α n) : Bool := decide (r.count = 0)

private theorem head_after_insert (r : Ring α n) :
    (advance r.head).val = (r.tail.val + (r.count + 1)) % n := by
  rw [advance_val, r.head_eq, Nat.mod_add_mod, Nat.add_assoc]

private theorem head_after_remove (r : Ring α n) (h : r.count ≠ 0) :
    r.head.val = ((advance r.tail).val + (r.count - 1)) % n := by
  rw [advance_val, r.head_eq, Nat.mod_add_mod]
  congr 1
  omega

def insert (r : Ring α n) (a : α) : Bool × Ring α n :=
  if h : n ≤ r.count then (false, r)
  else (true,
    { buffer := Function.update r.buffer r.head a
      head := advance r.head
      tail := r.tail
      count := r.count + 1
      count_le := by omega
      head_eq := head_after_insert r })

def dropOldest (r : Ring α n) (h : r.count ≠ 0) : Ring α n where
  buffer := r.buffer
  head := r.head
  tail := advance r.tail
  count := r.count - 1
  count_le := by have := r.count_le; omega
  head_eq := head_after_remove r h

def remove (r : Ring α n) : Option (α × Ring α n) :=
  if h : r.count = 0 then none else some (r.buffer r.tail, r.dropOldest h)

def slot (r : Ring α n) (i : ℕ) : Fin n := ⟨(r.tail.val + i) % n, Nat.mod_lt _ r.tail.pos⟩

/-- The queue a ring denotes, oldest element first. -/
def toList (r : Ring α n) : List α := (List.range r.count).map (fun i => r.buffer (r.slot i))

theorem slot_zero (r : Ring α n) : r.slot 0 = r.tail :=
  Fin.ext (Nat.mod_eq_of_lt r.tail.isLt)

theorem slot_count (r : Ring α n) : r.slot r.count = r.head := Fin.ext r.head_eq.symm

theorem slot_injective (r : Ring α n) {i j : ℕ} (hi : i < n) (hj : j < n)
    (h : r.slot i = r.slot j) : i = j := by
  have hmod : (r.tail.val + i) % n = (r.tail.val + j) % n := congrArg Fin.val h
  have hij : i % n = j % n := Nat.ModEq.add_left_cancel' r.tail.val hmod
  rwa [Nat.mod_eq_of_lt hi, Nat.mod_eq_of_lt hj] at hij

theorem slot_ne_head (r : Ring α n) {i : ℕ} (hi : i < r.count) (hfull : r.count < n) :
    r.slot i ≠ r.head := by
  rw [← slot_count]
  intro h
  have := r.slot_injective (hi.trans hfull) hfull h
  omega

@[simp] theorem toList_init (hn : 0 < n) (buffer : Fin n → α) : (init hn buffer).toList = [] := rfl

@[simp] theorem length_toList (r : Ring α n) : r.toList.length = r.count := by simp [toList]

theorem length_toList_le (r : Ring α n) : r.toList.length ≤ n := by
  rw [length_toList]
  exact r.count_le

@[simp] theorem isFull_iff (r : Ring α n) : r.isFull = true ↔ r.toList.length = n := by
  have := r.count_le
  simp only [isFull, decide_eq_true_eq, length_toList]
  omega

@[simp] theorem isEmpty_iff (r : Ring α n) : r.isEmpty = true ↔ r.toList = [] := by
  rw [← List.length_eq_zero_iff, length_toList]
  simp [isEmpty]

theorem insert_toList (r : Ring α n) (a : α) (h : r.toList.length < n) :
    (r.insert a).1 = true ∧ (r.insert a).2.toList = r.toList ++ [a] := by
  rw [length_toList] at h
  simp only [insert, dif_neg (Nat.not_le.mpr h), true_and]
  simp only [toList, List.range_succ, List.map_append, List.map_cons, List.map_nil]
  congr 1
  · apply List.map_congr_left
    intro i hi
    exact Function.update_of_ne (r.slot_ne_head (List.mem_range.mp hi) h) _ _
  · congr 1
    change Function.update r.buffer r.head a (r.slot r.count) = a
    rw [slot_count, Function.update_self]

theorem slot_dropOldest (r : Ring α n) (h : r.count ≠ 0) (i : ℕ) :
    (r.dropOldest h).slot i = r.slot (i + 1) := by
  apply Fin.ext
  change ((advance r.tail).val + i) % n = (r.tail.val + (i + 1)) % n
  rw [advance_val, Nat.mod_add_mod]
  congr 1
  omega

theorem toList_eq_cons (r : Ring α n) (h : r.count ≠ 0) :
    r.toList = r.buffer r.tail :: (r.dropOldest h).toList := by
  rcases Nat.exists_eq_succ_of_ne_zero h with ⟨c, hc⟩
  have hcount : (r.dropOldest h).count = c := by simp [dropOldest, hc]
  rw [toList, hc, List.range_succ_eq_map, List.map_cons, List.map_map, slot_zero, toList, hcount]
  congr 1
  apply List.map_congr_left
  intro i _
  rw [slot_dropOldest]
  rfl

theorem remove_cons (r : Ring α n) (a : α) (as : List α) (h : r.toList = a :: as) :
    ∃ r', r.remove = some (a, r') ∧ r'.toList = as := by
  have hc : r.count ≠ 0 := by
    rw [← length_toList, h]
    exact Nat.succ_ne_zero _
  rw [toList_eq_cons r hc] at h
  rcases List.cons.inj h with ⟨rfl, has⟩
  exact ⟨r.dropOldest hc, dif_neg hc, has⟩

end Ring

end Aquila.Library
