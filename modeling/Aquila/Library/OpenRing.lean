import Mathlib.Data.List.Basic
import Mathlib.Data.Nat.ModEq

/-! # Ring buffers without a count

A ring that keeps only its two indices is empty when they meet, so one of its cells is
never used: storing as many elements as there are cells left forgets all of them.
-/

namespace Aquila.Library

/-- Ring storage with a write index and a read index. -/
structure OpenRing (α : Type*) (n : ℕ) where
  buffer : Fin n → α
  head : Fin n
  tail : Fin n

namespace OpenRing

variable {α : Type*} {n : ℕ}

def init (hn : 0 < n) (buffer : Fin n → α) : OpenRing α n := ⟨buffer, ⟨0, hn⟩, ⟨0, hn⟩⟩

def shift (i : Fin n) (k : ℕ) : Fin n := ⟨(i.val + k) % n, Nat.mod_lt _ i.pos⟩

def used (r : OpenRing α n) : ℕ := (n + r.head.val - r.tail.val) % n

def isEmpty (r : OpenRing α n) : Bool := r.head == r.tail

def isFull (r : OpenRing α n) : Bool := shift r.head 1 == r.tail

def put (r : OpenRing α n) (a : α) : OpenRing α n :=
  { r with buffer := Function.update r.buffer r.head a, head := shift r.head 1 }

/-- A loop storing a list from the `i`-th cell after `head` on. -/
def fill (head : Fin n) : (i : ℕ) → List α → (Fin n → α) → Fin n → α
  | _, [], buffer => buffer
  | i, a :: as, buffer => fill head (i + 1) as (Function.update buffer (shift head i) a)

def append (r : OpenRing α n) (as : List α) : OpenRing α n :=
  { r with buffer := fill r.head 0 as r.buffer, head := shift r.head as.length }

def drop (r : OpenRing α n) : OpenRing α n := { r with tail := shift r.tail 1 }

def clear (r : OpenRing α n) : OpenRing α n := { r with head := r.tail }

/-- The queue a ring denotes, oldest element first. -/
def toList (r : OpenRing α n) : List α :=
  (List.range r.used).map (fun i => r.buffer (shift r.tail i))

/-! ### Indices -/

@[simp] theorem shift_zero (i : Fin n) : shift i 0 = i := Fin.ext (Nat.mod_eq_of_lt i.isLt)

theorem shift_shift (i : Fin n) (j k : ℕ) : shift (shift i j) k = shift i (j + k) := by
  apply Fin.ext
  simp only [shift, Nat.mod_add_mod, Nat.add_assoc]

theorem shift_injective (i : Fin n) {j k : ℕ} (hj : j < n) (hk : k < n)
    (h : shift i j = shift i k) : j = k := by
  have hmod : (i.val + j) % n = (i.val + k) % n := congrArg Fin.val h
  have hjk : j % n = k % n := Nat.ModEq.add_left_cancel' i.val hmod
  rwa [Nat.mod_eq_of_lt hj, Nat.mod_eq_of_lt hk] at hjk

theorem shift_self (i : Fin n) : shift i n = i := by
  apply Fin.ext
  simp only [shift, Nat.add_mod_right, Nat.mod_eq_of_lt i.isLt]

theorem used_lt (r : OpenRing α n) : r.used < n := Nat.mod_lt _ r.head.pos

theorem shift_used (r : OpenRing α n) : shift r.tail r.used = r.head := by
  apply Fin.ext
  have hsum : r.tail.val + (n + r.head.val - r.tail.val) = n + r.head.val := by omega
  simp only [shift, used, Nat.add_mod_mod, hsum, Nat.add_mod_left, Nat.mod_eq_of_lt r.head.isLt]

theorem used_eq (r : OpenRing α n) {k : ℕ} (hk : k < n) (h : r.head = shift r.tail k) :
    r.used = k :=
  shift_injective r.tail r.used_lt hk (r.shift_used.trans h)

theorem isEmpty_iff_used (r : OpenRing α n) : r.isEmpty = true ↔ r.used = 0 := by
  rw [isEmpty, beq_iff_eq]
  constructor
  · intro h
    exact r.used_eq r.head.pos (h.trans (shift_zero _).symm)
  · intro h
    rw [← shift_used, h, shift_zero]

theorem isFull_iff_used (r : OpenRing α n) : r.isFull = true ↔ r.used + 1 = n := by
  rw [isFull, beq_iff_eq, ← shift_used, shift_shift]
  have hlt := r.used_lt
  constructor
  · intro h
    by_contra hne
    have hmeet : shift r.tail (r.used + 1) = shift r.tail 0 := h.trans (shift_zero _).symm
    exact absurd (shift_injective r.tail (by omega) r.tail.pos hmeet) (Nat.succ_ne_zero _)
  · intro h
    rw [h, shift_self]

/-! ### Contents -/

@[simp] theorem length_toList (r : OpenRing α n) : r.toList.length = r.used := by simp [toList]

@[simp] theorem isEmpty_iff (r : OpenRing α n) : r.isEmpty = true ↔ r.toList = [] := by
  rw [isEmpty_iff_used, ← length_toList, List.length_eq_zero_iff]

@[simp] theorem toList_init (hn : 0 < n) (buffer : Fin n → α) : (init hn buffer).toList = [] := by
  rw [← isEmpty_iff, isEmpty, init, beq_self_eq_true]

@[simp] theorem toList_clear (r : OpenRing α n) : r.clear.toList = [] := by
  rw [← isEmpty_iff, isEmpty, clear, beq_self_eq_true]

theorem used_put (r : OpenRing α n) (a : α) (h : r.used + 1 < n) :
    (r.put a).used = r.used + 1 := by
  apply used_eq _ h
  change shift r.head 1 = shift r.tail (r.used + 1)
  rw [← r.shift_used, shift_shift]

theorem toList_put (r : OpenRing α n) (a : α) (h : r.used + 1 < n) :
    (r.put a).toList = r.toList ++ [a] := by
  rw [toList, used_put r a h, List.range_succ, List.map_append, List.map_cons, List.map_nil, toList]
  congr 1
  · apply List.map_congr_left
    intro i hi
    apply Function.update_of_ne
    intro hmeet
    have hi := List.mem_range.mp hi
    have := shift_injective r.tail (by omega) (by omega) (hmeet.trans r.shift_used.symm)
    omega
  · change [Function.update r.buffer r.head a (shift r.tail r.used)] = [a]
    rw [shift_used, Function.update_self]

theorem fill_succ (head : Fin n) (i : ℕ) (as : List α) (buffer : Fin n → α) :
    fill head (i + 1) as buffer = fill (shift head 1) i as buffer := by
  induction as generalizing i buffer with
  | nil => rfl
  | cons a as ih => rw [fill, fill, ih, shift_shift, Nat.add_comm 1 i]

theorem append_cons (r : OpenRing α n) (a : α) (as : List α) :
    r.append (a :: as) = (r.put a).append as := by
  simp only [append, put, fill, fill_succ, shift_zero, shift_shift, List.length_cons,
    Nat.add_comm 1]

theorem toList_append (r : OpenRing α n) (as : List α) (h : r.used + as.length < n) :
    (r.append as).toList = r.toList ++ as := by
  induction as generalizing r with
  | nil => simp [append, fill]
  | cons a as ih =>
    rw [List.length_cons] at h
    have hput := r.used_put a (by omega)
    rw [append_cons, ih (r.put a) (by omega), r.toList_put a (by omega), List.append_assoc,
      List.singleton_append]

/-- A list that takes the last cell empties the queue. -/
theorem toList_append_meet (r : OpenRing α n) (as : List α) (h : r.used + as.length = n) :
    (r.append as).toList = [] := by
  rw [← isEmpty_iff, isEmpty, beq_iff_eq]
  change shift r.head as.length = r.tail
  rw [← shift_used, shift_shift, h, shift_self]

theorem put_eq_append (r : OpenRing α n) (a : α) : r.put a = r.append [a] := by
  rw [append_cons]
  simp [append, fill]

theorem used_drop (r : OpenRing α n) (h : r.used ≠ 0) : r.drop.used = r.used - 1 := by
  have hlt := r.used_lt
  apply used_eq _ (by omega)
  change r.head = shift (shift r.tail 1) (r.used - 1)
  rw [shift_shift, Nat.add_sub_cancel' (by omega), shift_used]

theorem toList_eq_cons (r : OpenRing α n) (h : r.used ≠ 0) :
    r.toList = r.buffer r.tail :: r.drop.toList := by
  have hcount : r.used = r.drop.used + 1 := by
    rw [used_drop r h]
    omega
  rw [toList, hcount, List.range_succ_eq_map, List.map_cons, List.map_map, shift_zero, toList]
  congr 1
  apply List.map_congr_left
  intro i _
  change r.buffer (shift r.tail (i + 1)) = r.buffer (shift (shift r.tail 1) i)
  rw [shift_shift, Nat.add_comm 1 i]

end OpenRing

end Aquila.Library
