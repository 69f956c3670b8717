import Mathlib.Data.List.Basic

/-! # Computations with their memory accesses

A traced value carries the accesses made to compute it, in execution order.
`Within P` says that every access satisfies `P`; it distributes over sequencing
as an equivalence, so a trace can be proved both safe and unsafe by rewriting.
-/

namespace Aquila.Library

structure Traced (ε α : Type*) where
  accesses : List ε
  value : α

namespace Traced

universe u

variable {ε : Type*} {α β : Type u}

instance : Monad (Traced ε) where
  pure a := ⟨[], a⟩
  bind x f := ⟨x.accesses ++ (f x.value).accesses, (f x.value).value⟩

def touch (e : ε) : Traced ε Unit := ⟨[e], ()⟩

/-- The accesses `e 0, …, e (n - 1)` of a block copy. -/
def touchBlock (e : ℕ → ε) (n : ℕ) : Traced ε Unit := ⟨(List.range n).map e, ()⟩

/-- Every access satisfies the predicate. -/
def Within (P : ε → Prop) (x : Traced ε α) : Prop := ∀ e ∈ x.accesses, P e

@[simp] theorem value_pure (a : α) : (pure a : Traced ε α).value = a := rfl

@[simp] theorem value_bind (x : Traced ε α) (f : α → Traced ε β) :
    (x >>= f).value = (f x.value).value := rfl

@[simp] theorem pure_bind (a : α) (f : α → Traced ε β) : (pure a : Traced ε α) >>= f = f a := rfl

@[simp] theorem accesses_pure (a : α) : (pure a : Traced ε α).accesses = [] := rfl

@[simp] theorem accesses_bind (x : Traced ε α) (f : α → Traced ε β) :
    (x >>= f).accesses = x.accesses ++ (f x.value).accesses := rfl

@[simp] theorem accesses_touchBlock (e : ℕ → ε) (n : ℕ) :
    (touchBlock e n).accesses = (List.range n).map e := rfl

@[simp] theorem within_pure (P : ε → Prop) (a : α) : (pure a : Traced ε α).Within P :=
  fun _ he => absurd he List.not_mem_nil

@[simp] theorem within_bind (P : ε → Prop) (x : Traced ε α) (f : α → Traced ε β) :
    (x >>= f).Within P ↔ x.Within P ∧ (f x.value).Within P :=
  List.forall_mem_append

@[simp] theorem within_touch (P : ε → Prop) (e : ε) : (touch e).Within P ↔ P e :=
  List.forall_mem_singleton

@[simp] theorem within_touchBlock (P : ε → Prop) (e : ℕ → ε) (n : ℕ) :
    (touchBlock e n).Within P ↔ ∀ i < n, P (e i) := by
  simp [Within, touchBlock]

end Traced

/-- Every access that needs another one comes after it. -/
def Preceded {ε : Type*} (needs : ε → Option ε) (accesses : List ε) : Prop :=
  ∀ before e after, accesses = before ++ e :: after → ∀ d, needs e = some d → d ∈ before

theorem preceded_nil {ε : Type*} (needs : ε → Option ε) : Preceded needs [] := by
  intro before e after h
  simp at h

/-- Accesses may be added when those already made are all they need. -/
theorem Preceded.append {ε : Type*} {needs : ε → Option ε} {as bs : List ε}
    (h : Preceded needs as) (hbs : ∀ e ∈ bs, ∀ d, needs e = some d → d ∈ as) :
    Preceded needs (as ++ bs) := by
  intro before e after heq d hd
  rcases List.append_eq_append_iff.mp heq with ⟨rest, hbefore, hrest⟩ | ⟨rest, has, hrest⟩
  · rw [hbefore]
    exact List.mem_append_left rest (hbs e (by rw [hrest]; simp) d hd)
  · cases rest with
    | nil =>
      rw [List.append_nil] at has
      rw [← has]
      exact hbs e (by rw [List.nil_append] at hrest; rw [← hrest]; simp) d hd
    | cons e' rest =>
      rw [List.cons_append, List.cons.injEq] at hrest
      exact h before e rest (by rw [has, hrest.1]) d hd

theorem preceded_of_none {ε : Type*} {needs : ε → Option ε} {as : List ε}
    (h : ∀ e ∈ as, needs e = none) : Preceded needs as := by
  apply (preceded_nil needs).append
  intro e he d hd
  rw [h e he] at hd
  cases hd

theorem forall_offset_lt_iff (offset n bound : ℕ) :
    (∀ i < n, offset + i < bound) ↔ n = 0 ∨ offset + n ≤ bound := by
  constructor
  · intro h
    rcases Nat.eq_zero_or_pos n with h0 | h0
    · exact Or.inl h0
    · have := h (n - 1) (by omega)
      omega
  · rintro (h | h) i hi <;> omega

end Aquila.Library
