import Mathlib.Logic.Function.Iterate
import Mathlib.Data.List.Basic
import Mathlib.Data.Nat.Notation

/-! # Shift registers with linear feedback

A register shifts towards its most significant bit and adds the feedback word when a one
leaves it. The step is linear for exclusive or. It is injective when the feedback word ends
in a one, and keeps the parity of the register when that word has odd parity.
-/

namespace Aquila.Library

/-- A step that distributes over two operations distributes over them along whole inputs. -/
theorem foldl_zipWith {V A : Type*} {add : V → V → V} {addIn : A → A → A} {step : V → A → V}
    (h : ∀ v v' a a', step (add v v') (addIn a a') = add (step v a) (step v' a'))
    (as bs : List A) (hlen : as.length = bs.length) (v v' : V) :
    (List.zipWith addIn as bs).foldl step (add v v') =
      add (as.foldl step v) (bs.foldl step v') := by
  induction as generalizing bs v v' with
  | nil =>
    rw [List.length_eq_zero_iff.mp hlen.symm]
    rfl
  | cons a as ih =>
    cases bs with
    | nil => simp at hlen
    | cons b bs =>
      rw [List.zipWith_cons_cons, List.foldl_cons, List.foldl_cons, List.foldl_cons, h]
      exact ih bs (Nat.succ.inj hlen) _ _

/-! ### Orbits -/

section
variable {V : Type*} [DecidableEq V] {T : V → V} {v : V}

/-- Whether `v` is one of the next `n` states after `w`. -/
def meets (T : V → V) (v : V) : (n : ℕ) → (w : V) → Bool
  | 0, _ => false
  | n + 1, w => decide (T w = v) || meets T v n (T w)

theorem iterate_ne_of_meets {n : ℕ} {w : V} (h : meets T v n w = false) {d : ℕ} (hpos : 0 < d)
    (hd : d ≤ n) : T^[d] w ≠ v := by
  induction n generalizing w d with
  | zero => omega
  | succ n ih =>
    rw [meets, Bool.or_eq_false_iff, decide_eq_false_iff_not] at h
    cases d with
    | zero => omega
    | succ d =>
      rw [Function.iterate_succ_apply]
      rcases Nat.eq_zero_or_pos d with h0 | h0
      · rw [h0]
        exact h.1
      · exact ih h.2 h0 (by omega)

/-- An orbit that does not return in `n` steps has no two equal states that close together. -/
theorem iterate_ne_iterate (hT : Function.Injective T) {n : ℕ} (h : meets T v n v = false)
    {i j : ℕ} (hij : i ≠ j) (hi : i ≤ n) (hj : j ≤ n) : T^[i] v ≠ T^[j] v := by
  intro heq
  rcases Nat.lt_or_gt_of_ne hij with hlt | hlt
  · exact iterate_ne_of_meets h (by omega) (by omega) (Function.iterate_cancel hT heq.symm)
  · exact iterate_ne_of_meets h (by omega) (by omega) (Function.iterate_cancel hT heq)

end

/-! ### Sums and parity of words -/

section
variable {w : ℕ}

def xorAll (cs : List (BitVec w)) : BitVec w := cs.foldr (· ^^^ ·) 0

@[simp] theorem xorAll_nil : xorAll ([] : List (BitVec w)) = 0 := rfl

@[simp] theorem xorAll_cons (c : BitVec w) (cs : List (BitVec w)) :
    xorAll (c :: cs) = c ^^^ xorAll cs := rfl

@[simp] theorem xorAll_append (cs ds : List (BitVec w)) :
    xorAll (cs ++ ds) = xorAll cs ^^^ xorAll ds := by
  induction cs with
  | nil => simp
  | cons c cs ih => rw [List.cons_append, xorAll_cons, ih, xorAll_cons, BitVec.xor_assoc]

/-- A map that is linear for exclusive or passes through sums. -/
theorem map_xorAll {T : BitVec w → BitVec w} (h0 : T 0 = 0)
    (hT : ∀ a b, T (a ^^^ b) = T a ^^^ T b) (cs : List (BitVec w)) :
    T (xorAll cs) = xorAll (cs.map T) := by
  induction cs with
  | nil => exact h0
  | cons c cs ih => rw [xorAll_cons, hT, ih, List.map_cons, xorAll_cons]

/-- The parity of the bits of a word with the given places. -/
def parityOn (places : List ℕ) (c : BitVec w) : Bool :=
  places.foldr (fun i p => c.getLsbD i ^^ p) false

def parity (c : BitVec w) : Bool := parityOn (List.range w) c

theorem parityOn_append (is js : List ℕ) (c : BitVec w) :
    parityOn (is ++ js) c = (parityOn is c ^^ parityOn js c) := by
  induction is with
  | nil => simp [parityOn]
  | cons i is ih =>
    change (c.getLsbD i ^^ parityOn (is ++ js) c) = _
    rw [ih, ← Bool.xor_assoc]
    rfl

theorem parityOn_xor (is : List ℕ) (a b : BitVec w) :
    parityOn is (a ^^^ b) = (parityOn is a ^^ parityOn is b) := by
  induction is with
  | nil => rfl
  | cons i is ih =>
    change ((a ^^^ b).getLsbD i ^^ parityOn is (a ^^^ b)) =
      ((a.getLsbD i ^^ parityOn is a) ^^ (b.getLsbD i ^^ parityOn is b))
    rw [ih, BitVec.getLsbD_xor, Bool.xor_assoc, Bool.xor_assoc]
    congr 1
    rw [Bool.xor_left_comm]

theorem parity_xor (a b : BitVec w) : parity (a ^^^ b) = (parity a ^^ parity b) :=
  parityOn_xor _ a b

theorem parityOn_congr {w' : ℕ} {is : List ℕ} {f : ℕ → ℕ} {a : BitVec w} {b : BitVec w'}
    (h : ∀ i ∈ is, a.getLsbD (f i) = b.getLsbD i) : parityOn (is.map f) a = parityOn is b := by
  induction is with
  | nil => rfl
  | cons i is ih =>
    rw [List.forall_mem_cons] at h
    change (a.getLsbD (f i) ^^ parityOn (is.map f) a) = (b.getLsbD i ^^ parityOn is b)
    rw [h.1, ih h.2]

/-- What a shift loses is the parity of the bit that leaves. -/
theorem parity_shiftLeft_one (c : BitVec (w + 1)) :
    parity (c <<< 1) = (parity c ^^ c.getLsbD w) := by
  have hlow : parity (c <<< 1) = parityOn (List.range w) c := by
    rw [parity, List.range_succ_eq_map]
    change ((c <<< 1).getLsbD 0 ^^ parityOn ((List.range w).map Nat.succ) (c <<< 1)) = _
    rw [parityOn_congr (b := c) (by
      intro i hi
      have := List.mem_range.mp hi
      rw [BitVec.getLsbD_shiftLeft]
      simp
      omega)]
    simp
  have hall : parity c = (parityOn (List.range w) c ^^ c.getLsbD w) := by
    rw [parity, List.range_succ, parityOn_append]
    simp [parityOn]
  rw [hlow, hall, Bool.xor_assoc, Bool.xor_self, Bool.xor_false]

theorem parity_xorAll {cs : List (BitVec w)} (h : ∀ c ∈ cs, parity c = true) :
    parity (xorAll cs) = decide (cs.length % 2 = 1) := by
  induction cs with
  | nil =>
    have hzero : ∀ is, parityOn is (0 : BitVec w) = false := by
      intro is
      induction is with
      | nil => rfl
      | cons i is ih =>
        change ((0 : BitVec w).getLsbD i ^^ parityOn is 0) = false
        rw [ih]
        simp
    exact hzero _
  | cons c cs ih =>
    rw [List.forall_mem_cons] at h
    rw [xorAll_cons, parity_xor, h.1, ih h.2, List.length_cons]
    rcases Nat.mod_two_eq_zero_or_one cs.length with hmod | hmod
    · have : (cs.length + 1) % 2 = 1 := by omega
      simp [hmod, this]
    · have : (cs.length + 1) % 2 = 0 := by omega
      simp [hmod, this]

end

/-! ### The feedback step -/

section
variable {w : ℕ} {feedback : BitVec (w + 1)}

/-- Shift, and add the feedback word when a one leaves the register. -/
def shiftFeed (feedback c : BitVec (w + 1)) : BitVec (w + 1) :=
  if c.getLsbD w then (c <<< 1) ^^^ feedback else c <<< 1

@[simp] theorem shiftFeed_zero : shiftFeed feedback 0 = 0 := by simp [shiftFeed]

private theorem xor_xor_xor_cancel (a b p : BitVec w) : (a ^^^ p) ^^^ (b ^^^ p) = a ^^^ b := by
  rw [BitVec.xor_comm b p, BitVec.xor_assoc, ← BitVec.xor_assoc p p b, BitVec.xor_self,
    BitVec.zero_xor]

theorem shiftFeed_xor (a b : BitVec (w + 1)) :
    shiftFeed feedback (a ^^^ b) = shiftFeed feedback a ^^^ shiftFeed feedback b := by
  simp only [shiftFeed, BitVec.getLsbD_xor, BitVec.shiftLeft_xor_distrib]
  cases a.getLsbD w with
  | false =>
    cases b.getLsbD w with
    | false => simp
    | true => simp [BitVec.xor_assoc]
  | true =>
    cases b.getLsbD w with
    | false => simp [BitVec.xor_assoc, BitVec.xor_comm feedback]
    | true => simp [xor_xor_xor_cancel]

theorem iterate_shiftFeed_zero (n : ℕ) : (shiftFeed feedback)^[n] 0 = 0 :=
  Function.iterate_fixed shiftFeed_zero n

theorem iterate_shiftFeed_xor (n : ℕ) (a b : BitVec (w + 1)) :
    (shiftFeed feedback)^[n] (a ^^^ b) =
      (shiftFeed feedback)^[n] a ^^^ (shiftFeed feedback)^[n] b := by
  induction n generalizing a b with
  | zero => rfl
  | succ n ih => rw [Function.iterate_succ_apply, shiftFeed_xor, ih]; rfl

theorem eq_zero_of_shiftFeed (hfeedback : feedback.getLsbD 0 = true) {c : BitVec (w + 1)}
    (h : shiftFeed feedback c = 0) : c = 0 := by
  have hmsb : c.getLsbD w = false := by
    cases hc : c.getLsbD w with
    | false => rfl
    | true =>
      have hbit := congrArg (fun d => d.getLsbD 0) h
      simp only [shiftFeed, hc, if_true, BitVec.getLsbD_xor, hfeedback] at hbit
      simp at hbit
  rw [shiftFeed, hmsb, if_neg Bool.false_ne_true] at h
  apply BitVec.eq_of_getLsbD_eq
  intro i hi
  have hbit := congrArg (fun d => d.getLsbD (i + 1)) h
  rcases Nat.lt_or_ge i w with hlt | hge
  · have hshift : (c <<< 1).getLsbD (i + 1) = c.getLsbD i := by
      rw [BitVec.getLsbD_shiftLeft]
      simp [hlt]
    rw [← hshift]
    exact hbit.trans (by simp)
  · have hlast : i = w := by omega
    rw [hlast, hmsb]
    simp

theorem shiftFeed_injective (hfeedback : feedback.getLsbD 0 = true) :
    Function.Injective (shiftFeed feedback) := by
  intro a b h
  have hzero : shiftFeed feedback (a ^^^ b) = 0 := by rw [shiftFeed_xor, h, BitVec.xor_self]; rfl
  exact BitVec.xor_eq_zero_iff.mp (eq_zero_of_shiftFeed hfeedback hzero)

theorem iterate_shiftFeed_eq_zero (hfeedback : feedback.getLsbD 0 = true) {n : ℕ}
    {c : BitVec (w + 1)} (h : (shiftFeed feedback)^[n] c = 0) : c = 0 :=
  (shiftFeed_injective hfeedback).iterate n (h.trans (iterate_shiftFeed_zero n).symm)

theorem parity_shiftFeed (hfeedback : parity feedback = true) (c : BitVec (w + 1)) :
    parity (shiftFeed feedback c) = parity c := by
  rw [shiftFeed]
  split
  case isTrue h => rw [parity_xor, parity_shiftLeft_one, h, hfeedback]; simp
  case isFalse h => rw [parity_shiftLeft_one, Bool.eq_false_iff.mpr h, Bool.xor_false]

theorem parity_iterate_shiftFeed (hfeedback : parity feedback = true) (n : ℕ)
    (c : BitVec (w + 1)) : parity ((shiftFeed feedback)^[n] c) = parity c := by
  induction n generalizing c with
  | zero => rfl
  | succ n ih => rw [Function.iterate_succ_apply, ih, parity_shiftFeed hfeedback]

end

end Aquila.Library
