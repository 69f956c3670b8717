import Mathlib.Data.BitVec

/-! # Sliding windows of sequence numbers

Sequence numbers of `k` bits wrap around. A window remembers which of the last `W` numbers up
to its top have been seen, one bit each. A number outside the window moves it there, and what
the window still covers after that stays remembered.
-/

namespace Aquila.Library

variable {k W : ℕ}

def behind (x y : BitVec k) : ℕ := (x - y).toNat

theorem behind_self (x : BitVec k) : behind x x = 0 := by
  simp [behind]

theorem eq_of_behind_eq {x y z : BitVec k} (h : behind x y = behind x z) : y = z := by
  have hsub : x - y = x - z := BitVec.eq_of_toNat_eq h
  exact sub_right_injective hsub

theorem behind_add {x y z : BitVec k} (h : behind x y + behind y z < 2 ^ k) :
    behind x z = behind x y + behind y z := by
  have hsum : x - z = (x - y) + (y - z) := (sub_add_sub_cancel x y z).symm
  rw [behind, hsum, BitVec.toNat_add]
  exact Nat.mod_eq_of_lt h

theorem behind_sub {x y z : BitVec k} (h : behind x y ≤ behind x z) :
    behind y z = behind x z - behind x y := by
  have hdifference : y - z = (x - z) - (x - y) := (sub_sub_sub_cancel_left z y x).symm
  rw [behind, hdifference, BitVec.toNat_sub_of_le (BitVec.le_def.mpr h)]
  rfl

theorem behind_of_le {x y z : BitVec k} (h : behind z x ≤ behind y x) :
    behind y z = behind y x - behind z x := by
  have hdifference : y - z = (y - x) - (z - x) := (sub_sub_sub_cancel_right y z x).symm
  rw [behind, hdifference, BitVec.toNat_sub_of_le (BitVec.le_def.mpr h)]
  rfl

theorem behind_swap {x y : BitVec k} (h : x ≠ y) : behind x y + behind y x = 2 ^ k := by
  have hsum : (x - y) + (y - x) = 0 := by
    rw [sub_add_sub_cancel, sub_self]
  have hmod := congrArg BitVec.toNat hsum
  rw [BitVec.toNat_add] at hmod
  have hxy := (x - y).isLt
  have hyx := (y - x).isLt
  have hpos : 0 < behind x y := by
    apply Nat.pos_of_ne_zero
    intro hzero
    rw [← behind_self x] at hzero
    exact h (eq_of_behind_eq hzero).symm
  rcases Nat.dvd_of_mod_eq_zero hmod with ⟨turns, hturns⟩
  rcases turns with _ | _ | turns
  · rw [behind] at hpos
    omega
  · rw [behind, behind, hturns, Nat.mul_one]
  · have hturn : 2 ^ k ≤ 2 ^ k * (turns + 1) := Nat.le_mul_of_pos_right _ (Nat.succ_pos turns)
    rw [Nat.mul_add] at hturns
    omega

/-- A window of the numbers seen: its top, and one bit for each number up to `W - 1` behind. -/
structure Window (k W : ℕ) where
  top : BitVec k
  mask : BitVec W
  deriving DecidableEq

namespace Window

def single (x : BitVec k) : Window k W := ⟨x, 1#W⟩

def Remembers (s : Window k W) (x : BitVec k) : Prop := s.mask.getLsbD (behind s.top x) = true

instance (s : Window k W) (x : BitVec k) : Decidable (s.Remembers x) :=
  inferInstanceAs (Decidable (_ = true))

/-- A number that arrives; `none` if it has been seen. -/
def arrive (s : Window k W) (x : BitVec k) : Option (Window k W) :=
  if behind s.top x < W then
    if s.mask.getLsbD (behind s.top x) then none
    else some { s with mask := s.mask ||| (1#W <<< behind s.top x) }
  else some ⟨x, (s.mask <<< behind x s.top) ||| 1#W⟩

theorem Remembers.lt {s : Window k W} {x : BitVec k} (h : s.Remembers x) :
    behind s.top x < W := BitVec.lt_of_getLsbD h

theorem remembers_single (hW : 0 < W) (x y : BitVec k) :
    (single (W := W) x).Remembers y ↔ y = x := by
  rw [Remembers, single, BitVec.getLsbD_one]
  constructor
  · intro h
    rw [Bool.and_eq_true, decide_eq_true_eq, decide_eq_true_eq] at h
    apply eq_of_behind_eq (x := x)
    rw [h.2, behind_self]
  · rintro rfl
    simp [hW, behind_self]

theorem arrive_none {s : Window k W} {x : BitVec k} : s.arrive x = none ↔ s.Remembers x := by
  rw [arrive]
  split
  case isTrue hlt =>
    split
    case isTrue hseen => exact iff_of_true rfl hseen
    case isFalse hseen => exact iff_of_false (by simp) hseen
  case isFalse hlt => exact iff_of_false (by simp) (fun h => hlt h.lt)

/-- After an arrival the window remembers the number, and what it still covers of the others. -/
theorem remembers_arrive (hW : 0 < W) {s s' : Window k W} {x : BitVec k}
    (h : s.arrive x = some s') (y : BitVec k) :
    s'.Remembers y ↔ y = x ∨ s.Remembers y ∧ behind s'.top y < W := by
  rw [arrive] at h
  split at h
  case isTrue hlt =>
    split at h
    case isTrue => cases h
    case isFalse =>
      cases h
      have hbit : (1#W <<< behind s.top x).getLsbD (behind s.top y) = true ↔ y = x := by
        rw [BitVec.getLsbD_shiftLeft, BitVec.getLsbD_one]
        constructor
        · intro hset
          simp only [Bool.and_eq_true, decide_eq_true_eq, Bool.not_eq_true',
            decide_eq_false_iff_not] at hset
          apply eq_of_behind_eq (x := s.top)
          omega
        · rintro rfl
          simp [hlt, hW]
      simp only [Remembers, BitVec.getLsbD_or, Bool.or_eq_true, hbit]
      constructor
      · rintro (hseen | hnew)
        · exact .inr ⟨hseen, BitVec.lt_of_getLsbD hseen⟩
        · exact .inl hnew
      · rintro (hnew | ⟨hseen, _⟩)
        · exact .inr hnew
        · exact .inl hseen
  case isFalse hge =>
    cases h
    have hne : x ≠ s.top := by
      rintro rfl
      rw [behind_self] at hge
      exact hge hW
    have hturn := behind_swap hne
    simp only [Remembers, BitVec.getLsbD_or, Bool.or_eq_true, BitVec.getLsbD_one,
      BitVec.getLsbD_shiftLeft, Bool.and_eq_true, decide_eq_true_eq, Bool.not_eq_true',
      decide_eq_false_iff_not]
    constructor
    · rintro (⟨⟨hlt, hmoved⟩, hseen⟩ | ⟨_, hzero⟩)
      · rw [← behind_sub (Nat.le_of_not_lt hmoved)] at hseen
        exact .inr ⟨hseen, hlt⟩
      · left
        apply eq_of_behind_eq (x := x)
        rw [hzero, behind_self]
    · rintro (rfl | ⟨hseen, hlt⟩)
      · right
        exact ⟨hW, behind_self y⟩
      · left
        have hold := BitVec.lt_of_getLsbD hseen
        have hsum := behind_add (x := x) (y := s.top) (z := y) (by omega)
        have hindex : behind x y - behind x s.top = behind s.top y := by omega
        rw [hindex]
        exact ⟨⟨hlt, by omega⟩, hseen⟩

theorem top_arrive {s s' : Window k W} {x : BitVec k} (h : s.arrive x = some s') :
    (behind s.top x < W ∧ s'.top = s.top) ∨ (¬ behind s.top x < W ∧ s'.top = x) := by
  rw [arrive] at h
  split at h
  case isTrue hlt =>
    split at h
    case isTrue => cases h
    case isFalse =>
      cases h
      exact .inl ⟨hlt, rfl⟩
  case isFalse hge =>
    cases h
    exact .inr ⟨hge, rfl⟩

/-- Among numbers of a span of `W` nothing is forgotten, in whatever order they arrive. -/
theorem Remembers.arrive_span (hW : 0 < W) (hk : 2 * W ≤ 2 ^ k) {s s' : Window k W}
    {x y z : BitVec k} (hz : s.Remembers z) (hzx : behind z x < W) (hyx : behind y x < W)
    (htopx : behind s.top x < W) (h : s.arrive y = some s') : s'.Remembers z := by
  apply (remembers_arrive hW h z).mpr
  right
  refine ⟨hz, ?_⟩
  rcases top_arrive h with ⟨_, htop⟩ | ⟨hout, htop⟩
  · rw [htop]
    exact hz.lt
  · rw [htop]
    rcases Nat.lt_or_ge (behind y x) (behind z x) with hyz | hzy
    · -- then `z` would lie ahead of the old top as well
      have hahead : behind s.top x < behind z x := by
        rcases Nat.lt_or_ge (behind s.top x) (behind y x) with hty | hyt
        · omega
        · have hnear := behind_of_le hyt
          omega
      have hback := behind_of_le (Nat.le_of_lt hahead)
      have hne : s.top ≠ z := by
        rintro heq
        rw [heq] at hahead
        exact Nat.lt_irrefl _ hahead
      have hturn := behind_swap hne
      have hseen := hz.lt
      omega
    · rw [behind_of_le hzy]
      omega

theorem top_arrive_span {s s' : Window k W} {x y : BitVec k} (hyx : behind y x < W)
    (htopx : behind s.top x < W) (h : s.arrive y = some s') : behind s'.top x < W := by
  rcases top_arrive h with ⟨_, htop⟩ | ⟨_, htop⟩
  · rw [htop]
    exact htopx
  · rw [htop]
    exact hyx

end Window

end Aquila.Library
