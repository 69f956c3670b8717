import Aquila.Library.Run

/-! # Runs in rounds

A system that is left alone does part of its work in each round, in which every kind of step is
taken at least once, in any order and among any others. A weight that no step raises then ends
at zero.
-/

namespace Aquila.Library

variable {S L K : Type*}

/-- Steps that are allowed while the system is left alone lower the weight, or leave it and
everything that could be done as they are. A kind of step that can be done lowers it. -/
structure Settling (step : S → L → S) (invariant : S → Prop) (quiet : L → Prop)
    (kind : K → L → Prop) (enabled : K → S → Prop) (weight : S → ℕ) : Prop where
  keep : ∀ s l, invariant s → quiet l → invariant (step s l)
  lower : ∀ s l, invariant s → quiet l → weight (step s l) < weight s ∨
    weight (step s l) = weight s ∧ ∀ k, enabled k s → enabled k (step s l)
  act : ∀ s l k, invariant s → quiet l → kind k l → enabled k s → weight (step s l) < weight s

variable {step : S → L → S} {invariant : S → Prop} {quiet : L → Prop} {kind : K → L → Prop}
  {enabled : K → S → Prop} {weight : S → ℕ}

theorem Settling.run_keep (h : Settling step invariant quiet kind enabled weight) {s : S}
    (hs : invariant s) {ls : List L} (hls : ∀ l ∈ ls, quiet l) : invariant (run step s ls) :=
  run_invariant_of (fun s l hl hs => h.keep s l hs hl) hs ls hls

theorem Settling.run_le (h : Settling step invariant quiet kind enabled weight) {s : S}
    (hs : invariant s) {ls : List L} (hls : ∀ l ∈ ls, quiet l) :
    weight (run step s ls) ≤ weight s := by
  induction ls generalizing s with
  | nil => exact Nat.le_refl _
  | cons l ls ih =>
    rw [List.forall_mem_cons] at hls
    apply Nat.le_trans (ih (h.keep s l hs hls.1) hls.2)
    rcases h.lower s l hs hls.1 with hlt | ⟨heq, _⟩
    · exact Nat.le_of_lt hlt
    · exact Nat.le_of_eq heq

/-- What can be done is done by a run that has a step of its kind, or something else has been. -/
theorem Settling.run_lt (h : Settling step invariant quiet kind enabled weight) {s : S}
    (hs : invariant s) {k : K} (hk : enabled k s) {ls : List L} (hls : ∀ l ∈ ls, quiet l)
    (hkind : ∃ l ∈ ls, kind k l) : weight (run step s ls) < weight s := by
  induction ls generalizing s with
  | nil =>
    rcases hkind with ⟨l, hl, _⟩
    exact absurd hl List.not_mem_nil
  | cons l ls ih =>
    rw [List.forall_mem_cons] at hls
    have hrest := h.run_le (h.keep s l hs hls.1) hls.2
    rcases h.lower s l hs hls.1 with hlt | ⟨heq, hstill⟩
    · exact Nat.lt_of_le_of_lt hrest hlt
    · by_cases hl : kind k l
      · exact Nat.lt_of_le_of_lt hrest (h.act s l k hs hls.1 hl hk)
      · rw [run_cons, ← heq]
        apply ih (h.keep s l hs hls.1) (hstill k hk) hls.2
        rcases hkind with ⟨l', hl', hkind⟩
        rcases List.mem_cons.mp hl' with rfl | hl'
        · exact absurd hkind hl
        · exact ⟨l', hl', hkind⟩

/-- A round of a system that is left alone has a step of every kind. -/
structure Round (quiet : L → Prop) (kind : K → L → Prop) (ls : List L) : Prop where
  quiet : ∀ l ∈ ls, quiet l
  full : ∀ k, ∃ l ∈ ls, kind k l

/-- As many rounds as the weight end all work, if some of it can be done while there is any. -/
theorem Settling.rounds (h : Settling step invariant quiet kind enabled weight)
    (hlive : ∀ s, invariant s → weight s ≠ 0 → ∃ k, enabled k s) {s : S} (hs : invariant s)
    {rounds : List (List L)} (hrounds : ∀ ls ∈ rounds, Round quiet kind ls)
    (hcount : weight s ≤ rounds.length) : weight (run step s rounds.flatten) = 0 := by
  induction rounds generalizing s with
  | nil => exact Nat.le_zero.mp hcount
  | cons ls rounds ih =>
    rw [List.forall_mem_cons] at hrounds
    rw [List.flatten_cons, run_append]
    apply ih (h.run_keep hs hrounds.1.quiet) hrounds.2
    by_cases hzero : weight s = 0
    · have hle := h.run_le hs hrounds.1.quiet
      omega
    · rcases hlive s hs hzero with ⟨k, hk⟩
      have hlt := h.run_lt hs hk hrounds.1.quiet (hrounds.1.full k)
      rw [List.length_cons] at hcount
      omega

end Aquila.Library
