import Mathlib.Data.List.Basic

/-! # Runs of labelled step functions

A run folds a step function over a list of labels. The induction rules here are
the only place where an invariant is carried along a run.
-/

namespace Aquila.Library

variable {S L : Type*}

/-- The state after the labels, taken in order. -/
def run (step : S → L → S) (s : S) (ls : List L) : S := ls.foldl step s

variable {step : S → L → S}

@[simp] theorem run_nil (s : S) : run step s [] = s := rfl

@[simp] theorem run_cons (s : S) (l : L) (ls : List L) :
    run step s (l :: ls) = run step (step s l) ls := rfl

theorem run_append (s : S) (as bs : List L) :
    run step s (as ++ bs) = run step (run step s as) bs := List.foldl_append

/-- A predicate kept by every step of a kind holds after every run of such steps. -/
theorem run_invariant_of {I : S → Prop} {K : L → Prop} (hstep : ∀ s l, K l → I s → I (step s l))
    {s : S} (h : I s) (ls : List L) (hK : ∀ l ∈ ls, K l) : I (run step s ls) := by
  induction ls generalizing s with
  | nil => exact h
  | cons l ls ih =>
    rw [List.forall_mem_cons] at hK
    exact ih (hstep s l hK.1 h) hK.2

/-- A predicate kept by every step holds after every run. -/
theorem run_invariant {I : S → Prop} (hstep : ∀ s l, I s → I (step s l)) {s : S} (h : I s)
    (ls : List L) : I (run step s ls) :=
  run_invariant_of (K := fun _ => True) (fun s l _ => hstep s l) h ls (fun _ _ => trivial)

/-- If every step is a run of another step function on part of the state, so is every run. -/
theorem run_project {S' L' : Type*} {step' : S' → L' → S'} {f : S → S'}
    (hstep : ∀ s l, ∃ ls', f (step s l) = run step' (f s) ls') (s : S) (ls : List L) :
    ∃ ls', f (run step s ls) = run step' (f s) ls' := by
  induction ls generalizing s with
  | nil => exact ⟨[], rfl⟩
  | cons l ls ih =>
    rcases hstep s l with ⟨first, hfirst⟩
    rcases ih (step s l) with ⟨rest, hrest⟩
    rw [hfirst] at hrest
    exact ⟨first ++ rest, hrest.trans (run_append _ _ _).symm⟩

/-- A list that every step extends is extended by every run. -/
theorem run_prefix {α : Type*} {f : S → List α} (hstep : ∀ s l, f s <+: f (step s l)) (s : S)
    (ls : List L) : f s <+: f (run step s ls) :=
  run_invariant (I := fun t => f s <+: f t) (fun t l h => h.trans (hstep t l)) List.prefix_rfl ls

/-- A condition that passes from the end of a step to its start holds at the start of every
run that it holds at the end of. -/
theorem run_backward {C : S → Prop} (hback : ∀ s l, C (step s l) → C s) (s : S) (ls : List L)
    (hC : C (run step s ls)) : C s := by
  induction ls generalizing s with
  | nil => exact hC
  | cons l ls ih => exact hback s l (ih (step s l) hC)

theorem run_invariant_of_end {I C : S → Prop} (hback : ∀ s l, C (step s l) → C s)
    (hstep : ∀ s l, I s → C (step s l) → I (step s l)) {s : S} (h : I s) (ls : List L)
    (hC : C (run step s ls)) : I (run step s ls) := by
  induction ls generalizing s with
  | nil => exact h
  | cons l ls ih => exact ih (hstep s l h (run_backward hback (step s l) ls hC)) hC

/-- Every label of the run meets the guard in the state where it is taken. -/
def Guarded (step : S → L → S) (guard : S → L → Prop) : S → List L → Prop
  | _, [] => True
  | s, l :: ls => guard s l ∧ Guarded step guard (step s l) ls

instance decidableGuarded (step : S → L → S) (guard : S → L → Prop)
    [∀ s l, Decidable (guard s l)] : ∀ s ls, Decidable (Guarded step guard s ls)
  | _, [] => isTrue trivial
  | s, l :: ls =>
    have := decidableGuarded step guard (step s l) ls
    inferInstanceAs (Decidable (guard s l ∧ Guarded step guard (step s l) ls))

theorem Guarded.mono {guard guard' : S → L → Prop} (hmono : ∀ s l, guard s l → guard' s l) {s : S}
    {ls : List L} (h : Guarded step guard s ls) : Guarded step guard' s ls := by
  induction ls generalizing s with
  | nil => trivial
  | cons l ls ih => exact ⟨hmono s l h.1, ih h.2⟩

/-- A predicate kept by every guarded step holds after every guarded run. -/
theorem run_guarded {I : S → Prop} {guard : S → L → Prop}
    (hstep : ∀ s l, I s → guard s l → I (step s l)) {s : S} (h : I s) {ls : List L}
    (hg : Guarded step guard s ls) : I (run step s ls) := by
  induction ls generalizing s with
  | nil => exact h
  | cons l ls ih => exact ih (hstep s l h hg.1) hg.2

/-- A condition that passes from the end of a guarded step to its start holds at the start of
every guarded run that it holds at the end of. -/
theorem guarded_backward {C : S → Prop} {guard : S → L → Prop}
    (hback : ∀ s l, guard s l → C (step s l) → C s) {s : S} {ls : List L}
    (hg : Guarded step guard s ls) (hC : C (run step s ls)) : C s := by
  induction ls generalizing s with
  | nil => exact hC
  | cons l ls ih => exact hback s l hg.1 (ih hg.2 hC)

theorem run_guarded_of_end {I C : S → Prop} {guard : S → L → Prop}
    (hback : ∀ s l, guard s l → C (step s l) → C s)
    (hstep : ∀ s l, I s → guard s l → C (step s l) → I (step s l)) {s : S} (h : I s)
    {ls : List L} (hg : Guarded step guard s ls) (hC : C (run step s ls)) :
    I (run step s ls) := by
  induction ls generalizing s with
  | nil => exact h
  | cons l ls ih => exact ih (hstep s l h hg.1 (guarded_backward hback hg.2 hC)) hg.2 hC

/-- Two guards that agree wherever a predicate holds guard the same runs, if steps that meet
them keep the predicate. -/
theorem guarded_iff {I : S → Prop} {guard guard' : S → L → Prop}
    (hiff : ∀ s l, I s → (guard s l ↔ guard' s l)) (hkeep : ∀ s l, I s → guard s l → I (step s l))
    {s : S} (h : I s) (ls : List L) : Guarded step guard s ls ↔ Guarded step guard' s ls := by
  induction ls generalizing s with
  | nil => exact Iff.rfl
  | cons l ls ih =>
    apply (and_congr_right fun hg => ih (hkeep s l h hg)).trans
    exact and_congr_left fun _ => hiff s l h

/-- If guarded steps keep an invariant `I` and the others lose for good what it gives, `P` holds
at the end of a run exactly when all its steps are guarded. Only labels of the given kind need to
be considered. -/
theorem run_iff_guarded_of {I P Lost : S → Prop} {guard : S → L → Prop} {K : L → Prop}
    (hkeep : ∀ s l, K l → I s → guard s l → I (step s l))
    (hlose : ∀ s l, K l → I s → ¬ guard s l → Lost (step s l))
    (hlost : ∀ s l, K l → Lost s → Lost (step s l)) (hI : ∀ s, I s → P s)
    (hnot : ∀ s, Lost s → ¬ P s) {s : S} (h : I s) (ls : List L) (hK : ∀ l ∈ ls, K l) :
    P (run step s ls) ↔ Guarded step guard s ls := by
  induction ls generalizing s with
  | nil => exact iff_of_true (hI s h) trivial
  | cons l ls ih =>
    rw [List.forall_mem_cons] at hK
    by_cases hg : guard s l
    · have hrest := ih (hkeep s l hK.1 h hg) hK.2
      exact hrest.trans (and_iff_right hg).symm
    · have hend := run_invariant_of hlost (hlose s l hK.1 h hg) ls hK.2
      exact iff_of_false (hnot _ hend) (fun hguarded => hg hguarded.1)

theorem run_lost {I Lost : S → Prop} {guard : S → L → Prop}
    (hkeep : ∀ s l, I s → guard s l → I (step s l))
    (hlose : ∀ s l, I s → ¬ guard s l → Lost (step s l))
    (hlost : ∀ s l, Lost s → Lost (step s l)) {s : S} (h : I s) {ls : List L}
    (hg : ¬ Guarded step guard s ls) : Lost (run step s ls) := by
  induction ls generalizing s with
  | nil => exact absurd trivial hg
  | cons l ls ih =>
    by_cases hl : guard s l
    · exact ih (hkeep s l h hl) (fun hrest => hg ⟨hl, hrest⟩)
    · exact run_invariant hlost (hlose s l h hl) ls

/-- If unguarded steps that fit lose for good what a run has to keep, a run whose steps all fit
keeps it only if they are all guarded. -/
theorem guarded_of_kept {I P Lost : S → Prop} {guard fit : S → L → Prop}
    (hkeep : ∀ s l, I s → guard s l → I (step s l))
    (hlose : ∀ s l, I s → fit s l → ¬ guard s l → Lost (step s l))
    (hlost : ∀ s l, Lost s → Lost (step s l)) (hnot : ∀ s, Lost s → ¬ P s) {s : S} (h : I s)
    {ls : List L} (hfit : Guarded step fit s ls) (hP : P (run step s ls)) :
    Guarded step guard s ls := by
  induction ls generalizing s with
  | nil => trivial
  | cons l ls ih =>
    by_cases hg : guard s l
    · exact ⟨hg, ih (hkeep s l h hg) hfit.2 hP⟩
    · exact absurd hP (hnot _ (run_invariant hlost (hlose s l h hfit.1 hg) ls))

theorem run_iff_guarded {I P Lost : S → Prop} {guard : S → L → Prop}
    (hkeep : ∀ s l, I s → guard s l → I (step s l))
    (hlose : ∀ s l, I s → ¬ guard s l → Lost (step s l))
    (hlost : ∀ s l, Lost s → Lost (step s l)) (hI : ∀ s, I s → P s) (hnot : ∀ s, Lost s → ¬ P s)
    {s : S} (h : I s) (ls : List L) : P (run step s ls) ↔ Guarded step guard s ls :=
  run_iff_guarded_of (K := fun _ => True) (fun s l _ => hkeep s l) (fun s l _ => hlose s l)
    (fun s l _ => hlost s l) hI hnot h ls (fun _ _ => trivial)

/-! ### Steps that may fail -/

/-- The first `count` steps of a step function that may fail. -/
def tryRun (step : L → S → Option S) : (count : ℕ) → (ℕ → L) → S → Option S
  | 0, _, s => some s
  | count + 1, ls, s => do
    let s ← step (ls 0) s
    tryRun step count (fun i => ls (i + 1)) s

section
variable {step : L → S → Option S}

theorem tryRun_succ {s s₁ : S} {ls : ℕ → L} (h : step (ls 0) s = some s₁) (count : ℕ) :
    tryRun step (count + 1) ls s = tryRun step count (fun i => ls (i + 1)) s₁ := by
  rw [tryRun, h]
  rfl

theorem tryRun_stable {s : S} (h : ∀ l, step l s = some s) (count : ℕ) (ls : ℕ → L) :
    tryRun step count ls s = some s := by
  induction count generalizing ls with
  | zero => rfl
  | succ count ih =>
    rw [tryRun_succ (h (ls 0))]
    exact ih _

/-- If a predicate keeps the steps from failing and they keep it, no run fails. -/
theorem tryRun_invariant {I : S → Prop} (hstep : ∀ l s, I s → ∃ s', step l s = some s' ∧ I s')
    {s : S} (h : I s) (count : ℕ) (ls : ℕ → L) :
    ∃ s', tryRun step count ls s = some s' ∧ I s' := by
  induction count generalizing s ls with
  | zero => exact ⟨s, rfl, h⟩
  | succ count ih =>
    rcases hstep (ls 0) s h with ⟨s₁, hs₁, h₁⟩
    rw [tryRun_succ hs₁]
    exact ih h₁ _

end

end Aquila.Library
