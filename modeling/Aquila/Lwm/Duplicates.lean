import Aquila.Library.Run
import Aquila.Library.Window
import Aquila.Library.SlotTable
import Aquila.Lwm.Frame

/-! # Rejection of duplicates

For up to ten sources `nwkRx.c` remembers which of the last eight sequence numbers it has
seen. An entry is renewed when its window moves and dies after eleven ticks of the timer.
-/

namespace Aquila.Lwm
open Library

/-- `DUPLICATE_REJECTION_TTL`, in ticks. -/
def duplicateRejectionTtl : ℕ := 1000 / 100 + 1

/-- `NwkDuplicateRejectionEntry_t` -/
structure DuplicateEntry where
  src : Word
  seq : Byte
  mask : Byte
  ttl : ℕ
  deriving DecidableEq

/-- An index into the `NWK_DUPLICATE_REJECTION_TABLE_SIZE` entries. -/
abbrev DuplicateSlot := Fin 10

/-- `nwkRxDuplicateRejectionTable`, and whether its timer has been started. -/
structure Duplicates where
  table : DuplicateSlot → DuplicateEntry
  timer : Bool

/-- The ways in which `nwkRxRejectDuplicate` ends. It returns false only for a fresh frame. -/
inductive Verdict where
  | fresh
  | seen
  | full
  deriving DecidableEq

namespace Duplicates

/-- The table as `nwkRxInit` leaves it. -/
def init : Duplicates where
  table _ := { src := 0, seq := 0, mask := 0, ttl := 0 }
  timer := false

/-- The entry at which the loop of `nwkRxRejectDuplicate` stops. -/
def find (d : Duplicates) (src : Word) : Option DuplicateSlot :=
  (List.finRange 10).find? fun i => (d.table i).ttl != 0 && (d.table i).src == src

/-- The last free entry, which the loop is left with otherwise. -/
def freeEntry (d : Duplicates) : Option DuplicateSlot :=
  (List.finRange 10).reverse.find? fun i => (d.table i).ttl == 0

def write (d : Duplicates) (i : DuplicateSlot) (e : DuplicateEntry) : Duplicates :=
  { d with table := Function.update d.table i e }

/-- `mask << shift`, cut down to a byte. C defines it for counts below sixteen; the loop of the AVR
counts down in a signed byte, so that a count above 128 shifts nothing. -/
def shiftMask (mask : Byte) (shift : ℕ) : Byte := if shift ≤ 128 then mask <<< shift else mask

/-- `nwkRxRejectDuplicate` -/
def reject (d : Duplicates) (src : Word) (nwkSeq : Byte) : Verdict × Duplicates :=
  match d.find src with
  | some i =>
    let entry := d.table i
    let diff := entry.seq - nwkSeq
    if diff.toNat < 8 then
      if entry.mask.getLsbD diff.toNat then (.seen, d)
      else (.fresh, d.write i { entry with mask := entry.mask ||| (1#8 <<< diff.toNat) })
    else
      let shift := -diff
      (.fresh, d.write i { entry with
        seq := nwkSeq
        mask := shiftMask entry.mask shift.toNat ||| 1#8
        ttl := duplicateRejectionTtl })
  | none =>
    match d.freeEntry with
    | none => (.full, d)
    | some i =>
      (.fresh, { d.write i { src := src, seq := nwkSeq, mask := 1, ttl := duplicateRejectionTtl }
        with timer := true })

/-- `nwkRxDuplicateRejectionTimerHandler`; the timer runs once unless it is started again. -/
def tick (d : Duplicates) : Duplicates where
  table i := { d.table i with ttl := (d.table i).ttl - 1 }
  timer := (List.finRange 10).any fun i => (d.table i).ttl != 0

/-- What happens to the table: a frame, or the timer when it has been started. -/
inductive Event where
  | frame (src : Word) (seq : Byte)
  | tick
  deriving DecidableEq

def step (d : Duplicates) : Event → Duplicates
  | .frame src seq => (d.reject src seq).2
  | .tick => if d.timer then d.tick else d

def accepted (src : Word) (d : Duplicates) : List Event → List Byte
  | [] => []
  | .frame src' seq :: events =>
    if src' = src ∧ (d.reject src' seq).1 = .fresh then
      seq :: accepted src (d.step (.frame src' seq)) events
    else accepted src (d.step (.frame src' seq)) events
  | .tick :: events => accepted src (d.step .tick) events

end Duplicates

def DuplicateEntry.window (e : DuplicateEntry) : Window 8 8 := ⟨e.seq, e.mask⟩

namespace Duplicates

/-- No two live entries have the same source, and the timer runs while there is a live one. -/
structure Sound (d : Duplicates) : Prop where
  ttl : ∀ i, (d.table i).ttl ≤ duplicateRejectionTtl
  unique : ∀ i j, (d.table i).ttl ≠ 0 → (d.table j).ttl ≠ 0 → (d.table i).src = (d.table j).src →
    i = j
  timer : ∀ i, (d.table i).ttl ≠ 0 → d.timer = true

theorem init_sound : init.Sound where
  ttl _ := Nat.zero_le _
  unique _ _ h := absurd rfl h
  timer _ h := absurd rfl h

theorem find_some {d : Duplicates} {src : Word} {i : DuplicateSlot} (h : d.find src = some i) :
    (d.table i).ttl ≠ 0 ∧ (d.table i).src = src := by
  have hi := List.find?_some h
  rw [Bool.and_eq_true, bne_iff_ne, beq_iff_eq] at hi
  exact hi

theorem find_none {d : Duplicates} {src : Word} (h : d.find src = none) (i : DuplicateSlot)
    (hi : (d.table i).ttl ≠ 0) : (d.table i).src ≠ src := by
  intro hsrc
  have hnone := List.find?_eq_none.mp h i (List.mem_finRange i)
  rw [Bool.and_eq_true, bne_iff_ne, beq_iff_eq] at hnone
  exact hnone ⟨hi, hsrc⟩

/-- A number is covered by a window, or moves it by less than the sixteen bits of an `int`. -/
def Near (top seq : Byte) : Prop := behind top seq < 8 ∨ behind seq top < 16

instance decidableNear (top seq : Byte) : Decidable (Near top seq) :=
  inferInstanceAs (Decidable (_ ∨ _))

def renewed (w : Window 8 8) (seq : Byte) (ttl : ℕ) : ℕ :=
  if behind w.top seq < 8 then ttl else duplicateRejectionTtl

/-- What `nwkRxRejectDuplicate` does: the window of the source takes the number or knows it, or a
free entry is given to the source, or there is none. The entry is the window's after a number that
is near. -/
theorem reject_cases (d : Duplicates) (src : Word) (seq : Byte) :
    (∃ i, (d.table i).ttl ≠ 0 ∧ (d.table i).src = src ∧
      (((d.table i).window.Remembers seq ∧ d.reject src seq = (.seen, d)) ∨
        ∃ w, (Near (d.table i).seq seq → (d.table i).window.arrive seq = some w) ∧
          d.reject src seq = (.fresh, d.write i
            { src := src, seq := w.top, mask := w.mask,
              ttl := renewed (d.table i).window seq (d.table i).ttl }))) ∨
    (∀ i, (d.table i).ttl ≠ 0 → (d.table i).src ≠ src) ∧
      (((∀ i, (d.table i).ttl ≠ 0) ∧ d.reject src seq = (.full, d)) ∨
        ∃ i, (d.table i).ttl = 0 ∧ d.reject src seq =
          (.fresh, { d.write i { src := src, seq := seq, mask := 1, ttl := duplicateRejectionTtl }
            with timer := true })) := by
  cases hfind : d.find src with
  | some i =>
    rcases find_some hfind with ⟨hlive, rfl⟩
    refine .inl ⟨i, hlive, rfl, ?_⟩
    rw [reject, hfind]
    dsimp only
    by_cases hnear : ((d.table i).seq - seq).toNat < 8
    · rw [if_pos hnear]
      by_cases hseen : (d.table i).mask.getLsbD ((d.table i).seq - seq).toNat = true
      · exact .inl ⟨hseen, if_pos hseen⟩
      · have harrive : (d.table i).window.arrive seq = some ⟨(d.table i).seq,
            (d.table i).mask ||| (1#8 <<< ((d.table i).seq - seq).toNat)⟩ := by
          rw [Window.arrive, behind, DuplicateEntry.window, if_pos hnear, if_neg hseen]
        refine .inr ⟨_, fun _ => harrive, ?_⟩
        rw [if_neg hseen, renewed, behind, DuplicateEntry.window, if_pos hnear]
    · have harrive (hmoved : Near (d.table i).seq seq) : (d.table i).window.arrive seq =
          some ⟨seq, shiftMask (d.table i).mask (-((d.table i).seq - seq)).toNat ||| 1#8⟩ := by
        have hshift : (seq - (d.table i).seq).toNat < 16 := hmoved.resolve_left hnear
        rw [Window.arrive, behind, behind, DuplicateEntry.window, if_neg hnear, neg_sub, shiftMask,
          if_pos (by omega)]
      refine .inr ⟨_, harrive, ?_⟩
      rw [if_neg hnear, renewed, behind, DuplicateEntry.window, if_neg hnear]
  | none =>
    refine .inr ⟨find_none hfind, ?_⟩
    rw [reject, hfind]
    dsimp only
    cases hfree : d.freeEntry with
    | none =>
      refine .inl ⟨?_, rfl⟩
      intro i
      have hi := List.find?_eq_none.mp hfree i (by simp)
      simpa using hi
    | some i =>
      have hi := List.find?_some hfree
      rw [beq_iff_eq] at hi
      exact .inr ⟨i, hi, rfl⟩

/-- The window of a source, with the ticks left to it. -/
def entryOf (d : Duplicates) (src : Word) : Option (Window 8 8 × ℕ) :=
  (d.find src).map fun i => ((d.table i).window, (d.table i).ttl)

theorem Sound.entryOf_eq {d : Duplicates} (h : d.Sound) {src : Word} {i : DuplicateSlot}
    (hlive : (d.table i).ttl ≠ 0) (hsrc : (d.table i).src = src) :
    d.entryOf src = some ((d.table i).window, (d.table i).ttl) := by
  cases hfind : d.find src with
  | none => exact absurd hsrc (find_none hfind i hlive)
  | some j =>
    rcases find_some hfind with ⟨hj, hjsrc⟩
    rw [entryOf, hfind, h.unique i j hlive hj (hsrc.trans hjsrc.symm)]
    rfl

theorem entryOf_none {d : Duplicates} {src : Word}
    (h : ∀ i, (d.table i).ttl ≠ 0 → (d.table i).src ≠ src) : d.entryOf src = none := by
  cases hfind : d.find src with
  | none => rw [entryOf, hfind]; rfl
  | some i =>
    rcases find_some hfind with ⟨hlive, hsrc⟩
    exact absurd hsrc (h i hlive)

theorem Sound.write {d d' : Duplicates} (h : d.Sound) {i : DuplicateSlot} {e : DuplicateEntry}
    (htable : d'.table = Function.update d.table i e) (htimer : d'.timer = true)
    (hsrc : ∀ j, j ≠ i → (d.table j).ttl ≠ 0 → (d.table j).src ≠ e.src)
    (httl : e.ttl ≤ duplicateRejectionTtl) : d'.Sound where
  ttl j := by
    rw [htable, Function.update_apply]
    split
    case isTrue => exact httl
    case isFalse => exact h.ttl j
  unique j k := by
    simp only [htable, Function.update_apply]
    split <;> split
    case isTrue.isTrue hj hk => exact fun _ _ _ => hj.trans hk.symm
    case isTrue.isFalse hj hk => exact fun _ hlive heq => absurd heq.symm (hsrc k hk hlive)
    case isFalse.isTrue hj hk => exact fun hlive _ heq => absurd heq (hsrc j hj hlive)
    case isFalse.isFalse => exact h.unique j k
  timer _ _ := htimer

/-- A live entry that is written gives its source a window and changes no other source's. -/
theorem Sound.entryOf_write {d d' : Duplicates} (h : d.Sound) (h' : d'.Sound) {i : DuplicateSlot}
    {e : DuplicateEntry} (htable : d'.table = Function.update d.table i e)
    (hi : (d.table i).ttl = 0 ∨ (d.table i).src = e.src) (he : e.ttl ≠ 0) (src : Word) :
    d'.entryOf src = if e.src = src then some (e.window, e.ttl) else d.entryOf src := by
  have hself : d'.table i = e := by rw [htable, Function.update_self]
  have hother {j : DuplicateSlot} (hj : j ≠ i) : d'.table j = d.table j := by
    rw [htable, Function.update_of_ne hj]
  split
  case isTrue hsrc =>
    rw [h'.entryOf_eq (i := i) (by rwa [hself]) (by rwa [hself]), hself]
  case isFalse hsrc =>
    by_cases hsome : ∃ j, (d.table j).ttl ≠ 0 ∧ (d.table j).src = src
    · rcases hsome with ⟨j, hlive, hj⟩
      have hji : j ≠ i := by
        rintro rfl
        rcases hi with hfree | hsame
        · exact hlive hfree
        · exact hsrc (hsame.symm.trans hj)
      rw [h'.entryOf_eq (i := j) (by rwa [hother hji]) (by rwa [hother hji]), hother hji,
        h.entryOf_eq hlive hj]
    · simp only [not_exists, not_and] at hsome
      rw [entryOf_none hsome]
      apply entryOf_none
      intro j
      by_cases hji : j = i
      · subst hji
        rw [hself]
        exact fun _ => hsrc
      · rw [hother hji]
        exact hsome j

theorem renewed_bounds (w : Window 8 8) (seq : Byte) {ttl : ℕ} (hpos : ttl ≠ 0)
    (hle : ttl ≤ duplicateRejectionTtl) :
    renewed w seq ttl ≠ 0 ∧ ttl ≤ renewed w seq ttl ∧
      renewed w seq ttl ≤ duplicateRejectionTtl := by
  rw [renewed]
  split
  case isTrue => exact ⟨hpos, Nat.le_refl _, hle⟩
  case isFalse => exact ⟨by decide, hle, Nat.le_refl _⟩

theorem Sound.reject {d : Duplicates} (h : d.Sound) (src : Word) (seq : Byte) :
    Sound (d.reject src seq).2 := by
  rcases d.reject_cases src seq with ⟨i, hlive, hsrc, ⟨_, heq⟩ | ⟨w, _, heq⟩⟩ |
    ⟨hnone, ⟨_, heq⟩ | ⟨i, hi, heq⟩⟩
  · rw [heq]
    exact h
  · rw [heq]
    have hother (j : DuplicateSlot) (hj : j ≠ i) (hjlive : (d.table j).ttl ≠ 0) :
        (d.table j).src ≠ src :=
      fun heq => hj (h.unique j i hjlive hlive (heq.trans hsrc.symm))
    exact h.write rfl (h.timer i hlive) hother (renewed_bounds _ seq hlive (h.ttl i)).2.2
  · rw [heq]
    exact h
  · rw [heq]
    exact h.write rfl rfl (fun j _ hjlive => hnone j hjlive) (Nat.le_refl _)

theorem Sound.tick {d : Duplicates} (h : d.Sound) : Sound d.tick where
  ttl i := (Nat.sub_le _ _).trans (h.ttl i)
  unique i j hi hj := by
    apply h.unique i j
    · exact fun hzero => hi (by simp [Duplicates.tick, hzero])
    · exact fun hzero => hj (by simp [Duplicates.tick, hzero])
  timer i hi := by
    apply List.any_eq_true.mpr
    refine ⟨i, List.mem_finRange i, ?_⟩
    rw [bne_iff_ne]
    exact fun hzero => hi (by simp [Duplicates.tick, hzero])

theorem Sound.step {d : Duplicates} (h : d.Sound) (e : Event) : Sound (d.step e) := by
  cases e with
  | frame src seq => exact h.reject src seq
  | tick =>
    rw [Duplicates.step]
    split
    case isTrue => exact h.tick
    case isFalse => exact h

theorem run_sound (events : List Event) : Sound (run step init events) :=
  run_invariant (fun _ e h => h.step e) init_sound events

/-! ### The table as a map of windows -/

theorem Sound.entryOf_some {d : Duplicates} (h : d.Sound) {src : Word} {w : Window 8 8} {n : ℕ}
    (hentry : d.entryOf src = some (w, n)) : n ≠ 0 ∧ n ≤ duplicateRejectionTtl := by
  rcases Option.map_eq_some_iff.mp hentry with ⟨i, hfind, heq⟩
  rw [Prod.mk.injEq] at heq
  rw [← heq.2]
  exact ⟨(find_some hfind).1, h.ttl i⟩

theorem Sound.le_renewed {d : Duplicates} (h : d.Sound) {src : Word} {w : Window 8 8} {n : ℕ}
    (hentry : d.entryOf src = some (w, n)) (seq : Byte) : n ≤ renewed w seq n :=
  have hbounds := h.entryOf_some hentry
  (renewed_bounds w seq hbounds.1 hbounds.2).2.1

theorem Sound.entryOf_other {d : Duplicates} (h : d.Sound) {src src' : Word} (hne : src' ≠ src)
    (seq : Byte) : entryOf (d.step (.frame src' seq)) src = d.entryOf src := by
  have hsound := h.reject src' seq
  rw [Duplicates.step]
  rcases d.reject_cases src' seq with ⟨i, hlive, hsrc, ⟨_, heq⟩ | ⟨w, _, heq⟩⟩ |
    ⟨hnone, ⟨_, heq⟩ | ⟨i, hi, heq⟩⟩
  · rw [heq]
  · rw [heq] at hsound ⊢
    have hpos := (renewed_bounds (d.table i).window seq hlive (h.ttl i)).1
    exact (h.entryOf_write hsound rfl (.inr hsrc) hpos src).trans (if_neg hne)
  · rw [heq]
  · rw [heq] at hsound ⊢
    have hpos : duplicateRejectionTtl ≠ 0 := by decide
    exact (h.entryOf_write hsound rfl (.inl hi) hpos src).trans (if_neg hne)

theorem Sound.frame_known {d : Duplicates} (h : d.Sound) {src : Word} {w : Window 8 8} {n : ℕ}
    (hentry : d.entryOf src = some (w, n)) {seq : Byte} (hnear : Near w.top seq) :
    (w.Remembers seq ∧ d.reject src seq = (.seen, d)) ∨
      ∃ w', w.arrive seq = some w' ∧ (d.reject src seq).1 = .fresh ∧
        entryOf (d.step (.frame src seq)) src = some (w', renewed w seq n) := by
  have hsound := h.reject src seq
  rw [Duplicates.step]
  rcases d.reject_cases src seq with ⟨i, hlive, hsrc, hknown⟩ | ⟨hnone, _⟩
  · rw [h.entryOf_eq hlive hsrc, Option.some_inj, Prod.mk.injEq] at hentry
    rcases hentry with ⟨rfl, rfl⟩
    rcases hknown with hseen | ⟨w', hw', heq⟩
    · exact .inl hseen
    · rw [heq] at hsound ⊢
      have hpos := (renewed_bounds (d.table i).window seq hlive (h.ttl i)).1
      refine .inr ⟨w', hw' hnear, rfl, ?_⟩
      exact (h.entryOf_write hsound rfl (.inr hsrc) hpos src).trans (if_pos rfl)
  · rw [entryOf_none hnone] at hentry
    cases hentry

theorem Sound.frame_unknown {d : Duplicates} (h : d.Sound) {src : Word}
    (hentry : d.entryOf src = none) (seq : Byte) :
    ((∀ i, (d.table i).ttl ≠ 0) ∧ d.reject src seq = (.full, d)) ∨
      (d.reject src seq).1 = .fresh ∧
        entryOf (d.step (.frame src seq)) src =
          some (Window.single seq, duplicateRejectionTtl) := by
  have hsound := h.reject src seq
  rw [Duplicates.step]
  rcases d.reject_cases src seq with ⟨i, hlive, hsrc, _⟩ | ⟨_, hfull | ⟨i, hi, heq⟩⟩
  · rw [h.entryOf_eq hlive hsrc] at hentry
    cases hentry
  · exact .inl hfull
  · rw [heq] at hsound ⊢
    have hpos : duplicateRejectionTtl ≠ 0 := by decide
    exact .inr ⟨rfl, (h.entryOf_write hsound rfl (.inl hi) hpos src).trans (if_pos rfl)⟩

/-- A tick takes one from every window's time. -/
theorem Sound.entryOf_tick {d : Duplicates} (h : d.Sound) (src : Word) :
    entryOf (d.step .tick) src =
      (d.entryOf src).bind fun e => if e.2 = 1 then none else some (e.1, e.2 - 1) := by
  by_cases hsome : ∃ i, (d.table i).ttl ≠ 0 ∧ (d.table i).src = src
  · rcases hsome with ⟨i, hlive, hsrc⟩
    rw [Duplicates.step, if_pos (h.timer i hlive), h.entryOf_eq hlive hsrc, Option.bind_some]
    split
    case isTrue hone =>
      apply entryOf_none
      intro j hj hjsrc
      have hjlive : (d.table j).ttl ≠ 0 := fun hzero => hj (by simp [Duplicates.tick, hzero])
      have hji := h.unique j i hjlive hlive (hjsrc.trans hsrc.symm)
      subst hji
      exact hj (by simp only [Duplicates.tick]; omega)
    case isFalse hmore =>
      apply h.tick.entryOf_eq (i := i)
      · simp only [Duplicates.tick]
        omega
      · exact hsrc
  · simp only [not_exists, not_and] at hsome
    rw [entryOf_none hsome, Duplicates.step]
    split
    case isTrue =>
      apply entryOf_none
      intro j hj
      exact hsome j (fun hzero => hj (by simp [Duplicates.tick, hzero]))
    case isFalse => exact entryOf_none hsome

/-- The windows of all sources, were there room for every one. -/
abbrev WindowMap := Word → Option (Window 8 8 × ℕ)

/-- A frame on such a map: whether it is fresh, and the map after it. -/
def mapFrame (m : WindowMap) (src : Word) (seq : Byte) : Bool × WindowMap :=
  match m src with
  | none => (true, Function.update m src (some (Window.single seq, duplicateRejectionTtl)))
  | some (w, n) =>
    match w.arrive seq with
    | none => (false, m)
    | some w' => (true, Function.update m src (some (w', renewed w seq n)))

def mapTick (m : WindowMap) : WindowMap := fun src =>
  (m src).bind fun e => if e.2 = 1 then none else some (e.1, e.2 - 1)

/-- Which frames of a run are let through, by the table and by the map. -/
def verdicts (d : Duplicates) : List Event → List Bool
  | [] => []
  | .frame src seq :: events =>
    decide ((d.reject src seq).1 = .fresh) :: verdicts (d.step (.frame src seq)) events
  | .tick :: events => verdicts (d.step .tick) events

def mapVerdicts (m : WindowMap) : List Event → List Bool
  | [] => []
  | .frame src seq :: events => (mapFrame m src seq).1 :: mapVerdicts (mapFrame m src seq).2 events
  | .tick :: events => mapVerdicts (mapTick m) events

def sources (events : List Event) : List Word :=
  events.filterMap fun e =>
    match e with
    | .frame src _ => some src
    | .tick => none

/-- The sources of live entries were heard. -/
def Heard (heard : List Word) (d : Duplicates) : Prop :=
  d.Sound ∧ ∀ i, (d.table i).ttl ≠ 0 → (d.table i).src ∈ heard

theorem Heard.reject {heard : List Word} {d : Duplicates} (h : Heard heard d) {src : Word}
    (hsrc : src ∈ heard) (seq : Byte) : Heard heard (d.reject src seq).2 := by
  rcases h with ⟨hsound, hheard⟩
  have hwrite {i : DuplicateSlot} {e : DuplicateEntry} (he : e.src ∈ heard) (j : DuplicateSlot)
      (hj : ((d.write i e).table j).ttl ≠ 0) : ((d.write i e).table j).src ∈ heard := by
    simp only [write, Function.update_apply] at hj ⊢
    split at hj
    case isTrue hji =>
      rw [if_pos hji]
      exact he
    case isFalse hji =>
      rw [if_neg hji]
      exact hheard j hj
  refine ⟨hsound.reject src seq, ?_⟩
  rcases d.reject_cases src seq with ⟨i, _, _, ⟨_, heq⟩ | ⟨w, _, heq⟩⟩ |
    ⟨_, ⟨_, heq⟩ | ⟨i, _, heq⟩⟩
  · rw [heq]
    exact hheard
  · rw [heq]
    exact hwrite hsrc
  · rw [heq]
    exact hheard
  · rw [heq]
    exact hwrite hsrc

theorem Heard.tick {heard : List Word} {d : Duplicates} (h : Heard heard d) :
    Heard heard (d.step .tick) := by
  refine ⟨h.1.step .tick, ?_⟩
  rw [step]
  split
  case isTrue =>
    intro i hi
    exact h.2 i (fun hzero => hi (by simp [Duplicates.tick, hzero]))
  case isFalse => exact h.2

/-- No mask is shifted further than C defines. -/
def Defined (d : Duplicates) : Event → Prop
  | .frame src seq => ∀ e ∈ d.entryOf src, Near e.1.top seq
  | .tick => True

instance decidableDefined (d : Duplicates) : ∀ e, Decidable (Defined d e)
  | .frame src seq => inferInstanceAs (Decidable (∀ e ∈ d.entryOf src, Near e.1.top seq))
  | .tick => isTrue trivial

/-- With room for all sources, the table treats a frame as the map does. -/
theorem Heard.frame {heard : List Word} {d : Duplicates} (h : Heard heard d)
    (hroom : heard.dedup.length ≤ 10) {src : Word} (hsrc : src ∈ heard) {seq : Byte}
    (hdefined : d.Defined (.frame src seq)) :
    decide ((d.reject src seq).1 = .fresh) = (mapFrame d.entryOf src seq).1 ∧
      entryOf (d.step (.frame src seq)) = (mapFrame d.entryOf src seq).2 := by
  have hother {e : Option (Window 8 8 × ℕ)} (hafter : entryOf (d.step (.frame src seq)) src = e) :
      entryOf (d.step (.frame src seq)) = Function.update d.entryOf src e := by
    ext1 src'
    by_cases hne : src' = src
    · rw [hne, hafter, Function.update_self]
    · rw [h.1.entryOf_other (Ne.symm hne), Function.update_of_ne hne]
  cases hentry : d.entryOf src with
  | none =>
    rcases h.1.frame_unknown hentry seq with ⟨hfull, _⟩ | ⟨hfresh, hafter⟩
    · have hnone (i : DuplicateSlot) (hi : (d.table i).ttl ≠ 0) : (d.table i).src ≠ src := by
        intro hsame
        rw [h.1.entryOf_eq hi hsame] at hentry
        cases hentry
      rcases SlotTable.exists_unused h.1.unique h.2 hroom hsrc hnone with ⟨i, hi⟩
      exact absurd (hfull i) hi
    · rw [mapFrame, hentry, hfresh]
      exact ⟨rfl, hother hafter⟩
  | some entry =>
    rcases entry with ⟨w, n⟩
    rw [mapFrame, hentry]
    dsimp only
    rcases h.1.frame_known hentry (hdefined _ hentry) with ⟨hseen, heq⟩ | ⟨w', hw', hfresh, hafter⟩
    · rw [Window.arrive_none.mpr hseen, Duplicates.step, heq]
      exact ⟨rfl, rfl⟩
    · rw [hw', hfresh]
      exact ⟨rfl, hother hafter⟩

theorem Heard.verdicts {heard : List Word} (hroom : heard.dedup.length ≤ 10) {d : Duplicates}
    (h : Heard heard d) {events : List Event} (hevents : sources events ⊆ heard)
    (hdefined : Guarded step Defined d events) :
    d.verdicts events = mapVerdicts d.entryOf events := by
  induction events generalizing d with
  | nil => rfl
  | cons e events ih =>
    cases e with
    | frame src seq =>
      have hsrc : src ∈ heard := hevents List.mem_cons_self
      have hrest : sources events ⊆ heard := fun x hx => hevents (List.mem_cons_of_mem src hx)
      rcases h.frame hroom hsrc hdefined.1 with ⟨hverdict, hmap⟩
      have hstep : Heard heard (d.step (.frame src seq)) := h.reject hsrc seq
      rw [Duplicates.verdicts, mapVerdicts, hverdict, ih hstep hrest hdefined.2, hmap]
    | tick =>
      have hmap : entryOf (d.step .tick) = mapTick d.entryOf := by
        ext1 src
        exact h.1.entryOf_tick src
      rw [Duplicates.verdicts, mapVerdicts, ih h.tick hevents hdefined.2, hmap]

/-- As long as no more sources have been heard than the table has entries, the frames it lets
through are those that windows without bounds on their number would. -/
theorem run_verdicts (events : List Event) (hroom : (sources events).dedup.length ≤ 10)
    (hdefined : Guarded step Defined init events) :
    verdicts init events = mapVerdicts (fun _ => none) events := by
  have hinit : Heard (sources events) init := ⟨init_sound, fun _ hi => absurd rfl hi⟩
  have hempty : entryOf init = fun _ => none := by
    ext1 src
    exact entryOf_none (fun _ hi => absurd rfl hi)
  rw [hinit.verdicts hroom (List.Subset.refl _) hdefined, hempty]

/-- Frames of one source; the third repeats the first. -/
def exampleEvents : List Event := [.frame 7 250, .frame 7 0, .frame 7 250, .tick, .frame 7 249]

theorem exampleEvents_verdicts :
    verdicts init exampleEvents = mapVerdicts (fun _ => none) exampleEvents :=
  run_verdicts exampleEvents (by decide) (by decide)

/-! ### What a run lets through -/

def ticks (events : List Event) : ℕ := events.countP (· = .tick)

/-- All frames of the source are among the eight numbers from `x` on. -/
def Span (src : Word) (x : Byte) (events : List Event) : Prop :=
  ∀ seq, Event.frame src seq ∈ events → behind seq x < 8

theorem Span.tail {src : Word} {x : Byte} {e : Event} {events : List Event}
    (h : Span src x (e :: events)) : Span src x events :=
  fun seq hseq => h seq (List.mem_cons_of_mem e hseq)

theorem accepted_fresh {d : Duplicates} {src : Word} {seq : Byte}
    (h : (d.reject src seq).1 = .fresh) (events : List Event) :
    accepted src d (.frame src seq :: events) =
      seq :: accepted src (d.step (.frame src seq)) events := by
  rw [accepted, if_pos ⟨rfl, h⟩]

theorem accepted_dropped {d : Duplicates} {src : Word} {seq : Byte}
    (h : (d.reject src seq).1 ≠ .fresh) (events : List Event) :
    accepted src d (.frame src seq :: events) =
      accepted src (d.step (.frame src seq)) events := by
  rw [accepted, if_neg (fun hboth => h hboth.2)]

theorem accepted_other {src src' : Word} (h : src' ≠ src) (d : Duplicates) (seq : Byte)
    (events : List Event) : accepted src d (.frame src' seq :: events) =
      accepted src (d.step (.frame src' seq)) events := by
  rw [accepted, if_neg (fun hboth => h hboth.1)]

theorem near_of_span {x top seq : Byte} (htop : behind top x < 8) (hseq : behind seq x < 8) :
    Near top seq := by
  rcases Nat.le_total (behind seq x) (behind top x) with hle | hle
  · left
    rw [behind_of_le hle]
    omega
  · right
    rw [behind_of_le hle]
    omega

theorem accepted_remembered {d : Duplicates} (h : d.Sound) {src : Word} {x z : Byte}
    {w : Window 8 8} {n : ℕ} (hentry : d.entryOf src = some (w, n)) (htop : behind w.top x < 8)
    (hz : behind z x < 8) (hseen : w.Remembers z) {events : List Event}
    (hspan : Span src x events) (hticks : ticks events < n) : z ∉ accepted src d events := by
  induction events generalizing d w n with
  | nil => simp [accepted]
  | cons e events ih =>
    have hrest := hspan.tail
    cases e with
    | tick =>
      have hcount : ticks events + 1 = ticks (.tick :: events) := by simp [ticks]
      rw [accepted]
      have hafter := h.entryOf_tick src
      rw [hentry, Option.bind_some, if_neg (by omega)] at hafter
      exact ih (h.step .tick) hafter htop hseen hrest (by omega)
    | frame src' seq =>
      have hcount : ticks (.frame src' seq :: events) = ticks events := by simp [ticks]
      rw [hcount] at hticks
      have hstep := h.step (.frame src' seq)
      by_cases hsrc : src' = src
      · subst hsrc
        have hseq := hspan seq List.mem_cons_self
        rcases h.frame_known hentry (near_of_span htop hseq) with
          ⟨_, heq⟩ | ⟨w', hw', hfresh, hafter⟩
        · have hsame : d.step (.frame src' seq) = d := by rw [Duplicates.step, heq]
          rw [accepted_dropped (by rw [heq]; simp), hsame]
          exact ih h hentry htop hseen hrest hticks
        · have hle := h.le_renewed hentry seq
          have hne : z ≠ seq := by
            rintro rfl
            have hnone := Window.arrive_none.mpr hseen
            rw [hw'] at hnone
            cases hnone
          have hseen' := hseen.arrive_span (by decide) (by decide) hz hseq htop hw'
          have htop' := Window.top_arrive_span hseq htop hw'
          rw [accepted_fresh hfresh, List.mem_cons, not_or]
          exact ⟨hne, ih hstep hafter htop' hseen' hrest (by omega)⟩
      · rw [accepted_other hsrc]
        have hafter := h.entryOf_other hsrc seq
        rw [hentry] at hafter
        exact ih hstep hafter htop hseen hrest hticks

/-- What is let through of a source whose window lies in the span. -/
theorem nodup_accepted_known {d : Duplicates} (h : d.Sound) {src : Word} {x : Byte}
    {w : Window 8 8} {n : ℕ} (hentry : d.entryOf src = some (w, n)) (htop : behind w.top x < 8)
    {events : List Event} (hspan : Span src x events) (hticks : ticks events < n) :
    (accepted src d events).Nodup := by
  induction events generalizing d w n with
  | nil => exact List.nodup_nil
  | cons e events ih =>
    have hrest := hspan.tail
    cases e with
    | tick =>
      have hcount : ticks events + 1 = ticks (.tick :: events) := by simp [ticks]
      have hafter := h.entryOf_tick src
      rw [hentry, Option.bind_some, if_neg (by omega)] at hafter
      exact ih (h.step .tick) hafter htop hrest (by omega)
    | frame src' seq =>
      have hcount : ticks (.frame src' seq :: events) = ticks events := by simp [ticks]
      rw [hcount] at hticks
      have hstep := h.step (.frame src' seq)
      by_cases hsrc : src' = src
      · subst hsrc
        have hseq := hspan seq List.mem_cons_self
        rcases h.frame_known hentry (near_of_span htop hseq) with
          ⟨_, heq⟩ | ⟨w', hw', hfresh, hafter⟩
        · have hsame : d.step (.frame src' seq) = d := by rw [Duplicates.step, heq]
          rw [accepted_dropped (by rw [heq]; simp), hsame]
          exact ih h hentry htop hrest hticks
        · have hle := h.le_renewed hentry seq
          have htop' := Window.top_arrive_span hseq htop hw'
          have hseen' := (Window.remembers_arrive (by decide) hw' seq).mpr (.inl rfl)
          rw [accepted_fresh hfresh, List.nodup_cons]
          constructor
          · exact accepted_remembered hstep hafter htop' hseq hseen' hrest (by omega)
          · exact ih hstep hafter htop' hrest (by omega)
      · rw [accepted_other hsrc]
        have hafter := h.entryOf_other hsrc seq
        rw [hentry] at hafter
        exact ih hstep hafter htop hrest hticks

/-- What is let through of a source without a window. -/
theorem nodup_accepted_unknown {d : Duplicates} (h : d.Sound) {src : Word} {x : Byte}
    (hentry : d.entryOf src = none) {events : List Event} (hspan : Span src x events)
    (hticks : ticks events < duplicateRejectionTtl) : (accepted src d events).Nodup := by
  induction events generalizing d with
  | nil => exact List.nodup_nil
  | cons e events ih =>
    have hrest := hspan.tail
    cases e with
    | tick =>
      have hcount : ticks events + 1 = ticks (.tick :: events) := by simp [ticks]
      have hafter := h.entryOf_tick src
      rw [hentry, Option.bind_none] at hafter
      exact ih (h.step .tick) hafter hrest (by omega)
    | frame src' seq =>
      have hcount : ticks (.frame src' seq :: events) = ticks events := by simp [ticks]
      rw [hcount] at hticks
      have hstep := h.step (.frame src' seq)
      by_cases hsrc : src' = src
      · subst hsrc
        have hseq := hspan seq List.mem_cons_self
        rcases h.frame_unknown hentry seq with ⟨_, heq⟩ | ⟨hfresh, hafter⟩
        · have hsame : d.step (.frame src' seq) = d := by rw [Duplicates.step, heq]
          rw [accepted_dropped (by rw [heq]; simp), hsame]
          exact ih h hentry hrest hticks
        · have hseen := (Window.remembers_single (W := 8) (by decide) seq seq).mpr rfl
          rw [accepted_fresh hfresh, List.nodup_cons]
          constructor
          · exact accepted_remembered hstep hafter hseq hseq hseen hrest hticks
          · exact nodup_accepted_known hstep hafter hseq hrest hticks
      · rw [accepted_other hsrc]
        have hafter := h.entryOf_other hsrc seq
        rw [hentry] at hafter
        exact ih hstep hafter hrest hticks

/-- Frames of a source that is not known yet, all of them among eight consecutive numbers, are
let through at most once each, in whatever order they come and whatever other sources send, as
long as the timer ticks at most ten times. -/
theorem run_accepted_nodup (before : List Event) {src : Word}
    (hunknown : entryOf (run step init before) src = none) {x : Byte} {events : List Event}
    (hspan : Span src x events) (hticks : ticks events < duplicateRejectionTtl) :
    (accepted src (run step init before) events).Nodup :=
  nodup_accepted_unknown (run_sound before) hunknown hspan hticks

theorem exampleEvents_nodup : (accepted 7 (run step init []) exampleEvents).Nodup :=
  run_accepted_nodup [] (x := 249) (by decide) (by
    intro seq hseq
    simp only [exampleEvents, List.mem_cons, List.not_mem_nil, or_false] at hseq
    rcases hseq with h | h | h | h | h
    all_goals cases h
    all_goals decide) (by decide)

end Duplicates

end Aquila.Lwm
