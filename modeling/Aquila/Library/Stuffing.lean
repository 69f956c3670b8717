import Mathlib.Data.List.Basic

/-! # Byte stuffing

A frame delimiter is kept out of the payload by escaping it, and the escape symbol
itself, into two symbols. Decoding reads one extra symbol when an escape symbol
ends its input. The frames of a stream are what a receiver of bounded frames collects.
-/

namespace Aquila.Library

/-- The four reserved symbols of an escape code. -/
structure Stuffing (α : Type*) where
  stop : α
  esc : α
  escStop : α
  escEsc : α
  esc_ne_stop : esc ≠ stop
  escStop_ne_stop : escStop ≠ stop
  escEsc_ne_stop : escEsc ≠ stop
  escEsc_ne_escStop : escEsc ≠ escStop

namespace Stuffing

variable {α : Type*} [DecidableEq α] (c : Stuffing α)

def escape (a : α) : List α :=
  if a = c.stop then [c.esc, c.escStop] else if a = c.esc then [c.esc, c.escEsc] else [a]

def encode (as : List α) : List α := as.flatMap c.escape

def unescape (a : α) : α := if a = c.escStop then c.stop else if a = c.escEsc then c.esc else a

/-- Decode a frame; `fill` is read after an escape symbol that ends the input. -/
def decode (fill : α) : List α → List α
  | [] => []
  | [a] => if a = c.esc then [c.unescape fill] else [a]
  | a :: b :: as => if a = c.esc then c.unescape b :: decode fill as else a :: decode fill (b :: as)

def frame (as : List α) : List α := c.stop :: (c.encode as ++ [c.stop])

@[simp] theorem encode_nil : c.encode [] = [] := rfl

@[simp] theorem encode_cons (a : α) (as : List α) :
    c.encode (a :: as) = c.escape a ++ c.encode as := List.flatMap_cons

theorem stop_notMem_escape (a : α) : c.stop ∉ c.escape a := by
  rw [escape]
  split_ifs with h₁ h₂
  · simp [c.esc_ne_stop.symm, c.escStop_ne_stop.symm]
  · simp [c.esc_ne_stop.symm, c.escEsc_ne_stop.symm]
  · simpa using Ne.symm h₁

theorem stop_notMem_encode (as : List α) : c.stop ∉ c.encode as := by
  intro h
  rcases List.mem_flatMap.mp h with ⟨a, _, ha⟩
  exact c.stop_notMem_escape a ha

theorem one_le_length_escape (a : α) : 1 ≤ (c.escape a).length := by
  rw [escape]
  split_ifs <;> simp

theorem length_le_encode (as : List α) : as.length ≤ (c.encode as).length := by
  induction as with
  | nil => simp
  | cons a as ih =>
    have := c.one_le_length_escape a
    rw [encode_cons, List.length_append, List.length_cons]
    omega

theorem length_escape_le (a : α) : (c.escape a).length ≤ 2 := by
  rw [escape]
  split_ifs <;> simp

theorem length_encode_le (as : List α) : (c.encode as).length ≤ 2 * as.length := by
  induction as with
  | nil => simp
  | cons a as ih =>
    have := c.length_escape_le a
    rw [encode_cons, List.length_append, List.length_cons]
    omega

theorem decode_esc (fill b : α) (as : List α) :
    c.decode fill (c.esc :: b :: as) = c.unescape b :: c.decode fill as := by
  rw [decode, if_pos rfl]

theorem decode_plain (fill : α) {a : α} (h : a ≠ c.esc) (as : List α) :
    c.decode fill (a :: as) = a :: c.decode fill as := by
  cases as with
  | nil => simp [decode, h]
  | cons b as => simp [decode, h]

theorem length_decode_singleton (fill a : α) : (c.decode fill [a]).length = 1 := by
  rw [decode]
  split_ifs <;> rfl

theorem decode_escape (fill a : α) (as : List α) :
    c.decode fill (c.escape a ++ as) = a :: c.decode fill as := by
  rw [escape]
  split_ifs with h₁ h₂
  · rw [List.cons_append, List.singleton_append, decode_esc, unescape, if_pos rfl, h₁]
  · rw [List.cons_append, List.singleton_append, decode_esc, unescape, if_neg c.escEsc_ne_escStop,
      if_pos rfl, h₂]
  · rw [List.singleton_append, c.decode_plain fill h₂]

/-- Decoding inverts encoding, whatever follows. -/
theorem decode_encode_append (fill : α) (as rest : List α) :
    c.decode fill (c.encode as ++ rest) = as ++ c.decode fill rest := by
  induction as with
  | nil => rfl
  | cons a as ih => rw [encode_cons, List.append_assoc, decode_escape, ih, List.cons_append]

/-! ### The payload of any frame -/

/-- Decode a frame without the escape symbol that may end it. -/
def payload : List α → List α
  | [] => []
  | [a] => if a = c.esc then [] else [a]
  | a :: b :: as => if a = c.esc then c.unescape b :: payload as else a :: payload (b :: as)

theorem payload_plain {a : α} (h : a ≠ c.esc) (as : List α) :
    c.payload (a :: as) = a :: c.payload as := by
  cases as with
  | nil => simp [payload, h]
  | cons b as => simp [payload, h]

theorem payload_esc (b : α) (as : List α) :
    c.payload (c.esc :: b :: as) = c.unescape b :: c.payload as := by
  rw [payload, if_pos rfl]

/-- One symbol after a frame decodes to one symbol after its payload, or completes the escape
symbol that ends the frame. -/
theorem decode_append_singleton (fill : α) (as : List α) (x : α) :
    ∃ y, c.decode fill (as ++ [x]) = c.payload as ++ [y] := by
  induction as using payload.induct c with
  | case1 => exact List.length_eq_one_iff.mp (c.length_decode_singleton fill x)
  | case2 =>
    refine ⟨c.unescape x, ?_⟩
    rw [List.singleton_append, decode_esc, payload, if_pos rfl]
    rfl
  | case3 a h =>
    rcases List.length_eq_one_iff.mp (c.length_decode_singleton fill x) with ⟨y, hy⟩
    refine ⟨y, ?_⟩
    rw [List.singleton_append, c.decode_plain fill h, hy, c.payload_plain h]
    rfl
  | case4 b as ih =>
    rcases ih with ⟨y, hy⟩
    refine ⟨y, ?_⟩
    rw [List.cons_append, List.cons_append, decode_esc, hy, payload_esc, List.cons_append]
  | case5 a b as h ih =>
    rcases ih with ⟨y, hy⟩
    refine ⟨y, ?_⟩
    rw [List.cons_append, c.decode_plain fill h, hy, c.payload_plain h, List.cons_append]

theorem payload_encode (as : List α) : c.payload (c.encode as) = as := by
  rcases c.decode_append_singleton c.stop (c.encode as) c.stop with ⟨y, hy⟩
  rcases List.length_eq_one_iff.mp (c.length_decode_singleton c.stop c.stop) with ⟨z, hz⟩
  rw [decode_encode_append, hz] at hy
  exact (List.append_inj' hy rfl).1.symm

theorem length_payload_le (as : List α) : (c.payload as).length ≤ as.length := by
  induction as using payload.induct c with
  | case1 => simp [payload]
  | case2 => simp [payload]
  | case3 a h => simp [payload, h]
  | case4 b as ih =>
    rw [payload_esc, List.length_cons, List.length_cons, List.length_cons]
    omega
  | case5 a b as h ih =>
    rw [c.payload_plain h, List.length_cons, List.length_cons]
    omega

/-! ### The frames of a stream -/

/-- The frame that a symbol ends, if any, and what is then collected of the next one, once it is
open. A frame of more than `limit` symbols is given up, with the symbol that shows it. -/
def receive (limit : ℕ) : Option (List α) → α → Option (List α) × Option (List α)
  | none, a => (none, if a = c.stop then some [] else none)
  | some as, a =>
    if limit < as.length then (none, none)
    else if a = c.stop then if as = [] then (none, some []) else (some as, none)
    else (none, some (as ++ [a]))

def frames (limit : ℕ) : Option (List α) → List α → List (List α)
  | _, [] => []
  | collected, a :: as =>
    (c.receive limit collected a).1.toList ++ frames limit (c.receive limit collected a).2 as

/-- Frames that lie one after the other in a stream, each between two delimiters of its own. -/
inductive Segmented : List α → List (List α) → Prop
  | nil (rest : List α) : Segmented rest []
  | cons (gap frame : List α) {rest : List α} {frames : List (List α)} (h : Segmented rest frames) :
    Segmented (gap ++ c.stop :: (frame ++ c.stop :: rest)) (frame :: frames)

omit [DecidableEq α] in
theorem Segmented.append {rest : List α} {frames : List (List α)} (gap : List α)
    (h : c.Segmented rest frames) : c.Segmented (gap ++ rest) frames := by
  cases h with
  | nil => exact Segmented.nil _
  | cons gap' frame h =>
    rw [← List.append_assoc]
    exact Segmented.cons _ frame h

def opened : Option (List α) → List α
  | none => []
  | some as => c.stop :: as

theorem segmented_frames (limit : ℕ) (collected : Option (List α)) (as : List α) :
    c.Segmented (c.opened collected ++ as) (c.frames limit collected as) := by
  induction as generalizing collected with
  | nil => exact Segmented.nil _
  | cons a as ih =>
    cases collected with
    | none =>
      have hrest := ih (if a = c.stop then some [] else none)
      rw [frames]
      by_cases h : a = c.stop
      · rw [if_pos h] at hrest
        simpa [receive, h, opened] using hrest
      · rw [if_neg h] at hrest
        simpa [receive, h, opened] using hrest.append c [a]
    | some bs =>
      rw [frames, receive, opened]
      split
      case isTrue =>
        have := (ih none).append c (c.stop :: bs ++ [a])
        simpa [opened] using this
      case isFalse =>
        split
        case isTrue h =>
          split
          case isTrue hnil =>
            have := (ih (some [])).append c [c.stop]
            simpa [opened, h, hnil] using this
          case isFalse =>
            have := Segmented.cons (c := c) [] bs (ih none)
            simpa [opened, h] using this
        case isFalse =>
          have := ih (some (bs ++ [a]))
          simpa [opened] using this

theorem stop_notMem_receive {limit : ℕ} {collected : Option (List α)}
    (h : ∀ bs ∈ collected, c.stop ∉ bs) (a : α) :
    ∀ bs ∈ (c.receive limit collected a).2, c.stop ∉ bs := by
  cases collected with
  | none =>
    by_cases ha : a = c.stop
    · simp [receive, ha]
    · simp [receive, ha]
  | some bs =>
    have hbs := h bs rfl
    rw [receive]
    split_ifs with hlong ha hnil
    · simp
    · simp
    · simp
    · simp [hbs, Ne.symm ha]

/-- A completed frame has between one and `limit` symbols, none of them a delimiter. -/
theorem receive_frame {limit : ℕ} {collected : Option (List α)}
    (h : ∀ bs ∈ collected, c.stop ∉ bs) (a : α) :
    ∀ frame ∈ (c.receive limit collected a).1,
      frame ≠ [] ∧ frame.length ≤ limit ∧ c.stop ∉ frame := by
  cases collected with
  | none => simp [receive]
  | some bs =>
    have hbs := h bs rfl
    rw [receive]
    split_ifs with hlong ha hnil
    · simp
    · simp
    · simp [hnil, hbs, Nat.le_of_not_lt hlong]
    · simp

theorem mem_frames {limit : ℕ} {collected : Option (List α)}
    (h : ∀ bs ∈ collected, c.stop ∉ bs) {as frame : List α}
    (hframe : frame ∈ c.frames limit collected as) :
    frame ≠ [] ∧ frame.length ≤ limit ∧ c.stop ∉ frame := by
  induction as generalizing collected with
  | nil => exact absurd hframe List.not_mem_nil
  | cons a as ih =>
    rw [frames, List.mem_append, Option.mem_toList] at hframe
    rcases hframe with hframe | hframe
    · exact c.receive_frame h a frame hframe
    · exact ih (c.stop_notMem_receive h a) hframe

end Stuffing

end Aquila.Library
