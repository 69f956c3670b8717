import Mathlib.Data.List.GetD

/-! # Cipher feedback

A text is mixed block by block with the images of a register under a block function. The
register then holds the block of ciphertext, and what a shorter last block leaves of the
image. The block function is never inverted and nothing is assumed of it.
-/

namespace Aquila.Library.Feedback

variable {w n : ℕ}

abbrev Block (w n : ℕ) := Fin n → BitVec w

/-- A text of at most one block, mixed with a block. -/
def mix (k : Block w n) (text : List (BitVec w)) : List (BitVec w) :=
  List.zipWith (· ^^^ ·) text (List.ofFn k)

def feed (encrypt : Bool) (k : Block w n) (text : List (BitVec w)) : Block w n := fun i =>
  if i < text.length then
    let mixed := text.getD i 0 ^^^ k i
    if encrypt then mixed else k i ^^^ mixed
  else k i

def blocks (E : Block w n → Block w n) (encrypt : Bool) :
    ℕ → Block w n → List (BitVec w) → List (BitVec w) × Block w n
  | 0, v, text => (mix (E v) text, feed encrypt (E v) text)
  | count + 1, v, text =>
    let rest := blocks E encrypt count (feed encrypt (E v) (text.take n)) (text.drop n)
    (mix (E v) (text.take n) ++ rest.1, rest.2)

def stream (E : Block w n → Block w n) (encrypt : Bool) (v : Block w n) (text : List (BitVec w)) :
    List (BitVec w) × Block w n :=
  blocks E encrypt ((text.length - 1) / n) v text

@[simp] theorem length_mix (k : Block w n) (text : List (BitVec w)) :
    (mix k text).length = min text.length n := by
  simp [mix]

theorem getElem?_mix (k : Block w n) {text : List (BitVec w)} {i : ℕ} (hi : i < text.length)
    (hn : i < n) : (mix k text)[i]? = some (text[i] ^^^ k ⟨i, hn⟩) := by
  rw [mix, List.getElem?_zipWith]
  simp [hi, hn]

theorem mix_mix (k : Block w n) {text : List (BitVec w)} (h : text.length ≤ n) :
    mix k (mix k text) = text := by
  apply List.ext_getElem?
  intro i
  by_cases hi : i < text.length
  · have hn : i < n := by omega
    have hmix : i < (mix k text).length := by
      rw [length_mix]
      omega
    rw [getElem?_mix k hmix hn, List.getElem?_eq_getElem hi]
    have hget := getElem?_mix k hi hn
    rw [List.getElem?_eq_getElem hmix, Option.some_inj] at hget
    rw [hget, BitVec.xor_assoc, BitVec.xor_self, BitVec.xor_zero]
  · have hmix : ¬ i < (mix k (mix k text)).length := by
      simp only [length_mix]
      omega
    rw [List.getElem?_eq_none (by omega), List.getElem?_eq_none (by omega)]

/-- In the direction of decryption the register takes the text itself. -/
theorem feed_decrypt (k : Block w n) (text : List (BitVec w)) (i : Fin n) :
    feed false k text i = if i < text.length then text.getD i 0 else k i := by
  rw [feed]
  split
  case isTrue h =>
    simp only [Bool.false_eq_true, if_false]
    rw [BitVec.xor_comm, BitVec.xor_assoc, BitVec.xor_self, BitVec.xor_zero]
  case isFalse h => rfl

/-- Both directions leave the register that holds the ciphertext. -/
theorem feed_mix (k : Block w n) {text : List (BitVec w)} (h : text.length ≤ n) :
    feed false k (mix k text) = feed true k text := by
  ext1 i
  have hlength : (mix k text).length = text.length := by
    rw [length_mix]
    omega
  rw [feed_decrypt, hlength, feed]
  split
  case isTrue hi =>
    have hget := getElem?_mix k hi i.isLt
    rw [List.getD_eq_getElem?_getD, hget, List.getD_eq_getElem?_getD,
      List.getElem?_eq_getElem hi]
    rfl
  case isFalse hi => rfl

/-- Where two texts of at most one block differ, as a block. -/
def difference (text text' : List (BitVec w)) : Block w n := fun i =>
  text.getD i 0 ^^^ text'.getD i 0

theorem feed_difference (k : Block w n) {text text' : List (BitVec w)}
    (h : text'.length = text.length) (i : Fin n) :
    feed false k text' i = feed false k text i ^^^ difference text text' i := by
  rw [feed_decrypt, feed_decrypt, h, difference]
  split
  case isTrue hi => rw [← BitVec.xor_assoc, BitVec.xor_self, BitVec.zero_xor]
  case isFalse hi =>
    rw [List.getD_eq_default _ _ (by omega), List.getD_eq_default _ _ (by omega),
      BitVec.xor_self, BitVec.xor_zero]

theorem mix_difference (k : Block w n) {text text' : List (BitVec w)}
    (h : text'.length = text.length) (i : Fin n) (hi : i < text.length) :
    (mix k text').getD i 0 = (mix k text).getD i 0 ^^^ difference text text' i := by
  have hi' : i < text'.length := by omega
  rw [List.getD_eq_getElem?_getD, List.getD_eq_getElem?_getD, getElem?_mix k hi i.isLt,
    getElem?_mix k hi' i.isLt, difference, List.getD_eq_getElem _ _ hi,
    List.getD_eq_getElem _ _ hi']
  simp only [Option.getD_some]
  rw [BitVec.xor_assoc, BitVec.xor_comm (k i), BitVec.xor_assoc, ← BitVec.xor_assoc text[i.val],
    BitVec.xor_self, BitVec.zero_xor]

variable (E : Block w n → Block w n)

theorem stream_short (hn : 0 < n) (encrypt : Bool) (v : Block w n) {text : List (BitVec w)}
    (h : text.length ≤ n) :
    stream E encrypt v text = (mix (E v) text, feed encrypt (E v) text) := by
  rw [stream, Nat.div_eq_of_lt (by omega), blocks]

theorem stream_long (hn : 0 < n) (encrypt : Bool) (v : Block w n) {text : List (BitVec w)}
    (h : ¬ text.length ≤ n) :
    stream E encrypt v text =
      let rest := stream E encrypt (feed encrypt (E v) (text.take n)) (text.drop n)
      (mix (E v) (text.take n) ++ rest.1, rest.2) := by
  have hcount : (text.length - 1) / n = ((text.drop n).length - 1) / n + 1 := by
    rw [List.length_drop, ← Nat.add_div_right _ hn]
    congr 1
    omega
  rw [stream, hcount, blocks]
  rfl

/-- What holds of texts of one block, and of a text once it holds of what follows its first
block, holds of all texts. -/
theorem text_induction (hn : 0 < n) {P : List (BitVec w) → Prop}
    (hshort : ∀ text, text.length ≤ n → P text)
    (hlong : ∀ text, ¬ text.length ≤ n → P (text.drop n) → P text) (text : List (BitVec w)) :
    P text := by
  induction h : text.length using Nat.strongRecOn generalizing text with
  | _ length ih =>
    by_cases hle : text.length ≤ n
    · exact hshort text hle
    · apply hlong text hle
      apply ih (text.drop n).length _ _ rfl
      rw [List.length_drop]
      omega

theorem length_stream (hn : 0 < n) (encrypt : Bool) (v : Block w n) (text : List (BitVec w)) :
    (stream E encrypt v text).1.length = text.length := by
  induction text using text_induction hn generalizing v with
  | hshort text h =>
    rw [stream_short E hn encrypt v h, length_mix]
    omega
  | hlong text h ih =>
    rw [stream_long E hn encrypt v h]
    simp only [List.length_append, length_mix, List.length_take, ih, List.length_drop]
    omega

/-- Decryption gives back the text, and ends with the register of the encryption. -/
theorem stream_stream (hn : 0 < n) (v : Block w n) (text : List (BitVec w)) :
    stream E false v (stream E true v text).1 = (text, (stream E true v text).2) := by
  induction text using text_induction hn generalizing v with
  | hshort text h =>
    have hmix : (mix (E v) text).length ≤ n := by
      rw [length_mix]
      omega
    rw [stream_short E hn true v h, stream_short E hn false v hmix, mix_mix (E v) h,
      feed_mix (E v) h]
  | hlong text h ih =>
    have htake : (text.take n).length = n := by
      rw [List.length_take]
      omega
    have hmix : (mix (E v) (text.take n)).length = n := by
      rw [length_mix]
      omega
    rw [stream_long E hn true v h]
    simp only
    rw [stream_long E hn]
    case h =>
      rw [List.length_append, hmix, length_stream E hn, List.length_drop]
      omega
    simp only [List.take_left' hmix, List.drop_left' hmix]
    have hle := Nat.le_of_eq htake
    rw [feed_mix (E v) hle, mix_mix (E v) hle, ih, List.take_append_drop]

/-- The last block of a text enters the result through one block, which what precedes it
determines. -/
theorem stream_append (hn : 0 < n) (encrypt : Bool) (v : Block w n) {text : List (BitVec w)}
    (h : n ∣ text.length) :
    ∃ k : Block w n, ∃ out : List (BitVec w), ∀ last, 0 < last.length → last.length ≤ n →
      stream E encrypt v (text ++ last) = (out ++ mix k last, feed encrypt k last) := by
  induction text using text_induction hn generalizing v with
  | hshort text hle =>
    rcases Nat.eq_zero_or_pos text.length with hzero | hpos
    · rw [List.length_eq_zero_iff.mp hzero]
      exact ⟨E v, [], fun last _ hlast => stream_short E hn encrypt v hlast⟩
    · have hlength : text.length = n := Nat.le_antisymm hle (Nat.le_of_dvd hpos h)
      refine ⟨E (feed encrypt (E v) text), mix (E v) text, ?_⟩
      intro last hlast hlastn
      rw [stream_long E hn]
      case h =>
        rw [List.length_append]
        omega
      simp only [List.take_left' hlength, List.drop_left' hlength]
      rw [stream_short E hn encrypt _ hlastn]
  | hlong text hlong ih =>
    have htake : n ≤ text.length := by omega
    have hdvd : n ∣ (text.drop n).length := by
      rw [List.length_drop]
      exact Nat.dvd_sub h (Nat.dvd_refl n)
    rcases ih (feed encrypt (E v) (text.take n)) hdvd with ⟨k, out, hrest⟩
    refine ⟨k, mix (E v) (text.take n) ++ out, ?_⟩
    intro last hlast hlastn
    rw [stream_long E hn]
    case h =>
      rw [List.length_append]
      omega
    simp only [List.take_append_of_le_length htake, List.drop_append_of_le_length htake]
    rw [hrest last hlast hlastn, List.append_assoc]

end Aquila.Library.Feedback
