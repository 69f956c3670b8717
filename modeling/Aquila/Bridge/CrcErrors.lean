import Aquila.Bridge.Command
import Aquila.Library.Register

/-! # Transmission errors and the CRC

A stored CRC is accepted when the message and the CRC, read with its high byte first,
have residue zero. The CRC is stored low byte first, so the bytes on the line are the
ones of that polynomial with the last two exchanged.
-/

namespace Aquila.Bridge
open Library

/-- The feedback word of `calcCrc`. -/
def crcFeedback : Word := 0x1021#16

theorem crcRound_eq_shiftFeed : crcRound = shiftFeed crcFeedback := by
  funext crc
  have hbit : crc &&& 0x8000#16 ≠ 0 ↔ crc.getLsbD 15 = true := by
    have hmask : ∀ i < 16, (0x8000#16).getLsbD i = decide (i = 15) := by decide
    constructor
    · intro h
      by_contra hbit
      apply h
      apply BitVec.eq_of_getLsbD_eq
      intro i hi
      rw [BitVec.getLsbD_and, hmask i hi]
      by_cases hlast : i = 15
      · rw [hlast, Bool.eq_false_iff.mpr hbit]
        simp
      · simp [hlast]
    · intro hbit h
      have := congrArg (fun c => c.getLsbD 15) h
      rw [BitVec.getLsbD_and, hbit, hmask 15 (by decide)] at this
      simp at this
  by_cases h : crc.getLsbD 15 = true
  · rw [crcRound, if_pos (hbit.mpr h), shiftFeed, if_pos h]
    rfl
  · rw [crcRound, if_neg (mt hbit.mp h), shiftFeed, if_neg h]

def bitsOf (b : Byte) : List ℕ := (List.range 8).filter (fun i => b.getLsbD i)

def flips (e : List Byte) : ℕ := (e.map (fun b => (bitsOf b).length)).sum

def corrupt (bytes e : List Byte) : List Byte := List.zipWith (· ^^^ ·) bytes e

/-- The residue of a byte string as a polynomial, most significant byte first. -/
def residue : List Byte → Word
  | [] => 0
  | b :: bs => crcRound^[8 * bs.length] (b.setWidth 16) ^^^ residue bs

def powers : List Byte → List ℕ
  | [] => []
  | b :: bs => (bitsOf b).map (fun i => 8 * bs.length + i) ++ powers bs

/-! ### Linearity -/

theorem iterate_crcRound_xor (n : ℕ) (a b : Word) :
    crcRound^[n] (a ^^^ b) = crcRound^[n] a ^^^ crcRound^[n] b := by
  rw [crcRound_eq_shiftFeed]
  exact iterate_shiftFeed_xor n a b

theorem iterate_crcRound_eq_zero {n : ℕ} {c : Word} (h : crcRound^[n] c = 0) : c = 0 := by
  rw [crcRound_eq_shiftFeed] at h
  exact iterate_shiftFeed_eq_zero (by decide) h

@[simp] theorem iterate_crcRound_zero (n : ℕ) : crcRound^[n] 0#16 = 0#16 := by
  rw [crcRound_eq_shiftFeed]
  exact iterate_shiftFeed_zero n

theorem crcByte_xor (c c' : Word) (b b' : Byte) :
    crcByte (c ^^^ c') (b ^^^ b') = crcByte c b ^^^ crcByte c' b' := by
  have hext : (b ^^^ b').signExtend 16 <<< 8 =
      b.signExtend 16 <<< 8 ^^^ b'.signExtend 16 <<< 8 := by
    rw [BitVec.signExtend_xor, BitVec.shiftLeft_xor_distrib]
  rw [crcByte, crcByte, crcByte, hext, ← iterate_crcRound_xor, BitVec.xor_assoc, BitVec.xor_assoc]
  congr 2
  rw [← BitVec.xor_assoc, ← BitVec.xor_assoc, BitVec.xor_comm c']

theorem crcOf_corrupt (m e : List Byte) (h : m.length = e.length) :
    crcOf (corrupt m e) = crcOf m ^^^ crcOf e := by
  have := foldl_zipWith crcByte_xor m e h 0 0
  rwa [BitVec.xor_self] at this

theorem iterate_crcRound_low :
    ∀ b : Byte, crcRound^[8] (b.setWidth 16) = b.signExtend 16 <<< 8 := by
  decide +kernel

theorem storedCrc_eq_xor (low high : Byte) :
    storedCrc low high = crcRound^[8] (high.setWidth 16) ^^^ low.setWidth 16 := by
  rw [iterate_crcRound_low]
  apply BitVec.eq_of_getLsbD_eq
  intro i hi
  rw [storedCrc, BitVec.getLsbD_or, BitVec.getLsbD_xor, signExtend_low, BitVec.getLsbD_shiftLeft,
    BitVec.getLsbD_setWidth]
  by_cases h : i < 8
  · simp [h, hi]
  · rw [BitVec.getLsbD_of_ge low i (by omega)]
    simp

theorem storedCrc_xor (low high low' high' : Byte) :
    storedCrc (low ^^^ low') (high ^^^ high') = storedCrc low high ^^^ storedCrc low' high' := by
  rw [storedCrc_eq_xor, storedCrc_eq_xor, storedCrc_eq_xor, BitVec.setWidth_xor,
    BitVec.setWidth_xor, iterate_crcRound_xor, BitVec.xor_assoc, BitVec.xor_assoc]
  congr 1
  rw [← BitVec.xor_assoc, ← BitVec.xor_assoc, BitVec.xor_comm (crcRound^[8] _)]

/-! ### Residues -/

theorem residue_append (bs cs : List Byte) :
    residue (bs ++ cs) = crcRound^[8 * cs.length] (residue bs) ^^^ residue cs := by
  induction bs with
  | nil => simp [residue]
  | cons b bs ih =>
    have hlen : 8 * (bs ++ cs).length = 8 * cs.length + 8 * bs.length := by
      rw [List.length_append]
      omega
    rw [List.cons_append, residue, ih, hlen, Function.iterate_add_apply, ← BitVec.xor_assoc,
      ← iterate_crcRound_xor, residue]

/-- The CRC is the residue of the message with two zero bytes after it. -/
theorem foldl_crcByte (crc : Word) (bs : List Byte) :
    bs.foldl crcByte crc =
      crcRound^[8 * bs.length] crc ^^^ crcRound^[16] (residue bs) := by
  have hbyte (b : Byte) : crcRound^[8] (b.signExtend 16 <<< 8) = crcRound^[16] (b.setWidth 16) := by
    rw [← iterate_crcRound_low, ← Function.iterate_add_apply]
  induction bs generalizing crc with
  | nil =>
    rw [residue, show (0 : Word) = 0#16 from rfl, iterate_crcRound_zero, BitVec.xor_zero]
    rfl
  | cons b bs ih =>
    have hlen : 8 * (b :: bs).length = 8 * bs.length + 8 := by
      rw [List.length_cons]
      omega
    have hcomm : crcRound^[8 * bs.length] (crcRound^[16] (b.setWidth 16)) =
        crcRound^[16] (crcRound^[8 * bs.length] (b.setWidth 16)) := by
      rw [← Function.iterate_add_apply, ← Function.iterate_add_apply, Nat.add_comm]
    rw [List.foldl_cons, ih, crcByte, iterate_crcRound_xor, hbyte, iterate_crcRound_xor, hcomm,
      ← Function.iterate_add_apply, ← hlen, residue, iterate_crcRound_xor, BitVec.xor_assoc]

theorem crcOf_eq_residue (bs : List Byte) : crcOf bs = crcRound^[16] (residue bs) := by
  have hzero : crcRound^[8 * bs.length] (0 : Word) = 0#16 := iterate_crcRound_zero _
  rw [crcOf, foldl_crcByte, hzero, BitVec.zero_xor]

theorem crcOf_eq_storedCrc_iff (bs : List Byte) (low high : Byte) :
    storedCrc low high = crcOf bs ↔ residue (bs ++ [high, low]) = 0 := by
  have hstored : residue [high, low] = storedCrc low high := by
    simp [residue, storedCrc_eq_xor]
  rw [residue_append, hstored, crcOf_eq_residue]
  change _ ↔ crcRound^[16] (residue bs) ^^^ storedCrc low high = 0#16
  rw [BitVec.xor_eq_zero_iff, eq_comm]

theorem residue_eq_xorAll (bs : List Byte) :
    residue bs = xorAll ((powers bs).map (fun k => crcRound^[k] 1)) := by
  have hbyte : ∀ b : Byte, b.setWidth 16 = xorAll ((bitsOf b).map (fun k => crcRound^[k] 1)) := by
    decide +kernel
  induction bs with
  | nil => rfl
  | cons b bs ih =>
    rw [residue, powers, ih, hbyte, List.map_append, xorAll_append,
      map_xorAll (iterate_crcRound_zero _) (iterate_crcRound_xor _), List.map_map, List.map_map]
    congr 2
    apply List.map_congr_left
    intro k _
    exact (Function.iterate_add_apply crcRound _ k 1).symm

/-! ### Corrupted messages -/

theorem load_appendCrc (buffer : Memory Byte) (m : List Byte) :
    let sent := (appendCrc (buffer.store 0 m) m.length).value
    sent.1.load 0 sent.2.toNat = withCrc m := by
  intro sent
  have hsize : sent.2.toNat = (withCrc m).length := by
    rw [length_withCrc]
    exact Int.toNat_natCast (m.length + 2)
  have hstored : sent.1 = buffer.store 0 (withCrc m) := by
    simp only [sent, value_appendCrc, Int.toNat_natCast, Memory.load_store]
    rw [withCrc, Memory.store_append, Int.zero_add]
  rw [hsize, hstored, Memory.load_store]

/-- What `checkCrc` answers on a message whose bytes and CRC were corrupted on the line. -/
def checkCorrupted (buffer line : Memory Byte) (m e : List Byte) : Bool :=
  let sent := (appendCrc (buffer.store 0 m) m.length).value
  (checkCrc (line.store 0 (corrupt (sent.1.load 0 sent.2.toNat) e)) sent.2).value

/-- A corruption goes unnoticed exactly when its own residue is zero. -/
theorem checkCorrupted_iff (buffer line : Memory Byte) (m body : List Byte) (low high : Byte)
    (hlen : m.length = body.length) :
    checkCorrupted buffer line m (body ++ [low, high]) = true ↔
      residue (body ++ [high, low]) = 0 := by
  have hsplit : corrupt (withCrc m) (body ++ [low, high]) =
      corrupt m body ++ [(crcOf m).setWidth 8 ^^^ low, (crcOf m >>> 8).setWidth 8 ^^^ high] := by
    rw [corrupt, withCrc, List.zipWith_append hlen]
    rfl
  have hbody : (corrupt m body).length = m.length := by
    rw [corrupt, List.length_zipWith, hlen, Nat.min_self]
  have hload := Memory.load_store line 0 (corrupt (withCrc m) (body ++ [low, high]))
  rw [hsplit, List.length_append] at hload
  have hchecked := value_checkCrc _ _ _ _ hload
  rw [hbody] at hchecked
  have hown : storedCrc ((crcOf m).setWidth 8) ((crcOf m >>> 8).setWidth 8) = crcOf m :=
    word_of_crcBytes _
  rw [checkCorrupted, load_appendCrc, hsplit]
  change (checkCrc _ (m.length + 2)).value = true ↔ _
  rw [hchecked, beq_iff_eq, crcOf_corrupt m body hlen, storedCrc_xor, hown,
    ← crcOf_eq_storedCrc_iff]
  exact BitVec.xor_right_inj _

theorem length_powers (bs : List Byte) : (powers bs).length = flips bs := by
  induction bs with
  | nil => rfl
  | cons b bs ih =>
    rw [powers, List.length_append, List.length_map, ih, flips, flips, List.map_cons,
      List.sum_cons]

theorem powers_lt (bs : List Byte) : ∀ k ∈ powers bs, k < 8 * bs.length := by
  induction bs with
  | nil => simp [powers]
  | cons b bs ih =>
    intro k hk
    rw [List.length_cons]
    rw [powers, List.mem_append] at hk
    rcases hk with hk | hk
    · rcases List.mem_map.mp hk with ⟨i, hi, rfl⟩
      have := List.mem_range.mp (List.mem_of_mem_filter hi)
      omega
    · have := ih k hk
      omega

theorem nodup_powers (bs : List Byte) : (powers bs).Nodup := by
  induction bs with
  | nil => exact List.nodup_nil
  | cons b bs ih =>
    rw [powers]
    apply List.Nodup.append _ ih
    · intro k hk hrest
      have := powers_lt bs k hrest
      rcases List.mem_map.mp hk with ⟨i, _, rfl⟩
      omega
    · apply List.Nodup.map
      · intro i j hij
        exact Nat.add_left_cancel hij
      · exact List.nodup_range.filter _

/-- Two flipped bits have different residues: no power of the indeterminate below the number of
bits of a frame is one. -/
theorem residue_ne_zero_of_two (bs : List Byte) (hlen : bs.length ≤ 255) (h : flips bs = 2) :
    residue bs ≠ 0 := by
  have horbit : meets crcRound 1 2040 1 = false := by decide +kernel
  have hinjective : Function.Injective crcRound := by
    rw [crcRound_eq_shiftFeed]
    exact shiftFeed_injective (by decide)
  rw [← length_powers, List.length_eq_two] at h
  rcases h with ⟨i, j, hij⟩
  have hne : i ≠ j := by
    have := nodup_powers bs
    rw [hij] at this
    simpa using this
  have hi := powers_lt bs i (by simp [hij])
  have hj := powers_lt bs j (by simp [hij])
  rw [residue_eq_xorAll, hij]
  intro hzero
  change crcRound^[i] 1 ^^^ (crcRound^[j] 1 ^^^ 0#16) = 0#16 at hzero
  rw [BitVec.xor_zero, BitVec.xor_eq_zero_iff] at hzero
  exact iterate_ne_iterate hinjective horbit hne (by omega) (by omega) hzero

/-- An odd number of flipped bits has a residue of odd parity. -/
theorem residue_ne_zero_of_odd (bs : List Byte) (h : Odd (flips bs)) : residue bs ≠ 0 := by
  have hpowers : ∀ c ∈ (powers bs).map (fun k => crcRound^[k] 1), parity c = true := by
    intro c hc
    rcases List.mem_map.mp hc with ⟨k, _, rfl⟩
    rw [crcRound_eq_shiftFeed, parity_iterate_shiftFeed (by decide)]
    decide
  have hparity : parity (residue bs) = true := by
    rw [residue_eq_xorAll, parity_xorAll hpowers, List.length_map, length_powers]
    exact decide_eq_true (Nat.odd_iff.mp h)
  intro hzero
  rw [hzero] at hparity
  exact absurd hparity (by decide)

theorem exists_append_pair {e : List Byte} {n : ℕ} (he : e.length = n + 2) :
    ∃ body low high, e = body ++ [low, high] ∧ body.length = n := by
  have hlast : (e.drop n).length = 2 := by
    rw [List.length_drop]
    omega
  rcases List.length_eq_two.mp hlast with ⟨low, high, hpair⟩
  refine ⟨e.take n, low, high, ?_, ?_⟩
  · rw [← hpair, List.take_append_drop]
  · rw [List.length_take]
    omega

/-- Two flipped bits, or an odd number of them, are noticed wherever they are. -/
theorem checkCorrupted_flips (buffer line : Memory Byte) (m e : List Byte)
    (hm : m.length + 2 ≤ 255) (he : e.length = m.length + 2)
    (hflips : flips e = 2 ∨ Odd (flips e)) : checkCorrupted buffer line m e = false := by
  rcases exists_append_pair he with ⟨body, low, high, rfl, hlen⟩
  have hexchanged : flips (body ++ [high, low]) = flips (body ++ [low, high]) := by
    simp [flips, Nat.add_comm]
  have hbound : (body ++ [high, low]).length ≤ 255 := by
    rw [List.length_append, hlen]
    exact hm
  rw [← hexchanged] at hflips
  rw [← Bool.not_eq_true, checkCorrupted_iff _ _ _ _ _ _ hlen.symm]
  rcases hflips with htwo | hodd
  · exact residue_ne_zero_of_two _ hbound htwo
  · exact residue_ne_zero_of_odd _ hodd

/-- The first bit and the last bit of a message of one byte and its CRC. -/
theorem checkCorrupted_flips_outer :
    checkCorrupted 0 0 [0x2A#8] [0x80#8, 0x00#8, 0x01#8] = false :=
  checkCorrupted_flips 0 0 [0x2A#8] [0x80#8, 0x00#8, 0x01#8] (by decide) rfl (Or.inl (by decide))

/-! ### Bursts -/

@[simp] theorem residue_replicate (n : ℕ) : residue (List.replicate n 0#8) = 0#16 := by
  induction n with
  | zero => rfl
  | succ n ih =>
    rw [List.replicate_succ, residue, ih, BitVec.xor_zero]
    exact iterate_crcRound_zero _

theorem residue_pair_eq_zero {d₁ d₂ : Byte} (h : residue [d₁, d₂] = 0) : d₁ = 0 ∧ d₂ = 0 := by
  have hlow : ∀ b : Byte, (b.signExtend 16 <<< 8).setWidth 8 = 0#8 := by decide +kernel
  change crcRound^[8] (d₁.setWidth 16) ^^^ (d₂.setWidth 16 ^^^ 0#16) = 0#16 at h
  rw [BitVec.xor_zero, BitVec.xor_eq_zero_iff] at h
  have hsecond : d₂ = 0 := by
    have := congrArg (BitVec.setWidth 8) h
    rw [iterate_crcRound_low, hlow, BitVec.setWidth_setWidth_of_le _ (by decide),
      BitVec.setWidth_eq] at this
    exact this.symm
  rw [hsecond] at h
  have hfirst := congrArg (BitVec.setWidth 8) (iterate_crcRound_eq_zero h)
  rw [BitVec.setWidth_setWidth_of_le _ (by decide), BitVec.setWidth_eq] at hfirst
  exact ⟨hfirst, hsecond⟩

theorem residue_gap_eq_zero_iff (d₁ d₂ : Byte) :
    residue [d₁, 0, d₂] = 0 ↔ (d₁ = 0 ∧ d₂ = 0) ∨ (d₁ = 0x89#8 ∧ d₂ = 0xA1#8) := by
  have hgap : ∀ b : Byte, crcRound^[16] (b.setWidth 16) >>> 8 = 0#16 → b = 0 ∨ b = 0x89#8 := by
    decide +kernel
  have hpair : residue [d₁, 0, d₂] = crcRound^[16] (d₁.setWidth 16) ^^^ d₂.setWidth 16 := by
    simp [residue]
  rw [hpair]
  change crcRound^[16] (d₁.setWidth 16) ^^^ d₂.setWidth 16 = 0#16 ↔ _
  rw [BitVec.xor_eq_zero_iff]
  constructor
  · intro h
    have hhigh : crcRound^[16] (d₁.setWidth 16) >>> 8 = 0#16 := by
      rw [h]
      apply BitVec.eq_of_getLsbD_eq
      intro i hi
      rw [BitVec.getLsbD_ushiftRight, BitVec.getLsbD_setWidth, BitVec.getLsbD_of_ge d₂ _ (by omega)]
      simp
    have hsecond : d₂ = (crcRound^[16] (d₁.setWidth 16)).setWidth 8 := by
      rw [h, BitVec.setWidth_setWidth_of_le _ (by decide), BitVec.setWidth_eq]
    rcases hgap d₁ hhigh with hfirst | hfirst
    · left
      rw [hsecond, hfirst]
      decide
    · right
      rw [hsecond, hfirst]
      decide
  · rintro (⟨rfl, rfl⟩ | ⟨rfl, rfl⟩) <;> decide

def burst (before : ℕ) (d₁ d₂ : Byte) (after : ℕ) : List Byte :=
  List.replicate before 0#8 ++ d₁ :: d₂ :: List.replicate after 0#8

@[simp] theorem length_burst (before : ℕ) (d₁ d₂ : Byte) (after : ℕ) :
    (burst before d₁ d₂ after).length = before + after + 2 := by
  simp [burst]
  omega

theorem residue_replicate_append (n : ℕ) (bs : List Byte) :
    residue (List.replicate n 0#8 ++ bs) = residue bs := by
  rw [residue_append, residue_replicate, iterate_crcRound_zero, BitVec.zero_xor]

theorem residue_append_replicate (bs : List Byte) (n : ℕ) :
    residue (bs ++ List.replicate n 0#8) = crcRound^[8 * n] (residue bs) := by
  rw [residue_append, residue_replicate, BitVec.xor_zero, List.length_replicate]

/-- The residue of a burst, by where it ends: in the CRC, at its first byte, or in the data. -/
theorem residue_burst_eq_zero_iff {before after : ℕ} {d₁ d₂ : Byte} (hd : ¬(d₁ = 0 ∧ d₂ = 0))
    {body : List Byte} {low high : Byte} (h : burst before d₁ d₂ after = body ++ [low, high]) :
    residue (body ++ [high, low]) = 0 ↔ after = 1 ∧ d₁ = 0x89#8 ∧ d₂ = 0xA1#8 := by
  rcases after with _ | _ | after
  · -- both bytes of the CRC
    have hburst : burst before d₁ d₂ 0 = List.replicate before 0#8 ++ [d₁, d₂] := rfl
    rcases List.append_inj' (hburst.symm.trans h) rfl with ⟨rfl, hpair⟩
    cases hpair
    rw [residue_replicate_append]
    apply iff_of_false
    · intro hzero
      exact hd (residue_pair_eq_zero hzero).symm
    · simp
  · -- the last byte of the data and the first of the CRC
    have hburst : burst before d₁ d₂ 1 = (List.replicate before 0#8 ++ [d₁]) ++ [d₂, 0#8] := by
      simp [burst]
    rcases List.append_inj' (hburst.symm.trans h) rfl with ⟨rfl, hpair⟩
    cases hpair
    rw [List.append_assoc, residue_replicate_append]
    change residue [d₁, 0, d₂] = 0 ↔ _
    rw [residue_gap_eq_zero_iff, or_iff_right hd]
    exact (and_iff_right rfl).symm
  · have hburst : burst before d₁ d₂ (after + 2) = burst before d₁ d₂ after ++ [0#8, 0#8] := by
      simp [burst, List.replicate_succ']
    rcases List.append_inj' (hburst.symm.trans h) rfl with ⟨rfl, hpair⟩
    cases hpair
    apply iff_of_false
    · intro hzero
      change residue (burst before d₁ d₂ after ++ List.replicate 2 0#8) = 0 at hzero
      have hresidue : residue (burst before d₁ d₂ after) =
          crcRound^[8 * after] (residue [d₁, d₂]) := by
        have := residue_append_replicate [d₁, d₂] after
        rw [burst, residue_replicate_append]
        exact this
      rw [residue_append_replicate, hresidue] at hzero
      exact hd (residue_pair_eq_zero (iterate_crcRound_eq_zero (iterate_crcRound_eq_zero hzero)))
    · simp

/-- A burst of two bytes is noticed unless it is one pattern across the end of the data. -/
theorem checkCorrupted_burst (buffer line : Memory Byte) (m : List Byte) (before after : ℕ)
    (d₁ d₂ : Byte) (hd : ¬(d₁ = 0 ∧ d₂ = 0)) (hlen : before + after = m.length) :
    checkCorrupted buffer line m (burst before d₁ d₂ after) =
      decide (after = 1 ∧ d₁ = 0x89#8 ∧ d₂ = 0xA1#8) := by
  have he : (burst before d₁ d₂ after).length = m.length + 2 := by rw [length_burst, hlen]
  rcases exists_append_pair he with ⟨body, low, high, hsplit, hbody⟩
  rw [Bool.eq_iff_iff, decide_eq_true_iff, ← residue_burst_eq_zero_iff hd hsplit, hsplit]
  exact checkCorrupted_iff buffer line m body low high hbody.symm

/-- The last byte of the data and the high byte of the CRC differ from what was sent. -/
theorem checkCorrupted_burst_data :
    checkCorrupted 0 0 [0x2A#8, 0x07#8] (burst 0 0x89#8 0xA1#8 2) =
      decide ((2 : ℕ) = 1 ∧ (0x89#8 : Byte) = 0x89#8 ∧ (0xA1#8 : Byte) = 0xA1#8) :=
  checkCorrupted_burst 0 0 [0x2A#8, 0x07#8] 0 2 0x89#8 0xA1#8 (by decide) rfl

/-- The pattern that goes unnoticed, on a message of one byte. -/
theorem checkCorrupted_across_end :
    ¬ ∀ (m : List Byte) (before after : ℕ) (d₁ d₂ : Byte), m ≠ [] → m.length + 2 ≤ 255 →
      ¬(d₁ = 0 ∧ d₂ = 0) → before + after = m.length →
      checkCorrupted 0 0 m (burst before d₁ d₂ after) = false := by
  intro h
  have := h [0x00#8] 0 1 0x89#8 0xA1#8 (by decide) (by decide) (by decide) rfl
  exact absurd this (by decide)

end Aquila.Bridge
