import Aquila.Persist
import Aquila.Library.Memory
import Aquila.Library.Traced

/-! # The 16-bit CRC of the serial frames

`char` is signed and `int` has sixteen bits. The accesses are the offsets read from
or written to the argument buffer.
-/

namespace Aquila.Bridge
open Library

def crcRound (crc : Word) : Word :=
  if crc &&& 0x8000#16 ≠ 0 then (crc <<< 1) ^^^ 0x1021#16 else crc <<< 1

/-- `crc = crc ^ (int) *data++ << 8`, then the eight turns of the inner loop. -/
def crcByte (crc : Word) (c : Byte) : Word := crcRound^[8] (crc ^^^ (c.signExtend 16 <<< 8))

def crcOf (bytes : List Byte) : Word := bytes.foldl crcByte 0

/-- `calcCrc`: a size that is not positive reads nothing. -/
def calcCrc (data : Memory Byte) (size : ℤ) : Traced ℤ Word := do
  Traced.touchBlock (fun i => (i : ℤ)) size.toNat
  pure (crcOf (data.load 0 size.toNat))

/-- The two bytes appended to a message, low byte first. -/
def crcBytes (crc : Word) : List Byte := [crc.setWidth 8, (crc >>> 8).setWidth 8]

def appendCrc (buffer : Memory Byte) (size : ℤ) : Traced ℤ (Memory Byte × ℤ) := do
  let crc ← calcCrc buffer size
  Traced.touch size
  Traced.touch (size + 1)
  pure (buffer.store size (crcBytes crc), size + 2)

def checkCrc (data : Memory Byte) (size : ℤ) : Traced ℤ Bool := do
  Traced.touch (size - 1)
  let crc := (data (size - 1)).signExtend 16
  let crc := crc <<< 8
  Traced.touch (size - 2)
  let crc := crc ||| ((data (size - 2)).signExtend 16 &&& 0x00FF#16)
  let calcdCrc ← calcCrc data (size - 2)
  pure (crc == calcdCrc)

@[simp] theorem value_calcCrc (data : Memory Byte) (size : ℤ) :
    (calcCrc data size).value = crcOf (data.load 0 size.toNat) := rfl

theorem value_appendCrc (buffer : Memory Byte) (size : ℤ) :
    (appendCrc buffer size).value =
      (buffer.store size (crcBytes (crcOf (buffer.load 0 size.toNat))), size + 2) := rfl

theorem signExtend_low (b : Byte) (i : ℕ) :
    (b.signExtend 16 &&& 0x00FF#16).getLsbD i = (decide (i < 8) && b.getLsbD i) := by
  have hmask : (0x00FF#16).getLsbD i = decide (i < 8) := by
    have hall : ∀ j : Fin 16, (0x00FF#16).getLsbD j = decide (j.val < 8) := by decide
    by_cases hi : i < 16
    · exact hall ⟨i, hi⟩
    · rw [BitVec.getLsbD_of_ge _ _ (by omega), decide_eq_false (by omega)]
  rw [BitVec.getLsbD_and, hmask, BitVec.getLsbD_signExtend]
  by_cases hi : i < 8
  · have hi' : i < 16 := by omega
    simp [hi, hi']
  · simp [hi]

/-- The word `checkCrc` assembles from two stored bytes. -/
def storedCrc (low high : Byte) : Word :=
  high.signExtend 16 <<< 8 ||| (low.signExtend 16 &&& 0x00FF#16)

theorem word_of_crcBytes (w : Word) :
    ((w >>> 8).setWidth 8).signExtend 16 <<< 8 |||
      ((w.setWidth 8).signExtend 16 &&& 0x00FF#16) = w := by
  apply BitVec.eq_of_getLsbD_eq
  intro i hi
  rw [BitVec.getLsbD_or, BitVec.getLsbD_shiftLeft, signExtend_low, BitVec.getLsbD_signExtend,
    BitVec.getLsbD_setWidth, BitVec.getLsbD_setWidth, BitVec.getLsbD_ushiftRight]
  by_cases h : i < 8
  · simp [h]
  · have hindex : 8 + (i - 8) = i := by omega
    have hlow : i - 8 < 8 := by omega
    have hword : i - 8 < 16 := by omega
    rw [hindex]
    simp [h, hi, hlow, hword]

/-- What `checkCrc` compares, for a message with two bytes after it. -/
theorem value_checkCrc (data : Memory Byte) (m : List Byte) (low high : Byte)
    (h : data.load 0 (m.length + 2) = m ++ [low, high]) :
    (checkCrc data (m.length + 2)).value = (storedCrc low high == crcOf m) := by
  rw [Memory.load_add] at h
  rcases List.append_inj h (by simp) with ⟨hm, hcrc⟩
  have hlow : data m.length = low := by
    have := congrArg (fun l => l.getD 0 0) hcrc
    simpa [Memory.load] using this
  have hhigh : data (m.length + 1) = high := by
    have := congrArg (fun l => l.getD 1 0) hcrc
    simpa [Memory.load, List.range_succ] using this
  have hsize : ((m.length : ℤ) + 2 - 2) = m.length := by omega
  have hlast : ((m.length : ℤ) + 2 - 1) = m.length + 1 := by omega
  simp only [checkCrc, Traced.value_bind, Traced.value_pure, value_calcCrc, hsize, hlast, hlow,
    hhigh, Int.toNat_natCast, hm, storedCrc]

theorem checkCrc_appended (data : Memory Byte) (m : List Byte)
    (h : data.load 0 (m.length + 2) = m ++ crcBytes (crcOf m)) :
    (checkCrc data (m.length + 2)).value = true := by
  rw [value_checkCrc data m _ _ h, storedCrc, word_of_crcBytes, beq_self_eq_true]

end Aquila.Bridge
