import Mathlib.Data.List.GetD
import Mathlib.Data.BitVec

/-! # EEPROM regions

The `Persist` layer allocates consecutive regions of the EEPROM and checks every
block access against its own region. Addresses are 16-bit and wrap.
-/

namespace Aquila

abbrev Byte := BitVec 8
abbrev Word := BitVec 16

/-- Results of the storage calls: `PERSIST_OK` and `PDB_OK`, `PERSIST_ERROR` and
`PDB_ERROR`, and `PDB_FORMATED`. -/
inductive Status where
  | ok
  | error
  | formated
  deriving DecidableEq, Repr

def eepromSize : ℕ := 8192

/-- The EEPROM cells, with the history of the block writes made to them. -/
structure Eeprom where
  cell : Word → Byte
  written : List (Word × List Byte)

namespace Eeprom

/-- `eeprom_read_block` -/
def readBlock (rom : Eeprom) (start : Word) (size : ℕ) : List Byte :=
  (List.range size).map (fun i => rom.cell (start + BitVec.ofNat 16 i))

/-- `eeprom_write_block` -/
def writeBlock (rom : Eeprom) (start : Word) (src : List Byte) : Eeprom where
  cell a := src.getD (a - start).toNat (rom.cell a)
  written := rom.written ++ [(start, src)]

/-- `eeprom_write_byte` -/
def writeByte (rom : Eeprom) (address : Word) (value : Byte) : Eeprom :=
  rom.writeBlock address [value]

@[simp] theorem length_readBlock (rom : Eeprom) (start : Word) (size : ℕ) :
    (rom.readBlock start size).length = size := by
  simp [readBlock]

theorem writeBlock_inside (rom : Eeprom) (start : Word) (src : List Byte) {i : ℕ}
    (hi : i < src.length) (hsize : src.length ≤ 2 ^ 16) :
    (rom.writeBlock start src).cell (start + BitVec.ofNat 16 i) = src.getD i 0 := by
  have hoff : (start + BitVec.ofNat 16 i - start).toNat = i := by
    rw [BitVec.add_comm, BitVec.add_sub_cancel, BitVec.toNat_ofNat]
    exact Nat.mod_eq_of_lt (by omega)
  simp only [writeBlock, hoff]
  rw [List.getD_eq_getElem _ _ hi, List.getD_eq_getElem _ _ hi]

theorem writeBlock_outside (rom : Eeprom) (start : Word) (src : List Byte) (a : Word)
    (h : src.length ≤ (a - start).toNat) : (rom.writeBlock start src).cell a = rom.cell a :=
  List.getD_eq_default _ _ h

private theorem offset_toNat (base : Word) {i j : ℕ} (hi : i < 2 ^ 16) (hj : j < 2 ^ 16) :
    (base + BitVec.ofNat 16 i - (base + BitVec.ofNat 16 j)).toNat =
      if j ≤ i then i - j else 2 ^ 16 + i - j := by
  have h : base + BitVec.ofNat 16 i - (base + BitVec.ofNat 16 j) =
      BitVec.ofNat 16 i - BitVec.ofNat 16 j := by
    bv_omega
  rw [h, BitVec.toNat_sub, BitVec.toNat_ofNat, BitVec.toNat_ofNat, Nat.mod_eq_of_lt hi,
    Nat.mod_eq_of_lt hj]
  split <;> omega

/-- A block write is invisible to the read of a disjoint block of the same region. -/
theorem readBlock_writeBlock_disjoint (rom : Eeprom) (base : Word) {i j n : ℕ} (src : List Byte)
    (hi : i + n ≤ 2 ^ 16) (hj : j + src.length ≤ 2 ^ 16)
    (hdisjoint : i + n ≤ j ∨ j + src.length ≤ i) :
    (rom.writeBlock (base + BitVec.ofNat 16 j) src).readBlock (base + BitVec.ofNat 16 i) n =
      rom.readBlock (base + BitVec.ofNat 16 i) n := by
  apply List.map_congr_left
  intro m hm
  have hmn : m < n := List.mem_range.mp hm
  rcases Nat.eq_zero_or_pos src.length with h0 | h0
  · exact writeBlock_outside _ _ _ _ (by omega)
  · apply writeBlock_outside
    rw [BitVec.add_assoc, ← BitVec.ofNat_add, offset_toNat base (by omega) (by omega)]
    split <;> omega

theorem readBlock_writeBlock_same (rom : Eeprom) (start : Word) (src : List Byte)
    (hsize : src.length ≤ 2 ^ 16) :
    (rom.writeBlock start src).readBlock start src.length = src := by
  apply List.ext_getElem
  · simp
  · intro i h₁ h₂
    simp only [readBlock, List.getElem_map, List.getElem_range]
    rw [writeBlock_inside _ _ _ h₂ hsize, List.getD_eq_getElem _ _ h₂]

/-- The bytes that were read leave every cell unchanged when they are written back. -/
theorem cell_writeBlock_readBlock (rom : Eeprom) (start : Word) (size : ℕ) :
    (rom.writeBlock start (rom.readBlock start size)).cell = rom.cell := by
  funext a
  by_cases ha : size ≤ (a - start).toNat
  · exact writeBlock_outside _ _ _ _ (by rw [length_readBlock]; exact ha)
  · have hcell : start + BitVec.ofNat 16 (a - start).toNat = a := by
      rw [BitVec.ofNat_toNat, BitVec.setWidth_eq, BitVec.add_comm, BitVec.sub_add_cancel]
    have hread : (a - start).toNat < (rom.readBlock start size).length := by
      rw [length_readBlock]
      exact not_le.mp ha
    simp only [writeBlock]
    rw [List.getD_eq_getElem _ _ hread]
    simp only [readBlock, List.getElem_map, List.getElem_range, hcell]

end Eeprom

structure Persist where
  start : Word
  size : Word
  initialized : Bool
  deriving DecidableEq

namespace Persist

/-- `Persist_init`, with the static `lastAllocatedAddress` passed and returned. -/
def init (lastAllocatedAddress : Word) (self : Persist) (size : Word) : Status × Persist × Word :=
  if lastAllocatedAddress + size ≤ BitVec.ofNat 16 eepromSize then
    (.ok, { start := lastAllocatedAddress, size := size, initialized := true },
      lastAllocatedAddress + size)
  else (.error, { self with initialized := false }, lastAllocatedAddress)

def blockOutside (self : Persist) (address size : Word) : Bool :=
  !self.initialized || decide (self.size ≤ address) || decide (self.size ≤ address + size)

/-- `Persist_read_block`: on an error the destination keeps its bytes. -/
def readBlock (self : Persist) (rom : Eeprom) (dest : List Byte) (address size : Word) :
    Status × List Byte :=
  if self.blockOutside address size then (.error, dest)
  else (.ok, rom.readBlock (self.start + address) size.toNat)

/-- `Persist_write_block` -/
def writeBlock (self : Persist) (rom : Eeprom) (src : List Byte) (address size : Word) :
    Status × Eeprom :=
  if self.blockOutside address size then (.error, rom)
  else (.ok, rom.writeBlock (self.start + address) (src.take size.toNat))

def byteOutside (self : Persist) (address : Word) : Bool :=
  !self.initialized || decide (self.size ≤ address)

/-- `Persist_read`, with the status that it leaves in `lastStatus`. -/
def read (self : Persist) (rom : Eeprom) (address : Word) : Status × Byte :=
  if self.byteOutside address then (.error, 0xFF)
  else (.ok, rom.cell (self.start + address))

/-- `Persist_write` -/
def write (self : Persist) (rom : Eeprom) (address : Word) (value : Byte) : Status × Eeprom :=
  if self.byteOutside address then (.error, rom)
  else (.ok, rom.writeByte (self.start + address) value)

end Persist

end Aquila
