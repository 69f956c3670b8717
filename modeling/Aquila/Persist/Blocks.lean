import Aquila.Persist

/-! # Blocks and bytes of a region

The block interface checks the end of a block with the comparison that the byte
interface makes for its last byte, so it refuses the block that ends with the region.
-/

namespace Aquila

namespace Eeprom

theorem cell_writeBlock_cons (rom : Eeprom) (start : Word) (v : Byte) (vs : List Byte)
    (h : vs.length < 2 ^ 16) (a : Word) :
    (rom.writeBlock start (v :: vs)).cell a =
      ((rom.writeByte start v).writeBlock (start + 1) vs).cell a := by
  by_cases ha : a = start
  · have hlast : (a - (start + 1)).toNat = 2 ^ 16 - 1 := by
      rw [ha]
      bv_omega
    have hfirst : (a - start).toNat = 0 := by
      rw [ha, BitVec.sub_self]
      rfl
    have hafter := writeBlock_outside (rom.writeByte start v) (start + 1) vs a (by omega)
    rw [hafter]
    simp only [writeBlock, writeByte, hfirst, List.getD_cons_zero]
  · have hpos : (a - start).toNat ≠ 0 := by
      intro h0
      apply ha
      bv_omega
    have hnext : (a - start).toNat = (a - (start + 1)).toNat + 1 := by bv_omega
    simp only [writeBlock, writeByte, hnext, List.getD_cons_succ, List.getD_nil]

end Eeprom

namespace Persist

def readEach (self : Persist) (rom : Eeprom) (address : Word) (count : ℕ) : List (Status × Byte) :=
  (List.range count).map (fun i => self.read rom (address + BitVec.ofNat 16 i))

def writeEach (self : Persist) (rom : Eeprom) : Word → List Byte → List Status × Eeprom
  | _, [] => ([], rom)
  | address, v :: vs =>
    let (status, rom) := self.write rom address v
    let (statuses, rom) := self.writeEach rom (address + 1) vs
    (status :: statuses, rom)

def ReadsAgree (self : Persist) (address size : Word) : Prop :=
  ∀ rom dest,
    ((self.readBlock rom dest address size).1 = .ok ↔
      ∀ r ∈ self.readEach rom address size.toNat, r.1 = .ok) ∧
    ((self.readBlock rom dest address size).1 = .ok →
      (self.readBlock rom dest address size).2 =
        (self.readEach rom address size.toNat).map Prod.snd)

def WritesAgree (self : Persist) (address size : Word) : Prop :=
  ∀ rom src, src.length = size.toNat →
    ((self.writeBlock rom src address size).1 = .ok ↔
      ∀ status ∈ (self.writeEach rom address src).1, status = .ok) ∧
    ((self.writeBlock rom src address size).1 = .ok →
      ∀ a, (self.writeBlock rom src address size).2.cell a =
        (self.writeEach rom address src).2.cell a)

theorem read_ok_iff (self : Persist) (rom : Eeprom) (address : Word) :
    (self.read rom address).1 = .ok ↔ self.byteOutside address = false := by
  rw [read]
  split
  case isTrue h => simp [h]
  case isFalse h => simp [h]

theorem write_ok_iff (self : Persist) (rom : Eeprom) (address : Word) (value : Byte) :
    (self.write rom address value).1 = .ok ↔ self.byteOutside address = false := by
  rw [write]
  split
  case isTrue h => simp [h]
  case isFalse h => simp [h]

theorem readBlock_ok_iff (self : Persist) (rom : Eeprom) (dest : List Byte) (address size : Word) :
    (self.readBlock rom dest address size).1 = .ok ↔ self.blockOutside address size = false := by
  rw [readBlock]
  split
  case isTrue h => simp [h]
  case isFalse h => simp [h]

theorem writeBlock_ok_iff (self : Persist) (rom : Eeprom) (src : List Byte) (address size : Word) :
    (self.writeBlock rom src address size).1 = .ok ↔ self.blockOutside address size = false := by
  rw [writeBlock]
  split
  case isTrue h => simp [h]
  case isFalse h => simp [h]

def BytesInside (self : Persist) (address : Word) (count : ℕ) : Prop :=
  ∀ i < count, self.byteOutside (address + BitVec.ofNat 16 i) = false

theorem bytesInside_succ (self : Persist) (address : Word) (count : ℕ) :
    self.BytesInside address (count + 1) ↔
      self.byteOutside address = false ∧ self.BytesInside (address + 1) count := by
  have hfirst : address + BitVec.ofNat 16 0 = address := BitVec.add_zero address
  have hnext : ∀ i, address + BitVec.ofNat 16 (i + 1) = address + 1 + BitVec.ofNat 16 i := by
    intro i
    rw [BitVec.ofNat_add, BitVec.add_comm (BitVec.ofNat 16 i), BitVec.add_assoc]
    rfl
  rw [BytesInside, Nat.forall_lt_succ_left, hfirst]
  simp only [hnext]
  rfl

theorem readEach_ok_iff (self : Persist) (rom : Eeprom) (address : Word) (count : ℕ) :
    (∀ r ∈ self.readEach rom address count, r.1 = .ok) ↔ self.BytesInside address count := by
  rw [readEach, List.forall_mem_map]
  simp only [List.mem_range, read_ok_iff]
  rfl

theorem writeEach_ok_iff (self : Persist) (rom : Eeprom) (address : Word) (src : List Byte) :
    (∀ status ∈ (self.writeEach rom address src).1, status = .ok) ↔
      self.BytesInside address src.length := by
  induction src generalizing rom address with
  | nil => simp [writeEach, BytesInside]
  | cons v vs ih =>
    rw [writeEach, List.forall_mem_cons, write_ok_iff, ih, List.length_cons, bytesInside_succ]

/-- Bytes written one by one, all inside the region, are the block write of them. -/
theorem cell_writeEach (self : Persist) (rom : Eeprom) (address : Word) (src : List Byte)
    (hsize : src.length < 2 ^ 16) (h : self.BytesInside address src.length) (a : Word) :
    (self.writeEach rom address src).2.cell a =
      (rom.writeBlock (self.start + address) src).cell a := by
  induction src generalizing rom address with
  | nil => simp [writeEach, Eeprom.writeBlock]
  | cons v vs ih =>
    rw [List.length_cons] at hsize h
    rcases (self.bytesInside_succ address vs.length).mp h with ⟨hfirst, hrest⟩
    have hwrite : (self.write rom address v).2 = rom.writeByte (self.start + address) v := by
      rw [write, hfirst]
      rfl
    have hstart : self.start + (address + 1) = self.start + address + 1 := by
      rw [BitVec.add_assoc]
    rw [writeEach, ih _ _ (by omega) hrest, hwrite, hstart]
    exact (Eeprom.cell_writeBlock_cons rom (self.start + address) v vs (by omega) a).symm

theorem bytesInside_iff {self : Persist} (hinit : self.initialized = true) {address size : Word}
    (hsum : address.toNat + size.toNat < 2 ^ 16) :
    self.BytesInside address size.toNat ↔
      size = 0 ∨ address.toNat + size.toNat ≤ self.size.toNat := by
  have hbyte : ∀ i < size.toNat, (self.byteOutside (address + BitVec.ofNat 16 i) = false ↔
      address.toNat + i < self.size.toNat) := by
    intro i hi
    have haddress : (address + BitVec.ofNat 16 i).toNat = address.toNat + i := by
      rw [BitVec.toNat_add, BitVec.toNat_ofNat, Nat.mod_eq_of_lt (by omega),
        Nat.mod_eq_of_lt (by omega)]
    simp [byteOutside, hinit, BitVec.le_def, haddress]
  have hzero : size = 0 ↔ size.toNat = 0 := by bv_omega
  rw [hzero]
  constructor
  · intro h
    rcases Nat.eq_zero_or_pos size.toNat with h0 | h0
    · exact Or.inl h0
    · have := (hbyte (size.toNat - 1) (by omega)).mp (h _ (by omega))
      omega
  · intro h i hi
    rw [hbyte i hi]
    omega

/-- The block check asks for one byte more, also of an empty block. -/
theorem blockInside_iff {self : Persist} (hinit : self.initialized = true) {address size : Word}
    (hsum : address.toNat + size.toNat < 2 ^ 16) :
    self.blockOutside address size = false ↔ address.toNat + size.toNat < self.size.toNat := by
  have hend : (address + size).toNat = address.toNat + size.toNat := by
    rw [BitVec.toNat_add, Nat.mod_eq_of_lt hsum]
  simp only [blockOutside, hinit, BitVec.le_def, hend, Bool.not_true, Bool.false_or,
    Bool.or_eq_false_iff, decide_eq_false_iff_not]
  omega

theorem readBlock_value {self : Persist} (rom : Eeprom) (dest : List Byte) {address size : Word}
    (hblock : self.blockOutside address size = false)
    (hbytes : self.BytesInside address size.toNat) :
    (self.readBlock rom dest address size).2 =
      (self.readEach rom address size.toNat).map Prod.snd := by
  rw [readBlock, hblock, readEach, List.map_map]
  apply List.map_congr_left
  intro i hi
  have hbyte := hbytes i (List.mem_range.mp hi)
  rw [Function.comp_apply, read, hbyte, BitVec.add_assoc]
  rfl

theorem cell_writeBlock_value {self : Persist} (rom : Eeprom) {src : List Byte}
    {address size : Word} (hsrc : src.length = size.toNat)
    (hblock : self.blockOutside address size = false)
    (hbytes : self.BytesInside address size.toNat) (a : Word) :
    (self.writeBlock rom src address size).2.cell a =
      (self.writeEach rom address src).2.cell a := by
  rw [self.cell_writeEach rom address src (hsrc ▸ size.isLt) (hsrc ▸ hbytes) a, writeBlock, hblock,
    ← hsrc, List.take_length]
  rfl

/-- Both interfaces accept the same blocks, with the same effect. -/
def InterfacesAgree (self : Persist) (address size : Word) : Prop :=
  self.ReadsAgree address size ∧ self.WritesAgree address size

/-- The interfaces agree exactly on the blocks that do not end with the region and are not empty
past its end. -/
theorem interfacesAgree_iff (self : Persist) (hinit : self.initialized = true)
    (address size : Word) (hsum : address.toNat + size.toNat < 2 ^ 16) :
    self.InterfacesAgree address size ↔
      address.toNat + size.toNat ≠ self.size.toNat ∧
        (size = 0 → address.toNat < self.size.toNat) := by
  have hbytes := bytesInside_iff hinit hsum
  have hblock := blockInside_iff hinit hsum
  have hzero : size = 0 ↔ size.toNat = 0 := by bv_omega
  have haccept : (self.blockOutside address size = false ↔ self.BytesInside address size.toNat) ↔
      address.toNat + size.toNat ≠ self.size.toNat ∧
        (size = 0 → address.toNat < self.size.toNat) := by
    rw [hbytes, hblock, hzero]
    omega
  rw [← haccept]
  constructor
  · intro h
    have hread := (h.1 ⟨0, []⟩ []).1
    rwa [readBlock_ok_iff, readEach_ok_iff] at hread
  · intro h
    constructor
    · intro rom dest
      rw [readBlock_ok_iff, readEach_ok_iff]
      exact ⟨h, fun hok => readBlock_value rom dest hok (h.mp hok)⟩
    · intro rom src hsrc
      rw [writeBlock_ok_iff, writeEach_ok_iff, hsrc]
      exact ⟨h, fun hok a => cell_writeBlock_value rom hsrc hok (h.mp hok) a⟩

theorem interfacesAgree_inner :
    (⟨0, 16, true⟩ : Persist).InterfacesAgree 14 1 ↔
      (14 : Word).toNat + (1 : Word).toNat ≠ (16 : Word).toNat ∧
        ((1 : Word) = 0 → (14 : Word).toNat < (16 : Word).toNat) :=
  interfacesAgree_iff ⟨0, 16, true⟩ rfl 14 1 (by decide)

/-- The last byte of a region, as a byte and as a block. -/
theorem lastByte_block_refused :
    let self : Persist := ⟨0, 16, true⟩
    (self.read ⟨0, []⟩ 15).1 = .ok ∧ (self.readBlock ⟨0, []⟩ [0] 15 1).1 = .error ∧
      ¬ self.InterfacesAgree 15 1 := by
  intro self
  refine ⟨by decide, by decide, ?_⟩
  intro h
  have hread := (h.1 ⟨0, []⟩ [0]).1
  have : (self.readBlock ⟨0, []⟩ [0] 15 1).1 = .ok := hread.mpr (by decide)
  exact absurd this (by decide)

end Persist

end Aquila
