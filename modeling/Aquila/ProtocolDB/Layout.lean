import Aquila.Persist
import Aquila.Library.SlotTable
import Mathlib.Data.Fintype.Pi
import Mathlib.Tactic.FinCases

/-! # Layout of the protocol database

A header of fifteen bytes, then eighty slots of one twelve-byte entry each. One
index bit of the header marks each slot that holds an entry.
-/

namespace Aquila.ProtocolDB
open Library

/-- A 64-bit EUI address, byte by byte. -/
abbrev EUIAddress := Fin 8 → Byte

structure EntryConfig where
  hasParam : Bool
  reserved : BitVec 7
  deriving DecidableEq

structure Entry where
  config : EntryConfig
  event : Byte
  address : EUIAddress
  action : Byte
  param : Byte
  deriving DecidableEq

/-- `PROTOCOL_NINDEXSECTORS` -/
def nIndexSectors : ℕ := 10

/-- `PROTOCOL_MAXENTRIES` -/
def maxEntries : ℕ := 80

/-- `PROTOCOL_PERSIST_SIZE` -/
def persistSize : ℕ := 1024

/-- `PROTOCOL_ENTRYLEN`, which is `sizeof(Entry)` -/
def entryLen : ℕ := 12

/-- `sizeof(DBHeader)` -/
def headerLen : ℕ := 15

structure DBHeader where
  signature : Fin 3 → Byte
  entrySize : Byte
  nEntries : Byte
  indexSectors : Fin 10 → Byte
  deriving DecidableEq

/-! ### Entries as bytes -/

/-- The one-byte bit field; the flag is its least significant bit. -/
def EntryConfig.toByte (c : EntryConfig) : Byte := c.reserved ++ BitVec.ofBool c.hasParam

def EntryConfig.ofByte (b : Byte) : EntryConfig where
  hasParam := b.getLsbD 0
  reserved := b.extractLsb' 1 7

@[simp] theorem EntryConfig.ofByte_toByte (c : EntryConfig) : ofByte c.toByte = c := by
  rcases c with ⟨flag, rest⟩
  simp only [ofByte, toByte, EntryConfig.mk.injEq]
  constructor
  · rw [BitVec.getLsbD_append]
    simp
  · apply BitVec.eq_of_getLsbD_eq
    intro i hi
    rw [BitVec.getLsbD_extractLsb', BitVec.getLsbD_append]
    simp [hi]

@[simp] theorem EntryConfig.toByte_ofByte (b : Byte) : (ofByte b).toByte = b := by
  apply BitVec.eq_of_getLsbD_eq
  intro i hi
  rw [toByte, ofByte, BitVec.getLsbD_append, BitVec.getLsbD_extractLsb']
  by_cases h : i = 0
  · subst h
    simp
  · have hindex : 1 + (i - 1) = i := by omega
    have hrest : i - 1 < 7 := by omega
    rw [if_neg (by omega), hindex]
    simp [hrest]

def Entry.toBytes (e : Entry) : List Byte :=
  e.config.toByte :: e.event :: (List.ofFn e.address ++ [e.action, e.param])

def Entry.ofBytes (bytes : List Byte) : Entry where
  config := EntryConfig.ofByte (bytes.getD 0 0)
  event := bytes.getD 1 0
  address i := bytes.getD (2 + i) 0
  action := bytes.getD 10 0
  param := bytes.getD 11 0

@[simp] theorem Entry.length_toBytes (e : Entry) : e.toBytes.length = entryLen := by
  simp [toBytes, entryLen]

@[simp] theorem Entry.ofBytes_toBytes (e : Entry) : ofBytes e.toBytes = e := by
  rcases e with ⟨config, event, address, action, param⟩
  simp only [ofBytes, toBytes, Entry.mk.injEq]
  refine ⟨EntryConfig.ofByte_toByte config, rfl, ?_, rfl, rfl⟩
  funext i
  fin_cases i <;> rfl

theorem Entry.toBytes_ofBytes {bytes : List Byte} (h : bytes.length = entryLen) :
    (ofBytes bytes).toBytes = bytes := by
  have hbytes : List.ofFn (fun i : Fin 12 => bytes.getD i 0) = bytes := by
    apply List.ext_getElem
    · rw [List.length_ofFn, h, entryLen]
    · intro i _ hi
      rw [List.getElem_ofFn]
      exact List.getD_eq_getElem bytes 0 hi
  calc (ofBytes bytes).toBytes
      = List.ofFn (fun i : Fin 12 => bytes.getD i 0) := by
        rw [toBytes, ofBytes, EntryConfig.toByte_ofByte]
        rfl
    _ = bytes := hbytes

/-! ### The header as bytes -/

def DBHeader.toBytes (h : DBHeader) : List Byte :=
  List.ofFn h.signature ++ h.entrySize :: h.nEntries :: List.ofFn h.indexSectors

def DBHeader.ofBytes (bytes : List Byte) : DBHeader where
  signature i := bytes.getD i 0
  entrySize := bytes.getD 3 0
  nEntries := bytes.getD 4 0
  indexSectors i := bytes.getD (5 + i) 0

@[simp] theorem DBHeader.length_toBytes (h : DBHeader) : h.toBytes.length = headerLen := by
  simp [toBytes, headerLen]

@[simp] theorem DBHeader.ofBytes_toBytes (h : DBHeader) : ofBytes h.toBytes = h := by
  rcases h with ⟨signature, entrySize, nEntries, indexSectors⟩
  simp only [ofBytes, toBytes, DBHeader.mk.injEq]
  refine ⟨?_, rfl, rfl, ?_⟩
  · funext i
    fin_cases i <;> rfl
  · funext i
    fin_cases i <;> rfl

/-! ### Index bits -/

def DBHeader.sector (h : DBHeader) (i : ℕ) : Byte :=
  if hi : i < 10 then h.indexSectors ⟨i, hi⟩ else 0

/-- `(header.indexSectors[i] >> bit) & 0x01` -/
def DBHeader.active (h : DBHeader) (i bit : ℕ) : Bool := ((h.sector i >>> bit) &&& 1#8) != 0#8

/-- `header.indexSectors[i] |= (0x01 << bit)` -/
def DBHeader.activate (h : DBHeader) (i bit : ℕ) : DBHeader :=
  { h with indexSectors := fun j =>
      if j.val = i then h.indexSectors j ||| (1#8 <<< bit) else h.indexSectors j }

/-- `header.indexSectors[i] &= ~(0x01 << bit)` -/
def DBHeader.deactivate (h : DBHeader) (i bit : ℕ) : DBHeader :=
  { h with indexSectors := fun j =>
      if j.val = i then h.indexSectors j &&& ~~~(1#8 <<< bit) else h.indexSectors j }

/-- Slot `k` is bit `k % 8` of sector `k / 8`. -/
def DBHeader.slot (h : DBHeader) (k : ℕ) : Bool := h.active (k / 8) (k % 8)

theorem DBHeader.active_eq (h : DBHeader) (i bit : ℕ) :
    h.active i bit = (h.sector i).getLsbD bit := by
  have hbit : ((h.sector i >>> bit) &&& 1#8) = BitVec.setWidth 8
      (BitVec.ofBool ((h.sector i).getLsbD bit)) := by
    rw [BitVec.and_one_eq_setWidth_ofBool_getLsbD, BitVec.getLsbD_ushiftRight, Nat.add_zero]
  rw [active, hbit]
  cases (h.sector i).getLsbD bit <;> rfl

theorem DBHeader.slot_eq_active (h : DBHeader) (i : ℕ) {bit : ℕ} (hbit : bit < 8) :
    h.slot (i * 8 + bit) = h.active i bit := by
  have hsector : (i * 8 + bit) / 8 = i := by omega
  have hindex : (i * 8 + bit) % 8 = bit := by omega
  rw [slot, hsector, hindex]

theorem DBHeader.sector_activate (h : DBHeader) (i bit j : ℕ) (hi : i < 10) :
    (h.activate i bit).sector j = if j = i then h.sector j ||| (1#8 <<< bit) else h.sector j := by
  unfold sector activate
  by_cases hj : j < 10
  · simp [hj]
  · have hne : j ≠ i := by omega
    simp [hj, hne]

theorem DBHeader.sector_deactivate (h : DBHeader) (i bit j : ℕ) (hi : i < 10) :
    (h.deactivate i bit).sector j =
      if j = i then h.sector j &&& ~~~(1#8 <<< bit) else h.sector j := by
  unfold sector deactivate
  by_cases hj : j < 10
  · simp [hj]
  · have hne : j ≠ i := by omega
    simp [hj, hne]

private theorem one_shiftLeft_getLsbD {bit j : ℕ} (hj : j < 8) :
    (1#8 <<< bit).getLsbD j = decide (j = bit) := by
  rw [BitVec.getLsbD_shiftLeft, BitVec.getLsbD_one]
  by_cases h : j < bit
  · simp [h, Nat.ne_of_lt h]
  · by_cases he : j = bit
    · subst he
      simp [hj]
    · have : j - bit ≠ 0 := by omega
      simp [h, he, this]

theorem DBHeader.slot_activate (h : DBHeader) {i bit : ℕ} (hi : i < 10) (hbit : bit < 8) :
    (h.activate i bit).slot = Function.update h.slot (i * 8 + bit) true := by
  funext k
  rw [slot, active_eq, sector_activate h i bit _ hi, Function.update_apply]
  by_cases hk : k / 8 = i
  · rw [if_pos hk, BitVec.getLsbD_or, one_shiftLeft_getLsbD (Nat.mod_lt _ (by omega))]
    by_cases hb : k % 8 = bit
    · rw [if_pos (by omega)]
      simp [hb]
    · rw [if_neg (by omega), slot, active_eq]
      simp [hb]
  · rw [if_neg hk, if_neg (by omega), slot, active_eq]

theorem DBHeader.slot_deactivate (h : DBHeader) {i bit : ℕ} (hi : i < 10) (hbit : bit < 8) :
    (h.deactivate i bit).slot = Function.update h.slot (i * 8 + bit) false := by
  funext k
  have hk8 : k % 8 < 8 := Nat.mod_lt _ (by omega)
  rw [slot, active_eq, sector_deactivate h i bit _ hi, Function.update_apply]
  by_cases hk : k / 8 = i
  · rw [if_pos hk, BitVec.getLsbD_and, BitVec.getLsbD_not, one_shiftLeft_getLsbD hk8]
    by_cases hb : k % 8 = bit
    · rw [if_pos (by omega)]
      simp [hb]
    · rw [if_neg (by omega), slot, active_eq]
      simp [hb, hk8]
  · rw [if_neg hk, if_neg (by omega), slot, active_eq]

end Aquila.ProtocolDB
