import Aquila.ProtocolDB.Layout
import Mathlib.Data.Fin.VecNotation

/-! # Database operations

The functions of `ProtocolDB.c`. A header that was declared but could not be read
keeps the bytes it had, so every operation takes the previous contents of its
local header; the iterator position lives in the store, as it does in the file.
-/

namespace Aquila.ProtocolDB
open Library SlotTable

/-- A position of the index scan with the number of set bits passed so far. -/
structure Cursor where
  sector : ℕ
  bit : ℕ
  count : ℕ
  deriving DecidableEq

/-- The statics of the database and the EEPROM behind them. -/
structure Store where
  persist : Persist
  rom : Eeprom
  current : Cursor
  currentEntry : Byte

/-- `PDB_Action`, with the entry pointer the action uses. -/
inductive Action where
  | get (entry : Entry)
  | set (entry : Entry)
  | del

/-- What a database call returns: its status, the entry it filled in, the store, and
the scan position it stopped at. -/
structure Outcome where
  status : Status
  entry : Option Entry
  store : Store
  cursor : Cursor

namespace Store

/-- `PDB_readHeader` -/
def readHeader (db : Store) (header : DBHeader) : Status × DBHeader :=
  let (status, bytes) := db.persist.readBlock db.rom header.toBytes 0 (BitVec.ofNat 16 headerLen)
  (status, DBHeader.ofBytes bytes)

/-- `PDB__writeHeader` -/
def writeHeader (db : Store) (header : DBHeader) : Status × Store :=
  let (status, rom) := db.persist.writeBlock db.rom header.toBytes 0 (BitVec.ofNat 16 headerLen)
  (status, { db with rom := rom })

def slotAddress (absEntry : Byte) : Word :=
  BitVec.ofNat 16 headerLen + BitVec.ofNat 16 entryLen * absEntry.setWidth 16

/-- `PDB__writeEntry` -/
def writeEntry (db : Store) (entry : Entry) (absEntry : Byte) : Status × Store :=
  let (status, rom) := db.persist.writeBlock db.rom entry.toBytes (slotAddress absEntry)
    (BitVec.ofNat 16 entryLen)
  (status, { db with rom := rom })

/-- `PDB__readEntry` -/
def readEntry (db : Store) (entry : Entry) (absEntry : Byte) : Status × Entry :=
  let (status, bytes) := db.persist.readBlock db.rom entry.toBytes (slotAddress absEntry)
    (BitVec.ofNat 16 entryLen)
  (status, Entry.ofBytes bytes)

end Store

/-- How the inner seek loop ends: at the bit of the wanted entry, or after its sector. -/
inductive BitScan where
  | found (bit count : ℕ)
  | passed (count : ℕ)

/-- How the seek ends, with the scan position it leaves. -/
inductive Seek where
  | found (cursor : Cursor)
  | missed (cursor : Cursor)

namespace DBHeader

/-- The inner loop of the seek, over the `left` remaining bits of sector `i`. -/
def scanBits (h : DBHeader) (nEntry : Byte) (i : ℕ) : (left bit count : ℕ) → BitScan
  | 0, _, count => .passed count
  | left + 1, bit, count =>
    if h.active i bit then
      if count = nEntry.toNat then .found bit count
      else h.scanBits nEntry i left (bit + 1) (count + 1)
    else h.scanBits nEntry i left (bit + 1) count

/-- The outer loop of the seek, over the `left` remaining sectors from sector `i`. -/
def scanSectors (h : DBHeader) (nEntry : Byte) : (left i bit count : ℕ) → Seek
  | 0, i, bit, count => .missed ⟨i, bit, count⟩
  | left + 1, i, bit, count =>
    match h.scanBits nEntry i (8 - bit) bit count with
    | .found bit' count' => .found ⟨i, bit', count'⟩
    | .passed count' => h.scanSectors nEntry left (i + 1) 0 count'

def seek (h : DBHeader) (nEntry : Byte) (start : Cursor) : Seek :=
  h.scanSectors nEntry (nIndexSectors - start.sector) start.sector start.bit start.count

/-- The first clear bit among the `left` remaining bits of sector `i`. -/
def freeBit (h : DBHeader) (i : ℕ) : (left bit : ℕ) → Option ℕ
  | 0, _ => none
  | left + 1, bit => if !h.active i bit then some bit else h.freeBit i left (bit + 1)

/-- The first sector and bit that are clear among the `left` remaining sectors. -/
def freeSlot (h : DBHeader) : (left i : ℕ) → Option (ℕ × ℕ)
  | 0, _ => none
  | left + 1, i =>
    match h.freeBit i 8 0 with
    | some bit => some (i, bit)
    | none => h.freeSlot left (i + 1)

def occupy (h : DBHeader) (i bit : ℕ) : DBHeader :=
  { h.activate i bit with nEntries := h.nEntries + 1 }

def release (h : DBHeader) (i bit : ℕ) : DBHeader :=
  { h.deactivate i bit with nEntries := h.nEntries - 1 }

end DBHeader

namespace Store

/-- `PDB__getSetDelEntry`, with the scan position in place of its three pointers. -/
def getSetDelEntry (db : Store) (header : DBHeader) (action : Action) (nEntry : Byte)
    (start : Cursor) : Outcome :=
  let header := (db.readHeader header).2
  let unchanged := match action with
    | .get entry => some entry
    | .set entry => some entry
    | .del => none
  if !decide (nEntry < header.nEntries) then ⟨.error, unchanged, db, start⟩
  else
    match header.seek nEntry start with
    | .missed cursor => ⟨.error, unchanged, db, cursor⟩
    | .found cursor =>
      let absEntry := BitVec.ofNat 8 (cursor.sector * 8 + cursor.bit)
      match action with
      | .get entry => ⟨.ok, some (db.readEntry entry absEntry).2, db, cursor⟩
      | .set entry => ⟨.ok, some entry, (db.writeEntry entry absEntry).2, cursor⟩
      | .del =>
        ⟨.ok, none, (db.writeHeader (header.release cursor.sector cursor.bit)).2, cursor⟩

/-- `PDBsignature` -/
def signature : Fin 3 → Byte := ![109#8, 97#8, 107#8]

/-- `PDB_format` -/
def format (db : Store) : Status × Store :=
  db.writeHeader
    { signature := signature, entrySize := BitVec.ofNat 8 entryLen, nEntries := 0,
      indexSectors := fun _ => 0 }

/-- `PDB_init` -/
def init (db : Store) (header : DBHeader) (lastAllocatedAddress : Word) : Status × Store × Word :=
  match db.persist.init lastAllocatedAddress (BitVec.ofNat 16 persistSize) with
  | (.ok, persist, last) =>
    let db := { db with persist := persist }
    let header := (db.readHeader header).2
    if header.signature ≠ signature ∨ header.entrySize ≠ BitVec.ofNat 8 entryLen then
      match db.format with
      | (.ok, db) => (.formated, db, last)
      | (_, db) => (.error, db, last)
    else (.ok, db, last)
  | (_, persist, last) => (.error, { db with persist := persist }, last)

/-- `PDB_appendEntry` -/
def appendEntry (db : Store) (header : DBHeader) (entry : Entry) : Status × Store :=
  let header := (db.readHeader header).2
  if !decide (header.nEntries < BitVec.ofNat 8 maxEntries) then (.error, db)
  else
    match header.freeSlot nIndexSectors 0 with
    | none => (.error, db)
    | some (i, bit) =>
      let db := (db.writeEntry entry (BitVec.ofNat 8 (i * 8 + bit))).2
      (.ok, (db.writeHeader (header.occupy i bit)).2)

/-- The start of the index, used when no scan position is passed in. -/
def origin : Cursor := ⟨0, 0, 0⟩

/-- `PDB_getEntry` -/
def getEntry (db : Store) (header : DBHeader) (entry : Entry) (nEntry : Byte) : Outcome :=
  db.getSetDelEntry header (.get entry) nEntry origin

/-- `PDB_setEntry` -/
def setEntry (db : Store) (header : DBHeader) (entry : Entry) (nEntry : Byte) : Outcome :=
  db.getSetDelEntry header (.set entry) nEntry origin

/-- `PDB_delEntry` -/
def delEntry (db : Store) (header : DBHeader) (nEntry : Byte) : Outcome :=
  db.getSetDelEntry header .del nEntry origin

/-- `PDB_iteratorBegin` -/
def iteratorBegin (db : Store) : Store := { db with current := origin, currentEntry := 0 }

/-- `PDB_iteratorGetNextEntry` -/
def iteratorGetNextEntry (db : Store) (header : DBHeader) (entry : Entry) :
    Status × Option Entry × Store :=
  let outcome := db.getSetDelEntry header (.get entry) db.currentEntry db.current
  (outcome.status, outcome.entry,
    { outcome.store with current := outcome.cursor, currentEntry := db.currentEntry + 1 })

end Store

end Aquila.ProtocolDB
