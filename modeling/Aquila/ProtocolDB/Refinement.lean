import Aquila.ProtocolDB.Index
import Aquila.Library.Run

/-! # The database as a list of rules

An open database denotes the list of the entries in its active slots. Each call
acts on that list as a list operation, and keeps the entry counter equal to the
number of set index bits.
-/

namespace Aquila.ProtocolDB
open Library SlotTable

namespace Store

/-- The region was allocated by a successful `PDB_init`. -/
structure Open (db : Store) : Prop where
  initialized : db.persist.initialized = true
  size_eq : db.persist.size = BitVec.ofNat 16 persistSize

def header (db : Store) : DBHeader :=
  DBHeader.ofBytes (db.rom.readBlock (db.persist.start + BitVec.ofNat 16 0) headerLen)

def entryAt (db : Store) (k : ℕ) : Entry :=
  Entry.ofBytes
    (db.rom.readBlock (db.persist.start + BitVec.ofNat 16 (headerLen + entryLen * k)) entryLen)

/-- The rule list: the entries of the active slots, in ascending slot order. -/
def rules (db : Store) : List Entry := contents db.header.slot db.entryAt maxEntries

/-- The entry counter equals the number of set index bits. -/
structure Consistent (db : Store) : Prop extends Open db where
  nEntries_eq : db.header.nEntries.toNat = rank db.header.slot maxEntries

def putHeader (db : Store) (h : DBHeader) : Store :=
  { db with rom := db.rom.writeBlock (db.persist.start + BitVec.ofNat 16 0) h.toBytes }

def putEntry (db : Store) (k : ℕ) (e : Entry) : Store :=
  let address := db.persist.start + BitVec.ofNat 16 (headerLen + entryLen * k)
  { db with rom := db.rom.writeBlock address e.toBytes }

theorem Open.putHeader {db : Store} (hdb : db.Open) (h : DBHeader) : (db.putHeader h).Open :=
  ⟨hdb.initialized, hdb.size_eq⟩

theorem Open.putEntry {db : Store} (hdb : db.Open) (k : ℕ) (e : Entry) : (db.putEntry k e).Open :=
  ⟨hdb.initialized, hdb.size_eq⟩

@[simp] theorem header_putHeader (db : Store) (h : DBHeader) : (db.putHeader h).header = h := by
  have hread := db.rom.readBlock_writeBlock_same (db.persist.start + BitVec.ofNat 16 0) h.toBytes
    (by simp [headerLen])
  rw [DBHeader.length_toBytes] at hread
  simp only [header, putHeader, hread, DBHeader.ofBytes_toBytes]

theorem entryAt_putHeader (db : Store) (h : DBHeader) {k : ℕ} (hk : k < maxEntries) :
    (db.putHeader h).entryAt k = db.entryAt k := by
  simp only [maxEntries] at hk
  simp only [entryAt, putHeader]
  rw [Eeprom.readBlock_writeBlock_disjoint]
  all_goals simp only [DBHeader.length_toBytes, headerLen, entryLen]
  all_goals omega

@[simp] theorem header_putEntry (db : Store) {k : ℕ} (hk : k < maxEntries) (e : Entry) :
    (db.putEntry k e).header = db.header := by
  simp only [maxEntries] at hk
  simp only [header, putEntry]
  rw [Eeprom.readBlock_writeBlock_disjoint]
  all_goals simp only [Entry.length_toBytes, headerLen, entryLen]
  all_goals omega

theorem entryAt_putEntry (db : Store) {j k : ℕ} (hj : j < maxEntries) (hk : k < maxEntries)
    (e : Entry) : (db.putEntry k e).entryAt j = Function.update db.entryAt k e j := by
  simp only [maxEntries] at hj hk
  by_cases hjk : j = k
  · subst hjk
    have hread := db.rom.readBlock_writeBlock_same
      (db.persist.start + BitVec.ofNat 16 (headerLen + entryLen * j)) e.toBytes
      (by simp [entryLen])
    rw [Entry.length_toBytes] at hread
    simp only [entryAt, putEntry, hread, Entry.ofBytes_toBytes, Function.update_self]
  · rw [Function.update_of_ne hjk]
    simp only [entryAt, putEntry]
    rw [Eeprom.readBlock_writeBlock_disjoint]
    all_goals simp only [Entry.length_toBytes, headerLen, entryLen]
    all_goals omega

/-! ### Block accesses of an open database -/

theorem slotAddress_ofNat {k : ℕ} (hk : k < maxEntries) :
    slotAddress (BitVec.ofNat 8 k) = BitVec.ofNat 16 (headerLen + entryLen * k) := by
  simp only [maxEntries] at hk
  have hbyte : k % 2 ^ 8 = k := Nat.mod_eq_of_lt (by omega)
  have hword : k % 2 ^ 16 = k := Nat.mod_eq_of_lt (by omega)
  apply BitVec.eq_of_toNat_eq
  simp only [slotAddress, headerLen, entryLen, BitVec.toNat_add, BitVec.toNat_mul,
    BitVec.toNat_setWidth, BitVec.toNat_ofNat, hbyte, hword]
  omega

theorem Open.block_inside {db : Store} (hdb : db.Open) {i n : ℕ} (hi : i + n < persistSize) :
    db.persist.blockOutside (BitVec.ofNat 16 i) (BitVec.ofNat 16 n) = false := by
  simp only [persistSize] at hi
  simp only [Persist.blockOutside, hdb.initialized, hdb.size_eq, persistSize, BitVec.le_def,
    BitVec.toNat_add, BitVec.toNat_ofNat, Bool.not_true, Bool.false_or, Bool.or_eq_false_iff,
    decide_eq_false_iff_not]
  omega

theorem Open.readHeader {db : Store} (hdb : db.Open) (junk : DBHeader) :
    db.readHeader junk = (.ok, db.header) := by
  have hblock : db.persist.blockOutside 0 (BitVec.ofNat 16 headerLen) = false :=
    hdb.block_inside (i := 0) (by decide)
  simp only [Store.readHeader, Persist.readBlock, hblock]
  rfl

theorem Open.writeHeader {db : Store} (hdb : db.Open) (h : DBHeader) :
    db.writeHeader h = (.ok, db.putHeader h) := by
  have hblock : db.persist.blockOutside 0 (BitVec.ofNat 16 headerLen) = false :=
    hdb.block_inside (i := 0) (by decide)
  have htake : h.toBytes.take (BitVec.ofNat 16 headerLen).toNat = h.toBytes :=
    List.take_of_length_le (by simp [headerLen])
  simp only [Store.writeHeader, Persist.writeBlock, hblock, htake]
  rfl

theorem Open.readEntry {db : Store} (hdb : db.Open) (junk : Entry) {k : ℕ} (hk : k < maxEntries) :
    db.readEntry junk (BitVec.ofNat 8 k) = (.ok, db.entryAt k) := by
  have hblock := hdb.block_inside (i := headerLen + entryLen * k) (n := entryLen)
    (by simp only [headerLen, entryLen, maxEntries, persistSize] at hk ⊢; omega)
  simp only [Store.readEntry, Persist.readBlock, slotAddress_ofNat hk, hblock, entryAt]
  rfl

theorem Open.writeEntry {db : Store} (hdb : db.Open) (e : Entry) {k : ℕ} (hk : k < maxEntries) :
    db.writeEntry e (BitVec.ofNat 8 k) = (.ok, db.putEntry k e) := by
  have hblock := hdb.block_inside (i := headerLen + entryLen * k) (n := entryLen)
    (by simp only [headerLen, entryLen, maxEntries, persistSize] at hk ⊢; omega)
  have htake : e.toBytes.take (BitVec.ofNat 16 entryLen).toNat = e.toBytes :=
    List.take_of_length_le (by simp [entryLen])
  simp only [Store.writeEntry, Persist.writeBlock, slotAddress_ofNat hk, hblock, htake,
    Store.putEntry]
  rfl

/-! ### Rewriting the header and the slots -/

theorem rules_putHeader (db : Store) (h : DBHeader) :
    (db.putHeader h).rules = contents h.slot db.entryAt maxEntries := by
  rw [rules, header_putHeader]
  exact contents_congr (fun _ _ => rfl) (fun k hk _ => db.entryAt_putHeader h hk)

theorem Consistent.toNat_le {db : Store} (hdb : db.Consistent) :
    db.header.nEntries.toNat ≤ maxEntries :=
  hdb.nEntries_eq ▸ rank_le _ _

theorem Consistent.length_rules {db : Store} (hdb : db.Consistent) :
    db.rules.length = db.header.nEntries.toNat := by
  rw [rules, length_contents, hdb.nEntries_eq]

/-- Overwriting an active slot replaces one rule. -/
theorem Consistent.putEntry {db : Store} (hdb : db.Consistent) {k : ℕ} (hk : k < maxEntries)
    (hactive : db.header.slot k = true) (e : Entry) :
    (db.putEntry k e).Consistent ∧
      (db.putEntry k e).rules = db.rules.set (rank db.header.slot k) e := by
  constructor
  · refine ⟨hdb.toOpen.putEntry k e, ?_⟩
    rw [header_putEntry db hk]
    exact hdb.nEntries_eq
  · rw [rules, header_putEntry db hk, rules, ← contents_overwrite _ e hk hactive]
    exact contents_congr (fun _ _ => rfl) (fun j hj _ => db.entryAt_putEntry hj hk e)

/-- Clearing the index bit of an active slot removes one rule. -/
theorem Consistent.remove {db : Store} (hdb : db.Consistent) (c : Cursor)
    (hbit : c.bit < 8) (hk : c.position < maxEntries)
    (hactive : db.header.slot c.position = true) :
    (db.putHeader (db.header.release c.sector c.bit)).Consistent ∧
      (db.putHeader (db.header.release c.sector c.bit)).rules =
        db.rules.eraseIdx (rank db.header.slot c.position) := by
  have hsector : c.sector < 10 := by
    simp only [Cursor.position, maxEntries] at hk
    omega
  have hslot : (db.header.release c.sector c.bit).slot =
      Function.update db.header.slot c.position false := db.header.slot_deactivate hsector hbit
  have hrank := rank_deactivate hk hactive
  have hle := hdb.toNat_le
  constructor
  · refine ⟨hdb.toOpen.putHeader _, ?_⟩
    rw [header_putHeader, hslot]
    change (db.header.nEntries - 1).toNat = _
    rw [← hdb.nEntries_eq] at hrank
    simp only [maxEntries] at hle
    have hone : (1 : Byte).toNat = 1 := rfl
    rw [BitVec.toNat_sub, hone]
    omega
  · rw [rules_putHeader, hslot, contents_deactivate _ hk hactive, rules]

/-- Filling a free slot inserts one rule. -/
theorem Consistent.add {db : Store} (hdb : db.Consistent) {i bit : ℕ} (hi : i < 10)
    (hbit : bit < 8) (hfree : db.header.slot (i * 8 + bit) = false) (e : Entry) :
    ((db.putEntry (i * 8 + bit) e).putHeader (db.header.occupy i bit)).Consistent ∧
      ((db.putEntry (i * 8 + bit) e).putHeader (db.header.occupy i bit)).rules =
        db.rules.insertIdx (rank db.header.slot (i * 8 + bit)) e := by
  have hk : i * 8 + bit < maxEntries := by
    simp only [maxEntries]
    omega
  have hslot : (db.header.occupy i bit).slot =
      Function.update db.header.slot (i * 8 + bit) true := db.header.slot_activate hi hbit
  have hrank := rank_activate hk hfree
  have hle := hdb.toNat_le
  constructor
  · refine ⟨(hdb.toOpen.putEntry _ e).putHeader _, ?_⟩
    rw [header_putHeader, hslot, hrank, ← hdb.nEntries_eq]
    change (db.header.nEntries + 1).toNat = _
    simp only [maxEntries] at hle
    have hone : (1 : Byte).toNat = 1 := rfl
    rw [BitVec.toNat_add, hone]
    omega
  · rw [rules_putHeader, hslot, rules, ← contents_activate _ e hk hfree]
    exact contents_congr (fun _ _ => rfl) (fun j hj _ => db.entryAt_putEntry hj hk e)

/-! ### What each call does -/

theorem Open.format {db : Store} (hdb : db.Open) :
    db.format.1 = .ok ∧ db.format.2.Consistent ∧ db.format.2.rules = [] := by
  rw [Store.format, hdb.writeHeader]
  refine ⟨rfl, ⟨hdb.putHeader _, ?_⟩, ?_⟩
  · rw [header_putHeader]
    decide
  · rw [rules_putHeader]
    rfl

/-- An entry number past the list is refused without a write. -/
theorem Consistent.seek_past {db : Store} (hdb : db.Consistent) (junk : DBHeader)
    (action : Action) (n : Byte) (start : Cursor) (hn : db.rules.length ≤ n.toNat) :
    (db.getSetDelEntry junk action n start).status = .error ∧
      (db.getSetDelEntry junk action n start).store = db := by
  rw [hdb.length_rules] at hn
  have hlt : ¬ n < db.header.nEntries := by
    rw [BitVec.lt_def]
    omega
  simp [getSetDelEntry, hdb.toOpen.readHeader, hlt]

theorem Consistent.seek_listed {db : Store} (hdb : db.Consistent) (n : Byte)
    (hn : n.toNat < db.rules.length) :
    n < db.header.nEntries ∧ ∃ c, db.header.seek n origin = .found c ∧ c.bit < 8 ∧
      c.position < maxEntries ∧ db.header.slot c.position = true ∧
      rank db.header.slot c.position = n.toNat := by
  rw [hdb.length_rules] at hn
  obtain ⟨c, hseek, hvalid, hpos, hactive, hcount⟩ := db.header.seek_found n origin
    (origin_valid _) (Nat.zero_le _) (hdb.nEntries_eq ▸ hn)
  exact ⟨hn, c, hseek, hvalid.bit_lt, hpos, hactive, hvalid.count_eq ▸ hcount⟩

theorem Consistent.getEntry_listed {db : Store} (hdb : db.Consistent) (junk : DBHeader) (e : Entry)
    (n : Byte) (hn : n.toNat < db.rules.length) :
    (db.getEntry junk e n).status = .ok ∧ (db.getEntry junk e n).entry = db.rules[n.toNat]? ∧
      (db.getEntry junk e n).store = db := by
  rcases hdb.seek_listed n hn with ⟨hlt, c, hseek, _, hpos, hactive, hrank⟩
  have hget : db.rules[n.toNat]? = some (db.entryAt c.position) :=
    hrank ▸ contents_getElem? _ hpos hactive
  rw [hget]
  have hread := hdb.toOpen.readEntry e hpos
  simp only [Cursor.position] at hread
  simp [getEntry, getSetDelEntry, hdb.toOpen.readHeader, hlt, hseek, hread, Cursor.position]

theorem Consistent.setEntry_slot {db : Store} (hdb : db.Consistent) (junk : DBHeader) (e : Entry)
    (n : Byte) (hn : n.toNat < db.rules.length) :
    ∃ k < maxEntries, db.header.slot k = true ∧ rank db.header.slot k = n.toNat ∧
      (db.setEntry junk e n).status = .ok ∧ (db.setEntry junk e n).store = db.putEntry k e := by
  rcases hdb.seek_listed n hn with ⟨hlt, c, hseek, _, hpos, hactive, hrank⟩
  have hwrite := hdb.toOpen.writeEntry e hpos
  refine ⟨c.position, hpos, hactive, hrank, ?_⟩
  simp only [Cursor.position] at hwrite
  simp [setEntry, getSetDelEntry, hdb.toOpen.readHeader, hlt, hseek, hwrite, Cursor.position]

theorem Consistent.setEntry_listed {db : Store} (hdb : db.Consistent) (junk : DBHeader) (e : Entry)
    (n : Byte) (hn : n.toNat < db.rules.length) :
    (db.setEntry junk e n).status = .ok ∧ (db.setEntry junk e n).store.Consistent ∧
      (db.setEntry junk e n).store.rules = db.rules.set n.toNat e := by
  rcases hdb.setEntry_slot junk e n hn with ⟨k, hk, hactive, hrank, hstatus, hstore⟩
  rw [hstore, ← hrank]
  exact ⟨hstatus, hdb.putEntry hk hactive e⟩

/-- The header keeps its bytes, and so does everything when the entry is the one stored. -/
theorem Consistent.setEntry_frame {db : Store} (hdb : db.Consistent) (junk : DBHeader) (e : Entry)
    (n : Byte) (hn : n.toNat < db.rules.length) :
    (db.setEntry junk e n).store.header = db.header ∧
      (db.rules[n.toNat]? = some e → (db.setEntry junk e n).store.rom.cell = db.rom.cell) := by
  rcases hdb.setEntry_slot junk e n hn with ⟨k, hk, hactive, hrank, _, hstore⟩
  rw [hstore]
  constructor
  · exact header_putEntry db hk e
  · intro he
    have hlisted : db.rules[n.toNat]? = some (db.entryAt k) :=
      hrank ▸ contents_getElem? _ hk hactive
    have hentry : e = db.entryAt k := Option.some.inj (he.symm.trans hlisted)
    rw [hentry, Store.putEntry, entryAt, Entry.toBytes_ofBytes (Eeprom.length_readBlock _ _ _)]
    exact Eeprom.cell_writeBlock_readBlock _ _ _

theorem Consistent.delEntry_listed {db : Store} (hdb : db.Consistent) (junk : DBHeader) (n : Byte)
    (hn : n.toNat < db.rules.length) :
    (db.delEntry junk n).status = .ok ∧ (db.delEntry junk n).store.Consistent ∧
      (db.delEntry junk n).store.rules = db.rules.eraseIdx n.toNat := by
  rcases hdb.seek_listed n hn with ⟨hlt, c, hseek, hbit, hpos, hactive, hrank⟩
  have hwrite := hdb.toOpen.writeHeader (db.header.release c.sector c.bit)
  have hstep := hdb.remove c hbit hpos hactive
  rw [hrank] at hstep
  simpa [delEntry, getSetDelEntry, hdb.toOpen.readHeader, hlt, hseek, hwrite] using hstep

theorem Consistent.appendEntry_full {db : Store} (hdb : db.Consistent) (junk : DBHeader)
    (e : Entry) (hfull : ¬ db.rules.length < maxEntries) :
    db.appendEntry junk e = (.error, db) := by
  rw [hdb.length_rules] at hfull
  have hlt : ¬ db.header.nEntries < BitVec.ofNat 8 maxEntries := by
    rw [BitVec.lt_def]
    exact hfull
  simp [appendEntry, hdb.toOpen.readHeader, hlt]

theorem Consistent.appendEntry_free {db : Store} (hdb : db.Consistent) (junk : DBHeader)
    (e : Entry) (hfree : db.rules.length < maxEntries) :
    (db.appendEntry junk e).1 = .ok ∧ (db.appendEntry junk e).2.Consistent ∧
      (db.appendEntry junk e).2.rules =
        db.rules.insertIdx (lowestFree db.header.slot maxEntries) e := by
  rw [hdb.length_rules] at hfree
  have hlt : db.header.nEntries < BitVec.ofNat 8 maxEntries := hfree
  obtain ⟨i, bit, hslot, hi, hbit, hclear, hrank⟩ :=
    db.header.freeSlot_lowest (hdb.nEntries_eq ▸ hfree)
  have hk : i * 8 + bit < maxEntries := by
    simp only [nIndexSectors, maxEntries] at hi ⊢
    omega
  have hlowest : lowestFree db.header.slot maxEntries = i * 8 + bit :=
    lowestFree_eq hk hclear ((rank_eq_self_iff _ _).mp hrank)
  have hwrite := hdb.toOpen.writeEntry e hk
  have hheader := (hdb.toOpen.putEntry (i * 8 + bit) e).writeHeader (db.header.occupy i bit)
  have hstep := hdb.add hi hbit hclear e
  rw [hrank] at hstep
  simpa [appendEntry, hdb.toOpen.readHeader, hlt, hslot, hwrite, hheader, hlowest] using hstep

end Store

/-! ### Runs of calls -/

inductive Operation where
  | format
  | appendEntry (entry : Entry)
  | setEntry (entry : Entry) (nEntry : Byte)
  | delEntry (nEntry : Byte)
  | getEntry (entry : Entry) (nEntry : Byte)

def Store.perform (db : Store) (header : DBHeader) : Operation → Status × Option Entry × Store
  | .format => (db.format.1, none, db.format.2)
  | .appendEntry entry =>
    ((db.appendEntry header entry).1, none, (db.appendEntry header entry).2)
  | .setEntry entry n =>
    ((db.setEntry header entry n).status, none, (db.setEntry header entry n).store)
  | .delEntry n => ((db.delEntry header n).status, none, (db.delEntry header n).store)
  | .getEntry entry n =>
    let outcome := db.getEntry header entry n
    (outcome.status, if outcome.status = .ok then outcome.entry else none, outcome.store)

/-- A call on the list of rules, where `free` is the lowest free slot. -/
def Rules.perform (free : ℕ) (rules : List Entry) : Operation → Status × Option Entry × List Entry
  | .format => (.ok, none, [])
  | .appendEntry entry =>
    if rules.length < maxEntries then (.ok, none, rules.insertIdx free entry)
    else (.error, none, rules)
  | .setEntry entry n =>
    if n.toNat < rules.length then (.ok, none, rules.set n.toNat entry) else (.error, none, rules)
  | .delEntry n =>
    if n.toNat < rules.length then (.ok, none, rules.eraseIdx n.toNat) else (.error, none, rules)
  | .getEntry _ n =>
    if n.toNat < rules.length then (.ok, rules[n.toNat]?, rules) else (.error, none, rules)

structure Call where
  operation : Operation
  header : DBHeader

def Store.call (db : Store) (c : Call) : Store := (db.perform c.header c.operation).2.2

/-- A call that keeps the database consistent, acts on the rule list as the list operation
does, and leaves the store as it was when it is refused. -/
def Store.Refines (db : Store) (c : Call) : Prop :=
  (db.call c).Consistent ∧
    ((db.perform c.header c.operation).1, (db.perform c.header c.operation).2.1,
      (db.call c).rules) =
        Rules.perform (lowestFree db.header.slot maxEntries) db.rules c.operation ∧
    ((db.perform c.header c.operation).1 = .error → db.call c = db)

theorem Store.Refines.accepted {db db' : Store} {c : Call} {entry : Option Entry}
    (hcall : db.perform c.header c.operation = (.ok, entry, db')) (hdb' : db'.Consistent)
    (hrules : Rules.perform (lowestFree db.header.slot maxEntries) db.rules c.operation =
      (.ok, entry, db'.rules)) : db.Refines c := by
  rw [Store.Refines, Store.call, hcall, hrules]
  exact ⟨hdb', rfl, fun h => by cases h⟩

theorem Store.Refines.refused {db : Store} {c : Call} (hdb : db.Consistent)
    (hcall : db.perform c.header c.operation = (.error, none, db))
    (hrules : Rules.perform (lowestFree db.header.slot maxEntries) db.rules c.operation =
      (.error, none, db.rules)) : db.Refines c := by
  rw [Store.Refines, Store.call, hcall, hrules]
  exact ⟨hdb, rfl, fun _ => rfl⟩

theorem Store.Consistent.refines {db : Store} (hdb : db.Consistent) (c : Call) : db.Refines c := by
  rcases c with ⟨operation, junk⟩
  cases operation with
  | format =>
    rcases hdb.toOpen.format with ⟨hs, hc, hr⟩
    exact .accepted (by rw [perform, hs]) hc (by rw [Rules.perform, hr])
  | appendEntry e =>
    by_cases hfree : db.rules.length < maxEntries
    · rcases hdb.appendEntry_free junk e hfree with ⟨hs, hc, hr⟩
      exact .accepted (by rw [perform, hs]) hc (by rw [Rules.perform, if_pos hfree, hr])
    · exact .refused hdb (by rw [perform, hdb.appendEntry_full junk e hfree])
        (by rw [Rules.perform, if_neg hfree])
  | setEntry e n =>
    by_cases hn : n.toNat < db.rules.length
    · rcases hdb.setEntry_listed junk e n hn with ⟨hs, hc, hr⟩
      exact .accepted (by rw [perform, hs]) hc (by rw [Rules.perform, if_pos hn, hr])
    · rcases hdb.seek_past junk (.set e) n origin (Nat.le_of_not_lt hn) with ⟨hs, hstore⟩
      exact .refused hdb (by rw [perform, setEntry, hs, hstore]) (by rw [Rules.perform, if_neg hn])
  | delEntry n =>
    by_cases hn : n.toNat < db.rules.length
    · rcases hdb.delEntry_listed junk n hn with ⟨hs, hc, hr⟩
      exact .accepted (by rw [perform, hs]) hc (by rw [Rules.perform, if_pos hn, hr])
    · rcases hdb.seek_past junk .del n origin (Nat.le_of_not_lt hn) with ⟨hs, hstore⟩
      exact .refused hdb (by rw [perform, delEntry, hs, hstore]) (by rw [Rules.perform, if_neg hn])
  | getEntry e n =>
    by_cases hn : n.toNat < db.rules.length
    · rcases hdb.getEntry_listed junk e n hn with ⟨hs, he, hstore⟩
      have hcall : db.perform junk (.getEntry e n) = (.ok, db.rules[n.toNat]?, db) := by
        simp only [perform, hs, he, hstore, if_true]
      exact .accepted hcall hdb (by rw [Rules.perform, if_pos hn])
    · rcases hdb.seek_past junk (.get e) n origin (Nat.le_of_not_lt hn) with ⟨hs, hstore⟩
      refine .refused hdb ?_ (by rw [Rules.perform, if_neg hn])
      simp [perform, getEntry, hs, hstore]

theorem Store.Open.consistent_run {db : Store} (hopen : db.Open) (calls : List Call) :
    (run Store.call db.format.2 calls).Consistent :=
  run_invariant (I := Store.Consistent) (fun _ l ht => (ht.refines l).1) hopen.format.2.1 calls

/-- Every run of calls from a freshly formatted database keeps the counter equal to the
number of set index bits, and each further call is the list operation it stands for. -/
theorem database_refines_rules (db : Store) (hopen : db.Open) (calls : List Call) (c : Call) :
    let s := run Store.call db.format.2 calls
    (s.header.nEntries.toNat = rank s.header.slot maxEntries ∧
      s.header.nEntries.toNat ≤ maxEntries) ∧
    ((s.perform c.header c.operation).1, (s.perform c.header c.operation).2.1, (s.call c).rules) =
      Rules.perform (lowestFree s.header.slot maxEntries) s.rules c.operation ∧
    ((s.perform c.header c.operation).1 = .error → (s.call c).rom = s.rom) := by
  intro s
  have hs : s.Consistent := hopen.consistent_run calls
  rcases hs.refines c with ⟨_, href, herr⟩
  exact ⟨⟨hs.nEntries_eq, hs.toNat_le⟩, href, fun h => by rw [herr h]⟩

/-- The first kilobyte of an erased EEPROM, allocated to the database. -/
def erased : Store where
  persist := { start := 0, size := BitVec.ofNat 16 persistSize, initialized := true }
  rom := { cell := fun _ => 0xFF, written := [] }
  current := Store.origin
  currentEntry := 0

def exampleEntry (event : Byte) : Entry := ⟨⟨false, 0⟩, event, fun _ => 0, 1, 0⟩

/-- Four rules are appended, one of them is deleted, which leaves slot 1 empty, and the rule behind
the hole is replaced. -/
def exampleCalls : List Call :=
  [⟨.appendEntry (exampleEntry 1), erased.header⟩, ⟨.appendEntry (exampleEntry 2), erased.header⟩,
    ⟨.appendEntry (exampleEntry 3), erased.header⟩, ⟨.appendEntry (exampleEntry 4), erased.header⟩,
    ⟨.delEntry 1, erased.header⟩, ⟨.setEntry (exampleEntry 5) 1, erased.header⟩]

/-- A fifth rule goes into the hole. -/
theorem exampleCalls_refines_rules :
    let c : Call := ⟨.appendEntry (exampleEntry 6), erased.header⟩
    let s := run Store.call erased.format.2 exampleCalls
    ((s.header.nEntries.toNat = rank s.header.slot maxEntries ∧
        s.header.nEntries.toNat ≤ maxEntries) ∧
      ((s.perform c.header c.operation).1, (s.perform c.header c.operation).2.1,
          (s.call c).rules) =
        Rules.perform (lowestFree s.header.slot maxEntries) s.rules c.operation ∧
      ((s.perform c.header c.operation).1 = .error → (s.call c).rom = s.rom)) ∧
    s.rules.map Entry.event = [1, 5, 4] ∧ (s.call c).rules.map Entry.event = [1, 6, 5, 4] :=
  ⟨database_refines_rules erased ⟨rfl, rfl⟩ exampleCalls
      ⟨.appendEntry (exampleEntry 6), erased.header⟩,
    by decide +kernel, by decide +kernel⟩

end Aquila.ProtocolDB
