import Aquila.ProtocolDB.Iterator

/-! # Restarts of the database

Execution may stop between two block writes of a call. After the restart the database
holds the rules from before the call or from after it: every call changes the header by
one block write, and an entry that the header does not list yet is written to a free slot.
-/

namespace Aquila

def Eeprom.writeBlocks (rom : Eeprom) (blocks : List (Word × List Byte)) : Eeprom :=
  blocks.foldl (fun rom block => rom.writeBlock block.1 block.2) rom

namespace ProtocolDB
open Library SlotTable

/-- The header of a database of this program. -/
structure DBHeader.Signed (h : DBHeader) : Prop where
  signature_eq : h.signature = Store.signature
  entrySize_eq : h.entrySize = BitVec.ofNat 8 entryLen

namespace Store

/-- The block writes of a call, in order. -/
def writes (db : Store) (c : Call) : List (Word × List Byte) :=
  (db.call c).rom.written.drop db.rom.written.length

/-- The store when execution stops after `k` block writes of a call. -/
def interrupt (db : Store) (c : Call) (k : ℕ) : Store :=
  { db with rom := db.rom.writeBlocks ((db.writes c).take k) }

/-- A restart clears the statics and runs `PDB_init`; the regions before the database have
advanced the allocation pointer to `base`. -/
def restart (rom : Eeprom) (header : DBHeader) (base : Word) : Status × Store :=
  let statics : Store := ⟨⟨0, 0, false⟩, rom, ⟨0, 0, 0⟩, 0⟩
  ((statics.init header base).1, (statics.init header base).2.1)

/-- What `PDB_getEntry` returns for the entry numbers below `nEntries`, in order. -/
def readBack (db : Store) (header : DBHeader) (entry : Entry) : List (Option Entry) :=
  (List.range db.header.nEntries.toNat).map (fun n =>
    (db.perform header (.getEntry entry (BitVec.ofNat 8 n))).2.1)

theorem Consistent.readBack {db : Store} (hdb : db.Consistent) (header : DBHeader)
    (entry : Entry) : db.readBack header entry = db.rules.map some := by
  have hle := hdb.toNat_le
  have hlength := hdb.length_rules
  apply List.ext_getElem
  · simp [Store.readBack, hlength]
  · intro n hn hrules
    rw [List.length_map] at hrules
    have hbyte : (BitVec.ofNat 8 n).toNat = n := by
      simp only [maxEntries] at hle
      exact Nat.mod_eq_of_lt (by omega)
    rcases hdb.getEntry_listed header entry (BitVec.ofNat 8 n) (hbyte.symm ▸ hrules) with
      ⟨hs, he, _⟩
    rw [hbyte, List.getElem?_eq_getElem hrules] at he
    simp only [Store.readBack, List.getElem_map, List.getElem_range, perform, hs, he, if_true]

/-! ### What a call writes -/

/-- How a call may change a store: not at all, in the header, in an active slot, or in a free slot
and then in the header. -/
inductive Rewrites (db : Store) : Store → Prop where
  | nothing : Rewrites db db
  | header (h : DBHeader) (hsigned : db.header.Signed → h.Signed) : Rewrites db (db.putHeader h)
  | entry (k : ℕ) (hk : k < maxEntries) (e : Entry) : Rewrites db (db.putEntry k e)
  | both (k : ℕ) (hk : k < maxEntries) (hfree : db.header.slot k = false) (e : Entry)
      (h : DBHeader) (hsigned : db.header.Signed → h.Signed) :
      Rewrites db ((db.putEntry k e).putHeader h)

theorem Consistent.rewrites_listed {db : Store} (hdb : db.Consistent) (junk : DBHeader)
    (action : Action) (n : Byte) :
    db.Rewrites (db.getSetDelEntry junk action n origin).store := by
  by_cases hn : n.toNat < db.rules.length
  · rcases hdb.seek_listed n hn with ⟨hlt, c, hseek, hbit, hpos, hactive, hrank⟩
    cases action with
    | get entry =>
      have hstore : (db.getSetDelEntry junk (.get entry) n origin).store = db := by
        simp [getSetDelEntry, hdb.toOpen.readHeader, hlt, hseek]
      rw [hstore]
      exact .nothing
    | set entry =>
      have hwrite := hdb.toOpen.writeEntry entry hpos
      simp only [Cursor.position] at hwrite
      have hstore : (db.getSetDelEntry junk (.set entry) n origin).store =
          db.putEntry c.position entry := by
        simp [getSetDelEntry, hdb.toOpen.readHeader, hlt, hseek, hwrite, Cursor.position]
      rw [hstore]
      exact .entry c.position hpos entry
    | del =>
      have hwrite := hdb.toOpen.writeHeader (db.header.release c.sector c.bit)
      have hstore : (db.getSetDelEntry junk .del n origin).store =
          db.putHeader (db.header.release c.sector c.bit) := by
        simp [getSetDelEntry, hdb.toOpen.readHeader, hlt, hseek, hwrite]
      rw [hstore]
      exact .header _ (fun h => ⟨h.signature_eq, h.entrySize_eq⟩)
  · rw [(hdb.seek_past junk action n origin (Nat.le_of_not_lt hn)).2]
    exact .nothing

theorem Consistent.rewrites {db : Store} (hdb : db.Consistent) (c : Call) :
    db.Rewrites (db.call c) := by
  rcases c with ⟨operation, junk⟩
  cases operation with
  | format =>
    have hstore : db.call ⟨.format, junk⟩ = db.putHeader
        ⟨signature, BitVec.ofNat 8 entryLen, 0, fun _ => 0⟩ := by
      rw [call, perform, Store.format, hdb.toOpen.writeHeader]
    rw [hstore]
    exact .header _ (fun _ => ⟨rfl, rfl⟩)
  | setEntry e n => exact hdb.rewrites_listed junk (.set e) n
  | delEntry n => exact hdb.rewrites_listed junk .del n
  | getEntry e n => exact hdb.rewrites_listed junk (.get e) n
  | appendEntry e =>
    by_cases hroom : db.rules.length < maxEntries
    · have hcount := hdb.length_rules
      rw [hcount] at hroom
      have hlt : db.header.nEntries < BitVec.ofNat 8 maxEntries := hroom
      rcases db.header.freeSlot_lowest (hdb.nEntries_eq ▸ hroom) with
        ⟨i, bit, hslot, hi, hbit, hfree, _⟩
      have hk : i * 8 + bit < maxEntries := by
        simp only [nIndexSectors, maxEntries] at hi ⊢
        omega
      have hwrite := hdb.toOpen.writeEntry e hk
      have hheader := (hdb.toOpen.putEntry (i * 8 + bit) e).writeHeader (db.header.occupy i bit)
      have hstore : db.call ⟨.appendEntry e, junk⟩ =
          (db.putEntry (i * 8 + bit) e).putHeader (db.header.occupy i bit) := by
        simp [call, perform, appendEntry, hdb.toOpen.readHeader, hlt, hslot, hwrite, hheader]
      rw [hstore]
      exact .both _ hk hfree e _ (fun h => ⟨h.signature_eq, h.entrySize_eq⟩)
    · rw [call, perform, hdb.appendEntry_full junk e hroom]
      exact .nothing

/-- A consistent database of this program in the region at `base`. -/
structure Sound (base : Word) (db : Store) : Prop extends Consistent db where
  start_eq : db.persist.start = base
  signed : db.header.Signed

theorem SameData.sound {base : Word} {db db' : Store} (h : db.SameData db') (hdb : db.Sound base) :
    db'.Sound base where
  toConsistent := h.consistent hdb.toConsistent
  start_eq := by rw [h.persist_eq, hdb.start_eq]
  signed := by
    rw [h.header_eq]
    exact hdb.signed

theorem Sound.putHeader {base : Word} {db : Store} (hdb : db.Sound base) {h : DBHeader}
    (hput : (db.putHeader h).Consistent) (hsigned : h.Signed) : (db.putHeader h).Sound base where
  toConsistent := hput
  start_eq := hdb.start_eq
  signed := by
    rw [header_putHeader]
    exact hsigned

theorem Sound.putEntry {base : Word} {db : Store} (hdb : db.Sound base) {k : ℕ}
    (hk : k < maxEntries) (e : Entry) : (db.putEntry k e).Sound base where
  toOpen := hdb.toOpen.putEntry k e
  nEntries_eq := by
    rw [header_putEntry db hk]
    exact hdb.nEntries_eq
  start_eq := hdb.start_eq
  signed := by
    rw [header_putEntry db hk]
    exact hdb.signed

theorem rules_putEntry_free (db : Store) {k : ℕ} (hk : k < maxEntries)
    (hfree : db.header.slot k = false) (e : Entry) : (db.putEntry k e).rules = db.rules := by
  rw [rules, header_putEntry db hk, rules]
  apply contents_congr (fun _ _ => rfl)
  intro j hj hactive
  have hne : j ≠ k := by
    rintro rfl
    rw [hfree] at hactive
    cases hactive
  rw [db.entryAt_putEntry hj hk e, Function.update_of_ne hne]

/-- After any number of its writes, a call leaves a sound database with the rules from before the
call or from after it. -/
theorem Sound.interrupt {base : Word} {db : Store} (hdb : db.Sound base) (c : Call) (k : ℕ) :
    (db.interrupt c k).Sound base ∧
      ((db.interrupt c k).rules = db.rules ∨ (db.interrupt c k).rules = (db.call c).rules) := by
  have hafter := (hdb.toConsistent.refines c).1
  have hcut := hdb.toConsistent.rewrites c
  rw [Store.interrupt, writes]
  generalize db.call c = db' at hafter hcut
  cases hcut with
  | nothing =>
    rw [List.drop_length, List.take_nil]
    exact ⟨hdb, Or.inl rfl⟩
  | header h hsigned =>
    simp only [Store.putHeader, Eeprom.writeBlock, List.drop_left]
    cases k with
    | zero => exact ⟨hdb, Or.inl rfl⟩
    | succ k =>
      rw [List.take_of_length_le (by simp)]
      exact ⟨hdb.putHeader hafter (hsigned hdb.signed), Or.inr rfl⟩
  | entry slot hslot e =>
    simp only [Store.putEntry, Eeprom.writeBlock, List.drop_left]
    cases k with
    | zero => exact ⟨hdb, Or.inl rfl⟩
    | succ k =>
      rw [List.take_of_length_le (by simp)]
      exact ⟨hdb.putEntry hslot e, Or.inr rfl⟩
  | both slot hslot hfree e h hsigned =>
    simp only [Store.putHeader, Store.putEntry, Eeprom.writeBlock, List.append_assoc,
      List.drop_left]
    have hmiddle := hdb.putEntry hslot e
    cases k with
    | zero => exact ⟨hdb, Or.inl rfl⟩
    | succ k =>
      cases k with
      | zero => exact ⟨hmiddle, Or.inl (db.rules_putEntry_free hslot hfree e)⟩
      | succ k =>
        rw [List.take_of_length_le (by simp)]
        exact ⟨hmiddle.putHeader hafter (hsigned hdb.signed), Or.inr rfl⟩

/-! ### After the restart -/

/-- The region at `base` lies inside the EEPROM. -/
def Fits (base : Word) : Prop :=
  base + BitVec.ofNat 16 persistSize ≤ BitVec.ofNat 16 eepromSize

/-- The statics after a `PDB_init` that got the region at `base`. -/
def mount (rom : Eeprom) (base : Word) : Store :=
  ⟨⟨base, BitVec.ofNat 16 persistSize, true⟩, rom, origin, 0⟩

theorem mount_open (rom : Eeprom) (base : Word) : (mount rom base).Open := ⟨rfl, rfl⟩

theorem init_fits {base : Word} (h : Fits base) (self : Persist) :
    self.init base (BitVec.ofNat 16 persistSize) = (.ok,
      ⟨base, BitVec.ofNat 16 persistSize, true⟩, base + BitVec.ofNat 16 persistSize) := by
  rw [Fits] at h
  rw [Persist.init, if_pos h]

theorem fits_of_restart {rom : Eeprom} {junk : DBHeader} {base : Word}
    (h : (restart rom junk base).1 = .formated) : Fits base := by
  by_contra hfits
  rw [Fits] at hfits
  have hinit (self : Persist) : self.init base (BitVec.ofNat 16 persistSize) =
      (.error, { self with initialized := false }, base) := by
    rw [Persist.init, if_neg hfits]
  unfold restart init at h
  simp only [hinit] at h
  cases h

theorem restart_signed {rom : Eeprom} {base : Word} (hfits : Fits base)
    (hsigned : (mount rom base).header.Signed) (junk : DBHeader) :
    restart rom junk base = (.ok, mount rom base) := by
  have hread := (mount_open rom base).readHeader junk
  have hkeep : ¬ ((mount rom base).header.signature ≠ signature ∨
      (mount rom base).header.entrySize ≠ BitVec.ofNat 8 entryLen) := by
    rw [hsigned.signature_eq, hsigned.entrySize_eq]
    simp
  simp only [mount, origin] at hread hkeep ⊢
  unfold restart init
  simp only [init_fits hfits, hread, if_neg hkeep]

theorem restart_unsigned {rom : Eeprom} {base : Word} (hfits : Fits base)
    (hsigned : ¬ (mount rom base).header.Signed) (junk : DBHeader) :
    restart rom junk base = (.formated, (mount rom base).format.2) := by
  have hread := (mount_open rom base).readHeader junk
  have hformat : (mount rom base).format = (.ok, (mount rom base).format.2) :=
    Prod.ext (mount_open rom base).format.1 rfl
  have hlose : (mount rom base).header.signature ≠ signature ∨
      (mount rom base).header.entrySize ≠ BitVec.ofNat 8 entryLen := by
    by_contra hnot
    rw [not_or, not_not, not_not] at hnot
    exact hsigned ⟨hnot.1, hnot.2⟩
  generalize (mount rom base).format.2 = db at hformat ⊢
  simp only [mount, origin] at hread hformat hlose
  unfold restart init
  simp only [init_fits hfits, hread, if_pos hlose, hformat]

theorem Sound.mount {base : Word} {db : Store} (hdb : db.Sound base) :
    db.SameData (mount db.rom base) where
  persist_eq := by
    rw [Store.mount, ← hdb.start_eq, ← hdb.size_eq, ← hdb.initialized]
  rom_eq := rfl

theorem Sound.restart {base : Word} {db : Store} (hdb : db.Sound base) (hfits : Fits base)
    (junk : DBHeader) :
    (restart db.rom junk base).1 = .ok ∧ db.SameData (Store.restart db.rom junk base).2 := by
  rw [restart_signed hfits (hdb.mount.sound hdb).signed junk]
  exact ⟨rfl, hdb.mount⟩

theorem sound_of_formated {rom : Eeprom} {junk : DBHeader} {base : Word}
    (h : (restart rom junk base).1 = .formated) : (restart rom junk base).2.Sound base := by
  have hfits : Fits base := fits_of_restart h
  have hunsigned : ¬ (mount rom base).header.Signed := by
    intro hsigned
    rw [restart_signed hfits hsigned] at h
    cases h
  have hopen := mount_open rom base
  rw [restart_unsigned hfits hunsigned]
  have hformat := hopen.format.2.1
  rw [Store.format, hopen.writeHeader] at hformat ⊢
  exact { toConsistent := hformat, start_eq := rfl, signed := by
            rw [header_putHeader]
            exact ⟨rfl, rfl⟩ }

end Store

inductive Incident where
  | call (c : Call)
  | cut (c : Call) (k : ℕ) (header : DBHeader)

namespace Store

def live (base : Word) (db : Store) : Incident → Store
  | .call c => db.call c
  | .cut c k header => (restart (db.interrupt c k).rom header base).2

theorem Sound.call {base : Word} {db : Store} (hdb : db.Sound base) (c : Call) :
    (db.call c).Sound base := by
  have hafter := (hdb.toConsistent.refines c).1
  have hrewrites := hdb.toConsistent.rewrites c
  generalize db.call c = db' at hafter hrewrites ⊢
  cases hrewrites with
  | nothing => exact hdb
  | header h hsigned => exact hdb.putHeader hafter (hsigned hdb.signed)
  | entry slot hslot e => exact hdb.putEntry hslot e
  | both slot hslot hfree e h hsigned =>
    exact (hdb.putEntry hslot e).putHeader hafter (hsigned hdb.signed)

theorem Sound.live {base : Word} (hfits : Fits base) (db : Store) (l : Incident)
    (hdb : db.Sound base) : (db.live base l).Sound base := by
  cases l with
  | call c => exact hdb.call c
  | cut c k header =>
    have hcut := (hdb.interrupt c k).1
    exact (hcut.restart hfits header).2.sound hcut

/-- A restart after any number of the writes of a call does not format the database, and finds the
rules from before the call or from after it. -/
theorem restart_interrupted (rom : Eeprom) (junk : DBHeader) (base : Word)
    (hstart : (restart rom junk base).1 = .formated) (incidents : List Incident) (c : Call) (k : ℕ)
    (header : DBHeader) :
    let db := run (live base) (restart rom junk base).2 incidents
    let (status, again) := restart (db.interrupt c k).rom header base
    status = .ok ∧ again.header.nEntries.toNat = rank again.header.slot maxEntries ∧
      ((∀ h e, again.readBack h e = db.readBack h e) ∨
        (∀ h e, again.readBack h e = (db.call c).readBack h e)) := by
  intro db
  have hfits : Fits base := fits_of_restart hstart
  have hdb : db.Sound base :=
    run_invariant (I := Sound base) (Sound.live hfits) (sound_of_formated hstart) incidents
  rcases hdb.interrupt c k with ⟨hcut, hrules⟩
  rcases hcut.restart hfits header with ⟨hstatus, hsame⟩
  generalize restart (db.interrupt c k).rom header base = outcome at hstatus hsame ⊢
  rcases outcome with ⟨status, again⟩
  have hagain := (hsame.sound hcut).toConsistent
  refine ⟨hstatus, hagain.nEntries_eq, hrules.imp ?_ ?_⟩
  · intro hbefore h e
    rw [hagain.readBack, hdb.toConsistent.readBack, hsame.rules_eq, hbefore]
  · intro hafter h e
    rw [hagain.readBack, (hdb.call c).toConsistent.readBack, hsame.rules_eq, hafter]

theorem restart_interrupted_erased :
    let db := run (live 0) (restart erased.rom erased.header 0).2
      [.cut ⟨.appendEntry (erased.entryAt 0), erased.header⟩ 1 erased.header]
    let (status, again) :=
      restart (db.interrupt ⟨.format, erased.header⟩ 0).rom erased.header 0
    status = .ok ∧ again.header.nEntries.toNat = rank again.header.slot maxEntries ∧
      ((∀ h e, again.readBack h e = db.readBack h e) ∨
        (∀ h e, again.readBack h e = (db.call ⟨.format, erased.header⟩).readBack h e)) :=
  restart_interrupted erased.rom erased.header 0 (by decide) _ _ 0 erased.header

end Store

end ProtocolDB

end Aquila
