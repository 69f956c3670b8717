import Aquila.ProtocolDB.Refinement

/-! # The database iterator

The iterator is kept in statics. Started at the beginning it delivers the rules in
order; once it is past the last of at least two rules, no call delivers anything until
it is started again, even when its 8-bit counter wraps.
-/

namespace Aquila.ProtocolDB
open Library SlotTable

namespace Store

/-- The two stores differ at most in the iterator. -/
structure SameData (db db' : Store) : Prop where
  persist_eq : db'.persist = db.persist
  rom_eq : db'.rom = db.rom

theorem SameData.refl (db : Store) : db.SameData db := ⟨rfl, rfl⟩

theorem SameData.trans {db db' db'' : Store} (h : db.SameData db') (h' : db'.SameData db'') :
    db.SameData db'' :=
  ⟨h'.persist_eq.trans h.persist_eq, h'.rom_eq.trans h.rom_eq⟩

theorem SameData.header_eq {db db' : Store} (h : db.SameData db') : db'.header = db.header := by
  rw [header, header, h.persist_eq, h.rom_eq]

theorem SameData.rules_eq {db db' : Store} (h : db.SameData db') : db'.rules = db.rules := by
  have hentry : db'.entryAt = db.entryAt := by
    funext k
    rw [entryAt, entryAt, h.persist_eq, h.rom_eq]
  rw [rules, rules, h.header_eq, hentry]

theorem SameData.consistent {db db' : Store} (h : db.SameData db') (hdb : db.Consistent) :
    db'.Consistent where
  initialized := h.persist_eq ▸ hdb.initialized
  size_eq := h.persist_eq ▸ hdb.size_eq
  nEntries_eq := by rw [h.header_eq, hdb.nEntries_eq]

structure Resumed (db : Store) (k : ℕ) : Prop where
  valid : db.current.Valid db.header
  count_eq : db.current.count = k - 1
  entry_eq : db.currentEntry.toNat = k

structure Spent (db : Store) : Prop where
  valid : db.current.Valid db.header
  count_pos : 1 ≤ db.current.count
  past : db.rules.length ≤ db.currentEntry.toNat ∨ db.currentEntry.toNat < db.current.count

theorem iteratorBegin_sameData (db : Store) : db.SameData db.iteratorBegin := ⟨rfl, rfl⟩

theorem getSetDelEntry_get_store (db : Store) (header : DBHeader) (entry : Entry) (nEntry : Byte)
    (start : Cursor) : (db.getSetDelEntry header (.get entry) nEntry start).store = db := by
  rw [getSetDelEntry]
  dsimp only
  split
  case isTrue => rfl
  case isFalse => split <;> rfl

theorem iteratorGetNextEntry_sameData (db : Store) (header : DBHeader) (entry : Entry) :
    db.SameData (db.iteratorGetNextEntry header entry).2.2 := by
  constructor
  · change (db.getSetDelEntry header (.get entry) db.currentEntry db.current).store.persist = _
    rw [getSetDelEntry_get_store]
  · change (db.getSetDelEntry header (.get entry) db.currentEntry db.current).store.rom = _
    rw [getSetDelEntry_get_store]

theorem iteratorBegin_resumed (db : Store) : db.iteratorBegin.Resumed 0 :=
  ⟨origin_valid db.header, rfl, rfl⟩

theorem Resumed.spent {db : Store} {k : ℕ} (h : db.Resumed k) (hk : 2 ≤ k)
    (hpast : db.rules.length ≤ k) : db.Spent where
  valid := h.valid
  count_pos := by
    rw [h.count_eq]
    omega
  past := Or.inl (h.entry_eq ▸ hpast)

theorem Resumed.next {db : Store} {k : ℕ} (h : db.Resumed k) (hdb : db.Consistent)
    (junk : DBHeader) (entry : Entry) (rule : Entry) (hrule : db.rules[k]? = some rule) :
    (db.iteratorGetNextEntry junk entry).1 = .ok ∧
      (db.iteratorGetNextEntry junk entry).2.1 = some rule ∧
      (db.iteratorGetNextEntry junk entry).2.2.Resumed (k + 1) ∧
      db.SameData (db.iteratorGetNextEntry junk entry).2.2 := by
  rcases List.getElem?_eq_some_iff.mp hrule with ⟨hk, _⟩
  rw [hdb.length_rules] at hk
  have hle := hdb.toNat_le
  have hlt : db.currentEntry < db.header.nEntries := by
    rw [BitVec.lt_def, h.entry_eq]
    exact hk
  obtain ⟨c, hseek, hvalid, hpos, hactive, hcount⟩ :=
    db.header.seek_found db.currentEntry db.current h.valid
      (by rw [h.count_eq, h.entry_eq]; omega) (by rw [h.entry_eq, ← hdb.nEntries_eq]; exact hk)
  have hrank : rank db.header.slot c.position = k := by
    rw [← hvalid.count_eq, hcount, h.entry_eq]
  have hentry : db.entryAt c.position = rule := by
    have := contents_getElem? db.entryAt hpos hactive
    rw [hrank] at this
    exact Option.some.inj (this.symm.trans hrule)
  have hread := hdb.toOpen.readEntry entry hpos
  have hnext : db.iteratorGetNextEntry junk entry = (.ok, some rule,
      { db with current := c, currentEntry := db.currentEntry + 1 }) := by
    simp only [iteratorGetNextEntry, getSetDelEntry, hdb.toOpen.readHeader, hlt, decide_true,
      Bool.not_true, Bool.false_eq_true, if_false, hseek, ← hentry]
    simp only [Cursor.position] at hread
    rw [hread]
    rfl
  rw [hnext]
  refine ⟨rfl, rfl, ⟨hvalid, ?_, ?_⟩, ⟨rfl, rfl⟩⟩
  · rw [hcount, h.entry_eq]
    rfl
  · have hone : (1 : Byte).toNat = 1 := rfl
    simp only [maxEntries] at hle
    rw [BitVec.toNat_add, h.entry_eq, hone, Nat.mod_eq_of_lt (by omega)]

theorem Spent.next {db : Store} (h : db.Spent) (hdb : db.Consistent) (junk : DBHeader)
    (entry : Entry) :
    (db.iteratorGetNextEntry junk entry).1 = .error ∧
      (db.iteratorGetNextEntry junk entry).2.2.Spent ∧
      db.SameData (db.iteratorGetNextEntry junk entry).2.2 := by
  have hlen := hdb.length_rules
  have hle := hdb.toNat_le
  have hpos := h.count_pos
  have hpast := h.past
  have hone : (1 : Byte).toNat = 1 := rfl
  have hbyte := db.currentEntry.isLt
  simp only [maxEntries] at hle
  by_cases hlt : db.currentEntry < db.header.nEntries
  · have hbelow := BitVec.lt_def.mp hlt
    obtain ⟨c, hseek, hvalid, hend⟩ := db.header.seek_missed db.currentEntry db.current h.valid
      (by omega)
    have hnext : db.iteratorGetNextEntry junk entry = (.error, some entry,
        { db with current := c, currentEntry := db.currentEntry + 1 }) := by
      simp [iteratorGetNextEntry, getSetDelEntry, hdb.toOpen.readHeader, hlt, hseek]
    have hcount : c.count = db.header.nEntries.toNat := by
      rw [hvalid.count_eq, hend, hdb.nEntries_eq]
    rw [hnext]
    refine ⟨rfl, ⟨hvalid, ?_, ?_⟩, ⟨rfl, rfl⟩⟩
    · change 1 ≤ c.count
      omega
    · change db.rules.length ≤ (db.currentEntry + 1).toNat ∨
        (db.currentEntry + 1).toNat < c.count
      rw [BitVec.toNat_add, hone, Nat.mod_eq_of_lt (by omega)]
      omega
  · have hnext : db.iteratorGetNextEntry junk entry = (.error, some entry,
        { db with currentEntry := db.currentEntry + 1 }) := by
      simp [iteratorGetNextEntry, getSetDelEntry, hdb.toOpen.readHeader, hlt]
    rw [BitVec.lt_def] at hlt
    rw [hnext]
    refine ⟨rfl, ⟨h.valid, h.count_pos, ?_⟩, ⟨rfl, rfl⟩⟩
    change db.rules.length ≤ (db.currentEntry + 1).toNat ∨
      (db.currentEntry + 1).toNat < db.current.count
    rw [BitVec.toNat_add, hone]
    omega

/-! ### The iterator as a lookup -/

/-- The store after `PDB_iteratorBegin` and `j` calls, with the locals each of them finds. -/
def iterated (db : Store) (locals : ℕ → DBHeader × Entry) : ℕ → Store
  | 0 => db.iteratorBegin
  | j + 1 =>
    ((db.iterated locals j).iteratorGetNextEntry (locals j).1 (locals j).2).2.2

/-- The iterator has made `j` calls, and is resumed if all of them delivered a rule. -/
structure Follows (db it : Store) (j : ℕ) : Prop where
  same : db.SameData it
  entry_eq : it.currentEntry.toNat = j
  resumed : j ≤ db.rules.length → it.Resumed j

theorem Follows.next {db it : Store} {j : ℕ} (h : db.Follows it j) (hdb : db.Consistent)
    (hj : j + 1 < 2 ^ 8) (junk : DBHeader) (entry : Entry) :
    db.Follows (it.iteratorGetNextEntry junk entry).2.2 (j + 1) where
  same := h.same.trans (it.iteratorGetNextEntry_sameData junk entry)
  entry_eq := by
    have hone : (1 : Byte).toNat = 1 := rfl
    change (it.currentEntry + 1).toNat = j + 1
    rw [BitVec.toNat_add, h.entry_eq, hone, Nat.mod_eq_of_lt hj]
  resumed := by
    intro hlen
    have hlt : j < it.rules.length := by
      rw [h.same.rules_eq]
      omega
    have hrule : it.rules[j]? = some it.rules[j] := List.getElem?_eq_getElem hlt
    exact ((h.resumed (by omega)).next (h.same.consistent hdb) junk entry _ hrule).2.2.1

theorem follows_iterated {db : Store} (hdb : db.Consistent) (locals : ℕ → DBHeader × Entry)
    {j : ℕ} (hj : j < 2 ^ 8) : db.Follows (db.iterated locals j) j := by
  induction j with
  | zero =>
    exact ⟨db.iteratorBegin_sameData, rfl, fun _ => db.iteratorBegin_resumed⟩
  | succ j ih => exact (ih (by omega)).next hdb hj _ _

theorem Follows.next_listed {db it : Store} {j : ℕ} (h : db.Follows it j) (hdb : db.Consistent)
    (hj : j < db.rules.length) (junk : DBHeader) (entry : Entry) :
    (it.iteratorGetNextEntry junk entry).1 = .ok ∧
      (it.iteratorGetNextEntry junk entry).2.1 = db.rules[j]? := by
  have hrule : it.rules[j]? = some db.rules[j] := by
    rw [h.same.rules_eq]
    exact List.getElem?_eq_getElem hj
  rcases (h.resumed hj.le).next (h.same.consistent hdb) junk entry _ hrule with ⟨hok, hentry, _⟩
  exact ⟨hok, hentry.trans (List.getElem?_eq_getElem hj).symm⟩

theorem Follows.next_past {db it : Store} {j : ℕ} (h : db.Follows it j) (hdb : db.Consistent)
    (hj : db.rules.length ≤ j) (junk : DBHeader) (entry : Entry) :
    (it.iteratorGetNextEntry junk entry).1 = .error := by
  apply ((h.same.consistent hdb).seek_past _ _ _ _ _).1
  rw [h.same.rules_eq, h.entry_eq]
  exact hj

/-- Call `j` after `PDB_iteratorBegin` answers as `PDB_getEntry` does for `j`, and reports an
error from the number of entries on. -/
theorem iterated_eq_getEntry (db : Store) (hdb : db.Consistent) (locals : ℕ → DBHeader × Entry)
    (j : ℕ) (hj : j < 2 ^ 8) (header : DBHeader) (entry : Entry) :
    let next := (db.iterated locals j).iteratorGetNextEntry (locals j).1 (locals j).2
    let lookup := db.getEntry header entry (BitVec.ofNat 8 j)
    next.1 = lookup.status ∧ (next.1 = .ok → next.2.1 = lookup.entry) ∧
      (next.1 = .error ↔ db.header.nEntries.toNat ≤ j) := by
  intro next lookup
  have hfollows := follows_iterated hdb locals hj
  have hbyte : (BitVec.ofNat 8 j).toNat = j := by
    rw [BitVec.toNat_ofNat, Nat.mod_eq_of_lt hj]
  rw [← hdb.length_rules]
  by_cases hlt : j < db.rules.length
  · rcases hfollows.next_listed hdb hlt (locals j).1 (locals j).2 with ⟨hok, hentry⟩
    rcases hdb.getEntry_listed header entry (BitVec.ofNat 8 j) (by rwa [hbyte])
      with ⟨hlookup, hfound, _⟩
    rw [hbyte] at hfound
    refine ⟨hok.trans hlookup.symm, fun _ => hentry.trans hfound.symm, ?_⟩
    apply iff_of_false
    · intro herror
      exact absurd (herror.symm.trans hok) Status.noConfusion
    · exact not_le.mpr hlt
  · have hpast := not_lt.mp hlt
    have herror := hfollows.next_past hdb hpast (locals j).1 (locals j).2
    have hlookup : lookup.status = .error :=
      (hdb.seek_past header _ (BitVec.ofNat 8 j) origin (by rwa [hbyte])).1
    refine ⟨herror.trans hlookup.symm, ?_, iff_of_true herror hpast⟩
    intro hok
    exact absurd (herror.symm.trans hok) Status.noConfusion

def exampleStore : Store := run Store.call erased.format.2 exampleCalls

/-- The second call finds the rule behind the hole, as `PDB_getEntry` does for entry 1. -/
theorem iterated_eq_getEntry_exampleStore :
    let locals := fun n : ℕ => (erased.header, exampleEntry (BitVec.ofNat 8 n))
    let next := (exampleStore.iterated locals 1).iteratorGetNextEntry (locals 1).1 (locals 1).2
    let lookup := exampleStore.getEntry exampleStore.header (exampleEntry 0) (BitVec.ofNat 8 1)
    (next.1 = lookup.status ∧ (next.1 = .ok → next.2.1 = lookup.entry) ∧
      (next.1 = .error ↔ exampleStore.header.nEntries.toNat ≤ 1)) ∧
    next.2.1.map Entry.event = some 5 :=
  ⟨iterated_eq_getEntry exampleStore (Open.consistent_run ⟨rfl, rfl⟩ exampleCalls)
      (fun n => (erased.header, exampleEntry (BitVec.ofNat 8 n))) 1 (by decide)
      exampleStore.header (exampleEntry 0),
    by decide +kernel⟩

end Store

end Aquila.ProtocolDB
