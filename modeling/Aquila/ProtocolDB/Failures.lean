import Aquila.Persist.Blocks
import Aquila.ProtocolDB.Refinement
import Aquila.Library.Traced

/-! # Failed block accesses

No operation looks at the status of the block accesses it makes, so a refused access
shows in the result only when the header that is used designates no slot.
-/

namespace Aquila.ProtocolDB
open Library

/-- A call of `PDB_appendEntry`, `PDB_setEntry`, `PDB_getEntry` or `PDB_delEntry`. -/
inductive EntryCall where
  | append (entry : Entry)
  | set (entry : Entry) (nEntry : Byte)
  | get (entry : Entry) (nEntry : Byte)
  | del (nEntry : Byte)

def EntryCall.operation : EntryCall → Operation
  | .append entry => .appendEntry entry
  | .set entry nEntry => .setEntry entry nEntry
  | .get entry nEntry => .getEntry entry nEntry
  | .del nEntry => .delEntry nEntry

def logged {α : Type} (r : Status × α) : Traced Status α := do
  Traced.touch r.1
  pure r.2

namespace Store

/-! ### The operations with the statuses of their block accesses -/

def appendEntryLogged (db : Store) (header : DBHeader) (entry : Entry) :
    Traced Status (Status × Store) := do
  let header ← logged (db.readHeader header)
  if !decide (header.nEntries < BitVec.ofNat 8 maxEntries) then pure (.error, db)
  else
    match header.freeSlot nIndexSectors 0 with
    | none => pure (.error, db)
    | some (i, bit) => do
      let db ← logged (db.writeEntry entry (BitVec.ofNat 8 (i * 8 + bit)))
      let db ← logged (db.writeHeader (header.occupy i bit))
      pure (.ok, db)

def getSetDelEntryLogged (db : Store) (header : DBHeader) (action : Action) (nEntry : Byte)
    (start : Cursor) : Traced Status Outcome := do
  let header ← logged (db.readHeader header)
  let unchanged := match action with
    | .get entry => some entry
    | .set entry => some entry
    | .del => none
  if !decide (nEntry < header.nEntries) then pure ⟨.error, unchanged, db, start⟩
  else
    match header.seek nEntry start with
    | .missed cursor => pure ⟨.error, unchanged, db, cursor⟩
    | .found cursor =>
      let absEntry := BitVec.ofNat 8 (cursor.sector * 8 + cursor.bit)
      match action with
      | .get entry => do
        let read ← logged (db.readEntry entry absEntry)
        pure ⟨.ok, some read, db, cursor⟩
      | .set entry => do
        let db ← logged (db.writeEntry entry absEntry)
        pure ⟨.ok, some entry, db, cursor⟩
      | .del => do
        let db ← logged (db.writeHeader (header.release cursor.sector cursor.bit))
        pure ⟨.ok, none, db, cursor⟩

@[simp] theorem value_logged {α : Type} (r : Status × α) : (logged r).value = r.2 := rfl

theorem value_appendEntryLogged (db : Store) (header : DBHeader) (entry : Entry) :
    (db.appendEntryLogged header entry).value = db.appendEntry header entry := by
  rw [appendEntryLogged, appendEntry, Traced.value_bind, value_logged]
  split
  case isTrue => rfl
  case isFalse =>
    cases ((db.readHeader header).2).freeSlot nIndexSectors 0 with
    | none => rfl
    | some s => rfl

theorem value_getSetDelEntryLogged (db : Store) (header : DBHeader) (action : Action)
    (nEntry : Byte) (start : Cursor) :
    (db.getSetDelEntryLogged header action nEntry start).value =
      db.getSetDelEntry header action nEntry start := by
  simp only [getSetDelEntryLogged, getSetDelEntry, Traced.value_bind, value_logged]
  by_cases h : nEntry < (db.readHeader header).2.nEntries
  · simp only [h, decide_true, Bool.not_true, Bool.false_eq_true, if_false]
    cases ((db.readHeader header).2).seek nEntry start with
    | missed cursor => rfl
    | found cursor => cases action <;> rfl
  · simp only [h, decide_false, Bool.not_false, if_true]
    rfl

def report (db : Store) (header : DBHeader) : EntryCall → Traced Status Status
  | .append entry => do
    let result ← db.appendEntryLogged header entry
    pure result.1
  | .set entry nEntry => do
    let outcome ← db.getSetDelEntryLogged header (.set entry) nEntry origin
    pure outcome.status
  | .get entry nEntry => do
    let outcome ← db.getSetDelEntryLogged header (.get entry) nEntry origin
    pure outcome.status
  | .del nEntry => do
    let outcome ← db.getSetDelEntryLogged header .del nEntry origin
    pure outcome.status

theorem value_report (db : Store) (header : DBHeader) (op : EntryCall) :
    (db.report header op).value = (db.perform header op.operation).1 := by
  cases op with
  | append entry => exact congrArg Prod.fst (db.value_appendEntryLogged header entry)
  | set entry nEntry =>
    exact congrArg Outcome.status
      (db.value_getSetDelEntryLogged header (.set entry) nEntry origin)
  | get entry nEntry =>
    exact congrArg Outcome.status
      (db.value_getSetDelEntryLogged header (.get entry) nEntry origin)
  | del nEntry =>
    exact congrArg Outcome.status (db.value_getSetDelEntryLogged header .del nEntry origin)

/-- The call reports success only if every block access succeeded, and an error otherwise. -/
def Reports (db : Store) (header : DBHeader) (op : EntryCall) : Prop :=
  ((db.perform header op.operation).1 = .ok → (db.report header op).Within (· = .ok)) ∧
    ((db.perform header op.operation).1 ≠ .ok → (db.perform header op.operation).1 = .error)

/-- The header that an operation works on: the stored one, or what its local variable held. -/
def localHeader (db : Store) (header : DBHeader) : DBHeader :=
  if db.persist.blockOutside 0 (BitVec.ofNat 16 headerLen) then header
  else db.header

def HeaderInside (db : Store) : Prop :=
  db.persist.blockOutside 0 (BitVec.ofNat 16 headerLen) = false

def SlotInside (db : Store) (k : ℕ) : Prop :=
  db.persist.blockOutside (slotAddress (BitVec.ofNat 8 k)) (BitVec.ofNat 16 entryLen) = false

end Store

/-- The slot that an operation picks in a header. -/
def EntryCall.target (h : DBHeader) : EntryCall → Option ℕ
  | .append _ =>
    if h.nEntries < BitVec.ofNat 8 maxEntries then
      (h.freeSlot nIndexSectors 0).map (fun s => s.1 * 8 + s.2)
    else none
  | .set _ nEntry | .get _ nEntry | .del nEntry =>
    if nEntry < h.nEntries then
      match h.seek nEntry Store.origin with
      | .found cursor => some (cursor.sector * 8 + cursor.bit)
      | .missed _ => none
    else none

/-- Whether an operation reads or writes the entry in its slot. -/
def EntryCall.UsesSlot : EntryCall → Prop
  | .del _ => False
  | _ => True

namespace Store

theorem readHeader_eq (db : Store) (header : DBHeader) :
    (db.readHeader header).2 = db.localHeader header := by
  simp only [readHeader, Persist.readBlock, localHeader]
  by_cases h : db.persist.blockOutside 0 (BitVec.ofNat 16 headerLen) = true
  · rw [if_pos h, if_pos h, DBHeader.ofBytes_toBytes]
  · rw [if_neg h, if_neg h]
    rfl

@[simp] theorem within_logged {α : Type} (P : Status → Prop) (r : Status × α) :
    (logged r).Within P ↔ P r.1 := by
  rw [logged, Traced.within_bind, Traced.within_touch]
  exact and_iff_left (Traced.within_pure _ _)

theorem readHeader_ok_iff (db : Store) (header : DBHeader) :
    (db.readHeader header).1 = .ok ↔ db.HeaderInside :=
  db.persist.readBlock_ok_iff db.rom header.toBytes 0 _

theorem writeHeader_ok_iff (db : Store) (header : DBHeader) :
    (db.writeHeader header).1 = .ok ↔ db.HeaderInside :=
  db.persist.writeBlock_ok_iff db.rom header.toBytes 0 _

theorem readEntry_ok_iff (db : Store) (entry : Entry) (k : ℕ) :
    (db.readEntry entry (BitVec.ofNat 8 k)).1 = .ok ↔ db.SlotInside k :=
  db.persist.readBlock_ok_iff db.rom entry.toBytes _ _

theorem writeEntry_ok_iff (db : Store) (entry : Entry) (k : ℕ) :
    (db.writeEntry entry (BitVec.ofNat 8 k)).1 = .ok ↔ db.SlotInside k :=
  db.persist.writeBlock_ok_iff db.rom entry.toBytes _ _

/-- Without a slot the call ends in an error; with one it ends in success, whatever became of its
block accesses. -/
def Decided (db : Store) (op : EntryCall) (x : Traced Status Status) : Option ℕ → Prop
  | none => x.value = .error
  | some k => x.value = .ok ∧
    (x.Within (· = .ok) ↔ db.HeaderInside ∧ (op.UsesSlot → db.SlotInside k))

theorem report_append (db : Store) (header : DBHeader) (entry : Entry) :
    db.Decided (.append entry) (db.report header (.append entry))
      ((EntryCall.append entry).target (db.localHeader header)) := by
  rw [report, appendEntryLogged, EntryCall.target, ← readHeader_eq]
  by_cases h : (db.readHeader header).2.nEntries < BitVec.ofNat 8 maxEntries
  · have hle : ¬ BitVec.ofNat 8 maxEntries ≤ (db.readHeader header).2.nEntries :=
      BitVec.not_le.mpr h
    rw [if_pos h]
    cases hslot : (db.readHeader header).2.freeSlot nIndexSectors 0 with
    | none => simp [Decided, hslot]
    | some s =>
      simp only [Decided, Option.map_some]
      constructor
      · simp [hle, hslot]
      · simp only [Traced.value_bind, Traced.within_bind, value_logged, within_logged, h, hslot,
          decide_true, Bool.not_true, Bool.false_eq_true, if_false, Traced.within_pure, and_true,
          readHeader_ok_iff, writeEntry_ok_iff, writeHeader_ok_iff, EntryCall.UsesSlot,
          forall_const]
        -- the header is read and written in the same block
        constructor
        · rintro ⟨hheader, hentry, _⟩
          exact ⟨hheader, hentry⟩
        · rintro ⟨hheader, hentry⟩
          exact ⟨hheader, hentry, hheader⟩
  · have hle := BitVec.not_lt.mp h
    rw [if_neg h]
    simp [Decided, hle]

/-- What `PDB__getSetDelEntry` reports, for each of the three operations that call it. -/
theorem getSetDelEntry_decided (db : Store) (header : DBHeader) (action : Action) (nEntry : Byte)
    (op : EntryCall) (huses : op.UsesSlot ↔ action ≠ .del) :
    db.Decided op (do
      let outcome ← db.getSetDelEntryLogged header action nEntry origin
      pure outcome.status)
      (if nEntry < (db.localHeader header).nEntries then
        match (db.localHeader header).seek nEntry origin with
        | .found cursor => some (cursor.sector * 8 + cursor.bit)
        | .missed _ => none
      else none) := by
  rw [← readHeader_eq]
  by_cases h : nEntry < (db.readHeader header).2.nEntries
  · have hle : ¬ (db.readHeader header).2.nEntries ≤ nEntry := BitVec.not_le.mpr h
    rw [if_pos h]
    cases hseek : (db.readHeader header).2.seek nEntry origin with
    | missed cursor => simp [Decided, getSetDelEntryLogged, hle, hseek]
    | found cursor =>
      cases action with
      | get entry =>
        simp [Decided, getSetDelEntryLogged, hle, hseek, huses, readHeader_ok_iff, readEntry_ok_iff]
      | set entry =>
        simp [Decided, getSetDelEntryLogged, hle, hseek, huses, readHeader_ok_iff,
          writeEntry_ok_iff]
      | del =>
        simp [Decided, getSetDelEntryLogged, hle, hseek, huses, readHeader_ok_iff,
          writeHeader_ok_iff]
  · have hle := BitVec.not_lt.mp h
    rw [if_neg h]
    simp [Decided, getSetDelEntryLogged, hle]

theorem report_decided (db : Store) (header : DBHeader) (op : EntryCall) :
    db.Decided op (db.report header op) (op.target (db.localHeader header)) := by
  cases op with
  | append entry => exact db.report_append header entry
  | set entry nEntry =>
    exact db.getSetDelEntry_decided header (.set entry) nEntry (.set entry nEntry)
      (iff_of_true trivial Action.noConfusion)
  | get entry nEntry =>
    exact db.getSetDelEntry_decided header (.get entry) nEntry (.get entry nEntry)
      (iff_of_true trivial Action.noConfusion)
  | del nEntry =>
    exact db.getSetDelEntry_decided header .del nEntry (.del nEntry)
      (iff_of_false id (fun hne => hne rfl))

/-- A call reports its accesses exactly when the slot that the header in use designates, if any,
can be reached together with the header. -/
theorem reports_iff_target (db : Store) (header : DBHeader) (op : EntryCall) :
    db.Reports header op ↔ ∀ k ∈ op.target (db.localHeader header),
      db.HeaderInside ∧ (op.UsesSlot → db.SlotInside k) := by
  have hdecided := db.report_decided header op
  rw [Reports, ← value_report]
  cases htarget : op.target (db.localHeader header) with
  | none =>
    rw [htarget] at hdecided
    have herror : (db.report header op).value = .error := hdecided
    rw [herror]
    simp
  | some k =>
    rw [htarget] at hdecided
    rcases hdecided with ⟨hok, hwithin⟩
    constructor
    · rintro ⟨hsuccess, _⟩ k' hk'
      cases hk'
      exact hwithin.mp (hsuccess hok)
    · intro h
      exact ⟨fun _ => hwithin.mpr (h k rfl), fun hne => absurd hok hne⟩

theorem target_lt {h : DBHeader} {op : EntryCall} {k : ℕ} (hk : k ∈ op.target h) :
    k < maxEntries := by
  have hseek : ∀ n : Byte, (if n < h.nEntries then
      match h.seek n origin with
      | .found cursor => some (cursor.sector * 8 + cursor.bit)
      | .missed _ => none
      else none) = some k → k < maxEntries := by
    intro n hn
    split at hn
    case isTrue =>
      have hsought := h.seek_sought n origin (origin_valid h)
      cases hr : h.seek n origin with
      | found cursor =>
        rw [hr] at hn hsought
        cases hn
        exact hsought.2.2.1
      | missed cursor =>
        rw [hr] at hn
        cases hn
    case isFalse => cases hn
  cases op with
  | append entry =>
    rw [EntryCall.target, Option.mem_def] at hk
    split at hk
    case isTrue =>
      rcases Option.map_eq_some_iff.mp hk with ⟨⟨i, bit⟩, hfree, rfl⟩
      rcases h.freeSlot_some nIndexSectors 0 rfl i bit hfree with ⟨hi, hbit, _⟩
      simp only [nIndexSectors, maxEntries] at hi ⊢
      omega
    case isFalse => cases hk
  | set entry nEntry => exact hseek nEntry hk
  | get entry nEntry => exact hseek nEntry hk
  | del nEntry => exact hseek nEntry hk

theorem Open.reports {db : Store} (hdb : db.Open) (header : DBHeader) (op : EntryCall) :
    db.Reports header op := by
  rw [reports_iff_target]
  intro k hk
  have hlt := target_lt hk
  constructor
  · exact hdb.block_inside (i := 0) (n := headerLen) (by decide)
  · intro _
    rw [SlotInside, slotAddress_ofNat hlt]
    apply hdb.block_inside
    simp only [headerLen, entryLen, maxEntries, persistSize] at hlt ⊢
    omega

/-- Without a region the bytes left in the local header decide. -/
theorem reports_uninitialized_iff {db : Store} (h : db.persist.initialized = false)
    (header : DBHeader) (op : EntryCall) : db.Reports header op ↔ op.target header = none := by
  have houtside : db.persist.blockOutside 0 (BitVec.ofNat 16 headerLen) = true := by
    simp [Persist.blockOutside, h]
  have hlocal : db.localHeader header = header := by rw [localHeader, if_pos houtside]
  rw [reports_iff_target, hlocal, Option.eq_none_iff_forall_not_mem]
  apply forall₂_congr
  intro k _
  rw [HeaderInside, houtside]
  simp

/-- When a call reports its accesses: in general, with a region and without one. -/
theorem call_reports_iff (db : Store) (header : DBHeader) (op : EntryCall) :
    (db.Reports header op ↔ ∀ k ∈ op.target (db.localHeader header),
      db.HeaderInside ∧ (op.UsesSlot → db.SlotInside k)) ∧
    (db.Open → db.Reports header op) ∧
    (db.persist.initialized = false → (db.Reports header op ↔ op.target header = none)) := by
  constructor
  · exact db.reports_iff_target header op
  · constructor
    · exact fun hopen => hopen.reports header op
    · exact fun h => reports_uninitialized_iff h header op

def leftover : DBHeader := ⟨fun _ => 0, 0, 0, fun _ => 0⟩

/-- After a `PDB_init` that found the EEPROM allocated, an append stores nothing and succeeds. -/
theorem unreported_append :
    let full : Store := ⟨⟨0, 0, false⟩, ⟨fun _ => 0xFF, []⟩, origin, 0⟩
    let db := (full.init leftover 8192).2.1
    let op := EntryCall.append ⟨⟨false, 0⟩, 1, fun _ => 0, 1, 0⟩
    (db.perform leftover op.operation).1 = .ok ∧
      (db.report leftover op).accesses = [.error, .error, .error] ∧ ¬ db.Reports leftover op := by
  intro full db op
  have hvalue : (db.perform leftover op.operation).1 = .ok := by
    rw [← value_report]
    decide
  have haccesses : (db.report leftover op).accesses = [.error, .error, .error] := by decide
  refine ⟨hvalue, haccesses, ?_⟩
  intro h
  have := h.1 hvalue .error (by rw [haccesses]; exact List.mem_cons_self)
  exact absurd this (by decide)

end Store

end Aquila.ProtocolDB
