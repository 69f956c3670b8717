import Aquila.Persist
import Aquila.Library.Run
import Mathlib.Data.List.Pairwise

/-! # Isolation of the EEPROM regions

Every region is meant to lie inside the EEPROM, apart from the others, and to be reached
only through its own `Persist`. The bounds checks compare sums of two 16-bit numbers, so
this holds as long as no check accepts a sum that has wrapped.
-/

namespace Aquila
open Library

namespace Eeprom

def cells (start : Word) (count : ℕ) : List Word :=
  (List.range count).map (fun i => start + BitVec.ofNat 16 i)

theorem mem_cells {start a : Word} {count : ℕ} :
    a ∈ cells start count ↔ (a - start).toNat < count := by
  simp only [cells, List.mem_map, List.mem_range]
  constructor
  · rintro ⟨i, hi, rfl⟩
    rw [BitVec.add_comm, BitVec.add_sub_cancel, BitVec.toNat_ofNat]
    exact (Nat.mod_le _ _).trans_lt hi
  · intro h
    refine ⟨(a - start).toNat, h, ?_⟩
    rw [BitVec.ofNat_toNat, BitVec.setWidth_eq, BitVec.add_comm, BitVec.sub_add_cancel]

theorem writeBlock_frame (rom : Eeprom) {start a : Word} {src : List Byte} {count : ℕ}
    (hsrc : src.length ≤ count) (ha : a ∉ cells start count) :
    (rom.writeBlock start src).cell a = rom.cell a := by
  rw [mem_cells] at ha
  exact writeBlock_outside rom start src a (by omega)

end Eeprom

/-- One access through a `Persist`, with the destination or the source of a block. -/
inductive Access where
  | read (address : Word)
  | write (address : Word) (value : Byte)
  | readBlock (dest : List Byte) (address size : Word)
  | writeBlock (src : List Byte) (address size : Word)

namespace Persist

def Holds (self : Persist) (a : Word) : Prop := (a - self.start).toNat < self.size.toNat

instance (self : Persist) (a : Word) : Decidable (self.Holds a) :=
  inferInstanceAs (Decidable ((a - self.start).toNat < self.size.toNat))

def Apart (r r' : Persist) : Prop := ∀ a, r.Holds a → ¬ r'.Holds a

instance : Std.Symm Apart := ⟨fun _ _ h a ha' ha => h a ha ha'⟩

def access (self : Persist) (rom : Eeprom) : Access → Status × List Byte × Eeprom
  | .read address => ((self.read rom address).1, [(self.read rom address).2], rom)
  | .write address value => ((self.write rom address value).1, [], (self.write rom address value).2)
  | .readBlock dest address size =>
    ((self.readBlock rom dest address size).1, (self.readBlock rom dest address size).2, rom)
  | .writeBlock src address size =>
    ((self.writeBlock rom src address size).1, [], (self.writeBlock rom src address size).2)

def touched (self : Persist) : Access → List Word
  | .read address | .write address _ =>
    if self.byteOutside address then [] else [self.start + address]
  | .readBlock _ address size | .writeBlock _ address size =>
    if self.blockOutside address size then []
    else Eeprom.cells (self.start + address) size.toNat

theorem access_frame (self : Persist) (rom : Eeprom) (c : Access) {a : Word}
    (ha : a ∉ self.touched c) : (self.access rom c).2.2.cell a = rom.cell a := by
  cases c with
  | read address => rfl
  | readBlock dest address size => rfl
  | write address value =>
    simp only [access, write, touched] at ha ⊢
    split
    case isTrue => rfl
    case isFalse hout =>
      rw [if_neg hout, List.mem_singleton] at ha
      apply Eeprom.writeBlock_outside
      have hne : a - (self.start + address) ≠ 0 := fun h0 => ha (by bv_omega)
      exact Nat.one_le_iff_ne_zero.mpr (fun h0 => hne (BitVec.eq_of_toNat_eq h0))
  | writeBlock src address size =>
    simp only [access, writeBlock, touched] at ha ⊢
    split
    case isTrue => rfl
    case isFalse hout =>
      rw [if_neg hout] at ha
      exact Eeprom.writeBlock_frame rom (List.length_take_le _ _) ha

/-- No check of the access accepts a sum that has wrapped. -/
def Unwrapped (self : Persist) : Access → Prop
  | .read _ | .write _ _ => True
  | .readBlock _ address size | .writeBlock _ address size =>
    self.blockOutside address size = false → address.toNat + size.toNat < 2 ^ 16

instance decidableUnwrapped (self : Persist) : ∀ c, Decidable (self.Unwrapped c)
  | .read _ | .write _ _ => isTrue trivial
  | .readBlock _ address size | .writeBlock _ address size =>
    inferInstanceAs (Decidable
      (self.blockOutside address size = false → address.toNat + size.toNat < 2 ^ 16))

/-- A block that passed the check stays in the region exactly if its end did not wrap. -/
theorem block_within_iff (self : Persist) {address size : Word}
    (h : self.blockOutside address size = false) :
    (∀ a ∈ Eeprom.cells (self.start + address) size.toNat, self.Holds a) ↔
      address.toNat + size.toNat < 2 ^ 16 := by
  have hsize := self.size.isLt
  have haddress := address.isLt
  have hlength := size.isLt
  simp only [blockOutside, Bool.or_eq_false_iff, decide_eq_false_iff_not, BitVec.le_def,
    BitVec.toNat_add, not_le] at h
  rcases h with ⟨⟨_, hlt⟩, hend⟩
  have hoffset (i : ℕ) : (self.start + address + BitVec.ofNat 16 i - self.start).toNat =
      (address.toNat + i) % 2 ^ 16 := by
    have hsub : self.start + address + BitVec.ofNat 16 i - self.start =
        address + BitVec.ofNat 16 i := by
      bv_omega
    rw [hsub, BitVec.toNat_add, BitVec.toNat_ofNat, Nat.add_mod_mod]
  simp only [Eeprom.cells, List.forall_mem_map, List.mem_range, Holds, hoffset]
  constructor
  · -- a wrapped block passes over the last offset of all, which no region holds
    intro hall
    by_contra hwrap
    have hlast := hall (2 ^ 16 - 1 - address.toNat) (by omega)
    rw [Nat.add_sub_of_le (by omega), Nat.mod_eq_of_lt (by omega)] at hlast
    omega
  · intro hfit i hi
    rw [Nat.mod_eq_of_lt hfit] at hend
    rw [Nat.mod_eq_of_lt (by omega)]
    omega

theorem touched_within_iff (self : Persist) (c : Access) :
    (∀ a ∈ self.touched c, self.Holds a) ↔ self.Unwrapped c := by
  have hbyte (address : Word) (h : self.byteOutside address = false) :
      self.Holds (self.start + address) := by
    simp only [byteOutside, Bool.or_eq_false_iff, decide_eq_false_iff_not, BitVec.le_def,
      not_le] at h
    rw [Holds, BitVec.add_comm, BitVec.add_sub_cancel]
    exact h.2
  cases c with
  | read address | write address value =>
    refine iff_of_true ?_ trivial
    simp only [touched]
    split
    case isTrue => simp
    case isFalse hout => simpa using hbyte address (by simpa using hout)
  | readBlock data address size | writeBlock data address size =>
    simp only [touched, Unwrapped]
    split
    case isTrue hout => simp [hout]
    case isFalse hout =>
      have hin : self.blockOutside address size = false := by simpa using hout
      rw [block_within_iff self hin]
      exact ⟨fun h _ => h, fun h => h hin⟩

theorem holds_iff (self : Persist) (a : Word)
    (hend : self.start.toNat + self.size.toNat < 2 ^ 16) :
    self.Holds a ↔
      self.start.toNat ≤ a.toNat ∧ a.toNat < self.start.toNat + self.size.toNat := by
  have ha := a.isLt
  have hstart := self.start.isLt
  rw [Holds, BitVec.toNat_sub]
  omega

end Persist

/-! ### All stores of a board -/

/-- An access that was made: through which `Persist`, to which cells, and the EEPROM around it. -/
structure Reach where
  store : Persist
  touched : List Word
  before : Eeprom
  after : Eeprom

/-- The allocation pointer, the stores and the EEPROM, with the history of the regions that
were accepted and of the accesses, the last ones first. -/
structure Board (ι : Type*) where
  lastAllocatedAddress : Word
  store : ι → Persist
  rom : Eeprom
  regions : List Persist
  reaches : List Reach

/-- A call of the `Persist` interface on one of the stores. -/
inductive BoardCall (ι : Type*) where
  | init (i : ι) (size : Word)
  | access (i : ι) (c : Access)

namespace Board

variable {ι : Type*}

def reset (store : ι → Persist) (rom : Eeprom) : Board ι where
  lastAllocatedAddress := 0
  store i := { store i with initialized := false }
  rom := rom
  regions := []
  reaches := []

/-- The accepted regions lie inside the EEPROM and apart from each other, every access reached
cells of its own region only, and none changed the data of another store. -/
structure Isolated (b : Board ι) : Prop where
  inside : ∀ r ∈ b.regions, ∀ a, r.Holds a → a.toNat < eepromSize
  apart : b.regions.Pairwise Persist.Apart
  own : ∀ c ∈ b.reaches, ∀ a ∈ c.touched, c.store.Holds a
  kept : ∀ c ∈ b.reaches, ∀ r ∈ b.regions, r ≠ c.store →
    ∀ a, r.Holds a → c.after.cell a = c.before.cell a

/-- No check of the call accepts a sum that has wrapped. -/
def Unwrapped (b : Board ι) : BoardCall ι → Prop
  | .init _ size =>
    b.lastAllocatedAddress + size ≤ BitVec.ofNat 16 eepromSize →
      b.lastAllocatedAddress.toNat + size.toNat < 2 ^ 16
  | .access i c => (b.store i).Unwrapped c

/-- What the history says of the state, in isolated runs. -/
structure Booked (b : Board ι) : Prop where
  last_le : b.lastAllocatedAddress.toNat ≤ eepromSize
  listed : ∀ i, (b.store i).initialized = true → b.store i ∈ b.regions
  below : ∀ r ∈ b.regions, r.start.toNat + r.size.toNat ≤ b.lastAllocatedAddress.toNat
  apart : b.regions.Pairwise Persist.Apart
  within : ∀ c ∈ b.reaches, ∀ a ∈ c.touched, c.store.Holds a
  source : ∀ c ∈ b.reaches, c.touched ≠ [] → c.store ∈ b.regions
  frame : ∀ c ∈ b.reaches, ∀ a ∉ c.touched, c.after.cell a = c.before.cell a

instance decidableUnwrapped (b : Board ι) : ∀ l, Decidable (b.Unwrapped l)
  | .init _ size =>
    inferInstanceAs (Decidable
      (b.lastAllocatedAddress + size ≤ BitVec.ofNat 16 eepromSize →
        b.lastAllocatedAddress.toNat + size.toNat < 2 ^ 16))
  | .access i c => inferInstanceAs (Decidable ((b.store i).Unwrapped c))

theorem reset_booked (store : ι → Persist) (rom : Eeprom) : (reset store rom).Booked where
  last_le := Nat.zero_le _
  listed i h := by cases h
  below := by simp [reset]
  apart := List.Pairwise.nil
  within := by simp [reset]
  source := by simp [reset]
  frame := by simp [reset]

theorem Booked.isolated {b : Board ι} (h : b.Booked) : b.Isolated where
  inside r hr a ha := by
    have hlast := h.last_le
    have hend := h.below r hr
    have hsize : eepromSize < 2 ^ 16 := by decide
    rw [r.holds_iff a (by omega)] at ha
    omega
  apart := h.apart
  own := h.within
  kept c hc r hr hne a ha := by
    apply h.frame c hc a
    intro htouched
    have hlisted := h.source c hc (List.ne_nil_of_mem htouched)
    exact h.apart.forall hr hlisted hne a ha (h.within c hc a htouched)

section
variable [DecidableEq ι]

def call (b : Board ι) : BoardCall ι → Board ι
  | .init i size =>
    let (status, self, last) := Persist.init b.lastAllocatedAddress (b.store i) size
    { b with
      lastAllocatedAddress := last
      store := Function.update b.store i self
      regions := if status = .ok then self :: b.regions else b.regions }
  | .access i c =>
    let (_, _, rom) := (b.store i).access b.rom c
    { b with
      rom := rom
      reaches := ⟨b.store i, (b.store i).touched c, b.rom, rom⟩ :: b.reaches }

theorem init_refused (b : Board ι) (i : ι) {size : Word}
    (h : ¬ b.lastAllocatedAddress + size ≤ BitVec.ofNat 16 eepromSize) :
    b.call (.init i size) =
      { b with store := Function.update b.store i { b.store i with initialized := false } } := by
  simp only [call, Persist.init, if_neg h]
  rfl

theorem init_accepted (b : Board ι) (i : ι) {size : Word}
    (h : b.lastAllocatedAddress + size ≤ BitVec.ofNat 16 eepromSize) :
    b.call (.init i size) =
      { b with
        lastAllocatedAddress := b.lastAllocatedAddress + size
        store := Function.update b.store i ⟨b.lastAllocatedAddress, size, true⟩
        regions := ⟨b.lastAllocatedAddress, size, true⟩ :: b.regions } := by
  simp only [call, Persist.init, if_pos h]
  rfl

theorem initialized_of_touched (self : Persist) (c : Access) (h : self.touched c ≠ []) :
    self.initialized = true := by
  by_contra hinit
  apply h
  have hfalse : self.initialized = false := by simpa using hinit
  cases c <;> simp [Persist.touched, Persist.byteOutside, Persist.blockOutside, hfalse]

theorem Booked.call {b : Board ι} (h : b.Booked) (l : BoardCall ι) (hl : b.Unwrapped l) :
    (b.call l).Booked := by
  cases l with
  | access i c =>
    exact {
      last_le := h.last_le
      listed := h.listed
      below := h.below
      apart := h.apart
      within := List.forall_mem_cons.mpr ⟨((b.store i).touched_within_iff c).mpr hl, h.within⟩
      source := List.forall_mem_cons.mpr
        ⟨fun ht => h.listed i (initialized_of_touched _ c ht), h.source⟩
      frame := List.forall_mem_cons.mpr
        ⟨fun a ha => (b.store i).access_frame b.rom c ha, h.frame⟩ }
  | init i size =>
    have hlisted (self : Persist) (regions : List Persist) (hself : self.initialized = true →
        self ∈ regions) (hrest : ∀ r ∈ b.regions, r ∈ regions) (j : ι)
        (hj : (Function.update b.store i self j).initialized = true) :
        Function.update b.store i self j ∈ regions := by
      by_cases hij : j = i
      · subst hij
        rw [Function.update_self] at hj ⊢
        exact hself hj
      · rw [Function.update_of_ne hij] at hj ⊢
        exact hrest _ (h.listed j hj)
    by_cases haccept : b.lastAllocatedAddress + size ≤ BitVec.ofNat 16 eepromSize
    · have hsum : (b.lastAllocatedAddress + size).toNat =
          b.lastAllocatedAddress.toNat + size.toNat := by
        rw [BitVec.toNat_add, Nat.mod_eq_of_lt (hl haccept)]
      rw [init_accepted b i haccept]
      exact {
        last_le := haccept
        listed := hlisted _ _ (fun _ => List.mem_cons_self) (fun _ => List.mem_cons_of_mem _)
        below := List.forall_mem_cons.mpr ⟨hsum.ge, fun r hr => by
          have hend := h.below r hr
          rw [hsum]
          omega⟩
        apart := List.pairwise_cons.mpr ⟨fun r hr a ha hr' => by
          have hend := h.below r hr
          have hbound := hl haccept
          rw [Persist.holds_iff _ a hbound] at ha
          dsimp only at ha
          rw [r.holds_iff a (by omega)] at hr'
          exact absurd ha.1 (by omega), h.apart⟩
        within := h.within
        source := fun c hc ht => List.mem_cons_of_mem _ (h.source c hc ht)
        frame := h.frame }
    · rw [init_refused b i haccept]
      exact {
        last_le := h.last_le
        listed := hlisted _ _ (fun hinit => by cases hinit) (fun _ hr => hr)
        below := h.below
        apart := h.apart
        within := h.within
        source := h.source
        frame := h.frame }

/-- A region whose end wrapped leaves the EEPROM, a block whose end wrapped leaves its region. -/
theorem Booked.call_wrapped {b : Board ι} (h : b.Booked) (l : BoardCall ι)
    (hl : ¬ b.Unwrapped l) : ¬ (b.call l).Isolated := by
  intro hiso
  cases l with
  | init i size =>
    rw [Unwrapped, Classical.not_imp] at hl
    rcases hl with ⟨haccept, hwrap⟩
    have hlast := h.last_le
    have hsize : eepromSize < 2 ^ 16 - 1 := by decide
    rw [init_accepted b i haccept] at hiso
    have hin := hiso.inside _ List.mem_cons_self (BitVec.ofNat 16 (2 ^ 16 - 1)) (by
      rw [Persist.Holds, BitVec.toNat_sub, BitVec.toNat_ofNat]
      dsimp only
      omega)
    rw [BitVec.toNat_ofNat, Nat.mod_eq_of_lt (by decide)] at hin
    omega
  | access i c =>
    exact hl (((b.store i).touched_within_iff c).mp (hiso.own _ List.mem_cons_self))

theorem Isolated.of_call {b : Board ι} {l : BoardCall ι} (h : (b.call l).Isolated) :
    b.Isolated := by
  cases l with
  | init i size =>
    by_cases haccept : b.lastAllocatedAddress + size ≤ BitVec.ofNat 16 eepromSize
    · rw [init_accepted b i haccept] at h
      exact {
        inside := fun r hr => h.inside r (List.mem_cons_of_mem _ hr)
        apart := (List.pairwise_cons.mp h.apart).2
        own := h.own
        kept := fun c hc r hr => h.kept c hc r (List.mem_cons_of_mem _ hr) }
    · rw [init_refused b i haccept] at h
      exact ⟨h.inside, h.apart, h.own, h.kept⟩
  | access i c =>
    exact {
      inside := h.inside
      apart := h.apart
      own := fun c hc => h.own c (List.mem_cons_of_mem _ hc)
      kept := fun c hc => h.kept c (List.mem_cons_of_mem _ hc) }

/-- The stores of a board stay isolated exactly in the runs in which no bounds check accepts a
sum that has wrapped. -/
theorem run_isolated_iff (store : ι → Persist) (rom : Eeprom) (calls : List (BoardCall ι)) :
    (run call (reset store rom) calls).Isolated ↔
      Guarded call Unwrapped (reset store rom) calls :=
  run_iff_guarded (I := Booked) (fun _ l h hl => h.call l hl) (fun _ l h hl => h.call_wrapped l hl)
    (fun _ _ h hcall => h hcall.of_call) (fun _ h => h.isolated) (fun _ h => h)
    (reset_booked store rom) calls

end

def blank : Board ℕ := reset (fun _ => ⟨0, 0, false⟩) ⟨fun _ => 0xFF, []⟩

/-- The second of two regions wraps to an end of 488, and a block of a region to an end of 64. -/
theorem not_isolated :
    ¬ (run call blank [.init 0 1024, .init 1 65000]).Isolated ∧
      ¬ (run call blank [.init 0 1024, .access 0 (.readBlock [] 1000 64600)]).Isolated := by
  have hfirst : (blank.call (.init 0 1024)).Booked :=
    (reset_booked _ _).call _ (by decide)
  constructor
  · exact hfirst.call_wrapped (.init 1 65000) (by decide)
  · exact hfirst.call_wrapped (.access 0 (.readBlock [] 1000 64600)) (by decide)

end Board

end Aquila
