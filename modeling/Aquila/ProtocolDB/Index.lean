import Aquila.ProtocolDB.Operations

/-! # The index scans

What the seek and free-slot loops find, in terms of slot ranks. The scan position
of the seek always carries the rank of the slot it points at.
-/

namespace Aquila.ProtocolDB
open Library SlotTable

def Cursor.position (c : Cursor) : ℕ := c.sector * 8 + c.bit

/-- A scan position inside the index whose count is the rank of its slot. -/
structure Cursor.Valid (h : DBHeader) (c : Cursor) : Prop where
  position_le : c.position ≤ maxEntries
  bit_lt : c.bit < 8
  count_eq : c.count = rank h.slot c.position

theorem origin_valid (h : DBHeader) : Store.origin.Valid h where
  position_le := Nat.zero_le _
  bit_lt := by decide
  count_eq := (rank_zero _).symm

/-- What the inner seek loop may return from bit `bit` of sector `i`: the wanted rank,
or the rank after the sector when the wanted one is not in between. -/
def BitsSought (h : DBHeader) (n : Byte) (i bit : ℕ) : BitScan → Prop
  | .found bit' count => bit ≤ bit' ∧ bit' < 8 ∧ h.slot (i * 8 + bit') = true ∧
      rank h.slot (i * 8 + bit') = n.toNat ∧ count = n.toNat
  | .passed count => count = rank h.slot (i * 8 + 8) ∧
      (n.toNat < rank h.slot (i * 8 + bit) ∨ rank h.slot (i * 8 + 8) ≤ n.toNat)

/-- What the seek may return from position `start`. -/
def Sought (h : DBHeader) (n : Byte) (start : ℕ) : Seek → Prop
  | .found c => c.Valid h ∧ start ≤ c.position ∧ c.position < maxEntries ∧
      h.slot c.position = true ∧ c.count = n.toNat
  | .missed c => c.Valid h ∧ c.position = maxEntries ∧
      (n.toNat < rank h.slot start ∨ rank h.slot maxEntries ≤ n.toNat)

namespace DBHeader

theorem bitsSought_skip (h : DBHeader) (n : Byte) (i bit : ℕ) (r : BitScan)
    (hskip : h.slot (i * 8 + bit) = true → rank h.slot (i * 8 + bit) ≠ n.toNat)
    (hr : BitsSought h n i (bit + 1) r) : BitsSought h n i bit r := by
  cases r with
  | found bit' count =>
    rcases hr with ⟨hle, hrest⟩
    exact ⟨by omega, hrest⟩
  | passed count =>
    rcases hr with ⟨hcount, hrange⟩
    refine ⟨hcount, hrange.imp_left ?_⟩
    intro hlt
    rw [← Nat.add_assoc, rank_succ] at hlt
    by_cases ha : h.slot (i * 8 + bit) = true
    · have := hskip ha
      rw [if_pos ha] at hlt
      omega
    · rw [if_neg ha] at hlt
      exact hlt

theorem scanBits_sought (h : DBHeader) (n : Byte) (i left bit count : ℕ)
    (hleft : bit + left = 8) (hcount : count = rank h.slot (i * 8 + bit)) :
    BitsSought h n i bit (h.scanBits n i left bit count) := by
  induction left generalizing bit count with
  | zero =>
    obtain rfl : bit = 8 := hleft
    exact ⟨hcount, Nat.lt_or_ge _ _⟩
  | succ left ih =>
    have hslot : h.slot (i * 8 + bit) = h.active i bit := h.slot_eq_active i (by omega)
    have hnext := rank_succ h.slot (i * 8 + bit)
    rw [Nat.add_assoc, hslot] at hnext
    simp only [scanBits]
    by_cases ha : h.active i bit = true
    · rw [if_pos ha]
      by_cases hn : count = n.toNat
      · rw [if_pos hn]
        exact ⟨le_rfl, by omega, hslot.trans ha, hcount.symm.trans hn, hn⟩
      · rw [if_neg hn]
        rw [if_pos ha] at hnext
        exact h.bitsSought_skip n i bit _ (fun _ => hcount ▸ hn)
          (ih (bit + 1) (count + 1) (by omega) (by omega))
    · rw [if_neg ha]
      rw [if_neg ha] at hnext
      exact h.bitsSought_skip n i bit _ (fun hs => absurd (hslot ▸ hs) ha)
        (ih (bit + 1) count (by omega) (by omega))

/-- A sector that does not hold the wanted rank can be skipped. -/
theorem sought_skip (h : DBHeader) (n : Byte) {start next : ℕ} (hle : start ≤ next) (r : Seek)
    (hskip : n.toNat < rank h.slot start ∨ rank h.slot next ≤ n.toNat)
    (hr : Sought h n next r) : Sought h n start r := by
  cases r with
  | found c =>
    rcases hr with ⟨hv, hstart, hrest⟩
    exact ⟨hv, hle.trans hstart, hrest⟩
  | missed c =>
    rcases hr with ⟨hv, hend, hrange⟩
    refine ⟨hv, hend, ?_⟩
    omega

theorem scanSectors_sought (h : DBHeader) (n : Byte) (left i bit count : ℕ)
    (hleft : i + left = nIndexSectors) (hc : (⟨i, bit, count⟩ : Cursor).Valid h) :
    Sought h n (i * 8 + bit) (h.scanSectors n left i bit count) := by
  induction left generalizing i bit count with
  | zero =>
    have hle : i * 8 + bit ≤ maxEntries := hc.position_le
    have hpos : i * 8 + bit = maxEntries := by
      simp only [nIndexSectors, maxEntries] at hleft hle ⊢
      omega
    refine ⟨hc, hpos, ?_⟩
    rw [hpos]
    exact Nat.lt_or_ge _ _
  | succ left ih =>
    have hbit : bit < 8 := hc.bit_lt
    have hi : i * 8 + 8 ≤ maxEntries := by
      simp only [nIndexSectors, maxEntries] at hleft ⊢
      omega
    have hscan := h.scanBits_sought n i (8 - bit) bit count (by omega) hc.count_eq
    simp only [scanSectors]
    cases hs : h.scanBits n i (8 - bit) bit count with
    | found bit' count' =>
      rw [hs] at hscan
      rcases hscan with ⟨hle, hlt, hactive, hrank, hcount⟩
      have hbefore : i * 8 + bit' < maxEntries := by omega
      exact ⟨⟨hbefore.le, hlt, hcount.trans hrank.symm⟩, Nat.add_le_add_left hle _, hbefore,
        hactive, hcount⟩
    | passed count' =>
      rw [hs] at hscan
      rcases hscan with ⟨hcount, hrange⟩
      have hend : (i + 1) * 8 + 0 = i * 8 + 8 := by omega
      have hnext : (⟨i + 1, 0, count'⟩ : Cursor).Valid h := by
        refine ⟨hend.trans_le hi, Nat.zero_lt_succ 7, ?_⟩
        rw [Cursor.position, hend]
        exact hcount
      refine h.sought_skip n (by omega) _ hrange ?_
      rw [← hend]
      exact ih (i + 1) 0 count' (by omega) hnext

/-- The seek from a valid position either stops at the wanted rank or reports that no
set bit from there on has it. -/
theorem seek_sought (h : DBHeader) (n : Byte) (c : Cursor) (hc : c.Valid h) :
    Sought h n c.position (h.seek n c) := by
  have hsector : c.sector ≤ nIndexSectors := by
    have := hc.position_le
    simp only [Cursor.position, maxEntries, nIndexSectors] at this ⊢
    omega
  exact h.scanSectors_sought n _ _ _ _ (by omega) hc

/-- From a valid position, the seek finds exactly the ranks from the count of that
position up to the number of set bits. -/
theorem seek_found (h : DBHeader) (n : Byte) (c : Cursor) (hc : c.Valid h)
    (hlow : c.count ≤ n.toNat) (hhigh : n.toNat < rank h.slot maxEntries) :
    ∃ c', h.seek n c = .found c' ∧ c'.Valid h ∧ c'.position < maxEntries ∧
      h.slot c'.position = true ∧ c'.count = n.toNat := by
  have hs := h.seek_sought n c hc
  have hcount := hc.count_eq
  cases hr : h.seek n c with
  | found c' =>
    rw [hr] at hs
    rcases hs with ⟨hv, _, hrest⟩
    exact ⟨c', rfl, hv, hrest⟩
  | missed c' =>
    rw [hr] at hs
    rcases hs with ⟨_, _, hrange⟩
    omega

theorem seek_missed (h : DBHeader) (n : Byte) (c : Cursor) (hc : c.Valid h)
    (hout : n.toNat < c.count ∨ rank h.slot maxEntries ≤ n.toNat) :
    ∃ c', h.seek n c = .missed c' ∧ c'.Valid h ∧ c'.position = maxEntries := by
  have hs := h.seek_sought n c hc
  cases hr : h.seek n c with
  | found c' =>
    rw [hr] at hs
    rcases hs with ⟨hv, hstart, hlt, hactive, hcount⟩
    have hmono := rank_mono h.slot hstart
    have hbelow := rank_lt_of_active hlt hactive
    rw [← hc.count_eq, ← hv.count_eq] at hmono
    rw [← hv.count_eq] at hbelow
    omega
  | missed c' =>
    rw [hr] at hs
    rcases hs with ⟨hv, hend, _⟩
    exact ⟨c', rfl, hv, hend⟩

/-! ### The first free slot -/

theorem freeBit_some (h : DBHeader) (i left bit : ℕ) (hleft : bit + left = 8) (b : ℕ)
    (hb : h.freeBit i left bit = some b) : bit ≤ b ∧ b < 8 ∧ h.slot (i * 8 + b) = false ∧
      ∀ j, bit ≤ j → j < b → h.slot (i * 8 + j) = true := by
  induction left generalizing bit with
  | zero => simp [freeBit] at hb
  | succ left ih =>
    have hslot : h.slot (i * 8 + bit) = h.active i bit := h.slot_eq_active i (by omega)
    cases ha : h.active i bit with
    | false =>
      obtain rfl : bit = b := by simpa [freeBit, ha] using hb
      exact ⟨le_rfl, by omega, hslot.trans ha, fun j h₁ h₂ => absurd h₁ (by omega)⟩
    | true =>
      obtain ⟨hle, hlt, hfree, hbefore⟩ := ih (bit + 1) (by omega) (by simpa [freeBit, ha] using hb)
      refine ⟨by omega, hlt, hfree, ?_⟩
      intro j h₁ h₂
      rcases Nat.eq_or_lt_of_le h₁ with rfl | h₃
      · exact hslot.trans ha
      · exact hbefore j h₃ h₂

theorem freeBit_none (h : DBHeader) (i left bit : ℕ) (hleft : bit + left = 8)
    (hb : h.freeBit i left bit = none) : ∀ j, bit ≤ j → j < 8 → h.slot (i * 8 + j) = true := by
  induction left generalizing bit with
  | zero =>
    intro j h₁ h₂
    omega
  | succ left ih =>
    have hslot : h.slot (i * 8 + bit) = h.active i bit := h.slot_eq_active i (by omega)
    cases ha : h.active i bit with
    | false => simp [freeBit, ha] at hb
    | true =>
      intro j h₁ h₂
      rcases Nat.eq_or_lt_of_le h₁ with rfl | h₃
      · exact hslot.trans ha
      · exact ih (bit + 1) (by omega) (by simpa [freeBit, ha] using hb) j h₃ h₂

theorem slot_of_bits (h : DBHeader) {i b k : ℕ}
    (hbits : ∀ j, 0 ≤ j → j < b → h.slot (i * 8 + j) = true) (h₁ : i * 8 ≤ k)
    (h₂ : k < i * 8 + b) : h.slot k = true := by
  have hslot := hbits (k - i * 8) (Nat.zero_le _) (by omega)
  rwa [Nat.add_sub_of_le h₁] at hslot

theorem freeSlot_some (h : DBHeader) (left i : ℕ) (hleft : i + left = nIndexSectors) (s b : ℕ)
    (hs : h.freeSlot left i = some (s, b)) : s < nIndexSectors ∧ b < 8 ∧
      h.slot (s * 8 + b) = false ∧ ∀ k, i * 8 ≤ k → k < s * 8 + b → h.slot k = true := by
  induction left generalizing i with
  | zero => simp [freeSlot] at hs
  | succ left ih =>
    cases hb : h.freeBit i 8 0 with
    | some b' =>
      simp only [freeSlot, hb, Option.some.injEq, Prod.mk.injEq] at hs
      rcases hs with ⟨rfl, rfl⟩
      rcases h.freeBit_some i 8 0 rfl b' hb with ⟨_, hlt, hfree, hbefore⟩
      exact ⟨by omega, hlt, hfree, fun k h₁ h₂ => h.slot_of_bits hbefore h₁ h₂⟩
    | none =>
      have hfull := h.freeBit_none i 8 0 rfl hb
      simp only [freeSlot, hb] at hs
      rcases ih (i + 1) (by omega) hs with ⟨hlt, hb8, hfree, hbefore⟩
      refine ⟨hlt, hb8, hfree, ?_⟩
      intro k h₁ h₂
      by_cases hk : k < (i + 1) * 8
      · exact h.slot_of_bits hfull h₁ (by omega)
      · exact hbefore k (by omega) h₂

theorem freeSlot_none (h : DBHeader) (left i : ℕ) (hleft : i + left = nIndexSectors)
    (hs : h.freeSlot left i = none) : ∀ k, i * 8 ≤ k → k < maxEntries → h.slot k = true := by
  induction left generalizing i with
  | zero =>
    intro k h₁ h₂
    simp only [nIndexSectors, maxEntries] at hleft h₂
    omega
  | succ left ih =>
    cases hb : h.freeBit i 8 0 with
    | some b' => simp [freeSlot, hb] at hs
    | none =>
      have hfull := h.freeBit_none i 8 0 rfl hb
      simp only [freeSlot, hb] at hs
      intro k h₁ h₂
      by_cases hk : k < (i + 1) * 8
      · exact h.slot_of_bits hfull h₁ (by omega)
      · exact ih (i + 1) (by omega) hs k (by omega) h₂

theorem freeSlot_lowest (h : DBHeader) (hfree : rank h.slot maxEntries < maxEntries) :
    ∃ s b, h.freeSlot nIndexSectors 0 = some (s, b) ∧ s < nIndexSectors ∧ b < 8 ∧
      h.slot (s * 8 + b) = false ∧ rank h.slot (s * 8 + b) = s * 8 + b := by
  cases hs : h.freeSlot nIndexSectors 0 with
  | none =>
    rcases (exists_free_iff _ _).mp hfree with ⟨k, hk, hkf⟩
    have := h.freeSlot_none nIndexSectors 0 rfl hs k (Nat.zero_le _) hk
    simp [hkf] at this
  | some p =>
    rcases p with ⟨s, b⟩
    rcases h.freeSlot_some nIndexSectors 0 rfl s b hs with ⟨hlt, hb, hslot, hbefore⟩
    refine ⟨s, b, rfl, hlt, hb, hslot, (rank_eq_self_iff _ _).mpr ?_⟩
    intro k hk
    exact hbefore k (by omega) hk

end DBHeader

end Aquila.ProtocolDB
