import Aquila.Bridge.Slip

/-! # Frames delivered from any stream

What the receiver delivers depends on the stream alone. The stale byte that
`parseEscapes` decodes after a frame is the one byte that is not reported, also when
a dangling escape consumes it.
-/

namespace Aquila.Bridge
open Library

def SlipAccess.InBounds : SlipAccess → Prop
  | .buffer i => 0 ≤ i ∧ i < slipMaxSize
  | .bufCopy i => 0 ≤ i ∧ i < slipMaxSize

@[simp] theorem SlipAccess.inBounds_buffer (i : ℕ) :
    InBounds (.buffer i) ↔ i < slipMaxSize := by
  simp [InBounds]

@[simp] theorem SlipAccess.inBounds_bufCopy (i : ℕ) :
    InBounds (.bufCopy i) ↔ i < slipMaxSize := by
  simp [InBounds]

def Delivery.frame (d : Delivery) : List Byte × Byte := (d.data.load 0 d.size.toNat, d.size)

/-- What `onReceive` is given for the bytes between two delimiters. -/
def slipFrame (raw : List Byte) : List Byte × Byte :=
  (slipCode.payload raw, BitVec.ofNat 8 (slipCode.payload raw).length)

namespace Slip

def Collecting (s : Slip) : Option (List Byte) → Prop
  | none => s.state = .idle
  | some bs => s.state = .receiving ∧ s.bufIndex = bs.length ∧ s.buffer.load 0 bs.length = bs ∧
    bs.length ≤ slipMaxSize - 1

/-! ### Bounds -/

/-- The decoded bytes never overtake the bytes of the copy they come from. -/
theorem parseLoop_within (size left i : ℕ) (s : Slip) (hsize : size < slipMaxSize)
    (hindex : s.bufIndex ≤ i) : (parseLoop size left i s).Within SlipAccess.InBounds := by
  induction left generalizing i s with
  | zero => exact Traced.within_pure _ _
  | succ left ih =>
    rw [parseLoop]
    split
    case isTrue hi =>
      have hcopy := (SlipAccess.inBounds_bufCopy i).mpr (by omega)
      have hnext := (SlipAccess.inBounds_bufCopy (i + 1)).mpr (by omega)
      have hbuffer := (SlipAccess.inBounds_buffer s.bufIndex).mpr (by omega)
      rw [Traced.within_bind, Traced.within_touch]
      apply And.intro hcopy
      split
      case isTrue =>
        have hrest := ih (i + 2) (s.push (slipCode.unescape (s.bufCopy (i + 1)))) (by
          simp only [push]
          omega)
        rw [Traced.within_bind, Traced.within_bind, Traced.within_touch, Traced.within_touch]
        exact ⟨hnext, hbuffer, hrest⟩
      case isFalse =>
        have hrest := ih (i + 1) (s.push (s.bufCopy i)) (by
          simp only [push]
          omega)
        rw [Traced.within_bind, Traced.within_touch]
        exact ⟨hbuffer, hrest⟩
    case isFalse => exact Traced.within_pure _ _

theorem parseEscapes_within (s : Slip) (h : s.bufIndex + 1 < slipMaxSize) :
    s.parseEscapes.Within SlipAccess.InBounds := by
  simp only [parseEscapes, Traced.within_bind, Traced.within_touchBlock,
    SlipAccess.inBounds_buffer, SlipAccess.inBounds_bufCopy]
  constructor
  · intro i hi
    omega
  · constructor
    · intro i hi
      omega
    · exact parseLoop_within _ _ _ _ h (Nat.le_refl _)

theorem receiving_within (s : Slip) (recv : Byte) :
    (s.receiving recv).Within SlipAccess.InBounds := by
  rw [receiving]
  split
  case isTrue => exact Traced.within_pure _ _
  case isFalse hroom =>
    have hroom' : s.bufIndex + 1 < slipMaxSize := by omega
    split
    case isTrue =>
      split
      case isTrue => exact Traced.within_pure _ _
      case isFalse =>
        rw [Traced.within_bind]
        exact ⟨s.parseEscapes_within hroom', Traced.within_pure _ _⟩
    case isFalse =>
      rw [Traced.within_bind, Traced.within_touch, SlipAccess.inBounds_buffer]
      exact ⟨by omega, Traced.within_pure _ _⟩

/-- No byte makes the receiver leave its buffers, whatever state it is in. -/
theorem loop_within (s : Slip) (recv : Byte) : (s.loop recv).Within SlipAccess.InBounds := by
  rw [loop]
  cases s.state with
  | idle =>
    dsimp only
    split
    case isTrue => exact receiving_within _ recv
    case isFalse => exact Traced.within_pure _ _
  | receiving => exact s.receiving_within recv
  | error => exact Traced.within_pure _ _

/-! ### Deliveries -/

theorem collecting_push {s : Slip} {bs : List Byte} (h : s.Collecting (some bs)) (b : Byte)
    (hroom : bs.length < slipMaxSize - 1) : (s.push b).Collecting (some (bs ++ [b])) := by
  rcases h with ⟨hstate, hindex, hload, _⟩
  refine ⟨hstate, ?_, ?_, ?_⟩
  · rw [push, hindex, List.length_append, List.length_singleton]
  · have hkept : (s.push b).buffer.load 0 bs.length = bs := by
      conv_rhs => rw [← hload]
      apply Memory.load_congr
      intro j _ hj
      rw [push, hindex]
      exact Function.update_of_ne (by omega) _ _
    have hlast : (s.push b).buffer (0 + (bs.length : ℤ)) = b := by
      rw [push, hindex, zero_add]
      exact Function.update_self _ _ _
    rw [List.length_append, List.length_singleton, Memory.load_add, hkept, Memory.load_succ, hlast]
    rfl
  · rw [List.length_append, List.length_singleton]
    omega

theorem loop_frame {s : Slip} {bs : List Byte} (h : s.Collecting (some bs)) (hne : bs ≠ [])
    (hlen : bs.length ≤ 253) :
    (s.loop slipCode.stop).value.2.state = .idle ∧
      (s.loop slipCode.stop).value.1.map Delivery.frame = some (slipFrame bs) := by
  rcases h with ⟨hstate, hindex, hload, _⟩
  rcases s.loop_deliver hstate bs hne hindex (hindex ▸ hload) (by
    simp only [slipMaxSize]
    omega) with ⟨d, hcall, hsize, hdata, hidle⟩
  have hpayload := slipCode.length_payload_le bs
  have hnat : d.size.toNat = (slipCode.payload bs).length := by
    rw [hsize, BitVec.toNat_ofNat, Nat.mod_eq_of_lt (by omega)]
  constructor
  · exact hidle
  · rw [hcall, Option.map_some, Delivery.frame, slipFrame, hnat, hdata, hsize]

theorem loop_collecting {s : Slip} {collected : Option (List Byte)} (h : s.Collecting collected)
    (recv : Byte) :
    (s.loop recv).value.2.Collecting (slipCode.receive 253 collected recv).2 ∧
      (s.loop recv).value.1.map Delivery.frame =
        (slipCode.receive 253 collected recv).1.map slipFrame := by
  cases collected with
  | none =>
    have hidle : s.state = .idle := h
    by_cases hrecv : recv = slipCode.stop
    · rw [hrecv, s.loop_start hidle, Stuffing.receive, if_pos rfl]
      exact ⟨⟨rfl, rfl, rfl, Nat.zero_le _⟩, rfl⟩
    · have hloop : (s.loop recv).value = (none, s) := by simp [loop, hidle, hrecv]
      rw [hloop, Stuffing.receive, if_neg hrecv]
      exact ⟨hidle, rfl⟩
  | some bs =>
    have hcollected := h
    rcases h with ⟨hstate, hindex, hload, hlen⟩
    simp only [slipMaxSize] at hlen
    rw [Stuffing.receive]
    by_cases hlong : 253 < bs.length
    · have hloop : (s.loop recv).value = (none, { s with state := .idle }) := by
        have hroom : slipMaxSize - 1 ≤ s.bufIndex := by
          simp only [slipMaxSize]
          omega
        simp [loop, receiving, hstate, hroom]
      rw [hloop, if_pos hlong]
      exact ⟨rfl, rfl⟩
    · rw [if_neg hlong]
      have hroom : s.bufIndex < slipMaxSize - 1 := by
        simp only [slipMaxSize]
        omega
      by_cases hrecv : recv = slipCode.stop
      · rw [if_pos hrecv, hrecv]
        by_cases hnil : bs = []
        · have haligned : s.Aligned := Or.inr ⟨hstate, by rw [hindex, hnil]; rfl⟩
          rw [if_pos hnil, s.loop_open haligned]
          exact ⟨⟨rfl, rfl, rfl, Nat.zero_le _⟩, rfl⟩
        · rw [if_neg hnil]
          exact loop_frame hcollected hnil (not_lt.mp hlong)
      · rw [if_neg hrecv, s.loop_byte hstate recv hrecv hroom]
        exact ⟨collecting_push hcollected recv (hindex ▸ hroom), rfl⟩

theorem frames_receiveAll {s : Slip} {collected : Option (List Byte)} (h : s.Collecting collected)
    (bytes : List Byte) :
    (s.receiveAll bytes).1.map Delivery.frame =
      (slipCode.frames 253 collected bytes).map slipFrame := by
  induction bytes generalizing s collected with
  | nil => rfl
  | cons b bytes ih =>
    rcases loop_collecting h b with ⟨hnext, hcall⟩
    have hcalls : (s.loop b).value.1.toList.map Delivery.frame =
        (slipCode.receive 253 collected b).1.toList.map slipFrame := by
      rw [← Option.toList_map, ← Option.toList_map, hcall]
    simp only [receiveAll, Stuffing.frames]
    rw [List.map_append, List.map_append, hcalls, ih hnext]

/-- From idle, every access is in bounds and the deliveries are the payloads of the frames of the
stream: its disjoint segments of 1 to 253 bytes between two delimiters. -/
theorem receiveAll_frames (s : Slip) (h : s.state = .idle) (bytes : List Byte) :
    let raws := slipCode.frames 253 none bytes
    (∀ before b after, bytes = before ++ b :: after →
      ((s.receiveAll before).2.loop b).Within SlipAccess.InBounds) ∧
    (s.receiveAll bytes).1.map Delivery.frame = raws.map slipFrame ∧
    slipCode.Segmented bytes raws ∧
    ∀ raw ∈ raws, 1 ≤ raw.length ∧ raw.length ≤ 253 ∧ slipCode.stop ∉ raw := by
  intro raws
  have hcollecting : s.Collecting none := h
  refine ⟨fun _ b _ _ => loop_within _ b, frames_receiveAll hcollecting bytes,
    slipCode.segmented_frames 253 none bytes, ?_⟩
  intro raw hraw
  rcases slipCode.mem_frames (by simp) hraw with ⟨hne, hlen, hstop⟩
  exact ⟨List.length_pos_iff.mpr hne, hlen, hstop⟩

/-- A dangling escape, a repeated delimiter and bytes outside a frame. -/
theorem receiveAll_frames_noise :
    let bytes := [0x01#8, slipCode.stop, slipCode.stop, slipCode.esc, slipCode.stop]
    let raws := slipCode.frames 253 none bytes
    (∀ before b after, bytes = before ++ b :: after →
      (((init 0 0).receiveAll before).2.loop b).Within SlipAccess.InBounds) ∧
    ((init 0 0).receiveAll bytes).1.map Delivery.frame = raws.map slipFrame ∧
    slipCode.Segmented bytes raws ∧
    ∀ raw ∈ raws, 1 ≤ raw.length ∧ raw.length ≤ 253 ∧ slipCode.stop ∉ raw :=
  receiveAll_frames (init 0 0) rfl _

end Slip

end Aquila.Bridge
