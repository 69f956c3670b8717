import Aquila.Bridge.CrcErrors
import Aquila.Bridge.Frames

/-! # Frames that become commands

`onData` subtracts the two CRC bytes from the size of every frame, also from the
frames that have fewer.
-/

namespace Aquila.Bridge
open Library

theorem eq_crcBytes {low high : Byte} {w : Word} (h : storedCrc low high = w) :
    [low, high] = crcBytes w := by
  have hown : storedCrc (w.setWidth 8) ((w >>> 8).setWidth 8) = w := word_of_crcBytes w
  have hpair : residue [high ^^^ (w >>> 8).setWidth 8, low ^^^ w.setWidth 8] = 0 := by
    have hstored := storedCrc_xor low high (w.setWidth 8) ((w >>> 8).setWidth 8)
    rw [h, hown, BitVec.xor_self, storedCrc_eq_xor] at hstored
    simpa [residue] using hstored
  rcases residue_pair_eq_zero hpair with ⟨hhigh, hlow⟩
  rw [BitVec.xor_eq_zero_iff.mp hlow, BitVec.xor_eq_zero_iff.mp hhigh]
  rfl

def Delivery.Carries (d : Delivery) (c : Command) : Prop :=
  ∃ m, d.data.load 0 d.size.toNat = withCrc m ∧ c.arguments = (m, m.length)

/-- A frame is validated: only a message and its CRC becomes a command, and no byte outside the
frame is read. -/
def Delivery.Validated (d : Delivery) : Prop :=
  (∀ c ∈ (onData d.data d.size).value, d.Carries c) ∧
    (onData d.data d.size).Within (fun i : ℤ => 0 ≤ i ∧ i < d.size.toNat)

theorem within_onData (P : ℤ → Prop) (data : Memory Byte) (size : Byte) :
    (onData data size).Within P ↔ (checkCrc data size.toNat).Within P := by
  rw [onData, Traced.within_bind]
  apply and_iff_left
  split
  case isTrue => exact Traced.within_pure _ _
  case isFalse => exact Traced.within_pure _ _

theorem within_checkCrc (P : ℤ → Prop) (data : Memory Byte) (size : ℤ) :
    (checkCrc data size).Within P ↔
      P (size - 1) ∧ P (size - 2) ∧ ∀ i < (size - 2).toNat, P (i : ℤ) := by
  simp only [checkCrc, calcCrc, Traced.within_bind, Traced.within_touch, Traced.within_touchBlock,
    Traced.within_pure, and_true]

/-- The command of a frame of at least two bytes carries its message. -/
theorem carries_of_onData {d : Delivery} (h : 2 ≤ d.size.toNat) {c : Command}
    (hc : (onData d.data d.size).value = some c) : d.Carries c := by
  have hlen : (d.data.load 0 d.size.toNat).length = d.size.toNat - 2 + 2 := by
    rw [Memory.length_load]
    omega
  rcases exists_append_pair hlen with ⟨m, low, high, hload, hm⟩
  have hsize : d.size.toNat = m.length + 2 := by omega
  have hchecked := value_checkCrc d.data m low high (hsize ▸ hload)
  have haccepted : (checkCrc d.data d.size.toNat).value = true ∧ c = ⟨d.data, d.size - 2⟩ := by
    rw [onData, Traced.value_bind] at hc
    split at hc
    case isTrue htrue => exact ⟨htrue, (Option.some.inj hc).symm⟩
    case isFalse => cases hc
  have hcast : ((d.size.toNat : ℕ) : ℤ) = m.length + 2 := by omega
  rw [hcast, hchecked, beq_iff_eq] at haccepted
  have hcrc := eq_crcBytes haccepted.1
  refine ⟨m, ?_, ?_⟩
  · rw [hload, hcrc]
    rfl
  · have hrest : (d.size - 2).toNat = m.length := by
      rw [BitVec.toNat_sub]
      simp
      omega
    have hmessage : d.data.load 0 m.length = m := by
      rw [← Memory.take_load _ _ (by omega : m.length ≤ d.size.toNat), hload, List.take_left]
    rw [haccepted.2, Command.arguments, hrest, hmessage]

theorem Delivery.validated_iff (d : Delivery) : d.Validated ↔ 2 ≤ d.size.toNat := by
  rw [Validated, within_onData, within_checkCrc]
  constructor
  · intro h
    have := h.2.2.1.1
    omega
  · intro h
    refine ⟨fun c hc => carries_of_onData h hc, by omega, by omega, ?_⟩
    intro i hi
    omega

/-- Every frame of a stream is validated exactly when every frame carries two bytes. -/
theorem validated_receiveAll_iff (s : Slip) (h : s.state = .idle) (bytes : List Byte) :
    (∀ d ∈ (s.receiveAll bytes).1, d.Validated) ↔
      ∀ raw ∈ slipCode.frames 253 none bytes, 2 ≤ (slipCode.payload raw).length := by
  have hcollecting : s.Collecting none := h
  have hframes := congrArg (List.map (fun f => f.2.toNat))
    (Slip.frames_receiveAll hcollecting bytes)
  rw [List.map_map, List.map_map] at hframes
  have hsizes : (∀ n ∈ (s.receiveAll bytes).1.map (fun d => d.size.toNat), 2 ≤ n) ↔
      ∀ n ∈ (slipCode.frames 253 none bytes).map (fun raw => (slipFrame raw).2.toNat), 2 ≤ n :=
    Eq.to_iff (congrArg (fun l => ∀ n ∈ l, 2 ≤ n) hframes)
  rw [List.forall_mem_map, List.forall_mem_map] at hsizes
  simp only [Delivery.validated_iff]
  rw [hsizes]
  apply forall₂_congr
  intro raw hraw
  have hlen := (slipCode.mem_frames (by simp) hraw).2.1
  have hpayload := slipCode.length_payload_le raw
  rw [slipFrame, BitVec.toNat_ofNat, Nat.mod_eq_of_lt (by omega)]

theorem validated_receiveAll_pair :
    (∀ d ∈ ((Slip.init 0 0).receiveAll [slipCode.stop, 0x00#8, 0x00#8, slipCode.stop]).1,
      d.Validated) ↔
      ∀ raw ∈ slipCode.frames 253 none [slipCode.stop, 0x00#8, 0x00#8, slipCode.stop],
        2 ≤ (slipCode.payload raw).length :=
  validated_receiveAll_iff (Slip.init 0 0) rfl _

/-- A frame of one zero byte, with a zero byte before the buffer, is a command of 255 bytes. -/
theorem short_frame_accepted :
    let calls := ((Slip.init 0 0).receiveAll [slipCode.stop, 0x00#8, slipCode.stop]).1
    calls.map (fun d => (d.size, (onData d.data d.size).value.map Command.size)) =
      [(1, some 255)] ∧ ¬ ∀ d ∈ calls, d.Validated := by
  intro calls
  have hcalls : calls.map (fun d => (d.size, (onData d.data d.size).value.map Command.size)) =
      [(1, some 255)] := by decide
  refine ⟨hcalls, ?_⟩
  intro hall
  cases hd : calls with
  | nil =>
    rw [hd] at hcalls
    cases hcalls
  | cons d rest =>
    rw [hd, List.map_cons, List.cons.injEq, Prod.mk.injEq] at hcalls
    have := d.validated_iff.mp (hall d (by rw [hd]; exact List.mem_cons_self))
    rw [hcalls.1.1] at this
    exact absurd this (by decide)

end Aquila.Bridge
