import Aquila.Bridge.Slip

/-! # Recovery of the Slip receiver

Noise can leave the receiver inside a frame, or full. Whatever it was doing, a
delimiter aligns it: the same byte closes what it was collecting, opens a frame,
repeats an opening or is swallowed as overflow, and then the next frame is read whole.
-/

namespace Aquila.Bridge
open Library

namespace Slip

theorem receiving_state_ne_error (s : Slip) (h : s.state = .receiving) (recv : Byte) :
    (s.receiving recv).value.2.state ≠ .error := by
  rw [receiving]
  split
  case isTrue => exact SlipState.noConfusion
  case isFalse =>
    split
    case isTrue =>
      split
      case isTrue => exact fun herror => SlipState.noConfusion (h.symm.trans herror)
      case isFalse => exact SlipState.noConfusion
    case isFalse => exact fun herror => SlipState.noConfusion (h.symm.trans herror)

theorem loop_state_ne_error (s : Slip) (h : s.state ≠ .error) (recv : Byte) :
    (s.loop recv).value.2.state ≠ .error := by
  rw [loop]
  cases hstate : s.state with
  | idle =>
    dsimp only
    split
    case isTrue => exact receiving_state_ne_error _ rfl recv
    case isFalse => exact fun herror => SlipState.noConfusion (hstate.symm.trans herror)
  | receiving => exact s.receiving_state_ne_error hstate recv
  | error => exact absurd hstate h

theorem receiveAll_state_ne_error (s : Slip) (h : s.state ≠ .error) (bytes : List Byte) :
    (s.receiveAll bytes).2.state ≠ .error := by
  induction bytes generalizing s with
  | nil => exact h
  | cons b bytes ih => exact ih _ (s.loop_state_ne_error h b)

theorem loop_stop_aligned (s : Slip) (h : s.state ≠ .error) :
    (s.loop slipCode.stop).value.2.Aligned := by
  cases hstate : s.state with
  | idle =>
    rw [s.loop_start hstate]
    exact Or.inr ⟨rfl, rfl⟩
  | receiving =>
    simp only [loop, hstate, receiving]
    split
    case isTrue => exact Or.inl rfl
    case isFalse =>
      rw [if_pos trivial]
      split
      case isTrue hindex => exact Or.inr ⟨hstate, hindex⟩
      case isFalse => exact Or.inl rfl
  | error => exact absurd hstate h

/-- Every frame, delivered or not, leaves the receiver aligned. -/
theorem receiveAll_frame_leaves_aligned (s : Slip) (h : s.state ≠ .error) (m : List Byte) :
    (s.receiveAll (slipCode.frame m)).2.Aligned := by
  rw [Stuffing.frame, ← List.cons_append, receiveAll_append]
  exact loop_stop_aligned _ (s.receiveAll_state_ne_error h _)

/-- After any noise and any frame, the next frame that fits is delivered last and whole. -/
theorem receiveAll_recovers (buffer bufCopy : Memory Byte) (noise : List Byte)
    (d₁ d₂ : Memory Byte) (size₁ size₂ : Byte) (hne : 0 < size₂.toNat)
    (hfits : (slipCode.encode (d₂.load 0 size₂.toNat)).length ≤ 253) :
    let s := ((init buffer bufCopy).receiveAll noise).2
    let (calls, s') := s.receiveAll ((send d₁ size₁).value ++ (send d₂ size₂).value)
    ∃ d, calls.getLast? = some d ∧ d.size = size₂ ∧
      d.data.load 0 size₂.toNat = d₂.load 0 size₂.toNat ∧ s'.state = .idle := by
  intro s
  have hs : s.state ≠ .error := receiveAll_state_ne_error _ SlipState.noConfusion noise
  have haligned := s.receiveAll_frame_leaves_aligned hs (d₁.load 0 size₁.toNat)
  have hlength : (d₂.load 0 size₂.toNat).length = size₂.toNat := Memory.length_load _ _ _
  have hm : d₂.load 0 size₂.toNat ≠ [] := List.length_pos_iff.mp (hlength.symm ▸ hne)
  rcases receiveAll_frame_aligned _ haligned _ hm hfits with ⟨d, hcall, hsize, hdata, hidle⟩
  rw [hlength] at hsize hdata
  rw [BitVec.ofNat_toNat, BitVec.setWidth_eq] at hsize
  rw [value_send, value_send, receiveAll_append, hcall]
  exact ⟨d, List.getLast?_concat, hsize, hdata, hidle⟩

/-- An unterminated frame before two frames of one byte each. -/
theorem receiveAll_recovers_unterminated :
    let s := ((init 0 0).receiveAll [slipCode.stop, 0x01#8]).2
    let (calls, s') := s.receiveAll ((send (fun _ => 0x02#8) 1#8).value ++
      (send (fun _ => slipCode.stop) 1#8).value)
    ∃ d, calls.getLast? = some d ∧ d.size = 1#8 ∧
      d.data.load 0 1 = [slipCode.stop] ∧ s'.state = .idle :=
  receiveAll_recovers 0 0 [slipCode.stop, 0x01#8] (fun _ => 0x02#8) (fun _ => slipCode.stop) 1#8 1#8
    (by decide) (by decide)

end Slip

end Aquila.Bridge
