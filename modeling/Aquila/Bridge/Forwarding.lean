import Aquila.Bridge.Options
import Aquila.Bridge.Replies

/-! # Packets for data commands

A frame that the bridge builds from a received packet is itself a data command for that
packet. `parseCommand` checks a data command against `MAX_FRAME_SIZE`, which is more than
the data array of a buffered packet holds.
-/

namespace Aquila.Bridge
open Library Mesh

/-- A word as `parseCommand` joins it from two signed chars. -/
def joinChars (low high : Byte) : Word :=
  (low.signExtend 16 &&& 0x00FF#16) ||| ((high.signExtend 16 <<< 8) &&& 0xFF00#16)

/-- The masks remove the sign extensions. -/
theorem joinChars_eq (low high : Byte) : joinChars low high = wordOf low high := by
  have hmasks : ∀ i < 16, (0x00FF#16).getLsbD i = decide (i < 8) ∧
      (0xFF00#16).getLsbD i = decide (8 ≤ i) := by
    decide
  apply BitVec.eq_of_getLsbD_eq
  intro i hi
  rw [joinChars, wordOf, BitVec.getLsbD_or, BitVec.getLsbD_and, BitVec.getLsbD_and,
    (hmasks i hi).1, (hmasks i hi).2, BitVec.getLsbD_signExtend, BitVec.getLsbD_shiftLeft,
    BitVec.getLsbD_signExtend, BitVec.getLsbD_append]
  by_cases hlow : i < 8
  · simp [hlow, hi, Nat.not_le.mpr hlow]
  · have hrest : i - 8 < 8 := by omega
    have hinside : i - 8 < 16 := by omega
    simp [hlow, hi, hrest, hinside, Nat.not_lt.mp hlow]

namespace AquilaBridge

/-! ### Received packets as data commands -/

/-- The frame for a received packet, with its header of ten bytes. -/
def rxFrame (ind : Indication) : List Byte :=
  [cmdData, ind.lqi, ind.rssi, lowByte ind.srcAddr, highByte ind.srcAddr, lowByte ind.dstAddr,
    highByte ind.dstAddr, ind.srcEndpoint, ind.dstEndpoint, ind.size] ++ ind.payload

theorem sent_rxHandler (s : AquilaBridge) {ind : Indication}
    (hpayload : ind.payload.length = ind.size.toNat) (hsize : ind.size.toNat ≤ maxPayload) :
    s.sent (.rxHandler ind) = [rxFrame ind] := by
  apply sent_eq
  have hbound : maxPayload = 105 := rfl
  have htotal : (ind.size + 10).toNat = ind.size.toNat + 10 := by
    rw [BitVec.toNat_add, Nat.mod_eq_of_lt (by simp; omega)]
    rfl
  rw [step, rxHandler, sendComBuffer, htotal, List.take_of_length_le (by simp [hpayload])]
  rfl

theorem fields_rxFrame {c : Command} {ind : Indication}
    (hpayload : ind.payload.length = ind.size.toNat)
    (hc : c.arguments = (rxFrame ind, (rxFrame ind).length)) :
    c.size.toNat = 10 + ind.size.toNat ∧
      c.data.load 0 10 = (rxFrame ind).take 10 ∧ c.data.load 10 ind.size.toNat = ind.payload := by
  rcases Prod.mk.inj hc with ⟨hdata, hsize⟩
  have hlength : (rxFrame ind).length = 10 + ind.size.toNat := by
    rw [rxFrame, List.length_append, hpayload]
    rfl
  rw [hsize, hlength, Memory.load_add] at hdata
  rcases List.append_inj hdata (by simp) with ⟨hheader, hrest⟩
  exact ⟨hsize.trans hlength, hheader, hrest⟩

/-- Given back to `parseCommand`, the frame of a received packet passes the length checks, and
`txSend` sends the same packet. -/
theorem parseCommand_rxHandler (s s' : AquilaBridge) (ind : Indication)
    (hpayload : ind.payload.length = ind.size.toNat) (hsize : ind.size.toNat ≤ maxPayload)
    (c : Command) (hc : s.sent (.rxHandler ind) = [c.arguments.1] ∧
      c.arguments.2 = c.arguments.1.length) (stack : TxBufPacket) :
    c.Sends ∧
      s'.parseCommand c stack =
        { s'.txSend c stack with commands := s'.commands ++ [c.message] } ∧
      joinChars (c.data 5) (c.data 6) = ind.dstAddr ∧ c.frameSize = ind.size ∧
      c.message = ⟨ind.dstAddr, ind.dstEndpoint, ind.srcEndpoint, ind.payload⟩ ∧
      (s'.tx.user (.reuse (s'.txMemory c))).message ((s'.txMemory c).packets 0) = c.message := by
  have hbound : maxPayload = 105 := rfl
  rcases hc with ⟨hsent, htotal⟩
  rw [sent_rxHandler s hpayload hsize, List.singleton_inj] at hsent
  rcases fields_rxFrame hpayload (c := c) (by rw [hsent]; exact Prod.ext rfl htotal) with
    ⟨hlength, hheader, hdata⟩
  have hcells : [c.data 0, c.data 1, c.data 2, c.data 3, c.data 4, c.data 5, c.data 6, c.data 7,
      c.data 8, c.data 9] = (rxFrame ind).take 10 := hheader
  simp only [rxFrame, List.cons_append, List.take_succ_cons, List.take_zero, List.cons.injEq,
    and_true] at hcells
  rcases hcells with ⟨hcommand, -, -, -, -, hlow, hhigh, hsrc, hdst, hframe⟩
  have haddr : wordOf (c.data 5) (c.data 6) = ind.dstAddr := by
    rw [hlow, hhigh, wordOf_bytes]
  have hcode : c.code = some .data := by
    rw [Command.code, if_neg (by omega), hcommand]
    rfl
  have hsize' : c.frameSize = ind.size := hframe
  have hmax : maxFrameSize = 128 := rfl
  have hsends : c.Sends := ⟨hcode, by omega, by rw [hsize', hlength], by rw [hsize']; omega⟩
  refine ⟨hsends, s'.parseCommand_sends c stack hsends, ?_, hsize', ?_, s'.message_txPacket c⟩
  · rw [joinChars_eq, haddr]
  · rw [Command.message, haddr, hdst, hsrc, hsize', hdata]

/-- A packet of two bytes between addresses whose high bytes are negative as chars. -/
def chatPacket : Indication where
  srcAddr := 0x8001#16
  dstAddr := 0x80FE#16
  srcEndpoint := 0x02#8
  dstEndpoint := 0x03#8
  options := 0
  size := 2
  lqi := 0xFF
  rssi := 0xA0
  payload := [0xC0#8, 0x80#8]

theorem parseCommand_chatPacket :
    let c : Command := ⟨Memory.store 0 0 (rxFrame chatPacket), 12⟩
    c.Sends ∧
      exampleBridge.parseCommand c exampleStack =
        { exampleBridge.txSend c exampleStack with
          commands := exampleBridge.commands ++ [c.message] } ∧
      joinChars (c.data 5) (c.data 6) = chatPacket.dstAddr ∧ c.frameSize = chatPacket.size ∧
      c.message = ⟨0x80FE#16, 0x03#8, 0x02#8, [0xC0#8, 0x80#8]⟩ ∧
      (exampleBridge.tx.user (.reuse (exampleBridge.txMemory c))).message
        ((exampleBridge.txMemory c).packets 0) = c.message :=
  parseCommand_rxHandler exampleBridge exampleBridge chatPacket rfl (by decide) _
    ⟨by decide +kernel, rfl⟩ exampleStack

/-! ### Sizes of data commands -/

/-- The packets that `parseCommand` gives to `Mesh.sendPacket`. -/
def handed (s : AquilaBridge) (c : Command) : List TxPacket :=
  if c.Sends then [(s.txMemory c).packets 0] else []

/-- The queue is only changed by the packets handed over and by the security setting. -/
def HandsOver (s : AquilaBridge) (c : Command) (stack : TxBufPacket) : Prop :=
  (s.handed c = [(s.txMemory c).packets 0] ∧ (s.parseCommand c stack).tx =
    (s.tx.user (.reuse (s.txMemory c))).user (.sendPacket 0 stack)) ∨
  (s.handed c = [] ∧ ((s.parseCommand c stack).tx = s.tx ∨
    ∃ enabled, (s.parseCommand c stack).tx = s.tx.user (.setSecurityEnabled enabled)))

theorem handsOver_parseCommand (s : AquilaBridge) (c : Command) (stack : TxBufPacket) :
    s.HandsOver c stack := by
  by_cases h : c.Sends
  · left
    rw [handed, if_pos h, s.parseCommand_sends c stack h]
    exact ⟨rfl, rfl⟩
  · right
    rw [handed, if_neg h]
    exact ⟨rfl, (s.quiet_parseCommand c stack h).tx⟩

/-- The packet fits the mesh layer, `TxBufPacket_init` stays inside its data array when it copies
it, and its bytes are those of the command. -/
structure Fits (s : AquilaBridge) (c : Command) (stack : TxBufPacket) (p : TxPacket) : Prop where
  size_le : p.size.toNat ≤ maxPayload
  within : (stack.init p ((s.tx.user (.reuse (s.txMemory c))).deref p.data)).Within (· < maxPayload)
  forwarded : ((s.tx.user (.reuse (s.txMemory c))).message p).payload <:+:
    c.data.load 0 c.size.toNat

theorem load_frame_infix (c : Command) (h : 10 + c.frameSize.toNat ≤ c.size.toNat) :
    c.data.load 10 c.frameSize.toNat <:+: c.data.load 0 c.size.toNat := by
  have hsplit := c.data.load_add 0 (10 + c.frameSize.toNat)
    (c.size.toNat - (10 + c.frameSize.toNat))
  rw [Nat.add_sub_of_le h, Memory.load_add] at hsplit
  exact ⟨_, _, hsplit.symm⟩

/-- `parseCommand` gives the queue the packets handed over, and these all fit exactly if the frame
of an accepted data command is no longer than a payload. -/
theorem handed_fits_iff (s : AquilaBridge) (c : Command) (stack : TxBufPacket) :
    s.HandsOver c stack ∧
      ((∀ p ∈ s.handed c, s.Fits c stack p) ↔ (c.Sends → c.frameSize.toNat ≤ maxPayload)) := by
  refine ⟨s.handsOver_parseCommand c stack, ?_⟩
  rw [handed]
  split
  case isTrue h =>
    rw [List.forall_mem_singleton, forall_prop_of_true h]
    constructor
    · exact Fits.size_le
    · intro hsize
      refine ⟨hsize, ?_, ?_⟩
      · rw [TxBufPacket.init, Traced.within_bind, Payload.within_copy]
        exact ⟨hsize, Traced.within_pure _ _⟩
      · have hmessage := s.message_txPacket c
        change ((s.tx.user (.reuse (s.txMemory c))).message
          (s.txPacket c.message c.frameSize)).payload <:+: _
        rw [hmessage]
        exact load_frame_infix c h.2.2.1
  case isFalse h => exact iff_of_true (List.forall_mem_nil _) (fun hc => absurd hc h)

def longCommand : List Byte :=
  [cmdData, 0, 0, 0, 0, 0x01, 0x00, 0x02, 0x03, 106] ++ List.replicate 106 0x55

theorem data_of_arguments {c : Command} {m : List Byte} (hc : c.arguments = (m, m.length)) {i : ℕ}
    (hi : i < m.length) : c.data i = m.getD i 0 := by
  rcases Prod.mk.inj hc with ⟨hdata, hsize⟩
  rw [← hdata, hsize, List.getD_eq_getElem _ _ (by rwa [Memory.length_load])]
  simp [Memory.load]

/-- Received over the serial line, it is forwarded one byte past the payload of a packet. -/
theorem not_handed_fits :
    ¬ ∀ (bytes : List Byte) (c : Command), c ∈ receiveCommands (Slip.init 0 0) bytes →
      ∀ p ∈ exampleBridge.handed c, exampleBridge.Fits c exampleStack p := by
  intro hall
  have hlength : longCommand.length = 116 := rfl
  have hmax : maxFrameSize = 128 := rfl
  rcases receiveCommands_frame (Slip.init 0 0) rfl longCommand (encode_withCrc_fits (by decide)) []
    with ⟨c, s', hargs, _, hcommands⟩
  have hsize : c.size.toNat = 116 := (Prod.mk.inj hargs).2
  have hfirst : c.data 0 = cmdData := data_of_arguments hargs (i := 0) (by decide)
  have hframe : c.frameSize = 106 := data_of_arguments hargs (i := 9) (by decide)
  have hcode : c.code = some .data := by
    rw [Command.code, if_neg (by omega), hfirst]
    rfl
  have hsends : c.Sends := by
    rw [Command.Sends, hframe, hsize]
    exact ⟨hcode, by decide, by decide, by decide⟩
  have hfits := hall _ c (hcommands ▸ List.mem_cons_self) ((exampleBridge.txMemory c).packets 0)
    (by rw [handed, if_pos hsends]; exact List.mem_singleton_self _)
  have hbytes : c.frameSize.toNat ≤ maxPayload := hfits.size_le
  rw [hframe] at hbytes
  exact absurd hbytes (by decide)

end AquilaBridge

end Aquila.Bridge
