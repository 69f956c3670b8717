import Aquila.Bridge.Crc
import Aquila.Bridge.Slip

/-! # Bridge commands over the serial line

The sender appends a CRC to `comTxBuffer` and frames it; the receiver checks the CRC
of every frame the decoder reports. Both buffers hold arbitrary earlier contents.
-/

namespace Aquila.Bridge
open Library

/-- The arguments of a `parseCommand` call. -/
structure Command where
  data : Memory Byte
  size : Byte

def Command.arguments (c : Command) : List Byte × ℕ := (c.data.load 0 c.size.toNat, c.size.toNat)

/-- `onData`, with the `parseCommand` call it makes. -/
def onData (data : Memory Byte) (size : Byte) : Traced ℤ (Option Command) := do
  if ← checkCrc data size.toNat then pure (some ⟨data, size - 2⟩) else pure none

/-- `AquilaBridge::sendComBuffer`: `comTxBuffer` afterwards and the bytes sent. -/
def sendComBuffer (comTxBuffer : Memory Byte) (size : Byte) :
    Traced ℤ (Memory Byte × List Byte) := do
  let (comTxBuffer, size) ← appendCrc comTxBuffer size.toNat
  let sent ← Slip.send comTxBuffer (BitVec.ofInt 8 size)
  pure (comTxBuffer, sent)

/-- The serial output for a sequence of payloads, each written to the start of `comTxBuffer`. -/
def transmit (comTxBuffer : Memory Byte) : List (List Byte) → List Byte
  | [] => []
  | m :: ms =>
    let (comTxBuffer, sent) :=
      (sendComBuffer (comTxBuffer.store 0 m) (BitVec.ofNat 8 m.length)).value
    sent ++ transmit comTxBuffer ms

theorem transmit_cons (comTxBuffer : Memory Byte) (m : List Byte) (ms : List (List Byte)) :
    transmit comTxBuffer (m :: ms) =
      (sendComBuffer (comTxBuffer.store 0 m) (BitVec.ofNat 8 m.length)).value.2 ++
        transmit (sendComBuffer (comTxBuffer.store 0 m) (BitVec.ofNat 8 m.length)).value.1 ms :=
  rfl

/-- The `parseCommand` calls of a receiver whose `onReceive` is `onData`. -/
def receiveCommands (s : Slip) (bytes : List Byte) : List Command :=
  (s.receiveAll bytes).1.filterMap (fun d => (onData d.data d.size).value)

def withCrc (m : List Byte) : List Byte := m ++ crcBytes (crcOf m)

@[simp] theorem length_withCrc (m : List Byte) : (withCrc m).length = m.length + 2 :=
  List.length_append

theorem encode_withCrc_fits {m : List Byte} (h : m.length ≤ 124) :
    (slipCode.encode (withCrc m)).length ≤ 253 := by
  have := slipCode.length_encode_le (withCrc m)
  rw [length_withCrc] at this
  omega

/-- What `sendComBuffer` sends for a payload whose CRC still fits a byte-sized length. -/
theorem sent_sendComBuffer (comTxBuffer : Memory Byte) (m : List Byte) (h : m.length + 2 < 256) :
    (sendComBuffer (comTxBuffer.store 0 m) (BitVec.ofNat 8 m.length)).value.2 =
      slipCode.frame (withCrc m) := by
  have hsize : (BitVec.ofNat 8 m.length).toNat = m.length := by
    rw [BitVec.toNat_ofNat, Nat.mod_eq_of_lt (by omega)]
  have htotal : (BitVec.ofInt 8 ((m.length : ℤ) + 2)).toNat = (withCrc m).length := by
    rw [length_withCrc, BitVec.toNat_ofInt]
    omega
  have hstored : ((comTxBuffer.store 0 m).store m.length (crcBytes (crcOf m))) =
      comTxBuffer.store 0 (withCrc m) := by
    rw [withCrc, Memory.store_append, Int.zero_add]
  simp only [sendComBuffer, Traced.value_bind, Traced.value_pure, value_appendCrc, hsize,
    Int.toNat_natCast, Memory.load_store, Slip.value_send, htotal, hstored]

theorem onData_withCrc (data : Memory Byte) (m : List Byte) (h : m.length + 2 < 256)
    (hdata : data.load 0 (withCrc m).length = withCrc m) :
    ∃ c, (onData data (BitVec.ofNat 8 (withCrc m).length)).value = some c ∧
      c.arguments = (m, m.length) := by
  rw [length_withCrc] at hdata ⊢
  have hsize : (BitVec.ofNat 8 (m.length + 2)).toNat = m.length + 2 := by
    rw [BitVec.toNat_ofNat, Nat.mod_eq_of_lt h]
  have hrest : (BitVec.ofNat 8 (m.length + 2) - 2).toNat = m.length := by
    rw [BitVec.toNat_sub, hsize]
    simp
    omega
  have hcheck := checkCrc_appended data m hdata
  have hm : data.load 0 m.length = m := by
    rw [Memory.load_add] at hdata
    exact (List.append_inj hdata (by simp)).1
  refine ⟨⟨data, BitVec.ofNat 8 (m.length + 2) - 2⟩, ?_, ?_⟩
  · simp only [onData, hsize, Traced.value_bind, Nat.cast_add, Nat.cast_ofNat, hcheck]
    rfl
  · rw [Command.arguments, hrest, hm]

theorem receiveCommands_frame (s : Slip) (hs : s.state = .idle) (m : List Byte)
    (hfits : (slipCode.encode (withCrc m)).length ≤ 253) (rest : List Byte) :
    ∃ c s', c.arguments = (m, m.length) ∧ s'.state = .idle ∧
      receiveCommands s (slipCode.frame (withCrc m) ++ rest) = c :: receiveCommands s' rest := by
  have hle := slipCode.length_le_encode (withCrc m)
  have hlen : m.length + 2 < 256 := by
    rw [length_withCrc] at hle
    omega
  have hne : withCrc m ≠ [] := by simp [withCrc, crcBytes]
  rcases s.receiveAll_frame hs (withCrc m) hne hfits with ⟨d, hcall, hsize, hdata, hidle⟩
  rcases onData_withCrc d.data m hlen hdata with ⟨c, hc, hargs⟩
  refine ⟨c, _, hargs, hidle, ?_⟩
  rw [receiveCommands, Slip.receiveAll_append, hcall]
  simp only [List.singleton_append, List.filterMap_cons, hsize, hc]
  rfl

/-- Every payload sent reaches `parseCommand` once, in order, with its own bytes and size. -/
theorem receiveCommands_transmit (s : Slip) (hs : s.state = .idle) (comTxBuffer : Memory Byte)
    (ms : List (List Byte))
    (hfits : ∀ m ∈ ms, (slipCode.encode (withCrc m)).length ≤ 253) :
    (receiveCommands s (transmit comTxBuffer ms)).map Command.arguments =
      ms.map (fun m => (m, m.length)) := by
  induction ms generalizing s comTxBuffer with
  | nil => rfl
  | cons m ms ih =>
    have hm := hfits m List.mem_cons_self
    have hle := slipCode.length_le_encode (withCrc m)
    rw [length_withCrc] at hle
    have hsent := sent_sendComBuffer comTxBuffer m (by omega)
    obtain ⟨c, s', hargs, hidle, hcommands⟩ := receiveCommands_frame s hs m hm
      (transmit (sendComBuffer (comTxBuffer.store 0 m) (BitVec.ofNat 8 m.length)).value.1 ms)
    have hrest := ih s' hidle
      (sendComBuffer (comTxBuffer.store 0 m) (BitVec.ofNat 8 m.length)).value.1
      (fun m' h => hfits m' (List.mem_cons_of_mem m h))
    rw [transmit_cons, hsent, hcommands, List.map_cons, List.map_cons, hargs, hrest]

/-- Two payloads to a new receiver, the first made of the two bytes that need escaping. -/
theorem receiveCommands_escaped :
    (receiveCommands (Slip.init 0 0) (transmit 0 [[0xC0#8, 0xDB#8], [0x07#8]])).map
      Command.arguments = [([0xC0#8, 0xDB#8], 2), ([0x07#8], 1)] :=
  receiveCommands_transmit _ rfl 0 [[0xC0#8, 0xDB#8], [0x07#8]] (by
    intro m hm
    apply encode_withCrc_fits
    revert m
    decide)

end Aquila.Bridge
