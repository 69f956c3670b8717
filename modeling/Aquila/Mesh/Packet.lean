import Aquila.Persist
import Aquila.Library.Traced

/-! # Packets of the mesh layer

A packet holds a pointer to its payload. The buffers store a packet next to a copy of
its payload, so the two are copied together and the pointer is repaired afterwards.
-/

namespace Aquila.Mesh
open Library

def nwkMaxPayloadSize : ℕ := 127 - 16 - 2

/-- `AQUILAMESH_MAXPAYLOAD` -/
def maxPayload : ℕ := nwkMaxPayloadSize - 4

def broadcast : Word := 0xFFFF#16

def nwkOptAckRequest : Byte := 0x01#8

/-- The options every sender starts from: a broadcast asks for no acknowledgement. -/
def requestAck (dstAddr : Word) : Byte := if dstAddr = broadcast then 0 else nwkOptAckRequest

/-- The `data` array of a buffered packet. -/
abbrev Payload := Fin maxPayload → Byte

namespace Payload

/-- A cell of the array; past its end a reader finds unrelated memory, taken as zero. -/
def cell (data : Payload) (i : ℕ) : Byte := if h : i < maxPayload then data ⟨i, h⟩ else 0

def read (data : Payload) (size : Byte) : List Byte := (List.range size.toNat).map data.cell

/-- `memcpy` into the array: the indices written and the array afterwards. -/
def copy (data : Payload) (source : ℕ → Byte) (size : Byte) : Traced ℕ Payload := do
  Traced.touchBlock id size.toNat
  pure (fun i => if i.val < size.toNat then source i else data i)

theorem read_copy (data : Payload) (source : ℕ → Byte) (size : Byte)
    (h : size.toNat ≤ maxPayload) :
    (data.copy source size).value.read size = (List.range size.toNat).map source := by
  apply List.map_congr_left
  intro i hi
  have hi := List.mem_range.mp hi
  change (if h : i < maxPayload then if i < size.toNat then source i else data ⟨i, h⟩ else 0) = _
  rw [dif_pos (by omega), if_pos hi]

theorem within_copy (data : Payload) (source : ℕ → Byte) (size : Byte) (bound : ℕ) :
    (data.copy source size).Within (· < bound) ↔ size.toNat ≤ bound := by
  simp only [copy, Traced.within_bind, Traced.within_touchBlock, Traced.within_pure, and_true, id]
  constructor
  · intro h
    by_contra hlt
    have := h bound (by omega)
    omega
  · intro h i hi
    omega

end Payload

end Aquila.Mesh
