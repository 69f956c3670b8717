import Aquila.Library.OpenRing
import Aquila.Library.Run
import Aquila.Mesh.Tx

/-! # Transmission of the wireless serial port

`write` collects bytes in a ring and `sendPacketNow` turns the whole ring into one
packet. Two histories record the bytes written and the packets the mesh layer took.
-/

namespace Aquila.WSerial
open Library Mesh

/-- `WSERIAL_BUFFER_SIZE` -/
def bufferSize : ℕ := maxPayload

theorem bufferSize_pos : 0 < bufferSize := by decide

/-- `WSERIAL_SEND_INTERVAL` -/
def sendInterval : BitVec 32 := 1#32

def wserialEndpoint : Byte := 14#8

structure Sender where
  destAddress : Word
  txBuffer : OpenRing Byte bufferSize
  appDataReqBusy : Bool
  lastTimeSent : BitVec 32
  /-- bytes for which `write` returned 1 -/
  written : List Byte
  /-- packets for which `Mesh.sendPacket` returned true -/
  accepted : List Outgoing

/-- The calls of a sketch and the confirmations, with the result of `Mesh.sendPacket` where it
may be called, and the two readings of `millis` in `loop`. -/
inductive SendStep where
  | write (c : Byte) (sent : Bool)
  | flush (sent : Bool)
  | loop (now later : BitVec 32) (sent : Bool)
  | appDataCb

namespace Sender

def init (destAddr : Word) (buffer : Fin bufferSize → Byte) : Sender where
  destAddress := destAddr
  txBuffer := OpenRing.init bufferSize_pos buffer
  appDataReqBusy := false
  lastTimeSent := 0
  written := []
  accepted := []

/-- The static `packet`, with the bytes that are copied from the ring to `packetData`. -/
def packet (s : Sender) : Outgoing where
  message := ⟨s.destAddress, wserialEndpoint, wserialEndpoint, s.txBuffer.toList⟩
  options := requestAck s.destAddress

/-- `WirelessSerial::sendPacketNow`, for the given result of `Mesh.sendPacket` -/
def sendPacketNow (s : Sender) (sent : Bool) : Sender :=
  if s.txBuffer.isEmpty || s.appDataReqBusy then s
  else
    { s with
      txBuffer := s.txBuffer.clear
      appDataReqBusy := true
      accepted := if sent then s.accepted ++ [s.packet] else s.accepted }

/-- `WirelessSerial::write` -/
def write (s : Sender) (c : Byte) (sent : Bool) : Sender :=
  let s := if s.txBuffer.isFull then s.sendPacketNow sent else s
  { s with txBuffer := s.txBuffer.put c, written := s.written ++ [c] }

/-- `WirelessSerial::loop` -/
def loop (s : Sender) (now later : BitVec 32) (sent : Bool) : Sender :=
  if s.lastTimeSent + sendInterval < now then
    { s.sendPacketNow sent with lastTimeSent := later }
  else s

def step (s : Sender) : SendStep → Sender
  | .write c sent => s.write c sent
  | .flush sent => s.sendPacketNow sent
  | .loop now later sent => s.loop now later sent
  | .appDataCb => { s with appDataReqBusy := false }

def carried (s : Sender) : List Byte :=
  s.accepted.flatMap (fun p => p.message.payload) ++ s.txBuffer.toList

/-- No byte written is lost, duplicated or reordered. -/
def Lossless (s : Sender) : Prop := s.written = s.carried

/-- A call of `sendPacketNow` that gets as far as `Mesh.sendPacket`. -/
def Hands (s : Sender) : Prop := s.txBuffer.toList ≠ [] ∧ s.appDataReqBusy = false

/-- `write` finds room or can send what it holds, and the mesh layer takes what it is given. -/
def Sendable (s : Sender) : SendStep → Prop
  | .write _ sent => s.txBuffer.isFull = true → s.appDataReqBusy = false ∧ sent = true
  | .flush sent => s.Hands → sent = true
  | .loop now _ sent => s.lastTimeSent + sendInterval < now → s.Hands → sent = true
  | .appDataCb => True

/-! ### One packet -/

theorem idle_iff (s : Sender) : (s.txBuffer.isEmpty || s.appDataReqBusy) = true ↔ ¬ s.Hands := by
  rw [Bool.or_eq_true, OpenRing.isEmpty_iff, Hands, not_and_or, not_not, Bool.not_eq_false]

theorem sendPacketNow_idle (s : Sender) (sent : Bool) (h : ¬ s.Hands) :
    s.sendPacketNow sent = s := by
  rw [sendPacketNow, if_pos (s.idle_iff.mpr h)]

theorem sendPacketNow_hands (s : Sender) (sent : Bool) (h : s.Hands) :
    s.sendPacketNow sent =
      { s with
        txBuffer := s.txBuffer.clear
        appDataReqBusy := true
        accepted := if sent then s.accepted ++ [s.packet] else s.accepted } := by
  rw [sendPacketNow, if_neg (fun hidle => s.idle_iff.mp hidle h)]

theorem written_sendPacketNow (s : Sender) (sent : Bool) :
    (s.sendPacketNow sent).written = s.written := by
  by_cases h : s.Hands
  · rw [sendPacketNow_hands s sent h]
  · rw [sendPacketNow_idle s sent h]

/-- A packet that the mesh layer takes moves its bytes, and they stay in order. -/
theorem carried_sendPacketNow (s : Sender) (sent : Bool) (h : s.Hands → sent = true) :
    (s.sendPacketNow sent).carried = s.carried := by
  by_cases hands : s.Hands
  · rw [sendPacketNow_hands s sent hands, h hands]
    simp [carried, packet]
  · rw [sendPacketNow_idle s sent hands]

theorem carried_refused (s : Sender) (h : s.Hands) :
    (s.sendPacketNow false).carried.length < s.carried.length := by
  have hheld := List.length_pos_iff.mpr h.1
  rw [sendPacketNow_hands s false h]
  rw [carried, carried, OpenRing.toList_clear, List.append_nil, List.length_append]
  exact Nat.lt_add_of_pos_right hheld

theorem length_carried_sendPacketNow_le (s : Sender) (sent : Bool) :
    (s.sendPacketNow sent).carried.length ≤ s.carried.length := by
  by_cases h : s.Hands
  · cases sent with
    | true => rw [carried_sendPacketNow s true (fun _ => rfl)]
    | false => exact (carried_refused s h).le
  · rw [sendPacketNow_idle s sent h]

/-! ### One byte -/

/-- The byte is stored where the write index is, whatever is there. -/
def store (s : Sender) (c : Byte) : Sender :=
  { s with txBuffer := s.txBuffer.put c, written := s.written ++ [c] }

theorem carried_store (s : Sender) (c : Byte) (h : s.txBuffer.isFull = false) :
    (s.store c).carried = s.carried ++ [c] := by
  rw [← Bool.not_eq_true, OpenRing.isFull_iff_used] at h
  have hlt := s.txBuffer.used_lt
  rw [carried, store, s.txBuffer.toList_put c (by omega), ← List.append_assoc]
  rfl

theorem carried_store_full (s : Sender) (c : Byte) (h : s.txBuffer.isFull = true) :
    (s.store c).carried.length < s.carried.length := by
  rw [OpenRing.isFull_iff_used] at h
  have hempty : (s.txBuffer.put c).toList = [] := by
    rw [OpenRing.put_eq_append]
    exact s.txBuffer.toList_append_meet [c] h
  simp only [carried, store, hempty, List.length_append, List.length_nil,
    OpenRing.length_toList]
  have hsize : 1 < bufferSize := by decide
  omega

theorem length_carried_store_le (s : Sender) (c : Byte) :
    (s.store c).carried.length ≤ s.carried.length + 1 := by
  cases h : s.txBuffer.isFull with
  | false => rw [carried_store s c h, List.length_append, List.length_singleton]
  | true => exact (carried_store_full s c h).le.trans (Nat.le_succ _)

theorem write_room (s : Sender) (c : Byte) (sent : Bool) (h : s.txBuffer.isFull = false) :
    s.write c sent = s.store c := by
  simp only [write, h, Bool.false_eq_true, if_false]
  rfl

theorem write_full (s : Sender) (c : Byte) (sent : Bool) (h : s.txBuffer.isFull = true) :
    s.write c sent = (s.sendPacketNow sent).store c := by
  simp only [write, h, if_true]
  rfl

/-- A full ring is not empty, so only a packet in flight keeps it from being sent. -/
theorem hands_of_full (s : Sender) (h : s.txBuffer.isFull = true)
    (hbusy : s.appDataReqBusy = false) : s.Hands := by
  refine ⟨fun hempty => ?_, hbusy⟩
  rw [OpenRing.isFull_iff_used, ← OpenRing.length_toList, hempty] at h
  exact absurd h (by decide)

theorem not_full_of_hands (s : Sender) (sent : Bool) (h : s.Hands) :
    (s.sendPacketNow sent).txBuffer.isFull = false := by
  rw [← Bool.not_eq_true, OpenRing.isFull_iff_used, ← OpenRing.length_toList,
    sendPacketNow_hands s sent h, OpenRing.toList_clear]
  decide

/-! ### Runs -/

def Lost (s : Sender) : Prop := s.carried.length < s.written.length

theorem Lost.lossy {s : Sender} (h : s.Lost) : ¬ s.Lossless := by
  intro hlossless
  rw [Lost, hlossless] at h
  exact lt_irrefl _ h

theorem Lost.sendPacketNow {s : Sender} (h : s.Lost) (sent : Bool) :
    (s.sendPacketNow sent).Lost := by
  rw [Lost, written_sendPacketNow]
  exact (length_carried_sendPacketNow_le s sent).trans_lt h

theorem Lost.store {s : Sender} (h : s.Lost) (c : Byte) : (s.store c).Lost := by
  have hle := length_carried_store_le s c
  have hwritten : (s.store c).written.length = s.written.length + 1 := List.length_append
  rw [Lost] at h ⊢
  omega

theorem Lost.step {s : Sender} (h : s.Lost) (l : SendStep) : (s.step l).Lost := by
  cases l with
  | write c sent =>
    cases hfull : s.txBuffer.isFull with
    | false =>
      rw [Sender.step, write_room s c sent hfull]
      exact h.store c
    | true =>
      rw [Sender.step, write_full s c sent hfull]
      exact (h.sendPacketNow sent).store c
  | flush sent => exact h.sendPacketNow sent
  | loop now later sent =>
    rw [Sender.step, Sender.loop]
    split
    case isTrue => exact h.sendPacketNow sent
    case isFalse => exact h
  | appDataCb => exact h

theorem Lossless.sendPacketNow {s : Sender} (h : s.Lossless) (sent : Bool)
    (hsent : s.Hands → sent = true) : (s.sendPacketNow sent).Lossless := by
  rw [Lossless, written_sendPacketNow, carried_sendPacketNow s sent hsent]
  exact h

theorem Lossless.store {s : Sender} (h : s.Lossless) (c : Byte)
    (hroom : s.txBuffer.isFull = false) : (s.store c).Lossless := by
  rw [Lossless, carried_store s c hroom, ← h]
  rfl

theorem Lossless.step {s : Sender} (h : s.Lossless) (l : SendStep) (hl : s.Sendable l) :
    (s.step l).Lossless := by
  cases l with
  | write c sent =>
    cases hfull : s.txBuffer.isFull with
    | false =>
      rw [Sender.step, write_room s c sent hfull]
      exact h.store c hfull
    | true =>
      rcases hl hfull with ⟨hbusy, hsent⟩
      rw [Sender.step, write_full s c sent hfull]
      apply Lossless.store (h.sendPacketNow sent (fun _ => hsent))
      exact not_full_of_hands s sent (hands_of_full s hfull hbusy)
  | flush sent => exact h.sendPacketNow sent hl
  | loop now later sent =>
    rw [Sender.step, Sender.loop]
    split
    case isTrue hdue => exact h.sendPacketNow sent (hl hdue)
    case isFalse => exact h
  | appDataCb => exact h

theorem Lossless.lost_sendPacketNow {s : Sender} (h : s.Lossless) (sent : Bool)
    (hsent : ¬ (s.Hands → sent = true)) : (s.sendPacketNow sent).Lost := by
  rw [Classical.not_imp, Bool.not_eq_true] at hsent
  rcases hsent with ⟨hands, rfl⟩
  rw [Lost, written_sendPacketNow, h]
  exact carried_refused s hands

theorem Lossless.lost_step {s : Sender} (h : s.Lossless) (l : SendStep) (hl : ¬ s.Sendable l) :
    (s.step l).Lost := by
  cases l with
  | write c sent =>
    rw [Sendable, Classical.not_imp] at hl
    rcases hl with ⟨hfull, hsent⟩
    rw [Sender.step, write_full s c sent hfull]
    by_cases hands : s.Hands
    · apply Lost.store (h.lost_sendPacketNow sent _)
      exact fun himp => hsent ⟨hands.2, himp hands⟩
    · -- nothing is sent, so the byte goes into a full ring
      rw [sendPacketNow_idle s sent hands]
      have hlt := carried_store_full s c hfull
      have hwritten : (s.store c).written.length = s.written.length + 1 := List.length_append
      rw [Lossless] at h
      rw [Lost, hwritten, h]
      omega
  | flush sent => exact h.lost_sendPacketNow sent hl
  | loop now later sent =>
    rw [Sendable, Classical.not_imp] at hl
    rw [Sender.step, Sender.loop, if_pos hl.1]
    exact h.lost_sendPacketNow sent hl.2
  | appDataCb => exact absurd trivial hl

theorem init_lossless (destAddr : Word) (buffer : Fin bufferSize → Byte) :
    (init destAddr buffer).Lossless := by
  rw [Lossless, carried, init, OpenRing.toList_init]
  rfl

/-- A run loses nothing exactly when no byte is written to a full ring that cannot be sent and
the mesh layer takes every packet. -/
theorem run_lossless_iff (destAddr : Word) (buffer : Fin bufferSize → Byte) (ls : List SendStep) :
    (run step (init destAddr buffer) ls).Lossless ↔
      Guarded step Sendable (init destAddr buffer) ls :=
  run_iff_guarded (I := Lossless) (fun _ l h hl => h.step l hl) (fun _ l h hl => h.lost_step l hl)
    (fun _ l h => h.step l) (fun _ h => h) (fun _ h => h.lossy)
    (init_lossless destAddr buffer) ls

/-- A full ring of bytes is forgotten when one more is written while a packet is in flight. -/
theorem not_lossless :
    ¬ ∀ (destAddr : Word) (buffer : Fin bufferSize → Byte) (ls : List SendStep),
      (run step (init destAddr buffer) ls).Lossless := by
  intro hall
  have hrun := hall 0x0001#16 (fun _ => 0)
    (.write 1#8 true :: .flush true :: List.replicate 105 (.write 2#8 true))
  exact absurd (congrArg List.length hrun) (by decide +kernel)

end Sender

end Aquila.WSerial
