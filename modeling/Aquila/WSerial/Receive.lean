import Aquila.Mesh.Rx
import Aquila.WSerial.Transmit

/-! # Reception of the wireless serial port

`receiveMessage` stores the payload of a packet in a ring from which `read` takes single
bytes. A packet may be as long as the space that `available` leaves, which is one cell
more than the ring can hold.
-/

namespace Aquila.WSerial
open Library Mesh

structure Receiver where
  destAddress : Word
  allowFromAny : Bool
  rxBuffer : OpenRing Byte bufferSize
  /-- packets that `receiveMessage` did not drop -/
  accepted : List Indication
  /-- bytes returned by `read` -/
  returned : List Byte

inductive ReceiveStep where
  | receive (ind : Indication)
  | read
  | peek
  | available

namespace Receiver

def init (destAddr : Word) (allowFromAny : Bool) (buffer : Fin bufferSize → Byte) : Receiver where
  destAddress := destAddr
  allowFromAny := allowFromAny
  rxBuffer := OpenRing.init bufferSize_pos buffer
  accepted := []
  returned := []

def data (ind : Indication) : List Byte :=
  (List.range ind.size.toNat).map (fun i => ind.payload.getD i 0)

def listens (s : Receiver) (ind : Indication) : Bool :=
  s.destAddress == broadcast || s.allowFromAny || ind.srcAddr == s.destAddress

/-- `WirelessSerial::available` -/
def available (s : Receiver) : ℕ := s.rxBuffer.used

/-- `receiveMessage`. It returns false for a packet it drops; for a packet it stores there is
no `return` statement, and the caller does not look at the result. -/
def receiveMessage (s : Receiver) (ind : Indication) : Option Bool × Receiver :=
  if s.listens ind = false then (some false, s)
  else if bufferSize - s.available < ind.size.toNat then (some false, s)
  else (none, { s with rxBuffer := s.rxBuffer.append (data ind) })

/-- `WirelessSerial::peek`, with `none` for -1 -/
def peek (s : Receiver) : Option Byte :=
  if s.rxBuffer.isEmpty then none else some (s.rxBuffer.buffer s.rxBuffer.tail)

/-- `WirelessSerial::read`, with `none` for -1 -/
def read (s : Receiver) : Option Byte × Receiver :=
  if s.rxBuffer.isEmpty then (none, s)
  else (some (s.rxBuffer.buffer s.rxBuffer.tail), { s with rxBuffer := s.rxBuffer.drop })

def step (s : Receiver) : ReceiveStep → Receiver
  | .receive ind =>
    let (dropped, s) := s.receiveMessage ind
    if dropped = some false then s else { s with accepted := s.accepted ++ [ind] }
  | .read =>
    let (c, s) := s.read
    { s with returned := s.returned ++ c.toList }
  | .peek => s
  | .available => s

def arrived (s : Receiver) : List Byte := s.accepted.flatMap data

/-- What `read` has returned and what it will return are the bytes that arrived. -/
structure Intact (s : Receiver) : Prop where
  order : s.arrived = s.returned ++ s.rxBuffer.toList
  available : s.available + s.returned.length = s.arrived.length

/-- A packet changes nothing, or all its bytes are appended to the ring. -/
def Appends (s : Receiver) : ReceiveStep → Prop
  | .receive ind =>
    s.receiveMessage ind = (some false, s) ∨
      (s.step (.receive ind)).rxBuffer.toList = s.rxBuffer.toList ++ data ind
  | _ => True

/-- A packet that the port listens to does not take the last free cell. -/
def LeavesCell (s : Receiver) : ReceiveStep → Prop
  | .receive ind => s.listens ind = true → s.available + ind.size.toNat ≠ bufferSize
  | _ => True

/-! ### Packets -/

@[simp] theorem length_data (ind : Indication) : (data ind).length = ind.size.toNat := by
  simp [data]

def Drops (s : Receiver) (ind : Indication) : Prop :=
  s.listens ind = false ∨ bufferSize < s.available + ind.size.toNat

theorem receiveMessage_dropped (s : Receiver) (ind : Indication) (h : s.Drops ind) :
    s.receiveMessage ind = (some false, s) := by
  rw [receiveMessage]
  split
  case isTrue => rfl
  case isFalse hlistens =>
    have hlt := s.rxBuffer.used_lt
    have hsize := h.resolve_left hlistens
    rw [available] at hsize
    rw [if_pos]
    rw [available]
    omega

theorem receiveMessage_stored (s : Receiver) (ind : Indication) (h : ¬ s.Drops ind) :
    s.receiveMessage ind = (none, { s with rxBuffer := s.rxBuffer.append (data ind) }) := by
  rw [Drops, not_or] at h
  have hsize : ¬ bufferSize - s.available < ind.size.toNat := by omega
  rw [receiveMessage, if_neg h.1, if_neg hsize]

theorem receive_dropped (s : Receiver) (ind : Indication) (h : s.Drops ind) :
    s.step (.receive ind) = s := by
  simp only [step, receiveMessage_dropped s ind h, if_true]

theorem receive_stored (s : Receiver) (ind : Indication) (h : ¬ s.Drops ind) :
    s.step (.receive ind) =
      { s with rxBuffer := s.rxBuffer.append (data ind), accepted := s.accepted ++ [ind] } := by
  simp only [step, receiveMessage_stored s ind h]
  rfl

theorem toList_stored (s : Receiver) (ind : Indication) (h : ¬ s.Drops ind)
    (hcell : s.LeavesCell (.receive ind)) :
    (s.rxBuffer.append (data ind)).toList = s.rxBuffer.toList ++ data ind := by
  rw [Drops, not_or, Bool.not_eq_false] at h
  have hne := hcell h.1
  apply OpenRing.toList_append
  rw [length_data]
  rw [available] at h hne
  omega

/-- A packet that takes the last free cell makes the ring look empty. -/
theorem toList_stored_meet (s : Receiver) (ind : Indication)
    (h : s.available + ind.size.toNat = bufferSize) :
    (s.rxBuffer.append (data ind)).toList = [] := by
  apply OpenRing.toList_append_meet
  rw [length_data]
  exact h

theorem appends_of_leavesCell (s : Receiver) (l : ReceiveStep) (h : s.LeavesCell l) :
    s.Appends l := by
  cases l with
  | receive ind =>
    by_cases hdrops : s.Drops ind
    · exact Or.inl (receiveMessage_dropped s ind hdrops)
    · apply Or.inr
      rw [receive_stored s ind hdrops]
      exact toList_stored s ind hdrops h
  | read => trivial
  | peek => trivial
  | available => trivial

/-! ### Bytes read -/

theorem read_empty (s : Receiver) (h : s.rxBuffer.toList = []) : s.read = (none, s) := by
  rw [read, if_pos ((OpenRing.isEmpty_iff _).mpr h)]

theorem read_oldest (s : Receiver) (h : s.rxBuffer.toList ≠ []) :
    ∃ c, s.read = (some c, { s with rxBuffer := s.rxBuffer.drop }) ∧
      s.rxBuffer.toList = c :: s.rxBuffer.drop.toList := by
  have hempty : ¬ s.rxBuffer.isEmpty = true := fun he => h ((OpenRing.isEmpty_iff _).mp he)
  refine ⟨s.rxBuffer.buffer s.rxBuffer.tail, ?_, ?_⟩
  · rw [read, if_neg hempty]
  · apply OpenRing.toList_eq_cons
    rwa [OpenRing.isEmpty_iff_used] at hempty

/-- What has been returned and what is held only change places. -/
theorem step_read (s : Receiver) :
    (s.step .read).returned ++ (s.step .read).rxBuffer.toList =
      s.returned ++ s.rxBuffer.toList ∧ (s.step .read).accepted = s.accepted := by
  by_cases h : s.rxBuffer.toList = []
  · simp only [step, read_empty s h, Option.toList_none, List.append_nil, and_self]
  · rcases read_oldest s h with ⟨c, hread, hlist⟩
    simp only [step, hread, hlist, Option.toList_some, List.append_assoc, List.singleton_append,
      and_self]

/-! ### Runs -/

theorem Intact.of_order {s : Receiver} (h : s.arrived = s.returned ++ s.rxBuffer.toList) :
    s.Intact where
  order := h
  available := by
    have hlength := congrArg List.length h
    rw [List.length_append, OpenRing.length_toList] at hlength
    rw [Receiver.available]
    omega

theorem init_intact (destAddr : Word) (allowFromAny : Bool) (buffer : Fin bufferSize → Byte) :
    (init destAddr allowFromAny buffer).Intact := by
  apply Intact.of_order
  rw [init, OpenRing.toList_init]
  rfl

theorem Intact.step {s : Receiver} (h : s.Intact) (l : ReceiveStep) (hl : s.LeavesCell l) :
    (s.step l).Intact := by
  cases l with
  | receive ind =>
    by_cases hdrops : s.Drops ind
    · rwa [receive_dropped s ind hdrops]
    · rw [receive_stored s ind hdrops]
      apply Intact.of_order
      have horder := h.order
      rw [arrived] at horder
      dsimp only
      rw [toList_stored s ind hdrops hl, arrived, List.flatMap_append, horder,
        List.flatMap_singleton, List.append_assoc]
  | read =>
    rcases step_read s with ⟨hbytes, haccepted⟩
    apply Intact.of_order
    rw [arrived, haccepted, hbytes]
    exact h.order
  | peek => exact h
  | available => exact h

def Lost (s : Receiver) : Prop := (s.returned ++ s.rxBuffer.toList).length < s.arrived.length

theorem Lost.damaged {s : Receiver} (h : s.Lost) : ¬ s.Intact := by
  intro hintact
  rw [Lost, hintact.order] at h
  exact lt_irrefl _ h

theorem length_append_le (s : Receiver) (ind : Indication) (h : ¬ s.Drops ind) :
    (s.rxBuffer.append (data ind)).toList.length ≤ s.rxBuffer.toList.length + ind.size.toNat := by
  by_cases hcell : s.available + ind.size.toNat = bufferSize
  · rw [toList_stored_meet s ind hcell]
    exact Nat.zero_le _
  · rw [toList_stored s ind h (fun _ => hcell), List.length_append, length_data]

theorem length_arrived_stored (s : Receiver) (ind : Indication) :
    ((s.accepted ++ [ind]).flatMap data).length = s.arrived.length + ind.size.toNat := by
  rw [List.flatMap_append, List.length_append, List.flatMap_singleton, length_data, arrived]

theorem Lost.step {s : Receiver} (h : s.Lost) (l : ReceiveStep) : (s.step l).Lost := by
  cases l with
  | receive ind =>
    by_cases hdrops : s.Drops ind
    · rwa [receive_dropped s ind hdrops]
    · have hle := length_append_le s ind hdrops
      have harrived := length_arrived_stored s ind
      rw [receive_stored s ind hdrops]
      rw [Lost, List.length_append] at h ⊢
      rw [arrived, harrived]
      dsimp only
      omega
  | read =>
    rcases step_read s with ⟨hbytes, haccepted⟩
    rw [Lost, arrived, haccepted, hbytes]
    exact h
  | peek => exact h
  | available => exact h

theorem Intact.lost_step {s : Receiver} (h : s.Intact) (l : ReceiveStep) (hl : ¬ s.LeavesCell l) :
    (s.step l).Lost := by
  cases l with
  | receive ind =>
    rw [LeavesCell, Classical.not_imp, not_not] at hl
    rcases hl with ⟨hlistens, hcell⟩
    have hdrops : ¬ s.Drops ind := by
      rw [Drops, hlistens, hcell]
      exact not_or.mpr ⟨Bool.noConfusion, lt_irrefl _⟩
    have harrived := length_arrived_stored s ind
    have havailable := h.available
    have hsize : 0 < bufferSize := by decide
    rw [receive_stored s ind hdrops, Lost, toList_stored_meet s ind hcell, List.append_nil, arrived,
      harrived]
    dsimp only
    omega
  | read => exact absurd trivial hl
  | peek => exact absurd trivial hl
  | available => exact absurd trivial hl

theorem run_intact_iff_leavesCell (destAddr : Word) (allowFromAny : Bool)
    (buffer : Fin bufferSize → Byte) (ls : List ReceiveStep) :
    (run step (init destAddr allowFromAny buffer) ls).Intact ↔
      Guarded step LeavesCell (init destAddr allowFromAny buffer) ls :=
  run_iff_guarded (I := Intact) (fun _ l h hl => h.step l hl) (fun _ l h hl => h.lost_step l hl)
    (fun _ l h => h.step l) (fun _ h => h) (fun _ h => h.damaged)
    (init_intact destAddr allowFromAny buffer) ls

/-- Packets are dropped or appended whole, and `read` returns their bytes, exactly in the runs in
which no packet takes the last free cell of the ring. -/
theorem run_intact_iff (destAddr : Word) (allowFromAny : Bool) (buffer : Fin bufferSize → Byte)
    (ls : List ReceiveStep) :
    (Guarded step Appends (init destAddr allowFromAny buffer) ls ∧
        (run step (init destAddr allowFromAny buffer) ls).Intact) ↔
      Guarded step LeavesCell (init destAddr allowFromAny buffer) ls := by
  rw [run_intact_iff_leavesCell]
  exact and_iff_right_of_imp (Guarded.mono appends_of_leavesCell)

def fullPacket : Indication where
  srcAddr := 0x0001#16
  dstAddr := 0x0002#16
  srcEndpoint := wserialEndpoint
  dstEndpoint := wserialEndpoint
  options := 0
  size := 105
  lqi := 0
  rssi := 0
  payload := List.replicate 105 0x07#8

/-- A packet as long as the buffer is stored and then not there to be read. -/
theorem not_intact :
    ¬ ∀ (destAddr : Word) (allowFromAny : Bool) (buffer : Fin bufferSize → Byte)
      (ls : List ReceiveStep), (∀ ind, .receive ind ∈ ls → ind.size.toNat ≤ bufferSize) →
        (run step (init destAddr allowFromAny buffer) ls).Intact := by
  intro hall
  have hrun := hall 0x0001#16 false (fun _ => 0) [.receive fullPacket] (by
    intro ind hind
    cases List.mem_singleton.mp hind
    decide)
  exact absurd hrun.available (by decide +kernel)

end Receiver

end Aquila.WSerial
