import Aquila.Library.Run
import Aquila.Protocol.Answers

/-! # Exchanges between two nodes

Every reply is delivered to the other node and parsed there. A packet is checked for its
length and version before its type is looked at, so what ends an exchange is that the
node of the same version ignores an ACK or NACK.
-/

namespace Aquila.Protocol
open Library ProtocolDB

variable {σ : Type}

/-- Two nodes, with the packets in flight and the node each is addressed to. -/
structure Exchange (σ : Type) where
  states : Bool → NodeState σ
  flight : List (Bool × List Byte)

/-- The two nodes, called false and true, with their addresses. -/
structure Pair (σ : Type) where
  nodes : Bool → Node σ
  addresses : Bool → Word

namespace Pair

/-- Deliver the oldest packet in flight; the replies fly to the other node. -/
def deliver (p : Pair σ) (depth : ℕ) (locals : Locals) (x : Exchange σ) : Option (Exchange σ) :=
  match x.flight with
  | [] => some x
  | (side, packet) :: flight => do
    let n := p.nodes side
    let s ← n.parsePacket (n.emit locals depth) locals (p.addresses (!side)) packet
      (x.states side)
    let replies := s.sent.drop (x.states side).sent.length
    some
      { states := Function.update x.states side s
        flight := flight ++ replies.map (fun reply => (!side, reply.message.payload)) }

/-- The first `count` deliveries, each with its own uninitialised locals. -/
def deliveries (p : Pair σ) (depth count : ℕ) (locals : ℕ → Locals) (x : Exchange σ) :
    Option (Exchange σ) :=
  tryRun (p.deliver depth) count locals x

/-- Node false is given a packet that names node true as its source. -/
def start (states : Bool → NodeState σ) (packet : List Byte) : Exchange σ :=
  ⟨states, [(false, packet)]⟩

/-- After some deliveries no packet is in flight. -/
def Finite (p : Pair σ) (depth : ℕ) (locals : ℕ → Locals) (x : Exchange σ) : Prop :=
  ∃ count x', p.deliveries depth count locals x = some x' ∧ x'.flight = []

end Pair

def packetSize (packet : List Byte) : ℕ := (BitVec.ofNat 8 packet.length).toNat

def Receipt (packet : List Byte) : Prop :=
  2 ≤ packetSize packet ∧
    (commandType (packet.getD 1 0) = .ack ∨ commandType (packet.getD 1 0) = .nack)

/-- No delivery of an ACK or NACK adds a packet in flight. -/
def Pair.ReceiptsUnanswered (p : Pair σ) (depth : ℕ) (locals : ℕ → Locals)
    (x : Exchange σ) : Prop :=
  ∀ count x' side packet flight x'', p.deliveries depth count locals x = some x' →
    x'.flight = (side, packet) :: flight → Receipt packet →
    p.deliver depth (locals count) x' = some x'' → x''.flight = flight

/-- The packets of the own version that are carried out without any reply to the given
address. -/
def NeedsNoAnswer (version : Byte) (locals : Locals) (address : Word) (db : Store)
    (packet : List Byte) : Prop :=
  2 ≤ packetSize packet ∧ packet.getD 0 0 = version ∧
    match commandType (packet.getD 1 0) with
    | .nack => True
    | .ack => True
    | .event => True
    | .get =>
      3 + (hasParamFlag (packet.getD 1 0)).toNat ≤ packetSize packet ∧
        match Command.ofByte (packet.getD 2 0) with
        | .nEntries => address = Mesh.broadcast
        | .entry => address = Mesh.broadcast ∧ hasParamFlag (packet.getD 1 0) = true ∧
            (db.getEntry locals.header locals.entry (packet.getD 3 0)).status = .ok
        | .clear => True
        | .addEntry => True
        | .delEntry => True
        | .other => True
        | _ => False
    | .post =>
      3 + (hasParamFlag (packet.getD 1 0)).toNat ≤ packetSize packet ∧
        Command.ofByte (packet.getD 2 0) ≠ .clear ∧ Command.ofByte (packet.getD 2 0) ≠ .entry ∧
        Command.ofByte (packet.getD 2 0) ≠ .addEntry ∧
        Command.ofByte (packet.getD 2 0) ≠ .delEntry
    | _ => False

/-! ### Replies as packets -/

/-- The payload that `send` makes of command bytes. -/
def wire (version : Byte) (command : List Byte) : List Byte :=
  (send version 0 command).message.payload

theorem packetSize_wire (version : Byte) (command : List Byte) :
    packetSize (wire version command) = (wire version command).length := by
  have hle : (wire version command).length ≤ ((BitVec.ofNat 8 command.length) + 1).toNat :=
    List.length_take_le _ _
  have hlt := ((BitVec.ofNat 8 command.length) + 1).isLt
  rw [packetSize, BitVec.toNat_ofNat, Nat.mod_eq_of_lt (by omega)]

/-- The bytes of a reply that was not cut short by the eight-bit sizes. -/
theorem wire_getD (version control : Byte) (rest : List Byte)
    (h : 2 ≤ packetSize (wire version (control :: rest))) :
    (wire version (control :: rest)).getD 0 0 = version ∧
      (wire version (control :: rest)).getD 1 0 = control := by
  rw [packetSize_wire] at h
  unfold wire send at h ⊢
  dsimp only at h ⊢
  generalize (BitVec.ofNat 8 (control :: rest).length + 1).toNat = k at h ⊢
  generalize (BitVec.ofNat 8 (control :: rest).length).toNat = m at h ⊢
  rw [List.length_take, List.length_cons] at h
  obtain ⟨k, rfl⟩ : ∃ k', k = k' + 2 := ⟨k - 2, by omega⟩
  cases m with
  | zero =>
    simp only [List.take_zero, List.length_nil] at h
    omega
  | succ m => exact ⟨rfl, rfl⟩

/-- What a node of the given version makes of a packet. -/
def received (version : Byte) (packet : List Byte) : Request :=
  (decode version (fun i => packet.getD i 0) (BitVec.ofNat 8 packet.length)).value

section
variable (version : Byte) (packet : List Byte)

theorem received_short (h : packetSize packet < 2) : received version packet = .reject := by
  unfold packetSize at h
  rw [received, decode, if_pos h]
  rfl

theorem received_other (h : 2 ≤ packetSize packet) (hversion : packet.getD 0 0 ≠ version) :
    received version packet = .reject := by
  unfold packetSize at h
  rw [received, decode, if_neg (not_lt.mpr h), Traced.value_bind]
  exact congrArg Traced.value (if_pos hversion)

theorem received_own (h : 2 ≤ packetSize packet) (hversion : packet.getD 0 0 = version) :
    received version packet =
      match commandType (packet.getD 1 0) with
      | .nack => .ignore
      | .ack => .ignore
      | .action => (parseAction (fun i => packet.getD i 0) (packetSize packet)
          (hasParamFlag (packet.getD 1 0))).value
      | .get => (parseGet (fun i => packet.getD i 0) (packetSize packet)
          (hasParamFlag (packet.getD 1 0))).value
      | .post => (parsePost (fun i => packet.getD i 0) (packetSize packet)
          (hasParamFlag (packet.getD 1 0)) (hasDataFlag (packet.getD 1 0))).value
      | .custom => .reject
      | .event => (parseEvent (fun i => packet.getD i 0) (packetSize packet)
          (hasParamFlag (packet.getD 1 0))).value
      | .undefined => .reject := by
  unfold packetSize at h ⊢
  rw [received, decode, if_neg (not_lt.mpr h), Traced.value_bind]
  refine (congrArg Traced.value (if_neg (not_not.mpr hversion))).trans ?_
  have hcontrol : (readByte (fun i => packet.getD i 0) 1).value = packet.getD 1 0 := rfl
  rw [Traced.value_bind, Traced.value_bind, hcontrol]
  cases commandType (packet.getD 1 0) <;> rfl

end

theorem received_receipt (version : Byte) (packet : List Byte) (h : Receipt packet)
    (hversion : packet.getD 0 0 = version) : received version packet = .ignore := by
  rw [received_own version packet h.1 hversion]
  rcases h.2 with htype | htype
  · rw [htype]
  · rw [htype]

theorem receipt_wire (version : Byte) (command : List Byte) (h : IsReceipt command) :
    Receipt (wire version command) ∧ (wire version command).getD 0 0 = version := by
  rcases h with rfl | rfl
  · have hlong : 2 ≤ packetSize (wire version [0x01#8]) := le_rfl
    rcases wire_getD version 0x01#8 [] hlong with ⟨hversion, htype⟩
    exact ⟨⟨hlong, Or.inl (by rw [htype]; rfl)⟩, hversion⟩
  · have hlong : 2 ≤ packetSize (wire version [0x00#8]) := le_rfl
    rcases wire_getD version 0x00#8 [] hlong with ⟨hversion, htype⟩
    exact ⟨⟨hlong, Or.inr (by rw [htype]; rfl)⟩, hversion⟩

/-- A reply of another version is rejected whatever it says. -/
theorem received_mismatch (version version' : Byte) (c : List Byte) (hc : Node.IsAnswer c)
    (h : version ≠ version') : received version' (wire version c) = .reject := by
  rcases hc.exists_cons with ⟨control, rest, rfl⟩
  by_cases hlong : 2 ≤ packetSize (wire version (control :: rest))
  · apply received_other version' _ hlong
    rw [(wire_getD version control rest hlong).1]
    exact h
  · exact received_short version' _ (not_le.mp hlong)

theorem plain_parsePost (data : ℕ → Byte) (dataLen : ℕ) (hasParam hasData : Bool) :
    (parsePost data dataLen hasParam hasData).value.Plain := by
  rw [parsePost]
  split
  case isTrue => trivial
  case isFalse =>
    rw [Traced.value_bind]
    dsimp only
    split
    case h_2 => split <;> trivial
    case h_3 => split <;> trivial
    case h_4 => split <;> trivial
    all_goals trivial

theorem parsePost_ne_get (data : ℕ → Byte) (dataLen : ℕ) (hasParam hasData : Bool)
    (command : Command) (param : Byte) (hasParam' : Bool) :
    (parsePost data dataLen hasParam hasData).value ≠ .get command param hasParam' := by
  intro h
  have hplain := plain_parsePost data dataLen hasParam hasData
  rw [h] at hplain
  exact hplain

/-- No reply is read as a GET by a node of the same version. -/
theorem received_answer_ne_get (version : Byte) (c : List Byte) (h : Node.IsAnswer c)
    (command : Command) (param : Byte) (hasParam : Bool) :
    received version (wire version c) ≠ .get command param hasParam := by
  rcases h with h | ⟨control, rest, rfl, hcontrol⟩
  · rcases receipt_wire version c h with ⟨hreceipt, hversion⟩
    rw [received_receipt version _ hreceipt hversion]
    exact Request.noConfusion
  · by_cases hlong : 2 ≤ packetSize (wire version (control :: rest))
    · rcases wire_getD version control rest hlong with ⟨hversion, htype⟩
      rw [received_own version _ hlong hversion, htype, hcontrol]
      exact parsePost_ne_get _ _ _ _ _ _ _
    · rw [received_short version _ (not_le.mp hlong)]
      exact Request.noConfusion

section
variable (version : Byte) (locals : Locals) (address : Word) (s : NodeState σ) (packet : List Byte)

theorem unanswered_get :
    Node.Unanswered locals address s (parseGet (fun i => packet.getD i 0) (packetSize packet)
        (hasParamFlag (packet.getD 1 0))).value ↔
      3 + (hasParamFlag (packet.getD 1 0)).toNat ≤ packetSize packet ∧
        match Command.ofByte (packet.getD 2 0) with
        | .nEntries => address = Mesh.broadcast
        | .entry => address = Mesh.broadcast ∧ hasParamFlag (packet.getD 1 0) = true ∧
            (s.db.getEntry locals.header locals.entry (packet.getD 3 0)).status = .ok
        | .clear => True
        | .addEntry => True
        | .delEntry => True
        | .other => True
        | _ => False := by
  rw [parseGet]
  split
  case isTrue hshort => exact iff_of_false not_false (fun h => (not_le.mpr hshort) h.1)
  case isFalse hlong =>
    rw [and_iff_right (not_lt.mp hlong)]
    cases hasParamFlag (packet.getD 1 0) with
    | true =>
      change Node.Unanswered locals address s
        (.get (.ofByte (packet.getD 2 0)) (packet.getD 3 0) true) ↔ _
      cases Command.ofByte (packet.getD 2 0) <;> rfl
    | false =>
      change Node.Unanswered locals address s (.get (.ofByte (packet.getD 2 0)) 0 false) ↔ _
      cases Command.ofByte (packet.getD 2 0) with
      | entry => simp [Node.Unanswered]
      | _ => rfl

theorem unanswered_post (hasParam hasData : Bool) :
    Node.Unanswered locals address s (parsePost (fun i => packet.getD i 0) (packetSize packet)
        hasParam hasData).value ↔
      3 + hasParam.toNat ≤ packetSize packet ∧
        Command.ofByte (packet.getD 2 0) ≠ .clear ∧ Command.ofByte (packet.getD 2 0) ≠ .entry ∧
        Command.ofByte (packet.getD 2 0) ≠ .addEntry ∧
        Command.ofByte (packet.getD 2 0) ≠ .delEntry := by
  rw [parsePost]
  split
  case isTrue hshort => exact iff_of_false not_false (fun h => (not_le.mpr hshort) h.1)
  case isFalse hlong =>
    rw [and_iff_right (not_lt.mp hlong), Traced.value_bind]
    have hcommand : (readCommand (fun i => packet.getD i 0) hasParam).value.1 =
        packet.getD 2 0 := by
      cases hasParam <;> rfl
    dsimp only
    rw [hcommand]
    cases Command.ofByte (packet.getD 2 0) with
    | entry =>
      refine iff_of_false ?_ (fun h => h.2.1 rfl)
      dsimp only
      split <;> exact not_false
    | addEntry =>
      refine iff_of_false ?_ (fun h => h.2.2.1 rfl)
      dsimp only
      split <;> exact not_false
    | delEntry =>
      refine iff_of_false ?_ (fun h => h.2.2.2 rfl)
      dsimp only
      split <;> exact not_false
    | clear => exact iff_of_false not_false (fun h => h.1 rfl)
    | _ => exact iff_of_true trivial (by decide)

theorem unanswered_event (hasParam : Bool) :
    Node.Unanswered locals address s (parseEvent (fun i => packet.getD i 0) (packetSize packet)
        hasParam).value := by
  rw [parseEvent]
  split
  case isTrue => trivial
  case isFalse => trivial

theorem unanswered_received_iff :
    Node.Unanswered locals address s (received version packet) ↔
      NeedsNoAnswer version locals address s.db packet := by
  rw [NeedsNoAnswer]
  by_cases hlong : 2 ≤ packetSize packet
  · by_cases hversion : packet.getD 0 0 = version
    · rw [and_iff_right hlong, and_iff_right hversion, received_own version packet hlong hversion]
      cases commandType (packet.getD 1 0) with
      | nack => exact Iff.rfl
      | ack => exact Iff.rfl
      | action =>
        refine iff_of_false ?_ not_false
        dsimp only [parseAction]
        split <;> exact not_false
      | get => exact unanswered_get locals address s packet
      | post => exact unanswered_post locals address s packet _ _
      | custom => exact Iff.rfl
      | event => exact iff_of_true (unanswered_event locals address s packet _) trivial
      | undefined => exact Iff.rfl
    · rw [received_other version packet hlong hversion]
      exact iff_of_false not_false (fun h => hversion h.2.1)
  · rw [received_short version packet (not_le.mp hlong)]
    exact iff_of_false not_false (fun h => hlong h.1)

end

end Aquila.Protocol
