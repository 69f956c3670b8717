import Aquila.Library.Memory
import Aquila.Protocol.Exchange
import Aquila.Protocol.NestedEvents
import Aquila.Protocol.UserCode

/-! # Packets that change the rules

A packet changes the database only through the call that a complete POST of the own
version prescribes, and only when that call is answered with ACK.
-/

namespace Aquila.Protocol
open Library SlotTable ProtocolDB

variable {σ : Type}

/-- The database call that a packet prescribes to a node of the given version. -/
def prescribed (version : Byte) (packet : List Byte) : Option Operation :=
  let hasParam := hasParamFlag (packet.getD 1 0)
  let hasData := hasDataFlag (packet.getD 1 0)
  if 3 + hasParam.toNat ≤ packetSize packet ∧ packet.getD 0 0 = version ∧
      commandType (packet.getD 1 0) = .post then
    match Command.ofByte (packet.getD 2 0) with
    | .clear => some .format
    | .entry =>
      if hasParam ∧ hasData ∧ 4 + entryLen ≤ packetSize packet then
        some (.setEntry (Entry.ofBytes ((packet.drop 4).take entryLen)) (packet.getD 3 0))
      else none
    | .addEntry =>
      if hasData ∧ ¬ hasParam ∧ 3 + entryLen ≤ packetSize packet then
        some (.appendEntry (Entry.ofBytes ((packet.drop 3).take entryLen)))
      else none
    | .delEntry => if hasParam then some (.delEntry (packet.getD 3 0)) else none
    | _ => none
  else none

def Request.operation : Request → Option Operation
  | .clear => some .format
  | .setEntry param entry => some (.setEntry entry param)
  | .addEntry entry => some (.appendEntry entry)
  | .delEntry param => some (.delEntry param)
  | _ => none

/-- The rules and stored bytes change as prescribed with an ACK, or not at all. -/
def Node.Obeys (n : Node σ) (locals : Locals) (sAddr : Word) (prescription : Option Operation)
    (s s' : NodeState σ) : Prop :=
  match prescription with
  | none => SameRules s s'
  | some operation =>
    let outcome := Rules.perform (lowestFree s.db.header.slot maxEntries) s.db.rules operation
    (outcome.1 = .ok ∧ s'.db.rules = outcome.2.2 ∧
        s' = n.sendAck sAddr { s with db := s.db.call ⟨operation, locals.header⟩ }) ∨
      (outcome.1 = .error ∧ s' = n.sendNack sAddr s)

/-! ### The prescription of a packet -/

section
variable (packet : List Byte)

theorem operation_parseAction (dataLen : ℕ) (hasParam : Bool) :
    (parseAction (fun i => packet.getD i 0) dataLen hasParam).value.operation = none := by
  rw [parseAction]
  split <;> rfl

theorem operation_parseGet (dataLen : ℕ) (hasParam : Bool) :
    (parseGet (fun i => packet.getD i 0) dataLen hasParam).value.operation = none := by
  rw [parseGet]
  split <;> rfl

theorem operation_parseEvent (dataLen : ℕ) (hasParam : Bool) :
    (parseEvent (fun i => packet.getD i 0) dataLen hasParam).value.operation = none := by
  rw [parseEvent]
  split <;> rfl

theorem packetSize_le : packetSize packet ≤ packet.length := Nat.mod_le _ _

theorem copyBytes_entry (index : ℕ) (h : index + entryLen ≤ packetSize packet) :
    (copyBytes (fun i => packet.getD i 0) index entryLen .entry).value =
      (packet.drop index).take entryLen :=
  map_getD_range packet 0 (h.trans (packetSize_le packet))

/-- A POST is decoded to the call it prescribes. -/
theorem operation_parsePost (version : Byte) (hversion : packet.getD 0 0 = version)
    (htype : commandType (packet.getD 1 0) = .post) :
    (parsePost (fun i => packet.getD i 0) (packetSize packet) (hasParamFlag (packet.getD 1 0))
        (hasDataFlag (packet.getD 1 0))).value.operation = prescribed version packet := by
  rw [parsePost, prescribed]
  split
  case isTrue hshort =>
    rw [if_neg (fun h => (not_le.mpr hshort) h.1)]
    rfl
  case isFalse hlong =>
    have hpost : 3 + (hasParamFlag (packet.getD 1 0)).toNat ≤ packetSize packet ∧
        packet.getD 0 0 = version ∧ commandType (packet.getD 1 0) = .post :=
      ⟨not_lt.mp hlong, hversion, htype⟩
    rw [if_pos hpost]
    generalize hasParamFlag (packet.getD 1 0) = hasParam
    generalize hasDataFlag (packet.getD 1 0) = hasData
    have hcommand : (readCommand (fun i => packet.getD i 0) hasParam).value =
        (packet.getD 2 0, if hasParam then packet.getD 3 0 else 0) := by
      cases hasParam <;> rfl
    rw [Traced.value_bind, hcommand]
    dsimp only
    cases Command.ofByte (packet.getD 2 0) with
    | entry =>
      dsimp only
      split
      case isTrue h =>
        rw [Traced.value_bind, copyBytes_entry packet 4 h.2.2, if_pos h.1]
        rfl
      case isFalse => rfl
    | addEntry =>
      dsimp only
      split
      case isTrue h =>
        rw [Traced.value_bind, copyBytes_entry packet 3 h.2.2]
        rfl
      case isFalse => rfl
    | delEntry => cases hasParam <;> rfl
    | _ => rfl

theorem operation_received (version : Byte) :
    (received version packet).operation = prescribed version packet := by
  by_cases hlong : 2 ≤ packetSize packet
  · by_cases hversion : packet.getD 0 0 = version
    · have hother (h : commandType (packet.getD 1 0) ≠ .post) : prescribed version packet = none :=
        if_neg (fun h' => h h'.2.2)
      rw [received_own version packet hlong hversion]
      cases htype : commandType (packet.getD 1 0) with
      | post => exact operation_parsePost packet version hversion htype
      | action => rw [operation_parseAction, hother (by rw [htype]; decide)]
      | get => rw [operation_parseGet, hother (by rw [htype]; decide)]
      | event => rw [operation_parseEvent, hother (by rw [htype]; decide)]
      | _ =>
        rw [hother (by rw [htype]; decide)]
        rfl
    · rw [received_other version packet hlong hversion, prescribed,
        if_neg (fun h => hversion h.2.1)]
      rfl
  · rw [received_short version packet (not_le.mp hlong), prescribed, if_neg (fun h => by omega)]
    rfl

end

/-! ### What a node does with it -/

namespace Node
variable (n : Node σ) (locals : Locals) (sAddr : Word) (s : NodeState σ)

theorem get_db (command : Command) (param : Byte) (hasParam : Bool) :
    (n.get locals sAddr command param hasParam s).db = s.db := by
  have hdescription (table : ℕ → Option CString) (size : ℕ) (code : Byte) :
      (n.sendDescription table size code param sAddr s).db = s.db := by
    rw [sendDescription]
    split
    case isTrue => split <;> rfl
    case isFalse => rfl
  cases command with
  | nEntries =>
    simp only [get, sendNEntries]
    split <;> rfl
  | entry =>
    simp only [get, sendEntry]
    split
    case isTrue =>
      split
      case isTrue => split <;> rfl
      case isFalse => rfl
    case isFalse => rfl
  | action =>
    simp only [get]
    split
    case isTrue => exact hdescription _ _ _
    case isFalse => rfl
  | event =>
    simp only [get]
    split
    case isTrue => exact hdescription _ _ _
    case isFalse => rfl
  | _ => rfl

/-- A request without a database call leaves the rules alone, whatever user code it runs. -/
theorem act_sameRules (depth : ℕ) (request : Request) (s' : NodeState σ)
    (hrequest : request.operation = none)
    (h : n.act (n.emit locals depth) locals sAddr request s = some s') : SameRules s s' := by
  have hR := n.stable_sameRules
  have hemit := hR.emit locals depth
  cases request with
  | ignore =>
    cases h
    exact hR.refl _
  | reject =>
    cases h
    exact hR.refl _
  | action command param hasParam =>
    simp only [act, Option.bind_eq_bind, Option.bind_eq_some_iff, Option.some.injEq] at h
    rcases h with ⟨⟨result, s₁⟩, haction, hreply⟩
    rcases hR.doAction hemit _ s s₁ result haction with ⟨hpersist, hrom⟩
    rw [← hreply]
    cases result <;> exact ⟨hpersist, hrom⟩
  | get command param hasParam =>
    cases h
    have hdb := n.get_db locals sAddr s command param hasParam
    rw [SameRules, hdb]
    exact .refl s.db
  | event address event param hasParam eName =>
    simp only [act, Option.bind_eq_bind, Option.bind_eq_some_iff, Option.some.injEq] at h
    rcases h with ⟨⟨calls, s₁⟩, hcheck, rfl⟩
    exact hR.checkEvent hemit locals _ s s₁ calls hcheck
  | clear => cases hrequest
  | setEntry param entry => cases hrequest
  | addEntry entry => cases hrequest
  | delEntry param => cases hrequest

theorem act_operation (emit : Emission → NodeState σ → Option (NodeState σ)) (request : Request)
    (operation : Operation) (hdb : s.db.Consistent)
    (hrequest : request.operation = some operation) :
    n.act emit locals sAddr request s =
      some (if (s.db.perform locals.header operation).1 = .ok then
          n.sendAck sAddr { s with db := s.db.call ⟨operation, locals.header⟩ }
        else n.sendNack sAddr { s with db := s.db.call ⟨operation, locals.header⟩ }) := by
  cases request with
  | clear =>
    cases hrequest
    have hok : (s.db.perform locals.header .format).1 = .ok := hdb.toOpen.format.1
    rw [if_pos hok]
    rfl
  | setEntry param entry =>
    cases hrequest
    rfl
  | addEntry entry =>
    cases hrequest
    rfl
  | delEntry param =>
    cases hrequest
    rfl
  | ignore => cases hrequest
  | reject => cases hrequest
  | action command param hasParam => cases hrequest
  | get command param hasParam => cases hrequest
  | event address event param hasParam eName => cases hrequest

end Node

theorem perform_ok_or_error (free : ℕ) (rules : List Entry) (operation : Operation) :
    (Rules.perform free rules operation).1 = .ok ∨
      (Rules.perform free rules operation).1 = .error := by
  cases operation with
  | format => exact Or.inl rfl
  | _ =>
    rw [Rules.perform]
    split
    case isTrue => exact Or.inl rfl
    case isFalse => exact Or.inr rfl

/-- A packet that is parsed changes the rules as it prescribes, or not at all. -/
theorem parsePacket_obeys (n : Node σ) (locals : Locals) (depth : ℕ) (sAddr : Word)
    (packet : List Byte) (s s' : NodeState σ) (hdb : s.db.Consistent)
    (h : n.parsePacket (n.emit locals depth) locals sAddr packet s = some s') :
    n.Obeys locals sAddr (prescribed n.version packet) s s' := by
  have hact : n.act (n.emit locals depth) locals sAddr (received n.version packet) s = some s' := h
  rw [← operation_received]
  cases hoperation : (received n.version packet).operation with
  | none => exact n.act_sameRules locals sAddr s depth _ s' hoperation hact
  | some operation =>
    rw [n.act_operation locals sAddr s _ _ operation hdb hoperation, Option.some.injEq] at hact
    rcases hdb.refines ⟨operation, locals.header⟩ with ⟨_, hrefines, hrefused⟩
    have hstatus := perform_ok_or_error (lowestFree s.db.header.slot maxEntries) s.db.rules
      operation
    simp only [Node.Obeys, ← hrefines] at hstatus ⊢
    rcases hstatus with hok | herror
    · rw [if_pos hok] at hact
      rw [← hact]
      exact Or.inl ⟨hok, rfl, rfl⟩
    · rw [if_neg (by rw [herror]; decide), hrefused herror] at hact
      rw [← hact]
      exact Or.inr ⟨herror, rfl⟩

/-- A full clear of the example database. -/
theorem parsePacket_obeys_clear :
    ∃ s', (Node.exampleNode Node.blink).parsePacket
        ((Node.exampleNode Node.blink).emit Node.exampleLocals 0) Node.exampleLocals 2
        [protocolVersion, 0x04#8, 7#8] Node.exampleState = some s' ∧
      (Node.exampleNode Node.blink).Obeys Node.exampleLocals 2
        (prescribed protocolVersion [protocolVersion, 0x04#8, 7#8]) Node.exampleState s' :=
  ⟨_, rfl, parsePacket_obeys (Node.exampleNode Node.blink) Node.exampleLocals 0 2
    [protocolVersion, 0x04#8, 7#8] Node.exampleState _ Node.exampleStore_consistent rfl⟩

end Aquila.Protocol
