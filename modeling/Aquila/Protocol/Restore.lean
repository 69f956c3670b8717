import Aquila.Protocol.Delivery
import Aquila.Protocol.RuleChanges
import Aquila.ProtocolDB.Iterator

/-! # Copying a rule to another node

The answer to GET ENTRY has the format of POST ENTRY. A node that receives it writes
the entry under the same number, and a node that already has it there changes nothing.
-/

namespace Aquila.Protocol
open Library ProtocolDB

variable {σ τ : Type}

namespace Node

def entryCommand (nEntry : Byte) (entry : Entry) : List Byte :=
  0x1C#8 :: 6#8 :: nEntry :: entry.toBytes

theorem length_entryCommand (nEntry : Byte) (entry : Entry) :
    (entryCommand nEntry entry).length = 3 + entryLen := by
  rw [entryCommand, List.length_cons, List.length_cons, List.length_cons, Entry.length_toBytes]
  rfl

theorem sendEntry_listed (n : Node σ) (locals : Locals) (k : Byte) (address : Word)
    (s : NodeState σ) (hdb : s.db.Consistent) {entry : Entry}
    (hentry : s.db.rules[k.toNat]? = some entry) :
    n.sendEntry locals k address s =
      if address = Mesh.broadcast then s else n.reply address (entryCommand k entry) s := by
  have hlisted : k.toNat < s.db.rules.length := (List.getElem?_eq_some_iff.mp hentry).1
  rcases hdb.getEntry_listed locals.header locals.entry k hlisted with ⟨hstatus, hget, _⟩
  rw [sendEntry, hstatus, if_pos rfl, hget, hentry, ite_not]
  rfl

theorem received_entryCommand (version : Byte) (k : Byte) (entry : Entry) :
    received version (version :: entryCommand k entry) = .setEntry k entry := by
  let packet := version :: entryCommand k entry
  have hsize : packetSize packet = 4 + entryLen := by
    rw [packetSize, List.length_cons, length_entryCommand]
    rfl
  have hcontrol : packet.getD 1 0 = 0x1C#8 := rfl
  have hflags : commandType 0x1C#8 = .post ∧ hasParamFlag 0x1C#8 = true ∧
      hasDataFlag 0x1C#8 = true := by decide
  have hcopy : (copyBytes (fun i => packet.getD i 0) 4 entryLen .entry).value = entry.toBytes := by
    rw [copyBytes_entry packet 4 hsize.ge]
    exact List.take_of_length_le (Entry.length_toBytes entry).le
  have hcommand : (readCommand (fun i => packet.getD i 0) true).value = (6#8, k) := rfl
  rw [received_own version packet (by omega) rfl, hcontrol, hflags.1, hflags.2.1, hflags.2.2,
    hsize]
  change (parsePost (fun i => packet.getD i 0) (4 + entryLen) true true).value = _
  rw [parsePost, if_neg (by decide), Traced.value_bind, hcommand]
  change (copyBytes (fun i => packet.getD i 0) 4 entryLen .entry >>= fun bytes =>
    pure (Request.setEntry k (Entry.ofBytes bytes))).value = _
  rw [Traced.value_bind, hcopy, Entry.ofBytes_toBytes]
  rfl

theorem payload_entryCommand (version : Byte) (address : Word) (k : Byte) (entry : Entry) :
    (send version address (entryCommand k entry)).message.payload =
      version :: entryCommand k entry := by
  apply payload_send
  rw [length_entryCommand]
  decide

/-- The packet of `sendEntry` arrives as a POST of the entry. -/
theorem parseReceived_entryCommand (m : Node τ) {version : Byte} (hversion : m.version = version)
    (emit : Emission → NodeState τ → Option (NodeState τ)) (locals : Locals) (p : Received)
    (address srcAddr : Word) (options lqi rssi : Byte) (k : Byte) (entry : Entry)
    (t : NodeState τ) :
    m.parseReceived emit locals (p.rxHandler ((send version address
        (entryCommand k entry)).message.arrival srcAddr options lqi rssi)).value t =
      some (m.setEntry locals k entry srcAddr t) := by
  have hreceived : received m.version (m.version :: entryCommand k entry) = .setEntry k entry :=
    received_entryCommand m.version k entry
  have hlength : (version :: entryCommand k entry).length ≤ Mesh.maxPayload := by
    rw [List.length_cons, length_entryCommand]
    decide
  rw [parseReceived_arrival _ _ _ _ _ _ _ _ _ _ (by rw [payload_entryCommand]; exact hlength),
    payload_entryCommand, ← hversion]
  exact congrArg (fun request => m.act emit locals srcAddr request t) hreceived

/-- Entry `k` is written and acknowledged, and nothing else changes. -/
structure Restored (m : Node τ) (srcAddr : Word) (k : Byte) (entry : Entry) (t t' : NodeState τ) :
    Prop where
  acknowledged : t' = m.sendAck srcAddr { t with db := t'.db }
  consistent : t'.db.Consistent
  rules_eq : t'.db.rules = t.db.rules.set k.toNat entry
  header_eq : t'.db.header = t.db.header
  unchanged : t.db.rules[k.toNat]? = some entry →
    t'.db.rules = t.db.rules ∧ t'.db.rom.cell = t.db.rom.cell

theorem setEntry_restored (m : Node τ) (locals : Locals) (k : Byte) (entry : Entry)
    (srcAddr : Word) (t : NodeState τ) (hdb : t.db.Consistent)
    (hlisted : k.toNat < t.db.rules.length) :
    m.Restored srcAddr k entry t (m.setEntry locals k entry srcAddr t) := by
  rcases hdb.setEntry_listed locals.header entry k hlisted with ⟨hstatus, hconsistent, hrules⟩
  rcases hdb.setEntry_frame locals.header entry k hlisted with ⟨hheader, hsame⟩
  have hresult : m.setEntry locals k entry srcAddr t =
      m.sendAck srcAddr { t with db := (t.db.setEntry locals.header entry k).store } := by
    rw [setEntry, if_pos hstatus]
  rw [hresult]
  constructor
  · rfl
  · exact hconsistent
  · exact hrules
  · exact hheader
  · intro hentry
    constructor
    · rcases List.getElem?_eq_some_iff.mp hentry with ⟨_, hvalue⟩
      change (t.db.setEntry locals.header entry k).store.rules = _
      rw [hrules, ← hvalue, List.set_getElem_self]
    · exact hsame hentry

end Node

/-- The answer to GET ENTRY writes the same entry under the same number at every node that has
one of that number, and nothing at a node with the same rules. -/
theorem restored (n : Node σ) (m : Node τ) (hversion : m.version = n.version)
    (emit : Emission → NodeState σ → Option (NodeState σ)) (locals : Locals) (sAddr : Word)
    (packet : List Byte) (k : Byte) (hget : received n.version packet = .get .entry k true)
    (s : NodeState σ) (hs : s.db.Consistent) (hk : k.toNat < s.db.rules.length) :
    ∃ entry, s.db.rules[k.toNat]? = some entry ∧
      let sent := send n.version sAddr (Node.entryCommand k entry)
      n.parsePacket emit locals sAddr packet s =
          some (if sAddr = Mesh.broadcast then s else { s with sent := s.sent ++ [sent] }) ∧
        received m.version sent.message.payload = .setEntry k entry ∧
        ∀ (emit' : Emission → NodeState τ → Option (NodeState τ)) (locals' : Locals)
          (p : Received) (srcAddr : Word) (options lqi rssi : Byte) (t : NodeState τ),
          t.db.Consistent → k.toNat < t.db.rules.length →
          ∃ t', m.parseReceived emit' locals'
              (p.rxHandler (sent.message.arrival srcAddr options lqi rssi)).value t = some t' ∧
            m.Restored srcAddr k entry t t' ∧
            (s.db.SameData t.db → t'.db.rules = t.db.rules ∧ t'.db.rom.cell = t.db.rom.cell) := by
  let entry := s.db.rules[k.toNat]
  have hentry : s.db.rules[k.toNat]? = some entry := List.getElem?_eq_getElem hk
  refine ⟨entry, hentry, ?_, ?_, ?_⟩
  · have hparse : n.parsePacket emit locals sAddr packet s =
        some (n.sendEntry locals k sAddr s) :=
      congrArg (fun request => n.act emit locals sAddr request s) hget
    rw [hparse, n.sendEntry_listed locals k sAddr s hs hentry]
    rfl
  · rw [Node.payload_entryCommand, hversion]
    exact Node.received_entryCommand n.version k entry
  · intro emit' locals' p srcAddr options lqi rssi t ht hlisted
    have hrestored := m.setEntry_restored locals' k entry srcAddr t ht hlisted
    refine ⟨m.setEntry locals' k entry srcAddr t, ?_, hrestored, ?_⟩
    · exact m.parseReceived_entryCommand hversion emit' locals' p sAddr srcAddr options lqi rssi k
        entry t
    · intro hsame
      apply hrestored.unchanged
      rw [hsame.rules_eq]
      exact hentry

/-- The second rule of the example database, copied to itself at another node. -/
theorem restored_second :
    let n := Node.exampleNode Node.blink
    let m := Node.exampleNode Node.turnOff
    ∃ entry, Node.exampleState.db.rules[(1#8).toNat]? = some entry ∧
      let sent := send n.version 1 (Node.entryCommand 1#8 entry)
      n.parsePacket (fun _ s => some s) Node.exampleLocals 1 [protocolVersion, 0x0B#8, 6#8, 1#8]
          Node.exampleState =
          some (if 1#16 = Mesh.broadcast then Node.exampleState
            else { Node.exampleState with sent := Node.exampleState.sent ++ [sent] }) ∧
        received m.version sent.message.payload = .setEntry 1#8 entry ∧
        ∃ t', m.parseReceived (fun _ s => some s) Node.exampleLocals
            (Received.rxHandler ⟨0, 0, 0, 0⟩ (sent.message.arrival 2 0 0 0)).value
            Node.exampleState = some t' ∧
          m.Restored 2 1#8 entry Node.exampleState t' ∧
          t'.db.rules = Node.exampleState.db.rules ∧
          t'.db.rom.cell = Node.exampleState.db.rom.cell := by
  have hs : Node.exampleState.db.Consistent := Node.exampleStore_consistent
  have hk : (1#8).toNat < Node.exampleState.db.rules.length := by
    rw [hs.length_rules]
    decide +kernel
  rcases restored (Node.exampleNode Node.blink) (Node.exampleNode Node.turnOff) rfl
      (fun _ s => some s) Node.exampleLocals 1 [protocolVersion, 0x0B#8, 6#8, 1#8] 1#8 rfl
      Node.exampleState hs hk with ⟨entry, hentry, hsent, hreceived, hrestore⟩
  rcases hrestore (fun _ s => some s) Node.exampleLocals ⟨0, 0, 0, 0⟩ 2 0 0 0 Node.exampleState
      hs hk with ⟨t', hparse, hrestored, hsame⟩
  exact ⟨entry, hentry, hsent, hreceived, t', hparse, hrestored, hsame (.refl _)⟩

end Aquila.Protocol
