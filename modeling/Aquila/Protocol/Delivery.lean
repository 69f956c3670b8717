import Aquila.Library.Memory
import Aquila.Mesh.Layer
import Aquila.Protocol.EmitBuffers
import Aquila.Protocol.Exchange
import Aquila.Protocol.NestedEvents
import Aquila.Protocol.Reception

/-! # Events and actions at another node

What `emit` and `requestAction` send makes another node of the same version do what the
sender does itself: check the same event, or call the same action.
-/

namespace Aquila.Protocol
open Library ProtocolDB

variable {σ : Type}

/-- The same event; a parameter counts only where there is one. -/
structure Occurrence.SameEvent (o o' : Occurrence) : Prop where
  euiAddress : o.euiAddress = o'.euiAddress
  event : o.event = o'.event
  hasParam : o.hasParam = o'.hasParam
  param : o.hasParam = true → o.param = o'.param
  eName : o.eName = o'.eName

/-- The same action; a parameter counts only where there is one. -/
structure ActionCall.SameAction (call call' : ActionCall) : Prop where
  action : call.action = call'.action
  gotParam : call.gotParam = call'.gotParam
  param : call.gotParam = true → call.param = call'.param

namespace Node

/-- `parsePacket` on what the protocol handler has stored. -/
def parseReceived (n : Node σ) (emit : Emission → NodeState σ → Option (NodeState σ))
    (locals : Locals) (p : Received) (s : NodeState σ) : Option (NodeState σ) :=
  n.parsePacket emit locals p.arrival.1 p.arrival.2 s

def actionCommand (call : ActionCall) : List Byte :=
  (0x02#8 ||| (if call.gotParam then 0x08#8 else 0) ||| 0x10#8) :: call.action ::
    (if call.gotParam then [call.param] else [])

/-- `AquilaProtocol::requestAction` -/
def requestAction (n : Node σ) (emit : Emission → NodeState σ → Option (NodeState σ))
    (address : Word) (call : ActionCall) (s : NodeState σ) : Option (NodeState σ) :=
  if n.shortAddr = address then do
    let (_, s) ← n.doAction emit call s
    some s
  else some (n.reply address (actionCommand call) s)

end Node

/-! ### Packets taken apart -/

/-- A command that is not too long is sent whole. -/
theorem payload_send (version : Byte) (address : Word) (command : List Byte)
    (h : command.length < 255) :
    (send version address command).message.payload = version :: command := by
  have hsize : (BitVec.ofNat 8 command.length).toNat = command.length :=
    Nat.mod_eq_of_lt (by omega)
  have hnext : (BitVec.ofNat 8 command.length + 1).toNat = command.length + 1 := by
    rw [BitVec.toNat_add, hsize]
    change (command.length + 1) % 256 = _
    omega
  simp only [send, hsize, hnext, List.take_length]
  exact List.take_length (l := version :: command)

theorem parseReceived_arrival (m : Node σ) (emit : Emission → NodeState σ → Option (NodeState σ))
    (locals : Locals) (p : Received) (sent : Sent) (srcAddr : Word) (options lqi rssi : Byte)
    (s : NodeState σ) (h : sent.message.payload.length ≤ Mesh.maxPayload) :
    m.parseReceived emit locals
        (p.rxHandler (sent.message.arrival srcAddr options lqi rssi)).value s =
      m.parsePacket emit locals srcAddr sent.message.payload s := by
  have hmax : Mesh.maxPayload = 105 := rfl
  have hsize : (sent.message.arrival srcAddr options lqi rssi).size.toNat =
      sent.message.payload.length := Nat.mod_eq_of_lt (by omega)
  rw [Node.parseReceived, p.arrival_rxHandler _ (by rw [hsize]; exact h) hsize.symm]
  rfl

theorem parseName_packet (start : List Byte) (name : CString) (hname : 0 ∉ name)
    (hlen : name.length < 256) :
    let packet := start ++ BitVec.ofNat 8 name.length :: name
    (parseName (fun i => packet.getD i 0) packet.length start.length).value = name := by
  intro packet
  have hlength : packet.length = start.length + 1 + name.length := by
    simp only [packet, List.length_append, List.length_cons]
    omega
  have heNameLen : (packet.getD start.length 0).toNat = name.length := by
    simp only [packet, List.getD_append_right _ _ _ _ le_rfl, Nat.sub_self, List.getD_cons_zero]
    exact Nat.mod_eq_of_lt hlen
  have hcells : (List.range name.length).map (fun i => packet.getD (start.length + 1 + i) 0) =
      name := by
    have hcells := map_getD_range_append (start ++ [BitVec.ofNat 8 name.length]) name 0
    rw [List.length_append, List.length_singleton, List.append_assoc, List.singleton_append]
      at hcells
    exact hcells
  have hwhole : name.takeWhile (· ≠ 0) = name := takeWhile_ne_of_notMem hname
  have hread : (readByte (fun i => packet.getD i 0) start.length).value =
      packet.getD start.length 0 := rfl
  rw [parseName, if_pos (by omega), Traced.value_bind, hread, if_pos (by omega), heNameLen]
  change ((List.range name.length).map (fun i => packet.getD (start.length + 1 + i) 0)).takeWhile
    (· ≠ 0) = name
  rw [hcells, hwhole]

theorem parseEvent_packet (start : List Byte) (hasParam : Bool)
    (hstart : start.length = 3 + hasParam.toNat) (address : EUIAddress) (name : CString)
    (hname : 0 ∉ name) (hlen : name.length < 256) :
    let packet := start ++ List.ofFn address ++ BitVec.ofNat 8 name.length :: name
    (parseEvent (fun i => packet.getD i 0) packet.length hasParam).value =
      .event address (start.getD 2 0) (if hasParam then start.getD 3 0 else 0) hasParam name := by
  intro packet
  have hindex : (start ++ List.ofFn address).length = 3 + hasParam.toNat + euiAddressLen := by
    rw [List.length_append, hstart, List.length_ofFn]
    rfl
  have hlength : packet.length = 3 + hasParam.toNat + euiAddressLen + 1 + name.length := by
    rw [List.length_append, hindex, List.length_cons]
    omega
  have hpacket : packet = start ++ (List.ofFn address ++ BitVec.ofNat 8 name.length :: name) :=
    List.append_assoc _ _ _
  have haddress : (List.range euiAddressLen).map
      (fun i => packet.getD (3 + hasParam.toNat + i) 0) = List.ofFn address := by
    rw [map_getD_range _ _ (by omega), ← hstart, hpacket, List.drop_left]
    exact List.take_left' (List.length_ofFn)
  have hstartByte (i : ℕ) (hi : i < 3 + hasParam.toNat) : packet.getD i 0 = start.getD i 0 := by
    rw [hpacket]
    exact List.getD_append _ _ _ _ (by omega)
  have heName : (parseName (fun i => packet.getD i 0) packet.length
      (3 + hasParam.toNat + euiAddressLen)).value = name := by
    rw [← hindex]
    exact parseName_packet (start ++ List.ofFn address) name hname hlen
  rw [parseEvent, if_neg (by omega)]
  have hcommand : (readCommand (fun i => packet.getD i 0) hasParam).value =
      (start.getD 2 0, if hasParam then start.getD 3 0 else 0) := by
    rw [← hstartByte 2 (by omega)]
    cases hasParam with
    | true =>
      rw [← hstartByte 3 (by decide)]
      rfl
    | false => rfl
  have hcopy : (copyBytes (fun i => packet.getD i 0) (3 + hasParam.toNat) euiAddressLen
      .rxEUIAddress).value = List.ofFn address := haddress
  simp only [Traced.value_bind, Traced.value_pure, hcommand, hcopy, heName]
  congr 1
  funext i
  rw [List.getD_eq_getElem _ _ (by rw [List.length_ofFn]; exact i.isLt), List.getElem_ofFn]

namespace Node

/-- A name of up to 92 bytes is sent behind the header, parameter or not. -/
theorem emitCommand_named (n : Node σ) (e : Emission) (name : CString)
    (hregistered : n.events e.event.toNat = some name) (hlen : name.length ≤ 92) :
    n.emitCommand e = n.header e ++ BitVec.ofNat 8 name.length :: name ∧
      (n.emitCommand e).length < Mesh.maxPayload := by
  have hle := n.length_header_le e
  have hmax : Mesh.maxPayload = 105 := rfl
  have hfits : namedSize e name ≤ Mesh.maxPayload := by
    rw [namedSize, ← n.length_header e]
    omega
  rcases (n.written_skipped e name hregistered (by omega)).1 hfits with ⟨hskipped, hwritten⟩
  have hcommand : n.emitCommand e = n.header e ++ BitVec.ofNat 8 name.length :: name := by
    rw [emitCommand_eq, hskipped, hwritten, List.range_zero, List.map_nil, List.append_nil]
  refine ⟨hcommand, ?_⟩
  rw [hcommand, List.length_append, List.length_cons]
  omega

variable (m : Node σ) (emit : Emission → NodeState σ → Option (NodeState σ)) (locals : Locals)
  (srcAddr : Word) (s : NodeState σ)

/-- An event packet of the own version is checked as the event it was made of. -/
theorem parsePacket_emitCommand (n : Node σ) (hversion : m.version = n.version) (e : Emission)
    (name : CString) (hregistered : n.events e.event.toNat = some name)
    (hlen : name.length ≤ 92) (hname : 0 ∉ name) :
    ∃ param, (e.hasParam = true → param = e.param) ∧
      m.parsePacket emit locals srcAddr
          (send n.version e.dest (n.emitCommand e)).message.payload s =
        (do
          let (_, s) ← m.checkEvent emit locals
            ⟨n.euiAddress, e.event, param, e.hasParam, some name, srcAddr⟩ s
          some s) := by
  rcases n.emitCommand_named e name hregistered hlen with ⟨hcommand, hlt⟩
  have hlength : (n.emitCommand e).length < 255 := hlt.trans (by decide)
  let control : Byte := 0x06#8 ||| (if e.hasParam then 0x08#8 else 0) ||| 0x10#8
  let start := n.version :: control :: e.event :: (if e.hasParam then [e.param] else [])
  let packet := start ++ List.ofFn n.euiAddress ++ BitVec.ofNat 8 name.length :: name
  have hpacket : (send n.version e.dest (n.emitCommand e)).message.payload = packet := by
    rw [payload_send _ _ _ hlength, hcommand, header]
    rfl
  have hstart : start.length = 3 + e.hasParam.toNat := by
    cases h : e.hasParam <;> simp [start, h]
  have hsize : packetSize packet = packet.length := by
    rw [← hpacket, payload_send _ _ _ hlength]
    exact Nat.mod_eq_of_lt (Nat.succ_lt_succ hlength)
  have htype : commandType control = .event ∧ hasParamFlag control = e.hasParam := by
    cases h : e.hasParam <;> simp only [control, h] <;> decide
  have hreceived : received m.version packet =
      .event n.euiAddress e.event (if e.hasParam then start.getD 3 0 else 0) e.hasParam name := by
    have hcontrol : packet.getD 1 0 = control := rfl
    rw [received_own m.version packet (by rw [hsize]; simp [packet, start]) hversion.symm,
      hcontrol, htype.1, htype.2, hsize]
    exact parseEvent_packet start e.hasParam hstart n.euiAddress name hname (by omega)
  refine ⟨if e.hasParam then start.getD 3 0 else 0, ?_, ?_⟩
  · intro hparam
    simp [start, hparam]
  · rw [hpacket]
    exact congrArg (fun request => m.act emit locals srcAddr request s) hreceived

theorem parsePacket_actionCommand (version : Byte) (hversion : m.version = version)
    (address : Word) (call : ActionCall) :
    ∃ param, (call.gotParam = true → param = call.param) ∧
      m.parsePacket emit locals srcAddr (send version address (actionCommand call)).message.payload
          s =
        (do
          let (result, s) ← m.doAction emit ⟨call.action, param, call.gotParam⟩ s
          some (if result then m.sendAck srcAddr s else m.sendNack srcAddr s)) := by
  let control : Byte := 0x02#8 ||| (if call.gotParam then 0x08#8 else 0) ||| 0x10#8
  let packet := version :: actionCommand call
  have hlength : (actionCommand call).length = 2 + call.gotParam.toNat := by
    cases h : call.gotParam <;> simp [actionCommand, h]
  have hsize : packetSize packet = 3 + call.gotParam.toNat := by
    have hbyte : call.gotParam.toNat ≤ 1 := Bool.toNat_le _
    rw [packetSize, List.length_cons, hlength, BitVec.toNat_ofNat]
    omega
  have htype : commandType control = .action ∧ hasParamFlag control = call.gotParam := by
    cases h : call.gotParam <;> simp only [control, h] <;> decide
  have hreceived : received m.version packet =
      .action call.action (if call.gotParam then call.param else 0) call.gotParam := by
    have hcontrol : packet.getD 1 0 = control := rfl
    rw [received_own m.version packet (by omega) hversion.symm, hcontrol, htype.1, htype.2,
      hsize, parseAction, if_neg (lt_irrefl _)]
    cases h : call.gotParam with
    | true =>
      simp only [packet, actionCommand, h]
      rfl
    | false => rfl
  refine ⟨if call.gotParam then call.param else 0, fun h => if_pos h, ?_⟩
  rw [payload_send _ _ _ (by rw [hlength]; cases call.gotParam <;> decide)]
  exact congrArg (fun request => m.act emit locals srcAddr request s) hreceived

end Node

/-- `emit` sends a packet and checks its own event, and a node of the same version that receives
the packet checks the same event. `requestAction` calls an action, or sends a packet, and a node
that receives that calls the same action. -/
theorem delivered (n m : Node σ) (hversion : m.version = n.version)
    (emit : Emission → NodeState σ → Option (NodeState σ)) (locals : Locals) (p : Received)
    (srcAddr : Word) (options lqi rssi : Byte) (s : NodeState σ) :
    (∀ e name, e.event.toNat < maxEvents → n.events e.event.toNat = some name →
      name.length ≤ 92 → 0 ∉ name →
      ∃ sent : Sent, ∃ own o : Occurrence,
        (∀ locals₀ depth s₀, n.emit locals₀ (depth + 1) e s₀ =
          (do
            let (_, s) ← n.checkEvent (n.emit locals₀ depth) locals₀ own
              { s₀ with sent := s₀.sent ++ [sent] }
            some s)) ∧
        sent.message.dstAddr = e.dest ∧
        own = ⟨n.euiAddress, e.event, e.param, e.hasParam, some name, n.shortAddr⟩ ∧
        o.SameEvent own ∧ o.shortAddress = srcAddr ∧
        m.parseReceived emit locals
            (p.rxHandler (sent.message.arrival srcAddr options lqi rssi)).value s =
          (do
            let (_, s) ← m.checkEvent emit locals o s
            some s)) ∧
      ∀ address call,
        (n.shortAddr = address → ∀ emit₀ s₀, n.requestAction emit₀ address call s₀ =
          (do
            let (_, s) ← n.doAction emit₀ call s₀
            some s)) ∧
        (n.shortAddr ≠ address → ∃ sent : Sent, ∃ call' : ActionCall,
          (∀ emit₀ s₀, n.requestAction emit₀ address call s₀ =
            some { s₀ with sent := s₀.sent ++ [sent] }) ∧
          sent.message.dstAddr = address ∧ call'.SameAction call ∧
          m.parseReceived emit locals
              (p.rxHandler (sent.message.arrival srcAddr options lqi rssi)).value s =
            (do
              let (result, s) ← m.doAction emit call' s
              some (if result then m.sendAck srcAddr s else m.sendNack srcAddr s))) := by
  have hmax : Mesh.maxPayload = 105 := rfl
  constructor
  · intro e name _ hregistered hlen hname
    rcases m.parsePacket_emitCommand emit locals srcAddr s n hversion e name hregistered hlen hname
      with ⟨param, hparam, hparse⟩
    have hown : n.ownOccurrence e =
        ⟨n.euiAddress, e.event, e.param, e.hasParam, some name, n.shortAddr⟩ := by
      rw [Node.ownOccurrence, hregistered]
    refine ⟨send n.version e.dest (n.emitCommand e), n.ownOccurrence e,
      ⟨n.euiAddress, e.event, param, e.hasParam, some name, srcAddr⟩, fun _ _ _ => rfl, rfl, hown,
      ⟨rfl, rfl, rfl, hparam, hregistered.symm⟩, rfl, ?_⟩
    rw [parseReceived_arrival, hparse]
    rw [length_send]
    have hlt := (n.emitCommand_named e name hregistered hlen).2
    exact (Nat.mod_le _ _).trans hlt
  · intro address call
    constructor
    · exact fun haddress _ _ => if_pos haddress
    · intro haddress
      rcases m.parsePacket_actionCommand emit locals srcAddr s n.version hversion address call
        with ⟨param, hparam, hparse⟩
      refine ⟨_, ⟨call.action, param, call.gotParam⟩, fun _ _ => if_neg haddress, rfl,
        ⟨rfl, rfl, hparam⟩, ?_⟩
      rw [parseReceived_arrival, hparse]
      rw [length_send]
      exact (Nat.mod_le _ _).trans
        (by cases h : call.gotParam <;> simp [Node.actionCommand, h, hmax])

def fullEmission : Emission := ⟨Mesh.broadcast, 0, 7, true, fun _ => 0⟩

theorem delivered_92 :
    (∃ sent : Sent, ∃ own o : Occurrence,
      (∀ locals₀ depth s₀, (Node.longNameNode 92).emit locals₀ (depth + 1) fullEmission s₀ =
        (do
          let (_, s) ← (Node.longNameNode 92).checkEvent ((Node.longNameNode 92).emit locals₀ depth)
            locals₀ own { s₀ with sent := s₀.sent ++ [sent] }
          some s)) ∧
      sent.message.dstAddr = Mesh.broadcast ∧
      own = ⟨fun _ => 1, 0, 7, true, some (List.replicate 92 0x61#8), 1⟩ ∧
      o.SameEvent own ∧ o.shortAddress = 1 ∧
      (Node.exampleNode Node.blink).parseReceived (fun _ s => some s) Node.exampleLocals
          (Received.rxHandler ⟨0, 0, 0, 0⟩ (sent.message.arrival 1 0 0 0)).value
          Node.exampleState =
        (do
          let (_, s) ← (Node.exampleNode Node.blink).checkEvent (fun _ s => some s)
            Node.exampleLocals o Node.exampleState
          some s)) ∧
    (∀ emit₀ s₀, (Node.longNameNode 92).requestAction emit₀ 1 ⟨0, 9, true⟩ s₀ =
      (do
        let (_, s) ← (Node.longNameNode 92).doAction emit₀ ⟨0, 9, true⟩ s₀
        some s)) ∧
    ∃ sent : Sent, ∃ call' : ActionCall,
      (∀ emit₀ s₀, (Node.longNameNode 92).requestAction emit₀ 2 ⟨0, 9, true⟩ s₀ =
        some { s₀ with sent := s₀.sent ++ [sent] }) ∧
      sent.message.dstAddr = 2 ∧ call'.SameAction ⟨0, 9, true⟩ ∧
      (Node.exampleNode Node.blink).parseReceived (fun _ s => some s) Node.exampleLocals
          (Received.rxHandler ⟨0, 0, 0, 0⟩ (sent.message.arrival 1 0 0 0)).value
          Node.exampleState =
        (do
          let (result, s) ← (Node.exampleNode Node.blink).doAction (fun _ s => some s) call'
            Node.exampleState
          some (if result then (Node.exampleNode Node.blink).sendAck 1 s
            else (Node.exampleNode Node.blink).sendNack 1 s)) := by
  have h := delivered (Node.longNameNode 92) (Node.exampleNode Node.blink) rfl
    (fun _ s => some s) Node.exampleLocals ⟨0, 0, 0, 0⟩ 1 0 0 0 Node.exampleState
  constructor
  · exact h.1 fullEmission (List.replicate 92 0x61#8) (by decide) rfl
      (by rw [List.length_replicate]) (by rw [List.mem_replicate]; decide)
  · constructor
    · exact (h.2 1 ⟨0, 9, true⟩).1 rfl
    · exact (h.2 2 ⟨0, 9, true⟩).2 (by decide)

end Aquila.Protocol
