import Aquila.Protocol.Events

/-! # Acting on a packet

`parsePacket` after decoding: database commands, actions and events, and the packet each
of them is answered with. Lengths of strings are eight bits wide.
-/

namespace Aquila.Protocol
open Library ProtocolDB

variable {σ : Type}

/-- `strlen` into a `uint8_t`, then `memcpy` of that many bytes. -/
def copyString (s : CString) : List Byte := s.take (BitVec.ofNat 8 s.length).toNat

/-- The index and value of the `n`-th pointer that is not null, among the `left` ones
from index `i` on. -/
def nthPresent {α : Type} (table : ℕ → Option α) (n : ℕ) :
    (left i cont : ℕ) → Option (ℕ × α)
  | 0, _, _ => none
  | left + 1, i, cont =>
    match table i with
    | none => nthPresent table n left (i + 1) cont
    | some a =>
      if cont = n then some (i, a) else nthPresent table n left (i + 1) (cont + 1)

namespace Node

def reply (n : Node σ) (address : Word) (packet : List Byte) (s : NodeState σ) : NodeState σ :=
  { s with sent := s.sent ++ [send n.version address packet] }

def sendAck (n : Node σ) (address : Word) : NodeState σ → NodeState σ := n.reply address [0x01#8]

def sendNack (n : Node σ) (address : Word) : NodeState σ → NodeState σ := n.reply address [0x00#8]

def sendNActions (n : Node σ) (address : Word) : NodeState σ → NodeState σ :=
  n.reply address [0x14#8, 0#8, n.nActions]

def sendNEvents (n : Node σ) (address : Word) : NodeState σ → NodeState σ :=
  n.reply address [0x14#8, 1#8, n.nEvents]

def sendId (n : Node σ) (address : Word) : NodeState σ → NodeState σ :=
  n.reply address (0x14#8 :: 2#8 :: copyString n.id)

def sendName (n : Node σ) (address : Word) : NodeState σ → NodeState σ :=
  n.reply address (0x14#8 :: 13#8 :: copyString n.name)

def sendEUI (n : Node σ) (address : Word) : NodeState σ → NodeState σ :=
  n.reply address (0x14#8 :: 14#8 :: List.ofFn n.euiAddress)

def sendSize (n : Node σ) (address : Word) : NodeState σ → NodeState σ :=
  n.reply address [0x14#8, 3#8, BitVec.ofNat 8 maxEntries]

/-- `sendNEntries`, which does not answer a broadcast address. -/
def sendNEntries (n : Node σ) (locals : Locals) (address : Word) (s : NodeState σ) :
    NodeState σ :=
  let header := (s.db.readHeader locals.header).2
  let nEntries := if maxEntries < header.nEntries.toNat then 0 else header.nEntries
  if address ≠ Mesh.broadcast then n.reply address [0x14#8, 4#8, nEntries] s else s

/-- `sendEntry`, which does not send an entry to a broadcast address. -/
def sendEntry (n : Node σ) (locals : Locals) (nEntry : Byte) (address : Word)
    (s : NodeState σ) : NodeState σ :=
  let outcome := s.db.getEntry locals.header locals.entry nEntry
  if outcome.status = .ok then
    if address ≠ Mesh.broadcast then
      n.reply address (0x1C#8 :: 6#8 :: nEntry :: (outcome.entry.getD locals.entry).toBytes) s
    else s
  else n.sendNack address s

def clearEntries (n : Node σ) (address : Word) (s : NodeState σ) : NodeState σ :=
  n.sendAck address { s with db := s.db.format.2 }

def addEntry (n : Node σ) (locals : Locals) (entry : Entry) (address : Word) (s : NodeState σ) :
    NodeState σ :=
  let (status, db) := s.db.appendEntry locals.header entry
  let s := { s with db := db }
  if status = .ok then n.sendAck address s else n.sendNack address s

def delEntry (n : Node σ) (locals : Locals) (nEntry : Byte) (address : Word) (s : NodeState σ) :
    NodeState σ :=
  let outcome := s.db.delEntry locals.header nEntry
  let s := { s with db := outcome.store }
  if outcome.status = .ok then n.sendAck address s else n.sendNack address s

def setEntry (n : Node σ) (locals : Locals) (nEntry : Byte) (entry : Entry) (address : Word)
    (s : NodeState σ) : NodeState σ :=
  let outcome := s.db.setEntry locals.header entry nEntry
  let s := { s with db := outcome.store }
  if outcome.status = .ok then n.sendAck address s else n.sendNack address s

/-- The common body of `sendAction` and `sendEvent`. -/
def sendDescription (n : Node σ) (table : ℕ → Option CString) (size : ℕ) (command k : Byte)
    (address : Word) (s : NodeState σ) : NodeState σ :=
  if k.toNat < size then
    match nthPresent table k.toNat size 0 0 with
    | some (i, description) =>
      n.reply address (0x1C#8 :: command :: BitVec.ofNat 8 i :: copyString description) s
    | none => n.sendNack address s
  else n.sendNack address s

def sendAction (n : Node σ) (k : Byte) (address : Word) : NodeState σ → NodeState σ :=
  n.sendDescription (fun i => (n.actions i).map Action.description) maxActions 11#8 k address

def sendEvent (n : Node σ) (k : Byte) (address : Word) : NodeState σ → NodeState σ :=
  n.sendDescription n.events maxEvents 12#8 k address

/-- The `switch` of `PROTOCOL_GET`. -/
def get (n : Node σ) (locals : Locals) (address : Word) (command : Command) (param : Byte)
    (hasParam : Bool) (s : NodeState σ) : NodeState σ :=
  match command with
  | .nActions => n.sendNActions address s
  | .nEvents => n.sendNEvents address s
  | .id => n.sendId address s
  | .size => n.sendSize address s
  | .nEntries => n.sendNEntries locals address s
  | .entry => if hasParam then n.sendEntry locals param address s else n.sendNack address s
  | .action => if hasParam then n.sendAction param address s else n.sendNack address s
  | .event => if hasParam then n.sendEvent param address s else n.sendNack address s
  | .name => n.sendName address s
  | .eui => n.sendEUI address s
  | _ => s

/-- What `parsePacket` does for a request from the given address. -/
def act (n : Node σ) (emit : Emission → NodeState σ → Option (NodeState σ)) (locals : Locals)
    (sAddr : Word) (request : Request) (s : NodeState σ) : Option (NodeState σ) :=
  match request with
  | .ignore => some s
  | .reject => some (n.sendNack sAddr s)
  | .action command param hasParam => do
    let (result, s) ← n.doAction emit ⟨command, param, hasParam⟩ s
    some (if result then n.sendAck sAddr s else n.sendNack sAddr s)
  | .get command param hasParam => some (n.get locals sAddr command param hasParam s)
  | .clear => some (n.clearEntries sAddr s)
  | .setEntry param entry => some (n.setEntry locals param entry sAddr s)
  | .addEntry entry => some (n.addEntry locals entry sAddr s)
  | .delEntry param => some (n.delEntry locals param sAddr s)
  | .event address event param hasParam eName => do
    let (_, s) ← n.checkEvent emit locals ⟨address, event, param, hasParam, some eName, sAddr⟩ s
    some s

/-- `AquilaProtocol::parsePacket` -/
def parsePacket (n : Node σ) (emit : Emission → NodeState σ → Option (NodeState σ))
    (locals : Locals) (sAddr : Word) (packet : List Byte) (s : NodeState σ) :
    Option (NodeState σ) :=
  n.act emit locals sAddr
    (decode n.version (fun i => packet.getD i 0) (BitVec.ofNat 8 packet.length)).value s

end Node

end Aquila.Protocol
