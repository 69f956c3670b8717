import Aquila.Mesh.Tx
import Aquila.Protocol.Packet
import Aquila.ProtocolDB.Operations

/-! # A protocol node

The registries of a node, the state its code changes, and user code. An action or
callback is a program that may emit events while it runs; what it does to its own
variables is hidden in a state type.
-/

namespace Aquila.Protocol
open Library ProtocolDB

abbrev CString := List Byte

/-- `PROTOCOL_MAXACTIONS` -/
def maxActions : ℕ := 100

/-- `PROTOCOL_MAXEVENTS` -/
def maxEvents : ℕ := 100

def nwkOptAckRequest : Byte := 0x01#8

structure Sent where
  message : Mesh.Message
  options : Byte
  deriving DecidableEq

/-- `AquilaProtocol::send`; both sizes it computes with are eight bits wide. -/
def send (version : Byte) (address : Word) (command : List Byte) : Sent :=
  let size := BitVec.ofNat 8 command.length
  let packet := (version :: command.take size.toNat).take (size + 1).toNat
  ⟨⟨address, protocolEndpoint, protocolEndpoint, packet⟩,
    if address = Mesh.broadcast then 0 else nwkOptAckRequest⟩

theorem length_send (version : Byte) (address : Word) (command : List Byte) :
    (send version address command).message.payload.length = (command.length + 1) % 256 := by
  have hsize : (BitVec.ofNat 8 command.length).toNat = command.length % 256 := rfl
  have hnext : (BitVec.ofNat 8 command.length + 1).toNat = (command.length % 256 + 1) % 256 := rfl
  rw [send, List.length_take, List.length_cons, List.length_take, hsize, hnext]
  omega

/-- The arguments of `emit`, and what its uninitialised packet buffer holds. -/
structure Emission where
  dest : Word
  event : Byte
  param : Byte
  hasParam : Bool
  stack : ℕ → Byte

/-- User code over its own variables `σ`: it returns, or emits an event and goes on. -/
inductive Program (σ : Type) where
  | done (result : Bool) (vars : σ)
  | emit (emission : Emission) (vars : σ) (next : σ → Program σ)

structure Action (σ : Type) where
  description : CString
  function : (param : Byte) → (gotParam : Bool) → σ → Program σ

structure OnSubscription (σ : Type) where
  eName : CString
  euiAddress : EUIAddress
  function : Option ((param : Byte) → (gotParam : Bool) → σ → Program σ)
  extFunction : Option
    ((param : Byte) → (gotParam : Bool) → (shortAddr : Word) → EUIAddress → σ → Program σ)

/-- The registries and identity of a node. -/
structure Node (σ : Type) where
  version : Byte
  id : CString
  name : CString
  euiAddress : EUIAddress
  shortAddr : Word
  nActions : Byte
  nEvents : Byte
  actions : ℕ → Option (Action σ)
  events : ℕ → Option CString
  onSubs : List (OnSubscription σ)

/-- What changes while a node handles a packet. -/
structure NodeState (σ : Type) where
  db : Store
  vars : σ
  sent : List Sent

structure ActionCall where
  action : Byte
  param : Byte
  gotParam : Bool
  deriving DecidableEq

structure Occurrence where
  euiAddress : EUIAddress
  event : Byte
  param : Byte
  hasParam : Bool
  eName : Option CString
  shortAddress : Word

structure Locals where
  header : DBHeader
  entry : Entry

variable {σ : Type}

namespace Program

def run (emit : Emission → NodeState σ → Option (NodeState σ)) :
    Program σ → NodeState σ → Option (Bool × NodeState σ)
  | .done result vars, s => some (result, { s with vars := vars })
  | .emit emission vars next, s => do
    let s ← emit emission { s with vars := vars }
    (next s.vars).run emit s

def silent : Program σ → Option σ
  | .done _ vars => some vars
  | .emit _ _ _ => none

end Program

namespace Node

/-- The function that `doAction` calls, if there is one. -/
def actionFunction (n : Node σ) (call : ActionCall) : Option (σ → Program σ) :=
  if call.action.toNat < maxActions then
    (n.actions call.action.toNat).map (fun a => a.function call.param call.gotParam)
  else none

/-- `AquilaProtocol::doAction` -/
def doAction (n : Node σ) (emit : Emission → NodeState σ → Option (NodeState σ))
    (call : ActionCall) (s : NodeState σ) : Option (Bool × NodeState σ) :=
  match n.actionFunction call with
  | some function => (function s.vars).run emit s
  | none => some (false, s)

/-- The event packet that `emit` builds. A name that does not fit is left out, but its
length still is added to the size. -/
def emitCommand (n : Node σ) (e : Emission) : List Byte :=
  let control : Byte := 0x06#8 ||| (if e.hasParam then 0x08#8 else 0) ||| 0x10#8
  let packet := control :: e.event :: ((if e.hasParam then [e.param] else []) ++
    List.ofFn n.euiAddress)
  match n.events e.event.toNat with
  | none => packet
  | some description =>
    let descLen := BitVec.ofNat 8 description.length
    if descLen.toNat < Mesh.maxPayload - (packet.length + 1) then
      packet ++ descLen :: description.take descLen.toNat
    else packet ++ (List.range descLen.toNat).map (fun i => e.stack (packet.length + i))

end Node

end Aquila.Protocol
