import Aquila.Library.Ring
import Aquila.Library.Run
import Aquila.Mesh.Packet

/-! # The transmission queue

`sendPacket` copies packets into the ring, `sendNow` hands the oldest one to LWM from
a single static packet, and LWM calls `txConfirm` when it is done with it. The
history fields only record what the functions do.
-/

namespace Aquila.Mesh
open Library

def meshTxBufferSize : ℕ := 8

def nwkOptEnableSecurity : Byte := 0x02#8

/-- Where the `data` of a request points: memory of the caller, or the static packet. -/
inductive TxData where
  | caller (address : ℕ)
  | inFlight
  deriving DecidableEq

/-- The functions a `confirm` field can point to. -/
inductive ConfirmFn where
  | user (callback : ℕ)
  | txConfirm
  deriving DecidableEq

/-- `NWK_DataReq_t` without the fields that only LWM uses. -/
structure TxPacket where
  dstAddr : Word
  dstEndpoint : Byte
  srcEndpoint : Byte
  options : Byte
  data : TxData
  size : Byte
  confirm : Option ConfirmFn
  status : Byte
  control : Byte

structure TxBufPacket where
  packet : TxPacket
  data : Payload

structure Message where
  dstAddr : Word
  dstEndpoint : Byte
  srcEndpoint : Byte
  payload : List Byte
  deriving DecidableEq

structure Outgoing where
  message : Message
  options : Byte
  deriving DecidableEq

abbrev Owed := Message × Option ConfirmFn

def TxPacket.message (p : TxPacket) (payload : List Byte) : Message :=
  ⟨p.dstAddr, p.dstEndpoint, p.srcEndpoint, payload⟩

def TxBufPacket.owed (b : TxBufPacket) : Owed :=
  (b.packet.message (b.data.read b.packet.size), b.packet.confirm)

def TxBufPacket.init (bufPacket : TxBufPacket) (packet : TxPacket) (source : ℕ → Byte) :
    Traced ℕ TxBufPacket := do
  let data ← bufPacket.data.copy source packet.size
  pure ⟨packet, data⟩

/-- Memory outside the mesh layer: packets by the address given to `sendPacket`, and bytes. -/
structure CallerMemory where
  packets : ℕ → TxPacket
  bytes : ℕ → Byte

structure TxHistory where
  /-- packets for which `sendPacket` returned true -/
  accepted : List Owed
  /-- messages given to `NWK_DataReq` -/
  handed : List Message
  /-- for each confirmation, the user callback it ran and the message passed to it -/
  confirmed : List (Option (ConfirmFn × Message))

structure Tx where
  memory : CallerMemory
  secEnabled : Bool
  txBuffer : Ring TxBufPacket meshTxBufferSize
  txBusy : Bool
  txUserConfirm : Option ConfirmFn
  /-- the static packet of `sendNow` -/
  bufPacket : TxBufPacket
  /-- how many requests LWM holds; each of them is the static packet -/
  nwkDataReqQueue : ℕ
  history : TxHistory

/-- What code outside the mesh layer does between two of its steps. -/
inductive UserAction where
  | sendPacket (packet : ℕ) (stack : TxBufPacket)
  | reuse (memory : CallerMemory)
  | setSecurityEnabled (enabled : Bool)

inductive TxStep where
  | user (action : UserAction)
  | sendNow (nwkBusy : Bool)
  | confirm (status control : Byte) (callback : List UserAction)

namespace Tx

def init (memory : CallerMemory) (storage : Fin meshTxBufferSize → TxBufPacket)
    (bufPacket : TxBufPacket) : Tx where
  memory := memory
  secEnabled := false
  txBuffer := Ring.init (by decide) storage
  txBusy := false
  txUserConfirm := none
  bufPacket := bufPacket
  nwkDataReqQueue := 0
  history := ⟨[], [], []⟩

/-- The byte `i` past a data pointer. -/
def deref (s : Tx) : TxData → ℕ → Byte
  | .caller address, i => s.memory.bytes (address + i)
  | .inFlight, i => s.bufPacket.data.cell i

def message (s : Tx) (p : TxPacket) : Message :=
  p.message ((List.range p.size.toNat).map (s.deref p.data))

/-- `AquilaMesh::sendPacket` -/
def sendPacket (s : Tx) (packet : TxPacket) (stack : TxBufPacket) : Bool × Tx :=
  if s.txBuffer.isFull then (false, s)
  else
    let bufPacket := (stack.init packet (s.deref packet.data)).value
    let (inserted, txBuffer) := s.txBuffer.insert bufPacket
    if inserted then (true, { s with txBuffer := txBuffer }) else (false, s)

def user (s : Tx) : UserAction → Tx
  | .sendPacket p stack =>
    let packet := s.memory.packets p
    let owed := (s.message packet, packet.confirm)
    let (sent, s) := s.sendPacket packet stack
    if sent then { s with history.accepted := s.history.accepted ++ [owed] } else s
  | .reuse memory => { s with memory := memory }
  | .setSecurityEnabled enabled => { s with secEnabled := enabled }

/-- `NWK_DataReq` on the static packet. -/
def nwkDataReq (s : Tx) : Tx :=
  { s with
    bufPacket.packet.status := 0
    nwkDataReqQueue := s.nwkDataReqQueue + 1
    history.handed := s.history.handed ++ [s.message s.bufPacket.packet] }

def prepare (secEnabled : Bool) (b : TxBufPacket) : TxBufPacket :=
  { b with
    packet.data := .inFlight
    packet.options :=
      if secEnabled then b.packet.options ||| nwkOptEnableSecurity
      else b.packet.options &&& ~~~nwkOptEnableSecurity
    packet.confirm := some .txConfirm }

/-- `AquilaMesh::sendNow`, for the given result of `NWK_Busy`. -/
def sendNow (s : Tx) (nwkBusy : Bool) : Tx :=
  if s.txBuffer.isEmpty || s.txBusy || nwkBusy then s
  else
    match s.txBuffer.remove with
    | none => s
    | some (b, txBuffer) =>
      nwkDataReq
        { s with
          txBuffer := txBuffer
          bufPacket := prepare s.secEnabled b
          txUserConfirm := b.packet.confirm
          txBusy := true }

/-- Call a function given the static packet; a null pointer runs nothing. -/
def callback (s : Tx) (f : Option ConfirmFn) (actions : List UserAction) : Tx :=
  let called := f.map (fun f => (f, s.message s.bufPacket.packet))
  let s := { s with history.confirmed := s.history.confirmed ++ [called] }
  if f.isSome then run user s actions else s

/-- `txConfirm`, for the actions of the user callback. -/
def txConfirm (s : Tx) (actions : List UserAction) : Tx :=
  let s := { s with txBusy := false }
  let s := s.callback s.txUserConfirm actions
  { s with txUserConfirm := none }

def release (s : Tx) (status control : Byte) : Tx :=
  { s with
    nwkDataReqQueue := s.nwkDataReqQueue - 1
    bufPacket.packet.status := status
    bufPacket.packet.control := control }

/-- `nwkDataReqConfirm`: LWM gives up a request it holds and calls its `confirm`. -/
def nwkDataReqConfirm (s : Tx) (status control : Byte) (actions : List UserAction) : Tx :=
  if s.nwkDataReqQueue = 0 then s
  else
    let s := s.release status control
    match s.bufPacket.packet.confirm with
    | some .txConfirm => s.txConfirm actions
    | f => s.callback f actions

def step (s : Tx) : TxStep → Tx
  | .user action => s.user action
  | .sendNow nwkBusy => s.sendNow nwkBusy
  | .confirm status control actions => s.nwkDataReqConfirm status control actions

end Tx

end Aquila.Mesh
