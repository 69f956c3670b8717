import Aquila.Mesh.Rx

/-! # Receiving a service packet

`rxHandler` of the services up to the point where it gives up or calls other code. The
name and data sizes come from the packet and are not compared with anything.
-/

namespace Aquila.Services
open Library Mesh

/-- `AQUILASERVICES_ENDPOINT` -/
def servicesEndpoint : Byte := 12#8

/-- `AQUILASERVICES_VERSION` -/
def servicesVersion : Byte := 1#8

/-- `AQUILASERVICES_MAXNAMESIZE` -/
def maxNameSize : ℕ := 16

/-- `AQUILASERVICES_MAXDATASIZE` -/
def maxDataSize : ℕ := maxPayload - 4

/-- A table entry: a C string and what it names, each possibly null. -/
structure Registered where
  name : Option (List Byte)
  target : Option ℕ

/-- The tables of `AquilaServices` and the callback that waits for a response. -/
structure Registry where
  intVars : Fin 10 → Registered
  floatVars : Fin 10 → Registered
  funcServices : Fin 10 → Registered
  services : Fin 20 → Registered
  lastReqCb : Option ℕ

inductive Target where
  | intVar (var : ℕ)
  | floatVar (var : ℕ)
  | function (fn : ℕ)
  | service (fn : ℕ)
  deriving DecidableEq

def Registered.named (r : Registered) (name : List Byte) : Option ℕ :=
  if r.name = some name then r.target else none

/-- The order in which `rxHandler` searches its tables. -/
def Registry.lookup (r : Registry) (name : List Byte) : Option Target :=
  ((List.finRange 10).findSome? fun i =>
      (((r.intVars i).named name).map .intVar).or (((r.floatVars i).named name).map .floatVar)).or
    ((((List.finRange 10).findSome? fun i => (r.funcServices i).named name).map .function).or
      (((List.finRange 20).findSome? fun i => (r.services i).named name).map .service))

/-- `ServicePacket`, as the bytes of the local `pkt` and of the stack after it. -/
abbrev ServicePacket := ℕ → Byte

namespace ServicePacket

def version (pkt : ServicePacket) : Byte := pkt 0
def method (pkt : ServicePacket) : Byte := pkt 1
def nameSize (pkt : ServicePacket) : Byte := pkt 2
def dataSize (pkt : ServicePacket) : Byte := pkt 3
def nameData (pkt : ServicePacket) (i : ℕ) : Byte := pkt (4 + i)

/-- The methods `R200`, `R404`, `R405`, `R408` and `R500`. -/
def isResponse (pkt : ServicePacket) : Bool :=
  pkt.method ∈ [0x04#8, 0x05#8, 0x06#8, 0x07#8, 0x08#8]

/-- The local `name`, up to its first null byte. -/
def name (pkt : ServicePacket) : List Byte :=
  ((List.range pkt.nameSize.toNat).map pkt.nameData).takeWhile (· ≠ 0)

/-- The local `data`, without its terminator. -/
def data (pkt : ServicePacket) : List Byte :=
  (List.range pkt.dataSize.toNat).map (fun i => pkt.nameData (pkt.nameSize.toNat + i))

end ServicePacket

/-- Packet bytes read, bytes written to `pkt`, `name` and `data`, bytes of `name_data`
read, and packet bytes given to user code. -/
inductive ServiceAccess where
  | received (i : ℕ)
  | pkt (i : ℕ)
  | nameData (i : ℕ)
  | name (i : ℕ)
  | data (i : ℕ)
  | passed (i : ℕ)
  deriving DecidableEq

/-- The access stays inside the packet received or the local buffer. -/
def ServiceAccess.Inside (size : ℕ) : ServiceAccess → Prop
  | .received i => i < size
  | .pkt i => i < 4 + maxDataSize
  | .nameData i => i < maxDataSize
  | .name i => i < maxNameSize
  | .data i => i < maxDataSize
  | .passed i => i < size

/-- `4 + nameSize + dataSize <= size`, and both sizes fit their buffers. -/
structure ServicePacket.Consistent (pkt : ServicePacket) (size : ℕ) : Prop where
  total_le : 4 + pkt.nameSize.toNat + pkt.dataSize.toNat ≤ size
  nameSize_lt : pkt.nameSize.toNat < maxNameSize
  dataSize_lt : pkt.dataSize.toNat < maxDataSize

/-- What `rxHandler` ends with. -/
inductive Dispatch where
  /-- `return false`, with nothing called or changed -/
  | reject
  /-- the waiting callback, if any, is called and cleared -/
  | response (callback : Option ℕ) (srcAddr : Word) (method : Byte) (data : List Byte)
  | serve (target : Target) (reqAddr : Word) (method : Byte) (data : List Byte)
  deriving DecidableEq

def passData (pkt : ServicePacket) : Traced ServiceAccess Unit :=
  Traced.touchBlock (fun i => .passed (4 + pkt.nameSize.toNat + i)) pkt.dataSize.toNat

def respond (r : Registry) (srcAddr : Word) (pkt : ServicePacket) :
    Traced ServiceAccess Dispatch :=
  match r.lastReqCb with
  | none => pure (.response none srcAddr pkt.method pkt.data)
  | some callback => do
    passData pkt
    pure (.response (some callback) srcAddr pkt.method pkt.data)

def serve (r : Registry) (reqAddr : Word) (pkt : ServicePacket) : Traced ServiceAccess Dispatch :=
  match r.lookup pkt.name with
  | none => pure .reject
  | some (.intVar var) => pure (.serve (.intVar var) reqAddr pkt.method [])
  | some (.floatVar var) => pure (.serve (.floatVar var) reqAddr pkt.method [])
  | some (.function fn) => do
    passData pkt
    pure (.serve (.function fn) reqAddr pkt.method pkt.data)
  | some (.service fn) => do
    passData pkt
    pure (.serve (.service fn) reqAddr pkt.method pkt.data)

/-- The part of `rxHandler` after its two copies. -/
def dispatch (r : Registry) (srcAddr : Word) (pkt : ServicePacket) :
    Traced ServiceAccess Dispatch :=
  if pkt.isResponse then respond r srcAddr pkt else serve r srcAddr pkt

def copyNameAndData (pkt : ServicePacket) : Traced ServiceAccess Unit := do
  Traced.touchBlock .nameData pkt.nameSize.toNat
  Traced.touchBlock .name pkt.nameSize.toNat
  Traced.touch (.name pkt.nameSize.toNat)
  Traced.touchBlock (fun i => .nameData (pkt.nameSize.toNat + i)) pkt.dataSize.toNat
  Traced.touchBlock .data pkt.dataSize.toNat
  Traced.touch (.data pkt.dataSize.toNat)

/-- `memcpy(&pkt, ind->data, ind->size)` over the given stack contents. -/
def copyPacket (ind : Indication) (stack : ServicePacket) : Traced ServiceAccess ServicePacket := do
  Traced.touchBlock .received ind.size.toNat
  Traced.touchBlock .pkt ind.size.toNat
  pure (fun i => if i < ind.size.toNat then ind.payload.getD i 0 else stack i)

def rxHandler (r : Registry) (ind : Indication) (stack : ServicePacket) :
    Traced ServiceAccess Dispatch :=
  if ind.srcEndpoint ≠ servicesEndpoint ∨ ind.dstEndpoint ≠ servicesEndpoint then pure .reject
  else if ind.size.toNat < 4 then pure .reject
  else do
    let pkt ← copyPacket ind stack
    if pkt.version ≠ servicesVersion then pure .reject
    else do
      copyNameAndData pkt
      dispatch r ind.srcAddr pkt

end Aquila.Services
