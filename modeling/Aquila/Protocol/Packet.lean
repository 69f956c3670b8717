import Aquila.Library.Traced
import Aquila.Mesh.Packet
import Aquila.ProtocolDB.Layout

/-! # Decoding a protocol packet

`parsePacket` up to the point where it acts: the request a packet makes, with every
byte read from the packet and written to the local buffers on the way.
-/

namespace Aquila.Protocol
open Library ProtocolDB

def protocolEndpoint : Byte := 13#8

def protocolVersion : Byte := 3#8

/-- `PROTOCOL_EUIADDRESSLEN` -/
def euiAddressLen : ℕ := 8

def eNameSize : ℕ := Mesh.maxPayload - (4 + euiAddressLen)

/-- The command types; the three bits have one undefined value. -/
inductive CommandType where
  | nack
  | ack
  | action
  | get
  | post
  | custom
  | event
  | undefined
  deriving DecidableEq

/-- `pktControl & 0b00000111` -/
def commandType (pktControl : Byte) : CommandType :=
  match (pktControl &&& 0b00000111#8).toNat with
  | 0 => .nack
  | 1 => .ack
  | 2 => .action
  | 3 => .get
  | 4 => .post
  | 5 => .custom
  | 6 => .event
  | _ => .undefined

/-- `pktControl >> PROTOCOL_HAS_PARAM & 0x01` -/
def hasParamFlag (pktControl : Byte) : Bool := (pktControl >>> 3) &&& 0x01#8 != 0#8

/-- `pktControl >> PROTOCOL_HAS_DATA & 0x01` -/
def hasDataFlag (pktControl : Byte) : Bool := (pktControl >>> 4) &&& 0x01#8 != 0#8

/-- The command codes of GET and POST; the other codes are not acted upon. -/
inductive Command where
  | nActions
  | nEvents
  | id
  | size
  | nEntries
  | entry
  | clear
  | addEntry
  | delEntry
  | action
  | event
  | name
  | eui
  | other
  deriving DecidableEq

/-- `PROTOCOL_COM_NACTIONS` to `PROTOCOL_COM_EUI` -/
def Command.ofByte (command : Byte) : Command :=
  match command.toNat with
  | 0 => .nActions
  | 1 => .nEvents
  | 2 => .id
  | 3 => .size
  | 4 => .nEntries
  | 6 => .entry
  | 7 => .clear
  | 8 => .addEntry
  | 10 => .delEntry
  | 11 => .action
  | 12 => .event
  | 13 => .name
  | 14 => .eui
  | _ => .other

/-- What a packet asks of the node that parses it. -/
inductive Request where
  /-- nothing, and without an answer -/
  | ignore
  /-- nothing, answered with NACK -/
  | reject
  | action (command param : Byte) (hasParam : Bool)
  | get (command : Command) (param : Byte) (hasParam : Bool)
  | clear
  | setEntry (param : Byte) (entry : Entry)
  | addEntry (entry : Entry)
  | delEntry (param : Byte)
  | event (address : EUIAddress) (event param : Byte) (hasParam : Bool) (eName : List Byte)

/-- A byte read from the packet, or written to `rxEUIAddress`, `entry` or `eName`. -/
inductive ParseAccess where
  | packet (i : ℕ)
  | rxEUIAddress (i : ℕ)
  | entry (i : ℕ)
  | eName (i : ℕ)
  deriving DecidableEq

def ParseAccess.Inside (dataLen : ℕ) : ParseAccess → Prop
  | .packet i => i < dataLen
  | .rxEUIAddress i => i < euiAddressLen
  | .entry i => i < entryLen
  | .eName i => i < eNameSize

/-- `data[i]` -/
def readByte (data : ℕ → Byte) (i : ℕ) : Traced ParseAccess Byte := do
  Traced.touch (.packet i)
  pure (data i)

def copyBytes (data : ℕ → Byte) (index n : ℕ) (dest : ℕ → ParseAccess) :
    Traced ParseAccess (List Byte) := do
  Traced.touchBlock (fun i => .packet (index + i)) n
  Traced.touchBlock dest n
  pure ((List.range n).map (fun i => data (index + i)))

def readCommand (data : ℕ → Byte) (hasParam : Bool) : Traced ParseAccess (Byte × Byte) := do
  let command ← readByte data 2
  let param ← if hasParam then readByte data 3 else pure 0
  pure (command, param)

def parseAction (data : ℕ → Byte) (dataLen : ℕ) (hasParam : Bool) : Traced ParseAccess Request :=
  if dataLen < 3 + hasParam.toNat then pure .reject
  else do
    let (command, param) ← readCommand data hasParam
    pure (.action command param hasParam)

def parseGet (data : ℕ → Byte) (dataLen : ℕ) (hasParam : Bool) : Traced ParseAccess Request :=
  if dataLen < 3 + hasParam.toNat then pure .reject
  else do
    let (command, param) ← readCommand data hasParam
    pure (.get (.ofByte command) param hasParam)

def parsePost (data : ℕ → Byte) (dataLen : ℕ) (hasParam hasData : Bool) :
    Traced ParseAccess Request :=
  if dataLen < 3 + hasParam.toNat then pure .reject
  else do
    let (command, param) ← readCommand data hasParam
    match Command.ofByte command with
    | .clear => pure .clear
    | .entry =>
      if hasParam ∧ hasData ∧ 4 + entryLen ≤ dataLen then do
        let bytes ← copyBytes data 4 entryLen .entry
        pure (.setEntry param (Entry.ofBytes bytes))
      else pure .reject
    | .addEntry =>
      if hasData ∧ ¬ hasParam ∧ 3 + entryLen ≤ dataLen then do
        let bytes ← copyBytes data 3 entryLen .entry
        pure (.addEntry (Entry.ofBytes bytes))
      else pure .reject
    | .delEntry => if hasParam then pure (.delEntry param) else pure .reject
    | _ => pure .ignore

/-- The event name, as a C string: empty unless the whole name was received. -/
def parseName (data : ℕ → Byte) (dataLen index : ℕ) : Traced ParseAccess (List Byte) := do
  if index < dataLen then do
    let eNameLen ← readByte data index
    if eNameLen.toNat ≤ dataLen - (index + 1) then do
      let name ← copyBytes data (index + 1) eNameLen.toNat .eName
      Traced.touch (.eName eNameLen.toNat)
      pure (name.takeWhile (· ≠ 0))
    else pure []
  else pure []

def parseEvent (data : ℕ → Byte) (dataLen : ℕ) (hasParam : Bool) : Traced ParseAccess Request :=
  if dataLen < 3 + hasParam.toNat + euiAddressLen then pure .ignore
  else do
    let (command, param) ← readCommand data hasParam
    let index := 3 + hasParam.toNat
    let address ← copyBytes data index euiAddressLen .rxEUIAddress
    let eName ← parseName data dataLen (index + euiAddressLen)
    pure (.event (fun i => address.getD i 0) command param hasParam eName)

/-- `parsePacket` of a node with the given version, up to its effect. -/
def decode (version : Byte) (data : ℕ → Byte) (size : Byte) : Traced ParseAccess Request :=
  let dataLen := size.toNat
  if dataLen < 2 then pure .reject
  else do
    let pktVersion ← readByte data 0
    if pktVersion ≠ version then pure .reject
    else do
      let pktControl ← readByte data 1
      let hasParam := hasParamFlag pktControl
      -- the string security of `eName`
      Traced.touch (.eName 0)
      match commandType pktControl with
      | .nack => pure .ignore
      | .ack => pure .ignore
      | .action => parseAction data dataLen hasParam
      | .get => parseGet data dataLen hasParam
      | .post => parsePost data dataLen hasParam (hasDataFlag pktControl)
      | .custom => pure .reject
      | .event => parseEvent data dataLen hasParam
      | .undefined => pure .reject

end Aquila.Protocol
