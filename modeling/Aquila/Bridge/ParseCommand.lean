import Aquila.Bridge.Command
import Aquila.Mesh.Control
import Aquila.Mesh.Rx
import Aquila.Mesh.TxRuns

/-! # The bridge

`parseCommand` carries out what the PC asks for, and the packets and confirmations of the
mesh network become frames to the PC. The frames are recorded as `sendComBuffer` is given
them, without their checksum. Two histories pair data commands with their answers.
-/

namespace Aquila.Bridge
open Library Mesh

def maxFrameSize : ℕ := 128

def cmdData : Byte := 0#8
def cmdAck : Byte := 1#8
def cmdNack : Byte := 2#8
def cmdGetOpt : Byte := 3#8
def cmdSetOpt : Byte := 4#8
def cmdGetSecurity : Byte := 5#8
def cmdSetSecurity : Byte := 6#8
def cmdStart : Byte := 7#8
def cmdPing : Byte := 8#8
def cmdGetLongAddr : Byte := 9#8
def cmdSetLongAddr : Byte := 10#8

/-- `AQUILAMESH_DEFPAN` -/
def defPan : Word := 0xCA5A#16

/-- `AQUILAMESH_DEFCHAN` -/
def defChan : Byte := 0x1A#8

def wordOf (low high : Byte) : Word := high ++ low

def lowByte (w : Word) : Byte := w.setWidth 8

def highByte (w : Word) : Byte := (w >>> 8).setWidth 8

/-- The commands that `parseCommand` carries out. -/
inductive CommandCode where
  | data
  | getOpt
  | setOpt
  | getSecurity
  | setSecurity
  | ping
  | getLongAddr
  deriving DecidableEq

/-- The cases of the `switch` in `parseCommand`. -/
def CommandCode.ofByte (b : Byte) : Option CommandCode :=
  if b = cmdData then some .data
  else if b = cmdGetOpt then some .getOpt
  else if b = cmdSetOpt then some .setOpt
  else if b = cmdGetSecurity then some .getSecurity
  else if b = cmdSetSecurity then some .setSecurity
  else if b = cmdPing then some .ping
  else if b = cmdGetLongAddr then some .getLongAddr
  else none

namespace Command

def code (c : Command) : Option CommandCode :=
  if c.size.toNat < 1 then none else CommandCode.ofByte (c.data 0)

def frameSize (c : Command) : Byte := c.data 9

def Sends (c : Command) : Prop :=
  c.code = some .data ∧ 10 ≤ c.size.toNat ∧ 10 + c.frameSize.toNat ≤ c.size.toNat ∧
    c.frameSize.toNat ≤ maxFrameSize

instance (c : Command) : Decidable c.Sends := inferInstanceAs (Decidable (_ ∧ _))

def message (c : Command) : Message where
  dstAddr := wordOf (c.data 5) (c.data 6)
  dstEndpoint := c.data 8
  srcEndpoint := c.data 7
  payload := c.data.load 10 c.frameSize.toNat

def SetsOptions (c : Command) : Prop := c.code = some .setOpt ∧ 7 ≤ c.size.toNat

instance (c : Command) : Decidable c.SetsOptions := inferInstanceAs (Decidable (_ ∧ _))

end Command

/-- What LWM has been told, and the radio registers it is written to. -/
structure Network where
  addr : Word
  panId : Word
  key : List Byte
  /-- `SHORT_ADDR_0_REG` and `SHORT_ADDR_1_REG` -/
  shortAddrReg : Word
  /-- `PAN_ID_0_REG` and `PAN_ID_1_REG` -/
  panIdReg : Word
  phyChannel : Byte
  /-- the channel field of `PHY_CC_CCA_REG` -/
  channelReg : BitVec 5

namespace Network

/-- `NWK_SetAddr` -/
def setAddr (n : Network) (addr : Word) : Network := { n with addr := addr, shortAddrReg := addr }

/-- `NWK_SetPanId` -/
def setPanId (n : Network) (panId : Word) : Network := { n with panId := panId, panIdReg := panId }

/-- `PHY_SetChannel` on the only band -/
def setChannel (n : Network) (channel : Byte) : Network :=
  { n with phyChannel := channel, channelReg := channel.setWidth 5 }

end Network

/-- The bridge with the parts of the mesh layer and LWM that it uses. -/
structure AquilaBridge where
  isProm : Bool
  pan : Word
  channel : Byte
  euiAddress : Fin 8 → Byte
  /-- the global of the mesh layer -/
  shortAddr : Word
  nwk : Network
  tx : Tx
  /-- frames to the PC -/
  frames : List (List Byte)
  /-- what the data commands asked to be sent -/
  commands : List Message
  /-- the confirmations passed on, with the frame that told the PC -/
  answered : List (Message × List Byte)

inductive BridgeStep where
  | parseCommand (c : Command) (stack : TxBufPacket)
  | rxHandler (ind : Indication)
  | sendNow (nwkBusy : Bool)
  | confirm (status control : Byte)

def txCb : ConfirmFn := .user 0

namespace AquilaBridge

/-- The state left by `AquilaBridge::AquilaBridge`, with the queue as `Mesh.begin` leaves it. -/
def init (nwk : Network) (tx : Tx) : AquilaBridge where
  isProm := false
  pan := 0
  channel := 0
  euiAddress := 0
  shortAddr := 0
  nwk := nwk
  tx := tx
  frames := []
  commands := []
  answered := []

/-- `AquilaBridge::sendComBuffer` on the bytes it is to frame. -/
def sendComBuffer (s : AquilaBridge) (bytes : List Byte) : AquilaBridge :=
  { s with frames := s.frames ++ [bytes] }

def sendAck (s : AquilaBridge) (rssi : Byte) : AquilaBridge := s.sendComBuffer [cmdAck, rssi]

def sendNack (s : AquilaBridge) (cause : Byte) : AquilaBridge := s.sendComBuffer [cmdNack, cause]

def optionsFrame (s : AquilaBridge) : List Byte :=
  [cmdSetOpt, if s.isProm then 1 else 0, lowByte s.pan, highByte s.pan, s.channel,
    lowByte s.shortAddr, highByte s.shortAddr]

def sendOpt (s : AquilaBridge) : AquilaBridge := s.sendComBuffer s.optionsFrame

def sendSecurity (s : AquilaBridge) : AquilaBridge :=
  s.sendComBuffer [cmdSetSecurity, if s.tx.secEnabled then 1 else 0]

def sendStart (s : AquilaBridge) : AquilaBridge := s.sendComBuffer [cmdStart]

def sendLongAddr (s : AquilaBridge) : AquilaBridge :=
  s.sendComBuffer (cmdSetLongAddr :: List.ofFn s.euiAddress)

/-- `AquilaMesh::setAddr` -/
def meshSetAddr (s : AquilaBridge) (addr : Word) : AquilaBridge :=
  { s with nwk := s.nwk.setAddr addr }

/-- `AquilaBridge::setPan` -/
def setPan (s : AquilaBridge) (pan : Word) : AquilaBridge :=
  { s with pan := pan, nwk := s.nwk.setPanId pan }

/-- `AquilaBridge::setChannel` -/
def setChannel (s : AquilaBridge) (chan : Byte) : AquilaBridge :=
  { s with channel := chan, nwk := s.nwk.setChannel chan }

def meshBegin (s : AquilaBridge) (addr assigned : Word) : AquilaBridge :=
  let s := { s with
    shortAddr := addr, nwk := ((s.nwk.setAddr addr).setPanId defPan).setChannel defChan }
  if addr = 0 then { s with shortAddr := assigned, nwk := s.nwk.setAddr assigned } else s

def begin (s : AquilaBridge) (addr assigned : Word) (channel : Byte) (pan : Word)
    (euiAddr : Fin 8 → Byte) : AquilaBridge :=
  let s := ((s.meshBegin addr assigned).setChannel channel).setPan pan
  { s with euiAddress := euiAddr }.sendStart.sendLongAddr

def txPacket (s : AquilaBridge) (m : Message) (size : Byte) : TxPacket :=
  { s.tx.memory.packets 0 with
    dstAddr := m.dstAddr, dstEndpoint := m.dstEndpoint, srcEndpoint := m.srcEndpoint
    options := requestAck m.dstAddr, data := .caller 0, size := size, confirm := some txCb }

def txMemory (s : AquilaBridge) (c : Command) : CallerMemory where
  packets _ := s.txPacket c.message c.frameSize
  bytes i := if i < c.frameSize.toNat then c.data (10 + i) else s.tx.memory.bytes i

/-- `AquilaBridge::txSend`, which ignores the result of `Mesh.sendPacket`. -/
def txSend (s : AquilaBridge) (c : Command) (stack : TxBufPacket) : AquilaBridge :=
  { s with tx := (s.tx.user (.reuse (s.txMemory c))).user (.sendPacket 0 stack) }

/-- `CMD_DATA` -/
def parseData (s : AquilaBridge) (c : Command) (stack : TxBufPacket) : AquilaBridge :=
  if c.size.toNat < 10 then s
  else if c.size.toNat < 10 + c.frameSize.toNat ∨ maxFrameSize < c.frameSize.toNat then s
  else { s.txSend c stack with commands := s.commands ++ [c.message] }

/-- `CMD_SET_OPT` -/
def parseSetOpt (s : AquilaBridge) (c : Command) : AquilaBridge :=
  if c.size.toNat < 7 then s
  else
    (((s.setChannel (c.data 4)).meshSetAddr (wordOf (c.data 5) (c.data 6))).setPan
      (wordOf (c.data 2) (c.data 3))).sendOpt

/-- `CMD_SET_SECURITY` -/
def parseSetSecurity (s : AquilaBridge) (c : Command) : AquilaBridge :=
  if c.size.toNat < 18 then s
  else
    let s := { s with nwk := { s.nwk with key := c.data.load 2 16 } }
    { s with tx := s.tx.user (.setSecurityEnabled (c.data 1 != 0)) }.sendSecurity

/-- `AquilaBridge::parseCommand` -/
def parseCommand (s : AquilaBridge) (c : Command) (stack : TxBufPacket) : AquilaBridge :=
  match c.code with
  | none => s
  | some .data => s.parseData c stack
  | some .getOpt => s.sendOpt
  | some .setOpt => s.parseSetOpt c
  | some .getSecurity => s.sendSecurity
  | some .setSecurity => s.parseSetSecurity c
  | some .ping => s.sendStart
  | some .getLongAddr => s.sendLongAddr

/-- `rxHandler` of the bridge -/
def rxHandler (s : AquilaBridge) (ind : Indication) : AquilaBridge :=
  s.sendComBuffer
    ((cmdData :: ind.lqi :: ind.rssi :: lowByte ind.srcAddr :: highByte ind.srcAddr ::
      lowByte ind.dstAddr :: highByte ind.dstAddr :: ind.srcEndpoint :: ind.dstEndpoint ::
        ind.size :: ind.payload).take (ind.size + 10).toNat)

/-- The frame of `txCb` for a confirmed packet. -/
def reply (status control : Byte) : List Byte :=
  if status = nwkSuccessStatus then [cmdAck, control] else [cmdNack, status]

/-- `txCb`, called with the packet that carried the message. -/
def txCallback (s : AquilaBridge) (m : Message) (status control : Byte) : AquilaBridge :=
  let s := { s with answered := s.answered ++ [(m, reply status control)] }
  if status = nwkSuccessStatus then s.sendAck control else s.sendNack status

/-- LWM gives up its request, and `txConfirm` calls the packet's own callback. -/
def confirm (s : AquilaBridge) (status control : Byte) : AquilaBridge :=
  let calls := s.tx.nwkDataReqQueue ≠ 0 ∧ s.tx.bufPacket.packet.confirm = some .txConfirm ∧
    s.tx.txUserConfirm = some txCb
  let m := s.tx.message s.tx.bufPacket.packet
  let s := { s with tx := s.tx.nwkDataReqConfirm status control [] }
  if calls then s.txCallback m status control else s

def step (s : AquilaBridge) : BridgeStep → AquilaBridge
  | .parseCommand c stack => s.parseCommand c stack
  | .rxHandler ind => s.rxHandler ind
  | .sendNow nwkBusy => { s with tx := s.tx.sendNow nwkBusy }
  | .confirm status control => s.confirm status control

def exampleNetwork : Network := ⟨0, 0, [], 0, 0, 0, 0⟩

def exampleStack : TxBufPacket := ⟨Tx.exampleMemory.packets 0, 0⟩

/-- The bridge as the example sketch starts it. -/
def exampleBridge : AquilaBridge :=
  (init exampleNetwork (run Tx.step (Tx.init Tx.exampleMemory (fun _ => exampleStack)
    exampleStack) [])).begin 0x00FF 0 0x1A 0xCA5A 0

/-! ### Frames to the PC -/

def isReply (frame : List Byte) : Bool :=
  frame.head? == some cmdAck || frame.head? == some cmdNack

theorem isReply_reply (status control : Byte) : isReply (reply status control) = true := by
  rw [reply]
  split
  case isTrue => rfl
  case isFalse => rfl

theorem txCallback_eq (s : AquilaBridge) (m : Message) (status control : Byte) :
    s.txCallback m status control =
      { s with
        answered := s.answered ++ [(m, reply status control)]
        frames := s.frames ++ [reply status control] } := by
  simp only [txCallback, reply]
  split
  case isTrue => rfl
  case isFalse => rfl

def replies (s : AquilaBridge) : List (List Byte) := s.frames.filter isReply

theorem replies_sendComBuffer (s : AquilaBridge) (bytes : List Byte) (h : isReply bytes = false) :
    (s.sendComBuffer bytes).replies = s.replies := by
  rw [replies, sendComBuffer, List.filter_append, List.filter_cons_of_neg (Bool.not_eq_true _ ▸ h),
    List.filter_nil, List.append_nil, replies]

theorem replies_append (s s' : AquilaBridge) {frames : List (List Byte)}
    (hframes : s'.frames = s.frames ++ frames) (h : ∀ frame ∈ frames, isReply frame = false) :
    s'.replies = s.replies := by
  have hnone : frames.filter isReply = [] :=
    List.filter_eq_nil_iff.mpr (fun frame hframe => Bool.not_eq_true _ ▸ h frame hframe)
  rw [replies, hframes, List.filter_append, hnone, List.append_nil, replies]

theorem replies_txCallback (s : AquilaBridge) (m : Message) (status control : Byte) :
    (s.txCallback m status control).replies = s.replies ++ [reply status control] := by
  rw [txCallback_eq, replies, List.filter_append,
    List.filter_cons_of_pos (isReply_reply status control), List.filter_nil, replies]

/-! ### What a command can do -/

structure Passive (s s' : AquilaBridge) : Prop where
  pan : s'.pan = s.pan
  channel : s'.channel = s.channel
  shortAddr : s'.shortAddr = s.shortAddr
  nwk : ∃ key, s'.nwk = { s.nwk with key := key }
  tx : s'.tx = s.tx ∨ ∃ enabled, s'.tx = s.tx.user (.setSecurityEnabled enabled)
  commands : s'.commands = s.commands
  answered : s'.answered = s.answered
  frames : ∃ frames, s'.frames = s.frames ++ frames ∧
    ∀ frame ∈ frames, isReply frame = false ∧ frame.head? ≠ some cmdSetOpt

theorem Passive.refl (s : AquilaBridge) : Passive s s :=
  ⟨rfl, rfl, rfl, ⟨_, rfl⟩, .inl rfl, rfl, rfl, [], (List.append_nil _).symm,
    List.forall_mem_nil _⟩

theorem Passive.sendComBuffer {s s' : AquilaBridge} (h : Passive s s') {bytes : List Byte}
    (hbytes : isReply bytes = false ∧ bytes.head? ≠ some cmdSetOpt) :
    Passive s (s'.sendComBuffer bytes) := by
  refine ⟨h.pan, h.channel, h.shortAddr, h.nwk, h.tx, h.commands, h.answered, ?_⟩
  rcases h.frames with ⟨frames, hframes, hothers⟩
  refine ⟨frames ++ [bytes], ?_, ?_⟩
  · rw [AquilaBridge.sendComBuffer, hframes, List.append_assoc]
  · rw [List.forall_mem_append, List.forall_mem_singleton]
    exact ⟨hothers, hbytes⟩

theorem passive_sendSecurity {s s' : AquilaBridge} (h : Passive s s') : Passive s s'.sendSecurity :=
  h.sendComBuffer ⟨rfl, by simp [cmdSetSecurity, cmdSetOpt]⟩

theorem passive_parseSetSecurity (s : AquilaBridge) (c : Command) :
    Passive s (s.parseSetSecurity c) := by
  rw [parseSetSecurity]
  split
  case isTrue => exact .refl s
  case isFalse =>
    exact passive_sendSecurity
      ⟨rfl, rfl, rfl, ⟨_, rfl⟩, .inr ⟨_, rfl⟩, rfl, rfl, (Passive.refl s).frames⟩

/-- A frame for a received packet is of its own kind, even if its length wraps around to zero. -/
theorem passive_rxHandler (s : AquilaBridge) (ind : Indication) : Passive s (s.rxHandler ind) := by
  apply (Passive.refl s).sendComBuffer
  cases (ind.size + 10).toNat with
  | zero => simp [isReply]
  | succ n => simp [isReply, cmdData, cmdAck, cmdNack, cmdSetOpt]

theorem parseCommand_sends (s : AquilaBridge) (c : Command) (stack : TxBufPacket) (h : c.Sends) :
    s.parseCommand c stack = { s.txSend c stack with commands := s.commands ++ [c.message] } := by
  rcases h with ⟨hcode, hsize, htotal, hframe⟩
  rw [parseCommand, hcode]
  dsimp only
  rw [parseData, if_neg (by omega), if_neg (by omega)]

theorem parseCommand_getOpt (s : AquilaBridge) (c : Command) (stack : TxBufPacket)
    (h : c.code = some .getOpt) : s.parseCommand c stack = s.sendOpt := by
  rw [parseCommand, h]

def withOptions (s : AquilaBridge) (c : Command) : AquilaBridge :=
  ((s.setChannel (c.data 4)).meshSetAddr (wordOf (c.data 5) (c.data 6))).setPan
    (wordOf (c.data 2) (c.data 3))

theorem parseCommand_setOpt (s : AquilaBridge) (c : Command) (stack : TxBufPacket)
    (h : c.SetsOptions) : s.parseCommand c stack = (s.withOptions c).sendOpt := by
  rcases h with ⟨hcode, hsize⟩
  rw [parseCommand, hcode]
  dsimp only
  rw [parseSetOpt, if_neg (by omega), withOptions]

/-- The commands that are too short or unknown, and those about the node itself. -/
theorem passive_parseCommand (s : AquilaBridge) (c : Command) (stack : TxBufPacket)
    (hsends : ¬ c.Sends) (hget : c.code ≠ some .getOpt) (hset : ¬ c.SetsOptions) :
    Passive s (s.parseCommand c stack) := by
  have hsame := Passive.refl s
  rw [parseCommand]
  split
  case h_1 => exact hsame
  case h_2 hcode =>
    rw [parseData]
    split
    case isTrue => exact hsame
    case isFalse hsize =>
      split
      case isTrue => exact hsame
      case isFalse hframe => exact absurd ⟨hcode, by omega, by omega, by omega⟩ hsends
  case h_3 hcode => exact absurd hcode hget
  case h_4 hcode =>
    rw [parseSetOpt]
    split
    case isTrue => exact hsame
    case isFalse hsize => exact absurd ⟨hcode, by omega⟩ hset
  case h_5 => exact passive_sendSecurity hsame
  case h_6 => exact s.passive_parseSetSecurity c
  case h_7 => exact hsame.sendComBuffer ⟨rfl, by simp [cmdStart, cmdSetOpt]⟩
  case h_8 => exact hsame.sendComBuffer ⟨rfl, by simp [cmdSetLongAddr, cmdSetOpt]⟩

end AquilaBridge

end Aquila.Bridge
