import Aquila.Bridge.Options
import Aquila.Mesh.Probing

/-! # Frames of the network layer

The header of a frame as the source declares it, its sixteen bytes on the air, and the
frames of the buffer pool. Nothing uses multicast headers in this configuration, so the
payload always starts right after the header.
-/

namespace Aquila.Lwm
open Bridge Mesh

def nwkBroadcastPanId : Word := 0xFFFF#16

def nwkBroadcastAddr : Word := 0xFFFF#16

abbrev Nibble := BitVec 4

/-- `NwkFrameHeader_t`, the bit fields of `nwkFcf` among its fields. -/
structure NwkFrameHeader where
  macFcf : Word
  macSeq : Byte
  macDstPanId : Word
  macDstAddr : Word
  macSrcAddr : Word
  ackRequest : Bool
  security : Bool
  linkLocal : Bool
  multicast : Bool
  reserved : Nibble
  nwkSeq : Byte
  nwkSrcAddr : Word
  nwkDstAddr : Word
  nwkSrcEndpoint : Nibble
  nwkDstEndpoint : Nibble
  deriving DecidableEq

/-- `sizeof(NwkFrameHeader_t)` -/
def headerSize : ℕ := 16

/-- `NWK_FRAME_MAX_PAYLOAD_SIZE`, the size of a buffer with its header. -/
def nwkFrameMaxPayloadSize : ℕ := 127

namespace NwkFrameHeader

def zero : NwkFrameHeader where
  macFcf := 0
  macSeq := 0
  macDstPanId := 0
  macDstAddr := 0
  macSrcAddr := 0
  ackRequest := false
  security := false
  linkLocal := false
  multicast := false
  reserved := 0
  nwkSeq := 0
  nwkSrcAddr := 0
  nwkDstAddr := 0
  nwkSrcEndpoint := 0
  nwkDstEndpoint := 0

/-- The byte `nwkFcf`; the first field of a bit field is its lowest bit. -/
def nwkFcf (h : NwkFrameHeader) : Byte :=
  h.reserved ++
    (BitVec.ofBool h.multicast ++
      (BitVec.ofBool h.linkLocal ++ (BitVec.ofBool h.security ++ BitVec.ofBool h.ackRequest)))

def endpoints (h : NwkFrameHeader) : Byte := h.nwkDstEndpoint ++ h.nwkSrcEndpoint

/-- The header in memory and on the air: packed, low bytes first. -/
def toBytes (h : NwkFrameHeader) : List Byte :=
  [lowByte h.macFcf, highByte h.macFcf, h.macSeq, lowByte h.macDstPanId, highByte h.macDstPanId,
    lowByte h.macDstAddr, highByte h.macDstAddr, lowByte h.macSrcAddr, highByte h.macSrcAddr,
    h.nwkFcf, h.nwkSeq, lowByte h.nwkSrcAddr, highByte h.nwkSrcAddr, lowByte h.nwkDstAddr,
    highByte h.nwkDstAddr, h.endpoints]

def ofBytes (bytes : List Byte) : NwkFrameHeader :=
  let byte i := bytes.getD i 0
  let word i := wordOf (byte i) (byte (i + 1))
  { macFcf := word 0
    macSeq := byte 2
    macDstPanId := word 3
    macDstAddr := word 5
    macSrcAddr := word 7
    ackRequest := (byte 9).getLsbD 0
    security := (byte 9).getLsbD 1
    linkLocal := (byte 9).getLsbD 2
    multicast := (byte 9).getLsbD 3
    reserved := (byte 9).extractLsb' 4 4
    nwkSeq := byte 10
    nwkSrcAddr := word 11
    nwkDstAddr := word 13
    nwkSrcEndpoint := (byte 15).extractLsb' 0 4
    nwkDstEndpoint := (byte 15).extractLsb' 4 4 }

@[simp] theorem length_toBytes (h : NwkFrameHeader) : h.toBytes.length = headerSize := rfl

theorem fcf_bits (h : NwkFrameHeader) :
    h.nwkFcf.getLsbD 0 = h.ackRequest ∧ h.nwkFcf.getLsbD 1 = h.security ∧
      h.nwkFcf.getLsbD 2 = h.linkLocal ∧ h.nwkFcf.getLsbD 3 = h.multicast ∧
      h.nwkFcf.extractLsb' 4 4 = h.reserved := by
  simp only [nwkFcf, BitVec.getLsbD_append, BitVec.getLsbD_ofBool]
  simp
  exact BitVec.extractLsb'_append_eq_left

theorem endpoint_nibbles (h : NwkFrameHeader) :
    h.endpoints.extractLsb' 0 4 = h.nwkSrcEndpoint ∧
      h.endpoints.extractLsb' 4 4 = h.nwkDstEndpoint := by
  constructor
  · exact BitVec.extractLsb'_append_eq_right
  · exact BitVec.extractLsb'_append_eq_left

theorem ofBytes_toBytes (h : NwkFrameHeader) (payload : List Byte) :
    ofBytes (h.toBytes ++ payload) = h := by
  have hfcf := fcf_bits h
  have hends := endpoint_nibbles h
  simp only [ofBytes, toBytes, List.cons_append, List.getD_cons_zero, List.getD_cons_succ,
    wordOf_bytes, hfcf, hends]

end NwkFrameHeader

/-- The states of a frame: the free one, then those of `nwkTx.c`, `nwkRx.c` and
`nwkSecurity.c`. -/
inductive FrameState where
  | free
  | txEncrypt
  | txWaitDelay
  | txDelay
  | txSend
  | txWaitConf
  | txSent
  | txWaitAck
  | txConfirm
  | rxReceived
  | rxDecrypt
  | rxIndicate
  | rxRoute
  | rxFinish
  | securityEncryptPending
  | securityDecryptPending
  | securityProcess
  | securityWait
  | securityConfirm
  deriving DecidableEq

/-- `NWK_TX_CONTROL_BROADCAST_PAN_ID` -/
def txControlBroadcastPanId : Byte := 0x01#8

/-- `NWK_TX_CONTROL_ROUTING` -/
def txControlRouting : Byte := 0x02#8

/-- `NWK_TX_CONTROL_DIRECT_LINK` -/
def txControlDirectLink : Byte := 0x04#8

/-- `NwkFrame_t`. The fields of `rx` and `tx` share memory; no function reads one after another
has written the other. `confirm` tells whether `tx.confirm` is `nwkDataReqTxConf`, the only
function it ever points to. -/
structure NwkFrame where
  state : FrameState
  header : NwkFrameHeader
  payload : List Byte
  lqi : Byte
  rssi : Byte
  status : NwkStatus
  timeout : Word
  control : Byte
  confirm : Bool
  deriving DecidableEq

def NwkFrame.cleared : NwkFrame where
  state := .free
  header := .zero
  payload := []
  lqi := 0
  rssi := 0
  status := .success
  timeout := 0
  control := 0
  confirm := false

/-- The bytes of a frame that `PHY_DataReq` is given. -/
def NwkFrame.data (f : NwkFrame) : List Byte := f.header.toBytes ++ f.payload

def nwkCommandAck : Byte := 0x00#8

def nwkCommandRouteError : Byte := 0x01#8

def ackCommand (seq control : Byte) : List Byte := [nwkCommandAck, seq, control]

def routeErrorCommand (srcAddr dstAddr : Word) (multicast : Bool) : List Byte :=
  [nwkCommandRouteError, lowByte srcAddr, highByte srcAddr, lowByte dstAddr, highByte dstAddr,
    if multicast then 1 else 0]

/-- `PHY_DataInd_t` -/
structure PhyDataInd where
  data : List Byte
  lqi : Byte
  rssi : Byte

/-- The test of `PHY_DataInd` on the bytes it is given. -/
def PhyDataInd.wellFormed (ind : PhyDataInd) : Bool :=
  ind.data.getD 1 0 == 0x88#8 && (ind.data.getD 0 0 == 0x61#8 || ind.data.getD 0 0 == 0x41#8) &&
    decide (headerSize ≤ ind.data.length)

/-- The frame that `PHY_DataInd` fills. -/
def PhyDataInd.frame (ind : PhyDataInd) : NwkFrame :=
  { NwkFrame.cleared with
    state := .rxReceived
    header := .ofBytes ind.data
    payload := ind.data.drop headerSize
    lqi := ind.lqi
    rssi := ind.rssi }

/-- `NWK_DataInd_t` -/
structure NwkDataInd where
  srcAddr : Word
  dstAddr : Word
  srcEndpoint : Nibble
  dstEndpoint : Nibble
  options : Byte
  data : List Byte
  lqi : Byte
  rssi : Byte
  deriving DecidableEq

end Aquila.Lwm
