import Aquila.Lwm.Duplicates
import Aquila.Lwm.Route
import Aquila.Lwm.Security

/-! # The network stack

The modules of LWM share five frame buffers. Each function here is one of theirs on the state
of all of them; task handlers and timers run one after another, in any order. The history is
no part of the source: it records what the stack does at its two ends, the latest first.
-/

namespace Aquila.Lwm
open Library Bridge Mesh

/-- An index into the `NWK_BUFFERS_AMOUNT` buffers. -/
abbrev FrameSlot := Fin 5

def nwkOptBroadcastPanId : Byte := 0x04#8

def nwkOptLinkLocal : Byte := 0x08#8

/-- `PHY_Status_t` -/
inductive PhyStatus where
  | success
  | channelAccessFailure
  | noAck
  | error

/-- What the application fills in of a `NWK_DataReq_t`. `control` is a result, and keeps what the
application left there until a frame is confirmed. -/
structure DataParams where
  dstAddr : Word
  dstEndpoint : Byte
  srcEndpoint : Byte
  options : Byte
  data : List Byte
  control : Byte
  deriving DecidableEq

inductive DataReqState where
  | initial
  | waitConf
  | confirm
  deriving DecidableEq

/-- A `NWK_DataReq_t` in the queue. Its number stands for its address. -/
structure DataReq where
  number : ℕ
  params : DataParams
  frame : Option FrameSlot
  state : DataReqState
  status : NwkStatus
  control : Byte

/-- What an endpoint can be open for: the commands of LWM, or a handler of the application. -/
inductive Endpoint where
  | service
  | application

/-- What a handler of the application does with an indication: its result, the value it leaves
with `NWK_SetAckControl`, and its calls of `NWK_DataReq`. -/
structure Answer where
  taken : Bool
  control : Byte
  requests : List DataParams

/-- What has happened at the ends of the stack. Frames are recorded as they are before
`nwkTxFrame`. -/
inductive Record where
  | launched (number : ℕ) (params : DataParams) (frame : NwkFrame)
  | acked (frame ack : NwkFrame)
  | reported (frame : NwkFrame)
  | sent (data : List Byte)
  | indicated (ind : NwkDataInd) (taken : Bool)
  | confirmed (number : ℕ) (status : NwkStatus) (control : Byte)
  deriving DecidableEq

/-- What the stack is given by the hardware and the C library: `PHY_EncryptReq` and the numbers
that `rand` returns. -/
structure Platform where
  aes : Cipher
  rand : ℕ → Word

/-- `nwkIb` and the static variables of the modules. `overrun` is set once bytes after the end
of a buffer are written, and stays set; the other fields mean nothing from then on. -/
structure Nwk where
  addr : Word
  panId : Word
  nwkSeqNum : Byte
  macSeqNum : Byte
  endpoint : Nibble → Option Endpoint
  key : SecurityBlock
  lock : Word
  frames : FrameSlot → NwkFrame
  dataReqQueue : List DataReq
  txPhyActiveFrame : Option FrameSlot
  txAckWaitTimer : Bool
  txDelayTimer : Bool
  rxAckControl : Byte
  duplicates : Duplicates
  routes : RouteTable
  security : Security
  securityActiveFrames : Byte
  securityActiveFrame : Option FrameSlot
  overrun : Bool
  draws : ℕ
  requests : ℕ
  history : List Record

namespace Nwk

/-- `NWK_Init` on a memory that the start of the program has cleared. -/
def init : Nwk where
  addr := 0
  panId := 0
  nwkSeqNum := 0
  macSeqNum := 0
  endpoint := Function.update (fun _ => none) 0 (some .service)
  key _ := 0
  lock := 0
  frames _ := .cleared
  dataReqQueue := []
  txPhyActiveFrame := none
  txAckWaitTimer := false
  txDelayTimer := false
  rxAckControl := 0
  duplicates := .init
  routes := .init
  security := { size := 0, offset := 0, encrypt := false, vector := fun _ => 0, mic := [] }
  securityActiveFrames := 0
  securityActiveFrame := none
  overrun := false
  draws := 0
  requests := 0
  history := []

/-- `NWK_Busy` -/
def busy (n : Nwk) : Bool := 0 < n.lock

def setFrame (n : Nwk) (i : FrameSlot) (f : NwkFrame) : Nwk :=
  { n with frames := Function.update n.frames i f }

def setState (n : Nwk) (i : FrameSlot) (state : FrameState) : Nwk :=
  n.setFrame i { n.frames i with state := state }

def fill (n : Nwk) (size : ℕ) : Nwk :=
  { n with overrun := n.overrun || decide (nwkFrameMaxPayloadSize < headerSize + size) }

/-! ### `nwkFrame.c` -/

/-- `nwkFrameAlloc` -/
def frameAlloc (n : Nwk) : Option (FrameSlot × Nwk) :=
  ((List.finRange 5).find? fun i => (n.frames i).state = .free).map fun i =>
    (i, { n.setFrame i .cleared with lock := n.lock + 1 })

/-- `nwkFrameFree` -/
def frameFree (i : FrameSlot) (n : Nwk) : Nwk :=
  { n.setState i .free with lock := n.lock - 1 }

/-- `nwkFrameCommandInit` -/
def frameCommandInit (i : FrameSlot) (n : Nwk) : Nwk :=
  let f := n.frames i
  { n.setFrame i { f with
      status := .success
      header := { f.header with nwkSeq := n.nwkSeqNum + 1, nwkSrcAddr := n.addr } }
    with nwkSeqNum := n.nwkSeqNum + 1 }

/-! ### `nwkTx.c` -/

/-- A delay for a broadcast, `NWK_TX_DELAY_JITTER_MASK`. -/
def jitter (r : Word) : Word := (r &&& 0x07#16) + 1

/-- `nwkTxFrame` -/
def txFrame (p : Platform) (i : FrameSlot) (n : Nwk) : Nwk :=
  let f := n.frames i
  let state :=
    if f.control &&& txControlRouting ≠ 0 then .txDelay
    else if f.header.security then .txEncrypt
    else .txDelay
  let broadcastPan := f.control &&& txControlBroadcastPanId ≠ 0
  let macDstAddr :=
    if f.control &&& txControlDirectLink = 0 ∧ ¬ broadcastPan then n.routes.prepareTx f.header
    else f.header.nwkDstAddr
  let broadcast := macDstAddr = nwkBroadcastAddr
  { n.setFrame i { f with
      state := state
      status := .success
      timeout := if broadcast then jitter (p.rand n.draws) else 0
      header := { f.header with
        macDstPanId := if broadcastPan then nwkBroadcastPanId else n.panId
        macDstAddr := macDstAddr
        macSrcAddr := n.addr
        macSeq := n.macSeqNum + 1
        macFcf := if broadcast then 0x8841 else 0x8861 } }
    with
    macSeqNum := n.macSeqNum + 1
    draws := if broadcast then n.draws + 1 else n.draws }

/-- `nwkTxBroadcastFrame` -/
def txBroadcastFrame (p : Platform) (frame : NwkFrame) (n : Nwk) : Nwk :=
  match n.frameAlloc with
  | none => n
  | some (i, n) =>
    { n.setFrame i { n.frames i with
        state := .txDelay
        status := .success
        timeout := jitter (p.rand n.draws)
        confirm := false
        payload := frame.payload
        header := { frame.header with
          macFcf := 0x8841
          macDstAddr := nwkBroadcastAddr
          macSrcAddr := n.addr
          macSeq := n.macSeqNum + 1 } }
      with
      macSeqNum := n.macSeqNum + 1
      draws := n.draws + 1 }

/-- `nwkTxAckReceived`, on the bytes of the command. -/
def txAckReceived (data : List Byte) (n : Nwk) : Bool × Nwk :=
  if data.length = 3 then
    match (List.finRange 5).find? fun i =>
      (n.frames i).state = .txWaitAck && (n.frames i).header.nwkSeq == data.getD 1 0 with
    | some i =>
      (true, n.setFrame i { n.frames i with state := .txConfirm, control := data.getD 2 0 })
    | none => (false, n)
  else (false, n)

/-- `nwkTxConfirm` -/
def txConfirm (i : FrameSlot) (status : NwkStatus) (n : Nwk) : Nwk :=
  n.setFrame i { n.frames i with state := .txConfirm, status := status }

def ackWaitTick (n : Nwk) (i : FrameSlot) : Nwk :=
  let f := n.frames i
  if f.state = .txWaitAck then
    let n := n.setFrame i { f with timeout := f.timeout - 1 }
    let n := if f.timeout - 1 = 0 then n.txConfirm i .noAck else n
    { n with txAckWaitTimer := true }
  else n

/-- `nwkTxAckWaitTimerHandler`, called when the timer has run out. -/
def txAckWaitTimerHandler (n : Nwk) : Nwk :=
  (List.finRange 5).foldl ackWaitTick { n with txAckWaitTimer := false }

def delayTick (n : Nwk) (i : FrameSlot) : Nwk :=
  let f := n.frames i
  if f.state = .txWaitDelay then
    let n := n.setFrame i { f with
      timeout := f.timeout - 1
      state := if f.timeout - 1 = 0 then .txSend else .txWaitDelay }
    { n with txDelayTimer := true }
  else n

/-- `nwkTxDelayTimerHandler` -/
def txDelayTimerHandler (n : Nwk) : Nwk :=
  (List.finRange 5).foldl delayTick { n with txDelayTimer := false }

/-- `nwkTxConvertPhyStatus` -/
def txConvertPhyStatus : PhyStatus → NwkStatus
  | .success => .success
  | .channelAccessFailure => .phyChannelAccessFailure
  | .noAck => .phyNoAck
  | .error => .error

/-- `PHY_DataConf`. The radio ends a transmission only after `PHY_DataReq` has begun one. -/
def phyDataConf (status : PhyStatus) (n : Nwk) : Nwk :=
  match n.txPhyActiveFrame with
  | none => n
  | some i =>
    { n.setFrame i { n.frames i with state := .txSent, status := txConvertPhyStatus status } with
      txPhyActiveFrame := none
      lock := n.lock - 1 }

/-- `nwkSecurityProcess` -/
def securityProcess (i : FrameSlot) (encrypt : Bool) (n : Nwk) : Nwk :=
  { n.setState i (if encrypt then .securityEncryptPending else .securityDecryptPending) with
    securityActiveFrames := n.securityActiveFrames + 1 }

/-- The loop of `nwkDataReqTxConf`: it ends at the first request that points to the frame. -/
def confirmFirst (i : FrameSlot) (f : NwkFrame) : List DataReq → List DataReq
  | [] => []
  | req :: queue =>
    if req.frame = some i then
      { req with status := f.status, control := f.control, state := .confirm } :: queue
    else req :: confirmFirst i f queue

/-- `nwkDataReqTxConf` -/
def dataReqTxConf (i : FrameSlot) (n : Nwk) : Nwk :=
  frameFree i { n with dataReqQueue := confirmFirst i (n.frames i) n.dataReqQueue }

/-- `NWK_ACK_WAIT_TIME / NWK_TX_ACK_WAIT_TIMER_INTERVAL + 1` -/
def ackWaitTimeout : Word := 100 / 50 + 1

def txHandle (n : Nwk) (i : FrameSlot) : Nwk :=
  let f := n.frames i
  match f.state with
  | .txEncrypt => n.securityProcess i true
  | .txDelay =>
    if 0 < f.timeout then { n.setState i .txWaitDelay with txDelayTimer := true }
    else n.setState i .txSend
  | .txSend =>
    match n.txPhyActiveFrame with
    | none =>
      { n.setState i .txWaitConf with
        txPhyActiveFrame := some i
        lock := n.lock + 1
        history := .sent f.data :: n.history }
    | some _ => n
  | .txSent =>
    if f.status = .success then
      if f.header.nwkSrcAddr = n.addr ∧ f.header.ackRequest then
        { n.setFrame i { f with state := .txWaitAck, timeout := ackWaitTimeout } with
          txAckWaitTimer := true }
      else n.setState i .txConfirm
    else n.setState i .txConfirm
  | .txConfirm =>
    let n := { n with routes := n.routes.frameSent f.header f.status }
    if f.confirm then n.dataReqTxConf i else n.frameFree i
  | _ => n

/-- `nwkTxTaskHandler` -/
def txTaskHandler (n : Nwk) : Nwk := (List.finRange 5).foldl txHandle n

/-! ### `nwkDataReq.c` -/

/-- `NWK_DataReq` -/
def dataReq (n : Nwk) (params : DataParams) : Nwk :=
  { n with
    dataReqQueue :=
      { number := n.requests, params := params, frame := none, state := .initial,
        status := .success, control := params.control } :: n.dataReqQueue
    requests := n.requests + 1
    lock := n.lock + 1 }

/-- The frame that `nwkDataReqSendFrame` makes of a request. -/
def dataReqFrame (n : Nwk) (params : DataParams) : NwkFrame :=
  { NwkFrame.cleared with
    confirm := true
    control := if params.options &&& nwkOptBroadcastPanId ≠ 0 then txControlBroadcastPanId else 0
    payload := params.data
    header := { NwkFrameHeader.zero with
      ackRequest := params.options &&& nwkOptAckRequest != 0
      linkLocal := params.options &&& nwkOptLinkLocal != 0
      security := params.options &&& nwkOptEnableSecurity != 0
      nwkSeq := n.nwkSeqNum + 1
      nwkSrcAddr := n.addr
      nwkDstAddr := params.dstAddr
      nwkSrcEndpoint := params.srcEndpoint.setWidth 4
      nwkDstEndpoint := params.dstEndpoint.setWidth 4 } }

/-- `nwkDataReqSendFrame`: the request as it leaves it, and the stack. -/
def dataReqSendFrame (p : Platform) (req : DataReq) (n : Nwk) : DataReq × Nwk :=
  match n.frameAlloc with
  | none => ({ req with state := .confirm, status := .outOfMemory }, n)
  | some (i, n) =>
    let f := n.dataReqFrame req.params
    let n := { n.setFrame i f with
      nwkSeqNum := n.nwkSeqNum + 1, history := .launched req.number req.params f :: n.history }
    ({ req with frame := some i, state := .waitConf }, (n.fill req.params.data.length).txFrame p i)

/-- `nwkDataReqConfirm`, whose callback makes the requests given. -/
def dataReqConfirm (req : DataReq) (rest : List DataReq) (requests : List DataParams) (n : Nwk) :
    Nwk :=
  requests.foldl dataReq { n with
    dataReqQueue := rest
    lock := n.lock - 1
    history := .confirmed req.number req.status req.control :: n.history }

/-- The loop of `nwkDataReqTaskHandler`, with the requests that it has passed in reverse. -/
def dataReqTask (p : Platform) (requests : List DataParams) (n : Nwk) :
    List DataReq → List DataReq → Nwk
  | _, [] => n
  | passed, req :: queue =>
    match req.state with
    | .initial =>
      let (req, n) := n.dataReqSendFrame p req
      { n with dataReqQueue := passed.reverse ++ req :: queue }
    | .waitConf => dataReqTask p requests n (req :: passed) queue
    | .confirm => n.dataReqConfirm req (passed.reverse ++ queue) requests

/-- `nwkDataReqTaskHandler` -/
def dataReqTaskHandler (p : Platform) (requests : List DataParams) (n : Nwk) : Nwk :=
  dataReqTask p requests n [] n.dataReqQueue

/-! ### `nwkRx.c` and the rest of `nwkRoute.c` -/

def phyDataInd (ind : PhyDataInd) (n : Nwk) : Nwk :=
  if ind.wellFormed then
    match n.frameAlloc with
    | none => n
    | some (i, n) => (n.setFrame i ind.frame).fill ind.frame.payload.length
  else n

/-- `nwkRxSendAck` -/
def rxSendAck (p : Platform) (frame : NwkFrame) (n : Nwk) : Nwk :=
  match n.frameAlloc with
  | none => n
  | some (i, n) =>
    let n := n.frameCommandInit i
    let f := n.frames i
    let ack := { f with
      confirm := false
      payload := ackCommand frame.header.nwkSeq n.rxAckControl
      header := { f.header with
        security := frame.header.security, nwkDstAddr := frame.header.nwkSrcAddr } }
    { n.setFrame i ack with history := .acked frame ack :: n.history }.txFrame p i

/-- `nwkRouteSendRouteError` -/
def routeSendRouteError (p : Platform) (src dst : Word) (multicast : Bool) (n : Nwk) : Nwk :=
  match n.frameAlloc with
  | none => n
  | some (i, n) =>
    let n := n.frameCommandInit i
    let f := n.frames i
    let error := { f with
      confirm := false
      payload := routeErrorCommand src dst multicast
      header := { f.header with nwkDstAddr := src } }
    { n.setFrame i error with history := .reported error :: n.history }.txFrame p i

/-- `nwkRouteFrame` -/
def routeFrame (p : Platform) (i : FrameSlot) (n : Nwk) : Nwk :=
  let f := n.frames i
  if n.routes.nextHop f.header.nwkDstAddr (flag f.header.multicast) ≠ nwkRouteUnknown then
    (n.setFrame i { f with confirm := false, control := txControlRouting }).txFrame p i
  else
    (n.routeSendRouteError p f.header.nwkSrcAddr f.header.nwkDstAddr f.header.multicast).frameFree i

/-- `nwkRxRejectDuplicate` with the route that it removes. -/
def rxRejectDuplicate (header : NwkFrameHeader) (n : Nwk) : Bool × Nwk :=
  let (verdict, duplicates) := n.duplicates.reject header.nwkSrcAddr header.nwkSeq
  let routes :=
    if verdict = .seen ∧ n.addr = header.macDstAddr then
      n.routes.remove header.nwkDstAddr (flag header.multicast)
    else n.routes
  (verdict ≠ .fresh, { n with duplicates := duplicates, routes := routes })

/-- `nwkRxServiceDataInd` -/
def rxServiceDataInd (data : List Byte) (n : Nwk) : Bool × Nwk :=
  if data.length < 1 then (false, n)
  else if data.getD 0 0 = nwkCommandAck then n.txAckReceived data
  else if data.getD 0 0 = nwkCommandRouteError then
    let (taken, routes) := n.routes.errorReceived data
    (taken, { n with routes := routes })
  else (false, n)

def rxAccept (header : NwkFrameHeader) : FrameState :=
  if header.security then .rxDecrypt else .rxIndicate

/-- A frame that came as a broadcast and is not for this node alone is sent on. -/
def rxRelay (p : Platform) (f : NwkFrame) (n : Nwk) : Nwk :=
  if f.header.macDstAddr = nwkBroadcastAddr ∧ n.addr ≠ f.header.nwkDstAddr ∧
      ¬ f.header.linkLocal then
    n.txBroadcastFrame p f
  else n

/-- `nwkRxHandleReceivedFrame` -/
def rxHandleReceivedFrame (p : Platform) (i : FrameSlot) (n : Nwk) : Nwk :=
  let f := n.frames i
  let header := f.header
  if header.multicast then n.setState i .rxFinish
  else if header.macDstPanId = nwkBroadcastPanId then
    if n.addr = header.nwkDstAddr ∨ header.nwkDstAddr = nwkBroadcastAddr then
      n.setState i (rxAccept header)
    else n.setState i .rxFinish
  else if header.nwkDstAddr = nwkBroadcastAddr ∧ header.ackRequest then n.setState i .rxFinish
  else if n.addr = header.nwkSrcAddr then n.setState i .rxFinish
  else
    let n := { n with routes := n.routes.frameReceived n.addr header f.lqi }
    let (rejected, n) := n.rxRejectDuplicate header
    if rejected then n.setState i .rxFinish
    else
      let n := n.rxRelay p f
      if n.addr = header.nwkDstAddr ∨ header.nwkDstAddr = nwkBroadcastAddr then
        n.setState i (rxAccept header)
      else if n.addr = header.macDstAddr then n.setState i .rxRoute
      else n.setState i .rxFinish

/-- The bits of `NWK_DataInd_t`'s `options`. -/
def indOptions (header : NwkFrameHeader) : Byte :=
  (if header.ackRequest then 0x01#8 else 0) |||
    (if header.security then nwkIndOptSecured else 0) |||
    (if header.linkLocal then 0x20#8 else 0) |||
    (if header.multicast then 0x40#8 else 0) |||
    (if header.nwkDstAddr = nwkBroadcastAddr then 0x04#8 else 0) |||
    (if header.nwkSrcAddr = header.macSrcAddr then 0x08#8 else 0) |||
    (if header.macDstPanId = nwkBroadcastPanId then 0x10#8 else 0)

def dataInd (f : NwkFrame) : NwkDataInd where
  srcAddr := f.header.nwkSrcAddr
  dstAddr := f.header.nwkDstAddr
  srcEndpoint := f.header.nwkSrcEndpoint
  dstEndpoint := f.header.nwkDstEndpoint
  options := indOptions f.header
  data := f.payload
  lqi := f.lqi
  rssi := f.rssi

/-- `nwkRxIndicateFrame`, with what the application would answer. -/
def rxIndicateFrame (f : NwkFrame) (answer : Answer) (n : Nwk) : Bool × Nwk :=
  match n.endpoint f.header.nwkDstEndpoint with
  | none => (false, n)
  | some .service =>
    let (taken, n) := n.rxServiceDataInd f.payload
    (taken, { n with history := .indicated (dataInd f) taken :: n.history })
  | some .application =>
    (answer.taken, answer.requests.foldl dataReq { n with
      rxAckControl := answer.control
      history := .indicated (dataInd f) answer.taken :: n.history })

/-- Whether `nwkRxHandleIndication` acknowledges a frame, by the result of its endpoint. -/
def rxAck (addr : Word) (header : NwkFrameHeader) (taken : Bool) : Bool :=
  let ack := if header.ackRequest then taken else false
  let ack :=
    if header.macDstAddr = nwkBroadcastAddr ∧ addr = header.nwkDstAddr ∧ ¬ header.multicast then
      true
    else ack
  let ack := if header.macDstPanId = nwkBroadcastPanId then false else ack
  if addr = nwkBroadcastAddr then false else ack

/-- `nwkRxHandleIndication` -/
def rxHandleIndication (p : Platform) (i : FrameSlot) (answer : Answer) (n : Nwk) : Nwk :=
  let f := n.frames i
  let (taken, n) := { n with rxAckControl := 0 }.rxIndicateFrame f answer
  let n := if rxAck n.addr f.header taken then n.rxSendAck p f else n
  n.setState i .rxFinish

def rxHandle (p : Platform) (answers : FrameSlot → Answer) (n : Nwk) (i : FrameSlot) : Nwk :=
  match (n.frames i).state with
  | .rxReceived => n.rxHandleReceivedFrame p i
  | .rxDecrypt => n.securityProcess i false
  | .rxIndicate => n.rxHandleIndication p i (answers i)
  | .rxRoute => n.routeFrame p i
  | .rxFinish => n.frameFree i
  | _ => n

/-- `nwkRxTaskHandler` -/
def rxTaskHandler (p : Platform) (answers : FrameSlot → Answer) (n : Nwk) : Nwk :=
  (List.finRange 5).foldl (rxHandle p answers) n

/-! ### `nwkSecurity.c` -/

/-- `nwkSecurityStart`, once the active frame is set. A frame without room for its check has its
size wrap around. -/
def securityStart (i : FrameSlot) (n : Nwk) : Nwk :=
  let f := n.frames i
  let (security, g) := Security.start f
  { n.setFrame i g with
    securityActiveFrame := some i
    security := security
    overrun := n.overrun ||
      (f.state == .securityDecryptPending && decide (f.payload.length < nwkSecurityMicSize)) }

/-- The end of the work on the active frame: `nwkTxEncryptConf` or `nwkRxDecryptConf`. -/
def securityConf (i : FrameSlot) (n : Nwk) : Nwk :=
  let (micStatus, g) := n.security.processMic (n.frames i)
  let state : FrameState :=
    if n.security.encrypt then .txDelay else if micStatus then .rxIndicate else .rxFinish
  { (n.setFrame i { g with state := state }).fill g.payload.length with
    securityActiveFrame := none
    securityActiveFrames := n.securityActiveFrames - 1 }

/-- `nwkSecurityTaskHandler` -/
def securityTaskHandler (p : Platform) (n : Nwk) : Nwk :=
  if n.securityActiveFrames = 0 then n
  else
    match n.securityActiveFrame with
    | some i =>
      let f := n.frames i
      if f.state = .securityConfirm then n.securityConf i
      else if f.state = .securityProcess then
        let (security, g) := n.security.encryptReq (p.aes n.key) { f with state := .securityWait }
        { n.setFrame i g with security := security }
      else n
    | none =>
      match (List.finRange 5).find? fun i =>
        (n.frames i).state = .securityEncryptPending ||
          (n.frames i).state = .securityDecryptPending with
      | some i => n.securityStart i
      | none => n

inductive Action where
  | phyDataInd (ind : PhyDataInd)
  | phyDataConf (status : PhyStatus)
  | rxTask (answers : FrameSlot → Answer)
  | txTask
  | dataReqTask (requests : List DataParams)
  | securityTask
  | ackWaitTimer
  | delayTimer
  | duplicateTimer
  | dataReq (params : DataParams)
  | setAddr (addr : Word)
  | setPanId (panId : Word)
  | openEndpoint (id : Nibble)
  | setSecurityKey (key : SecurityBlock)

/-- A timer that has not been started does not run out. -/
def step (p : Platform) (n : Nwk) : Action → Nwk
  | .phyDataInd ind => n.phyDataInd ind
  | .phyDataConf status => n.phyDataConf status
  | .rxTask answers => n.rxTaskHandler p answers
  | .txTask => n.txTaskHandler
  | .dataReqTask requests => n.dataReqTaskHandler p requests
  | .securityTask => n.securityTaskHandler p
  | .ackWaitTimer => if n.txAckWaitTimer then n.txAckWaitTimerHandler else n
  | .delayTimer => if n.txDelayTimer then n.txDelayTimerHandler else n
  | .duplicateTimer =>
    if n.duplicates.timer then { n with duplicates := n.duplicates.tick } else n
  | .dataReq params => n.dataReq params
  | .setAddr addr => { n with addr := addr }
  | .setPanId panId => { n with panId := panId }
  | .openEndpoint id =>
    { n with endpoint := Function.update n.endpoint id (some .application) }
  | .setSecurityKey key => { n with key := key }

end Nwk

end Aquila.Lwm
