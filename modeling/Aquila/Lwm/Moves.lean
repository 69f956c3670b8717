import Aquila.Lwm.Nwk
import Mathlib.Logic.Relation

/-! # Moves of the stack

What a function of the stack does is a sequence of moves, each of which takes a buffer or a
request from one of its states to the next. What holds over whole runs is shown of the moves,
and the functions are not looked at again.
-/

namespace Aquila.Lwm
open Library Bridge Mesh

/-- The part of a header that nodes on the way do not write. -/
def NwkFrameHeader.nwk (h : NwkFrameHeader) : NwkFrameHeader :=
  { h with macFcf := 0, macSeq := 0, macDstPanId := 0, macDstAddr := 0, macSrcAddr := 0 }

/-- What the surroundings of a node may do: the frames that arrive, and the requests that the
application makes. -/
structure Environment where
  received : List Byte → Prop
  requested : DataParams → Prop

namespace Nwk

def keep (n : Nwk) (routes : RouteTable) (duplicates : Duplicates) (macSeqNum rxAckControl : Byte)
    (draws : ℕ) : Nwk :=
  { n with
    routes := routes
    duplicates := duplicates
    macSeqNum := macSeqNum
    rxAckControl := rxAckControl
    draws := draws }

def take (n : Nwk) (i : FrameSlot) (f : NwkFrame) : Nwk :=
  { n.setFrame i f with lock := n.lock + 1 }

/-- The frame of a node's own comes with a new sequence number. -/
def originate (n : Nwk) (r : Record) : Nwk :=
  { n with nwkSeqNum := n.nwkSeqNum + 1, history := r :: n.history }

def securityCrypt (p : Platform) (i : FrameSlot) (n : Nwk) : Nwk :=
  let result := n.security.encryptReq (p.aes n.key) { n.frames i with state := .securityWait }
  { n.setFrame i result.2 with security := result.1 }

/-- What `nwkTxFrame` makes of a frame. -/
structure Prepared (panId : Word) (g f : NwkFrame) : Prop where
  state : f.state =
    if g.control &&& txControlRouting ≠ 0 then .txDelay
    else if g.header.security then .txEncrypt
    else .txDelay
  nwk : f.header.nwk = g.header.nwk
  panId : f.header.macDstPanId =
    if g.control &&& txControlBroadcastPanId ≠ 0 then nwkBroadcastPanId else panId
  payload : f.payload = g.payload
  confirm : f.confirm = g.confirm
  status : f.status = .success
  timeout : f.timeout.toNat ≤ 8

/-- What `nwkTxBroadcastFrame` makes of a frame. -/
structure Relayed (g f : NwkFrame) : Prop where
  state : f.state = .txDelay
  nwk : f.header.nwk = g.header.nwk
  panId : f.header.macDstPanId = g.header.macDstPanId
  payload : f.payload = g.payload
  confirm : f.confirm = false
  timeout : f.timeout.toNat ≤ 8

/-- Where a received frame can go. -/
inductive Passed (n : Nwk) (f : NwkFrame) : FrameState → Prop where
  | finish : Passed n f .rxFinish
  | accept
      (hdst : n.addr = f.header.nwkDstAddr ∨ f.header.nwkDstAddr = nwkBroadcastAddr)
      (hquiet : f.header.macDstPanId ≠ nwkBroadcastPanId →
        ¬ (f.header.nwkDstAddr = nwkBroadcastAddr ∧ f.header.ackRequest = true)) :
      Passed n f (rxAccept f.header)
  | route (hpan : f.header.macDstPanId ≠ nwkBroadcastPanId) (hsrc : n.addr ≠ f.header.nwkSrcAddr) :
      Passed n f .rxRoute

def ackFrame (n : Nwk) (frame : NwkFrame) (control : Byte) : NwkFrame :=
  { NwkFrame.cleared with
    payload := ackCommand frame.header.nwkSeq control
    header := { NwkFrameHeader.zero with
      security := frame.header.security
      nwkSeq := n.nwkSeqNum + 1
      nwkSrcAddr := n.addr
      nwkDstAddr := frame.header.nwkSrcAddr } }

def errorFrame (n : Nwk) (frame : NwkFrame) : NwkFrame :=
  { NwkFrame.cleared with
    payload := routeErrorCommand frame.header.nwkSrcAddr frame.header.nwkDstAddr
      frame.header.multicast
    header := { NwkFrameHeader.zero with
      nwkSeq := n.nwkSeqNum + 1
      nwkSrcAddr := n.addr
      nwkDstAddr := frame.header.nwkSrcAddr } }

def Acknowledged (n : Nwk) (f : NwkFrame) : Prop :=
  f.header.macDstPanId ≠ nwkBroadcastPanId ∧
    (f.header.ackRequest ∧ .indicated (dataInd f) true ∈ n.history ∨
      f.header.macDstAddr = nwkBroadcastAddr ∧ n.addr = f.header.nwkDstAddr)

/-- The moves, with what is known of the state in which each is made. -/
inductive Move (p : Platform) (e : Environment) (n : Nwk) : Nwk → Prop where
  | keep (routes : RouteTable) (duplicates : Duplicates) (macSeqNum rxAckControl : Byte)
      (draws : ℕ) : Move p e n (n.keep routes duplicates macSeqNum rxAckControl draws)
  | indicate (j : FrameSlot) (taken : Bool) (hj : (n.frames j).state = .rxIndicate) :
      Move p e n { n with history := .indicated (dataInd (n.frames j)) taken :: n.history }
  | post (params : DataParams) (hparams : e.requested params) : Move p e n (n.dataReq params)
  | receive (i : FrameSlot) (ind : PhyDataInd) (hi : (n.frames i).state = .free)
      (hind : ind.wellFormed = true) (hair : e.received ind.data) :
      Move p e n ((n.take i ind.frame).fill ind.frame.payload.length)
  | pass (j : FrameSlot) (state : FrameState) (hj : (n.frames j).state = .rxReceived)
      (hstate : n.Passed (n.frames j) state) : Move p e n (n.setState j state)
  | relay (i j : FrameSlot) (state : FrameState) (f : NwkFrame) (hi : (n.frames i).state = .free)
      (hj : (n.frames j).state = .rxReceived) (hstate : n.Passed (n.frames j) state)
      (hpan : (n.frames j).header.macDstPanId ≠ nwkBroadcastPanId)
      (hf : Relayed (n.frames j) f) : Move p e n ((n.take i f).setState j state)
  | finish (j : FrameSlot) (hj : (n.frames j).state = .rxIndicate) :
      Move p e n (n.setState j .rxFinish)
  | acknowledge (i j : FrameSlot) (control : Byte) (f : NwkFrame)
      (hi : (n.frames i).state = .free) (hj : (n.frames j).state = .rxIndicate)
      (hcause : n.Acknowledged (n.frames j))
      (hf : Prepared n.panId (n.ackFrame (n.frames j) control) f) :
      Move p e n (((n.take i f).setState j .rxFinish).originate
        (.acked (n.frames j) (n.ackFrame (n.frames j) control)))
  | hear (i j : FrameSlot) (hi : (n.frames i).state = .txWaitAck)
      (hj : (n.frames j).state = .rxIndicate)
      (hservice : n.endpoint (n.frames j).header.nwkDstEndpoint = some .service)
      (hdata : ∃ control, (n.frames j).payload = ackCommand (n.frames i).header.nwkSeq control)
      (control : Byte) :
      Move p e n (n.setFrame i { n.frames i with state := .txConfirm, control := control })
  | route (j : FrameSlot) (f : NwkFrame) (hj : (n.frames j).state = .rxRoute)
      (hf : Prepared n.panId { n.frames j with confirm := false, control := txControlRouting } f) :
      Move p e n (n.setFrame j f)
  | report (i j : FrameSlot) (f : NwkFrame) (hi : (n.frames i).state = .free)
      (hj : (n.frames j).state = .rxRoute) (hf : Prepared n.panId (n.errorFrame (n.frames j)) f) :
      Move p e n (((n.take i f).frameFree j).originate (.reported (n.errorFrame (n.frames j))))
  | release (j : FrameSlot)
      (hj : (n.frames j).state = .rxFinish ∨ (n.frames j).state = .rxRoute ∨
        (n.frames j).state = .txConfirm ∧ (n.frames j).confirm = false) :
      Move p e n (n.frameFree j)
  | secure (i : FrameSlot) (encrypt : Bool)
      (hi : (n.frames i).state = if encrypt then .txEncrypt else .rxDecrypt) :
      Move p e n (n.securityProcess i encrypt)
  | start (i : FrameSlot) (hactive : n.securityActiveFrame = none)
      (hi : (n.frames i).state = .securityEncryptPending ∨
        (n.frames i).state = .securityDecryptPending) :
      Move p e n (n.securityStart i)
  | crypt (i : FrameSlot) (hactive : n.securityActiveFrame = some i)
      (hi : (n.frames i).state = .securityProcess) : Move p e n (n.securityCrypt p i)
  | secured (i : FrameSlot) (hactive : n.securityActiveFrame = some i)
      (hi : (n.frames i).state = .securityConfirm) : Move p e n (n.securityConf i)
  | delay (i : FrameSlot) (hi : (n.frames i).state = .txDelay)
      (htimeout : 0 < (n.frames i).timeout) :
      Move p e n { n.setState i .txWaitDelay with txDelayTimer := true }
  | ready (i : FrameSlot) (hi : (n.frames i).state = .txDelay) : Move p e n (n.setState i .txSend)
  | send (i : FrameSlot) (hi : (n.frames i).state = .txSend) (hactive : n.txPhyActiveFrame = none) :
      Move p e n { n.setState i .txWaitConf with
        txPhyActiveFrame := some i
        lock := n.lock + 1
        history := .sent (n.frames i).data :: n.history }
  | phyConf (i : FrameSlot) (status : PhyStatus) (hactive : n.txPhyActiveFrame = some i) :
      Move p e n { n.setFrame i { n.frames i with
          state := .txSent, status := txConvertPhyStatus status } with
        txPhyActiveFrame := none
        lock := n.lock - 1 }
  | wait (i : FrameSlot) (hi : (n.frames i).state = .txSent)
      (hstatus : (n.frames i).status = .success)
      (hsrc : (n.frames i).header.nwkSrcAddr = n.addr)
      (hack : (n.frames i).header.ackRequest = true) :
      Move p e n { n.setFrame i { n.frames i with
          state := .txWaitAck, timeout := ackWaitTimeout } with
        txAckWaitTimer := true }
  | done (i : FrameSlot) (hi : (n.frames i).state = .txSent)
      (hend : (n.frames i).status = .success → ¬ ((n.frames i).header.nwkSrcAddr = n.addr ∧
        (n.frames i).header.ackRequest = true)) :
      Move p e n (n.setState i .txConfirm)
  | ackWait : Move p e n n.txAckWaitTimerHandler
  | delayWait : Move p e n n.txDelayTimerHandler
  | txConf (i : FrameSlot) (hi : (n.frames i).state = .txConfirm)
      (hconfirm : (n.frames i).confirm = true) : Move p e n (n.dataReqTxConf i)
  | launch (i : FrameSlot) (before : List DataReq) (req : DataReq) (after : List DataReq)
      (f : NwkFrame) (hi : (n.frames i).state = .free)
      (hqueue : n.dataReqQueue = before ++ req :: after)
      (hbefore : ∀ r ∈ before, r.state = .waitConf) (hreq : req.state = .initial)
      (hf : Prepared n.panId (n.dataReqFrame req.params) f) :
      Move p e n { ((n.take i f).fill req.params.data.length).originate
          (.launched req.number req.params (n.dataReqFrame req.params)) with
        dataReqQueue := before ++ { req with frame := some i, state := .waitConf } :: after }
  | refuse (before : List DataReq) (req : DataReq) (after : List DataReq)
      (hqueue : n.dataReqQueue = before ++ req :: after) (hreq : req.state = .initial) :
      Move p e n { n with
        dataReqQueue := before ++ { req with state := .confirm, status := .outOfMemory } :: after }
  | confirm (before : List DataReq) (req : DataReq) (after : List DataReq)
      (hqueue : n.dataReqQueue = before ++ req :: after) (hreq : req.state = .confirm) :
      Move p e n { n with
        dataReqQueue := before ++ after
        lock := n.lock - 1
        history := .confirmed req.number req.status req.control :: n.history }

abbrev Moves (p : Platform) (e : Environment) : Nwk → Nwk → Prop :=
  Relation.ReflTransGen (Move p e)

variable {p : Platform} {e : Environment} {n m : Nwk}

theorem Move.moves (h : Move p e n m) : Moves p e n m := .single h

theorem moves_foldl {handle : Nwk → FrameSlot → Nwk} (h : ∀ n i, Moves p e n (handle n i))
    (n : Nwk) (slots : List FrameSlot) : Moves p e n (slots.foldl handle n) := by
  induction slots generalizing n with
  | nil => exact .refl
  | cons i slots ih => exact (h n i).trans (ih (handle n i))

@[simp] theorem setFrame_setFrame (i : FrameSlot) (f g : NwkFrame) :
    (n.setFrame i f).setFrame i g = n.setFrame i g := by
  simp [setFrame]

@[simp] theorem setFrame_self (i : FrameSlot) (f : NwkFrame) : (n.setFrame i f).frames i = f :=
  Function.update_self ..

theorem setFrame_of_ne {i j : FrameSlot} (hji : j ≠ i) (f : NwkFrame) :
    (n.setFrame i f).frames j = n.frames j :=
  Function.update_of_ne hji _ _

@[simp] theorem take_setFrame (i : FrameSlot) (f g : NwkFrame) :
    (n.take i f).setFrame i g = n.take i g := by
  simp [take, setFrame]

@[simp] theorem originate_setFrame (r : Record) (i : FrameSlot) (f : NwkFrame) :
    (n.originate r).setFrame i f = (n.setFrame i f).originate r := rfl

theorem fill_txFrame (size : ℕ) (i : FrameSlot) :
    (n.fill size).txFrame p i = (n.txFrame p i).fill size := rfl

@[simp] theorem take_self (i : FrameSlot) (f : NwkFrame) : (n.take i f).frames i = f :=
  Function.update_self ..

theorem frameAlloc_some {i : FrameSlot} (h : n.frameAlloc = some (i, m)) :
    (n.frames i).state = .free ∧ m = n.take i .cleared := by
  rw [frameAlloc, Option.map_eq_some_iff] at h
  rcases h with ⟨j, hj, heq⟩
  cases heq
  have hfree := List.find?_some hj
  exact ⟨of_decide_eq_true hfree, rfl⟩

theorem jitter_le (r : Word) : (jitter r).toNat ≤ 8 := by
  have hand : (r &&& 0x07#16).toNat ≤ 7 := by
    rw [BitVec.toNat_and]
    exact Nat.and_le_right
  rw [jitter, BitVec.toNat_add]
  change (_ + 1) % 65536 ≤ 8
  omega

theorem timeout_le (broadcast : Prop) [Decidable broadcast] (r : Word) :
    (if broadcast then jitter r else 0).toNat ≤ 8 := by
  split
  case isTrue => exact jitter_le r
  case isFalse => exact Nat.zero_le 8

theorem txFrame_eq (p : Platform) (i : FrameSlot) (n : Nwk) :
    ∃ f macSeqNum draws, Prepared n.panId (n.frames i) f ∧
      n.txFrame p i =
        (n.setFrame i f).keep n.routes n.duplicates macSeqNum n.rxAckControl draws := by
  refine ⟨_, _, _, ?_, rfl⟩
  constructor
  case state => rfl
  case nwk => rfl
  case panId => rfl
  case payload => rfl
  case confirm => rfl
  case status => rfl
  case timeout => exact timeout_le _ _

theorem txFrame_originate (p : Platform) (i : FrameSlot) (g : NwkFrame) (r : Record) (n : Nwk) :
    ∃ f macSeqNum draws, Prepared n.panId g f ∧
      ((n.take i g).originate r).txFrame p i =
        ((n.take i f).originate r).keep n.routes n.duplicates macSeqNum n.rxAckControl draws := by
  rcases txFrame_eq p i ((n.take i g).originate r) with ⟨f, macSeqNum, draws, hf, heq⟩
  refine ⟨f, macSeqNum, draws, ?_, ?_⟩
  · rw [← take_self (n := n) i g]
    exact hf
  · rw [heq, originate_setFrame, take_setFrame]
    rfl

theorem txBroadcastFrame_eq (p : Platform) (frame : NwkFrame) (n : Nwk) :
    n.txBroadcastFrame p frame = n ∨ ∃ i f macSeqNum draws, (n.frames i).state = .free ∧
      Relayed frame f ∧ n.txBroadcastFrame p frame =
        (n.take i f).keep n.routes n.duplicates macSeqNum n.rxAckControl draws := by
  rw [txBroadcastFrame]
  cases halloc : n.frameAlloc with
  | none => exact .inl rfl
  | some result =>
    rcases result with ⟨i, m⟩
    rcases frameAlloc_some halloc with ⟨hfree, rfl⟩
    right
    refine ⟨i, { (n.take i .cleared).frames i with
        state := .txDelay
        status := .success
        timeout := jitter (p.rand n.draws)
        confirm := false
        payload := frame.payload
        header := { frame.header with
          macFcf := 0x8841
          macDstAddr := nwkBroadcastAddr
          macSrcAddr := n.addr
          macSeq := n.macSeqNum + 1 } }, n.macSeqNum + 1, n.draws + 1, hfree, ?_, ?_⟩
    · constructor
      case state => rfl
      case nwk => rfl
      case panId => rfl
      case payload => rfl
      case confirm => rfl
      case timeout => exact jitter_le _
    · simp [keep, take, setFrame]

theorem Moves.posts (n : Nwk) {requests : List DataParams} (h : ∀ r ∈ requests, e.requested r) :
    Moves p e n (requests.foldl dataReq n) := by
  induction requests generalizing n with
  | nil => exact .refl
  | cons params requests ih =>
    rw [List.forall_mem_cons] at h
    exact (Move.post params h.1).moves.trans (ih (n.dataReq params) h.2)

theorem txHandle_moves (n : Nwk) (i : FrameSlot) : Moves p e n (n.txHandle i) := by
  rw [txHandle]
  dsimp only
  split
  case h_1 hi => exact (Move.secure i true hi).moves
  case h_2 hi =>
    split
    case isTrue ht => exact (Move.delay i hi ht).moves
    case isFalse => exact (Move.ready i hi).moves
  case h_3 hi =>
    split
    case h_1 hactive => exact (Move.send i hi hactive).moves
    case h_2 => exact .refl
  case h_4 hi =>
    split
    case isTrue hstatus =>
      split
      case isTrue hown => exact (Move.wait i hi hstatus hown.1 hown.2).moves
      case isFalse hown => exact (Move.done i hi (fun _ => hown)).moves
    case isFalse hstatus => exact (Move.done i hi (fun h => absurd h hstatus)).moves
  case h_5 hi =>
    have hroute : Moves p e n (n.keep (n.routes.frameSent (n.frames i).header (n.frames i).status)
        n.duplicates n.macSeqNum n.rxAckControl n.draws) := (Move.keep _ _ _ _ _).moves
    split
    case isTrue hconfirm => exact hroute.tail (Move.txConf i hi hconfirm)
    case isFalse hconfirm =>
      exact hroute.tail (Move.release i (.inr (.inr ⟨hi, Bool.eq_false_of_not_eq_true hconfirm⟩)))
  case h_6 => exact .refl

theorem txTaskHandler_moves (n : Nwk) : Moves p e n n.txTaskHandler :=
  moves_foldl txHandle_moves n (List.finRange 5)

theorem phyDataConf_moves (status : PhyStatus) (n : Nwk) : Moves p e n (n.phyDataConf status) := by
  rw [phyDataConf]
  split
  case h_1 => exact .refl
  case h_2 i hactive => exact (Move.phyConf i status hactive).moves

theorem phyDataInd_moves {ind : PhyDataInd} (hair : e.received ind.data) (n : Nwk) :
    Moves p e n (n.phyDataInd ind) := by
  rw [phyDataInd]
  split
  case isTrue hind =>
    cases halloc : n.frameAlloc with
    | none => exact .refl
    | some result =>
      rcases result with ⟨i, m⟩
      rcases frameAlloc_some halloc with ⟨hfree, rfl⟩
      have hmove := (Move.receive (p := p) i ind hfree hind hair).moves
      simpa [take, setFrame] using hmove
  case isFalse => exact .refl

theorem securityTaskHandler_moves (n : Nwk) : Moves p e n (n.securityTaskHandler p) := by
  rw [securityTaskHandler]
  split
  case isTrue => exact .refl
  case isFalse =>
    cases hactive : n.securityActiveFrame with
    | some i =>
      dsimp only
      split
      case isTrue hi => exact (Move.secured i hactive hi).moves
      case isFalse =>
        split
        case isTrue hi => exact (Move.crypt i hactive hi).moves
        case isFalse => exact .refl
    | none =>
      dsimp only
      split
      case h_1 i hfind =>
        have hi := List.find?_some hfind
        rw [Bool.or_eq_true, decide_eq_true_eq, decide_eq_true_eq] at hi
        exact (Move.start i hactive hi).moves
      case h_2 => exact .refl

/-! ### Requests -/

theorem dataReqTask_moves {requests : List DataParams} (hrequests : ∀ r ∈ requests, e.requested r)
    (passed queue : List DataReq) (hqueue : n.dataReqQueue = passed.reverse ++ queue)
    (hpassed : ∀ r ∈ passed, r.state = .waitConf) :
    Moves p e n (dataReqTask p requests n passed queue) := by
  induction queue generalizing passed with
  | nil => exact .refl
  | cons req queue ih =>
    have hbefore (r : DataReq) (hr : r ∈ passed.reverse) : r.state = .waitConf :=
      hpassed r (List.mem_reverse.mp hr)
    rw [dataReqTask]
    split
    case h_1 hreq =>
      rw [dataReqSendFrame]
      cases halloc : n.frameAlloc with
      | none => exact (Move.refuse passed.reverse req queue hqueue hreq).moves
      | some result =>
        rcases result with ⟨i, m⟩
        rcases frameAlloc_some halloc with ⟨hfree, rfl⟩
        dsimp only
        have hmade : { (n.take i .cleared).setFrame i
              ((n.take i .cleared).dataReqFrame req.params) with
            nwkSeqNum := (n.take i .cleared).nwkSeqNum + 1
            history :=
              .launched req.number req.params ((n.take i .cleared).dataReqFrame req.params) ::
                (n.take i .cleared).history } =
            (n.take i (n.dataReqFrame req.params)).originate
              (.launched req.number req.params (n.dataReqFrame req.params)) := by
          rw [take_setFrame]
          rfl
        rw [hmade]
        rcases txFrame_originate p i (n.dataReqFrame req.params)
          (.launched req.number req.params (n.dataReqFrame req.params)) n with
          ⟨f, macSeqNum, draws, hf, heq⟩
        have hlaunch :=
          Move.launch (p := p) (e := e) i passed.reverse req queue f hfree hqueue hbefore hreq hf
        rw [fill_txFrame, heq]
        exact hlaunch.moves.tail
          (Move.keep n.routes n.duplicates macSeqNum n.rxAckControl draws)
    case h_2 hreq =>
      apply ih (req :: passed)
      · rw [hqueue, List.reverse_cons, List.append_assoc, List.singleton_append]
      · exact List.forall_mem_cons.mpr ⟨hreq, hpassed⟩
    case h_3 hreq =>
      rw [dataReqConfirm]
      have hconfirm := Move.confirm (p := p) (e := e) passed.reverse req queue hqueue hreq
      exact hconfirm.moves.trans (Moves.posts _ hrequests)

theorem dataReqTaskHandler_moves {requests : List DataParams}
    (hrequests : ∀ r ∈ requests, e.requested r) (n : Nwk) :
    Moves p e n (n.dataReqTaskHandler p requests) :=
  dataReqTask_moves hrequests [] n.dataReqQueue rfl (fun _ hr => absurd hr List.not_mem_nil)

/-! ### Received frames -/

theorem rxSendAck_eq (p : Platform) (frame : NwkFrame) (n : Nwk) :
    n.rxSendAck p frame = n ∨ ∃ i f macSeqNum draws, (n.frames i).state = .free ∧
      Prepared n.panId (n.ackFrame frame n.rxAckControl) f ∧ n.rxSendAck p frame =
        ((n.take i f).originate (.acked frame (n.ackFrame frame n.rxAckControl))).keep
          n.routes n.duplicates macSeqNum n.rxAckControl draws := by
  rw [rxSendAck]
  cases halloc : n.frameAlloc with
  | none => exact .inl rfl
  | some result =>
    rcases result with ⟨i, m⟩
    rcases frameAlloc_some halloc with ⟨hfree, rfl⟩
    right
    rcases txFrame_originate p i (n.ackFrame frame n.rxAckControl)
      (.acked frame (n.ackFrame frame n.rxAckControl)) n with ⟨f, macSeqNum, draws, hf, heq⟩
    refine ⟨i, f, macSeqNum, draws, hfree, hf, ?_⟩
    rw [← heq]
    simp [frameCommandInit, setFrame, take, originate, ackFrame, NwkFrame.cleared]

theorem routeSendRouteError_eq (p : Platform) (frame : NwkFrame) (n : Nwk) :
    n.routeSendRouteError p frame.header.nwkSrcAddr frame.header.nwkDstAddr
        frame.header.multicast = n ∨
      ∃ i f macSeqNum draws, (n.frames i).state = .free ∧ Prepared n.panId (n.errorFrame frame) f ∧
        n.routeSendRouteError p frame.header.nwkSrcAddr frame.header.nwkDstAddr
            frame.header.multicast =
          ((n.take i f).originate (.reported (n.errorFrame frame))).keep
            n.routes n.duplicates macSeqNum n.rxAckControl draws := by
  rw [routeSendRouteError]
  cases halloc : n.frameAlloc with
  | none => exact .inl rfl
  | some result =>
    rcases result with ⟨i, m⟩
    rcases frameAlloc_some halloc with ⟨hfree, rfl⟩
    right
    rcases txFrame_originate p i (n.errorFrame frame) (.reported (n.errorFrame frame)) n with
      ⟨f, macSeqNum, draws, hf, heq⟩
    refine ⟨i, f, macSeqNum, draws, hfree, hf, ?_⟩
    rw [← heq]
    simp [frameCommandInit, setFrame, take, originate, errorFrame, NwkFrame.cleared]

theorem routeFrame_moves {j : FrameSlot} (hj : (n.frames j).state = .rxRoute) :
    Moves p e n (n.routeFrame p j) := by
  rw [routeFrame]
  split
  case isTrue =>
    rcases txFrame_eq p j (n.setFrame j { n.frames j with
      confirm := false, control := txControlRouting }) with ⟨f, macSeqNum, draws, hf, heq⟩
    rw [heq, setFrame_setFrame]
    rw [setFrame_self] at hf
    exact (Move.route j f hj hf).moves.tail (Move.keep _ _ _ _ _)
  case isFalse =>
    rcases routeSendRouteError_eq p (n.frames j) n with heq | ⟨i, f, macSeqNum, draws, hi, hf, heq⟩
    · rw [heq]
      exact (Move.release j (.inr (.inl hj))).moves
    · rw [heq]
      exact (Move.report i j f hi hj hf).moves.tail (Move.keep _ _ _ _ _)

theorem rxRejectDuplicate_eq (header : NwkFrameHeader) (learned : RouteTable) (n : Nwk) :
    ∃ routes duplicates, (rxRejectDuplicate header { n with routes := learned }).2 =
      n.keep routes duplicates n.macSeqNum n.rxAckControl n.draws :=
  ⟨_, _, rfl⟩

theorem rxRelay_eq (p : Platform) (frame : NwkFrame) (n : Nwk) :
    n.rxRelay p frame = n ∨ ∃ i f macSeqNum draws, (n.frames i).state = .free ∧
      Relayed frame f ∧ n.rxRelay p frame =
        (n.take i f).keep n.routes n.duplicates macSeqNum n.rxAckControl draws := by
  rw [rxRelay]
  split
  case isTrue => exact txBroadcastFrame_eq p frame n
  case isFalse => exact .inl rfl

/-- A frame that is accepted, routed or dropped after it may have been relayed. -/
theorem relayed_moves {j : FrameSlot} (hj : (n.frames j).state = .rxReceived)
    (hpan : (n.frames j).header.macDstPanId ≠ nwkBroadcastPanId) {state : FrameState}
    (hstate : n.Passed (n.frames j) state) :
    Moves p e n ((n.rxRelay p (n.frames j)).setState j state) := by
  rcases rxRelay_eq p (n.frames j) n with heq | ⟨i, f, macSeqNum, draws, hi, hf, heq⟩
  · rw [heq]
    exact (Move.pass j state hj hstate).moves
  · rw [heq]
    exact (Move.relay i j state f hi hj hstate hpan hf).moves.tail (Move.keep _ _ _ _ _)

theorem addr_rxRelay (frame : NwkFrame) : (n.rxRelay p frame).addr = n.addr := by
  rcases rxRelay_eq p frame n with heq | ⟨i, f, macSeqNum, draws, _, _, heq⟩
  · rw [heq]
  · rw [heq]
    rfl

theorem rxHandleReceivedFrame_moves {j : FrameSlot} (hj : (n.frames j).state = .rxReceived) :
    Moves p e n (n.rxHandleReceivedFrame p j) := by
  have hfinish : Moves p e n (n.setState j .rxFinish) := (Move.pass j .rxFinish hj .finish).moves
  rw [rxHandleReceivedFrame]
  dsimp only
  split
  case isTrue => exact hfinish
  case isFalse =>
    split
    case isTrue hpan =>
      split
      case isTrue hdst => exact (Move.pass j _ hj (.accept hdst (fun h => absurd hpan h))).moves
      case isFalse => exact hfinish
    case isFalse hpan =>
      split
      case isTrue => exact hfinish
      case isFalse hquiet =>
        split
        case isTrue => exact hfinish
        case isFalse hsrc =>
          rcases rxRejectDuplicate_eq (n.frames j).header
            (n.routes.frameReceived n.addr (n.frames j).header (n.frames j).lqi) n with
            ⟨routes, duplicates, heq⟩
          rw [heq]
          have hkeep : Moves p e n (n.keep routes duplicates n.macSeqNum n.rxAckControl n.draws) :=
            (Move.keep _ _ _ _ _).moves
          apply hkeep.trans
          generalize hk : n.keep routes duplicates n.macSeqNum n.rxAckControl n.draws = k
          have hframe : k.frames j = n.frames j := by rw [← hk]; rfl
          have haddr : k.addr = n.addr := by rw [← hk]; rfl
          rw [← hframe] at hj hpan hquiet hsrc ⊢
          rw [← haddr] at hsrc
          split
          case isTrue => exact (Move.pass j .rxFinish hj .finish).moves
          case isFalse =>
            rw [addr_rxRelay]
            split
            case isTrue hdst => exact relayed_moves hj hpan (.accept hdst (fun _ => hquiet))
            case isFalse =>
              split
              case isTrue => exact relayed_moves hj hpan (.route hpan hsrc)
              case isFalse => exact relayed_moves hj hpan .finish

theorem foldl_dataReq_eq (n : Nwk) (requests : List DataParams) :
    ∃ queue lock count, requests.foldl dataReq n =
      { n with dataReqQueue := queue, lock := lock, requests := count } := by
  induction requests generalizing n with
  | nil => exact ⟨_, _, _, rfl⟩
  | cons params requests ih => exact ih (n.dataReq params)

theorem eq_ackCommand {data : List Byte} (hlength : data.length = 3)
    (hid : data.getD 0 0 = nwkCommandAck) :
    data = ackCommand (data.getD 1 0) (data.getD 2 0) := by
  rcases List.length_eq_three.mp hlength with ⟨id, seq, control, rfl⟩
  rw [ackCommand, ← hid]
  rfl

/-- A command changes the routes, or ends the wait of a frame. -/
theorem rxServiceDataInd_cases (data : List Byte) (n : Nwk) :
    (∃ routes, (n.rxServiceDataInd data).2 =
      n.keep routes n.duplicates n.macSeqNum n.rxAckControl n.draws) ∨
    ∃ i control, (n.frames i).state = .txWaitAck ∧
      data = ackCommand (n.frames i).header.nwkSeq control ∧
      (n.rxServiceDataInd data).2 =
        n.setFrame i { n.frames i with state := .txConfirm, control := control } := by
  have hsame : ∃ routes, n = n.keep routes n.duplicates n.macSeqNum n.rxAckControl n.draws :=
    ⟨_, rfl⟩
  rw [rxServiceDataInd]
  split
  case isTrue => exact .inl hsame
  case isFalse =>
    split
    case isTrue hid =>
      rw [txAckReceived]
      split
      case isTrue hlength =>
        split
        case h_1 i hfind =>
          have hi := List.find?_some hfind
          rw [Bool.and_eq_true, decide_eq_true_eq, beq_iff_eq] at hi
          refine .inr ⟨i, data.getD 2 0, hi.1, ?_, rfl⟩
          rw [hi.2]
          exact eq_ackCommand hlength hid
        case h_2 => exact .inl hsame
      case isFalse => exact .inl hsame
    case isFalse =>
      split
      case isTrue => exact .inl ⟨_, rfl⟩
      case isFalse => exact .inl hsame

/-- An indication, and what is still known of the frame after it. -/
theorem rxIndicateFrame_moves {j : FrameSlot} (hj : (n.frames j).state = .rxIndicate)
    {answer : Answer} (hanswer : ∀ r ∈ answer.requests, e.requested r) {ack : Bool}
    (h : n.rxIndicateFrame (n.frames j) answer = (ack, m)) :
    Moves p e n m ∧ m.frames j = n.frames j ∧ m.addr = n.addr ∧
      (ack = true → .indicated (dataInd (n.frames j)) true ∈ m.history) := by
  rw [rxIndicateFrame] at h
  split at h
  case h_1 =>
    cases h
    exact ⟨.refl, rfl, rfl, fun hack => absurd hack Bool.false_ne_true⟩
  case h_2 hservice =>
    cases hcommand : n.rxServiceDataInd (n.frames j).payload with
    | mk taken k =>
      have hcases := rxServiceDataInd_cases (n.frames j).payload n
      rw [hcommand] at h hcases
      rcases Prod.mk.inj h with ⟨rfl, rfl⟩
      have hlast : taken = true → Record.indicated (dataInd (n.frames j)) true ∈
          .indicated (dataInd (n.frames j)) taken :: k.history := by
        rintro rfl
        exact List.mem_cons_self
      rcases hcases with ⟨routes, rfl⟩ | ⟨i, control, hi, hdata, rfl⟩
      · refine ⟨?_, rfl, rfl, hlast⟩
        exact (Move.keep _ _ _ _ _).moves.tail (Move.indicate j _ hj)
      · have hij : j ≠ i := by
          rintro rfl
          rw [hi] at hj
          cases hj
        have hframe : (n.setFrame i { n.frames i with
            state := .txConfirm, control := control }).frames j = n.frames j :=
          Function.update_of_ne hij _ _
        refine ⟨?_, hframe, rfl, hlast⟩
        have hindicate := Move.indicate (p := p) (e := e) (n := n.setFrame i { n.frames i with
          state := .txConfirm, control := control }) j taken (by rw [hframe, hj])
        rw [hframe] at hindicate
        exact (Move.hear i j hi hj hservice ⟨control, hdata⟩ control).moves.tail hindicate
  case h_3 =>
    cases h
    rcases foldl_dataReq_eq { n with
      rxAckControl := answer.control
      history := .indicated (dataInd (n.frames j)) answer.taken :: n.history } answer.requests with
      ⟨queue, lock, count, heq⟩
    constructor
    · have hkeep := Move.keep (p := p) (e := e) (n := n) n.routes n.duplicates n.macSeqNum
        answer.control n.draws
      exact (hkeep.moves.tail (Move.indicate j answer.taken hj)).trans
        (Moves.posts _ hanswer)
    · rw [heq]
      refine ⟨rfl, rfl, ?_⟩
      intro htaken
      rw [htaken]
      exact List.mem_cons_self

theorem rxAck_cause {addr : Word} {header : NwkFrameHeader} {taken : Bool}
    (h : rxAck addr header taken = true) : header.macDstPanId ≠ nwkBroadcastPanId ∧
      (header.ackRequest = true ∧ taken = true ∨
        header.macDstAddr = nwkBroadcastAddr ∧ addr = header.nwkDstAddr) := by
  rw [rxAck] at h
  split at h
  case isTrue => cases h
  case isFalse =>
    split at h
    case isTrue => cases h
    case isFalse hpan =>
      refine ⟨hpan, ?_⟩
      split at h
      case isTrue hbroadcast => exact .inr ⟨hbroadcast.1, hbroadcast.2.1⟩
      case isFalse =>
        split at h
        case isTrue hrequest => exact .inl ⟨hrequest, h⟩
        case isFalse => cases h

theorem rxHandleIndication_moves {j : FrameSlot} (hj : (n.frames j).state = .rxIndicate)
    {answer : Answer} (hanswer : ∀ r ∈ answer.requests, e.requested r) :
    Moves p e n (n.rxHandleIndication p j answer) := by
  rw [rxHandleIndication]
  cases hind : rxIndicateFrame (n.frames j) answer { n with rxAckControl := 0 } with
  | mk taken m =>
    have hkeep : Moves p e n (n.keep n.routes n.duplicates n.macSeqNum 0 n.draws) :=
      (Move.keep _ _ _ _ _).moves
    rcases rxIndicateFrame_moves (p := p) (n := n.keep n.routes n.duplicates n.macSeqNum 0 n.draws)
      hj hanswer hind with ⟨hmoves, hframe, _, hhistory⟩
    apply (hkeep.trans hmoves).trans
    have hframe' : n.frames j = m.frames j := hframe.symm
    have hhistory' : taken = true → .indicated (dataInd (n.frames j)) true ∈ m.history := hhistory
    rw [hframe'] at hj hhistory' ⊢
    dsimp only
    split
    case isTrue hack =>
      rcases rxSendAck_eq p (m.frames j) m with heq | ⟨i, f, macSeqNum, draws, hi, hf, heq⟩
      · rw [heq]
        exact (Move.finish j hj).moves
      · have hcause : m.Acknowledged (m.frames j) := by
          rcases rxAck_cause hack with ⟨hpan, ⟨hrequest, htaken⟩ | hbroadcast⟩
          · exact ⟨hpan, .inl ⟨hrequest, hhistory' htaken⟩⟩
          · exact ⟨hpan, .inr hbroadcast⟩
        rw [heq]
        exact (Move.acknowledge i j m.rxAckControl f hi hj hcause hf).moves.tail
          (Move.keep _ _ _ _ _)
    case isFalse => exact (Move.finish j hj).moves

theorem rxHandle_moves {answers : FrameSlot → Answer}
    (hanswers : ∀ i, ∀ r ∈ (answers i).requests, e.requested r) (n : Nwk) (i : FrameSlot) :
    Moves p e n (rxHandle p answers n i) := by
  rw [rxHandle]
  split
  case h_1 hi => exact rxHandleReceivedFrame_moves hi
  case h_2 hi => exact (Move.secure i false hi).moves
  case h_3 hi => exact rxHandleIndication_moves hi (hanswers i)
  case h_4 hi => exact routeFrame_moves hi
  case h_5 hi => exact (Move.release i (.inl hi)).moves
  case h_6 => exact .refl

theorem rxTaskHandler_moves {answers : FrameSlot → Answer}
    (hanswers : ∀ i, ∀ r ∈ (answers i).requests, e.requested r) (n : Nwk) :
    Moves p e n (n.rxTaskHandler p answers) :=
  moves_foldl (rxHandle_moves hanswers) n (List.finRange 5)

def Action.configures : Action → Bool
  | .setAddr _ => true
  | .setPanId _ => true
  | .openEndpoint _ => true
  | .setSecurityKey _ => true
  | _ => false

/-- The actions of a node that is set up, in surroundings that do no more than they may. -/
def Action.Within (e : Environment) : Action → Prop
  | .phyDataInd ind => e.received ind.data
  | .rxTask answers => ∀ i, ∀ r ∈ (answers i).requests, e.requested r
  | .dataReqTask requests => ∀ r ∈ requests, e.requested r
  | .dataReq params => e.requested params
  | .setAddr _ => False
  | .setPanId _ => False
  | .openEndpoint _ => False
  | .setSecurityKey _ => False
  | _ => True

instance decidableWithin (e : Environment) [DecidablePred e.received]
    [DecidablePred e.requested] : DecidablePred fun a : Action => a.Within e
  | .phyDataInd ind => inferInstanceAs (Decidable (e.received ind.data))
  | .rxTask answers =>
    inferInstanceAs (Decidable (∀ i, ∀ r ∈ (answers i).requests, e.requested r))
  | .dataReqTask requests => inferInstanceAs (Decidable (∀ r ∈ requests, e.requested r))
  | .dataReq params => inferInstanceAs (Decidable (e.requested params))
  | .setAddr _ => isFalse id
  | .setPanId _ => isFalse id
  | .openEndpoint _ => isFalse id
  | .setSecurityKey _ => isFalse id
  | .phyDataConf _ => isTrue trivial
  | .txTask => isTrue trivial
  | .securityTask => isTrue trivial
  | .ackWaitTimer => isTrue trivial
  | .delayTimer => isTrue trivial
  | .duplicateTimer => isTrue trivial

theorem step_moves {a : Action} (ha : a.Within e) (n : Nwk) : Moves p e n (n.step p a) := by
  cases a with
  | phyDataInd ind => exact phyDataInd_moves ha n
  | phyDataConf status => exact phyDataConf_moves status n
  | rxTask answers => exact rxTaskHandler_moves ha n
  | txTask => exact txTaskHandler_moves n
  | dataReqTask requests => exact dataReqTaskHandler_moves ha n
  | securityTask => exact securityTaskHandler_moves n
  | ackWaitTimer =>
    rw [step]
    split
    case isTrue => exact Move.ackWait.moves
    case isFalse => exact .refl
  | delayTimer =>
    rw [step]
    split
    case isTrue => exact Move.delayWait.moves
    case isFalse => exact .refl
  | duplicateTimer =>
    rw [step]
    split
    case isTrue => exact (Move.keep _ _ _ _ _).moves
    case isFalse => exact .refl
  | dataReq params => exact (Move.post params ha).moves
  | setAddr addr => exact ha.elim
  | setPanId panId => exact ha.elim
  | openEndpoint id => exact ha.elim
  | setSecurityKey key => exact ha.elim

end Nwk

end Aquila.Lwm
