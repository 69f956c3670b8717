import Aquila.Mesh.TxRuns
import Aquila.WSerial.Transmit

/-! # The serial port on the mesh layer

The port shares the transmission queue with the other modules. Its half of a step is one of
the `Sender`, and the queue's half one of the `Tx`.
-/

namespace Aquila.WSerial
open Library Mesh

def appDataCb : ConfirmFn := .user 0

/-- A packet of another module, which cannot name the static function `appDataCb`. -/
structure OtherPacket where
  packet : TxPacket
  other : packet.confirm ≠ some appDataCb

namespace Sender

/-- The static `packet`, whose data are at address 0. -/
def txPacket (s : Sender) : TxPacket where
  dstAddr := s.destAddress
  dstEndpoint := wserialEndpoint
  srcEndpoint := wserialEndpoint
  options := requestAck s.destAddress
  data := .caller 0
  size := BitVec.ofNat 8 s.txBuffer.toList.length
  confirm := some appDataCb
  status := 0
  control := 0

/-- `packetData`, with the bytes copied from the ring. -/
def packetData (s : Sender) (i : ℕ) : Byte := s.txBuffer.toList.getD i 0

end Sender

def queuePacket (tx : Tx) (packet : TxPacket) (bytes : ℕ → Byte) (stack : TxBufPacket) :
    Bool × Tx :=
  let tx := tx.user (.reuse ⟨fun _ => packet, bytes⟩)
  ((tx.sendPacket packet stack).1, tx.user (.sendPacket 0 stack))

/-- The serial port and the mesh layer below it. -/
structure Stream where
  sender : Sender
  tx : Tx

/-- What the sketch and the other modules call; `stack` is storage of `Mesh.sendPacket`. -/
inductive StreamCall where
  | write (c : Byte) (stack : TxBufPacket)
  | flush (stack : TxBufPacket)
  | loop (now later : BitVec 32) (stack : TxBufPacket)
  | other (p : OtherPacket) (bytes : ℕ → Byte) (stack : TxBufPacket)
  | setSecurityEnabled (enabled : Bool)

/-- Calls, and what the mesh layer and LWM do; a confirmation of another module's packet runs
its callback, which makes calls. -/
inductive StreamStep where
  | call (c : StreamCall)
  | sendNow (nwkBusy : Bool)
  | confirm (status control : Byte) (calls : List StreamCall)

namespace Stream

def init (destAddr : Word) (buffer : Fin bufferSize → Byte) (memory : CallerMemory)
    (storage : Fin meshTxBufferSize → TxBufPacket) (bufPacket : TxBufPacket) : Stream :=
  ⟨.init destAddr buffer, .init memory storage bufPacket⟩

/-- `WirelessSerial::sendPacketNow`, which sets `appDataReqBusy` whatever `Mesh.sendPacket`
returns. -/
def sendPacketNow (s : Stream) (stack : TxBufPacket) : Stream :=
  if s.sender.txBuffer.isEmpty || s.sender.appDataReqBusy then s
  else
    let (sent, tx) := queuePacket s.tx s.sender.txPacket s.sender.packetData stack
    ⟨s.sender.sendPacketNow sent, tx⟩

def call (s : Stream) : StreamCall → Stream
  | .write c stack =>
    let s := if s.sender.txBuffer.isFull then s.sendPacketNow stack else s
    { s with sender := s.sender.store c }
  | .flush stack => s.sendPacketNow stack
  | .loop now later stack =>
    if s.sender.lastTimeSent + sendInterval < now then
      let s := s.sendPacketNow stack
      { s with sender.lastTimeSent := later }
    else s
  | .other p bytes stack => { s with tx := (queuePacket s.tx p.packet bytes stack).2 }
  | .setSecurityEnabled enabled => { s with tx := s.tx.user (.setSecurityEnabled enabled) }

/-- Call a function given the static packet: `appDataCb`, or another module's. -/
def callback (s : Stream) (f : Option ConfirmFn) (calls : List StreamCall) : Stream :=
  let s := { s with tx := s.tx.callback f [] }
  if f = none then s
  else if f = some appDataCb then { s with sender := s.sender.step .appDataCb }
  else run call s calls

def txConfirm (s : Stream) (calls : List StreamCall) : Stream :=
  let s := { s with tx.txBusy := false }
  let s := s.callback s.tx.txUserConfirm calls
  { s with tx.txUserConfirm := none }

def nwkDataReqConfirm (s : Stream) (status control : Byte) (calls : List StreamCall) : Stream :=
  if s.tx.nwkDataReqQueue = 0 then s
  else
    let s := { s with tx := s.tx.release status control }
    match s.tx.bufPacket.packet.confirm with
    | some .txConfirm => s.txConfirm calls
    | f => s.callback f calls

def step (s : Stream) : StreamStep → Stream
  | .call c => s.call c
  | .sendNow nwkBusy => { s with tx := s.tx.sendNow nwkBusy }
  | .confirm status control calls => s.nwkDataReqConfirm status control calls

/-! ### The two halves -/

theorem sendPacketNow_idle (s : Stream) (stack : TxBufPacket) (h : ¬ s.sender.Hands) :
    s.sendPacketNow stack = s := by
  rw [sendPacketNow, if_pos (s.sender.idle_iff.mpr h)]

theorem sendPacketNow_hands (s : Stream) (stack : TxBufPacket) (h : s.sender.Hands) :
    s.sendPacketNow stack =
      let sent := queuePacket s.tx s.sender.txPacket s.sender.packetData stack
      ⟨s.sender.sendPacketNow sent.1, sent.2⟩ := by
  rw [sendPacketNow, if_neg (fun hidle => s.sender.idle_iff.mp hidle h)]

/-- What is handed over is the message of the abstract sender: the bytes of the ring, in order. -/
theorem message_txPacket (s : Sender) (tx : Tx) :
    (tx.user (.reuse ⟨fun _ => s.txPacket, s.packetData⟩)).message s.txPacket =
      s.packet.message := by
  have hlength : s.txBuffer.toList.length < 2 ^ 8 := by
    have hused := s.txBuffer.used_lt
    have hsize : bufferSize = 105 := rfl
    rw [OpenRing.length_toList]
    omega
  have hsize : s.txPacket.size.toNat = s.txBuffer.toList.length := by
    rw [Sender.txPacket, BitVec.toNat_ofNat, Nat.mod_eq_of_lt hlength]
  rw [Tx.message, TxPacket.message, hsize]
  congr 1
  apply List.ext_getElem
  · rw [List.length_map, List.length_range]
  · intro i hi hi'
    rw [List.getElem_map, List.getElem_range]
    change s.txBuffer.toList.getD (0 + i) 0 = s.txBuffer.toList[i]
    rw [Nat.zero_add, List.getD_eq_getElem]

theorem sender_sendPacketNow (s : Stream) (stack : TxBufPacket) :
    ∃ sent, (s.sendPacketNow stack).sender = s.sender.sendPacketNow sent := by
  by_cases h : s.sender.Hands
  · rw [s.sendPacketNow_hands stack h]
    exact ⟨_, rfl⟩
  · rw [s.sendPacketNow_idle stack h]
    exact ⟨true, (s.sender.sendPacketNow_idle true h).symm⟩

theorem tx_sendPacketNow (s : Stream) (stack : TxBufPacket) :
    ∃ actions, (s.sendPacketNow stack).tx = run Tx.user s.tx actions := by
  by_cases h : s.sender.Hands
  · rw [s.sendPacketNow_hands stack h]
    exact ⟨[.reuse _, .sendPacket 0 stack], rfl⟩
  · rw [s.sendPacketNow_idle stack h]
    exact ⟨[], rfl⟩

theorem sender_call (s : Stream) (c : StreamCall) :
    ∃ ls, (s.call c).sender = run Sender.step s.sender ls := by
  cases c with
  | write c stack =>
    rcases s.sender_sendPacketNow stack with ⟨sent, hsent⟩
    constructor
    case w => exact [.write c sent]
    case h =>
      rw [run_cons, run_nil, Sender.step, call]
      cases hfull : s.sender.txBuffer.isFull with
      | false =>
        rw [s.sender.write_room c sent hfull]
        rfl
      | true =>
        rw [s.sender.write_full c sent hfull, ← hsent]
        rfl
  | flush stack =>
    rcases s.sender_sendPacketNow stack with ⟨sent, hsent⟩
    exact ⟨[.flush sent], hsent⟩
  | loop now later stack =>
    rcases s.sender_sendPacketNow stack with ⟨sent, hsent⟩
    constructor
    case w => exact [.loop now later sent]
    case h =>
      rw [run_cons, run_nil, Sender.step, call, Sender.loop]
      split
      case isTrue => rw [← hsent]
      case isFalse => rfl
  | other p bytes stack => exact ⟨[], rfl⟩
  | setSecurityEnabled enabled => exact ⟨[], rfl⟩

theorem tx_call (s : Stream) (c : StreamCall) :
    ∃ actions, (s.call c).tx = run Tx.user s.tx actions := by
  cases c with
  | write c stack =>
    rw [call]
    cases hfull : s.sender.txBuffer.isFull with
    | false => exact ⟨[], rfl⟩
    | true => exact s.tx_sendPacketNow stack
  | flush stack => exact s.tx_sendPacketNow stack
  | loop now later stack =>
    rw [call]
    split
    case isTrue => exact s.tx_sendPacketNow stack
    case isFalse => exact ⟨[], rfl⟩
  | other p bytes stack => exact ⟨[.reuse _, .sendPacket 0 stack], rfl⟩
  | setSecurityEnabled enabled => exact ⟨[.setSecurityEnabled enabled], rfl⟩

theorem sender_callback (s : Stream) (f : Option ConfirmFn) (calls : List StreamCall) :
    ∃ ls, (s.callback f calls).sender = run Sender.step s.sender ls := by
  rw [callback]
  split
  case isTrue => exact ⟨[], rfl⟩
  case isFalse =>
    split
    case isTrue => exact ⟨[.appDataCb], rfl⟩
    case isFalse => exact run_project (f := sender) sender_call _ calls

theorem tx_callback (s : Stream) (f : Option ConfirmFn) (calls : List StreamCall) :
    ∃ actions, (s.callback f calls).tx = s.tx.callback f actions := by
  rw [callback]
  split
  case isTrue => exact ⟨[], rfl⟩
  case isFalse hf =>
    split
    case isTrue => exact ⟨[], rfl⟩
    case isFalse =>
      rcases Option.ne_none_iff_exists'.mp hf with ⟨fn, rfl⟩
      exact run_project (f := tx) tx_call { s with tx := s.tx.callback (some fn) [] } calls

theorem sender_step (s : Stream) (l : StreamStep) :
    ∃ ls, (s.step l).sender = run Sender.step s.sender ls := by
  cases l with
  | call c => exact s.sender_call c
  | sendNow nwkBusy => exact ⟨[], rfl⟩
  | confirm status control calls =>
    rw [step, nwkDataReqConfirm]
    split
    case isTrue => exact ⟨[], rfl⟩
    case isFalse =>
      dsimp only
      split
      case h_1 => exact sender_callback _ _ calls
      case h_2 => exact sender_callback _ _ calls

theorem tx_step (s : Stream) (l : StreamStep) :
    ∃ ls, (s.step l).tx = run Tx.step s.tx ls := by
  cases l with
  | call c =>
    rcases s.tx_call c with ⟨actions, hactions⟩
    constructor
    case w => exact actions.map .user
    case h =>
      rw [run, List.foldl_map]
      exact hactions
  | sendNow nwkBusy => exact ⟨[.sendNow nwkBusy], rfl⟩
  | confirm status control calls =>
    by_cases hqueue : s.tx.nwkDataReqQueue = 0
    · rw [step, nwkDataReqConfirm, if_pos hqueue]
      exact ⟨[], rfl⟩
    · rw [step, nwkDataReqConfirm, if_neg hqueue]
      dsimp only
      split
      case h_1 hfn =>
        rcases tx_callback { s with tx := { s.tx.release status control with txBusy := false } }
          s.tx.txUserConfirm calls with ⟨actions, hactions⟩
        constructor
        case w => exact [.confirm status control actions]
        case h =>
          rw [run_cons, run_nil, Tx.step, s.tx.nwkDataReqConfirm_txConfirm hqueue hfn]
          exact congrArg (fun tx : Tx => { tx with txUserConfirm := none }) hactions
      case h_2 hfn =>
        rcases tx_callback { s with tx := s.tx.release status control }
          s.tx.bufPacket.packet.confirm calls with ⟨actions, hactions⟩
        constructor
        case w => exact [.confirm status control actions]
        case h =>
          rw [run_cons, run_nil, Tx.step, s.tx.nwkDataReqConfirm_callback hqueue hfn]
          exact hactions

/-- Every run is a run of the port together with a run of the transmission queue. -/
theorem run_refines (s : Stream) (ls : List StreamStep) :
    (∃ ls', (run step s ls).sender = run Sender.step s.sender ls') ∧
      ∃ ls', (run step s ls).tx = run Tx.step s.tx ls' :=
  ⟨run_project (f := sender) sender_step s ls, run_project (f := tx) tx_step s ls⟩

end Stream

end Aquila.WSerial
