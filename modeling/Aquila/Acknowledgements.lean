import Aquila.Bridge.ParseCommand
import Aquila.Protocol.Node
import Aquila.Services.Requests
import Aquila.WSerial.Transmit

/-! # Acknowledgement requests

Every client of the mesh layer fills in a static packet of its own. All of them set its
options from the destination, except `MeshControl`: a ping always asks to be acknowledged,
and `sendEUI` leaves the options as the last ping, or the reset, left them.
-/

namespace Aquila
open Library Mesh

def meshCmdResEUI : Byte := 1#8

/-- The files that have a static packet. -/
inductive Client where
  | protocol
  | services
  | serial
  | bridge
  | control
  deriving DecidableEq

/-- The calls that fill in a packet, and the rest of the address assignment. -/
inductive ClientCall where
  | send (version : Byte) (address : Word) (command : List Byte)
  | service (destAddr : Word) (method : Byte) (name data : List Byte)
  | sendPacketNow (port : WSerial.Sender)
  | txSend (c : Bridge.Command)
  | assignAddr (id : Fin 8 → Byte)
  | ping
  | pingCb (status : Byte)
  | sendEUI (dest : Word) (euiAddr : Fin 8 → Byte)

/-- A call, with the result of `Mesh.sendPacket` if it gets there. -/
structure ClientStep where
  call : ClientCall
  taken : Bool

/-- The static packets, the address assignment with its EUI, and the packets queued. -/
structure Clients where
  packet : Client → Outgoing
  control : MeshControl
  assigning : Option (Fin 8 → Byte)
  queued : List Outgoing

def Mesh.Outgoing.Asks (p : Outgoing) : Prop := p.options &&& nwkOptAckRequest ≠ 0

instance (p : Outgoing) : Decidable p.Asks :=
  inferInstanceAs (Decidable (p.options &&& nwkOptAckRequest ≠ 0))

namespace Clients

/-- Statics are zero after a reset. -/
def reset : Clients where
  packet _ := ⟨⟨0, 0, 0, []⟩, 0⟩
  control := MeshControl.init
  assigning := none
  queued := []

/-- Give a static packet, as it is now filled in, to `Mesh.sendPacket`. -/
def hand (s : Clients) (client : Client) (p : Outgoing) (taken : Bool) : Clients :=
  { s with
    packet := Function.update s.packet client p
    queued := if taken then s.queued ++ [p] else s.queued }

def Pings (s : Clients) : Prop :=
  s.assigning ≠ none ∧ s.control.waitingAddrConfirm = false ∧ s.control.addrAssignSuccess = false

instance (s : Clients) : Decidable s.Pings := inferInstanceAs (Decidable (_ ∧ _ ∧ _))

/-- The announcement of an EUI, without its options. -/
def euiMessage (dest : Word) (euiAddr : Fin 8 → Byte) : Message :=
  ⟨dest, meshAddrEndpoint, meshAddrEndpoint, meshCmdResEUI :: List.ofFn euiAddr⟩

def step (s : Clients) (l : ClientStep) : Clients :=
  match l.call with
  | .send version address command =>
    let p := Protocol.send version address command
    s.hand .protocol { s.packet .protocol with message := p.message, options := p.options } l.taken
  | .service destAddr method name data =>
    let p := Services.servicePacket destAddr method name data
    s.hand .services { s.packet .services with message := p.message, options := p.options } l.taken
  | .sendPacketNow port =>
    if port.txBuffer.isEmpty || port.appDataReqBusy then s
    else
      s.hand .serial
        { s.packet .serial with message := port.packet.message, options := port.packet.options }
        l.taken
  | .txSend c =>
    s.hand .bridge
      { s.packet .bridge with message := c.message, options := requestAck c.message.dstAddr }
      l.taken
  | .assignAddr id =>
    { s with control.genAddr := MeshControl.firstAddr id, assigning := some id }
  | .ping =>
    if s.Pings then
      { s with control := s.control.ping }.hand .control s.control.packet l.taken
    else s
  | .pingCb status =>
    match s.assigning with
    | none => s
    | some id => { s with control := (s.control.pingCb status).retry id }
  | .sendEUI dest euiAddr =>
    s.hand .control { s.packet .control with message := euiMessage dest euiAddr } l.taken

/-- Every packet queued asks for an acknowledgement exactly if it is not a broadcast. -/
def Acknowledged (s : Clients) : Prop :=
  ∀ p ∈ s.queued, p.Asks ↔ p.message.dstAddr ≠ broadcast

/-- No ping is queued for the broadcast address, and an EUI is announced to all on a node that has
not sent a ping, to one address on a node that has. -/
def Heeds (s : Clients) (l : ClientStep) : Prop :=
  l.taken = true →
    match l.call with
    | .ping => s.Pings → s.control.genAddr ≠ broadcast
    | .sendEUI dest _ => dest = broadcast ↔ s.control.pings = []
    | _ => True

/-- The static packet of `MeshControl` has the options of the last ping. -/
def Leftover (s : Clients) : Prop := (s.packet .control).Asks ↔ s.control.pings ≠ []

theorem asks_iff {p : Outgoing} (h : p.options = requestAck p.message.dstAddr) :
    p.Asks ↔ p.message.dstAddr ≠ broadcast := by
  rw [Outgoing.Asks, h, requestAck]
  split
  case isTrue hall => exact iff_of_false (by decide) (not_not.mpr hall)
  case isFalse hone => exact iff_of_true (by decide) hone

theorem asks_ping (c : MeshControl) : c.packet.Asks := by
  change nwkOptAckRequest &&& nwkOptAckRequest ≠ 0
  decide

/-! ### One packet -/

theorem queued_hand (s : Clients) (client : Client) (p : Outgoing) (taken : Bool) :
    (s.hand client p taken).Acknowledged ↔
      s.Acknowledged ∧ (taken = true → (p.Asks ↔ p.message.dstAddr ≠ broadcast)) := by
  rw [Acknowledged, hand, Acknowledged]
  cases taken with
  | false => simp
  | true =>
    simp only [if_true, List.forall_mem_append, List.forall_mem_singleton, forall_const]

theorem packet_hand_self (s : Clients) (client : Client) (p : Outgoing) (taken : Bool) :
    (s.hand client p taken).packet client = p := by
  simp [hand]

theorem packet_hand_of_ne (s : Clients) {client client' : Client} (h : client' ≠ client)
    (p : Outgoing) (taken : Bool) : (s.hand client p taken).packet client' = s.packet client' := by
  simp [hand, h]

/-- What a step does: it fills in the packet of another client as its destination requires, it
pings, it announces, or it sends nothing. -/
inductive Effect (s : Clients) (l : ClientStep) : Clients → Prop where
  | fills (hheeds : s.Heeds l) (client : Client) (hclient : .control ≠ client) (p : Outgoing)
      (hp : p.options = requestAck p.message.dstAddr) : Effect s l (s.hand client p l.taken)
  | pings (hcall : l.call = .ping) (hpings : s.Pings) :
      Effect s l ({ s with control := s.control.ping }.hand .control s.control.packet l.taken)
  | announces (dest : Word) (euiAddr : Fin 8 → Byte) (hcall : l.call = .sendEUI dest euiAddr) :
      Effect s l (s.hand .control
        { s.packet .control with message := euiMessage dest euiAddr } l.taken)
  | sendsNothing (hheeds : s.Heeds l) (control : MeshControl)
      (assigning : Option (Fin 8 → Byte)) (hcontrol : control.pings = s.control.pings) :
      Effect s l { s with control := control, assigning := assigning }

theorem pings_pingCb (c : MeshControl) (status : Byte) (id : Fin 8 → Byte) :
    ((c.pingCb status).retry id).pings = c.pings := by
  by_cases hstatus : status = nwkSuccessStatus
  · rw [MeshControl.pingCb, if_pos hstatus]
    rfl
  · rw [MeshControl.pingCb, if_neg hstatus]
    rfl

theorem step_effect (s : Clients) (l : ClientStep) : s.Effect l (s.step l) := by
  rcases l with ⟨call, taken⟩
  cases call with
  | send version address command =>
    exact .fills (fun _ => trivial) .protocol (by decide) _ rfl
  | service destAddr method name data =>
    exact .fills (fun _ => trivial) .services (by decide) _ rfl
  | sendPacketNow port =>
    rw [step]
    dsimp only
    split
    case isTrue => exact .sendsNothing (fun _ => trivial) s.control s.assigning rfl
    case isFalse => exact .fills (fun _ => trivial) .serial (by decide) _ rfl
  | txSend c => exact .fills (fun _ => trivial) .bridge (by decide) _ rfl
  | assignAddr id => exact .sendsNothing (fun _ => trivial) _ (some id) rfl
  | ping =>
    rw [step]
    dsimp only
    split
    case isTrue h => exact .pings rfl h
    case isFalse h =>
      have hheeds : s.Heeds ⟨.ping, taken⟩ := fun _ hpings => absurd hpings h
      exact .sendsNothing hheeds s.control s.assigning rfl
  | pingCb status =>
    rw [step]
    dsimp only
    split
    case h_1 => exact .sendsNothing (fun _ => trivial) s.control s.assigning rfl
    case h_2 id hid =>
      exact .sendsNothing (fun _ => trivial) _ s.assigning (pings_pingCb s.control status id)
  | sendEUI dest euiAddr => exact .announces dest euiAddr rfl

/-! ### Runs -/

theorem Leftover.step {s : Clients} (h : s.Leftover) (l : ClientStep) : (s.step l).Leftover := by
  have heffect := s.step_effect l
  generalize s.step l = s' at heffect ⊢
  cases heffect with
  | fills hheeds client hclient p hp =>
    rw [Leftover, packet_hand_of_ne s hclient]
    exact h
  | pings hcall hpings =>
    rw [Leftover, packet_hand_self]
    exact iff_of_true (asks_ping s.control) (by simp [hand, MeshControl.ping])
  | announces dest euiAddr hcall =>
    rw [Leftover, packet_hand_self]
    exact h
  | sendsNothing hheeds control assigning hcontrol =>
    rw [Leftover]
    dsimp only
    rw [hcontrol]
    exact h

/-- After any step, the packets queued are as they should be exactly if they were before and the
step heeds what the last ping left. -/
theorem acknowledged_step_iff {s : Clients} (h : s.Leftover) (l : ClientStep) :
    (s.step l).Acknowledged ↔ s.Acknowledged ∧ s.Heeds l := by
  have heffect := s.step_effect l
  generalize s.step l = s' at heffect ⊢
  cases heffect with
  | fills hheeds client hclient p hp =>
    rw [queued_hand]
    exact and_congr_right (fun _ => iff_of_true (fun _ => asks_iff hp) hheeds)
  | pings hcall hpings =>
    rw [queued_hand, Heeds, hcall]
    apply and_congr Iff.rfl
    apply imp_congr_right
    intro _
    rw [iff_true_left (asks_ping s.control), forall_prop_of_true hpings]
    rfl
  | announces dest euiAddr hcall =>
    rw [queued_hand, Heeds, hcall]
    apply and_congr_right
    intro _
    apply imp_congr_right
    intro _
    have hleft : (Outgoing.mk (euiMessage dest euiAddr) (s.packet .control).options).Asks ↔
        s.control.pings ≠ [] := h
    rw [hleft]
    exact Iff.trans not_iff_not (iff_comm)
  | sendsNothing hheeds control assigning hcontrol => exact (and_iff_left hheeds).symm

theorem Acknowledged.of_step {s : Clients} {l : ClientStep} (h : (s.step l).Acknowledged) :
    s.Acknowledged := by
  have heffect := s.step_effect l
  generalize s.step l = s' at heffect h
  cases heffect with
  | fills => exact ((queued_hand _ _ _ _).mp h).1
  | pings => exact ((queued_hand _ _ _ _).mp h).1
  | announces => exact ((queued_hand _ _ _ _).mp h).1
  | sendsNothing => exact h

theorem reset_leftover : reset.Leftover :=
  iff_of_false (by decide) (not_not.mpr rfl)

theorem reset_acknowledged : reset.Acknowledged := fun _ hp => absurd hp List.not_mem_nil

/-- The packets queued in a run ask for an acknowledgement exactly if they are not broadcasts, if
and only if the run heeds what its pings leave in the packet of `MeshControl`. -/
theorem run_acknowledged_iff (ls : List ClientStep) :
    (run step reset ls).Acknowledged ↔ Guarded step Heeds reset ls :=
  run_iff_guarded (I := fun s : Clients => s.Leftover ∧ s.Acknowledged)
    (fun _ l h hl => ⟨h.1.step l, (acknowledged_step_iff h.1 l).mpr ⟨h.2, hl⟩⟩)
    (fun _ l h hl hstep => hl ((acknowledged_step_iff h.1 l).mp hstep).2)
    (fun _ _ h hstep => h hstep.of_step) (fun _ h => h.2) (fun _ h => h)
    ⟨reset_leftover, reset_acknowledged⟩ ls

/-- An announcement to the hub by a node with a manual address, and one to all nodes by a node that
has assigned itself an address. -/
theorem not_acknowledged :
    ¬ (run step reset [⟨.sendEUI 0x00FF#16 0, true⟩]).Acknowledged ∧
      ¬ (run step reset [⟨.assignAddr 0, true⟩, ⟨.ping, true⟩, ⟨.pingCb 0x10#8, true⟩,
        ⟨.sendEUI broadcast 0, true⟩]).Acknowledged := by
  constructor
  · intro h
    have hheeds := ((acknowledged_step_iff reset_leftover ⟨.sendEUI 0x00FF#16 0, true⟩).mp h).2 rfl
    exact absurd (hheeds.mpr rfl) (by decide)
  · intro h
    have hleft := ((reset_leftover.step ⟨.assignAddr 0, true⟩).step ⟨.ping, true⟩).step
      ⟨.pingCb 0x10#8, true⟩
    have hheeds := ((acknowledged_step_iff hleft ⟨.sendEUI broadcast 0, true⟩).mp h).2 rfl
    exact absurd (hheeds.mp rfl) (by decide +kernel)

end Clients

end Aquila
