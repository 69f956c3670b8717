import Aquila.Library.Ring
import Aquila.Library.Run
import Aquila.Mesh.Packet

/-! # The reception queue

LWM offers each indication to `rxBootstrap` while the payload is in LWM's own frame
buffer; `rxAttendPend` later hands a copy to the handler of the destination endpoint.
Endpoints are four bits wide on the air, so `rxCallbacks` is only indexed below 16.
-/

namespace Aquila.Mesh
open Library

def meshRxBufferSize : ℕ := 4

def nwkIndOptSecured : Byte := 0x02#8

/-- Where the `data` of an indication points: an LWM frame, or the static packet of
`rxAttendPend`. -/
inductive RxData where
  | frame (address : ℕ)
  | delivered
  deriving DecidableEq

/-- `NWK_DataInd_t` -/
structure RxPacket where
  srcAddr : Word
  dstAddr : Word
  srcEndpoint : Byte
  dstEndpoint : Byte
  options : Byte
  data : RxData
  size : Byte
  lqi : Byte
  rssi : Byte

structure RxBufPacket where
  packet : RxPacket
  data : Payload

/-- `RxBufPacket_init` on uninitialised storage, with the indices it writes in `data`. -/
def RxBufPacket.init (bufPacket : RxBufPacket) (packet : RxPacket) (source : ℕ → Byte) :
    Traced ℕ RxBufPacket := do
  let data ← bufPacket.data.copy source packet.size
  pure ⟨packet, data⟩

/-- What a packet tells its reader. -/
structure Indication where
  srcAddr : Word
  dstAddr : Word
  srcEndpoint : Byte
  dstEndpoint : Byte
  options : Byte
  size : Byte
  lqi : Byte
  rssi : Byte
  payload : List Byte
  deriving DecidableEq

def RxPacket.indication (p : RxPacket) (payload : List Byte) : Indication :=
  ⟨p.srcAddr, p.dstAddr, p.srcEndpoint, p.dstEndpoint, p.options, p.size, p.lqi, p.rssi, payload⟩

def RxBufPacket.indication (b : RxBufPacket) : Indication :=
  b.packet.indication (b.data.read b.packet.size)

abbrev Handler := ℕ

/-- A packet taken off the queue, and the call made. -/
structure Attended where
  packet : Indication
  call : Option (Handler × Indication)

/-- An attended packet, with the handlers that were registered when it was taken off. -/
structure Dispatch extends Attended where
  handlers : Byte → Option Handler

structure Rx where
  /-- LWM's frame buffers -/
  frames : ℕ → Byte
  secEnabled : Bool
  rxBuffer : Ring RxBufPacket meshRxBufferSize
  rxCallbacks : Byte → Option Handler
  ackControl : Byte
  /-- the static packet of `rxAttendPend` -/
  bufPacket : RxBufPacket
  /-- indications for which `rxBootstrap` returned true -/
  accepted : List Indication
  dispatched : List Dispatch

inductive RxStep where
  | receive (frames : ℕ → Byte)
  | indicate (ind : RxPacket) (stack : RxBufPacket)
  | attend (nwkBusy : Bool)
  | openEndpoint (id : Byte) (handler : Handler)
  | setSecurityEnabled (enabled : Bool)

namespace Rx

def init (frames : ℕ → Byte) (storage : Fin meshRxBufferSize → RxBufPacket)
    (bufPacket : RxBufPacket) : Rx where
  frames := frames
  secEnabled := false
  rxBuffer := Ring.init (by decide) storage
  rxCallbacks _ := none
  ackControl := 0
  bufPacket := bufPacket
  accepted := []
  dispatched := []

/-- The byte `i` past a data pointer. -/
def deref (s : Rx) : RxData → ℕ → Byte
  | .frame address, i => s.frames (address + i)
  | .delivered, i => s.bufPacket.data.cell i

def indication (s : Rx) (p : RxPacket) : Indication :=
  p.indication ((List.range p.size.toNat).map (s.deref p.data))

def insecure (s : Rx) (ind : RxPacket) : Bool :=
  s.secEnabled && (ind.options &&& nwkIndOptSecured == 0)

/-- `rxBootstrap`, with the indices it writes in the `data` array of its packet. -/
def rxBootstrap (s : Rx) (ind : RxPacket) (stack : RxBufPacket) : Traced ℕ (Bool × Rx) := do
  let s := { s with ackControl := BitVec.ofNat 8 ind.rssi.toInt.natAbs }
  if s.rxBuffer.isFull then pure (false, s)
  else if s.insecure ind then pure (false, s)
  else do
    let bufPacket ← stack.init ind (s.deref ind.data)
    let (inserted, rxBuffer) := s.rxBuffer.insert bufPacket
    if inserted then pure (true, { s with rxBuffer := rxBuffer }) else pure (false, s)

def dispatch (s : Rx) : Option (Handler × Indication) :=
  (s.rxCallbacks s.bufPacket.packet.dstEndpoint).map
    (fun handler => (handler, s.indication s.bufPacket.packet))

/-- `rxAttendPend`, for the given result of `NWK_Busy`. -/
def rxAttendPend (s : Rx) (nwkBusy : Bool) : Option Attended × Rx :=
  if s.rxBuffer.isEmpty || nwkBusy then (none, s)
  else
    match s.rxBuffer.remove with
    | none => (none, s)
    | some (b, rxBuffer) =>
      let s := { s with
        rxBuffer := rxBuffer
        bufPacket := { b with packet.data := .delivered } }
      (some ⟨b.indication, s.dispatch⟩, s)

/-- `AquilaMesh::openEndpoint` -/
def openEndpoint (s : Rx) (id : Byte) (handler : Handler) : Rx :=
  { s with rxCallbacks := Function.update s.rxCallbacks id (some handler) }

def step (s : Rx) : RxStep → Rx
  | .receive frames => { s with frames := frames }
  | .indicate ind stack =>
    let arrived := s.indication ind
    let (accepted, s) := (s.rxBootstrap ind stack).value
    if accepted then { s with accepted := s.accepted ++ [arrived] } else s
  | .attend nwkBusy =>
    let (attended, t) := s.rxAttendPend nwkBusy
    { t with dispatched := t.dispatched ++ attended.toList.map fun a => ⟨a, s.rxCallbacks⟩ }
  | .openEndpoint id handler => s.openEndpoint id handler
  | .setSecurityEnabled enabled => { s with secEnabled := enabled }

def queued (s : Rx) : List Indication := s.rxBuffer.toList.map RxBufPacket.indication

def Carried (s : Rx) : Prop := ∀ i ∈ s.accepted, i.payload.length ≤ maxPayload

instance (s : Rx) : Decidable s.Carried :=
  inferInstanceAs (Decidable (∀ i ∈ s.accepted, i.payload.length ≤ maxPayload))

/-- Handlers are given exactly the accepted indications that are no longer queued. -/
structure Accounted (s : Rx) : Prop where
  order : s.accepted = s.dispatched.map (·.packet) ++ s.queued
  /-- the handler of the destination endpoint, and only it, saw what had arrived -/
  handled : ∀ d ∈ s.dispatched,
    d.call = (d.handlers d.packet.dstEndpoint).map (fun handler => (handler, d.packet))

/-! ### Accepting an indication -/

theorem indication_init (s : Rx) (ind : RxPacket) (stack : RxBufPacket)
    (h : ind.size.toNat ≤ maxPayload) :
    (stack.init ind (s.deref ind.data)).value.indication = s.indication ind := by
  simp only [RxBufPacket.init, Traced.value_bind, Traced.value_pure, RxBufPacket.indication,
    Payload.read_copy _ _ _ h]
  rfl

theorem length_payload_indication (s : Rx) (ind : RxPacket) :
    (s.indication ind).payload.length = ind.size.toNat := by
  simp [indication, RxPacket.indication]

def Refuses (s : Rx) (ind : RxPacket) : Prop :=
  s.rxBuffer.toList.length = meshRxBufferSize ∨ s.insecure ind = true

instance (s : Rx) (ind : RxPacket) : Decidable (s.Refuses ind) :=
  inferInstanceAs (Decidable (_ ∨ _))

theorem rxBootstrap_refused (s : Rx) (ind : RxPacket) (stack : RxBufPacket)
    (h : s.Refuses ind) :
    s.rxBootstrap ind stack =
      pure (false, { s with ackControl := BitVec.ofNat 8 ind.rssi.toInt.natAbs }) := by
  simp only [rxBootstrap]
  rcases h with h | h
  · rw [if_pos ((Ring.isFull_iff _).mpr h)]
  · split
    case isTrue => rfl
    case isFalse => exact if_pos h

theorem rxBootstrap_copied (s : Rx) (ind : RxPacket) (stack : RxBufPacket)
    (h : ¬ s.Refuses ind) :
    s.rxBootstrap ind stack = (do
      let bufPacket ← stack.init ind (s.deref ind.data)
      let (inserted, rxBuffer) := s.rxBuffer.insert bufPacket
      let s := { s with ackControl := BitVec.ofNat 8 ind.rssi.toInt.natAbs }
      if inserted then pure (true, { s with rxBuffer := rxBuffer }) else pure (false, s)) := by
  rw [Refuses, not_or, ← Ring.isFull_iff] at h
  simp only [rxBootstrap]
  rw [if_neg h.1]
  exact if_neg h.2

theorem rxBootstrap_accepted (s : Rx) (ind : RxPacket) (stack : RxBufPacket)
    (h : ¬ s.Refuses ind) :
    ∃ rxBuffer, (s.rxBootstrap ind stack).value = (true, { s with
        ackControl := BitVec.ofNat 8 ind.rssi.toInt.natAbs, rxBuffer := rxBuffer }) ∧
      rxBuffer.toList = s.rxBuffer.toList ++ [(stack.init ind (s.deref ind.data)).value] := by
  have hroom : s.rxBuffer.toList.length < meshRxBufferSize :=
    lt_of_le_of_ne (Ring.length_toList_le _) (not_or.mp h).1
  have hinsert := s.rxBuffer.insert_toList (stack.init ind (s.deref ind.data)).value hroom
  refine ⟨_, ?_, hinsert.2⟩
  rw [rxBootstrap_copied s ind stack h, Traced.value_bind]
  simp only [hinsert.1, if_true, Traced.value_pure]

theorem within_rxBootstrap (s : Rx) (ind : RxPacket) (stack : RxBufPacket) (bound : ℕ) :
    (s.rxBootstrap ind stack).Within (· < bound) ↔ s.Refuses ind ∨ ind.size.toNat ≤ bound := by
  by_cases h : s.Refuses ind
  · rw [rxBootstrap_refused s ind stack h]
    exact iff_of_true (Traced.within_pure _ _) (Or.inl h)
  · rw [rxBootstrap_copied s ind stack h, Traced.within_bind, or_iff_right h, RxBufPacket.init]
    simp only [Traced.within_bind, Payload.within_copy, Traced.within_pure, and_true]
    apply and_iff_left
    split
    case isTrue => exact Traced.within_pure _ _
    case isFalse => exact Traced.within_pure _ _

/-! ### Whole runs -/

theorem indicate_refused (s : Rx) (ind : RxPacket) (stack : RxBufPacket) (h : s.Refuses ind) :
    s.step (.indicate ind stack) =
      { s with ackControl := BitVec.ofNat 8 ind.rssi.toInt.natAbs } := by
  simp only [step, rxBootstrap_refused s ind stack h]
  rfl

theorem indicate_accepted (s : Rx) (ind : RxPacket) (stack : RxBufPacket)
    (h : ¬ s.Refuses ind) :
    ∃ rxBuffer, s.step (.indicate ind stack) = { s with
        ackControl := BitVec.ofNat 8 ind.rssi.toInt.natAbs, rxBuffer := rxBuffer,
        accepted := s.accepted ++ [s.indication ind] } ∧
      rxBuffer.toList = s.rxBuffer.toList ++ [(stack.init ind (s.deref ind.data)).value] := by
  rcases s.rxBootstrap_accepted ind stack h with ⟨rxBuffer, hvalue, hlist⟩
  refine ⟨rxBuffer, ?_, hlist⟩
  simp only [step, hvalue, if_true]

theorem accepted_step (s : Rx) (l : RxStep) : s.accepted <+: (s.step l).accepted := by
  cases l with
  | indicate ind stack =>
    by_cases h : s.Refuses ind
    · rw [indicate_refused s ind stack h]
    · rcases s.indicate_accepted ind stack h with ⟨rxBuffer, hstep, _⟩
      rw [hstep]
      exact List.prefix_append _ _
  | attend nwkBusy =>
    simp only [step, rxAttendPend]
    split
    case isTrue => exact List.prefix_rfl
    case isFalse =>
      split
      case h_1 => exact List.prefix_rfl
      case h_2 => exact List.prefix_rfl
  | receive frames => exact List.prefix_rfl
  | openEndpoint id handler => exact List.prefix_rfl
  | setSecurityEnabled enabled => exact List.prefix_rfl

theorem Accounted.indicate {s : Rx} (h : s.Accounted) (ind : RxPacket) (stack : RxBufPacket)
    (hc : (s.step (.indicate ind stack)).Carried) : (s.step (.indicate ind stack)).Accounted := by
  by_cases hrefuses : s.Refuses ind
  · rw [indicate_refused s ind stack hrefuses]
    exact ⟨h.order, h.handled⟩
  · rcases s.indicate_accepted ind stack hrefuses with ⟨rxBuffer, hstep, hlist⟩
    rw [hstep] at hc ⊢
    have hsize : ind.size.toNat ≤ maxPayload := by
      rw [← s.length_payload_indication]
      exact hc _ (List.mem_append_right _ (List.mem_singleton.mpr rfl))
    constructor
    case order =>
      simp only [queued, hlist, List.map_append, List.map_cons, List.map_nil,
        s.indication_init ind stack hsize, h.order, List.append_assoc]
    case handled => exact h.handled

theorem rxAttendPend_idle (s : Rx) (nwkBusy : Bool)
    (h : s.rxBuffer.toList = [] ∨ nwkBusy = true) : s.rxAttendPend nwkBusy = (none, s) := by
  rw [rxAttendPend, if_pos]
  rw [Bool.or_eq_true, Ring.isEmpty_iff]
  exact h

theorem rxAttendPend_oldest (s : Rx) (b : RxBufPacket) (bs : List RxBufPacket)
    (hlist : s.rxBuffer.toList = b :: bs) :
    ∃ rxBuffer, rxBuffer.toList = bs ∧ s.rxAttendPend false =
      (some ⟨b.indication,
        (s.rxCallbacks b.packet.dstEndpoint).map (fun handler => (handler, b.indication))⟩,
        { s with rxBuffer := rxBuffer, bufPacket := { b with packet.data := .delivered } }) := by
  rcases s.rxBuffer.remove_cons b bs hlist with ⟨rxBuffer, hremove, hrest⟩
  have hempty : s.rxBuffer.isEmpty = false := by
    rw [← Bool.not_eq_true, Ring.isEmpty_iff, hlist]
    exact List.cons_ne_nil b bs
  refine ⟨rxBuffer, hrest, ?_⟩
  simp only [rxAttendPend, hempty, hremove, Bool.or_self, Bool.false_eq_true, if_false]
  rfl

/-- The oldest queued indication goes to the handler of its endpoint, or nothing happens. -/
theorem rxAttendPend_cases (s : Rx) (nwkBusy : Bool) :
    s.rxAttendPend nwkBusy = (none, s) ∨
      ∃ b rxBuffer, s.rxBuffer.toList = b :: rxBuffer.toList ∧ s.rxAttendPend nwkBusy =
        (some ⟨b.indication,
          (s.rxCallbacks b.packet.dstEndpoint).map (fun handler => (handler, b.indication))⟩,
          { s with rxBuffer := rxBuffer, bufPacket := { b with packet.data := .delivered } }) := by
  by_cases hidle : s.rxBuffer.toList = [] ∨ nwkBusy = true
  · exact Or.inl (s.rxAttendPend_idle nwkBusy hidle)
  · right
    rw [not_or, Bool.not_eq_true] at hidle
    rcases hidle with ⟨hne, rfl⟩
    rcases List.exists_cons_of_ne_nil hne with ⟨b, bs, hlist⟩
    rcases s.rxAttendPend_oldest b bs hlist with ⟨rxBuffer, rfl, hattend⟩
    exact ⟨b, rxBuffer, hlist, hattend⟩

theorem Accounted.attend {s : Rx} (h : s.Accounted) (nwkBusy : Bool) :
    (s.step (.attend nwkBusy)).Accounted := by
  rcases s.rxAttendPend_cases nwkBusy with hattend | ⟨b, rxBuffer, hlist, hattend⟩
  · simp only [step, hattend, Option.toList_none, List.map_nil, List.append_nil]
    exact h
  · simp only [step, hattend]
    constructor
    case order =>
      simp only [queued, h.order, hlist, Option.toList_some, List.map_cons,
        List.map_append, List.map_nil, List.append_assoc, List.singleton_append]
    case handled =>
      intro d hd
      rcases List.mem_append.mp hd with hd | hd
      · exact h.handled d hd
      · cases List.mem_singleton.mp hd
        rfl

theorem Accounted.step {s : Rx} (h : s.Accounted) (l : RxStep) (hc : (s.step l).Carried) :
    (s.step l).Accounted := by
  cases l with
  | indicate ind stack => exact h.indicate ind stack hc
  | attend nwkBusy => exact h.attend nwkBusy
  | receive frames => exact ⟨h.order, h.handled⟩
  | openEndpoint id handler => exact ⟨h.order, h.handled⟩
  | setSecurityEnabled enabled => exact ⟨h.order, h.handled⟩

theorem Accounted.run {s : Rx} (h : s.Accounted) (ls : List RxStep)
    (hc : (run Rx.step s ls).Carried) : (Library.run Rx.step s ls).Accounted :=
  run_invariant_of_end (fun t l hc i hi => hc i ((accepted_step t l).subset hi))
    (fun _ l h hc => h.step l hc) h ls hc

theorem init_accounted (frames : ℕ → Byte) (storage : Fin meshRxBufferSize → RxBufPacket)
    (bufPacket : RxBufPacket) : (init frames storage bufPacket).Accounted where
  order := rfl
  handled _ hd := absurd hd List.not_mem_nil

/-- In every run in which the accepted payloads fit, accepted = dispatched ++ queued, handlers
see what arrived, and an indication that is turned away changes neither list. -/
theorem run_dispatches_accepted (frames : ℕ → Byte)
    (storage : Fin meshRxBufferSize → RxBufPacket) (bufPacket : RxBufPacket) (ls : List RxStep)
    (hc : (Library.run step (init frames storage bufPacket) ls).Carried) :
    let s := Library.run step (init frames storage bufPacket) ls
    s.Accounted ∧ ∀ ind stack, (s.rxBootstrap ind stack).value.1 = false →
      (s.rxBootstrap ind stack).value.2.rxBuffer = s.rxBuffer := by
  intro s
  constructor
  · exact (init_accounted frames storage bufPacket).run ls hc
  · intro ind stack hrefused
    by_cases h : s.Refuses ind
    · rw [rxBootstrap_refused s ind stack h]
      rfl
    · rcases s.rxBootstrap_accepted ind stack h with ⟨rxBuffer, hvalue, _⟩
      rw [hvalue] at hrefused
      cases hrefused

def examplePacket : RxPacket :=
  ⟨0x0002#16, 0x0001#16, 13#8, 13#8, 0#8, .frame 0, 2#8, 255#8, 0xC0#8⟩

/-- LWM reuses its frame before the accepted indication reaches the handler. -/
theorem exampleRun_dispatches :
    let s := Library.run step (init (fun i => BitVec.ofNat 8 i) (fun _ => ⟨examplePacket, 0⟩)
        ⟨examplePacket, 0⟩)
      [.openEndpoint 13#8 0, .indicate examplePacket ⟨examplePacket, 0⟩, .receive 0, .attend false]
    s.Accounted ∧ ∀ ind stack, (s.rxBootstrap ind stack).value.1 = false →
      (s.rxBootstrap ind stack).value.2.rxBuffer = s.rxBuffer :=
  run_dispatches_accepted _ _ _ _ (by decide)

end Rx

end Aquila.Mesh
