import Aquila.Library.Memory
import Aquila.Mesh.Rx

/-! # The pending protocol packet

The handler of the protocol endpoint keeps one packet in static storage, and the
protocol loop parses it. Mesh and protocol loops run in any order.
-/

namespace Aquila.Protocol
open Library Mesh

/-- `receivedPacket`, `receivedData` and `flagGotPacket` -/
structure Received where
  srcAddr : Word
  size : Byte
  receivedData : Payload
  flagGotPacket : Byte

abbrev Arrival := Word × List Byte

namespace Received

/-- `Protocol__rxHandler`, with the indices it writes in `receivedData`. -/
def rxHandler (p : Received) (ind : Indication) : Traced ℕ Received := do
  let receivedData ← p.receivedData.copy (fun i => ind.payload.getD i 0) ind.size
  pure
    { p with
      srcAddr := ind.srcAddr
      size := ind.size
      receivedData := receivedData
      flagGotPacket := p.flagGotPacket + 1 }

def arrival (p : Received) : Arrival := (p.srcAddr, p.receivedData.read p.size)

/-- `AquilaProtocol::loop`, with the packet it parses. -/
def loop (p : Received) : Option Arrival × Received :=
  if 0 < p.flagGotPacket then (some p.arrival, { p with flagGotPacket := 0 }) else (none, p)

def pending (p : Received) : Option Arrival := if 0 < p.flagGotPacket then some p.arrival else none

theorem loop_parses (p : Received) : p.loop.1 = p.pending ∧ p.loop.2.pending = none := by
  unfold loop pending
  split
  case isTrue => exact ⟨rfl, rfl⟩
  case isFalse => exact ⟨rfl, rfl⟩

theorem arrival_rxHandler (p : Received) (ind : Indication) (hsize : ind.size.toNat ≤ maxPayload)
    (hlength : ind.payload.length = ind.size.toNat) :
    (p.rxHandler ind).value.arrival = (ind.srcAddr, ind.payload) := by
  have hpayload : (List.range ind.size.toNat).map (fun i => ind.payload.getD i 0) =
      ind.payload := by
    have hcells := map_getD_range_append [] ind.payload 0
    rw [hlength] at hcells
    simpa using hcells
  simp only [rxHandler, arrival, Traced.value_bind, Traced.value_pure,
    Payload.read_copy _ _ _ hsize, hpayload]

theorem pending_rxHandler (p : Received) (ind : Indication) (hflag : p.flagGotPacket = 0)
    (hsize : ind.size.toNat ≤ maxPayload) (hlength : ind.payload.length = ind.size.toNat) :
    (p.rxHandler ind).value.pending = some (ind.srcAddr, ind.payload) := by
  have hraised : 0 < (p.rxHandler ind).value.flagGotPacket := by
    simp [rxHandler, hflag]
  rw [pending, if_pos hraised, p.arrival_rxHandler ind hsize hlength]

end Received

/-- The handler that `begin` registers for the protocol endpoint. -/
def protocolHandler : Handler := 0

/-- A node between its two loops. The last fields record what was dispatched to the
protocol handler and what was parsed. -/
structure Station where
  rx : Rx
  received : Received
  dispatched : List Arrival
  parsed : List Arrival

inductive StationStep where
  | mesh (l : RxStep)
  | aquilaLoop

namespace Station

/-- The state left by `AquilaProtocol::begin`; endpoint 13 is the protocol's. -/
def init (rx : Rx) (received : Received) : Station where
  rx := rx.openEndpoint 13#8 protocolHandler
  received := { received with flagGotPacket := 0 }
  dispatched := []
  parsed := []

def protocolCall (s : Station) : RxStep → Option Indication
  | .attend nwkBusy =>
    match (s.rx.rxAttendPend nwkBusy).1 with
    | some ⟨_, some (handler, ind)⟩ => if handler = protocolHandler then some ind else none
    | _ => none
  | _ => none

def step (s : Station) : StationStep → Station
  | .mesh l =>
    match s.protocolCall l with
    | some ind =>
      { s with
        rx := s.rx.step l
        received := (s.received.rxHandler ind).value
        dispatched := s.dispatched ++ [(ind.srcAddr, ind.payload)] }
    | none => { s with rx := s.rx.step l }
  | .aquilaLoop =>
    let (parsed, received) := s.received.loop
    { s with received := received, parsed := s.parsed ++ parsed.toList }

/-- dispatched = parsed ++ at most the pending packet -/
def Lossless (s : Station) : Prop := s.dispatched = s.parsed ++ s.received.pending.toList

instance (s : Station) : Decidable s.Lossless :=
  inferInstanceAs (Decidable (s.dispatched = s.parsed ++ s.received.pending.toList))

/-- A packet that fits is dispatched to the protocol only when the last one was parsed. -/
def Unhurried (s : Station) : StationStep → Prop
  | .mesh l => ∀ ind, s.protocolCall l = some ind →
      s.received.flagGotPacket = 0 ∧ ind.size.toNat ≤ maxPayload
  | .aquilaLoop => True

instance (s : Station) : ∀ l, Decidable (s.Unhurried l)
  | .mesh l =>
    match h : s.protocolCall l with
    | none => isTrue (fun _ hcall => absurd (h.symm.trans hcall) (Option.some_ne_none _).symm)
    | some ind =>
      decidable_of_iff (s.received.flagGotPacket = 0 ∧ ind.size.toNat ≤ maxPayload) (by
        simp [Unhurried, h])
  | .aquilaLoop => isTrue trivial

theorem length_protocolCall {s : Station} {l : RxStep} {ind : Indication}
    (h : s.protocolCall l = some ind) : ind.payload.length = ind.size.toNat := by
  cases l with
  | attend nwkBusy =>
    rcases s.rx.rxAttendPend_cases nwkBusy with hattend | ⟨b, rxBuffer, _, hattend⟩
    · simp [protocolCall, hattend] at h
    · have hind : ind = b.indication := by
        simp only [protocolCall, hattend] at h
        cases hhandler : s.rx.rxCallbacks b.packet.dstEndpoint with
        | none => simp [hhandler] at h
        | some handler =>
          simp only [hhandler, Option.map_some] at h
          split at h
          case isTrue => exact (Option.some.inj h).symm
          case isFalse => cases h
      rw [hind]
      simp [RxBufPacket.indication, RxPacket.indication, Payload.read]
  | _ => exact absurd h (Option.some_ne_none _).symm

theorem init_lossless (rx : Rx) (received : Received) : (init rx received).Lossless := rfl

theorem Lossless.step {s : Station} (h : s.Lossless) (l : StationStep) (hl : s.Unhurried l) :
    (s.step l).Lossless := by
  cases l with
  | mesh l =>
    cases hcall : s.protocolCall l with
    | none =>
      simp only [Station.step, hcall]
      exact h
    | some ind =>
      rcases hl ind hcall with ⟨hflag, hsize⟩
      simp only [Station.step, hcall]
      have hpending : s.received.pending = none := by simp [Received.pending, hflag]
      rw [Lossless, hpending, Option.toList_none, List.append_nil] at h
      rw [Lossless, Received.pending_rxHandler _ _ hflag hsize (length_protocolCall hcall), h]
      rfl
  | aquilaLoop =>
    rcases s.received.loop_parses with ⟨hparsed, hpending⟩
    change s.dispatched =
      (s.parsed ++ s.received.loop.1.toList) ++ s.received.loop.2.pending.toList
    rw [hparsed, hpending, h, Option.toList_none, List.append_nil]

def Fits (s : Station) : StationStep → Prop
  | .mesh l => ∀ ind, s.protocolCall l = some ind → ind.size.toNat ≤ maxPayload
  | .aquilaLoop => True

/-- A packet has been dispatched that is neither parsed nor pending. -/
def Overwritten (s : Station) : Prop :=
  s.parsed.length + s.received.pending.toList.length < s.dispatched.length

theorem pending_le_one (received : Received) : received.pending.toList.length ≤ 1 := by
  cases received.pending <;> simp

/-- A packet that fits and comes before the last one was parsed overwrites it. -/
theorem Lossless.overwritten {s : Station} (h : s.Lossless) {l : StationStep} (hfits : s.Fits l)
    (hl : ¬ s.Unhurried l) : (s.step l).Overwritten := by
  cases l with
  | mesh l =>
    simp only [Unhurried, not_forall] at hl
    rcases hl with ⟨ind, hcall, hhurried⟩
    have hflag : s.received.flagGotPacket ≠ 0 := fun hzero => hhurried ⟨hzero, hfits ind hcall⟩
    have hpending : s.received.pending = some s.received.arrival :=
      if_pos ((BitVec.pos_iff_ne_zero _).mpr hflag)
    have hone := pending_le_one (s.received.rxHandler ind).value
    rw [Lossless, hpending] at h
    simp only [Station.step, hcall, Overwritten, h, List.length_append, List.length_singleton,
      Option.toList_some]
    omega
  | aquilaLoop => exact absurd trivial hl

theorem Overwritten.step {s : Station} (h : s.Overwritten) (l : StationStep) :
    (s.step l).Overwritten := by
  cases l with
  | mesh l =>
    cases hcall : s.protocolCall l with
    | none =>
      simp only [Station.step, hcall]
      exact h
    | some ind =>
      have hone := pending_le_one (s.received.rxHandler ind).value
      rw [Overwritten] at h
      simp only [Station.step, hcall, Overwritten, List.length_append, List.length_singleton]
      omega
  | aquilaLoop =>
    rcases s.received.loop_parses with ⟨hparsed, hpending⟩
    rw [Overwritten] at h
    simp only [Station.step, Overwritten, hparsed, hpending, List.length_append,
      Option.toList_none, List.length_nil]
    omega

theorem Overwritten.lossy {s : Station} (h : s.Overwritten) : ¬ s.Lossless := by
  intro hlossless
  rw [Overwritten, hlossless, List.length_append] at h
  exact Nat.lt_irrefl _ h

/-- In every run whose steps are all unhurried, each packet dispatched to the protocol is
parsed exactly once, in order, and at most the last one is still pending. No other run whose
packets fit has this. -/
theorem run_lossless (rx : Rx) (received : Received) (ls : List StationStep) :
    (Guarded step Unhurried (init rx received) ls →
      (run step (init rx received) ls).Lossless) ∧
    (Guarded step Fits (init rx received) ls → (run step (init rx received) ls).Lossless →
      Guarded step Unhurried (init rx received) ls) := by
  have hinit := init_lossless rx received
  constructor
  · exact run_guarded (I := Lossless) (fun _ l hs hl => hs.step l hl) hinit
  · exact guarded_of_kept (fun _ l hs hl => hs.step l hl) (fun _ l hs => hs.overwritten)
      (fun _ l hs => hs.step l) (fun _ hs => hs.lossy) hinit

def exampleStation : Station :=
  init (Rx.init (fun i => BitVec.ofNat 8 i) (fun _ => ⟨Rx.examplePacket, 0⟩)
    ⟨Rx.examplePacket, 0⟩) ⟨0, 0, 0, 0⟩

def arrive (address : ℕ) : StationStep :=
  .mesh (.indicate { Rx.examplePacket with data := .frame address } ⟨Rx.examplePacket, 0⟩)

/-- Each packet is parsed before the next one is dispatched. -/
theorem run_lossless_alternating :
    (run step exampleStation [arrive 0, arrive 8, .mesh (.attend false), .aquilaLoop,
      .mesh (.attend false), .aquilaLoop]).Lossless :=
  (run_lossless _ _ _).1 (by decide)

/-- Two mesh loops in a row overwrite the first of two packets. -/
theorem run_overwrites :
    ¬ ∀ ls : List StationStep, (run step exampleStation ls).Lossless := by
  intro hall
  exact absurd (hall [arrive 0, arrive 8, .mesh (.attend false), .mesh (.attend false)])
    (by decide)

end Station

end Aquila.Protocol
